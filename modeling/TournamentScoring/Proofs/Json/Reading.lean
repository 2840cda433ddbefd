import TournamentScoring.Json.Reader
import TournamentScoring.Proofs.Json.Number
import TournamentScoring.Proofs.Json.Text

/-!
# Compact texts are read back

A text is read as a source if the reader finds the source at the start of every
text that goes on after it without prolonging a number.  Scalars are read in this
way, and arrays and objects are if their items and members are, with any space
between them, so the compact text of a value is read as the value.
-/

namespace TournamentScoring.Json

open TournamentScoring.Document

/-! ## Texts that are read -/

/-- The first character is one that a value can start with. -/
def StartsValue (text : List Char) : Prop :=
  ∃ first more, text = first :: more ∧ isSpace first = false ∧ first ≠ ']'

/-- Each character pays for two calls of the reader. -/
structure Reads (text : List Char) (source : Source) : Prop where
  starts : StartsValue text
  readValue_eq : ∀ fuel rest, 2 * text.length ≤ fuel → EndsNumber rest →
    readValue fuel (text ++ rest) = (source, some rest)

/-- The items of an array, up to its closing bracket. -/
structure ReadsItems (text : List Char) (items : List Source) : Prop where
  starts : StartsValue text
  readItems_eq : ∀ fuel rest, 2 * text.length < fuel →
    readItems fuel (text ++ ']' :: rest) = (items, .ok rest)

/-- The members of an object, up to its closing brace. -/
structure ReadsMembers (text : List Char) (members : List (Label × Source)) :
    Prop where
  starts : text.head? = some '"'
  readMembers_eq : ∀ fuel rest, 2 * text.length < fuel →
    readMembers fuel (text ++ '\x7d' :: rest) = (members, .ok rest)

theorem endsNumber_cons {first : Char} (hdigit : first.isDigit = false)
    (hpoint : first ≠ '.') (hlower : first ≠ 'e') (hupper : first ≠ 'E')
    (rest : List Char) : EndsNumber (first :: rest) := by
  rintro character ⟨rfl⟩
  exact ⟨hdigit, hpoint, hlower, hupper⟩

theorem endsNumber_comma (rest : List Char) : EndsNumber (',' :: rest) :=
  endsNumber_cons (by decide) (by decide) (by decide) (by decide) rest

theorem endsNumber_bracket (rest : List Char) : EndsNumber (']' :: rest) :=
  endsNumber_cons (by decide) (by decide) (by decide) (by decide) rest

theorem endsNumber_brace (rest : List Char) : EndsNumber ('\x7d' :: rest) :=
  endsNumber_cons (by decide) (by decide) (by decide) (by decide) rest

theorem dropSpace_cons {first : Char} (hfirst : isSpace first = false)
    (rest : List Char) : dropSpace (first :: rest) = first :: rest := by
  rw [dropSpace, List.dropWhile_cons_of_neg (by rw [hfirst]; decide)]

/-! ## Space -/

/-- Nothing but characters that the reader skips between values. -/
def AllSpace (space : List Char) : Prop :=
  ∀ character ∈ space, isSpace character = true

theorem allSpace_nil : AllSpace [] := by
  rintro _ ⟨⟩

section

variable {space : List Char}

theorem dropSpace_append (hspace : AllSpace space) (rest : List Char) :
    dropSpace (space ++ rest) = dropSpace rest :=
  List.dropWhile_append_of_pos hspace

theorem readValue_append (hspace : AllSpace space) (fuel : Nat) (rest : List Char) :
    readValue fuel (space ++ rest) = readValue fuel rest := by
  cases fuel with
  | zero => rfl
  | succ fuel => rw [readValue, readValue, dropSpace_append hspace]

theorem readItems_append (hspace : AllSpace space) (fuel : Nat) (rest : List Char) :
    readItems fuel (space ++ rest) = readItems fuel rest := by
  cases fuel with
  | zero => rfl
  | succ fuel => rw [readItems, readItems, readValue_append hspace]

theorem readMembers_append (hspace : AllSpace space) (fuel : Nat) (rest : List Char) :
    readMembers fuel (space ++ rest) = readMembers fuel rest := by
  cases fuel with
  | zero => rfl
  | succ fuel => rw [readMembers, readMembers, dropSpace_append hspace]

/-- Space does not prolong a number. -/
theorem EndsNumber.append (hspace : AllSpace space) {rest : List Char}
    (hrest : EndsNumber rest) : EndsNumber (space ++ rest) := by
  cases space with
  | nil => exact hrest
  | cons first more =>
    have hfirst := hspace first List.mem_cons_self
    simp only [isSpace, Bool.or_eq_true, beq_iff_eq] at hfirst
    rcases hfirst with ((rfl | rfl) | rfl) | rfl
    all_goals exact endsNumber_cons (by decide) (by decide) (by decide) (by decide) _

end

/-! ## Where a value starts -/

theorem StartsValue.append {text : List Char} (hstarts : StartsValue text)
    (rest : List Char) : StartsValue (text ++ rest) := by
  obtain ⟨first, more, rfl, hspace, hbracket⟩ := hstarts
  exact ⟨first, more ++ rest, rfl, hspace, hbracket⟩

theorem StartsValue.length_pos {text : List Char} (hstarts : StartsValue text) :
    0 < text.length := by
  obtain ⟨first, more, rfl, -, -⟩ := hstarts
  exact Nat.succ_pos _

/-! ## Scalars -/

/-- The first character is one that a scalar can start with. -/
def StartsScalar (text : List Char) : Prop :=
  ∃ first more, text = first :: more ∧ isSpace first = false ∧ first ≠ ']' ∧
    first ≠ '[' ∧ first ≠ '\x7b'

theorem StartsScalar.startsValue {text : List Char} (hstarts : StartsScalar text) :
    StartsValue text := by
  obtain ⟨first, more, rfl, hspace, hbracket, -, -⟩ := hstarts
  exact ⟨first, more, rfl, hspace, hbracket⟩

theorem reads_scalar {text : List Char} {source : Source}
    (hstarts : StartsScalar text)
    (hscalar : ∀ rest, EndsNumber rest → scalarStep (text ++ rest) = (source, some rest)) :
    Reads text source := by
  refine ⟨hstarts.startsValue, ?_⟩
  intro fuel rest hfuel hrest
  have hread := hscalar rest hrest
  have hlength := hstarts.startsValue.length_pos
  obtain ⟨first, more, rfl, hspace, hbracket, harray, hobject⟩ := hstarts
  obtain ⟨fuel, rfl⟩ : ∃ less, fuel = less + 1 :=
    Nat.exists_eq_succ_of_ne_zero (by omega)
  rw [readValue, List.cons_append, dropSpace_cons hspace, ← hread]
  split
  case h_1 heq =>
    cases heq
    exact absurd rfl harray
  case h_2 heq =>
    cases heq
    exact absurd rfl hobject
  case h_3 => rfl

theorem isSpace_of_isDigit {first : Char} (hfirst : first.isDigit = true) :
    isSpace first = false := by
  simp only [isSpace, Bool.or_eq_false_iff, beq_eq_false_iff_ne]
  refine ⟨⟨⟨?_, ?_⟩, ?_⟩, ?_⟩
  all_goals exact ne_of_isDigit hfirst (by decide)

theorem startsScalar_text {parts : NumberParts} (hparts : parts.WellFormed) :
    StartsScalar parts.text := by
  rw [NumberParts.text]
  cases parts.negative with
  | true => exact ⟨'-', parts.magnitudeText, rfl, by decide, by decide, by decide, by decide⟩
  | false =>
    obtain ⟨hne, hdigits⟩ := hparts.whole
    obtain ⟨first, more, hwhole⟩ := List.exists_cons_of_ne_nil hne
    have hfirst : first.isDigit = true :=
      hdigits first (by rw [hwhole]; exact List.mem_cons_self)
    rw [if_neg Bool.false_ne_true, NumberParts.magnitudeText, hwhole]
    refine ⟨first, _, rfl, isSpace_of_isDigit hfirst, ?_, ?_, ?_⟩
    all_goals exact ne_of_isDigit hfirst (by decide)

theorem reads_integer {value : Int} (hvalue : FitsWord value) :
    Reads (toString value).toList (.integer value) := by
  refine reads_scalar ?_ fun rest => scalarStep_toString hvalue
  rw [← text_ofInt]
  exact startsScalar_text (wellFormed_ofInt value)

theorem reads_float {value : Float} (hfinite : value.isFinite = true) :
    Reads (floatText value) (.float (reread value)) := by
  refine reads_scalar ?_ fun rest => scalarStep_floatText hfinite
  obtain ⟨parts, hparts, htext, -⟩ := exists_parts_floatText hfinite
  rw [← htext]
  exact startsScalar_text hparts

theorem reads_text (text : String) : Reads (quoted text) (.text text) :=
  reads_scalar ⟨'"', _, rfl, by decide, by decide, by decide, by decide⟩
    fun rest _ => scalarStep_quoted rest text

theorem reads_boolean (value : Bool) :
    Reads (scalarText (.boolean value)) (.boolean value) := by
  cases value with
  | true =>
    exact reads_scalar ⟨'t', _, rfl, by decide, by decide, by decide, by decide⟩
      fun rest _ => rfl
  | false =>
    exact reads_scalar ⟨'f', _, rfl, by decide, by decide, by decide, by decide⟩
      fun rest _ => rfl

theorem reads_null : Reads ['n', 'u', 'l', 'l'] .null :=
  reads_scalar ⟨'n', _, rfl, by decide, by decide, by decide, by decide⟩
    fun rest _ => rfl

/-! ## Arrays -/

section

variable {text more space : List Char} {item : Source} {items : List Source}

theorem Reads.single_spaced (hitem : Reads text item) (hspace : AllSpace space) :
    ReadsItems (text ++ space) [item] := by
  refine ⟨hitem.starts.append space, ?_⟩
  intro fuel rest hfuel
  rw [List.length_append] at hfuel
  obtain ⟨fuel, rfl⟩ : ∃ less, fuel = less + 1 :=
    Nat.exists_eq_succ_of_ne_zero (by omega)
  rw [readItems, List.append_assoc,
    hitem.readValue_eq fuel _ (by omega) ((endsNumber_bracket rest).append hspace)]
  simp only [dropSpace_append hspace, dropSpace_cons (by decide : isSpace ']' = false)]

theorem Reads.single (hitem : Reads text item) : ReadsItems text [item] := by
  have hitems := hitem.single_spaced allSpace_nil
  rwa [List.append_nil] at hitems

theorem ReadsItems.cons_spaced (hitems : ReadsItems more items) (hitem : Reads text item)
    (hspace : AllSpace space) :
    ReadsItems (text ++ ',' :: (space ++ more)) (item :: items) := by
  refine ⟨hitem.starts.append _, ?_⟩
  intro fuel rest hfuel
  rw [List.length_append, List.length_cons, List.length_append] at hfuel
  obtain ⟨fuel, rfl⟩ : ∃ less, fuel = less + 1 :=
    Nat.exists_eq_succ_of_ne_zero (by omega)
  rw [readItems, List.append_assoc, List.cons_append, List.append_assoc,
    hitem.readValue_eq fuel _ (by omega) (endsNumber_comma _)]
  simp only [dropSpace_cons (by decide : isSpace ',' = false), readItems_append hspace,
    hitems.readItems_eq fuel rest (by omega)]

theorem ReadsItems.cons (hitems : ReadsItems more items) (hitem : Reads text item) :
    ReadsItems (text ++ ',' :: more) (item :: items) :=
  hitems.cons_spaced hitem allSpace_nil

theorem reads_empty_array : Reads ['[', ']'] (.array [] none) := by
  refine ⟨⟨'[', _, rfl, by decide, by decide⟩, ?_⟩
  intro fuel rest hfuel hrest
  obtain ⟨fuel, rfl⟩ : ∃ less, fuel = less + 1 :=
    Nat.exists_eq_succ_of_ne_zero (by rw [List.length_cons] at hfuel; omega)
  rfl

theorem ReadsItems.reads_array_spaced (hitems : ReadsItems text items)
    (hspace : AllSpace space) :
    Reads ('[' :: (space ++ (text ++ [']']))) (.array items none) := by
  refine ⟨⟨'[', _, rfl, by decide, by decide⟩, ?_⟩
  intro fuel rest hfuel hrest
  rw [List.length_cons, List.length_append, List.length_append] at hfuel
  obtain ⟨fuel, rfl⟩ : ∃ less, fuel = less + 1 :=
    Nat.exists_eq_succ_of_ne_zero (by omega)
  have hread := hitems.readItems_eq fuel rest (by omega)
  obtain ⟨first, more, rfl, hfirst, hbracket⟩ := hitems.starts
  rw [readValue, List.cons_append, List.append_assoc, List.append_assoc,
    List.singleton_append, dropSpace_cons (by decide)]
  simp only [List.cons_append, dropSpace_append hspace, dropSpace_cons hfirst] at hread ⊢
  split
  case h_1 heq =>
    -- No item starts with the bracket that would end the array here.
    cases heq
    exact absurd rfl hbracket
  case h_2 heq => cases heq
  case h_3 => rw [hread]

theorem ReadsItems.reads_array (hitems : ReadsItems text items) :
    Reads ('[' :: (text ++ [']'])) (.array items none) :=
  hitems.reads_array_spaced allSpace_nil

end

/-! ## Objects -/

section

variable {text more gap space : List Char} {value : Source}
  {members : List (Label × Source)}

theorem readColonAndValue_eq (hvalue : Reads text value) (hgap : AllSpace gap)
    {fuel : Nat} (hfuel : 2 * text.length < fuel) {rest : List Char}
    (hrest : EndsNumber rest) :
    readColonAndValue fuel (':' :: (gap ++ (text ++ rest))) = (value, some rest) := by
  obtain ⟨fuel, rfl⟩ : ∃ less, fuel = less + 1 :=
    Nat.exists_eq_succ_of_ne_zero (by omega)
  rw [readColonAndValue, dropSpace_cons (by decide)]
  simp only [readValue_append hgap]
  exact hvalue.readValue_eq fuel rest (by omega) hrest

theorem length_quoted (key : String) : 2 ≤ (quoted key).length := by
  rw [quoted, List.length_cons, List.length_append, List.length_singleton]
  omega

/-- The last member is read up to the closing brace. -/
theorem readMembers_last (key : String) (hvalue : Reads text value)
    (hgap : AllSpace gap) (hspace : AllSpace space) {fuel : Nat}
    (hfuel : 2 * text.length < fuel) (rest : List Char) :
    readMembers (fuel + 1)
        (quoted key ++ ':' :: (gap ++ (text ++ (space ++ '\x7d' :: rest)))) =
      ([(.name key, value)], .ok rest) := by
  simp only [readMembers, quoted, List.cons_append, List.append_assoc,
    List.nil_append, dropSpace_cons (by decide : isSpace '"' = false),
    readText_quoted, readColonAndValue_eq hvalue hgap hfuel
      ((endsNumber_brace rest).append hspace),
    dropSpace_append hspace, dropSpace_cons (by decide : isSpace '\x7d' = false)]

/-- Any other member is read up to the comma, and the members after it next. -/
theorem readMembers_next (key : String) (hvalue : Reads text value)
    (hgap : AllSpace gap) {fuel : Nat} (hfuel : 2 * text.length < fuel)
    (rest : List Char) :
    readMembers (fuel + 1) (quoted key ++ ':' :: (gap ++ (text ++ ',' :: rest))) =
      ((.name key, value) :: (readMembers fuel rest).1, (readMembers fuel rest).2) := by
  simp only [readMembers, quoted, List.cons_append, List.append_assoc,
    List.nil_append, dropSpace_cons (by decide : isSpace '"' = false),
    readText_quoted, readColonAndValue_eq hvalue hgap hfuel (endsNumber_comma rest),
    dropSpace_cons (by decide : isSpace ',' = false)]

theorem Reads.single_member_spaced (key : String) (hvalue : Reads text value)
    (hgap : AllSpace gap) (hspace : AllSpace space) :
    ReadsMembers (quoted key ++ ':' :: (gap ++ (text ++ space)))
      [(.name key, value)] := by
  refine ⟨rfl, ?_⟩
  intro fuel rest hfuel
  have hkey := length_quoted key
  simp only [List.length_append, List.length_cons] at hfuel
  obtain ⟨fuel, rfl⟩ : ∃ less, fuel = less + 1 :=
    Nat.exists_eq_succ_of_ne_zero (by omega)
  rw [List.append_assoc, List.cons_append, List.append_assoc, List.append_assoc,
    readMembers_last key hvalue hgap hspace (by omega)]

theorem Reads.single_member (key : String) (hvalue : Reads text value) :
    ReadsMembers (quoted key ++ ':' :: text) [(.name key, value)] := by
  have hmembers := hvalue.single_member_spaced key allSpace_nil allSpace_nil
  rwa [List.nil_append, List.append_nil] at hmembers

theorem ReadsMembers.cons_spaced (hmembers : ReadsMembers more members) (key : String)
    (hvalue : Reads text value) (hgap : AllSpace gap) (hspace : AllSpace space) :
    ReadsMembers (quoted key ++ ':' :: (gap ++ (text ++ ',' :: (space ++ more))))
      ((.name key, value) :: members) := by
  refine ⟨rfl, ?_⟩
  intro fuel rest hfuel
  have hkey := length_quoted key
  simp only [List.length_append, List.length_cons] at hfuel
  obtain ⟨fuel, rfl⟩ : ∃ less, fuel = less + 1 :=
    Nat.exists_eq_succ_of_ne_zero (by omega)
  rw [List.append_assoc, List.cons_append, List.append_assoc, List.append_assoc,
    List.cons_append, List.append_assoc, readMembers_next key hvalue hgap (by omega),
    readMembers_append hspace, hmembers.readMembers_eq fuel rest (by omega)]

theorem ReadsMembers.cons (hmembers : ReadsMembers more members) (key : String)
    (hvalue : Reads text value) :
    ReadsMembers (quoted key ++ ':' :: (text ++ ',' :: more))
      ((.name key, value) :: members) :=
  hmembers.cons_spaced key hvalue allSpace_nil allSpace_nil

theorem reads_empty_object : Reads ['\x7b', '\x7d'] (.object [] none) := by
  refine ⟨⟨'\x7b', _, rfl, by decide, by decide⟩, ?_⟩
  intro fuel rest hfuel hrest
  obtain ⟨fuel, rfl⟩ : ∃ less, fuel = less + 1 :=
    Nat.exists_eq_succ_of_ne_zero (by rw [List.length_cons] at hfuel; omega)
  rfl

theorem ReadsMembers.reads_object_spaced (hmembers : ReadsMembers text members)
    (hspace : AllSpace space) :
    Reads ('\x7b' :: (space ++ (text ++ ['\x7d']))) (.object members none) := by
  refine ⟨⟨'\x7b', _, rfl, by decide, by decide⟩, ?_⟩
  intro fuel rest hfuel hrest
  rw [List.length_cons, List.length_append, List.length_append] at hfuel
  obtain ⟨fuel, rfl⟩ : ∃ less, fuel = less + 1 :=
    Nat.exists_eq_succ_of_ne_zero (by omega)
  have hread := hmembers.readMembers_eq fuel rest (by omega)
  obtain ⟨more, rfl⟩ := List.head?_eq_some_iff.mp hmembers.starts
  rw [readValue, List.cons_append, List.append_assoc, List.append_assoc,
    List.singleton_append, dropSpace_cons (by decide)]
  rw [List.cons_append] at hread
  simp only [List.cons_append, dropSpace_append hspace,
    dropSpace_cons (by decide : isSpace '"' = false)]
  split
  case h_1 heq => cases heq
  case h_2 => rw [hread]

theorem ReadsMembers.reads_object (hmembers : ReadsMembers text members) :
    Reads ('\x7b' :: (text ++ ['\x7d'])) (.object members none) :=
  hmembers.reads_object_spaced allSpace_nil

end

/-! ## What is written -/

/-- The value that the text of a float stands for: JSON has no other floats than finite
ones. -/
def ofFloat (value : Float) : Json :=
  if value.isFinite then .float (reread value) else .null

mutual

/-- The value that the text of a value stands for. -/
def asWritten : Json → Json
  | .float value => ofFloat value
  | .array items => .array (itemsAsWritten items)
  | .object members => .object (membersAsWritten members)
  | scalar => scalar

def itemsAsWritten : List Json → List Json
  | [] => []
  | item :: items => item.asWritten :: itemsAsWritten items

def membersAsWritten : List (String × Json) → List (String × Json)
  | [] => []
  | (key, value) :: members => (key, value.asWritten) :: membersAsWritten members

end

theorem itemsAsWritten_eq_map (items : List Json) :
    itemsAsWritten items = items.map asWritten := by
  induction items with
  | nil => rfl
  | cons item items ih => rw [itemsAsWritten, ih, List.map_cons]

theorem membersAsWritten_eq_map (members : List (String × Json)) :
    membersAsWritten members = members.map fun member => (member.1, member.2.asWritten) := by
  induction members with
  | nil => rfl
  | cons member members ih => rw [membersAsWritten, ih, List.map_cons]

theorem reads_ofFloat (value : Float) :
    Reads (floatText value) (Source.ofJson (ofFloat value)) := by
  by_cases hfinite : value.isFinite = true
  · rw [ofFloat, if_pos hfinite]
    exact reads_float hfinite
  · rw [ofFloat, if_neg hfinite, floatText, if_neg hfinite]
    exact reads_null

/-! ## Values -/

mutual

/-- Values whose whole numbers fit a word, so that they are not read as floats. -/
def Readable : Json → Prop
  | .integer value => FitsWord value
  | .array items => ReadableItems items
  | .object members => ReadableMembers members
  | _ => True

def ReadableItems : List Json → Prop
  | [] => True
  | item :: items => Readable item ∧ ReadableItems items

def ReadableMembers : List (String × Json) → Prop
  | [] => True
  | (_, value) :: members => Readable value ∧ ReadableMembers members

end

theorem readableItems_iff {items : List Json} :
    ReadableItems items ↔ ∀ item ∈ items, Readable item := by
  induction items with
  | nil => exact iff_of_true trivial (by rintro _ ⟨⟩)
  | cons item items ih => rw [ReadableItems, ih, List.forall_mem_cons]

theorem readableMembers_iff {members : List (String × Json)} :
    ReadableMembers members ↔ ∀ member ∈ members, Readable member.2 := by
  induction members with
  | nil => exact iff_of_true trivial (by rintro _ ⟨⟩)
  | cons member members ih => rw [ReadableMembers, ih, List.forall_mem_cons]

mutual

/-- The compact text of a value is read as what it stands for. -/
theorem reads_compactText :
    ∀ value : Json, Readable value →
      Reads (compactText value) (Source.ofJson value.asWritten)
  | .null, _ => reads_null
  | .boolean value, _ => reads_boolean value
  | .integer _, hvalue => reads_integer hvalue
  | .float value, _ => reads_ofFloat value
  | .text content, _ => reads_text content
  | .array [], _ => reads_empty_array
  | .array (item :: items), hitems =>
    (readsItems_compactItems (item :: items) (List.cons_ne_nil _ _) hitems).reads_array
  | .object [], _ => reads_empty_object
  | .object (member :: members), hmembers =>
    (readsMembers_compactMembers (member :: members) (List.cons_ne_nil _ _)
      hmembers).reads_object

theorem readsItems_compactItems :
    ∀ items : List Json, items ≠ [] → ReadableItems items →
      ReadsItems (compactItems items) (Source.ofItems (itemsAsWritten items))
  | [], hne, _ => absurd rfl hne
  | [item], _, hitems => (reads_compactText item hitems.1).single
  | item :: next :: items, _, hitems =>
    (readsItems_compactItems (next :: items) (List.cons_ne_nil _ _) hitems.2).cons
      (reads_compactText item hitems.1)

theorem readsMembers_compactMembers :
    ∀ members : List (String × Json), members ≠ [] → ReadableMembers members →
      ReadsMembers (compactMembers members)
        (Source.ofMembers (membersAsWritten members))
  | [], hne, _ => absurd rfl hne
  | [(key, value)], _, hmembers =>
    (reads_compactText value hmembers.1).single_member key
  | (key, value) :: next :: members, _, hmembers =>
    (readsMembers_compactMembers (next :: members) (List.cons_ne_nil _ _)
      hmembers.2).cons key (reads_compactText value hmembers.1)

end

/-- A whole text that is read leaves nothing behind. -/
theorem Reads.read_eq {text : List Char} {source : Source} (hread : Reads text source) :
    read (String.ofList text) = ⟨source, false⟩ := by
  have hvalue := hread.readValue_eq (2 * text.length + 2) [] (by omega) (by rintro _ ⟨⟩)
  rw [List.append_nil] at hvalue
  rw [read, String.toList_ofList]
  simp only [hvalue]
  rfl

/-- Reading the compact text of a value gives what it stands for and nothing else. -/
theorem read_compact {value : Json} (hvalue : Readable value) :
    read value.compact = ⟨Source.ofJson value.asWritten, false⟩ :=
  (reads_compactText value hvalue).read_eq

end TournamentScoring.Json
