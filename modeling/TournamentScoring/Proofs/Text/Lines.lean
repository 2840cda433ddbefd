import Mathlib.Data.List.Forall2
import TournamentScoring.Json.Printer
import TournamentScoring.Sha256
import TournamentScoring.Text.Identifier

/-!
# Lines of a text

A line break ends one line of a text and begins the next.  What the program
writes by itself stays on one line: numbers, digests, identifiers, and JSON
values, in which a line break is escaped.
-/

namespace TournamentScoring

namespace Text

/-- Some line of a text starts with the given characters. -/
def HasLine (start text : List Char) : Prop :=
  ∃ line ∈ text.splitOn '\n', start <+: line

/-- Some line after the first one starts with the given characters. -/
def HasLaterLine (start text : List Char) : Prop :=
  ∃ line ∈ (text.splitOn '\n').tail, start <+: line

/-! ## Splitting -/

section Splitting

variable {start : List Char}

theorem hasLine_append_lineBreak (before after : List Char) :
    HasLine start (before ++ '\n' :: after) ↔
      HasLine start before ∨ HasLine start after := by
  simp only [HasLine, List.splitOn_append_cons_self, List.mem_append, or_and_right,
    exists_or]

theorem hasLine_of_not_mem {line : List Char} (hline : '\n' ∉ line) :
    HasLine start line ↔ start <+: line := by
  simp only [HasLine, List.splitOn_eq_singleton hline, List.mem_singleton,
    exists_eq_left]

theorem not_hasLine_of_not_prefix {line : List Char} (hline : '\n' ∉ line)
    (hstart : ¬start <+: line) : ¬HasLine start line :=
  mt (hasLine_of_not_mem hline).mp hstart

/-- A text without a line break in front of another one belongs to its first
line. -/
theorem splitOn_append_of_not_mem {before : List Char} (hbefore : '\n' ∉ before)
    (after : List Char) :
    (before ++ after).splitOn '\n' =
      (after.splitOn '\n').modifyHead (before ++ ·) := by
  induction before with
  | nil => exact (congrFun List.modifyHead_id _).symm
  | cons character rest ih =>
    obtain ⟨hcharacter, hrest⟩ := not_or.mp (mt List.mem_cons.mpr hbefore)
    have hbeq : (character == '\n') = false :=
      beq_eq_false_iff_ne.mpr fun heq => hcharacter heq.symm
    rw [List.cons_append, List.splitOn_cons_eq_if_modifyHead, ih hrest, hbeq,
      if_neg Bool.false_ne_true, List.modifyHead_modifyHead]
    rfl

/-- A label without a line break changes the first line only. -/
theorem hasLaterLine_append_of_not_mem {label : List Char} (hlabel : '\n' ∉ label)
    (text : List Char) :
    HasLaterLine start (label ++ text) ↔ HasLaterLine start text := by
  rw [HasLaterLine, HasLaterLine, splitOn_append_of_not_mem hlabel,
    List.tail_modifyHead]

theorem hasLine_append_of_not_mem {label : List Char} (hlabel : '\n' ∉ label)
    (hstart : ∀ rest, ¬start <+: label ++ rest) (text : List Char) :
    HasLine start (label ++ text) ↔ HasLaterLine start text := by
  obtain ⟨first, later, hlines⟩ :=
    List.exists_cons_of_ne_nil (List.splitOn_ne_nil '\n' text)
  rw [HasLine, HasLaterLine, splitOn_append_of_not_mem hlabel, hlines,
    List.modifyHead_cons, List.tail_cons]
  simp only [List.mem_cons, or_and_right, exists_or, exists_eq_left,
    hstart first, false_or]

/-- One more character at the end makes the last line longer. -/
theorem forall₂_splitOn_concat (text : List Char) {last : Char}
    (hlast : last ≠ '\n') :
    List.Forall₂ (fun shorter line => line = shorter ∨ line = shorter ++ [last])
      (text.splitOn '\n') ((text ++ [last]).splitOn '\n') := by
  induction text with
  | nil =>
    have hline : ([] ++ [last]).splitOn '\n' = [[last]] :=
      List.splitOn_eq_singleton (by simp [hlast.symm])
    rw [hline]
    exact List.Forall₂.cons (Or.inr rfl) List.Forall₂.nil
  | cons character rest ih =>
    rw [List.cons_append, List.splitOn_cons_eq_if_modifyHead,
      List.splitOn_cons_eq_if_modifyHead]
    split
    · exact List.Forall₂.cons (Or.inl rfl) ih
    · -- The first line of the rest gets the character in front, and it may be
      -- the last one too.
      obtain ⟨first, later, hlines⟩ :=
        List.exists_cons_of_ne_nil (List.splitOn_ne_nil '\n' rest)
      rw [hlines] at ih ⊢
      obtain ⟨line, lines, hhead, htail, heq⟩ := List.forall₂_cons_left_iff.mp ih
      rw [heq]
      refine List.Forall₂.cons ?_ htail
      rcases hhead with rfl | rfl
      · exact Or.inl rfl
      · exact Or.inr rfl

theorem exists_mem_of_forall₂ {α β : Type} {related : α → β → Prop}
    {lefts : List α} {rights : List β} (hrelated : List.Forall₂ related lefts rights)
    {right : β} (hright : right ∈ rights) :
    ∃ left ∈ lefts, related left right := by
  induction hrelated with
  | nil => cases hright
  | cons hhead htail ih =>
    rcases List.mem_cons.mp hright with rfl | hmem
    · exact ⟨_, List.mem_cons_self, hhead⟩
    · obtain ⟨left, hleft, hrel⟩ := ih hmem
      exact ⟨left, List.mem_cons_of_mem _ hleft, hrel⟩

/-- A character that does not stand in `start` completes no such line. -/
theorem hasLaterLine_of_concat {text : List Char} {last : Char}
    (hbreak : last ≠ '\n') (hlast : last ∉ start)
    (hline : HasLaterLine start (text ++ [last])) :
    HasLaterLine start text := by
  obtain ⟨line, hmem, hstart⟩ := hline
  have hlines := List.forall₂_drop 1 (forall₂_splitOn_concat text hbreak)
  rw [List.drop_one, List.drop_one] at hlines
  obtain ⟨shorter, hshorter, hline⟩ := exists_mem_of_forall₂ hlines hmem
  refine ⟨shorter, hshorter, ?_⟩
  rcases hline with rfl | rfl
  · exact hstart
  · rcases List.prefix_concat_iff.mp hstart with heq | hprefix
    · exact absurd (heq ▸ List.mem_append_right _ (List.mem_singleton_self last))
        hlast
    · exact hprefix

end Splitting

/-! ## Texts of one line -/

/-- A text without a line break. -/
def IsOneLine (text : String) : Prop :=
  '\n' ∉ text.toList

instance (text : String) : Decidable (IsOneLine text) :=
  inferInstanceAs (Decidable ('\n' ∉ text.toList))

theorem isOneLine_append {left right : String} :
    IsOneLine (left ++ right) ↔ IsOneLine left ∧ IsOneLine right := by
  simp only [IsOneLine, String.toList_append, List.mem_append, not_or]

theorem IsOneLine.append {left right : String} (hleft : IsOneLine left)
    (hright : IsOneLine right) : IsOneLine (left ++ right) :=
  isOneLine_append.mpr ⟨hleft, hright⟩

theorem isOneLine_toString_char {character : Char} (hbreak : character ≠ '\n') :
    IsOneLine (toString character) := by
  change '\n' ∉ (String.singleton character).toList
  rw [String.toList_singleton, List.mem_singleton]
  exact hbreak.symm

theorem IsOneLine.not_hasLaterLine {start : List Char} {text : String}
    (htext : IsOneLine text) : ¬HasLaterLine start text.toList := by
  rintro ⟨line, hline, -⟩
  rw [List.splitOn_eq_singleton htext] at hline
  cases hline

theorem isOneLine_ofList {characters : List Char} :
    IsOneLine (String.ofList characters) ↔ '\n' ∉ characters := by
  rw [IsOneLine, String.toList_ofList]

theorem isOneLine_toString_nat (number : Nat) : IsOneLine (toString number) := by
  rw [Nat.toString_eq_ofList_toDigits, isOneLine_ofList]
  intro hmem
  have hdigit := Nat.isDigit_of_mem_toDigits (by decide) (by decide) hmem
  exact absurd hdigit (by decide)

theorem isOneLine_of_isIdentifier {name : String}
    (hname : isIdentifier name = true) : IsOneLine name := by
  rw [isIdentifier] at hname
  rw [IsOneLine]
  split at hname
  · rename_i hempty
    rw [hempty]
    exact List.not_mem_nil
  · rename_i first rest hcharacters
    rw [hcharacters]
    rw [Bool.and_eq_true, List.all_eq_true] at hname
    intro hmem
    rcases List.mem_cons.mp hmem with hfirst | hrest
    · exact absurd (hfirst ▸ hname.1) (by decide)
    · exact absurd (hname.2 _ hrest) (by decide)

theorem hexDigit_ne_lineBreak {value : Nat} (hvalue : value < 16) :
    hexDigit value ≠ '\n' := by
  have hall : ∀ value < 16, hexDigit value ≠ '\n' := by
    decide
  exact hall value hvalue

theorem not_mem_hexText (count value : Nat) : '\n' ∉ hexText count value := by
  induction count with
  | zero => exact List.not_mem_nil
  | succ count ih =>
    rw [hexText, List.mem_cons, not_or]
    exact ⟨(hexDigit_ne_lineBreak (Nat.mod_lt _ (by decide))).symm, ih⟩

theorem isOneLine_digest (message : List UInt8) :
    IsOneLine (Sha256.digest message) := by
  rw [Sha256.digest, isOneLine_ofList]
  intro hmem
  obtain ⟨word, -, hword⟩ := List.mem_flatMap.mp hmem
  exact not_mem_hexText _ _ hword

end Text

/-! ## Numbers -/

namespace Decimal

open TournamentScoring.Text

theorem not_mem_digitsOf (number : Nat) : '\n' ∉ digitsOf number :=
  isOneLine_toString_nat number

theorem not_mem_zeros (count : Nat) : '\n' ∉ zeros count := by
  intro hmem
  exact absurd (List.eq_of_mem_replicate hmem) (by decide)

namespace Style

theorem not_mem_positional (style : Style) {digits : List Char}
    (hdigits : '\n' ∉ digits) (exponent : Int) :
    '\n' ∉ style.positional digits exponent := by
  have hpoint : '\n' ∉ (if style.wholePoint then ['.', '0'] else []) := by
    split
    · decide
    · exact List.not_mem_nil
  rw [positional]
  split
  · simp only [List.mem_append, not_or]
    exact ⟨⟨hdigits, not_mem_zeros _⟩, hpoint⟩
  · dsimp only
    split
    · simp only [List.mem_append, List.mem_cons, not_or]
      exact ⟨fun hmem => hdigits (List.mem_of_mem_take hmem), by decide,
        fun hmem => hdigits (List.mem_of_mem_drop hmem)⟩
    · simp only [List.mem_append, List.mem_cons, not_or]
      exact ⟨by decide, by decide, not_mem_zeros _, hdigits⟩

theorem not_mem_scientific (style : Style) {digits : List Char}
    (hdigits : '\n' ∉ digits) (leading : Int) :
    '\n' ∉ style.scientific digits leading := by
  have hsign : '\n' ∉
      (if leading < 0 then ['-'] else if style.plus then ['+'] else []) := by
    split
    · decide
    · split
      · decide
      · exact List.not_mem_nil
  have hexponent := not_mem_digitsOf leading.natAbs
  simp only [scientific, List.mem_append, List.mem_cons, not_or]
  refine ⟨?_, by decide, hsign, hexponent⟩
  split
  · simp only [List.mem_cons, not_or] at hdigits ⊢
    exact ⟨hdigits.1, by decide, hdigits.2⟩
  · exact hdigits

theorem not_mem_layOut (style : Style) (value : Scientific) :
    '\n' ∉ style.layOut value := by
  rw [layOut]
  split
  · exact not_mem_positional style (not_mem_digitsOf _) _
  · exact not_mem_scientific style (not_mem_digitsOf _) _

theorem not_mem_signText (sign : Float.Model.UnpackedFloat.Sign) :
    '\n' ∉ signText sign := by
  cases sign with
  | negative => decide
  | positive => exact List.not_mem_nil

theorem isOneLine_write (style : Style) (value : Float) :
    IsOneLine (style.write value) := by
  rw [write]
  split
  · decide
  · rw [isOneLine_ofList, List.mem_append, not_or]
    exact ⟨not_mem_signText _, by decide⟩
  · rw [isOneLine_ofList, List.mem_append, not_or]
    exact ⟨not_mem_signText _, not_mem_positional style (by decide) 0⟩
  · rw [isOneLine_ofList, List.mem_append, not_or]
    exact ⟨not_mem_signText _, not_mem_layOut style _⟩

end Style

end Decimal

/-! ## JSON values -/

namespace Json

open TournamentScoring.Text

/-- A line break between quotes is written as an escape. -/
theorem not_mem_escape (character : Char) : '\n' ∉ escape character := by
  unfold escape
  split
  · decide
  split
  · decide
  split
  · decide
  split
  · decide
  split
  · decide
  split
  · decide
  split
  · decide
  split
  · rw [List.mem_append, not_or]
    exact ⟨by decide, not_mem_hexText 4 _⟩
  · rename_i hbreak _ _ _ _ _
    exact fun hmem => hbreak (List.mem_singleton.mp hmem).symm

theorem not_mem_quoted (text : String) : '\n' ∉ quoted text := by
  rw [quoted, List.mem_cons, List.mem_append, not_or, not_or]
  refine ⟨by decide, ?_, by decide⟩
  intro hmem
  obtain ⟨character, -, hcharacter⟩ := List.mem_flatMap.mp hmem
  exact not_mem_escape character hcharacter

theorem not_mem_floatText (value : Float) : '\n' ∉ floatText value := by
  rw [floatText]
  split
  · exact Decimal.Style.isOneLine_write _ value
  · decide

theorem isOneLine_toString_int (value : Int) : IsOneLine (toString value) := by
  cases value with
  | ofNat magnitude => exact isOneLine_toString_nat magnitude
  | negSucc magnitude =>
    have hminus : IsOneLine "-" := by decide
    exact isOneLine_append.mpr ⟨hminus, isOneLine_toString_nat magnitude.succ⟩

theorem not_mem_scalarText (value : Json) : '\n' ∉ scalarText value := by
  have hnull : '\n' ∉ scalarText null := by
    decide
  cases value with
  | boolean value =>
    cases value with
    | false => decide
    | true => decide
  | integer value => exact isOneLine_toString_int value
  | float value => exact not_mem_floatText value
  | text value => exact not_mem_quoted value
  | null => exact hnull
  | array items => exact hnull
  | object members => exact hnull

mutual

theorem not_mem_compactText : ∀ value : Json, '\n' ∉ value.compactText
  | array items => by
    have hitems := not_mem_compactItems items
    simp [compactText, hitems]
  | object members => by
    have hmembers := not_mem_compactMembers members
    simp [compactText, hmembers]
  | null => not_mem_scalarText null
  | boolean value => not_mem_scalarText (boolean value)
  | integer value => not_mem_scalarText (integer value)
  | float value => not_mem_scalarText (float value)
  | text value => not_mem_scalarText (text value)

theorem not_mem_compactItems : ∀ items : List Json, '\n' ∉ compactItems items
  | [] => List.not_mem_nil
  | [item] => not_mem_compactText item
  | item :: next :: items => by
    have hitem := not_mem_compactText item
    have hitems := not_mem_compactItems (next :: items)
    simp [compactItems, hitem, hitems]

theorem not_mem_compactMembers :
    ∀ members : List (String × Json), '\n' ∉ compactMembers members
  | [] => List.not_mem_nil
  | [(key, value)] => by
    have hkey := not_mem_quoted key
    have hvalue := not_mem_compactText value
    simp [compactMembers, hkey, hvalue]
  | (key, value) :: next :: members => by
    have hkey := not_mem_quoted key
    have hvalue := not_mem_compactText value
    have hmembers := not_mem_compactMembers (next :: members)
    simp [compactMembers, hkey, hvalue, hmembers]

end

theorem isOneLine_compact (value : Json) : IsOneLine value.compact :=
  isOneLine_ofList.mpr (not_mem_compactText value)

end Json

end TournamentScoring
