import TournamentScoring.Text.Blank
import TournamentScoring.Text.Identifier

/-!
# Runs of characters

A text is cut where a run of characters of one kind stops.  The kinds that a formula is
made of do not overlap: a blank character goes on with no word, and what a name starts
with starts no number.
-/

namespace TournamentScoring.Text

/-- A text that does not start with a character of this kind. -/
def Stops (kind : Char → Bool) (after : List Char) : Prop :=
  ∀ character ∈ after.head?, kind character = false

section Runs

variable {kind : Char → Bool} {run after : List Char}

theorem stops_nil : Stops kind [] := by
  rintro _ ⟨⟩

theorem stops_cons {character : Char} :
    Stops kind (character :: after) ↔ kind character = false := by
  simp [Stops]

theorem stops_iff : Stops kind after ↔ after.head?.any kind = false := by
  cases after <;> simp [Stops]

theorem Stops.mono {wider : Char → Bool} (hstops : Stops wider after)
    (hkind : ∀ character, kind character = true → wider character = true) :
    Stops kind after := by
  intro character hmem
  have hwider := hstops character hmem
  have := hkind character
  grind

/-- Whether a text goes on with a character of a kind is seen from its first character. -/
theorem Stops.append_cons {next : Char} {rest : List Char} (hstops : Stops kind after)
    (hnext : kind next = false) : Stops kind (after ++ next :: rest) := by
  cases after with
  | nil => exact stops_cons.mpr hnext
  | cons first after => exact stops_cons.mpr (stops_cons.mp hstops)

theorem Stops.of_append {rest : List Char} (hstops : Stops kind (after ++ rest)) :
    Stops kind after := by
  cases after with
  | nil => exact stops_nil
  | cons first after => exact stops_cons.mpr (stops_cons.mp hstops)

theorem takeWhile_run (hrun : ∀ character ∈ run, kind character = true)
    (hafter : Stops kind after) : (run ++ after).takeWhile kind = run := by
  rw [List.takeWhile_append_of_pos hrun]
  cases after with
  | nil => simp
  | cons first after => simp [stops_cons.mp hafter]

theorem dropWhile_run (hrun : ∀ character ∈ run, kind character = true)
    (hafter : Stops kind after) : (run ++ after).dropWhile kind = after := by
  rw [List.dropWhile_append_of_pos hrun]
  cases after with
  | nil => rfl
  | cons first after => simp [stops_cons.mp hafter]

theorem exists_run (kind : Char → Bool) (text : List Char) :
    ∃ run after, text = run ++ after ∧ (∀ character ∈ run, kind character = true) ∧
      Stops kind after := by
  refine ⟨text.takeWhile kind, text.dropWhile kind,
    List.takeWhile_append_dropWhile.symm, List.all_eq_true.mp List.all_takeWhile, ?_⟩
  intro character hmem
  have hnot := List.head?_dropWhile_not kind text
  rw [Option.mem_def.mp hmem] at hnot
  exact hnot

end Runs

/-! ## Kinds of characters -/

section Kinds

variable {character : Char}

theorem inRange_iff (first last : Char) :
    (decide (first.val ≤ character.val) && decide (character.val ≤ last.val)) = true ↔
      first.toNat ≤ character.toNat ∧ character.toNat ≤ last.toNat := by
  simp only [Bool.and_eq_true, decide_eq_true_eq, UInt32.le_iff_toNat_le]
  rfl

theorem isDigit_iff :
    character.isDigit = true ↔ 0x30 ≤ character.toNat ∧ character.toNat ≤ 0x39 :=
  inRange_iff '0' '9'

theorem isNameStart_iff :
    isNameStart character = true ↔
      (0x41 ≤ character.toNat ∧ character.toNat ≤ 0x5A ∨
        0x61 ≤ character.toNat ∧ character.toNat ≤ 0x7A) ∨ character.toNat = 0x5F := by
  have hupper : character.isUpper = true ↔
      0x41 ≤ character.toNat ∧ character.toNat ≤ 0x5A := decide_eq_true_iff
  have hlower : character.isLower = true ↔
      0x61 ≤ character.toNat ∧ character.toNat ≤ 0x7A := inRange_iff 'a' 'z'
  have hunderscore : character = '_' ↔ character.toNat = 0x5F := Char.toNat_inj.symm
  have hsplit : isNameStart character =
      (character.isUpper || character.isLower || character == '_') := rfl
  rw [hsplit, Bool.or_eq_true, Bool.or_eq_true, beq_iff_eq, hupper, hlower, hunderscore]

theorem isNameRest_iff :
    isNameRest character = true ↔
      isNameStart character = true ∨ character.isDigit = true := by
  rw [isNameRest, isNameStart, Char.isAlphanum, Bool.or_right_comm, Bool.or_eq_true]

theorem not_isNameStart_of_isDigit (hdigit : character.isDigit = true) :
    ¬isNameStart character = true := by
  rw [isDigit_iff] at hdigit
  rw [isNameStart_iff]
  omega

/-- A blank character is outside the ranges of letters and digits. -/
theorem isNameRest_of_isBlank (hblank : isBlank character = true) :
    isNameRest character = false := by
  simp only [isBlank, blankRanges, List.any_cons, List.any_nil, Bool.or_false,
    Bool.or_eq_true, Bool.and_eq_true, decide_eq_true_eq] at hblank
  rw [← Bool.not_eq_true, isNameRest_iff, isNameStart_iff, isDigit_iff]
  omega

theorem isNameStart_of_isBlank (hblank : isBlank character = true) :
    isNameStart character = false := by
  refine Bool.eq_false_iff.mpr fun hname => ?_
  have hrest := isNameRest_iff.mpr (.inl hname)
  rw [isNameRest_of_isBlank hblank] at hrest
  cases hrest

theorem isDigit_of_isBlank (hblank : isBlank character = true) :
    character.isDigit = false := by
  refine Bool.eq_false_iff.mpr fun hdigit => ?_
  have hrest := isNameRest_iff.mpr (.inr hdigit)
  rw [isNameRest_of_isBlank hblank] at hrest
  cases hrest

end Kinds

/-! ## Names -/

/-- A class of characters, by the first and the last of each of its ranges. -/
def InRanges (ranges : List (Char × Char)) (character : Char) : Prop :=
  ∃ range ∈ ranges, range.1.toNat ≤ character.toNat ∧ character.toNat ≤ range.2.toNat

/-- A text of the pattern `[A-Za-z_][A-Za-z0-9_]*`. -/
def IsName (text : String) : Prop :=
  ∃ first rest, text.toList = first :: rest ∧
    InRanges [('A', 'Z'), ('a', 'z'), ('_', '_')] first ∧
    ∀ character ∈ rest, InRanges [('A', 'Z'), ('a', 'z'), ('0', '9'), ('_', '_')] character

section Names

variable {character : Char} {text : String}

theorem inRanges_nameStart_iff :
    InRanges [('A', 'Z'), ('a', 'z'), ('_', '_')] character ↔ isNameStart character = true := by
  simp only [InRanges, isNameStart_iff, List.mem_cons, List.not_mem_nil, or_false,
    or_and_right, exists_or, exists_eq_left, Char.reduceToNat]
  omega

theorem inRanges_nameRest_iff :
    InRanges [('A', 'Z'), ('a', 'z'), ('0', '9'), ('_', '_')] character ↔
      isNameRest character = true := by
  simp only [InRanges, isNameRest_iff, isNameStart_iff, isDigit_iff, List.mem_cons,
    List.not_mem_nil, or_false, or_and_right, exists_or, exists_eq_left, Char.reduceToNat]
  omega

/-- An identifier is what the pattern says. -/
theorem isIdentifier_iff : isIdentifier text = true ↔ IsName text := by
  rw [isIdentifier, IsName]
  cases text.toList with
  | nil => simp
  | cons first rest =>
    simp only [List.cons.injEq, Bool.and_eq_true, List.all_eq_true, inRanges_nameStart_iff,
      inRanges_nameRest_iff]
    constructor
    · intro hname
      exact ⟨first, rest, ⟨rfl, rfl⟩, hname⟩
    · rintro ⟨_, _, ⟨rfl, rfl⟩, hname⟩
      exact hname

end Names

end TournamentScoring.Text
