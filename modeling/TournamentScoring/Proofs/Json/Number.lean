import TournamentScoring.Json.Printer
import TournamentScoring.Proofs.Json.Scaling
import TournamentScoring.Proofs.Text.Runs

/-!
# Numbers are read back

A number is cut into the parts that it was put together from, whatever follows it
in the text.  A whole number that fits a word stays whole, and the shortest digits of
a float are read as a float again: as the same one where the reader does not lose
more than one rounding.
-/

namespace TournamentScoring.Json

open TournamentScoring.Binary64 TournamentScoring.Decimal
open TournamentScoring.Document TournamentScoring.Text

/-- What follows a value does not go on with a number. -/
def EndsNumber (rest : List Char) : Prop :=
  ∀ character ∈ rest.head?, character.isDigit = false ∧ character ≠ '.' ∧
    character ≠ 'e' ∧ character ≠ 'E'

namespace NumberParts

def fractionText : Option (List Char) → List Char
  | none => []
  | some digits => '.' :: digits

def exponentText : Option (Bool × List Char) → List Char
  | none => []
  | some (negative, digits) => 'e' :: (if negative then '-' else '+') :: digits

def magnitudeText (parts : NumberParts) : List Char :=
  parts.whole ++ (fractionText parts.fraction ++ exponentText parts.exponent)

/-- The text that a number is cut from. -/
def text (parts : NumberParts) : List Char :=
  if parts.negative then '-' :: parts.magnitudeText else parts.magnitudeText

/-- Digits, at least one of them. -/
def IsRow (digits : List Char) : Prop :=
  digits ≠ [] ∧ ∀ character ∈ digits, character.isDigit = true

/-- Every part has digits, and the whole part no needless zero in front. -/
structure WellFormed (parts : NumberParts) : Prop where
  whole : IsRow parts.whole
  leading : parts.whole.head? = some '0' → parts.whole = ['0']
  fraction : ∀ digits ∈ parts.fraction, IsRow digits
  exponent : ∀ exponent ∈ parts.exponent, IsRow exponent.2

end NumberParts

open NumberParts

/-! ## Cutting a number -/

theorem EndsNumber.stops {rest : List Char} (hrest : EndsNumber rest) :
    Stops Char.isDigit rest :=
  fun character hmem => (hrest character hmem).1

theorem exponentStep_exponentText (parts : NumberParts)
    {exponent : Option (Bool × List Char)} {rest : List Char}
    (hnone : parts.exponent = none) (hexponent : ∀ row ∈ exponent, IsRow row.2)
    (hrest : EndsNumber rest) :
    exponentStep parts (exponentText exponent ++ rest) =
      ({ parts with exponent }.source, some rest) := by
  obtain ⟨negative, whole, fraction, absent⟩ := parts
  obtain rfl : absent = none := hnone
  cases exponent with
  | none =>
    cases rest with
    | nil => rfl
    | cons first rest =>
      obtain ⟨-, -, hlower, hupper⟩ := hrest first rfl
      simp [exponentText, exponentStep, hlower, hupper]
  | some exponent =>
    obtain ⟨sign, digits⟩ := exponent
    obtain ⟨hne, hdigits⟩ := hexponent _ rfl
    have htake := takeWhile_run hdigits hrest.stops
    have hdrop := dropWhile_run hdigits hrest.stops
    cases sign <;> simp [exponentText, exponentStep, htake, hdrop, hne]

/-- The text of an exponent does not go on with digits. -/
theorem stops_exponentText (exponent : Option (Bool × List Char)) {rest : List Char}
    (hrest : EndsNumber rest) :
    Stops Char.isDigit (exponentText exponent ++ rest) := by
  cases exponent with
  | none => exact hrest.stops
  | some exponent => exact stops_cons.mpr (by decide)

theorem fractionStep_of_head? (parts : NumberParts) {characters : List Char}
    (hpoint : characters.head? ≠ some '.') :
    fractionStep parts characters = exponentStep parts characters := by
  rw [fractionStep]
  rintro rest rfl
  exact hpoint rfl

theorem fractionStep_text {parts : NumberParts} (hparts : parts.WellFormed)
    {rest : List Char} (hrest : EndsNumber rest) :
    fractionStep ⟨parts.negative, parts.whole, none, none⟩
        (fractionText parts.fraction ++ (exponentText parts.exponent ++ rest)) =
      (parts.source, some rest) := by
  obtain ⟨negative, whole, fraction, exponent⟩ := parts
  dsimp only
  cases fraction with
  | none =>
    rw [fractionText, List.nil_append, fractionStep_of_head?]
    · exact exponentStep_exponentText ⟨negative, whole, none, none⟩ rfl
        hparts.exponent hrest
    · intro hhead
      cases exponent with
      | none => exact (hrest '.' hhead).2.1 rfl
      | some exponent => exact absurd (Option.some.inj hhead) (by decide)
  | some digits =>
    obtain ⟨hne, hdigits⟩ := hparts.fraction digits rfl
    have hhead := stops_exponentText exponent hrest
    have htake := takeWhile_run hdigits hhead
    have hdrop := dropWhile_run hdigits hhead
    have hexponent := exponentStep_exponentText ⟨negative, whole, some digits, none⟩ rfl
      hparts.exponent hrest
    rw [fractionText, List.cons_append, fractionStep]
    simp only [htake, hdrop, List.isEmpty_iff, hne, if_false]
    exact hexponent

theorem stops_fractionText (fraction : Option (List Char)) {rest : List Char}
    (hrest : Stops Char.isDigit rest) :
    Stops Char.isDigit (fractionText fraction ++ rest) := by
  cases fraction with
  | none => exact hrest
  | some digits => exact stops_cons.mpr (by decide)

theorem numberStep_magnitudeText {parts : NumberParts} (hparts : parts.WellFormed)
    {rest : List Char} (hrest : EndsNumber rest) :
    numberStep parts.negative (parts.magnitudeText ++ rest) =
      (parts.source, some rest) := by
  obtain ⟨hne, hdigits⟩ := hparts.whole
  have hhead := stops_fractionText parts.fraction
    (stops_exponentText parts.exponent hrest)
  have htake := takeWhile_run hdigits hhead
  have hdrop := dropWhile_run hdigits hhead
  have hfraction := fractionStep_text hparts hrest
  rw [magnitudeText, List.append_assoc, List.append_assoc, numberStep]
  simp only [htake, hdrop]
  split
  · exact absurd (by assumption) hne
  · -- A zero in front of other digits would be refused.
    rename_i second more heq
    have hsingle := hparts.leading (by rw [heq]; rfl)
    rw [heq] at hsingle
    cases hsingle
  · exact hfraction

theorem ne_of_isDigit {first character : Char} (hfirst : first.isDigit = true)
    (hcharacter : character.isDigit = false) : first ≠ character := by
  rintro rfl
  rw [hfirst] at hcharacter
  cases hcharacter

theorem scalarStep_of_isDigit {first : Char} (hfirst : first.isDigit = true)
    (rest : List Char) :
    scalarStep (first :: rest) = numberStep false (first :: rest) := by
  rw [scalarStep, if_pos hfirst]
  all_goals exact ne_of_isDigit hfirst (by decide)

/-- A number is read as its parts. -/
theorem scalarStep_text {parts : NumberParts} (hparts : parts.WellFormed)
    {rest : List Char} (hrest : EndsNumber rest) :
    scalarStep (parts.text ++ rest) = (parts.source, some rest) := by
  have hnumber := numberStep_magnitudeText hparts hrest
  rw [NumberParts.text]
  cases hnegative : parts.negative with
  | true =>
    rw [hnegative] at hnumber
    exact hnumber
  | false =>
    obtain ⟨hne, hdigits⟩ := hparts.whole
    obtain ⟨first, more, hwhole⟩ := List.exists_cons_of_ne_nil hne
    have hfirst : first.isDigit = true :=
      hdigits first (by rw [hwhole]; exact List.mem_cons_self)
    rw [hnegative, magnitudeText, hwhole, List.cons_append, List.cons_append] at hnumber
    rw [if_neg Bool.false_ne_true, magnitudeText, hwhole, List.cons_append,
      List.cons_append]
    rw [scalarStep_of_isDigit hfirst]
    exact hnumber

/-! ## Whole numbers -/

/-- The whole numbers that a word of 64 bits holds, with a sign or without. -/
def FitsWord (value : Int) : Prop :=
  -(2 ^ 63) ≤ value ∧ value < 2 ^ 64

theorem isRow_digitsOf (number : Nat) : IsRow (digitsOf number) :=
  ⟨digitsOf_ne_nil number, fun _ hmem => isDigit_of_mem_digitsOf hmem⟩

/-- Only zero itself starts with a zero. -/
theorem digitsOf_of_head {number : Nat} (hhead : (digitsOf number).head? = some '0') :
    digitsOf number = ['0'] := by
  rcases Nat.eq_zero_or_pos number with rfl | hpos
  · rfl
  · exact absurd hhead (head_digitsOf hpos)

/-- The parts of a whole number. -/
def NumberParts.ofInt (value : Int) : NumberParts where
  negative := decide (value < 0)
  whole := digitsOf value.natAbs
  fraction := none
  exponent := none

theorem wellFormed_ofInt (value : Int) : (NumberParts.ofInt value).WellFormed where
  whole := isRow_digitsOf _
  leading := digitsOf_of_head
  fraction := by rintro _ ⟨⟩
  exponent := by rintro _ ⟨⟩

theorem text_ofInt (value : Int) :
    (NumberParts.ofInt value).text = (toString value).toList := by
  cases value with
  | ofNat number =>
    have hnegative : ¬Int.ofNat number < 0 := Int.not_lt.mpr (Int.natCast_nonneg number)
    rw [NumberParts.text, NumberParts.ofInt, decide_eq_false hnegative]
    exact List.append_nil _
  | negSucc number =>
    have hnegative : Int.negSucc number < 0 := Int.negSucc_lt_zero number
    have htext : toString (Int.negSucc number) = "-" ++ toString (number + 1) := rfl
    rw [NumberParts.text, NumberParts.ofInt, decide_eq_true hnegative, htext,
      String.toList_append]
    exact congrArg ('-' :: ·) (List.append_nil _)

theorem source_ofInt {value : Int} (hvalue : FitsWord value) :
    (NumberParts.ofInt value).source = .integer value := by
  obtain ⟨hlow, hhigh⟩ := hvalue
  have hmagnitude : digitsValue (digitsOf value.natAbs) = value.natAbs :=
    digitsValue_digitsOf _
  have hsize : UInt64.size = 2 ^ 64 := rfl
  have hpower : Nat.pow 2 63 = 2 ^ 63 := rfl
  simp only [NumberParts.source, NumberParts.ofInt, Option.isSome_none, Bool.or_self,
    Bool.false_eq_true, if_false, hmagnitude, hsize, hpower, decide_eq_true_eq]
  split
  · rw [if_pos (by omega)]
    congr 1
    omega
  · rw [if_pos (by omega)]
    congr 1
    omega

theorem scalarStep_toString {value : Int} (hvalue : FitsWord value)
    {rest : List Char} (hrest : EndsNumber rest) :
    scalarStep ((toString value).toList ++ rest) = (.integer value, some rest) := by
  rw [← text_ofInt, ← source_ofInt hvalue]
  exact scalarStep_text (wellFormed_ofInt value) hrest

/-! ## Floats -/

/-- Few digits near the point, with room for a zero behind a whole number. -/
def IsShort (decimal : Scientific) : Prop :=
  decimal.digits * 10 ^ (decimal.exponent + 1).toNat < 2 ^ 53 ∧ |decimal.exponent| ≤ 22

/-- The decimal that is spelled by the digits: itself, or a whole number with a zero
behind the point. -/
def IsSpelled (decimal spelled : Scientific) : Prop :=
  spelled = decimal ∨ ∃ power : ℕ, decimal.exponent = power ∧
    decimal.digits * 10 ^ power < 10 ^ 16 ∧
    spelled = ⟨decimal.digits * 10 ^ (power + 1), -1⟩

namespace IsSpelled

variable {decimal spelled : Scientific}

theorem value_eq (hspelled : IsSpelled decimal spelled) : spelled.value = decimal.value := by
  rcases hspelled with rfl | ⟨power, hexponent, -, rfl⟩
  · rfl
  · rw [Scientific.value, Scientific.value, hexponent, zpow_natCast, zpow_neg_one]
    push_cast
    rw [pow_succ]
    ring

theorem digits_lt (hspelled : IsSpelled decimal spelled) (hdigits : decimal.digits < 10 ^ 17) :
    spelled.digits < 10 ^ 17 := by
  rcases hspelled with rfl | ⟨power, -, hless, rfl⟩
  · exact hdigits
  · change decimal.digits * 10 ^ (power + 1) < 10 ^ 17
    rw [Nat.pow_succ, ← Nat.mul_assoc]
    omega

theorem digits_pos (hspelled : IsSpelled decimal spelled) (hpos : 0 < decimal.digits) :
    0 < spelled.digits := by
  rcases hspelled with rfl | ⟨power, -, -, rfl⟩
  · exact hpos
  · exact Nat.mul_pos hpos (Nat.pow_pos (by decide))

theorem isShort (hspelled : IsSpelled decimal spelled) (hshort : IsShort decimal) :
    spelled.digits < 2 ^ 53 ∧ |spelled.exponent| ≤ 22 := by
  obtain ⟨hdigits, hexponent⟩ := hshort
  rcases hspelled with rfl | ⟨power, hpower, -, rfl⟩
  · exact ⟨(Nat.le_mul_of_pos_right _ (Nat.pow_pos (by decide))).trans_lt hdigits, hexponent⟩
  · rw [hpower] at hdigits
    exact ⟨hdigits, show |(-1 : ℤ)| ≤ 22 by decide⟩

theorem eq_of_nonneg (hspelled : IsSpelled decimal spelled) (hnonneg : 0 ≤ spelled.exponent) :
    spelled = decimal := by
  rcases hspelled with rfl | ⟨power, -, -, rfl⟩
  · rfl
  · exact absurd hnonneg (show ¬(0 : ℤ) ≤ -1 by decide)

end IsSpelled

/-- The parts are those of a float text that spells the number of a decimal. -/
structure NumberParts.Spells (parts : NumberParts) (text : List Char)
    (decimal : Scientific) : Prop where
  wellFormed : parts.WellFormed
  text_eq : parts.magnitudeText = text
  isFloat : (parts.fraction.isSome || parts.exponent.isSome) = true
  isSpelled : IsSpelled decimal parts.decimal

theorem isRow_append {left right : List Char} (hleft : IsRow left)
    (hright : ∀ character ∈ right, character.isDigit = true) :
    IsRow (left ++ right) := by
  refine ⟨List.append_ne_nil_of_left_ne_nil hleft.1 _, ?_⟩
  intro character hmem
  rcases List.mem_append.mp hmem with hmem | hmem
  · exact hleft.2 character hmem
  · exact hright character hmem

theorem isRow_zero : IsRow ['0'] :=
  ⟨List.cons_ne_nil _ _, List.forall_mem_singleton.mpr (by decide)⟩

theorem head_append_digitsOf {digits : Nat} (hpos : 0 < digits)
    (more : List Char) : (digitsOf digits ++ more).head? ≠ some '0' := by
  rw [List.head?_append_of_ne_nil _ (digitsOf_ne_nil digits)]
  exact head_digitsOf hpos

/-- A whole number in positional writing ends in a point and a zero. -/
theorem exists_spells_whole {digits : Nat} (hpos : 0 < digits) {power : Nat}
    (hless : digits * 10 ^ power < 10 ^ 16) (negative : Bool) :
    ∃ parts : NumberParts, parts.negative = negative ∧
      parts.Spells (digitsOf digits ++ zeros power ++ ['.', '0']) ⟨digits, power⟩ := by
  refine ⟨⟨negative, digitsOf digits ++ zeros power, some ['0'], none⟩, rfl, ?_⟩
  constructor
  · constructor
    · exact isRow_append (isRow_digitsOf digits) fun _ hmem => isDigit_of_mem_zeros hmem
    · exact fun hhead => absurd hhead (head_append_digitsOf hpos _)
    · rintro _ ⟨rfl⟩
      exact isRow_zero
    · rintro _ ⟨⟩
  · rw [magnitudeText, fractionText, exponentText, List.append_nil]
  · rfl
  · have hzeros : zeros power ++ ['0'] = zeros (power + 1) :=
      List.replicate_succ'.symm
    refine .inr ⟨power, rfl, hless, ?_⟩
    simp only [decimal, exponentValue, Option.getD_some, List.append_assoc, hzeros,
      digitsValue_append, digitsValue_digitsOf, digitsValue_zeros, length_zeros,
      List.length_singleton, add_zero]
    rfl

/-- The point stands among the digits. -/
theorem exists_spells_inside {digits places : Nat} (hpos : 0 < digits)
    (hplaces : 0 < places) (hless : places < (digitsOf digits).length)
    (negative : Bool) :
    ∃ parts : NumberParts, parts.negative = negative ∧
      parts.Spells ((digitsOf digits).take ((digitsOf digits).length - places) ++
        '.' :: (digitsOf digits).drop ((digitsOf digits).length - places))
        ⟨digits, -places⟩ := by
  obtain ⟨cut, hcut⟩ : ∃ cut, (digitsOf digits).length - places = cut := ⟨_, rfl⟩
  have hsplit := List.take_append_drop cut (digitsOf digits)
  rw [hcut]
  refine ⟨⟨negative, (digitsOf digits).take cut, some ((digitsOf digits).drop cut),
    none⟩, rfl, ?_⟩
  constructor
  · constructor
    · refine ⟨?_, fun _ hmem => isDigit_of_mem_digitsOf (List.mem_of_mem_take hmem)⟩
      rw [← List.length_pos_iff, List.length_take]
      omega
    · intro hhead
      rw [List.head?_take] at hhead
      split at hhead
      · cases hhead
      · exact absurd hhead (head_digitsOf hpos)
    · rintro _ ⟨rfl⟩
      refine ⟨?_, fun _ hmem => isDigit_of_mem_digitsOf (List.mem_of_mem_drop hmem)⟩
      rw [← List.length_pos_iff, List.length_drop]
      omega
    · rintro _ ⟨⟩
  · rw [magnitudeText, fractionText, exponentText, List.append_nil]
  · rfl
  · have hlength : (digitsOf digits).length - cut = places := by omega
    refine .inl ?_
    simp only [decimal, exponentValue, Option.getD_some, hsplit, digitsValue_digitsOf,
      List.length_drop, hlength, zero_sub]

/-- The point stands before all digits. -/
theorem exists_spells_below {digits places : Nat}
    (hmore : (digitsOf digits).length ≤ places) (negative : Bool) :
    ∃ parts : NumberParts, parts.negative = negative ∧
      parts.Spells ('0' :: '.' :: (zeros (places - (digitsOf digits).length) ++
        digitsOf digits)) ⟨digits, -places⟩ := by
  refine ⟨⟨negative, ['0'], some (zeros (places - (digitsOf digits).length) ++
    digitsOf digits), none⟩, rfl, ?_⟩
  constructor
  · constructor
    · exact isRow_zero
    · exact fun _ => rfl
    · rintro _ ⟨rfl⟩
      refine ⟨List.append_ne_nil_of_right_ne_nil _ (digitsOf_ne_nil digits), ?_⟩
      intro character hmem
      rcases List.mem_append.mp hmem with hmem | hmem
      · exact isDigit_of_mem_zeros hmem
      · exact isDigit_of_mem_digitsOf hmem
    · rintro _ ⟨⟩
  · rw [magnitudeText, fractionText, exponentText, List.append_nil]
    rfl
  · rfl
  · have hzero : digitsValue ['0'] = 0 := rfl
    have hlength : places - (digitsOf digits).length + (digitsOf digits).length =
        places := by omega
    refine .inl ?_
    simp only [decimal, exponentValue, Option.getD_some, digitsValue_append,
      digitsValue_digitsOf, digitsValue_zeros, hzero, List.length_append,
      length_zeros, hlength, zero_sub, zero_mul, zero_add]

/-- Positional writing spells the number. -/
theorem exists_spells_positional {digits : Nat} (hpos : 0 < digits) {exponent : Int}
    (hleading : exponent + (digitsOf digits).length - 1 ≤ 15) (negative : Bool) :
    ∃ parts : NumberParts, parts.negative = negative ∧
      parts.Spells (Style.document.positional (digitsOf digits) exponent)
        ⟨digits, exponent⟩ := by
  rw [Style.positional]
  split
  case isTrue hnonneg =>
    obtain ⟨power, rfl⟩ := Int.eq_ofNat_of_zero_le hnonneg
    refine exists_spells_whole hpos ?_ negative
    calc digits * 10 ^ power < 10 ^ (digitsOf digits).length * 10 ^ power :=
          Nat.mul_lt_mul_of_pos_right (lt_ten_pow_length_digitsOf digits)
            (Nat.pow_pos (by decide))
      _ = 10 ^ ((digitsOf digits).length + power) := (pow_add _ _ _).symm
      _ ≤ 10 ^ 16 := Nat.pow_le_pow_right (by decide) (by omega)
  case isFalse hneg =>
    obtain ⟨places, hplaces⟩ := Int.eq_ofNat_of_zero_le (by omega : 0 ≤ -exponent)
    obtain rfl : exponent = -(places : Int) := by omega
    simp only [Int.neg_neg, Int.toNat_natCast]
    split
    case isTrue hless => exact exists_spells_inside hpos (by omega) hless negative
    case isFalse hmore => exact exists_spells_below (by omega) negative

/-- The parts of an exponent give the exponent back. -/
theorem signed_digitsOf_natAbs (exponent : Int) :
    (if decide (exponent < 0) = true then -(digitsValue (digitsOf exponent.natAbs) : Int)
      else digitsValue (digitsOf exponent.natAbs)) = exponent := by
  rw [digitsValue_digitsOf]
  split
  case isTrue hneg =>
    rw [decide_eq_true_eq] at hneg
    omega
  case isFalse hnonneg =>
    rw [decide_eq_true_eq] at hnonneg
    omega

theorem scientificSign_eq (leading : Int) :
    (if leading < 0 then ['-'] else if Style.document.plus then ['+'] else []) =
      [if decide (leading < 0) = true then '-' else '+'] := by
  by_cases hneg : leading < 0
  · rw [if_pos hneg, decide_eq_true hneg, if_pos rfl]
  · rw [if_neg hneg, decide_eq_false hneg, if_neg Bool.false_ne_true]
    rfl

/-- The first digit, the digits behind the point if there are any, and the place of
the first one spell a number. -/
theorem spells_firstDigit {digits : Nat} {first : Char} {rest : List Char}
    (hpos : 0 < digits) (hdigits : digitsOf digits = first :: rest)
    {fraction : Option (List Char)} (hfraction : ∀ row ∈ fraction, row ≠ [])
    (hrest : fraction.getD [] = rest) {exponent leading : Int}
    (hleading : exponent + (digitsOf digits).length - 1 = leading) (negative : Bool) :
    NumberParts.Spells
      ⟨negative, [first], fraction, some (decide (leading < 0), digitsOf leading.natAbs)⟩
      (first :: (fractionText fraction ++ exponentText
        (some (decide (leading < 0), digitsOf leading.natAbs))))
      ⟨digits, exponent⟩ := by
  have hrow := isRow_digitsOf digits
  have hhead := head_digitsOf hpos
  have hvalue := digitsValue_digitsOf digits
  rw [hdigits] at hrow hhead hvalue hleading
  subst hrest
  constructor
  · constructor
    · exact ⟨List.cons_ne_nil _ _,
        List.forall_mem_singleton.mpr (hrow.2 first List.mem_cons_self)⟩
    · exact fun hzero => absurd hzero hhead
    · rintro row ⟨rfl⟩
      exact ⟨hfraction row rfl, fun _ hmem => hrow.2 _ (List.mem_cons_of_mem _ hmem)⟩
    · rintro _ ⟨rfl⟩
      exact isRow_digitsOf leading.natAbs
  · rfl
  · exact Bool.or_true _
  · refine .inl ?_
    rw [List.length_cons] at hleading
    simp only [decimal, exponentValue, List.singleton_append, hvalue,
      signed_digitsOf_natAbs]
    rw [show leading - ((fraction.getD []).length : ℤ) = exponent by omega]

/-- Scientific writing spells the number. -/
theorem exists_spells_scientific {digits : Nat} (hpos : 0 < digits)
    (exponent : Int) (negative : Bool) :
    ∃ parts : NumberParts, parts.negative = negative ∧
      parts.Spells (Style.document.scientific (digitsOf digits)
        (exponent + (digitsOf digits).length - 1)) ⟨digits, exponent⟩ := by
  obtain ⟨leading, hleading⟩ :
      ∃ leading, exponent + (digitsOf digits).length - 1 = leading := ⟨_, rfl⟩
  unfold Style.scientific
  rw [hleading]
  simp only [scientificSign_eq]
  match hdigits : digitsOf digits with
  | [] => exact absurd hdigits (digitsOf_ne_nil digits)
  | [first] =>
    refine ⟨⟨negative, [first], none, _⟩, rfl,
      spells_firstDigit hpos hdigits ?_ rfl hleading negative⟩
    rintro _ ⟨⟩
  | first :: second :: rest =>
    refine ⟨⟨negative, [first], some (second :: rest), _⟩, rfl,
      spells_firstDigit hpos hdigits ?_ rfl hleading negative⟩
    rintro _ ⟨rfl⟩
    exact List.cons_ne_nil _ _

theorem exists_spells_layOut {value : Scientific} (hpos : 0 < value.digits)
    (negative : Bool) :
    ∃ parts : NumberParts, parts.negative = negative ∧
      parts.Spells (Style.document.layOut value) value := by
  rw [Style.layOut]
  split
  case isTrue hpositional =>
    obtain ⟨-, hhighest⟩ := (Bool.and_eq_true _ _).mp hpositional
    exact exists_spells_positional hpos (of_decide_eq_true hhighest) negative
  case isFalse => exact exists_spells_scientific hpos value.exponent negative

/-- The parts of a zero, which keeps its sign. -/
def NumberParts.zero (negative : Bool) : NumberParts where
  negative := negative
  whole := ['0']
  fraction := some ['0']
  exponent := none

theorem wellFormed_zero (negative : Bool) : (NumberParts.zero negative).WellFormed where
  whole := isRow_zero
  leading := fun _ => rfl
  fraction := by
    rintro _ ⟨rfl⟩
    exact isRow_zero
  exponent := by rintro _ ⟨⟩

theorem source_of_scaled? {parts : NumberParts} {magnitude : Float}
    (hfloat : (parts.fraction.isSome || parts.exponent.isSome) = true)
    (hfits : parts.decimal.digits < UInt64.size)
    (hscaled : scaled? parts.decimal = some magnitude) :
    parts.source = .float (if parts.negative then -magnitude else magnitude) := by
  rw [NumberParts.source, if_pos hfloat, floatValue?, kept_of_fits hfits, hscaled]
  rfl

/-- The sign of a float as it is written. -/
def isNegative : Float.Model.UnpackedFloat.Sign → Bool
  | .negative => true
  | .positive => false

theorem text_eq_signText {parts : NumberParts} {sign : Float.Model.UnpackedFloat.Sign}
    (hsign : parts.negative = isNegative sign) :
    parts.text = Style.signText sign ++ parts.magnitudeText := by
  rw [NumberParts.text, hsign]
  cases sign <;> rfl

/-- Negating the magnitude gives the float with the sign. -/
theorem eq_of_unpack_magnitude {magnitude value : Float}
    {sign : Float.Model.UnpackedFloat.Sign} {mantissa : Nat} {exponent : Int}
    (hmagnitude : magnitude.toModel.unpack = assemble .positive mantissa exponent)
    (hvalue : value.toModel.unpack = assemble sign mantissa exponent) :
    (if isNegative sign then -magnitude else magnitude) = value := by
  apply eq_of_unpack_eq
  rw [hvalue]
  cases sign with
  | negative =>
    rw [isNegative, if_pos rfl, unpack_neg, hmagnitude, neg_assemble]
    rfl
  | positive => exact hmagnitude

theorem standsFor_exception : standsFor ((2 ^ 53 - 1) * 2 ^ 971)
    (Scientific.toFloat ⟨17976931348623158, 292⟩).toModel.unpack = true := by
  decide +kernel

/-- The greatest float is not written with the one significand that would overflow. -/
theorem shortest_ne_exception {mantissa : ℕ} {exponent : ℤ}
    (hcanonical : Canonical mantissa exponent) (hexponent : exponent ≤ 971)
    (hpos : 0 < mantissa) :
    shortest .toEven mantissa exponent ≠ ⟨17976931348623158, 292⟩ := by
  intro hshortest
  have hread := unpack_toFloat_of_value_eq hcanonical hexponent hpos (congrArg
    Scientific.value hshortest.symm)
  obtain ⟨-, hvalue⟩ := isFinite_and_value_of_standsFor standsFor_exception
  rw [value, hread, unpackedValue_assemble, Nat.cast_mul, Nat.cast_pow, Nat.cast_ofNat,
    ← zpow_natCast] at hvalue
  obtain ⟨rfl, rfl⟩ := hcanonical.eq_of_mul_eq ⟨by decide, by decide, .inl (by decide)⟩ hpos
    (by decide) hvalue
  exact absurd hshortest (by decide +kernel)

/-- A float that is not zero is written as the parts of its shortest digits. -/
theorem exists_parts_shortest {value : Float} {sign : Float.Model.UnpackedFloat.Sign}
    {mantissa : ℕ} {exponent : ℤ} (hcanonical : Canonical mantissa exponent)
    (hpos : 0 < mantissa) (hunpack : value.toModel.unpack = assemble sign mantissa exponent) :
    ∃ (parts : NumberParts) (text : List Char), parts.negative = isNegative sign ∧
      parts.Spells text (shortest .toEven mantissa exponent) ∧
      parts.text = floatText value := by
  have hfinite : value.isFinite = true := by
    rw [isFinite_eq, hunpack]
    exact isFinite_assemble sign mantissa exponent
  have hdigits := Scientific.digits_pos_of_nearest_eq hpos
    (nearest_value_shortest .toEven hcanonical hpos)
  obtain ⟨parts, hsign, hspells⟩ := exists_spells_layOut hdigits (isNegative sign)
  refine ⟨parts, _, hsign, hspells, ?_⟩
  rw [assemble_of_pos hpos] at hunpack
  rw [floatText, if_pos hfinite, Style.write, hunpack, text_eq_signText hsign,
    hspells.text_eq, String.toList_ofList]
  rfl

/-- A finite float is written as parts that are read as a float. -/
theorem exists_parts_floatText {value : Float} (hfinite : value.isFinite = true) :
    ∃ parts : NumberParts, parts.WellFormed ∧ parts.text = floatText value ∧
      ∃ back, parts.source = .float back := by
  obtain ⟨sign, mantissa, exponent, hcanonical, hexponent, hunpack, -⟩ :=
    exists_unpack_eq hfinite
  rcases Nat.eq_zero_or_pos mantissa with rfl | hpos
  · -- Zero has no shortest digits and is written with its sign.
    have hzero : value.toModel.unpack = .zero sign := hunpack
    refine ⟨.zero (isNegative sign), wellFormed_zero _, ?_, _, rfl⟩
    rw [floatText, if_pos hfinite, Style.write, hzero, text_eq_signText rfl,
      String.toList_ofList]
    rfl
  · have hnearest := nearest_value_shortest .toEven hcanonical hpos
    have hdigits := Scientific.digits_pos_of_nearest_eq hpos hnearest
    obtain ⟨parts, text, -, hspells, htext⟩ := exists_parts_shortest hcanonical hpos hunpack
    have hless := hspells.isSpelled.digits_lt (digits_shortest_lt exponent .toEven hpos)
    have hrange : parts.decimal.value < overflowBound := by
      rw [hspells.isSpelled.value_eq]
      exact (le_abs_self _).trans_lt (hcanonical.abs_lt_overflowBound hexponent hnearest)
    have hexception : parts.decimal ≠ ⟨17976931348623158, 292⟩ := by
      intro heq
      have hshortest := hspells.isSpelled.eq_of_nonneg (by rw [heq]; decide)
      exact shortest_ne_exception hcanonical hexponent hpos (hshortest ▸ heq)
    obtain ⟨magnitude, hscaled⟩ := exists_scaled?_of_lt
      (hspells.isSpelled.digits_pos hdigits) hless hrange hexception
    exact ⟨parts, hspells.wellFormed, htext, _,
      source_of_scaled? hspells.isFloat (hless.trans (by decide)) hscaled⟩

/-- The float that the text of a float is read as. -/
def reread (value : Float) : Float :=
  match scalarStep (floatText value) with
  | (.float back, _) => back
  | _ => value

/-- The shortest digits of a float are read as that float. -/
def ReadsBack (value : Float) : Prop :=
  reread value = value

instance (value : Float) : Decidable (ReadsBack value) :=
  inferInstanceAs (Decidable (reread value = value))

theorem reread_of_source {parts : NumberParts} {value back : Float}
    (hparts : parts.WellFormed) (htext : parts.text = floatText value)
    (hsource : parts.source = .float back) : reread value = back := by
  have hend : EndsNumber [] := by rintro _ ⟨⟩
  have hread := scalarStep_text hparts hend
  rw [List.append_nil, htext, hsource] at hread
  rw [reread, hread]

/-- A finite float is read as a float, whatever follows it. -/
theorem scalarStep_floatText {value : Float} (hfinite : value.isFinite = true)
    {rest : List Char} (hrest : EndsNumber rest) :
    scalarStep (floatText value ++ rest) = (.float (reread value), some rest) := by
  obtain ⟨parts, hparts, htext, back, hsource⟩ := exists_parts_floatText hfinite
  rw [reread_of_source hparts htext hsource, ← htext, ← hsource]
  exact scalarStep_text hparts hrest

/-- A float whose shortest digits are few and near the point reads back: the reader rounds
in its last step alone. -/
theorem readsBack_of_short {value : Float} {sign : Float.Model.UnpackedFloat.Sign}
    {mantissa : ℕ} {exponent : ℤ} (hcanonical : Canonical mantissa exponent)
    (hexponent : exponent ≤ 971) (hpos : 0 < mantissa)
    (hunpack : value.toModel.unpack = assemble sign mantissa exponent)
    (hshort : IsShort (shortest .toEven mantissa exponent)) : ReadsBack value := by
  have hnearest := nearest_value_shortest .toEven hcanonical hpos
  obtain ⟨parts, text, hsign, hspells, htext⟩ := exists_parts_shortest hcanonical hpos hunpack
  obtain ⟨hdigits, hplace⟩ := hspells.isSpelled.isShort hshort
  obtain ⟨magnitude, hscaled, hrounds⟩ := exists_scaled?_of_short hdigits hplace
  have hsource := source_of_scaled? hspells.isFloat (hdigits.trans (by decide)) hscaled
  have hmagnitude : magnitude.toModel.unpack = assemble .positive mantissa exponent := by
    rw [hspells.isSpelled.value_eq] at hrounds
    exact unpack_eq_of_rounds hrounds hcanonical hexponent hpos hnearest
  rw [hsign, eq_of_unpack_magnitude hmagnitude hunpack] at hsource
  exact reread_of_source hspells.wellFormed htext hsource

end TournamentScoring.Json
