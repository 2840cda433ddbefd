import Mathlib.Algebra.Ring.Nat
import TournamentScoring.Decimal.Reading
import TournamentScoring.Decimal.Style

/-!
# Rows of digits

Reading a row of digits gives back the number it was written for, and zeros in
front of it or behind it do what they do on paper.
-/

namespace TournamentScoring.Decimal

theorem digitsValue_eq (digits : List Char) :
    digitsValue digits = Nat.ofDigitChars 10 digits 0 := by
  have hstep : (fun value (digit : Char) => value * 10 + (digit.toNat - '0'.toNat)) =
      fun value digit => 10 * value + (digit.toNat - '0'.toNat) := by
    funext value digit
    rw [Nat.mul_comm]
  rw [digitsValue, hstep, Nat.ofDigitChars_eq_foldl]

theorem digitsValue_append (left right : List Char) :
    digitsValue (left ++ right) =
      digitsValue left * 10 ^ right.length + digitsValue right := by
  rw [digitsValue_eq, digitsValue_eq, digitsValue_eq, Nat.ofDigitChars_append,
    Nat.ofDigitChars_eq_ofDigitChars_zero, Nat.mul_comm]

theorem digitsValue_cons (digit : Char) (digits : List Char) :
    digitsValue (digit :: digits) =
      (digit.toNat - '0'.toNat) * 10 ^ digits.length + digitsValue digits := by
  have hsingle : digitsValue [digit] = digit.toNat - '0'.toNat := by
    rw [digitsValue, List.foldl_cons, List.foldl_nil, Nat.zero_mul, Nat.zero_add]
  rw [← List.singleton_append, digitsValue_append, hsingle]

theorem digitsValue_lt {digits : List Char}
    (hdigits : ∀ character ∈ digits, character.isDigit = true) :
    digitsValue digits < 10 ^ digits.length := by
  induction digits with
  | nil => exact Nat.one_pos
  | cons digit digits ih =>
    obtain ⟨hdigit, hdigits⟩ := List.forall_mem_cons.mp hdigits
    have hrest := ih hdigits
    have hnine : digit.toNat - '0'.toNat ≤ 9 := by
      have hzero : '0'.toNat = 48 := rfl
      have hlast : '9'.toNat = 57 := rfl
      have hbounds := Char.isDigit_iff_toNat.mp hdigit
      omega
    have hfirst := Nat.mul_le_mul_right (10 ^ digits.length) hnine
    rw [digitsValue_cons, List.length_cons, Nat.pow_succ]
    omega

theorem digitsValue_zeros (count : Nat) : digitsValue (zeros count) = 0 := by
  rw [digitsValue_eq, zeros, Nat.ofDigitChars_replicate_zero, Nat.mul_zero]

theorem digitsOf_eq (number : Nat) : digitsOf number = Nat.toDigits 10 number := by
  rw [digitsOf, Nat.toString_eq_ofList_toDigits, String.toList_ofList]

theorem digitsValue_digitsOf (number : Nat) :
    digitsValue (digitsOf number) = number := by
  rw [digitsValue_eq, digitsOf_eq, Nat.ofDigitChars_ten_toDigits]

theorem isDigit_of_mem_digitsOf {number : Nat} {character : Char}
    (hmem : character ∈ digitsOf number) : character.isDigit = true := by
  rw [digitsOf_eq] at hmem
  exact Nat.isDigit_of_mem_toDigits (by decide) (by decide) hmem

theorem lt_ten_pow_length_digitsOf (number : Nat) :
    number < 10 ^ (digitsOf number).length := by
  have hless : digitsValue (digitsOf number) < 10 ^ (digitsOf number).length :=
    digitsValue_lt fun _ hmem => isDigit_of_mem_digitsOf hmem
  rwa [digitsValue_digitsOf] at hless

theorem isDigit_of_mem_zeros {count : Nat} {character : Char}
    (hmem : character ∈ zeros count) : character.isDigit = true := by
  rw [zeros, List.mem_replicate] at hmem
  rw [hmem.2]
  decide

theorem length_zeros (count : Nat) : (zeros count).length = count :=
  List.length_replicate

theorem digitsOf_ne_nil (number : Nat) : digitsOf number ≠ [] := by
  rw [digitsOf_eq]
  exact Nat.toDigits_ne_nil

/-- Only zero starts with a zero. -/
theorem head_digitsOf {number : Nat} (hpos : 0 < number) :
    (digitsOf number).head? ≠ some '0' := by
  rw [digitsOf_eq]
  induction number using Nat.strongRecOn with
  | ind number ih =>
    rcases Nat.lt_or_ge number 10 with hless | hmore
    · rw [Nat.toDigits_of_lt_base hless]
      intro hhead
      have hzero := Nat.digitChar_eq_zero.mp (Option.some.inj hhead)
      omega
    · rw [Nat.toDigits_of_base_le (by decide) hmore, List.head?_append]
      have hquotient := ih (number / 10) (by omega) (by omega)
      cases hdigits : (Nat.toDigits 10 (number / 10)).head? with
      | none => exact absurd (List.head?_eq_none_iff.mp hdigits) Nat.toDigits_ne_nil
      | some first =>
        rw [hdigits] at hquotient
        exact hquotient

end TournamentScoring.Decimal
