import Mathlib
import TournamentScoring.Proofs.Binary64.Nearest

/-!
# Packed floats

Every float unpacks to an infinity, to no number, or to a sign with a canonical
mantissa and exponent.  Packing such a datum and unpacking it again gives it
back, unless the exponent is too large: then the float is infinite.
-/

namespace TournamentScoring.Binary64

open Float.Model Float.Model.UnpackedFloat

/-! ## Canonical data -/

/-- A mantissa of at most 53 digits, and of exactly 53 above the least exponent. -/
structure Canonical (mantissa : ℕ) (exponent : ℤ) : Prop where
  mantissa_lt : mantissa < 2 ^ 53
  exponent_ge : -1074 ≤ exponent
  normal : 2 ^ 52 ≤ mantissa ∨ exponent = -1074

/-- The unpacked float with a sign, a mantissa and an exponent. -/
def assemble (sign : Sign) (mantissa : ℕ) (exponent : ℤ) : UnpackedFloat :=
  if hzero : mantissa = 0 then .zero sign
  else .finite sign mantissa exponent (Nat.pos_of_ne_zero hzero)

theorem assemble_of_pos {sign : Sign} {mantissa : ℕ} {exponent : ℤ}
    (hmantissa : 0 < mantissa) :
    assemble sign mantissa exponent = .finite sign mantissa exponent hmantissa :=
  dif_neg hmantissa.ne'

/-- What a float can unpack to. -/
inductive Unpacked : UnpackedFloat → Prop
  | notANumber : Unpacked .notANumber
  | infinity (sign : Sign) : Unpacked (.infinity sign)
  | finite (sign : Sign) {mantissa : ℕ} {exponent : ℤ}
      (hcanonical : Canonical mantissa exponent) (hexponent : exponent ≤ 971) :
      Unpacked (assemble sign mantissa exponent)

theorem unpacked_zero (sign : Sign) : Unpacked (.zero sign) :=
  have hcanonical : Canonical 0 (-1074) := ⟨by norm_num, le_refl _, .inr rfl⟩
  .finite sign hcanonical (by norm_num)

theorem unpacked_finite {sign : Sign} {mantissa : ℕ} {exponent : ℤ}
    {hpos : 0 < mantissa} (hcanonical : Canonical mantissa exponent)
    (hexponent : exponent ≤ 971) :
    Unpacked (.finite sign mantissa exponent hpos) := by
  rw [← assemble_of_pos hpos]
  exact .finite sign hcanonical hexponent

/-! ## Unpacking -/

theorem exponentBias_binary64 : Format.binary64.exponentBias = 1023 := rfl

/-- The digits of a normal float, with the first one that is not stored. -/
theorem toNat_one_append (mantissa : BitVec 52) :
    (1#1 ++ mantissa).toNat = 2 ^ 52 + mantissa.toNat := by
  rw [BitVec.toNat_append, ← Nat.shiftLeft_add_eq_or_of_lt mantissa.isLt]
  rfl

theorem unpacked_unpack (bits : BitVec 64) :
    Unpacked (UnpackedFloat.unpack .binary64 bits) := by
  have hmantissa : (@unpackMantissa .binary64 bits).toNat < 2 ^ 52 :=
    (@unpackMantissa .binary64 bits).isLt
  have hexponent : (@unpackExponent .binary64 bits).toNat < 2 ^ 11 :=
    (@unpackExponent .binary64 bits).isLt
  unfold UnpackedFloat.unpack
  simp only [exponentBias_binary64]
  split
  case isTrue =>
    split
    · exact .infinity _
    · exact .notANumber
  case isFalse hspecial =>
    split
    case isTrue hzero =>
      split
      · exact unpacked_zero _
      · rw [hzero]
        refine unpacked_finite ⟨?_, ?_, ?_⟩ ?_
        · omega
        · simp
        · right
          simp
        · simp
    case isFalse hzero =>
      have hleast : (@unpackExponent .binary64 bits).toNat ≠ 0 := by
        intro heq
        exact hzero (BitVec.eq_of_toNat_eq heq)
      have hgreatest : (@unpackExponent .binary64 bits).toNat ≠ 2047 := by
        intro heq
        exact hspecial (BitVec.eq_of_toNat_eq heq)
      refine unpacked_finite ⟨?_, ?_, ?_⟩ ?_
      · rw [toNat_one_append]
        omega
      · push_cast
        omega
      · left
        rw [toNat_one_append]
        omega
      · push_cast
        omega

/-! ## Packing and unpacking -/

theorem unpackSign_packComponents {spec : Format} {sign : Sign}
    {exponent : BitVec spec.exponentBits}
    {mantissa : BitVec spec.mantissaBitsWithoutImplicit} :
    unpackSign (packComponents spec sign exponent mantissa) = sign.toBitVec := by
  ext i hi
  obtain rfl : i = 0 := Nat.lt_one_iff.mp hi
  simp [unpackSign, packComponents, BitVec.getLsbD_append, BitVec.getElem_append]

theorem ofBitVec_toBitVec (sign : Sign) : Sign.ofBitVec sign.toBitVec = sign := by
  cases sign <;> rfl

/-- Unpacking reads the three components of a packed float back. -/
theorem unpack_packComponents_of_zero {sign : Sign} {mantissa : ℕ}
    (hmantissa : mantissa < 2 ^ 52) :
    UnpackedFloat.unpack .binary64 (packComponents .binary64 sign 0#11
      (BitVec.ofNat 52 mantissa)) = assemble sign mantissa (-1074) := by
  have htoNat : (BitVec.ofNat 52 mantissa).toNat = mantissa := by
    rw [BitVec.toNat_ofNat, Nat.mod_eq_of_lt hmantissa]
  have hzero : BitVec.ofNat 52 mantissa = 0#52 ↔ mantissa = 0 := by
    rw [← BitVec.toNat_inj, htoNat]
    rfl
  rw [UnpackedFloat.unpack, assemble]
  simp only [unpackMantissa_packComponents, unpackExponent_packComponents,
    unpackSign_packComponents, ofBitVec_toBitVec, exponentBias_binary64, hzero,
    htoNat]
  rfl

theorem unpack_packComponents {sign : Sign} {exponent mantissa : ℕ}
    (hpos : 0 < exponent) (hexponent : exponent < 2047)
    (hleast : 2 ^ 52 ≤ mantissa) (hmantissa : mantissa < 2 ^ 53) :
    UnpackedFloat.unpack .binary64 (packComponents .binary64 sign
      (BitVec.ofNat 11 exponent) (BitVec.ofNat 52 mantissa)) =
        assemble sign mantissa (exponent - 1075) := by
  have htoNat : (BitVec.ofNat 11 exponent).toNat = exponent := by
    rw [BitVec.toNat_ofNat, Nat.mod_eq_of_lt (by omega)]
  have hdigits : (1#1 ++ BitVec.ofNat 52 mantissa).toNat = mantissa := by
    rw [toNat_one_append, BitVec.toNat_ofNat]
    omega
  have hzero : BitVec.ofNat 11 exponent ≠ 0#11 := by
    rw [ne_eq, ← BitVec.toNat_inj, htoNat]
    exact hpos.ne'
  have hspecial : BitVec.ofNat 11 exponent ≠ -1#11 := by
    rw [ne_eq, ← BitVec.toNat_inj, htoNat]
    exact hexponent.ne
  rw [UnpackedFloat.unpack, assemble_of_pos (by omega)]
  simp only [unpackMantissa_packComponents, unpackExponent_packComponents,
    unpackSign_packComponents, ofBitVec_toBitVec, exponentBias_binary64, hzero,
    hspecial, if_false, htoNat, hdigits]
  rfl

theorem unpack_packedInfinity (sign : Sign) :
    UnpackedFloat.unpack .binary64 (packedInfinity .binary64 sign) =
      .infinity sign := by
  rw [UnpackedFloat.unpack, packedInfinity]
  simp only [unpackMantissa_packComponents, unpackExponent_packComponents,
    unpackSign_packComponents, ofBitVec_toBitVec]
  rfl

theorem unpack_packedNaN :
    UnpackedFloat.unpack .binary64 (packedNaN .binary64) = .notANumber := by
  rw [UnpackedFloat.unpack, packedNaN]
  simp only [unpackMantissa_packComponents, unpackExponent_packComponents]
  rfl

theorem two_pow_le_iff_log2 {mantissa : ℕ} (hpos : 0 < mantissa)
    (hmantissa : mantissa < 2 ^ 53) :
    mantissa.log2 + 1 = Format.binary64.mantissaBits ↔ 2 ^ 52 ≤ mantissa := by
  have hbits : Format.binary64.mantissaBits = 53 := rfl
  have hle : 52 ≤ mantissa.log2 ↔ 2 ^ 52 ≤ mantissa := Nat.le_log2 hpos.ne'
  have hlt : mantissa.log2 < 53 := (Nat.log2_lt hpos.ne').mpr hmantissa
  rw [← hle, hbits]
  omega

/-- Only the exponent decides whether a canonical datum survives packing. -/
theorem unpack_pack_assemble (sign : Sign) {mantissa : ℕ} {exponent : ℤ}
    (hcanonical : Canonical mantissa exponent) :
    UnpackedFloat.unpack .binary64
        (UnpackedFloat.pack .binary64 (assemble sign mantissa exponent)) =
      if exponent ≤ 971 then assemble sign mantissa exponent
      else .infinity sign := by
  obtain ⟨hmantissa, hexponent, hnormal⟩ := hcanonical
  rcases Nat.eq_zero_or_pos mantissa with rfl | hpos
  · obtain rfl : exponent = -1074 := by omega
    have hzero : 0 < 2 ^ 52 := by norm_num
    exact unpack_packComponents_of_zero hzero
  · rw [assemble_of_pos hpos, UnpackedFloat.pack]
    simp only [exponentBias_binary64, two_pow_le_iff_log2 hpos hmantissa]
    by_cases hrange : exponent ≤ 971
    · have hfits : ¬ 2 ^ 11 ≤ (exponent + (1023 : ℕ) + (52 : ℕ)).toNat + 1 := by
        omega
      rw [if_pos hrange, if_neg hfits, ← assemble_of_pos hpos]
      by_cases hdigits : 2 ^ 52 ≤ mantissa
      · rw [if_pos hdigits, unpack_packComponents (by omega) (by omega) hdigits
          hmantissa]
        congr 1
        omega
      · rw [if_neg hdigits, hnormal.resolve_left hdigits]
        exact unpack_packComponents_of_zero (by omega)
    · have hover : 2 ^ 11 ≤ (exponent + (1023 : ℕ) + (52 : ℕ)).toNat + 1 := by
        omega
      rw [if_neg hrange, if_pos hover]
      exact unpack_packedInfinity sign

theorem unpack_pack {unpacked : UnpackedFloat} (hunpacked : Unpacked unpacked) :
    (Float.Model.pack unpacked).unpack = unpacked := by
  cases hunpacked with
  | notANumber => exact unpack_packedNaN
  | infinity sign => exact unpack_packedInfinity sign
  | finite sign hcanonical hexponent =>
    exact (unpack_pack_assemble sign hcanonical).trans (if_pos hexponent)

/-- The exponents that fit are those of the numbers in range. -/
theorem Canonical.exponent_le_iff {mantissa : ℕ} {exponent : ℤ}
    (hcanonical : Canonical mantissa exponent) :
    exponent ≤ 971 ↔ (mantissa : ℚ) * 2 ^ exponent < rangeBound := by
  constructor
  · intro hexponent
    exact mul_lt_rangeBound (by exact_mod_cast hcanonical.mantissa_lt) hexponent
  · intro hrange
    by_contra hexponent
    have hmantissa : 2 ^ 52 ≤ mantissa := hcanonical.normal.resolve_right (by omega)
    have hbound : rangeBound ≤ mantissa * 2 ^ exponent :=
      rangeBound_le_mul (by exact_mod_cast hmantissa) (not_le.mp hexponent)
    exact hbound.not_gt hrange

end TournamentScoring.Binary64
