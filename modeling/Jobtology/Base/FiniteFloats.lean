import Jobtology.Base.Numerals
import Mathlib

/-!
# Finite floats

Library for code that raises on infinities and on what is no number: when a product is finite, and
when `round` raises.
-/

namespace Jobtology.Base

open Float.Model Float.Model.UnpackedFloat

/-- A packed number whose exponent is not the greatest one is finite. -/
theorem isFinite_unpack {b : BitVec Format.binary64.numBits}
    (h : unpackExponent b ≠ -1#_) : (unpack Format.binary64 b).isFinite = true := by
  unfold UnpackedFloat.unpack
  simp only [h, if_false]
  split_ifs <;> rfl

private theorem isFinite_pack {sign : Sign} {m : Nat} {e : Int} (hpos : 0 < m) (he : e ≤ 971) :
    (Float.Model.pack (.finite sign m e hpos)).isFinite = true := by
  apply isFinite_unpack
  have hbias : ¬2 ^ Format.binary64.exponentBits ≤
      (e + Format.binary64.exponentBias +
        Format.binary64.mantissaBitsWithoutImplicit).toNat + 1 := by
    change ¬(2048 : Nat) ≤ (e + (1023 : Nat) + (52 : Nat)).toNat + 1
    omega
  change unpackExponent (UnpackedFloat.pack Format.binary64 (.finite sign m e hpos)) ≠ -1#_
  unfold UnpackedFloat.pack
  simp only [hbias, if_false]
  split_ifs
  · rw [unpackExponent_packComponents]
    intro h
    have hnat := congrArg BitVec.toNat h
    change (e + (1023 : Nat) + (52 : Nat)).toNat % 2048 = 2047 at hnat
    omega
  · rw [unpackExponent_packComponents]
    decide

/-- Zeros are finite. -/
theorem isFinite_pack_zero (sign : Sign) : (Float.Model.pack (.zero sign)).isFinite = true := by
  cases sign <;> rfl

/-- The mantissa of a float has 53 bits. -/
theorem mantissa_lt {x : PyFloat} {sign : Sign} {m : Nat} {e : Int} {hpos : 0 < m}
    (h : x.unpack = .finite sign m e hpos) : m < 2 ^ 53 := by
  unfold Float.Model.unpack UnpackedFloat.unpack at h
  simp only at h
  split_ifs at h
  · injection h with _ hm _
    rw [← hm]
    exact Nat.lt_trans (BitVec.isLt _) (by decide)
  · injection h with _ hm _
    rw [← hm]
    exact BitVec.isLt _

private theorem repeat_mantissa_le (em : ExtendedMantissa) (k : Nat) :
    (em >>> k).mantissa ≤ em.mantissa := by
  induction k with
  | zero => exact Nat.le_refl _
  | succ k ih => exact Nat.le_trans (Nat.div_le_self _ 2) ih

private theorem rounded_le (em : ExtendedMantissa) : em.roundedMantissa ≤ em.mantissa + 1 := by
  unfold ExtendedMantissa.roundedMantissa
  cases em.accuracy with
  | exact => exact Nat.le_succ _
  | inexact relative =>
    cases relative with
    | lt => exact Nat.le_succ _
    | eq =>
      change em.mantissa + em.mantissa % 2 ≤ _
      omega
    | gt => exact Nat.le_refl _

/-- Rounding raises an exponent by no more than the bits it drops. -/
theorem isFinite_round {sign : Sign} {m : Nat} {e : Int}
    (hm : m < 2 ^ 106) (he : e ≤ 800) :
    (Float.Model.pack (roundWithAccuracy Format.binary64 sign m e .exact)).isFinite = true := by
  have hshift (m : Nat) (e : Int) : shiftToTargetExponent Format.binary64 m e .exact =
      (ExtendedMantissa.ofMantissaAndAccuracy m .exact >>>
        (max ((m.log2 : Int) + 1 + e - 53) (-1074) - e).toNat,
        e + (max ((m.log2 : Int) + 1 + e - 53) (-1074) - e).toNat) := rfl
  have hlog {m : Nat} {k : Nat} (h : m < 2 ^ (k + 1)) : m.log2 ≤ k := by
    by_cases hm : m = 0
    · simp [hm]
    · exact Nat.lt_succ_iff.1 ((Nat.log2_lt hm).2 h)
  unfold roundWithAccuracy
  rw [hshift m e]
  dsimp only
  generalize hfirst : (ExtendedMantissa.ofMantissaAndAccuracy m .exact >>>
    (max ((m.log2 : Int) + 1 + e - 53) (-1074) - e).toNat).roundedMantissa = rounded
  rw [hshift rounded]
  dsimp only
  split_ifs with hzero
  · exact isFinite_pack_zero sign
  · apply isFinite_pack
    have hrounded : rounded ≤ m + 1 := by
      rw [← hfirst]
      exact Nat.le_trans (rounded_le _) (Nat.succ_le_succ (repeat_mantissa_le _ _))
    have hm' : m.log2 ≤ 105 := hlog hm
    have hrounded' : rounded.log2 ≤ 106 := hlog (by omega)
    omega

/-! ## Between two numbers -/

/-- The float of zero. -/
theorem unpack_zero : (Float.Model.ofNat 0).unpack = .zero .positive := rfl

/-- The float of one. -/
theorem unpack_one :
    (Float.Model.ofNat 1).unpack = .finite .positive (2 ^ 52) (-52) (by decide) := rfl

/-- A float from zero to one is finite. -/
theorem isFinite_of_le {x : PyFloat} (hzero : Float.Model.le (.ofNat 0) x = true)
    (hone : x.le (.ofNat 1) = true) : x.isFinite = true := by
  rw [Float.Model.le, unpack_zero] at hzero
  rw [Float.Model.le, unpack_one] at hone
  unfold Float.Model.isFinite
  cases hx : x.unpack with
  | notANumber => simp [hx, UnpackedFloat.le, UnpackedFloat.compare] at hone
  | infinity sign => cases sign <;> simp [hx, UnpackedFloat.le, UnpackedFloat.compare] at hzero hone
  | zero sign => rfl
  | finite sign m e hpos => rfl

/-- A positive float that is not above one is finite. -/
theorem isFinite_of_lt {x : PyFloat} (hzero : Float.Model.lt (.ofNat 0) x = true)
    (hone : Float.Model.lt (.ofNat 1) x = false) : x.isFinite = true := by
  rw [Float.Model.lt, unpack_zero] at hzero
  rw [Float.Model.lt, unpack_one] at hone
  unfold Float.Model.isFinite
  cases hx : x.unpack with
  | notANumber => simp [hx, UnpackedFloat.lt, UnpackedFloat.compare] at hzero
  | infinity sign => cases sign <;> simp [hx, UnpackedFloat.lt, UnpackedFloat.compare] at hzero hone
  | zero sign => rfl
  | finite sign m e hpos => rfl

/-- A share of a byte is finite. -/
theorem isFinite_mul_byte {x : PyFloat} (hzero : Float.Model.le (.ofNat 0) x = true)
    (hone : x.le (.ofNat 1) = true) : (x * .ofNat 255).isFinite = true := by
  have hbyte : (Float.Model.ofNat 255).unpack =
      .finite .positive (255 * 2 ^ 45) (-45) (by decide) := rfl
  change (Float.Model.pack (UnpackedFloat.mul Format.binary64 x.unpack
    (Float.Model.ofNat 255).unpack)).isFinite = true
  rw [Float.Model.le, unpack_one] at hone
  rw [Float.Model.le, unpack_zero] at hzero
  rw [hbyte]
  cases hx : x.unpack with
  | notANumber => simp [hx, UnpackedFloat.le, UnpackedFloat.compare] at hone
  | infinity sign => cases sign <;> simp [hx, UnpackedFloat.le, UnpackedFloat.compare] at hone hzero
  | zero sign => exact isFinite_pack_zero _
  | finite sign m e hpos =>
    cases sign with
    | negative => simp [hx, UnpackedFloat.le, UnpackedFloat.compare] at hzero
    | positive =>
      have he : e ≤ -52 := by
        rw [hx] at hone
        simp only [UnpackedFloat.le, UnpackedFloat.compare, Option.any_some] at hone
        by_contra habove
        have hgt : compare e (-52) = .gt := Int.compare_eq_gt.2 (by omega)
        simp [hgt] at hone
      apply isFinite_round
      · have hm := mantissa_lt hx
        calc m * (255 * 2 ^ 45) < 2 ^ 53 * (255 * 2 ^ 45) :=
              Nat.mul_lt_mul_of_pos_right hm (by decide)
          _ ≤ 2 ^ 106 := by decide
      · omega

/-- `round` raises for infinities and for what is no number. -/
theorem roundFloat_error_iff {x : PyFloat} :
    (∃ e, roundFloat x = .error e) ↔ x.isFinite = false := by
  unfold roundFloat Float.Model.isFinite
  cases hx : x.unpack with
  | notANumber => simp [UnpackedFloat.isFinite]
  | infinity sign => simp [UnpackedFloat.isFinite]
  | zero sign => simp [UnpackedFloat.isFinite]
  | finite sign m e hpos => simp [UnpackedFloat.isFinite]

end Jobtology.Base
