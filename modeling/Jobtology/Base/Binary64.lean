import Jobtology.Base.Numerals
import Mathlib.Algebra.Order.Round
import Mathlib.Data.Int.Log

/-!
# Rounding to binary64

Library for the arithmetic of floats by their values: an operation gives the binary64 number that
is nearest to its exact result, ties to even. Rounding keeps the order and every small integer.
-/

namespace Jobtology.Base

/-- The place of the last bit of the binary64 numbers near a number. -/
def lastPlace (x : ℚ) : Int := max (Int.log 2 |x| - 52) (-1074)

/-- The nearest binary64 number, ties to even, of a number below the greatest one. -/
def binary64 (x : ℚ) : ℚ := roundHalfEven (x / 2 ^ lastPlace x) * 2 ^ lastPlace x

/-- `float` of an integer: from 2 ^ 1024 on it raises `OverflowError`. -/
def floatOfInt (n : Int) : Option ℚ := if |binary64 n| < 2 ^ 1024 then some (binary64 n) else none

/-! ## Rounding to an integer -/

/-- An integer is its own rounding. -/
theorem roundHalfEven_intCast (n : Int) : roundHalfEven n = n := by
  unfold roundHalfEven
  simp

/-- A rounding is not below the floor. -/
theorem floor_le_roundHalfEven (x : ℚ) : ⌊x⌋ ≤ roundHalfEven x := by
  unfold roundHalfEven
  dsimp only
  split_ifs <;> omega

/-- A rounding is at most one above the floor. -/
theorem roundHalfEven_le_floor_add_one (x : ℚ) : roundHalfEven x ≤ ⌊x⌋ + 1 := by
  unfold roundHalfEven
  dsimp only
  split_ifs <;> omega

/-- Rounding keeps the order. -/
theorem roundHalfEven_mono {x y : ℚ} (h : x ≤ y) : roundHalfEven x ≤ roundHalfEven y := by
  rcases (Int.floor_mono h).lt_or_eq with hlt | hfloor
  · calc roundHalfEven x ≤ ⌊x⌋ + 1 := roundHalfEven_le_floor_add_one x
      _ ≤ ⌊y⌋ := hlt
      _ ≤ roundHalfEven y := floor_le_roundHalfEven y
  · -- within one unit the tie alone goes either way, and it is the same for both
    have hfraction : x - ⌊y⌋ ≤ y - ⌊y⌋ := sub_le_sub_right h _
    unfold roundHalfEven
    rw [hfloor]
    dsimp only
    split_ifs <;> first | omega | linarith

/-! ## Rounding to a float -/

private theorem two_zpow_pos (e : Int) : (0 : ℚ) < 2 ^ e := zpow_pos two_pos e

/-- Every multiple of the last place is a float. -/
theorem binary64_of_multiple {x : ℚ} (n : Int) (h : x = n * 2 ^ lastPlace x) : binary64 x = x := by
  have hquotient : x / 2 ^ lastPlace x = n := by
    rw [div_eq_iff (two_zpow_pos _).ne']
    exact h
  unfold binary64
  rw [hquotient, roundHalfEven_intCast, ← h]

/-- Zero is a float. -/
@[simp] theorem binary64_zero : binary64 0 = 0 := binary64_of_multiple 0 (by simp)

/-- One is a float. -/
@[simp] theorem binary64_one : binary64 1 = 1 := by decide +kernel

/-- A power of two from the last place on bounds the roundings of what it bounds. -/
theorem binary64_le_zpow {x : ℚ} {e : Int} (he : lastPlace x ≤ e) (h : x ≤ 2 ^ e) :
    binary64 x ≤ 2 ^ e := by
  obtain ⟨k, hk⟩ := Int.eq_ofNat_of_zero_le (sub_nonneg.mpr he)
  have hpower : (2 : ℚ) ^ e = ((2 ^ k : Int) : ℚ) * 2 ^ lastPlace x := by
    rw [← sub_add_cancel e (lastPlace x), zpow_add₀ two_ne_zero, hk]
    simp
  rw [hpower] at h ⊢
  refine mul_le_mul_of_nonneg_right ?_ (two_zpow_pos _).le
  have hquotient : x / 2 ^ lastPlace x ≤ ((2 ^ k : Int) : ℚ) := (div_le_iff₀ (two_zpow_pos _)).mpr h
  exact_mod_cast (roundHalfEven_mono hquotient).trans_eq (roundHalfEven_intCast _)

private theorem zpow_le_binary64 {x : ℚ} {e : Int} (he : lastPlace x ≤ e) (h : 2 ^ e ≤ x) :
    2 ^ e ≤ binary64 x := by
  obtain ⟨k, hk⟩ := Int.eq_ofNat_of_zero_le (sub_nonneg.mpr he)
  have hpower : (2 : ℚ) ^ e = ((2 ^ k : Int) : ℚ) * 2 ^ lastPlace x := by
    rw [← sub_add_cancel e (lastPlace x), zpow_add₀ two_ne_zero, hk]
    simp
  rw [hpower] at h ⊢
  refine mul_le_mul_of_nonneg_right ?_ (two_zpow_pos _).le
  have hquotient : ((2 ^ k : Int) : ℚ) ≤ x / 2 ^ lastPlace x := (le_div_iff₀ (two_zpow_pos _)).mpr h
  exact_mod_cast (roundHalfEven_intCast _).symm.trans_le (roundHalfEven_mono hquotient)

/-- The float of a number that is not negative is not negative. -/
theorem binary64_nonneg {x : ℚ} (h : 0 ≤ x) : 0 ≤ binary64 x := by
  have hquotient : (0 : ℚ) ≤ x / 2 ^ lastPlace x := div_nonneg h (two_zpow_pos _).le
  have hrounded := roundHalfEven_mono hquotient
  rw [show (0 : ℚ) = ((0 : Int) : ℚ) from Int.cast_zero.symm, roundHalfEven_intCast] at hrounded
  exact mul_nonneg (Int.cast_nonneg hrounded) (two_zpow_pos _).le

/-- Rounding keeps the order of magnitudes. -/
theorem binary64_mono {x y : ℚ} (hx : 0 ≤ x) (h : x ≤ y) : binary64 x ≤ binary64 y := by
  rcases hx.eq_or_lt with rfl | hpos
  · rw [binary64_zero]
    exact binary64_nonneg h
  have hy := hpos.trans_le h
  have hlog : Int.log 2 |x| ≤ Int.log 2 |y| := by
    rw [abs_of_pos hpos, abs_of_pos hy]
    exact Int.log_mono_right hpos h
  have hplaces : lastPlace x ≤ lastPlace y := max_le_max_right (-1074) (sub_le_sub_right hlog 52)
  rcases hplaces.lt_or_eq with hlt | hsame
  · -- a power of two lies between them
    have hplace : lastPlace y = Int.log 2 |y| - 52 := by
      unfold lastPlace at hlt ⊢
      omega
    have hbelow : (2 : ℚ) ^ Int.log 2 |y| ≤ y := by
      rw [abs_of_pos hy]
      exact_mod_cast Int.zpow_log_le_self one_lt_two hy
    have habove : x ≤ (2 : ℚ) ^ Int.log 2 |y| := by
      have hstrict : Int.log 2 |x| + 1 ≤ Int.log 2 |y| := by
        unfold lastPlace at hlt
        omega
      calc x = |x| := (abs_of_pos hpos).symm
        _ ≤ 2 ^ (Int.log 2 |x| + 1) := by
          exact_mod_cast (Int.lt_zpow_succ_log_self (b := 2) one_lt_two |x|).le
        _ ≤ 2 ^ Int.log 2 |y| := zpow_le_zpow_right₀ one_le_two hstrict
    exact (binary64_le_zpow (by omega) habove).trans (zpow_le_binary64 (by omega) hbelow)
  · unfold binary64
    rw [hsame]
    refine mul_le_mul_of_nonneg_right (Int.cast_le.mpr (roundHalfEven_mono ?_)) (two_zpow_pos _).le
    exact div_le_div_of_nonneg_right h (two_zpow_pos _).le

/-- Integers of up to 53 bits are floats. -/
theorem binary64_intCast {n : Int} (hn : 0 ≤ n) (h : n ≤ 2 ^ 53) : binary64 n = n := by
  rcases hn.eq_or_lt with rfl | hpos
  · simp
  rcases h.eq_or_lt with rfl | hlt
  · decide +kernel
  · have hcast : (0 : ℚ) < n := Int.cast_pos.mpr hpos
    have hlog : Int.log 2 |(n : ℚ)| ≤ 52 := by
      rw [abs_of_pos hcast]
      refine Int.lt_add_one_iff.mp ((Int.lt_zpow_iff_log_lt one_lt_two hcast).mp ?_)
      exact_mod_cast hlt
    obtain ⟨k, hk⟩ := Int.eq_ofNat_of_zero_le (show 0 ≤ -lastPlace (n : ℚ) by
      unfold lastPlace
      omega)
    refine binary64_of_multiple (n * 2 ^ k) ?_
    rw [show lastPlace (n : ℚ) = -(k : Int) by omega]
    push_cast
    rw [mul_assoc, zpow_neg, zpow_natCast, mul_inv_cancel₀ (by positivity), mul_one]

/-- Integers up to 2 ^ 53 are floats. -/
theorem floatOfInt_of_le {n : Int} (hn : 0 ≤ n) (h : n ≤ 2 ^ 53) : floatOfInt n = some (n : ℚ) := by
  have hsmall : |(n : ℚ)| < 2 ^ 1024 := by
    rw [abs_of_nonneg (Int.cast_nonneg hn)]
    calc (n : ℚ) ≤ 2 ^ 53 := by exact_mod_cast h
      _ < 2 ^ 1024 := pow_lt_pow_right₀ one_lt_two (by decide)
  unfold floatOfInt
  rw [binary64_intCast hn h, if_pos hsmall]

end Jobtology.Base
