import Mathlib.Tactic.Ring
import Mathlib.Tactic.Positivity

set_option autoImplicit false

/-!
# Integral conversions of C and C++

The conversions a C++ program applies when a value of one integer type is stored in
another: to an unsigned `w`-bit type the value is taken modulo `2 ^ w`; to a signed
`w`-bit type it is taken modulo `2 ^ w` into `[-2 ^ (w - 1), 2 ^ (w - 1))` (two's
complement, as every platform the programs run on does).

## Main definitions

* `IntConv.toUnsigned` — conversion to an unsigned `w`-bit type.
* `IntConv.toSigned` — conversion to a signed `w`-bit type.

## Main results

* `IntConv.toUnsigned_of_lt`, `IntConv.toSigned_of_mem` — values in range are unchanged.
-/

namespace IntConv

/-- Conversion of an integer to an unsigned `w`-bit type: the value modulo `2 ^ w`. -/
def toUnsigned (w : ℕ) (x : ℤ) : ℕ := (x % 2 ^ w).toNat

/-- Conversion of an integer to a signed `w`-bit type (two's complement wrap). -/
def toSigned (w : ℕ) (x : ℤ) : ℤ := (x + 2 ^ (w - 1)) % 2 ^ w - 2 ^ (w - 1)

lemma toUnsigned_lt (w : ℕ) (x : ℤ) : toUnsigned w x < 2 ^ w := by
  have h0 : (0 : ℤ) ≤ x % 2 ^ w := Int.emod_nonneg _ (by positivity)
  have h1 : x % 2 ^ w < 2 ^ w := Int.emod_lt_of_pos _ (by positivity)
  have hcast : ((2 ^ w : ℕ) : ℤ) = 2 ^ w := by simp
  unfold toUnsigned
  omega

/-- A value already in `[0, 2 ^ w)` is unchanged by the unsigned conversion. -/
lemma toUnsigned_of_lt {w : ℕ} {x : ℤ} (h0 : 0 ≤ x) (h1 : x < 2 ^ w) :
    (toUnsigned w x : ℤ) = x := by
  unfold toUnsigned
  rw [Int.emod_eq_of_lt h0 h1, Int.toNat_of_nonneg h0]

/-- The unsigned conversion is zero exactly on multiples of `2 ^ w`. -/
lemma toUnsigned_eq_zero_iff (w : ℕ) (x : ℤ) : toUnsigned w x = 0 ↔ (2 : ℤ) ^ w ∣ x := by
  have h0 : (0 : ℤ) ≤ x % 2 ^ w := Int.emod_nonneg _ (by positivity)
  unfold toUnsigned
  rw [Int.dvd_iff_emod_eq_zero]
  omega

/-- A value already in the signed range is unchanged by the signed conversion. -/
lemma toSigned_of_mem {w : ℕ} (hw : 0 < w) {x : ℤ} (h0 : -2 ^ (w - 1) ≤ x)
    (h1 : x < 2 ^ (w - 1)) : toSigned w x = x := by
  have hpow : (2 : ℤ) ^ w = 2 * 2 ^ (w - 1) := by
    rw [← pow_succ']; congr 1; omega
  unfold toSigned
  rw [Int.emod_eq_of_lt (by omega) (by omega)]
  ring

end IntConv
