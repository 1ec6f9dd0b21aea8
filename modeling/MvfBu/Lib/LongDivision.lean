import Mathlib.Tactic.Ring

set_option autoImplicit false

/-!
# Restoring binary long division

The shift-and-subtract loop that divides two natural numbers one quotient bit at a time,
most significant bit first. The divisor starts aligned under the leading bit of the
dividend; in every round it is subtracted when it fits, the quotient bit of that round is
or-ed in, and the divisor is halved.

## Main definitions

* `LongDivision.divLoop` — `k` rounds of compare, subtract, set a bit and halve.

## Main results

* `LongDivision.divLoop_spec` — the loop invariant: the bits set so far plus the floor
  quotient of what is left.
* `LongDivision.divLoop_eq_div` — started aligned and with no bits set, the loop returns
  the floor quotient.
-/

namespace LongDivision

/-- `k` rounds of restoring division on `(num, div, q)`. In the round with `k + 1`
rounds left the divisor stands shifted by `k`: when it fits under the remainder it is
subtracted and bit `k` of the quotient is set; the divisor is then halved. -/
def divLoop : ℕ → ℕ → ℕ → ℕ → ℕ
  | 0, _, _, q => q
  | k + 1, num, div, q =>
    if div ≤ num then divLoop k (num - div) (div >>> 1) (q ||| 1 <<< k)
    else divLoop k num (div >>> 1) q

/-- Or-ing bit `k` into a multiple of `2 ^ (k + 1)` is an addition. -/
lemma mul_two_pow_or_one_shiftLeft (k m : ℕ) :
    2 ^ (k + 1) * m ||| 1 <<< k = 2 ^ k * (2 * m + 1) := by
  have hlt : 2 ^ k < 2 ^ (k + 1) := Nat.pow_lt_pow_right (by norm_num) (by omega)
  rw [Nat.one_shiftLeft, ← Nat.two_pow_add_eq_or_of_lt hlt]
  ring

/-- Halving a divisor aligned at `k + 1` aligns it at `k`. -/
lemma mul_two_pow_succ_shiftRight_one (b k : ℕ) : (b * 2 ^ (k + 1)) >>> 1 = b * 2 ^ k := by
  rw [Nat.shiftRight_one, pow_succ, ← Nat.mul_assoc, Nat.mul_div_cancel _ (by norm_num)]

/-- **The loop invariant.** With `k + 1` rounds left, the divisor aligned at `k`, a
remainder below `b * 2 ^ (k + 1)` and quotient bits `m` set above position `k`, the loop
adds the floor quotient of the remainder to the bits already set.

**Proof sketch.** Induction on `k`. In each round the remainder either exceeds the aligned
divisor, which is then subtracted and bit `k` set (the new prefix is `2 * m + 1`), or
it does not (the new prefix is `2 * m`); in both cases the remainder left is below the
divisor aligned one place lower. -/
lemma divLoop_spec {b : ℕ} (hb : 0 < b) :
    ∀ (k num m : ℕ), num < b * 2 ^ (k + 1) →
      divLoop (k + 1) num (b * 2 ^ k) (2 ^ (k + 1) * m) = 2 ^ (k + 1) * m + num / b := by
  intro k
  induction k with
  | zero =>
    intro num m hnum
    simp only [zero_add, pow_one, pow_zero, mul_one] at hnum ⊢
    by_cases hle : b ≤ num
    · have hq : num / b = 1 := by
        rw [Nat.div_eq_iff hb]
        constructor <;> omega
      simp only [divLoop, hle, ↓reduceIte, hq]
      have := mul_two_pow_or_one_shiftLeft 0 m
      simp only [zero_add, pow_one, pow_zero, one_mul] at this
      rw [this]
    · have hq : num / b = 0 := Nat.div_eq_of_lt (by omega)
      simp [divLoop, hle, hq]
  | succ k ih =>
    intro num m hnum
    rw [divLoop]
    by_cases hle : b * 2 ^ (k + 1) ≤ num
    · -- the aligned divisor fits: subtract it and set bit `k + 1`
      have htwice : b * 2 ^ (k + 1 + 1) = 2 * (b * 2 ^ (k + 1)) := by ring
      have hrest : num - b * 2 ^ (k + 1) < b * 2 ^ (k + 1) := by omega
      rw [if_pos hle, mul_two_pow_succ_shiftRight_one, mul_two_pow_or_one_shiftLeft,
        ih _ _ hrest]
      have hsplit : num = (num - b * 2 ^ (k + 1)) + b * 2 ^ (k + 1) := by omega
      have hdiv : num / b = (num - b * 2 ^ (k + 1)) / b + 2 ^ (k + 1) := by
        conv_lhs => rw [hsplit]
        rw [Nat.add_mul_div_left _ _ hb]
      rw [hdiv]
      ring
    · -- it does not fit: the bit stays clear
      have hrest : num < b * 2 ^ (k + 1) := by omega
      rw [if_neg hle, mul_two_pow_succ_shiftRight_one]
      have h2 : 2 ^ (k + 1 + 1) * m = 2 ^ (k + 1) * (2 * m) := by ring
      rw [h2, ih _ _ hrest]

/-- **Restoring division is floor division**: `k + 1` rounds started with the divisor
aligned at `k` and no quotient bits divide every `num < b * 2 ^ (k + 1)`. -/
theorem divLoop_eq_div {b : ℕ} (hb : 0 < b) (k num : ℕ) (hnum : num < b * 2 ^ (k + 1)) :
    divLoop (k + 1) num (b * 2 ^ k) 0 = num / b := by
  simpa using divLoop_spec hb k num 0 hnum

end LongDivision
