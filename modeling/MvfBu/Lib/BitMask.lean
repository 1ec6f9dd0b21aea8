import Mathlib.Data.Nat.Bitwise
import Mathlib.Data.List.Range

set_option autoImplicit false

/-!
# Flags packed into the bits of a number

A loop over flags `0, …, n - 1` that ORs `1 << i` into an accumulator for each flag `i` that
is set packs the flags into a number below `2 ^ n`; testing `x & (1 << p)` reads flag `p` back.
These are the facts a bit mask written by such a loop and read back by such tests rests on.

## Main definitions

* `Nat.packBits f n` — the flags `f 0, …, f (n - 1)` as the bits of a number.

## Main results

* `Nat.testBit_packBits`, `Nat.packBits_and_ne_zero` — bit `p` is flag `p`, below `n`.
* `Nat.and_two_pow_ne_zero_iff` — a bit test as a base-two digit, for `omega`.
* `Nat.packBits_lt` — the packed number has `n` bits.
* `Nat.packBits_eq_zero` — it is zero exactly when no flag is set.
-/

namespace Nat

/-- The flags `f i` for `i < n` packed into the bits of a number: starting from `0`, OR in
`1 <<< i` for each `i` whose flag is set. -/
def packBits (f : ℕ → Bool) (n : ℕ) : ℕ :=
  (List.range n).foldl (fun ch i => if f i then ch ||| 1 <<< i else ch) 0

variable (f g : ℕ → Bool)

@[simp] theorem packBits_zero : packBits f 0 = 0 := rfl

theorem packBits_succ (n : ℕ) :
    packBits f (n + 1) = if f n then packBits f n ||| 1 <<< n else packBits f n := by
  rw [packBits, List.range_succ, List.foldl_append]
  rfl

/-- Bit `p` of the packed flags is flag `p`, below `n`. -/
theorem testBit_packBits (n p : ℕ) : (packBits f n).testBit p = (decide (p < n) && f p) := by
  induction n with
  | zero => simp [Nat.zero_testBit]
  | succ n ih =>
    rw [packBits_succ]
    by_cases hn : f n
    · rw [if_pos hn, testBit_or, ih, Nat.shiftLeft_eq, Nat.one_mul, testBit_two_pow]
      by_cases hp : p = n
      · subst hp
        simp [hn]
      · have hlt : p < n + 1 ↔ p < n := by omega
        simp [hlt, Ne.symm hp]
    · rw [if_neg hn, ih]
      by_cases hp : p = n
      · subst hp
        simp [hn]
      · have hlt : p < n + 1 ↔ p < n := by omega
        simp [hlt]

/-- Testing `x &&& (1 <<< p)` is testing bit `p`. -/
theorem and_one_shiftLeft_ne_zero (x p : ℕ) : x &&& 1 <<< p ≠ 0 ↔ x.testBit p = true := by
  rw [Nat.shiftLeft_eq, Nat.one_mul, Nat.and_two_pow]
  cases x.testBit p <;> simp

/-- Testing `x &&& 2 ^ p` is reading digit `p` of `x` in base two. -/
theorem and_two_pow_ne_zero_iff (x p : ℕ) : x &&& 2 ^ p ≠ 0 ↔ x / 2 ^ p % 2 = 1 := by
  rw [Nat.and_two_pow, Nat.testBit_eq_decide_div_mod_eq]
  by_cases h : x / 2 ^ p % 2 = 1 <;> simp [h]

/-- The test of bit `p` on the packed flags reads flag `p`, below `n`. -/
theorem packBits_and_ne_zero (n p : ℕ) : packBits f n &&& 1 <<< p ≠ 0 ↔ p < n ∧ f p = true := by
  rw [and_one_shiftLeft_ne_zero, testBit_packBits, Bool.and_eq_true, decide_eq_true_iff]

/-- The packed flags have `n` bits. -/
theorem packBits_lt (n : ℕ) : packBits f n < 2 ^ n :=
  Nat.lt_pow_two_of_testBit _ fun p hp => by
    rw [testBit_packBits, decide_eq_false (by omega), Bool.false_and]

/-- The packed flags are zero exactly when no flag is set. -/
theorem packBits_eq_zero (n : ℕ) : packBits f n = 0 ↔ ∀ i < n, f i = false := by
  constructor
  · intro h i hi
    have hbit := testBit_packBits f n i
    rw [h, Nat.zero_testBit, decide_eq_true hi, Bool.true_and] at hbit
    exact hbit.symm
  · intro h
    apply Nat.eq_of_testBit_eq
    intro p
    rw [testBit_packBits, Nat.zero_testBit]
    by_cases hp : p < n
    · rw [h p hp, Bool.and_false]
    · rw [decide_eq_false hp, Bool.false_and]

/-- Flags that agree below `n` pack alike. -/
theorem packBits_congr {n : ℕ} (h : ∀ i < n, f i = g i) : packBits f n = packBits g n := by
  apply Nat.eq_of_testBit_eq
  intro p
  rw [testBit_packBits, testBit_packBits]
  by_cases hp : p < n
  · rw [h p hp]
  · rw [decide_eq_false hp, Bool.false_and, Bool.false_and]

end Nat
