import Mathlib.Data.Nat.Bitwise

set_option autoImplicit false

/-!
# Bit fields of natural numbers as arithmetic

Code that packs and unpacks bit fields writes `x >> k`, `x & (2^k - 1)` and `a << k | b`. On
natural numbers these are `x / 2 ^ k`, `x % 2 ^ k` and, when `b` fits in the low `k` bits,
`a * 2 ^ k + b`, after which `omega` decides the identities between fields. The masks are
stated for the literals that code writes, since `simp` cannot match a literal against
`2 ^ k - 1`.

## Main results

* `BitFields.shiftLeft_or_of_lt` — `a << k | b = a * 2 ^ k + b` for `b < 2 ^ k`.
* `BitFields.and_three`, …, `BitFields.and_sixtythree` — the masks of two to six bits.
-/

namespace BitFields

/-- A field shifted above a value that fits below it is their sum. -/
theorem shiftLeft_or_of_lt {a b i : ℕ} (h : b < 2 ^ i) : a <<< i ||| b = a * 2 ^ i + b := by
  rw [← Nat.shiftLeft_add_eq_or_of_lt h, Nat.shiftLeft_eq]

theorem and_three (x : ℕ) : x &&& 3 = x % 4 := Nat.and_two_pow_sub_one_eq_mod x 2

theorem and_seven (x : ℕ) : x &&& 7 = x % 8 := Nat.and_two_pow_sub_one_eq_mod x 3

theorem and_fifteen (x : ℕ) : x &&& 15 = x % 16 := Nat.and_two_pow_sub_one_eq_mod x 4

theorem and_thirtyone (x : ℕ) : x &&& 31 = x % 32 := Nat.and_two_pow_sub_one_eq_mod x 5

theorem and_sixtythree (x : ℕ) : x &&& 63 = x % 64 := Nat.and_two_pow_sub_one_eq_mod x 6

end BitFields
