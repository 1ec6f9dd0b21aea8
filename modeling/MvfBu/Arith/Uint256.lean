import Mathlib.Tactic.Ring
import MvfBu.Lib.LongDivision
import MvfBu.Lib.ExceptLemmas

set_option autoImplicit false

/-!
# 256-bit unsigned integers (`arith_uint256.h`, `arith_uint256.cpp`)

`base_uint<256>` stores eight 32-bit limbs; every operation the retargeting code uses is
arithmetic modulo `2 ^ 256`, so the value is a `BitVec 256`. What the limbs make explicit
in the source is kept where a caller can observe it: `bits` is the length of the value in
binary, and `operator/=` is the restoring shift-and-subtract loop with its
division-by-zero `uint_error`.

## Main definitions

* `MvfBu.ArithUint256` — `arith_uint256`.
* `MvfBu.ArithUint256.bits`, `MvfBu.ArithUint256.divAssign`,
  `MvfBu.ArithUint256.mulAssign32` — `base_uint::bits`, `operator/=`, `operator*=(uint32_t)`.
* `MvfBu.ArithUint256.ofUint64` — the implicit `base_uint(uint64_t)` constructor.

## Main results

* `MvfBu.ArithUint256.divAssign_of_ne_zero` — the division loop returns the floor quotient.
* `MvfBu.ArithUint256.divAssign_zero` — dividing by zero throws `uint_error`.
* `MvfBu.ArithUint256.mulAssign32_div_eq_iff` — a product divided by its 32-bit factor gives
  the other factor back exactly when it did not wrap.
-/

namespace MvfBu

/-- `arith_uint256`: an unsigned 256-bit integer. -/
abbrev ArithUint256 := BitVec 256

/-- `uint_error`, the exception `base_uint` throws, with its message. -/
structure UintError where
  what : String
  deriving DecidableEq, Repr

namespace ArithUint256

/-- `base_uint::bits`: the position of the highest set bit plus one (`0` for zero). -/
def bits (x : ArithUint256) : ℕ :=
  if x.toNat = 0 then 0 else x.toNat.log2 + 1

/-- The implicit `base_uint(uint64_t)` constructor: a 64-bit word widened. -/
def ofUint64 (b : UInt64) : ArithUint256 := BitVec.ofNat 256 b.toNat

/-- `base_uint::operator*=(uint32_t)`: the limbwise product by a 32-bit word, with the carry
out of the top limb dropped, i.e. the product modulo `2 ^ 256`. -/
def mulAssign32 (a : ArithUint256) (b32 : UInt32) : ArithUint256 :=
  a * BitVec.ofNat 256 b32.toNat

/-- `base_uint::operator/=`. The divisor is shifted under the leading bit of the dividend
and the quotient is built by `LongDivision.divLoop`; all intermediate values stay below
`2 ^ 256`, so the loop runs on their natural-number values. -/
def divAssign (a b : ArithUint256) : Except UintError ArithUint256 :=
  let numBits := bits a
  let divBits := bits b
  if divBits = 0 then throw ⟨"Division by zero"⟩
  else if divBits > numBits then pure 0
  else
    let shift := numBits - divBits
    pure (BitVec.ofNat 256 (LongDivision.divLoop (shift + 1) a.toNat (b.toNat <<< shift) 0))

/-! ## `bits` -/

lemma bits_eq_zero_iff (x : ArithUint256) : bits x = 0 ↔ x = 0 := by
  unfold bits
  constructor
  · intro h
    split at h
    · exact BitVec.eq_of_toNat_eq (by simpa using ‹x.toNat = 0›)
    · omega
  · rintro rfl
    simp

/-- A value is below two to the power of its bit length. -/
lemma toNat_lt_two_pow_bits (x : ArithUint256) : x.toNat < 2 ^ bits x := by
  unfold bits
  split
  · simp [*]
  · exact Nat.lt_log2_self

/-- A nonzero value is at least two to the power of its bit length minus one. -/
lemma two_pow_bits_le (x : ArithUint256) (hx : x ≠ 0) : 2 ^ (bits x - 1) ≤ x.toNat := by
  have hn : x.toNat ≠ 0 := fun h => hx (BitVec.eq_of_toNat_eq (by simpa using h))
  simp only [bits, hn, ↓reduceIte, Nat.add_sub_cancel]
  exact Nat.log2_self_le hn

lemma bits_le (x : ArithUint256) : bits x ≤ 256 := by
  unfold bits
  split
  · omega
  · have hlog : x.toNat.log2 < 256 := (Nat.log2_lt ‹_›).2 x.isLt
    omega

/-! ## Multiplication by a 32-bit word -/

lemma toNat_mulAssign32 (a : ArithUint256) (b : UInt32) :
    (mulAssign32 a b).toNat = a.toNat * b.toNat % 2 ^ 256 := by
  rw [mulAssign32, BitVec.toNat_mul, BitVec.toNat_ofNat,
    Nat.mod_eq_of_lt (lt_trans b.toNat_lt (by decide))]

/-- **Dividing a product by one factor.** The 256-bit product divided by a nonzero 32-bit
factor gives the other factor back exactly when the product does not wrap: a wrapped product
is below `2 ^ 256`, which is at most the true one. -/
theorem mulAssign32_div_eq_iff (a : ArithUint256) (b : UInt32) (hb : 0 < b.toNat) :
    mulAssign32 a b / BitVec.ofNat 256 b.toNat = a ↔ a.toNat * b.toNat < 2 ^ 256 := by
  have hb256 : b.toNat < 2 ^ 256 := lt_trans b.toNat_lt (by decide)
  rw [← BitVec.toNat_inj, BitVec.toNat_udiv, toNat_mulAssign32, BitVec.toNat_ofNat,
    Nat.mod_eq_of_lt hb256]
  constructor
  · intro h
    -- the quotient times the factor is at most the wrapped product, below `2 ^ 256`
    by_contra hwrap
    have hle : a.toNat * b.toNat ≤ a.toNat * b.toNat % 2 ^ 256 := by
      calc a.toNat * b.toNat = a.toNat * b.toNat % 2 ^ 256 / b.toNat * b.toNat := by rw [h]
        _ ≤ a.toNat * b.toNat % 2 ^ 256 := Nat.div_mul_le_self _ _
    have hlt : a.toNat * b.toNat % 2 ^ 256 < 2 ^ 256 := Nat.mod_lt _ (Nat.two_pow_pos _)
    omega
  · intro h
    rw [Nat.mod_eq_of_lt h, Nat.mul_div_cancel _ hb]

/-- A value in `(0, 2 ^ 256)` converts to a nonzero `arith_uint256`. -/
lemma ofNat_ne_zero {n : ℕ} (h0 : 0 < n) (h1 : n < 2 ^ 256) : BitVec.ofNat 256 n ≠ 0 := by
  intro h
  have hn := congrArg BitVec.toNat h
  rw [BitVec.toNat_ofNat, Nat.mod_eq_of_lt h1] at hn
  simp at hn
  omega

/-! ## Division -/

/-- **`operator/=` computes the floor quotient.** When the divisor is longer than the
dividend the quotient is zero; otherwise the aligned divisor satisfies the bound of
`LongDivision.divLoop_eq_div`, since `2 ^ (divBits - 1) * 2 ^ (shift + 1) = 2 ^ numBits`. -/
theorem divAssign_of_ne_zero (a b : ArithUint256) (hb : b ≠ 0) : divAssign a b = .ok (a / b) := by
  have hbits : bits b ≠ 0 := fun h => hb ((bits_eq_zero_iff b).1 h)
  have hbpos : 0 < b.toNat := by
    have := two_pow_bits_le b hb
    have : 0 < 2 ^ (bits b - 1) := Nat.two_pow_pos _
    omega
  have ha := toNat_lt_two_pow_bits a
  have hb2 := two_pow_bits_le b hb
  simp only [divAssign, hbits, ↓reduceIte]
  split
  · -- the divisor has more bits: the quotient is zero
    rename_i hgt
    have hlt : a.toNat < b.toNat :=
      lt_of_lt_of_le ha (le_trans (Nat.pow_le_pow_right (by norm_num) (by omega)) hb2)
    congr 1
    apply BitVec.eq_of_toNat_eq
    rw [BitVec.toNat_udiv, Nat.div_eq_of_lt hlt]
    rfl
  · rename_i hle
    have hbound : a.toNat < b.toNat * 2 ^ (bits a - bits b + 1) := by
      calc a.toNat < 2 ^ bits a := ha
        _ = 2 ^ (bits b - 1) * 2 ^ (bits a - bits b + 1) := by
          rw [← pow_add]; congr 1; omega
        _ ≤ b.toNat * 2 ^ (bits a - bits b + 1) := Nat.mul_le_mul_right _ hb2
    rw [Nat.shiftLeft_eq, LongDivision.divLoop_eq_div hbpos _ _ hbound]
    congr 1
    apply BitVec.eq_of_toNat_eq
    rw [BitVec.toNat_udiv, BitVec.toNat_ofNat]
    exact Nat.mod_eq_of_lt (lt_of_le_of_lt (Nat.div_le_self _ _) a.isLt)

/-- Dividing by zero throws `uint_error("Division by zero")`. -/
theorem divAssign_zero (a : ArithUint256) : divAssign a 0 = .error ⟨"Division by zero"⟩ := by
  simp [divAssign, bits]

/-- `operator/=` fails exactly on a zero divisor. -/
lemma divAssign_isOk_iff (a b : ArithUint256) :
    (∃ q, divAssign a b = .ok q) ↔ b ≠ 0 := by
  constructor
  · rintro ⟨q, hq⟩ rfl
    rw [divAssign_zero] at hq
    cases hq
  · intro hb
    exact ⟨_, divAssign_of_ne_zero a b hb⟩

end ArithUint256

end MvfBu
