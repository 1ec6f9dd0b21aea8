import Mathlib.Data.Nat.Bitwise

set_option autoImplicit false

/-!
# Bit arrays stored in bytes

C code keeps an array of bits in a vector of bytes: bit `j` is bit `7 & j` of byte `j >> 3`,
read with `v[j >> 3] & (1 << (7 & j))` and set with `v[j >> 3] |= (1 << (7 & j))`. Setting a
bit makes it read as set and leaves every set bit set; that is what a filter that only ever
sets bits needs.

## Main definitions

* `ByteBits.mask` — the byte `1 << (7 & j)`.
* `ByteBits.testBit`, `ByteBits.setBit` — read and set bit `j` of a byte array.

## Main results

* `ByteBits.testBit_setBit_self` — a bit that was set reads as set.
* `ByteBits.testBit_setBit_of_testBit` — setting a bit keeps every set bit.
* `ByteBits.testBit_foldl_setBit_of_mem` — after setting a list of bits, each of them is set.
-/

namespace ByteBits

/-- The mask of bit `7 & j` within a byte: `1 << (7 & j)`. -/
def mask (j : ℕ) : UInt8 := 1 <<< (7 &&& j).toUInt8

/-- Bit `j` of a byte array: `v[j >> 3] & (1 << (7 & j))` is not zero. -/
def testBit (v : List UInt8) (j : ℕ) : Bool := (v.getD (j >>> 3) 0 &&& mask j) != 0

/-- Set bit `j` of a byte array: `v[j >> 3] |= (1 << (7 & j))`. -/
def setBit (v : List UInt8) (j : ℕ) : List UInt8 := v.modify (j >>> 3) (· ||| mask j)

@[simp] theorem length_setBit (v : List UInt8) (j : ℕ) : (setBit v j).length = v.length :=
  List.length_modify ..

theorem toNat_mask (j : ℕ) : (mask j).toNat = 2 ^ (j % 8) := by
  have h7 : 7 &&& j = j % 8 := by
    rw [Nat.land_comm]
    exact Nat.and_two_pow_sub_one_eq_mod j 3
  have hlt : j % 8 < 8 := Nat.mod_lt _ (by decide)
  rw [mask, UInt8.toNat_shiftLeft, h7, Nat.toUInt8, UInt8.toNat_ofNat',
    Nat.mod_eq_of_lt (Nat.lt_of_lt_of_le hlt (by decide)), Nat.mod_eq_of_lt hlt, UInt8.toNat_one,
    Nat.one_shiftLeft]
  exact Nat.mod_eq_of_lt (Nat.pow_lt_pow_right (by decide) hlt)

/-- A byte meets the mask of `j` exactly when its bit `j % 8` is set. -/
theorem and_mask_ne_zero_iff (b : UInt8) (j : ℕ) :
    (b &&& mask j) != 0 ↔ b.toNat.testBit (j % 8) := by
  rw [bne_iff_ne, ne_eq, ← UInt8.toNat_inj, UInt8.toNat_and, toNat_mask, Nat.and_two_pow]
  cases b.toNat.testBit (j % 8) <;> simp

theorem testBit_iff (v : List UInt8) (j : ℕ) :
    testBit v j ↔ (v.getD (j >>> 3) 0).toNat.testBit (j % 8) :=
  and_mask_ne_zero_iff _ _

/-- The byte that holds bit `i` after bit `j` is set: or-ed with the mask when it is the same
byte. -/
theorem getD_setBit (v : List UInt8) (i j : ℕ) :
    (setBit v j).getD i 0 = if j >>> 3 = i ∧ i < v.length then v.getD i 0 ||| mask j
      else v.getD i 0 := by
  rw [setBit, List.getD_eq_getElem?_getD, List.getElem?_modify, List.getD_eq_getElem?_getD]
  by_cases hi : i < v.length
  · rw [List.getElem?_eq_getElem hi]
    by_cases hij : j >>> 3 = i <;> simp [hij, hi]
  · rw [List.getElem?_eq_none (Nat.le_of_not_lt hi)]
    simp [hi]

/-- **A bit that was set reads as set**, when its byte is in the array. -/
theorem testBit_setBit_self (v : List UInt8) (j : ℕ) (h : j >>> 3 < v.length) :
    testBit (setBit v j) j = true := by
  rw [testBit_iff, getD_setBit, if_pos ⟨rfl, h⟩, UInt8.toNat_or, Nat.testBit_lor, toNat_mask,
    Nat.testBit_two_pow_self, Bool.or_true]

/-- **Setting a bit keeps every set bit.** -/
theorem testBit_setBit_of_testBit {v : List UInt8} {i : ℕ} (j : ℕ) (h : testBit v i = true) :
    testBit (setBit v j) i = true := by
  rw [testBit_iff] at h ⊢
  rw [getD_setBit]
  split_ifs
  · rw [UInt8.toNat_or, Nat.testBit_lor, h, Bool.true_or]
  · exact h

/-- **Bit `i` after bit `j` is set**: set when it was, or when it is bit `j`, for a `j` whose
byte is in the array. -/
theorem testBit_setBit (v : List UInt8) {j : ℕ} (hj : j >>> 3 < v.length) (i : ℕ) :
    testBit (setBit v j) i = (testBit v i || decide (i = j)) := by
  have hsplit : i = j ↔ i >>> 3 = j >>> 3 ∧ i % 8 = j % 8 := by
    simp only [Nat.shiftRight_eq_div_pow]
    omega
  rw [Bool.eq_iff_iff, Bool.or_eq_true, testBit_iff, testBit_iff, getD_setBit,
    decide_eq_true_iff]
  by_cases hb : j >>> 3 = i >>> 3
  · rw [if_pos ⟨hb, hb ▸ hj⟩, UInt8.toNat_or, Nat.testBit_lor, toNat_mask, Nat.testBit_two_pow,
      Bool.or_eq_true, decide_eq_true_iff]
    constructor
    · rintro (h | h)
      · exact Or.inl h
      · exact Or.inr (hsplit.2 ⟨hb.symm, h.symm⟩)
    · rintro (h | h)
      · exact Or.inl h
      · exact Or.inr (hsplit.1 h).2.symm
  · rw [if_neg fun h => hb h.1]
    have hne : i ≠ j := fun h => hb (h ▸ rfl)
    simp [hne]

/-- No bit of zero bytes is set. -/
@[simp] theorem testBit_replicate_zero (n i : ℕ) : testBit (List.replicate n 0) i = false := by
  rw [testBit]
  by_cases hi : i >>> 3 < n
  · rw [List.getD_replicate _ hi]
    simp
  · rw [List.getD_eq_default _ _ (by simpa using hi)]
    simp

/-! ### Setting a list of bits -/

@[simp] theorem length_foldl_setBit (js : List ℕ) (v : List UInt8) :
    (js.foldl setBit v).length = v.length := by
  induction js generalizing v with
  | nil => rfl
  | cons j js ih => rw [List.foldl_cons, ih, length_setBit]

/-- Setting bits keeps every set bit. -/
theorem testBit_foldl_setBit_of_testBit (js : List ℕ) {v : List UInt8} {i : ℕ}
    (h : testBit v i = true) : testBit (js.foldl setBit v) i = true := by
  induction js generalizing v with
  | nil => exact h
  | cons j js ih => exact ih (testBit_setBit_of_testBit j h)

/-- Every bit of the list is set, when its byte is in the array. -/
theorem testBit_foldl_setBit_of_mem {js : List ℕ} {j : ℕ} (hj : j ∈ js) (v : List UInt8)
    (hlt : ∀ j ∈ js, j >>> 3 < v.length) : testBit (js.foldl setBit v) j = true := by
  induction js generalizing v with
  | nil => exact absurd hj List.not_mem_nil
  | cons j' js ih =>
    rw [List.foldl_cons]
    have hlt' : ∀ j ∈ js, j >>> 3 < (setBit v j').length := fun i hi => by
      rw [length_setBit]
      exact hlt i (List.mem_cons_of_mem j' hi)
    rcases List.mem_cons.1 hj with rfl | hj
    · exact testBit_foldl_setBit_of_testBit js (testBit_setBit_self v j (hlt j List.mem_cons_self))
    · exact ih hj _ hlt'

/-- **After setting a list of bits**, a bit is set when it was or when it is in the list, for
bits whose bytes are in the array. -/
theorem testBit_foldl_setBit (js : List ℕ) (v : List UInt8) (hlt : ∀ j ∈ js, j >>> 3 < v.length)
    (i : ℕ) : testBit (js.foldl setBit v) i = (testBit v i || decide (i ∈ js)) := by
  induction js generalizing v with
  | nil => simp
  | cons j js ih =>
    have hlt' : ∀ j' ∈ js, j' >>> 3 < (setBit v j).length := fun j' hj' => by
      rw [length_setBit]
      exact hlt j' (List.mem_cons_of_mem j hj')
    rw [List.foldl_cons, ih _ hlt', testBit_setBit v (hlt j List.mem_cons_self)]
    simp only [List.mem_cons, Bool.decide_or, Bool.or_assoc]

end ByteBits
