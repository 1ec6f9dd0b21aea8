import Mathlib.Data.Nat.Bitwise
import MvfBu.Arith.Uint256

set_option autoImplicit false

/-!
# The compact target encoding (`arith_uint256::SetCompact`, `GetCompact`)

A 32-bit "compact" number is a base-256 floating point value: an exponent byte `nSize`
and a 23-bit mantissa `nWord`, with bit `0x00800000` as a sign. `SetCompact` decodes it
and reports a negative or an overflowing encoding; `GetCompact` encodes a 256-bit value,
rounding it down to its leading three bytes, under two `assert`s.

## Main definitions

* `MvfBu.ArithUint256.CompactDecode` — what `SetCompact` writes: the value and its flags.
* `MvfBu.ArithUint256.setCompact`, `MvfBu.ArithUint256.getCompact`.

## Main results

* `MvfBu.ArithUint256.setCompact_zero` — the compact zero decodes to zero, flags clear.
* `MvfBu.ArithUint256.getCompact_spec` — the asserts of `GetCompact` hold for every value, and
  its word is a normalised mantissa beside an exponent of at most `33`.
* `MvfBu.ArithUint256.setCompact_getCompact` — decoding an encoding clears the bits the
  mantissa had no room for, and sets no flag.
* `MvfBu.ArithUint256.setCompact_getCompact_round_trip` — encoding rounds down, and is exact
  on what `SetCompact` decodes without overflow.
-/

namespace MvfBu

/-- A failed `assert` of the source, with the asserted expression; the node aborts. -/
structure AssertionFailed where
  expr : String
  deriving DecidableEq, Repr

namespace ArithUint256

/-- What `SetCompact(nCompact, pfNegative, pfOverflow)` produces. -/
structure CompactDecode where
  value : ArithUint256
  fNegative : Bool
  fOverflow : Bool
  deriving DecidableEq, Repr

/-- `arith_uint256::SetCompact`. For `nSize ≤ 3` the mantissa is shifted right before it is
stored, and the flags test that shifted mantissa; for larger sizes the shift left is the
256-bit `operator<<=`, which drops the bits shifted out. -/
def setCompact (nCompact : UInt32) : CompactDecode :=
  let nSize := nCompact.toNat >>> 24
  let nWord0 := nCompact.toNat &&& 0x007fffff
  let nWord := if nSize ≤ 3 then nWord0 >>> (8 * (3 - nSize)) else nWord0
  let value : ArithUint256 :=
    if nSize ≤ 3 then BitVec.ofNat 256 nWord
    else BitVec.ofNat 256 nWord <<< (8 * (nSize - 3))
  { value
    fNegative := nWord != 0 && (nCompact.toNat &&& 0x00800000) != 0
    fOverflow := nWord != 0 &&
      (decide (nSize > 34) || (decide (nWord > 0xff) && decide (nSize > 33)) ||
        (decide (nWord > 0xffff) && decide (nSize > 32))) }

/-- `arith_uint256::GetCompact(fNegative)`. The mantissa is taken from the low 64 bits of
the value (shifted so that it has three bytes) and stored in a 32-bit word; a mantissa
with its top bit set is shifted one more byte right. The asserted conditions are the
source's `(nCompact & ~0x007fffff) == 0` (the 32-bit complement is `0xff800000`) and
`nSize < 256`. -/
def getCompact (x : ArithUint256) (fNegative : Bool) : Except AssertionFailed UInt32 :=
  let nSize0 := (bits x + 7) / 8
  let nCompact0 : ℕ :=
    if nSize0 ≤ 3 then ((x.toNat % 2 ^ 64) <<< (8 * (3 - nSize0)) % 2 ^ 64) % 2 ^ 32
    else ((x >>> (8 * (nSize0 - 3))).toNat % 2 ^ 64) % 2 ^ 32
  let nCompact1 := if nCompact0 &&& 0x00800000 ≠ 0 then nCompact0 >>> 8 else nCompact0
  let nSize := if nCompact0 &&& 0x00800000 ≠ 0 then nSize0 + 1 else nSize0
  if nCompact1 &&& 0xff800000 ≠ 0 then throw ⟨"(nCompact & ~0x007fffff) == 0"⟩
  else if ¬ nSize < 256 then throw ⟨"nSize < 256"⟩
  else
    let nCompact2 := nCompact1 ||| nSize <<< 24
    let nCompact3 :=
      nCompact2 ||| (if fNegative && nCompact2 &&& 0x007fffff ≠ 0 then 0x00800000 else 0)
    pure (UInt32.ofNat nCompact3)

/-- The compact zero decodes to zero with both flags clear. -/
@[simp] lemma setCompact_zero : setCompact 0 = ⟨0, false, false⟩ := by
  decide

/-! ## The round trip -/

/-- The sign bit `0x00800000` of a word below `2 ^ 24` is its top bit. -/
lemma and_signBit_ne_zero_iff {n : ℕ} (hn : n < 2 ^ 24) : n &&& 0x00800000 ≠ 0 ↔ 2 ^ 23 ≤ n := by
  rw [show (0x00800000 : ℕ) = 2 ^ 23 by norm_num, Nat.and_two_pow, Nat.testBit_eq_decide_div_mod_eq]
  -- the quotient by `2 ^ 23` is the top bit itself
  rcases (show n / 2 ^ 23 = 0 ∨ n / 2 ^ 23 = 1 by omega) with hq | hq
  · rw [hq]
    simp only [Nat.zero_mod, zero_ne_one, decide_false, Bool.toNat_false, zero_mul, ne_eq,
      not_true_eq_false, false_iff, not_le]
    omega
  · rw [hq]
    simp only [Nat.one_mod, decide_true, Bool.toNat_true, one_mul, ne_eq, pow_eq_zero_iff',
      OfNat.ofNat_ne_zero, false_and, not_false_eq_true, true_iff]
    omega

/-- A word below `2 ^ 23` has none of the bits `0xff800000`. -/
lemma and_not_mantissa_eq_zero {n : ℕ} (hn : n < 2 ^ 23) : n &&& 0xff800000 = 0 := by
  apply Nat.eq_of_testBit_eq
  intro i
  rw [Nat.testBit_and, Nat.zero_testBit]
  by_cases hi : i < 23
  · have hc : (0xff800000 : ℕ).testBit i = false := by
      rw [show (0xff800000 : ℕ) = 2 ^ 23 * 511 by norm_num, Nat.testBit_two_pow_mul]
      simp [hi]
    rw [hc, Bool.and_false]
  · rw [Nat.testBit_lt_two_pow (lt_of_lt_of_le hn (Nat.pow_le_pow_right (by norm_num) (by omega))),
      Bool.false_and]



/-- A mantissa below `2 ^ 24` and an exponent side by side in one word. -/
lemma or_shiftLeft_24 {m : ℕ} (hm : m < 2 ^ 24) (s : ℕ) : m ||| s <<< 24 = m + s * 2 ^ 24 := by
  rw [Nat.shiftLeft_eq, Nat.lor_comm, mul_comm s, ← Nat.two_pow_add_eq_or_of_lt hm]
  ring

/-- The value fits in its byte length `(bits x + 7) / 8`. -/
lemma toNat_lt_byteLength (x : ArithUint256) : x.toNat < 2 ^ (8 * ((bits x + 7) / 8)) :=
  lt_of_lt_of_le (toNat_lt_two_pow_bits x) (Nat.pow_le_pow_right (by norm_num) (by omega))

/-- A value of `L ≥ 1` bytes has its top byte nonzero. -/
lemma two_pow_le_of_byteLength (x : ArithUint256) (hL : 0 < (bits x + 7) / 8) :
    2 ^ (8 * ((bits x + 7) / 8 - 1)) ≤ x.toNat := by
  have hx : x ≠ 0 := fun h => by
    rw [(bits_eq_zero_iff x).2 h] at hL
    omega
  exact le_trans (Nat.pow_le_pow_right (by norm_num) (by omega)) (two_pow_bits_le x hx)

/-- **`nCompact0`.** Before normalisation `GetCompact`'s mantissa is the value moved to three
bytes: shifted up when it is shorter, cut to its top three bytes when it is longer. It is
below `2 ^ 24`, and at least `2 ^ 16` when bytes were cut. -/
lemma nCompact0_spec (x : ArithUint256) {L m0 : ℕ} (hL : L = (bits x + 7) / 8)
    (hm0 : m0 = if L ≤ 3 then ((x.toNat % 2 ^ 64) <<< (8 * (3 - L)) % 2 ^ 64) % 2 ^ 32
      else ((x >>> (8 * (L - 3))).toNat % 2 ^ 64) % 2 ^ 32) :
    m0 < 2 ^ 24 ∧ (L ≤ 3 ∧ m0 = x.toNat * 2 ^ (8 * (3 - L)) ∨
      3 < L ∧ m0 = x.toNat / 2 ^ (8 * (L - 3)) ∧ 2 ^ 16 ≤ m0) := by
  have hlt : x.toNat < 2 ^ (8 * L) := hL ▸ toNat_lt_byteLength x
  by_cases h3 : L ≤ 3
  · -- a short value is shifted up into three bytes; nothing wraps
    have hprod : x.toNat * 2 ^ (8 * (3 - L)) < 2 ^ 24 := by
      calc x.toNat * 2 ^ (8 * (3 - L)) < 2 ^ (8 * L) * 2 ^ (8 * (3 - L)) :=
            Nat.mul_lt_mul_of_pos_right hlt (Nat.two_pow_pos _)
        _ = 2 ^ 24 := by rw [← pow_add]; congr 1; omega
    have hx24 : x.toNat < 2 ^ 24 := lt_of_lt_of_le hlt (Nat.pow_le_pow_right (by norm_num) (by omega))
    have hx64 : x.toNat % 2 ^ 64 = x.toNat := Nat.mod_eq_of_lt (by omega)
    rw [if_pos h3, hx64, Nat.shiftLeft_eq, Nat.mod_eq_of_lt (show x.toNat * 2 ^ (8 * (3 - L)) < 2 ^ 64 by omega),
      Nat.mod_eq_of_lt (show x.toNat * 2 ^ (8 * (3 - L)) < 2 ^ 32 by omega)] at hm0
    exact ⟨hm0 ▸ hprod, Or.inl ⟨h3, hm0⟩⟩
  · -- a long value keeps its top three bytes
    have hsplit : 2 ^ (8 * L) = 2 ^ 24 * 2 ^ (8 * (L - 3)) := by rw [← pow_add]; congr 1; omega
    have hquot : x.toNat / 2 ^ (8 * (L - 3)) < 2 ^ 24 :=
      (Nat.div_lt_iff_lt_mul (Nat.two_pow_pos _)).2 (hsplit ▸ hlt)
    have htop : 2 ^ 16 ≤ x.toNat / 2 ^ (8 * (L - 3)) := by
      apply (Nat.le_div_iff_mul_le (Nat.two_pow_pos _)).2
      calc 2 ^ 16 * 2 ^ (8 * (L - 3)) = 2 ^ (8 * (L - 1)) := by rw [← pow_add]; congr 1; omega
        _ ≤ x.toNat := hL ▸ two_pow_le_of_byteLength x (by omega)
    rw [if_neg h3, BitVec.toNat_ushiftRight, Nat.shiftRight_eq_div_pow,
      Nat.mod_eq_of_lt (show x.toNat / 2 ^ (8 * (L - 3)) < 2 ^ 64 by omega),
      Nat.mod_eq_of_lt (show x.toNat / 2 ^ (8 * (L - 3)) < 2 ^ 32 by omega)] at hm0
    exact ⟨hm0 ▸ hquot, Or.inr ⟨by omega, hm0, hm0 ▸ htop⟩⟩


/-- **Shape of `GetCompact`.** For every value the asserts hold, and the word returned is a
mantissa `m < 2 ^ 23` beside an exponent `s ≤ 33`: the value moved to three bytes, and moved
one byte further when the top bit of the mantissa would read as the sign.

**Proof sketch.** `nCompact0_spec` gives the mantissa before normalisation; the two cases of
the sign bit each name the mantissa and the exponent, which clear both asserts. -/
theorem getCompact_spec (x : ArithUint256) :
    ∃ m s, getCompact x false = .ok (UInt32.ofNat (m + s * 2 ^ 24)) ∧ m < 2 ^ 23 ∧ s ≤ 33 ∧
      (s = 33 → m < 2 ^ 16) ∧ (3 < s → 2 ^ 15 ≤ m) ∧
      (s ≤ 3 ∧ m = x.toNat * 2 ^ (8 * (3 - s)) ∨ 3 < s ∧ m = x.toNat / 2 ^ (8 * (s - 3))) := by
  unfold getCompact
  dsimp only
  set L := (bits x + 7) / 8 with hL
  set m0 : ℕ := (if L ≤ 3 then ((x.toNat % 2 ^ 64) <<< (8 * (3 - L)) % 2 ^ 64) % 2 ^ 32
    else ((x >>> (8 * (L - 3))).toNat % 2 ^ 64) % 2 ^ 32) with hm0
  obtain ⟨hm0lt, hm0spec⟩ := nCompact0_spec x hL hm0
  have hL32 : L ≤ 32 := by have := bits_le x; omega
  by_cases hb : 2 ^ 23 ≤ m0
  · -- the top bit would read as the sign: one byte more, and the mantissa a byte shorter
    have hm1 : m0 >>> 8 = m0 / 2 ^ 8 := Nat.shiftRight_eq_div_pow m0 8
    simp only [if_pos ((and_signBit_ne_zero_iff hm0lt).2 hb),
      and_not_mantissa_eq_zero (show m0 >>> 8 < 2 ^ 23 by omega), ne_eq, not_true_eq_false,
      show L + 1 < 256 by omega, not_true_eq_false, Bool.false_and, Bool.false_eq_true, ↓reduceIte, Nat.or_zero,
      or_shiftLeft_24 (show m0 >>> 8 < 2 ^ 24 by omega)]
    refine ⟨m0 >>> 8, L + 1, rfl, by omega, by omega, fun _ => by omega, fun _ => by omega, ?_⟩
    rcases hm0spec with ⟨h3, hm⟩ | ⟨h3, hm, -⟩
    · by_cases h2 : L + 1 ≤ 3
      · -- still short: the extra byte comes out of the shift up
        have hpow : 2 ^ (8 * (3 - L)) = 2 ^ (8 * (3 - (L + 1))) * 2 ^ 8 := by
          rw [← pow_add]; congr 1; omega
        refine Or.inl ⟨h2, ?_⟩
        rw [hm1, hm, hpow, ← mul_assoc, Nat.mul_div_cancel _ (Nat.two_pow_pos 8)]
      · -- three bytes long: the low byte is cut
        have hL3 : L = 3 := by omega
        refine Or.inr ⟨by omega, ?_⟩
        rw [hm1, hm, hL3]
        simp
    · refine Or.inr ⟨by omega, ?_⟩
      rw [hm1, hm, Nat.div_div_eq_div_mul, ← pow_add]
      congr 2
      omega
  · -- the mantissa is already below the sign bit
    have hsign : ¬ (m0 &&& 8388608 ≠ 0) := fun h => hb ((and_signBit_ne_zero_iff hm0lt).1 h)
    simp only [if_neg hsign, and_not_mantissa_eq_zero (show m0 < 2 ^ 23 by omega), ne_eq,
      show L < 256 by omega, not_true_eq_false, Bool.false_and, Bool.false_eq_true,
      ↓reduceIte, Nat.or_zero, or_shiftLeft_24 hm0lt]
    refine ⟨m0, L, rfl, by omega, by omega, fun _ => by omega, fun h3 => ?_, ?_⟩
    · rcases hm0spec with ⟨h3', -⟩ | ⟨-, -, h16⟩
      · omega
      · omega
    · rcases hm0spec with ⟨h3, hm⟩ | ⟨h3, hm, -⟩
      · exact Or.inl ⟨h3, hm⟩
      · exact Or.inr ⟨h3, hm⟩


/-- The fields of a word made of a mantissa below `2 ^ 23` and an exponent: the exponent byte,
the mantissa bits, and a clear sign bit. -/
lemma compactWord_fields {m s : ℕ} (hm : m < 2 ^ 23) :
    (m + s * 2 ^ 24) >>> 24 = s ∧ (m + s * 2 ^ 24) &&& 0x007fffff = m ∧
      (m + s * 2 ^ 24) &&& 0x00800000 = 0 := by
  have hword : m + s * 2 ^ 24 = 2 ^ 24 * s + m := by ring
  refine ⟨?_, ?_, ?_⟩
  · rw [Nat.shiftRight_eq_div_pow, hword, Nat.mul_add_div (Nat.two_pow_pos 24),
      Nat.div_eq_of_lt (by omega), Nat.add_zero]
  · rw [show (0x007fffff : ℕ) = 2 ^ 23 - 1 by norm_num, Nat.and_two_pow_sub_one_eq_mod,
      show m + s * 2 ^ 24 = 2 * s * 2 ^ 23 + m by ring, Nat.mul_add_mod_of_lt hm]
  · rw [show (0x00800000 : ℕ) = 2 ^ 23 by norm_num, Nat.and_two_pow, hword,
      Nat.testBit_two_pow_mul_add _ (show m < 2 ^ 24 by omega), if_pos (by norm_num),
      Nat.testBit_lt_two_pow hm]
    rfl

/-- A mantissa below `2 ^ 23` beside an exponent up to `33` fits the 32-bit word. -/
lemma compactWord_toNat {m s : ℕ} (hm : m < 2 ^ 23) (hs : s ≤ 33) :
    (UInt32.ofNat (m + s * 2 ^ 24)).toNat = m + s * 2 ^ 24 := by
  rw [UInt32.toNat_ofNat']
  exact Nat.mod_eq_of_lt (by omega)

/-- **`SetCompact` of a normalised word.** A mantissa `m < 2 ^ 23` beside an exponent
`s ≤ 33` (with `m < 2 ^ 16` at `33`) decodes with neither flag set: the mantissa is shifted
down by the bytes it lacks when `s ≤ 3`, and up by the bytes beyond three otherwise. -/
theorem setCompact_ofParts {m s : ℕ} (hm : m < 2 ^ 23) (hs : s ≤ 33) (h33 : s = 33 → m < 2 ^ 16) :
    setCompact (UInt32.ofNat (m + s * 2 ^ 24)) =
      ⟨if s ≤ 3 then BitVec.ofNat 256 (m >>> (8 * (3 - s)))
        else BitVec.ofNat 256 m <<< (8 * (s - 3)), false, false⟩ := by
  have hc := compactWord_toNat hm hs
  obtain ⟨hsize, hword, hsign⟩ := compactWord_fields (s := s) hm
  unfold setCompact
  simp only [hc, hsize, hword, hsign, bne_self_eq_false, Bool.and_false]
  -- neither overflow test can fire: the exponent is at most 33, with a short mantissa there
  have hover : (decide (s > 34) || (decide ((if s ≤ 3 then m >>> (8 * (3 - s)) else m) > 0xff) &&
      decide (s > 33)) || (decide ((if s ≤ 3 then m >>> (8 * (3 - s)) else m) > 0xffff) &&
      decide (s > 32))) = false := by
    by_cases h : s = 33
    · have hm16 := h33 h
      subst h
      simp only [show ¬ (33 ≤ 3) by omega, if_false]
      simp only [Bool.or_eq_false_iff, Bool.and_eq_false_iff, decide_eq_false_iff_not]
      omega
    · simp only [Bool.or_eq_false_iff, Bool.and_eq_false_iff, decide_eq_false_iff_not]
      omega
  simp only [hover, Bool.and_false]
  split_ifs <;> rfl


/-- Clearing the low `k` bits of a value by shifting them out and back. -/
lemma toNat_shiftRight_shiftLeft (x : ArithUint256) (k : ℕ) :
    ((x >>> k) <<< k).toNat = x.toNat / 2 ^ k * 2 ^ k := by
  rw [BitVec.toNat_shiftLeft, BitVec.toNat_ushiftRight, Nat.shiftLeft_eq, Nat.shiftRight_eq_div_pow]
  exact Nat.mod_eq_of_lt (lt_of_le_of_lt (Nat.div_mul_le_self _ _) x.isLt)

/-- **Round trip through `GetCompact`.** For every value the asserts of `GetCompact` hold, and
`SetCompact` reads the word back with neither flag set as the value with its bits below
`8 * (s - 3)` cleared, `s` the exponent byte of the word (nothing is cleared when `s ≤ 3`). -/
theorem setCompact_getCompact (x : ArithUint256) :
    ∃ c, getCompact x false = .ok c ∧
      setCompact c = ⟨(x >>> (8 * (c.toNat >>> 24 - 3))) <<< (8 * (c.toNat >>> 24 - 3)),
        false, false⟩ := by
  obtain ⟨m, s, hget, hm, hs, h33, -, hspec⟩ := getCompact_spec x
  refine ⟨_, hget, ?_⟩
  rw [setCompact_ofParts hm hs h33, compactWord_toNat hm hs, (compactWord_fields hm).1]
  congr 1
  rcases hspec with ⟨h3, hmx⟩ | ⟨h3, hmx⟩
  · -- no byte was cut: the shift down undoes the shift up
    rw [if_pos h3, hmx, Nat.shiftRight_eq_div_pow, Nat.mul_div_cancel _ (Nat.two_pow_pos _),
      show 8 * (s - 3) = 0 by omega, BitVec.ushiftRight_zero, BitVec.shiftLeft_zero,
      BitVec.ofNat_toNat, BitVec.setWidth_eq]
  · -- the bytes cut are the low `8 * (s - 3)` bits
    rw [if_neg (by omega)]
    apply BitVec.eq_of_toNat_eq
    rw [toNat_shiftRight_shiftLeft, BitVec.toNat_shiftLeft, BitVec.toNat_ofNat,
      Nat.mod_eq_of_lt (show m < 2 ^ 256 by omega), Nat.shiftLeft_eq, hmx]
    exact Nat.mod_eq_of_lt (lt_of_le_of_lt (Nat.div_mul_le_self _ _) x.isLt)

/-- **Exponent bound.** A value below `2 ^ (8 * j + 23)` is encoded with an exponent of at
most `j + 3`: a larger exponent leaves a mantissa below `2 ^ 15`, which `GetCompact` never
returns beyond three bytes. -/
lemma getCompact_exponent_le (x : ArithUint256) {j : ℕ} (hx : x.toNat < 2 ^ (8 * j + 23))
    {c : UInt32} (hc : getCompact x false = .ok c) : c.toNat >>> 24 ≤ j + 3 := by
  obtain ⟨m, s, hget, hm, hs, -, h15, hspec⟩ := getCompact_spec x
  rw [hget, Except.ok.injEq] at hc
  rw [← hc, compactWord_toNat hm hs, (compactWord_fields hm).1]
  by_contra hlt
  rcases hspec with ⟨h3, -⟩ | ⟨-, hmx⟩
  · omega
  · -- the mantissa would be the value cut by more than `8 * j + 8` bits
    have hsmall : x.toNat / 2 ^ (8 * (s - 3)) < 2 ^ 15 := by
      calc x.toNat / 2 ^ (8 * (s - 3)) ≤ x.toNat / 2 ^ (8 * j + 8) :=
            Nat.div_le_div_left (Nat.pow_le_pow_right (by norm_num) (by omega)) (Nat.two_pow_pos _)
        _ < 2 ^ 15 := by
          apply (Nat.div_lt_iff_lt_mul (Nat.two_pow_pos _)).2
          rw [← pow_add]
          exact lt_of_lt_of_le hx (Nat.pow_le_pow_right (by norm_num) (by omega))
    have := h15 (by omega)
    omega


/-- **What `SetCompact` decodes without overflow.** A mantissa below `2 ^ 23` moved up by whole
bytes, `w * 2 ^ (8 * j)`, with no bit lost to the 256-bit shift. -/
lemma setCompact_value_of_fOverflow_eq_false (nCompact : UInt32)
    (h : (setCompact nCompact).fOverflow = false) :
    ∃ w j, w < 2 ^ 23 ∧ (setCompact nCompact).value.toNat = w * 2 ^ (8 * j) := by
  unfold setCompact at h ⊢
  dsimp only at h ⊢
  set nSize := nCompact.toNat >>> 24
  set nWord0 := nCompact.toNat &&& 0x007fffff with hw
  have hw23 : nWord0 < 2 ^ 23 := by
    rw [hw, show (0x007fffff : ℕ) = 2 ^ 23 - 1 by norm_num, Nat.and_two_pow_sub_one_eq_mod]
    exact Nat.mod_lt _ (Nat.two_pow_pos _)
  by_cases h3 : nSize ≤ 3
  · -- a short exponent shifts the mantissa down: nothing is moved up
    refine ⟨nWord0 >>> (8 * (3 - nSize)), 0, ?_, ?_⟩
    · rw [Nat.shiftRight_eq_div_pow]
      exact lt_of_le_of_lt (Nat.div_le_self _ _) hw23
    · simp only [if_pos h3]
      rw [BitVec.toNat_ofNat, Nat.mod_eq_of_lt (lt_of_le_of_lt (Nat.shiftRight_le _ _)
        (show nWord0 < 2 ^ 256 by omega))]
      simp
  · -- the overflow tests leave a product below `2 ^ 256`
    simp only [if_neg h3, Bool.and_eq_false_iff, bne_eq_false_iff_eq, Bool.or_eq_false_iff,
      decide_eq_false_iff_not] at h ⊢
    refine ⟨nWord0, nSize - 3, hw23, ?_⟩
    rw [BitVec.toNat_shiftLeft, BitVec.toNat_ofNat,
      Nat.mod_eq_of_lt (show nWord0 < 2 ^ 256 by omega), Nat.shiftLeft_eq]
    apply Nat.mod_eq_of_lt
    rcases h with h0 | ⟨⟨h34, h33⟩, h32⟩
    · rw [h0, zero_mul]
      exact Nat.two_pow_pos _
    · -- the mantissa's length and the exponent together stay within 256 bits
      have hlen : ∃ b, nWord0 < 2 ^ b ∧ b + 8 * (nSize - 3) ≤ 256 := by
        by_cases h255 : nWord0 ≤ 0xff
        · exact ⟨8, by omega, by omega⟩
        · by_cases h65535 : nWord0 ≤ 0xffff
          · exact ⟨16, by omega, by omega⟩
          · exact ⟨23, hw23, by omega⟩
      obtain ⟨b, hb, hbs⟩ := hlen
      calc nWord0 * 2 ^ (8 * (nSize - 3)) < 2 ^ b * 2 ^ (8 * (nSize - 3)) :=
            Nat.mul_lt_mul_of_pos_right hb (Nat.two_pow_pos _)
        _ = 2 ^ (b + 8 * (nSize - 3)) := (pow_add 2 b _).symm
        _ ≤ 2 ^ 256 := Nat.pow_le_pow_right (by norm_num) hbs


/-- **Compact round trip.** For every 256-bit value `x` the asserts of `GetCompact(x)` hold,
and `SetCompact(GetCompact(x))` sets neither flag and is `x` with its bits below
`8 * (s - 3)` cleared (`s` the exponent byte; none cleared when `s ≤ 3`), so it is at most
`x`; and a value that `SetCompact` decodes without overflow is read back exactly.

**Proof sketch.** The first half is `setCompact_getCompact` with `Nat.div_mul_le_self`. For
the second, a decoded value is `w * 2 ^ (8 * j)` with `w < 2 ^ 23`, so its encoding has an
exponent of at most `j + 3` (`getCompact_exponent_le`), and the bits it clears are zero. -/
theorem setCompact_getCompact_round_trip :
    (∀ x : ArithUint256, ∃ c, getCompact x false = .ok c ∧
      setCompact c = ⟨(x >>> (8 * (c.toNat >>> 24 - 3))) <<< (8 * (c.toNat >>> 24 - 3)),
        false, false⟩ ∧
      (x >>> (8 * (c.toNat >>> 24 - 3))) <<< (8 * (c.toNat >>> 24 - 3)) ≤ x) ∧
    (∀ nCompact : UInt32, (setCompact nCompact).fOverflow = false →
      ∃ c, getCompact (setCompact nCompact).value false = .ok c ∧
        setCompact c = ⟨(setCompact nCompact).value, false, false⟩) := by
  refine ⟨fun x => ?_, fun nCompact hov => ?_⟩
  · obtain ⟨c, hc, hsc⟩ := setCompact_getCompact x
    refine ⟨c, hc, hsc, ?_⟩
    rw [BitVec.le_def, toNat_shiftRight_shiftLeft]
    exact Nat.div_mul_le_self _ _
  · obtain ⟨w, j, hw, hv⟩ := setCompact_value_of_fOverflow_eq_false nCompact hov
    set v := (setCompact nCompact).value
    obtain ⟨c, hc, hsc⟩ := setCompact_getCompact v
    refine ⟨c, hc, ?_⟩
    rw [hsc]
    congr 1
    -- the encoding cuts at most the `8 * j` low bits, which are zero in `v`
    have hvlt : v.toNat < 2 ^ (8 * j + 23) := by
      rw [hv, pow_add, mul_comm (2 ^ (8 * j))]
      exact Nat.mul_lt_mul_of_pos_right hw (Nat.two_pow_pos _)
    have hk := getCompact_exponent_le v hvlt hc
    have hdvd : 2 ^ (8 * (c.toNat >>> 24 - 3)) ∣ v.toNat :=
      hv ▸ Dvd.dvd.mul_left (Nat.pow_dvd_pow 2 (by omega)) w
    apply BitVec.eq_of_toNat_eq
    rw [toNat_shiftRight_shiftLeft, Nat.div_mul_cancel hdvd]

end ArithUint256

end MvfBu
