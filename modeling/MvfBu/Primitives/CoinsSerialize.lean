import MvfBu.Lib.BitMask
import MvfBu.Primitives.Coins
import MvfBu.Primitives.Compressor

set_option autoImplicit false

/-!
# The disk format of unspent outputs (`CCoins::Serialize`, `coins.h`)

`CCoins` are written as the `VARINT` of the version, a header code, a bitmask of the unspent
outputs from the third on, the unspent outputs through `CTxOutCompressor`, and the `VARINT` of
the height. Bits 1 and 2 of the header code tell whether the first two outputs are unspent,
bit 0 whether the transaction is a coinbase, and the bits above count the non-zero bytes of the
bitmask, one less when neither of the first two outputs is unspent (then there is at least one
such byte). The reader reads mask bytes until it has seen that many non-zero ones.

## Main definitions

* `MvfBu.CCoins.CalcMaskSize`, `MvfBu.CCoins.chAvail` — the bitmask's length, its number of
  non-zero bytes, and its bytes.
* `MvfBu.CCoins.Serialize`, `MvfBu.CCoins.GetSerializeSize`, `MvfBu.CCoins.Unserialize`.
* `MvfBu.CCoins.nullSpent` — the coins with every spent output `CTxOut()`.

## Main results

* `MvfBu.CCoins.CalcMaskSize_spec` — the bitmask ends with its last non-zero byte.
* `MvfBu.CCoins.readMask_maskBytes` — the reader stops right after that byte.
* `MvfBu.CCoins.run_Unserialize` — coins with an unspent output and no spent ones at the end
  come back from their bytes, with their spent outputs `CTxOut()`, and `GetSerializeSize`
  counts those bytes modulo `2 ^ 32`.

## Design

The availability of output `i` is `CCoins.IsAvailable i`; the bitmask and the two header bits
are its values at `0, 1, 2, …`, and everything the reader rebuilds is stated through it: the
flags it reads are `IsAvailable` at `0` to `2 + 8 * nMaskSize - 1`, and the outputs it reads
are the available ones.
-/

namespace MvfBu

namespace CCoins

variable (codec : PubKeyCodec)

/-- `CalcMaskSize`: the number of bytes of the bitmask, up to its last non-zero byte, and the
number of its non-zero bytes. Byte `b` covers outputs `2 + b * 8` to `2 + b * 8 + 7` and exists
while `2 + b * 8 < vout.size()`, that is for `b < (vout.size() + 5) / 8`; it is zero (`fZero`)
when none of its outputs that exist is unspent. -/
def CalcMaskSize (c : CCoins) : ℕ × ℕ :=
  (List.range ((c.vout.length + 5) / 8)).foldl (fun r b =>
    let fZero := (List.range 8).all fun i => !c.IsAvailable (2 + b * 8 + i)
    if fZero then r else (b + 1, r.2 + 1)) (0, 0)

/-- Byte `b` of the bitmask: bit `i` set when output `2 + b * 8 + i` exists and is not
spent. -/
def chAvail (c : CCoins) (b : ℕ) : ℕ := Nat.packBits (fun i => c.IsAvailable (2 + b * 8 + i)) 8

/-- The header code, before its conversion to `unsigned int`: the number of non-zero mask
bytes (one less when neither of the first two outputs is unspent) times eight, plus the
coinbase flag and the availability of the first two outputs. -/
def headerCode (c : CCoins) : ℕ :=
  let nMaskCode := (CalcMaskSize c).2
  let fFirst := c.IsAvailable 0
  let fSecond := c.IsAvailable 1
  8 * (nMaskCode - if fFirst || fSecond then 0 else 1) + (if c.fCoinBase then 1 else 0) +
    (if fFirst then 2 else 0) + (if fSecond then 4 else 0)

/-- What `Serialize` asserts: an unspent output among the first two, or a non-zero mask
byte. -/
def HasUnspent (c : CCoins) : Bool :=
  c.IsAvailable 0 || c.IsAvailable 1 || (CalcMaskSize c).2 ≠ 0

/-- `Serialize`, `none` where it asserts. -/
def Serialize (c : CCoins) : Option (List UInt8) :=
  if c.HasUnspent then
    some (WriteVarIntSigned c.nVersion ++ WriteVarInt (c.headerCode % 2 ^ 32) ++
      (List.range (CalcMaskSize c).1).map (fun b => UInt8.ofNat (c.chAvail b)) ++
      (c.vout.filter fun o => !o.IsNull).flatMap (CTxOutCompressor.Serialize codec) ++
      WriteVarIntSigned c.nHeight)
  else none

/-- `GetSerializeSize`, an `unsigned int`; `none` where it asserts. -/
def GetSerializeSize (c : CCoins) : Option ℕ :=
  if c.HasUnspent then
    some ((GetSizeOfVarIntSigned c.nVersion + GetSizeOfVarInt (c.headerCode % 2 ^ 32) +
      (CalcMaskSize c).1 +
      ((c.vout.filter fun o => !o.IsNull).map (CTxOutCompressor.GetSerializeSize codec)).sum +
      GetSizeOfVarIntSigned c.nHeight) % 2 ^ 32)
  else none

/-- The bits `Unserialize` takes from a mask byte: bit `p` is `chAvail & (1 << p)`. -/
def maskBits (chAvail : UInt8) : List Bool :=
  (List.range 8).map fun p => decide (chAvail.toNat &&& 1 <<< p ≠ 0)

/-- The bitmask loop of `Unserialize`: while `nMaskCode > 0`, read a byte, append its eight
bits to `vAvail`, and count it off when it is not zero. Each round reads a byte, so the loop
ends with the stream. -/
def readMask : ℕ → List Bool → List UInt8 → Except String (List Bool × List UInt8)
  | 0, vAvail, s => .ok (vAvail, s)
  | _ + 1, _, [] => .error endOfFile
  | nMaskCode + 1, vAvail, chAvail :: s =>
    readMask (if chAvail ≠ 0 then nMaskCode else nMaskCode + 1) (vAvail ++ maskBits chAvail) s

/-- The outputs loop of `Unserialize` over `vAvail`: an available output is read into a
`CTxOut()`, an unavailable one stays `CTxOut()`. -/
def readOuts : List Bool → Decoder UInt8 (List CTxOut)
  | [] => pure []
  | fAvail :: vAvail => do
    let o ← if fAvail then CTxOutCompressor.Unserialize codec CTxOut.null else pure CTxOut.null
    let os ← readOuts vAvail
    pure (o :: os)

/-- `Unserialize`: every field is read anew, so the coins read into do not matter. -/
def Unserialize : Decoder UInt8 CCoins := do
  let nVersion ← ReadVarIntSigned
  let nCode ← ReadVarInt 32
  let fCoinBase := decide (nCode &&& 1 ≠ 0)
  let vAvail := [decide (nCode &&& 2 ≠ 0), decide (nCode &&& 4 ≠ 0)]
  let nMaskCode := nCode / 8 + if nCode &&& 6 ≠ 0 then 0 else 1
  let vAvail ← fun s => readMask nMaskCode vAvail s
  let vout ← readOuts codec vAvail
  let nHeight ← ReadVarIntSigned
  pure (Cleanup ⟨fCoinBase, vout, nHeight, nVersion⟩)

/-- The coins with every spent output `CTxOut()`, which is what the disk format keeps of
them. -/
def nullSpent (c : CCoins) : CCoins :=
  { c with vout := c.vout.map fun o => if o.IsNull then CTxOut.null else o }

/-! ### The header code -/

/-- The bit tests the reader makes on a number `8 * k` plus three flag bits: they read the
flags back, and the quotient by eight is `k`. -/
lemma flagCode_bits (k : ℕ) (a b d : Bool) :
    decide ((8 * k + (if a then 1 else 0) + (if b then 2 else 0) + (if d then 4 else 0)) &&& 1 ≠ 0) = a ∧
      decide ((8 * k + (if a then 1 else 0) + (if b then 2 else 0) + (if d then 4 else 0)) &&& 2 ≠ 0) = b ∧
      decide ((8 * k + (if a then 1 else 0) + (if b then 2 else 0) + (if d then 4 else 0)) &&& 4 ≠ 0) = d ∧
      ((8 * k + (if a then 1 else 0) + (if b then 2 else 0) + (if d then 4 else 0)) &&& 6 ≠ 0 ↔
        (b || d) = true) ∧
      (8 * k + (if a then 1 else 0) + (if b then 2 else 0) + (if d then 4 else 0)) / 8 = k := by
  generalize hx : 8 * k + (if a then 1 else 0) + (if b then 2 else 0) + (if d then 4 else 0) = x
  have e1 : x &&& 1 ≠ 0 ↔ x / 1 % 2 = 1 := Nat.and_two_pow_ne_zero_iff x 0
  have e2 : x &&& 2 ≠ 0 ↔ x / 2 % 2 = 1 := Nat.and_two_pow_ne_zero_iff x 1
  have e4 : x &&& 4 ≠ 0 ↔ x / 4 % 2 = 1 := Nat.and_two_pow_ne_zero_iff x 2
  -- `6` is the bits of `2` and `4`
  have e6 : x &&& 6 ≠ 0 ↔ x &&& 2 ≠ 0 ∨ x &&& 4 ≠ 0 := by
    have hsplit : x &&& 6 = (x &&& 2) ||| (x &&& 4) := by
      rw [← Nat.and_or_distrib_left]
      rfl
    rw [hsplit, ne_eq, Nat.or_eq_zero_iff, not_and_or]
  simp only [e6, e1, e2, e4]
  cases a <;> cases b <;> cases d <;> simp at hx ⊢ <;> omega

/-- The header code's low three bits are the coinbase flag and the availability of the first
two outputs, and the bits above are the count of non-zero mask bytes it stores. -/
lemma headerCode_bits (c : CCoins) :
    decide (c.headerCode &&& 1 ≠ 0) = c.fCoinBase ∧
      decide (c.headerCode &&& 2 ≠ 0) = c.IsAvailable 0 ∧
      decide (c.headerCode &&& 4 ≠ 0) = c.IsAvailable 1 ∧
      (c.headerCode &&& 6 ≠ 0 ↔ (c.IsAvailable 0 || c.IsAvailable 1) = true) ∧
      c.headerCode / 8 =
        (CalcMaskSize c).2 - if c.IsAvailable 0 || c.IsAvailable 1 then 0 else 1 :=
  flagCode_bits _ _ _ _

/-! ### The bitmask -/

/-- A mask byte is zero exactly when none of its outputs is available: the `fZero` of
`CalcMaskSize`. -/
lemma all_not_isAvailable (c : CCoins) (b : ℕ) :
    ((List.range 8).all fun i => !c.IsAvailable (2 + b * 8 + i)) = decide (c.chAvail b = 0) := by
  rw [Bool.eq_iff_iff, List.all_eq_true, decide_eq_true_iff, chAvail, Nat.packBits_eq_zero]
  simp only [List.mem_range, Bool.not_eq_eq_eq_not, Bool.not_true]

/-- A mask byte past the outputs is zero. -/
lemma chAvail_eq_zero_of_le {c : CCoins} {b : ℕ} (hb : (c.vout.length + 5) / 8 ≤ b) :
    c.chAvail b = 0 := by
  rw [chAvail, Nat.packBits_eq_zero]
  intro i _
  rw [IsAvailable, decide_eq_false (by omega), Bool.false_and]

/-- What the loop of `CalcMaskSize` keeps after the bytes below `k`, for a test `zero` of a
byte: `r.1` is one past the last non-zero byte and `r.2` the number of non-zero bytes. -/
structure MaskScan (zero : ℕ → Bool) (k : ℕ) (r : ℕ × ℕ) : Prop where
  le : r.1 ≤ k
  zero_of_le : ∀ b, r.1 ≤ b → b < k → zero b = true
  last : 0 < r.1 → zero (r.1 - 1) = false
  count : r.2 = (List.range k).countP fun b => !zero b

/-- One round of the loop of `CalcMaskSize` keeps `MaskScan`. -/
lemma MaskScan.step {zero : ℕ → Bool} {k : ℕ} {r : ℕ × ℕ} (hr : MaskScan zero k r) :
    MaskScan zero (k + 1) (if zero k then r else (k + 1, r.2 + 1)) := by
  have hcount : ((List.range (k + 1)).countP fun b => !zero b) =
      ((List.range k).countP fun b => !zero b) + if zero k then 0 else 1 := by
    rw [List.range_succ, List.countP_append]
    by_cases h : zero k <;> simp [h]
  by_cases hk : zero k
  · -- a zero byte: nothing changes
    rw [if_pos hk]
    refine ⟨by have := hr.le; omega, fun b hb hbk => ?_, hr.last, by rw [hcount, if_pos hk, hr.count]; rfl⟩
    rcases Nat.lt_succ_iff_lt_or_eq.1 hbk with hlt | rfl
    · exact hr.zero_of_le b hb hlt
    · exact hk
  · -- a non-zero byte: it is the last one so far
    rw [if_neg hk]
    refine ⟨le_refl _, fun b hb hbk => absurd hbk (by omega), fun _ => by simpa using hk, ?_⟩
    rw [hcount, if_neg hk, hr.count]

/-- The loop of `CalcMaskSize` over the bytes below `k` ends in `MaskScan`. -/
lemma maskScan_foldl (zero : ℕ → Bool) : ∀ k : ℕ,
    MaskScan zero k ((List.range k).foldl (fun r b => if zero b then r else (b + 1, r.2 + 1)) (0, 0))
  | 0 => ⟨le_refl _, fun _ _ h => absurd h (Nat.not_lt_zero _), fun h => absurd h (by simp), rfl⟩
  | k + 1 => by
    rw [List.range_succ, List.foldl_append, List.foldl_cons, List.foldl_nil]
    exact (maskScan_foldl zero k).step

/-- **The bitmask ends with its last non-zero byte.** Every byte from `nMaskSize` on is zero,
the byte before it is not, and `nMaskCode` counts the non-zero bytes below `nMaskSize`. -/
lemma CalcMaskSize_spec (c : CCoins) :
    (∀ b, (CalcMaskSize c).1 ≤ b → c.chAvail b = 0) ∧
      (0 < (CalcMaskSize c).1 → c.chAvail ((CalcMaskSize c).1 - 1) ≠ 0) ∧
      (CalcMaskSize c).2 = (List.range (CalcMaskSize c).1).countP fun b => c.chAvail b ≠ 0 := by
  have hscan : MaskScan (fun b => decide (c.chAvail b = 0)) ((c.vout.length + 5) / 8)
      (CalcMaskSize c) := by
    have h : MaskScan (fun b => (List.range 8).all fun i => !c.IsAvailable (2 + b * 8 + i))
        ((c.vout.length + 5) / 8) (CalcMaskSize c) :=
      maskScan_foldl _ _
    rwa [funext (all_not_isAvailable c)] at h
  generalize CalcMaskSize c = r at hscan ⊢
  generalize hk : (c.vout.length + 5) / 8 = k at hscan
  have hzero : ∀ b, r.1 ≤ b → c.chAvail b = 0 := by
    intro b hb
    by_cases hbk : b < k
    · simpa using hscan.zero_of_le b hb hbk
    · exact chAvail_eq_zero_of_le (by omega)
  refine ⟨hzero, fun h => by simpa using hscan.last h, ?_⟩
  -- the bytes between `r.1` and `k` are zero and do not count
  rw [hscan.count, show k = r.1 + (k - r.1) by have := hscan.le; omega, List.range_add,
    List.countP_append, List.countP_map]
  have htail : ((List.range (k - r.1)).countP ((fun b => !decide (c.chAvail b = 0)) ∘ (r.1 + ·))) = 0 := by
    rw [List.countP_eq_zero]
    intro b _
    simp [hzero (r.1 + b) (by omega)]
  rw [htail, Nat.add_zero]
  simp

/-- The bits read from a mask byte are the availability of its outputs. -/
lemma maskBits_chAvail (c : CCoins) (b : ℕ) :
    maskBits (UInt8.ofNat (c.chAvail b)) = (List.range 8).map fun i => c.IsAvailable (2 + b * 8 + i) := by
  have hlt : c.chAvail b < 2 ^ 8 := Nat.packBits_lt _ 8
  unfold maskBits
  apply List.map_congr_left
  intro p hp
  rw [UInt8.toNat_ofNat', Nat.mod_eq_of_lt hlt, chAvail, Bool.eq_iff_iff, decide_eq_true_iff,
    Nat.packBits_and_ne_zero]
  exact ⟨fun h => h.2, fun h => ⟨List.mem_range.1 hp, h⟩⟩

/-- The flags the reader gathers from the header and the bitmask are the availability of the
outputs below `2 + 8 * nMaskSize`. -/
lemma vAvail_maskBytes (c : CCoins) : ∀ N : ℕ,
    [c.IsAvailable 0, c.IsAvailable 1] ++
        ((List.range N).map fun b => UInt8.ofNat (c.chAvail b)).flatMap maskBits =
      (List.range (2 + 8 * N)).map c.IsAvailable
  | 0 => rfl
  | N + 1 => by
    rw [List.range_succ, List.map_append, List.flatMap_append, ← List.append_assoc,
      vAvail_maskBytes c N, show 2 + 8 * (N + 1) = (2 + 8 * N) + 8 by ring,
      @List.range_add (2 + 8 * N) 8, List.map_append, List.map_map]
    simp only [List.map_cons, List.map_nil, List.flatMap_cons, List.flatMap_nil, List.append_nil,
      maskBits_chAvail]
    congr 1
    apply List.map_congr_left
    intro i _
    simp only [Function.comp_apply]
    congr 1
    ring

/-- **The reader stops right after the last non-zero mask byte.** Mask bytes whose last byte is
not zero, read while as many non-zero bytes as they hold are outstanding, are read whole, and
their bits are appended to the flags. -/
lemma readMask_append : ∀ (bytes : List UInt8) (vAvail : List Bool) (rest : List UInt8),
    (∀ x, bytes.getLast? = some x → x ≠ 0) →
      readMask (bytes.countP fun x => x ≠ 0) vAvail (bytes ++ rest) =
        .ok (vAvail ++ bytes.flatMap maskBits, rest)
  | [], vAvail, rest, _ => by simp [readMask]
  | x :: xs, vAvail, rest, hlast => by
    have hlast' : ∀ y, xs.getLast? = some y → y ≠ 0 := fun y hy =>
      hlast y (by rw [List.getLast?_cons, hy]; rfl)
    have ih := readMask_append xs (vAvail ++ maskBits x) rest hlast'
    rw [List.flatMap_cons, ← List.append_assoc, ← ih, List.countP_cons, List.cons_append]
    by_cases hx : x = 0
    · -- a zero byte is read without counting; one after it is not zero
      subst hx
      have hxs : xs ≠ [] := fun h => hlast 0 (by rw [h]; rfl) rfl
      obtain ⟨y, hy⟩ : ∃ y, xs.getLast? = some y := ⟨_, List.getLast?_eq_some_getLast hxs⟩
      have hpos : 0 < xs.countP fun x => x ≠ 0 :=
        List.countP_pos_iff.2 ⟨y, List.mem_of_getLast? hy, by simpa using hlast' y hy⟩
      obtain ⟨m, hm⟩ : ∃ m, (xs.countP fun x => x ≠ 0) = m + 1 := ⟨_, (Nat.succ_pred_eq_of_pos hpos).symm⟩
      rw [hm]
      simp [readMask]
    · -- a non-zero byte is counted off
      simp [readMask, hx]

/-- The mask byte of an available output from the third on is not zero. -/
lemma chAvail_ne_zero {c : CCoins} {b j : ℕ} (hj : j < 8)
    (havail : c.IsAvailable (2 + b * 8 + j) = true) : c.chAvail b ≠ 0 := by
  rw [chAvail, ne_eq, Nat.packBits_eq_zero]
  intro hzero
  rw [hzero j hj] at havail
  cases havail

/-- The bitmask stops within the mask bytes there are. -/
lemma CalcMaskSize_fst_le (c : CCoins) : (CalcMaskSize c).1 ≤ (c.vout.length + 5) / 8 := by
  by_contra hlt
  exact (CalcMaskSize_spec c).2.1 (by omega) (chAvail_eq_zero_of_le (by omega))

/-- An available output from the third on has its mask byte below `nMaskSize`. -/
lemma lt_CalcMaskSize {c : CCoins} {i : ℕ} (hi : 2 ≤ i) (havail : c.IsAvailable i = true) :
    (i - 2) / 8 < (CalcMaskSize c).1 := by
  have hbyte : c.chAvail ((i - 2) / 8) ≠ 0 :=
    chAvail_ne_zero (Nat.mod_lt _ (by norm_num)) (by rwa [show 2 + (i - 2) / 8 * 8 + (i - 2) % 8 = i by omega])
  by_contra hle
  exact hbyte ((CalcMaskSize_spec c).1 _ (by omega))

/-- A mask byte as written is zero exactly when it is. -/
lemma ofNat_chAvail_eq_zero_iff (c : CCoins) (b : ℕ) : UInt8.ofNat (c.chAvail b) = 0 ↔ c.chAvail b = 0 := by
  have hlt : c.chAvail b < 2 ^ 8 := Nat.packBits_lt _ 8
  constructor
  · intro h
    have := congrArg UInt8.toNat h
    rwa [UInt8.toNat_ofNat', Nat.mod_eq_of_lt hlt, UInt8.toNat_zero] at this
  · intro h
    rw [h]
    rfl

/-- The mask bytes as written hold `nMaskCode` non-zero bytes and end with a non-zero one. -/
lemma maskBytes_spec (c : CCoins) :
    (((List.range (CalcMaskSize c).1).map fun b => UInt8.ofNat (c.chAvail b)).countP
        fun x => x ≠ 0) = (CalcMaskSize c).2 ∧
      ∀ x, ((List.range (CalcMaskSize c).1).map fun b => UInt8.ofNat (c.chAvail b)).getLast? =
        some x → x ≠ 0 := by
  obtain ⟨-, hlast, hcount⟩ := CalcMaskSize_spec c
  refine ⟨?_, fun x hx => ?_⟩
  · rw [hcount, List.countP_map]
    congr 1
    funext b
    simp [ofNat_chAvail_eq_zero_iff]
  · rw [List.getLast?_map, List.getLast?_range] at hx
    split_ifs at hx with hN
    · cases hx
    · simp only [Option.map_some, Option.some.injEq] at hx
      subst hx
      exact fun h => hlast (by omega) ((ofNat_chAvail_eq_zero_iff c _).1 h)

/-! ### The outputs -/

variable {codec}

/-- **The outputs loop reads back the unspent outputs.** Over the flags of which outputs are
unspent, the loop reads each unspent one from its compressed bytes and leaves each spent one
`CTxOut()`. -/
lemma readOuts_filter (hcodec : codec.Sound) : ∀ (L : List CTxOut) (rest : List UInt8),
    (∀ o ∈ L, o.IsNull = false → MoneyRange o.nValue.toInt = true ∧
      o.scriptPubKey.length + CScriptCompressor.nSpecialScripts < 2 ^ 32) →
    (readOuts codec (L.map fun o => !o.IsNull)).run
        ((L.filter fun o => !o.IsNull).flatMap (CTxOutCompressor.Serialize codec) ++ rest) =
      .ok (L.map fun o => if o.IsNull then CTxOut.null else o, rest)
  | [], rest, _ => rfl
  | o :: L, rest, hL => by
    have ih := readOuts_filter hcodec L rest fun o' ho' => hL o' (List.mem_cons_of_mem o ho')
    cases hnull : o.IsNull with
    | true =>
      -- a spent output: nothing is read
      rw [List.filter_cons_of_neg (by simp [hnull]), List.map_cons, List.map_cons, readOuts, hnull,
        Bool.not_true, if_neg Bool.false_ne_true, Decoder.run_bind_of_run (Decoder.run_pure _ _),
        Decoder.run_bind_of_run ih, if_pos rfl]
      rfl
    | false =>
      -- an unspent output: read back through `CTxOutCompressor`
      obtain ⟨hv, hs⟩ := hL o List.mem_cons_self hnull
      rw [List.filter_cons_of_pos (by simp [hnull]), List.flatMap_cons, List.append_assoc,
        List.map_cons, List.map_cons, readOuts, hnull, Bool.not_false, if_pos rfl,
        Decoder.run_bind_of_run (CTxOutCompressor.run_Unserialize codec hcodec CTxOut.null hv hs _),
        Decoder.run_bind_of_run ih, if_neg Bool.false_ne_true]
      rfl

/-- The availability of the outputs below `n`, at least the number of outputs, is that of the
outputs followed by spent ones. -/
lemma map_isAvailable_range (c : CCoins) {n : ℕ} (hn : c.vout.length ≤ n) :
    (List.range n).map c.IsAvailable =
      (c.vout ++ List.replicate (n - c.vout.length) CTxOut.null).map fun o => !o.IsNull := by
  apply List.ext_getElem (by simp; omega)
  intro i hi _
  rw [List.getElem_map, List.getElem_range, List.getElem_map, IsAvailable]
  by_cases hlt : i < c.vout.length
  · rw [List.getElem_append_left hlt, decide_eq_true hlt, Bool.true_and, List.getD_eq_getElem _ _ hlt]
  · rw [List.getElem_append_right (by omega), List.getElem_replicate, decide_eq_false hlt,
      Bool.false_and]
    rfl

/-- Spent outputs after an unspent last one are what `Cleanup` drops. -/
lemma rdropWhile_append_replicate {l : List CTxOut}
    (hl : ∀ h : l ≠ [], (l.getLast h).IsNull = false) :
    ∀ k, (l ++ List.replicate k CTxOut.null).rdropWhile CTxOut.IsNull = l
  | 0 => by
    rw [List.replicate_zero, List.append_nil, List.rdropWhile_eq_self_iff]
    intro h
    simp [hl h]
  | k + 1 => by
    have hnull : CTxOut.IsNull CTxOut.null = true := rfl
    rw [List.replicate_succ', ← List.append_assoc, List.rdropWhile_concat_pos _ _ _ hnull]
    exact rdropWhile_append_replicate hl k

/-- Cleaned-up coins end with an unspent output, if they have outputs. -/
lemma getLast_isNull {c : CCoins} (hclean : c.Cleanup = c) :
    ∀ h : c.vout ≠ [], (c.vout.getLast h).IsNull = false := by
  have hself : c.vout.rdropWhile CTxOut.IsNull = c.vout := by
    rw [← Cleanup_vout, hclean]
  intro h
  simpa using List.rdropWhile_eq_self_iff.1 hself h

/-- Coins whose last output is unspent pass the assertion of `Serialize`. -/
lemma HasUnspent_of_getLast {c : CCoins} (hne : c.vout ≠ [])
    (hlast : (c.vout.getLast hne).IsNull = false) : c.HasUnspent = true := by
  have havail : c.IsAvailable (c.vout.length - 1) = true := by
    have hlen : 0 < c.vout.length := List.length_pos_iff.2 hne
    rw [IsAvailable, decide_eq_true (by omega), Bool.true_and,
      List.getD_eq_getElem _ _ (by omega), ← List.getLast_eq_getElem hne, hlast]
    rfl
  unfold HasUnspent
  by_cases h2 : 2 ≤ c.vout.length - 1
  · -- the last output has a mask byte, which counts
    have hb := lt_CalcMaskSize h2 havail
    have hbyte : c.chAvail ((c.vout.length - 1 - 2) / 8) ≠ 0 :=
      chAvail_ne_zero (Nat.mod_lt _ (by norm_num)) (by
        rwa [show 2 + (c.vout.length - 1 - 2) / 8 * 8 + (c.vout.length - 1 - 2) % 8 =
          c.vout.length - 1 by omega])
    have hcount : (CalcMaskSize c).2 ≠ 0 := by
      rw [(CalcMaskSize_spec c).2.2, ← Nat.pos_iff_ne_zero, List.countP_pos_iff]
      exact ⟨_, List.mem_range.2 hb, by simpa using hbyte⟩
    simp [hcount]
  · -- the last output is one of the first two
    have hi : c.vout.length - 1 = 0 ∨ c.vout.length - 1 = 1 := by omega
    rcases hi with hi | hi <;> rw [hi] at havail <;> simp [havail]

/-- The flags the reader gathers cover every output: an unspent last output lies below
`2 + 8 * nMaskSize`. -/
lemma length_le_maskFlags {c : CCoins} (hlast : ∀ h : c.vout ≠ [], (c.vout.getLast h).IsNull = false) :
    c.vout.length ≤ 2 + 8 * (CalcMaskSize c).1 := by
  by_cases h2 : c.vout.length ≤ 2
  · omega
  have hne : c.vout ≠ [] := List.ne_nil_of_length_pos (by omega)
  have havail : c.IsAvailable (c.vout.length - 1) = true := by
    rw [IsAvailable, decide_eq_true (by omega), Bool.true_and,
      List.getD_eq_getElem _ _ (by omega), ← List.getLast_eq_getElem hne, hlast hne]
    rfl
  have := lt_CalcMaskSize (by omega) havail
  omega

/-- The header code fits an `unsigned int` when there are fewer than `2 ^ 31` outputs. -/
lemma headerCode_lt {c : CCoins} (hlen : c.vout.length < 2 ^ 31) : c.headerCode < 2 ^ 32 := by
  have hcount : (CalcMaskSize c).2 ≤ (CalcMaskSize c).1 := by
    rw [(CalcMaskSize_spec c).2.2]
    exact (List.countP_le_length).trans (by simp)
  have hN := CalcMaskSize_fst_le c
  unfold headerCode
  dsimp only
  split_ifs <;> omega

/-- The mask count the reader computes from the header code is `nMaskCode`. -/
lemma headerCode_maskCode {c : CCoins} (hun : c.HasUnspent = true) :
    c.headerCode / 8 + (if c.headerCode &&& 6 ≠ 0 then 0 else 1) = (CalcMaskSize c).2 := by
  obtain ⟨-, -, -, h6, hdiv⟩ := headerCode_bits c
  rw [hdiv]
  unfold HasUnspent at hun
  by_cases hf : (c.IsAvailable 0 || c.IsAvailable 1) = true
  · rw [if_pos hf, if_pos (h6.2 hf)]
    rfl
  · rw [if_neg hf, if_neg (fun h => hf (h6.1 h))]
    have hcount : (CalcMaskSize c).2 ≠ 0 := by
      simp only [Bool.or_eq_true, decide_eq_true_eq] at hun hf
      tauto
    omega

/-- `GetSerializeSize` counts the bytes `Serialize` writes, as an `unsigned int`. -/
lemma GetSerializeSize_eq (c : CCoins) :
    GetSerializeSize codec c = (Serialize codec c).map fun bytes => bytes.length % 2 ^ 32 := by
  unfold GetSerializeSize Serialize
  split_ifs
  · simp only [Option.map_some, List.length_append, length_WriteVarIntSigned, length_WriteVarInt,
      List.length_map, List.length_range, List.length_flatMap, CTxOutCompressor.length_Serialize]
  · rfl

/-- **Reading back the bytes of cleaned-up coins.** The reader takes the version, the header
code, the mask bytes up to the last non-zero one, the unspent outputs and the height, and
rebuilds the coins with every spent output `CTxOut()`.

**Proof sketch.** The header code gives back the coinbase flag, the first two flags and the
mask count (`headerCode_bits`); the reader reads the mask bytes whole (`readMask_append`), so
the flags it has are the availability of the outputs below `2 + 8 * nMaskSize`
(`vAvail_maskBytes`), which covers every output (`length_le_maskFlags`); the outputs loop reads
the unspent outputs (`readOuts_filter`), and `Cleanup` drops the spent ones it adds at the
end. -/
lemma run_Unserialize_bytes (hcodec : codec.Sound) {c : CCoins} (hne : c.vout ≠ [])
    (hclean : c.Cleanup = c)
    (hver : 0 ≤ c.nVersion ∧ c.nVersion < 2 ^ 31) (hheight : 0 ≤ c.nHeight ∧ c.nHeight < 2 ^ 31)
    (hlen : c.vout.length < 2 ^ 31)
    (hout : ∀ o ∈ c.vout, o.IsNull = false → MoneyRange o.nValue.toInt = true ∧
      o.scriptPubKey.length + CScriptCompressor.nSpecialScripts < 2 ^ 32)
    (rest : List UInt8) :
    (Unserialize codec).run (WriteVarIntSigned c.nVersion ++ (WriteVarInt (c.headerCode % 2 ^ 32) ++
      (((List.range (CalcMaskSize c).1).map fun b => UInt8.ofNat (c.chAvail b)) ++
        ((c.vout.filter fun o => !o.IsNull).flatMap (CTxOutCompressor.Serialize codec) ++
          (WriteVarIntSigned c.nHeight ++ rest))))) = .ok (c.nullSpent, rest) := by
  have hlast := getLast_isNull hclean
  have hun := HasUnspent_of_getLast hne (hlast hne)
  have hcover := length_le_maskFlags hlast
  obtain ⟨hcount, hmlast⟩ := maskBytes_spec c
  obtain ⟨hcb, hf0, hf1, -, -⟩ := headerCode_bits c
  -- the mask bytes, the outputs' bytes, and the outputs padded to the flags the reader has
  generalize hN : (CalcMaskSize c).1 = N at hcover hcount hmlast ⊢
  generalize hmask : (List.range N).map (fun b => UInt8.ofNat (c.chAvail b)) = mask at hcount hmlast ⊢
  generalize houts : (c.vout.filter fun o => !o.IsNull).flatMap (CTxOutCompressor.Serialize codec) =
    outs
  generalize hpad : c.vout ++ List.replicate (2 + 8 * N - c.vout.length) CTxOut.null = pad
  have hflags : [c.IsAvailable 0, c.IsAvailable 1] ++ mask.flatMap maskBits =
      pad.map fun o => !o.IsNull := by
    rw [← hmask, vAvail_maskBytes, map_isAvailable_range c hcover, hpad]
  have hreadMask : StateT.run
        (fun s => readMask (CalcMaskSize c).2 [c.IsAvailable 0, c.IsAvailable 1] s :
          Decoder UInt8 (List Bool))
        (mask ++ (outs ++ (WriteVarIntSigned c.nHeight ++ rest))) =
      .ok (pad.map fun o => !o.IsNull, outs ++ (WriteVarIntSigned c.nHeight ++ rest)) := by
    rw [← hflags, ← hcount]
    exact readMask_append mask _ _ hmlast
  have hpadOuts : (pad.filter fun o => !o.IsNull).flatMap (CTxOutCompressor.Serialize codec) = outs := by
    have hnull : CTxOut.null.IsNull = true := rfl
    rw [← hpad, List.filter_append, List.filter_replicate, ← houts]
    simp [hnull]
  have hreadOuts := readOuts_filter hcodec pad (WriteVarIntSigned c.nHeight ++ rest) (by
    intro o ho hnull
    rw [← hpad, List.mem_append, List.mem_replicate] at ho
    rcases ho with ho | ⟨-, rfl⟩
    · exact hout o ho hnull
    · cases hnull)
  rw [hpadOuts] at hreadOuts
  have hcleanup : Cleanup ⟨c.fCoinBase, pad.map fun (o : CTxOut) => if o.IsNull then CTxOut.null else o,
      c.nHeight, c.nVersion⟩ = c.nullSpent := by
    have hlast' : ∀ h : (c.vout.map fun (o : CTxOut) => if o.IsNull then CTxOut.null else o) ≠ [],
        ((c.vout.map fun (o : CTxOut) => if o.IsNull then CTxOut.null else o).getLast h).IsNull =
          false := by
      intro h
      simp [List.getLast_map, hlast hne]
    have hvout : (pad.map fun (o : CTxOut) => if o.IsNull then CTxOut.null else o).rdropWhile
        CTxOut.IsNull = c.vout.map fun (o : CTxOut) => if o.IsNull then CTxOut.null else o := by
      rw [← hpad, List.map_append, List.map_replicate, ite_self, rdropWhile_append_replicate hlast']
    unfold Cleanup nullSpent
    congr 1
  rw [Unserialize, Decoder.run_bind_of_run (run_ReadVarIntSigned hver.1 hver.2 _),
    Decoder.run_bind_of_run (run_ReadVarInt (Nat.mod_lt _ (by norm_num)) _),
    Nat.mod_eq_of_lt (headerCode_lt hlen), headerCode_maskCode hun, hcb, hf0, hf1]
  dsimp only
  rw [Decoder.run_bind_of_run hreadMask, Decoder.run_bind_of_run hreadOuts,
    Decoder.run_bind_of_run (run_ReadVarIntSigned hheight.1 hheight.2 _), Decoder.run_pure,
    hcleanup]

/-- **`CCoins` round trip.** Cleaned-up coins with an unspent output, a version and a height
that are `int`s and not negative, fewer than `2 ^ 31` outputs, and unspent outputs that
`CTxOutCompressor` writes back (an amount in `MoneyRange`, a script whose length plus
`nSpecialScripts` fits an `unsigned int`) are written, and come back from their bytes with
every spent output `CTxOut()`; `GetSerializeSize` is the number of bytes as an
`unsigned int`. -/
theorem run_Unserialize (hcodec : codec.Sound) {c : CCoins}
    (hpruned : c.IsPruned = false) (hclean : c.Cleanup = c)
    (hver : 0 ≤ c.nVersion ∧ c.nVersion < 2 ^ 31) (hheight : 0 ≤ c.nHeight ∧ c.nHeight < 2 ^ 31)
    (hlen : c.vout.length < 2 ^ 31)
    (hout : ∀ o ∈ c.vout, o.IsNull = false → MoneyRange o.nValue.toInt = true ∧
      o.scriptPubKey.length + CScriptCompressor.nSpecialScripts < 2 ^ 32)
    (rest : List UInt8) :
    ∃ bytes, Serialize codec c = some bytes ∧
      (Unserialize codec).run (bytes ++ rest) = .ok (c.nullSpent, rest) ∧
      GetSerializeSize codec c = some (bytes.length % 2 ^ 32) := by
  have hne : c.vout ≠ [] := fun h => by
    rw [IsPruned, h] at hpruned
    cases hpruned
  have hserialize : Serialize codec c = some _ :=
    if_pos (HasUnspent_of_getLast hne (getLast_isNull hclean hne))
  refine ⟨_, hserialize, ?_, by rw [GetSerializeSize_eq, hserialize]; rfl⟩
  simp only [List.append_assoc]
  exact run_Unserialize_bytes hcodec hne hclean hver hheight hlen hout rest

end CCoins

/-- Coins whose spent outputs are all `CTxOut()` are kept whole by the disk format. -/
lemma CCoins.nullSpent_eq_self {c : CCoins} (hspent : ∀ o ∈ c.vout, o.IsNull = true → o = CTxOut.null) :
    c.nullSpent = c := by
  obtain ⟨fCoinBase, vout, nHeight, nVersion⟩ := c
  simp only [CCoins.nullSpent, CCoins.mk.injEq, and_true, true_and]
  conv_rhs => rw [← List.map_id vout]
  apply List.map_congr_left
  intro o ho
  by_cases hnull : o.IsNull = true
  · rw [if_pos hnull, hspent o ho hnull]
    rfl
  · rw [if_neg hnull]
    rfl

/-- **The `CCoins` disk format round trip.** For a sound key codec: cleaned-up coins with an
unspent output, whose spent outputs are `CTxOut()`, with a version and a height that are `int`s
and not negative, fewer than `2 ^ 31` outputs, and unspent outputs with an amount in
`MoneyRange` and a script whose length plus `nSpecialScripts` fits an `unsigned int`, are read
back from the bytes `Serialize` writes, which the reader consumes exactly; `GetSerializeSize`
is their number as an `unsigned int`. -/
theorem coins_disk_round_trip {codec : PubKeyCodec} (hcodec : codec.Sound) {c : CCoins}
    (hpruned : c.IsPruned = false) (hclean : c.Cleanup = c)
    (hspent : ∀ o ∈ c.vout, o.IsNull = true → o = CTxOut.null)
    (hver : 0 ≤ c.nVersion ∧ c.nVersion < 2 ^ 31) (hheight : 0 ≤ c.nHeight ∧ c.nHeight < 2 ^ 31)
    (hlen : c.vout.length < 2 ^ 31)
    (hout : ∀ o ∈ c.vout, o.IsNull = false → MoneyRange o.nValue.toInt = true ∧
      o.scriptPubKey.length + CScriptCompressor.nSpecialScripts < 2 ^ 32)
    (rest : List UInt8) :
    ∃ bytes, CCoins.Serialize codec c = some bytes ∧
      (CCoins.Unserialize codec).run (bytes ++ rest) = .ok (c, rest) ∧
      CCoins.GetSerializeSize codec c = some (bytes.length % 2 ^ 32) := by
  obtain ⟨bytes, hser, hread, hsize⟩ :=
    CCoins.run_Unserialize hcodec hpruned hclean hver hheight hlen hout rest
  rw [CCoins.nullSpent_eq_self hspent] at hread
  exact ⟨bytes, hser, hread, hsize⟩

/-- The round trip at the codec that takes no uncompressed key, for a coinbase with one
output of 50 coins to `OP_TRUE` at height 100. -/
theorem coins_disk_round_trip_coinbase :
    ∃ bytes, CCoins.Serialize PubKeyCodec.rejectAll ⟨true, [⟨5000000000, [0x51]⟩], 100, 1⟩ =
        some bytes ∧
      (CCoins.Unserialize PubKeyCodec.rejectAll).run (bytes ++ []) =
        .ok (⟨true, [⟨5000000000, [0x51]⟩], 100, 1⟩, []) ∧
      CCoins.GetSerializeSize PubKeyCodec.rejectAll ⟨true, [⟨5000000000, [0x51]⟩], 100, 1⟩ =
        some (bytes.length % 2 ^ 32) :=
  coins_disk_round_trip PubKeyCodec.rejectAll_sound (by decide) (by decide) (by decide)
    (by decide) (by decide) (by decide) (by decide) []

/-- **A spent output loses its script.** `CTxOut::IsNull` looks at the amount only, so an
output with amount `-1` and a script counts as spent, and the coins below meet every other
condition of the round trip; the disk format keeps nothing of that output and reads back
`CTxOut()`, with an empty script. -/
theorem coins_disk_round_trip_drops_spent_script :
    ∃ bytes, CCoins.Serialize PubKeyCodec.rejectAll ⟨false, [⟨-1, [0x51]⟩, ⟨0, []⟩], 0, 1⟩ =
        some bytes ∧
      (CCoins.Unserialize PubKeyCodec.rejectAll).run bytes =
        .ok (⟨false, [CTxOut.null, ⟨0, []⟩], 0, 1⟩, []) ∧
      (⟨false, [CTxOut.null, ⟨0, []⟩], 0, 1⟩ : CCoins) ≠ ⟨false, [⟨-1, [0x51]⟩, ⟨0, []⟩], 0, 1⟩ := by
  obtain ⟨bytes, hser, hread, -⟩ := CCoins.run_Unserialize PubKeyCodec.rejectAll_sound
    (c := ⟨false, [⟨-1, [0x51]⟩, ⟨0, []⟩], 0, 1⟩) (by decide) (by decide) (by decide) (by decide)
    (by decide) (by decide) []
  rw [List.append_nil] at hread
  exact ⟨bytes, hser, hread, by decide⟩

end MvfBu
