import MvfBu.Lib.ByteBits
import MvfBu.Primitives.Transaction

set_option autoImplicit false

/-!
# Bloom filters (`bloom.cpp` `CBloomFilter`, `CRollingBloomFilter`)

A `CBloomFilter` is a bit array with `nHashFuncs` hash functions: `insert` sets the bit each
function picks for the key, `contains` checks them all, and two short-cut flags skip the work
for a filter that is full (every bit set, or no bits at all) or empty (nothing inserted). A
peer's filter learns outpoints too: `IsRelevantAndUpdate` inserts the outpoint of each output
it matches, by the filter's update flags. Since bits are only ever set, a key once inserted is
found until the filter is cleared, whatever the hash; and a filter that is not full has at
least one byte, so that `Hash`, a remainder modulo the number of bits, never divides by zero.

`CRollingBloomFilter` keeps the last `nElements` keys: two filters for `2 * nElements` keys
each, filled together and cleared in turn every `nElements` insertions, the query going to the
one cleared longer ago. The size `nElements * 2` is computed in 32 bits; from
`nElements = 2 ^ 31` on it wraps, the filters turn over faster than the window, and keys of the
window are lost.

## Main definitions

* `MvfBu.CBloomFilter` — carries that a filter that is not full has a byte.
* `CBloomFilter.setup`, `deserialize`, `Hash`, `insert`, `contains`, `clear`, `reset`,
  `IsRelevantAndUpdate`.
* `MvfBu.CRollingBloomFilter` with `new`, `insert` and `contains`.

## Main results

* `MvfBu.CBloomFilter.Hash_shiftRight_lt` — the byte of every index `Hash` computes is in
  `vData`.
* `MvfBu.CBloomFilter.runCalls_contains` — after any calls, every key inserted since the last
  `clear` or `reset`, directly or as a matched outpoint, is found.
* `MvfBu.CRollingBloomFilter.contains_of_mem_window` — with `nElements < 2 ^ 31`, the last
  `nElements` keys inserted are found.

## Implementation notes

`MurmurHash3` is a parameter, any function of the seed and the data. The two sizes `setup`
computes in floating point are parameters too: the number of bytes for `n` elements at the
filter's false positive rate, and the number of hash functions for a number of bits per
element. `Solver`, as far as `IsRelevantAndUpdate` reads it (a pay-to-pubkey or multisig
script), and the transaction hash are parameters. Counters of type `unsigned int` are natural
numbers with the wrap-around written out.
-/

namespace MvfBu

/-- `MAX_BLOOM_FILTER_SIZE`, in bytes. -/
def MAX_BLOOM_FILTER_SIZE : ℕ := 36000

/-- `MAX_HASH_FUNCS`. -/
def MAX_HASH_FUNCS : ℕ := 50

/-- `BLOOM_UPDATE_NONE`. -/
def BLOOM_UPDATE_NONE : UInt8 := 0

/-- `BLOOM_UPDATE_ALL`. -/
def BLOOM_UPDATE_ALL : UInt8 := 1

/-- `BLOOM_UPDATE_P2PUBKEY_ONLY`. -/
def BLOOM_UPDATE_P2PUBKEY_ONLY : UInt8 := 2

/-- `BLOOM_UPDATE_MASK`. -/
def BLOOM_UPDATE_MASK : UInt8 := 3

/-- `CBloomFilter`: the bit array, whether it is full or empty, the number of hash functions,
the tweak of their seeds and the update flags. A filter that is not full has a byte. -/
structure CBloomFilter where
  vData : List UInt8
  isFull : Bool
  isEmpty : Bool
  nHashFuncs : ℕ
  nTweak : UInt32
  nFlags : UInt8
  vData_ne_nil : isFull = false → vData ≠ []

namespace CBloomFilter

/-- `CBloomFilter::setup(nElements, nFPRate, nTweakIn, nFlagsIn, size_constrained)`, on a new
filter. `vdataSize n` is `(unsigned int)(-1 / LN2SQUARED * n * log(nFPRate) / 8)`, the bytes
for `n` elements, and `hashFuncs q` is `(unsigned int)(q * LN2)`, the hash functions for `q`
bits per element. -/
def setup (vdataSize hashFuncs : ℕ → ℕ) (nElements : ℕ) (nTweakIn : UInt32) (nFlagsIn : UInt8)
    (size_constrained : Bool) : CBloomFilter :=
  let nElements := if nElements = 0 then 1 else nElements
  let desired_vdata_size := if size_constrained then min (vdataSize nElements) MAX_BLOOM_FILTER_SIZE
    else vdataSize nElements
  let nHashFuncs := hashFuncs (desired_vdata_size * 8 / nElements)
  { vData := List.replicate desired_vdata_size 0
    isFull := desired_vdata_size == 0
    isEmpty := true
    nHashFuncs := if size_constrained then min nHashFuncs MAX_HASH_FUNCS else nHashFuncs
    nTweak := nTweakIn
    nFlags := nFlagsIn
    vData_ne_nil := fun h => by simpa using h }

/-- A filter as `SerializationOp` reads it: `vData`, `nHashFuncs`, `nTweak` and `nFlags`, then
`UpdateEmptyFull`, which sets the filter full when every byte is `0xff` and empty when every
byte is zero. -/
def deserialize (vData : List UInt8) (nHashFuncs : ℕ) (nTweak : UInt32) (nFlags : UInt8) :
    CBloomFilter where
  vData := vData
  isFull := vData.all (· == 0xff)
  isEmpty := vData.all (· == 0)
  nHashFuncs := nHashFuncs
  nTweak := nTweak
  nFlags := nFlags
  vData_ne_nil := by
    rintro h rfl
    simp at h

/-- `CBloomFilter::clear()`: every byte zero, full when there is no byte, and empty. -/
def clear (f : CBloomFilter) : CBloomFilter where
  vData := List.replicate f.vData.length 0
  isFull := f.vData.length == 0
  isEmpty := true
  nHashFuncs := f.nHashFuncs
  nTweak := f.nTweak
  nFlags := f.nFlags
  vData_ne_nil := fun h => by simpa using h

/-- `CBloomFilter::reset(nNewTweak)`. -/
def reset (f : CBloomFilter) (nNewTweak : UInt32) : CBloomFilter :=
  { f.clear with nTweak := nNewTweak }

section Hashing

variable (MurmurHash3 : UInt32 → List UInt8 → UInt32)

/-- `CBloomFilter::Hash(nHashNum, vDataToHash)`: `MurmurHash3` with the seed
`nHashNum * 0xFBA4C795 + nTweak` in 32 bits, modulo the number of bits. -/
def Hash (f : CBloomFilter) (nHashNum : ℕ) (vDataToHash : List UInt8) : ℕ :=
  (MurmurHash3 (nHashNum.toUInt32 * 0xFBA4C795 + f.nTweak) vDataToHash).toNat %
    (f.vData.length * 8)

/-- The loop of `insert`: `vData[nIndex >> 3] |= (1 << (7 & nIndex))` for the index of each
hash function. -/
def insertBits (f : CBloomFilter) (vKey : List UInt8) : List UInt8 :=
  ((List.range f.nHashFuncs).map fun i => f.Hash MurmurHash3 i vKey).foldl ByteBits.setBit f.vData

theorem length_insertBits (f : CBloomFilter) (vKey : List UInt8) :
    (f.insertBits MurmurHash3 vKey).length = f.vData.length :=
  ByteBits.length_foldl_setBit ..

/-- `CBloomFilter::insert(vKey)`: nothing on a full filter, else set the key's bits. -/
def insert (f : CBloomFilter) (vKey : List UInt8) : CBloomFilter :=
  if h : f.isFull then f
  else
    { f with
      vData := f.insertBits MurmurHash3 vKey
      isEmpty := false
      vData_ne_nil := fun _ => List.ne_nil_of_length_pos (by
        rw [length_insertBits]
        exact List.length_pos_of_ne_nil (f.vData_ne_nil (by simpa using h))) }

/-- `CBloomFilter::contains(vKey)`: true on a full filter, false on an empty one, else whether
every bit of the key is set. -/
def contains (f : CBloomFilter) (vKey : List UInt8) : Bool :=
  if f.isFull then true
  else if f.isEmpty then false
  else (List.range f.nHashFuncs).all fun i => ByteBits.testBit f.vData (f.Hash MurmurHash3 i vKey)

variable (isPayToPubKey : CScript → Bool)

/-- The scan of a script in `IsRelevantAndUpdate`: a push, with data, the filter contains,
before the first failed read. -/
def matchesScript (f : CBloomFilter) (script : CScript) : Bool :=
  (CScript.decode script).ops.any fun op => !op.vch.isEmpty && f.contains MurmurHash3 op.vch

/-- An output `i` in the loop of `IsRelevantAndUpdate`: on a match, `fFound` is set and, by the
update flags, the outpoint `(hash, i)` is inserted (with `BLOOM_UPDATE_P2PUBKEY_ONLY`, when
`Solver` finds a pay-to-pubkey or multisig script). The third component lists the outpoints
inserted so far: a record of the calls to `insert`, which the code does not keep. -/
def scanOutput (hash : uint256) (acc : CBloomFilter × Bool × List (List UInt8))
    (out : CTxOut × ℕ) : CBloomFilter × Bool × List (List UInt8) :=
  let f := acc.1
  if f.matchesScript MurmurHash3 out.1.scriptPubKey then
    let key := COutPoint.serialize ⟨hash, out.2.toUInt32⟩
    if f.nFlags &&& BLOOM_UPDATE_MASK == BLOOM_UPDATE_ALL then
      (f.insert MurmurHash3 key, true, key :: acc.2.2)
    else if f.nFlags &&& BLOOM_UPDATE_MASK == BLOOM_UPDATE_P2PUBKEY_ONLY &&
        isPayToPubKey out.1.scriptPubKey then
      (f.insert MurmurHash3 key, true, key :: acc.2.2)
    else (f, true, acc.2.2)
  else acc

variable (GetHash : CTransaction → uint256)

/-- `CBloomFilter::IsRelevantAndUpdate(tx)`, with the outpoints it inserted: a match on the
transaction's hash or on a push of an output's script (inserting the outpoints), else on an
outpoint an input spends or a push of its script. -/
def IsRelevantAndUpdateTrace (f : CBloomFilter) (tx : CTransaction) :
    CBloomFilter × Bool × List (List UInt8) :=
  if f.isFull then (f, true, [])
  else if f.isEmpty then (f, false, [])
  else
    let hash := GetHash tx
    let r := tx.vout.zipIdx.foldl (scanOutput MurmurHash3 isPayToPubKey hash)
      (f, f.contains MurmurHash3 (serUint256 hash), [])
    if r.2.1 then r
    else (r.1, tx.vin.any (fun txin => r.1.contains MurmurHash3 txin.prevout.serialize ||
      r.1.matchesScript MurmurHash3 txin.scriptSig), r.2.2)

/-- `CBloomFilter::IsRelevantAndUpdate(tx)`. -/
def IsRelevantAndUpdate (f : CBloomFilter) (tx : CTransaction) : CBloomFilter × Bool :=
  let r := IsRelevantAndUpdateTrace MurmurHash3 isPayToPubKey GetHash f tx
  (r.1, r.2.1)

/-! ### What `insert` and `contains` do -/

variable {f : CBloomFilter}

/-- **Every index `Hash` computes has its byte in `vData`**, on a filter that is not full (and
`insert` and `contains` compute none on a full one). -/
theorem Hash_shiftRight_lt (h : f.isFull = false) (i : ℕ) (vKey : List UInt8) :
    f.Hash MurmurHash3 i vKey >>> 3 < f.vData.length := by
  have hpos : 0 < f.vData.length := List.length_pos_of_ne_nil (f.vData_ne_nil h)
  have hlt : f.Hash MurmurHash3 i vKey < f.vData.length * 8 := Nat.mod_lt _ (by omega)
  rw [Nat.shiftRight_eq_div_pow]
  show _ / 8 < _
  omega

@[simp] theorem insert_isFull (vKey : List UInt8) :
    (f.insert MurmurHash3 vKey).isFull = f.isFull := by
  unfold insert
  split <;> rfl

@[simp] theorem insert_nHashFuncs (vKey : List UInt8) :
    (f.insert MurmurHash3 vKey).nHashFuncs = f.nHashFuncs := by
  unfold insert
  split <;> rfl

theorem insert_of_isFull (h : f.isFull = true) (vKey : List UInt8) :
    f.insert MurmurHash3 vKey = f := by
  simp [insert, h]

theorem insert_vData (h : f.isFull = false) (vKey : List UInt8) :
    (f.insert MurmurHash3 vKey).vData = f.insertBits MurmurHash3 vKey := by
  simp [insert, h]

theorem insert_isEmpty (h : f.isFull = false) (vKey : List UInt8) :
    (f.insert MurmurHash3 vKey).isEmpty = false := by
  simp [insert, h]

/-- The indices are the same after an insertion: it keeps the size and the tweak. -/
@[simp] theorem Hash_insert (vKey : List UInt8) (i : ℕ) (v : List UInt8) :
    (f.insert MurmurHash3 vKey).Hash MurmurHash3 i v = f.Hash MurmurHash3 i v := by
  unfold insert
  split
  · rfl
  · simp only [Hash, length_insertBits]

/-- On a filter neither full nor empty, `contains` is the test of the key's bits. -/
theorem contains_iff (hf : f.isFull = false) (he : f.isEmpty = false) (vKey : List UInt8) :
    f.contains MurmurHash3 vKey = true ↔
      ∀ i < f.nHashFuncs, ByteBits.testBit f.vData (f.Hash MurmurHash3 i vKey) = true := by
  simp [contains, hf, he]

/-- **An inserted key is found.** -/
theorem contains_insert_self (vKey : List UInt8) :
    (f.insert MurmurHash3 vKey).contains MurmurHash3 vKey = true := by
  cases hf : f.isFull
  · rw [contains_iff MurmurHash3 (by simp [hf]) (insert_isEmpty MurmurHash3 hf vKey),
      insert_vData MurmurHash3 hf]
    intro i hi
    rw [insert_nHashFuncs] at hi
    rw [Hash_insert, insertBits]
    refine ByteBits.testBit_foldl_setBit_of_mem (List.mem_map.2 ⟨i, List.mem_range.2 hi, rfl⟩) _ ?_
    intro j hj
    obtain ⟨i', -, rfl⟩ := List.mem_map.1 hj
    exact Hash_shiftRight_lt MurmurHash3 hf i' vKey
  · simp [contains, hf]

/-- **An insertion keeps every key found.** -/
theorem contains_insert_of_contains {vKey' : List UInt8}
    (h : f.contains MurmurHash3 vKey' = true) (vKey : List UInt8) :
    (f.insert MurmurHash3 vKey).contains MurmurHash3 vKey' = true := by
  cases hf : f.isFull
  · -- a filter that finds a key and is not full is not empty, and its bits stay set
    have he : f.isEmpty = false := by
      cases he : f.isEmpty
      · rfl
      · simp [contains, hf, he] at h
    rw [contains_iff MurmurHash3 hf he] at h
    rw [contains_iff MurmurHash3 (by simp [hf]) (insert_isEmpty MurmurHash3 hf vKey),
      insert_vData MurmurHash3 hf]
    intro i hi
    rw [insert_nHashFuncs] at hi
    rw [Hash_insert, insertBits]
    exact ByteBits.testBit_foldl_setBit_of_testBit _ (h i hi)
  · rw [insert_of_isFull MurmurHash3 hf]
    exact h

/-- `g` finds every key `f` finds. -/
def Extends (f g : CBloomFilter) : Prop :=
  ∀ vKey, f.contains MurmurHash3 vKey = true → g.contains MurmurHash3 vKey = true

theorem Extends.refl (f : CBloomFilter) : Extends MurmurHash3 f f := fun _ h => h

theorem Extends.trans {f g h : CBloomFilter} (hfg : Extends MurmurHash3 f g)
    (hgh : Extends MurmurHash3 g h) : Extends MurmurHash3 f h := fun k hk => hgh k (hfg k hk)

theorem Extends.insert (f : CBloomFilter) (vKey : List UInt8) :
    Extends MurmurHash3 f (f.insert MurmurHash3 vKey) :=
  fun _ h => contains_insert_of_contains MurmurHash3 h vKey

/-! ### `IsRelevantAndUpdate` only inserts -/

/-- The filter after a step of the output loop finds what it found, and every outpoint the loop
inserted. -/
theorem scanOutput_spec (hash : uint256) (acc : CBloomFilter × Bool × List (List UInt8))
    (out : CTxOut × ℕ) (h : ∀ k ∈ acc.2.2, acc.1.contains MurmurHash3 k = true) :
    Extends MurmurHash3 acc.1 (scanOutput MurmurHash3 isPayToPubKey hash acc out).1 ∧
      ∀ k ∈ (scanOutput MurmurHash3 isPayToPubKey hash acc out).2.2,
        (scanOutput MurmurHash3 isPayToPubKey hash acc out).1.contains MurmurHash3 k = true := by
  -- an insertion of the outpoint, or the filter as it was
  have hins : ∀ key, Extends MurmurHash3 acc.1 (acc.1.insert MurmurHash3 key) ∧
      ∀ k ∈ key :: acc.2.2, (acc.1.insert MurmurHash3 key).contains MurmurHash3 k = true :=
    fun key => ⟨Extends.insert MurmurHash3 _ key, fun k hk => by
      rcases List.mem_cons.1 hk with rfl | hk
      · exact contains_insert_self MurmurHash3 k
      · exact contains_insert_of_contains MurmurHash3 (h k hk) key⟩
  unfold scanOutput
  dsimp only
  split_ifs
  · exact hins _
  · exact hins _
  · exact ⟨Extends.refl MurmurHash3 _, h⟩
  · exact ⟨Extends.refl MurmurHash3 _, h⟩

theorem foldl_scanOutput_spec (hash : uint256) (outs : List (CTxOut × ℕ)) :
    ∀ acc : CBloomFilter × Bool × List (List UInt8),
      (∀ k ∈ acc.2.2, acc.1.contains MurmurHash3 k = true) →
      Extends MurmurHash3 acc.1 (outs.foldl (scanOutput MurmurHash3 isPayToPubKey hash) acc).1 ∧
        ∀ k ∈ (outs.foldl (scanOutput MurmurHash3 isPayToPubKey hash) acc).2.2,
          (outs.foldl (scanOutput MurmurHash3 isPayToPubKey hash) acc).1.contains MurmurHash3 k
            = true := by
  induction outs with
  | nil => exact fun acc h => ⟨Extends.refl MurmurHash3 _, h⟩
  | cons out outs ih =>
    intro acc h
    obtain ⟨h1, h1'⟩ := scanOutput_spec MurmurHash3 isPayToPubKey hash acc out h
    obtain ⟨h2, h2'⟩ := ih _ h1'
    exact ⟨h1.trans MurmurHash3 h2, h2'⟩

/-- **`IsRelevantAndUpdate` only inserts**: the filter after it finds every key it found, and
every outpoint it inserted. -/
theorem IsRelevantAndUpdateTrace_spec (f : CBloomFilter) (tx : CTransaction) :
    Extends MurmurHash3 f (IsRelevantAndUpdateTrace MurmurHash3 isPayToPubKey GetHash f tx).1 ∧
      ∀ k ∈ (IsRelevantAndUpdateTrace MurmurHash3 isPayToPubKey GetHash f tx).2.2,
        (IsRelevantAndUpdateTrace MurmurHash3 isPayToPubKey GetHash f tx).1.contains
          MurmurHash3 k = true := by
  have hloop := foldl_scanOutput_spec MurmurHash3 isPayToPubKey (GetHash tx) tx.vout.zipIdx
    (f, f.contains MurmurHash3 (serUint256 (GetHash tx)), []) (by simp)
  unfold IsRelevantAndUpdateTrace
  dsimp only
  split_ifs
  · exact ⟨Extends.refl MurmurHash3 _, by simp⟩
  · exact ⟨Extends.refl MurmurHash3 _, by simp⟩
  · exact hloop
  · exact hloop

/-! ### Runs of calls -/

/-- The calls a filter receives. -/
inductive BloomCall
  | insert (vKey : List UInt8)
  | contains (vKey : List UInt8)
  | isRelevantAndUpdate (tx : CTransaction)
  | clear
  | reset (nNewTweak : UInt32)
  deriving DecidableEq, Repr

/-- Calls in turn, with the keys inserted since the last `clear` or `reset`, directly or by
`IsRelevantAndUpdate` (a record the code does not keep). -/
def runCalls (f : CBloomFilter) (keys : List (List UInt8)) :
    List BloomCall → CBloomFilter × List (List UInt8)
  | [] => (f, keys)
  | .insert vKey :: cs => runCalls (f.insert MurmurHash3 vKey) (vKey :: keys) cs
  | .contains _ :: cs => runCalls f keys cs
  | .isRelevantAndUpdate tx :: cs =>
    let r := IsRelevantAndUpdateTrace MurmurHash3 isPayToPubKey GetHash f tx
    runCalls r.1 (r.2.2 ++ keys) cs
  | .clear :: cs => runCalls f.clear [] cs
  | .reset nNewTweak :: cs => runCalls (f.reset nNewTweak) [] cs

/-- **No false negatives**: after any calls, the filter finds every key inserted since the last
`clear` or `reset`, given that it found those recorded before. -/
theorem runCalls_contains (cs : List BloomCall) (f : CBloomFilter) (keys : List (List UInt8))
    (h : ∀ k ∈ keys, f.contains MurmurHash3 k = true) :
    ∀ k ∈ (runCalls MurmurHash3 isPayToPubKey GetHash f keys cs).2,
      (runCalls MurmurHash3 isPayToPubKey GetHash f keys cs).1.contains MurmurHash3 k = true := by
  fun_induction runCalls MurmurHash3 isPayToPubKey GetHash f keys cs with
  | case1 => exact h
  | case2 f keys vKey cs ih =>
    refine ih fun k hk => ?_
    rcases List.mem_cons.1 hk with rfl | hk
    · exact contains_insert_self MurmurHash3 k
    · exact contains_insert_of_contains MurmurHash3 (h k hk) vKey
  | case3 f keys _ cs ih => exact ih h
  | case4 f keys tx cs r ih =>
    obtain ⟨hext, hnew⟩ := IsRelevantAndUpdateTrace_spec MurmurHash3 isPayToPubKey GetHash f tx
    refine ih fun k hk => ?_
    rcases List.mem_append.1 hk with hk | hk
    · exact hnew k hk
    · exact hext k (h k hk)
  | case5 f keys cs ih => exact ih (by simp)
  | case6 f keys nNewTweak cs ih => exact ih (by simp)

end Hashing

end CBloomFilter

/-- `CRollingBloomFilter`: the two filters, the insertions since the turn began, and the
turn's length `nBloomSize`, `nElements * 2`. -/
structure CRollingBloomFilter where
  b1 : CBloomFilter
  b2 : CBloomFilter
  nInsertions : ℕ
  nBloomSize : ℕ

namespace CRollingBloomFilter

/-- `CRollingBloomFilter::reset()`, `GetRand` having drawn `nNewTweak`. -/
def reset (r : CRollingBloomFilter) (nNewTweak : UInt32) : CRollingBloomFilter :=
  { r with b1 := r.b1.reset nNewTweak, b2 := r.b2.reset nNewTweak, nInsertions := 0 }

/-- `CRollingBloomFilter(nElements, fpRate)`: two filters for `nElements * 2` elements, the
product in 32 bits, from the private constructor (`BLOOM_UPDATE_NONE`, no size limit); then
`reset()`. -/
def new (vdataSize hashFuncs : ℕ → ℕ) (nElements : ℕ) (nNewTweak : UInt32) :
    CRollingBloomFilter :=
  let nBloomSize := nElements * 2 % 2 ^ 32
  let b := CBloomFilter.setup vdataSize hashFuncs nBloomSize 0 BLOOM_UPDATE_NONE false
  reset ⟨b, b, 0, nBloomSize⟩ nNewTweak

section Hashing

variable (MurmurHash3 : UInt32 → List UInt8 → UInt32)

/-- `CRollingBloomFilter::insert(vKey)`: clear `b1` when a turn begins, or `b2` half way
through, insert into both, and count the insertion in 32 bits, back to zero at the turn's
end. -/
def insert (r : CRollingBloomFilter) (vKey : List UInt8) : CRollingBloomFilter :=
  let r := if r.nInsertions = 0 then { r with b1 := r.b1.clear }
    else if r.nInsertions = r.nBloomSize / 2 then { r with b2 := r.b2.clear } else r
  let n := (r.nInsertions + 1) % 2 ^ 32
  { r with b1 := r.b1.insert MurmurHash3 vKey, b2 := r.b2.insert MurmurHash3 vKey,
           nInsertions := if n = r.nBloomSize then 0 else n }

/-- `CRollingBloomFilter::contains(vKey)`: `b2` in the first half of a turn, `b1` in the
second. -/
def contains (r : CRollingBloomFilter) (vKey : List UInt8) : Bool :=
  if r.nInsertions < r.nBloomSize / 2 then r.b2.contains MurmurHash3 vKey
  else r.b1.contains MurmurHash3 vKey

variable {r : CRollingBloomFilter} (vKey : List UInt8)

@[simp] theorem insert_nBloomSize : (r.insert MurmurHash3 vKey).nBloomSize = r.nBloomSize := by
  unfold insert
  split_ifs <;> rfl

theorem insert_nInsertions : (r.insert MurmurHash3 vKey).nInsertions =
    if (r.nInsertions + 1) % 2 ^ 32 = r.nBloomSize then 0 else (r.nInsertions + 1) % 2 ^ 32 := by
  unfold insert
  split_ifs <;> simp_all

theorem insert_b1 : (r.insert MurmurHash3 vKey).b1 =
    (if r.nInsertions = 0 then r.b1.clear else r.b1).insert MurmurHash3 vKey := by
  unfold insert
  split_ifs <;> simp_all

theorem insert_b2 : (r.insert MurmurHash3 vKey).b2 =
    (if r.nInsertions ≠ 0 ∧ r.nInsertions = r.nBloomSize / 2 then r.b2.clear else r.b2).insert
      MurmurHash3 vKey := by
  unfold insert
  dsimp only
  by_cases h0 : r.nInsertions = 0
  · rw [if_pos h0, if_neg fun h => h.1 h0]
  · by_cases hh : r.nInsertions = r.nBloomSize / 2
    · rw [if_neg h0, if_pos hh, if_pos ⟨h0, hh⟩]
    · rw [if_neg h0, if_neg hh, if_neg fun h => hh h.2]

/-! ### The window -/

/-- `b` finds the last `m` keys of `hist`, the keys inserted newest first. -/
def Holds (b : CBloomFilter) (hist : List (List UInt8)) (m : ℕ) : Prop :=
  ∀ k ∈ hist.take m, b.contains MurmurHash3 k = true

/-- What the rolling filter keeps for `nElements = N` of the keys inserted since its reset,
newest first: `b1` finds the keys of the turn so far, and `b2` those since it was cleared half
a turn earlier, `N` more than `b1` in the first half of a turn and `N` fewer in the second. -/
structure Window (N : ℕ) (r : CRollingBloomFilter) (hist : List (List UInt8)) : Prop where
  nBloomSize_eq : r.nBloomSize = 2 * N
  nInsertions_lt : r.nInsertions < 2 * N
  holds_b1 : Holds MurmurHash3 r.b1 hist r.nInsertions
  holds_b2 : Holds MurmurHash3 r.b2 hist
    (if N ≤ r.nInsertions then r.nInsertions - N else r.nInsertions + N)

variable {MurmurHash3}

theorem Holds.zero (b : CBloomFilter) (hist : List (List UInt8)) : Holds MurmurHash3 b hist 0 := by
  simp [Holds]

theorem Holds.mono {b : CBloomFilter} {hist : List (List UInt8)} {m m' : ℕ}
    (h : Holds MurmurHash3 b hist m) (hm : m' ≤ m) : Holds MurmurHash3 b hist m' :=
  fun k hk => h k (List.take_subset_take_left hist hm hk)

/-- An insertion adds the key to what a filter finds. -/
theorem Holds.insert_cons {b : CBloomFilter} {hist : List (List UInt8)} {m : ℕ}
    (h : Holds MurmurHash3 b hist m) (vKey : List UInt8) :
    Holds MurmurHash3 (b.insert MurmurHash3 vKey) (vKey :: hist) (m + 1) := by
  intro k hk
  rw [List.take_succ_cons, List.mem_cons] at hk
  rcases hk with rfl | hk
  · exact CBloomFilter.contains_insert_self MurmurHash3 k
  · exact CBloomFilter.contains_insert_of_contains MurmurHash3 (h k hk) vKey

variable {N : ℕ} {hist : List (List UInt8)}

/-- **An insertion keeps the window**, with the key added, when the turn's length does not
wrap. -/
theorem Window.step (hw : Window MurmurHash3 N r hist) (hN : 2 * N < 2 ^ 32) :
    Window MurmurHash3 N (r.insert MurmurHash3 vKey) (vKey :: hist) := by
  obtain ⟨hS, hlt, h1, h2⟩ := hw
  have hn : (r.nInsertions + 1) % 2 ^ 32 = r.nInsertions + 1 := Nat.mod_eq_of_lt (by omega)
  have hhalf : r.nBloomSize / 2 = N := by omega
  -- what each filter finds once the turn's clearing is done, before the key goes in
  have hb1 : Holds MurmurHash3 (if r.nInsertions = 0 then r.b1.clear else r.b1) hist
      (if r.nInsertions = 0 then 0 else r.nInsertions) := by
    split_ifs
    · exact Holds.zero _ _
    · exact h1
  have hb2 : Holds MurmurHash3
      (if r.nInsertions ≠ 0 ∧ r.nInsertions = r.nBloomSize / 2 then r.b2.clear else r.b2) hist
      (if r.nInsertions ≠ 0 ∧ r.nInsertions = N then 0
        else if N ≤ r.nInsertions then r.nInsertions - N else r.nInsertions + N) := by
    rw [hhalf]
    by_cases hc : r.nInsertions ≠ 0 ∧ r.nInsertions = N
    · rw [if_pos hc, if_pos hc]
      exact Holds.zero _ _
    · rw [if_neg hc, if_neg hc]
      exact h2
  refine ⟨by rw [insert_nBloomSize, hS], ?_, ?_, ?_⟩
  · rw [insert_nInsertions, hn, hS]
    split_ifs <;> omega
  · rw [insert_b1, insert_nInsertions, hn, hS]
    refine (hb1.insert_cons vKey).mono ?_
    split_ifs <;> omega
  · rw [insert_b2, insert_nInsertions, hn, hS]
    rw [hS] at hb2
    refine (hb2.insert_cons vKey).mono ?_
    split_ifs <;> omega

/-- **The window holds the last `N` keys**: the filter a query goes to finds them. -/
theorem Window.contains_of_mem (hw : Window MurmurHash3 N r hist) {k : List UInt8}
    (hk : k ∈ hist.take N) : r.contains MurmurHash3 k = true := by
  obtain ⟨hS, hlt, h1, h2⟩ := hw
  unfold contains
  rw [hS, show 2 * N / 2 = N by omega]
  split_ifs with h
  · refine h2.mono ?_ k hk
    split_ifs <;> omega
  · exact h1.mono (by omega) k hk

theorem Window.run (hN : 2 * N < 2 ^ 32) (ks : List (List UInt8)) :
    ∀ (r : CRollingBloomFilter) (hist : List (List UInt8)), Window MurmurHash3 N r hist →
      Window MurmurHash3 N (ks.foldl (insert MurmurHash3) r) (ks.reverse ++ hist) := by
  induction ks with
  | nil => exact fun r hist hw => hw
  | cons k ks ih =>
    intro r hist hw
    rw [List.foldl_cons, List.reverse_cons, List.append_assoc, List.singleton_append]
    exact ih _ _ (hw.step k hN)

/-- A new rolling filter for `N ≥ 1` elements keeps the empty window. -/
theorem Window.init (vdataSize hashFuncs : ℕ → ℕ) (hN0 : 0 < N) (hN : 2 * N < 2 ^ 32)
    (nNewTweak : UInt32) :
    Window MurmurHash3 N (new vdataSize hashFuncs N nNewTweak) [] := by
  have hS : N * 2 % 4294967296 = 2 * N := by omega
  exact ⟨by simp [new, reset, hS], by simp [new, reset]; omega, fun _ hk => by simp at hk,
    fun _ hk => by simp at hk⟩

variable (MurmurHash3) in
/-- **The last `nElements` keys are found**, for `nElements < 2 ^ 31`, after any insertions
since the filter was made. -/
theorem contains_of_mem_window (vdataSize hashFuncs : ℕ → ℕ) {nElements : ℕ}
    (hN : nElements < 2 ^ 31) (nNewTweak : UInt32) (ks : List (List UInt8)) :
    ∀ k ∈ ks.reverse.take nElements,
      (ks.foldl (insert MurmurHash3) (new vdataSize hashFuncs nElements nNewTweak)).contains
        MurmurHash3 k = true := by
  intro k hk
  rcases Nat.eq_zero_or_pos nElements with h0 | h0
  · simp [h0] at hk
  · have hw : Window MurmurHash3 nElements _ (ks.reverse ++ []) := Window.run (by omega) ks _ _
      (Window.init vdataSize hashFuncs h0 (by omega) nNewTweak)
    rw [List.append_nil] at hw
    exact hw.contains_of_mem hk

end Hashing

/-- A hash that picks bit `k` of a filter for the key `[k]`, whatever the hash number. -/
def firstByteHash (_nHashNum : UInt32) (vKey : List UInt8) : UInt32 := (vKey.headD 0).toUInt32

/-- **The window is lost when `nElements * 2` wraps.** For `nElements = 2 ^ 31 + 1` a turn is
two insertions long. With `firstByteHash` and the sizes `setup` computes for two elements at a
false positive rate of `10⁻⁶` (7 bytes, 19 hash functions), the third insertion clears `b1`,
and the query for the first key, one of the last `nElements`, goes to `b1`. -/
theorem contains_wraps_loses_key :
    (new (fun _ => 7) (fun _ => 19) (2 ^ 31 + 1) 0).nBloomSize = 2 ∧
      [0] ∈ [[0], [1], [2]].reverse.take (2 ^ 31 + 1) ∧
      ([[0], [1], [2]].foldl (insert firstByteHash)
        (new (fun _ => 7) (fun _ => 19) (2 ^ 31 + 1) 0)).contains firstByteHash [0] = false := by
  decide

end CRollingBloomFilter

/-- Bloom filters have no false negatives, for any hash: after any calls, a filter finds the
keys inserted since it was last cleared, directly or as outpoints `IsRelevantAndUpdate`
matched; `Hash` picks a bit of `vData` on every filter it is computed on; and a rolling
filter for `nElements < 2 ^ 31` finds the last `nElements` keys inserted. -/
theorem bloom_filters_no_false_negatives :
    (∀ (MurmurHash3 : UInt32 → List UInt8 → UInt32) (isPayToPubKey : CScript → Bool)
        (GetHash : CTransaction → uint256) (f : CBloomFilter) (cs : List CBloomFilter.BloomCall),
        ∀ k ∈ (CBloomFilter.runCalls MurmurHash3 isPayToPubKey GetHash f [] cs).2,
          (CBloomFilter.runCalls MurmurHash3 isPayToPubKey GetHash f [] cs).1.contains
            MurmurHash3 k = true) ∧
    (∀ (MurmurHash3 : UInt32 → List UInt8 → UInt32) (f : CBloomFilter) (i : ℕ)
        (vKey : List UInt8), f.isFull = false → f.Hash MurmurHash3 i vKey >>> 3 < f.vData.length) ∧
    ∀ (MurmurHash3 : UInt32 → List UInt8 → UInt32) (vdataSize hashFuncs : ℕ → ℕ) (nElements : ℕ),
      nElements < 2 ^ 31 → ∀ (nNewTweak : UInt32) (ks : List (List UInt8)),
        ∀ k ∈ ks.reverse.take nElements,
          (ks.foldl (CRollingBloomFilter.insert MurmurHash3)
            (CRollingBloomFilter.new vdataSize hashFuncs nElements nNewTweak)).contains
              MurmurHash3 k = true :=
  ⟨fun M P G f cs => CBloomFilter.runCalls_contains M P G cs f [] (by simp),
    fun M _ i vKey h => CBloomFilter.Hash_shiftRight_lt M h i vKey,
    fun M vs hf _ hN t ks => CRollingBloomFilter.contains_of_mem_window M vs hf hN t ks⟩

end MvfBu
