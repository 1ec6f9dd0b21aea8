import MvfBu.Lib.SortedMap
import MvfBu.Primitives.Transaction

set_option autoImplicit false

/-!
# The orphan pool (`mapOrphanTransactions`)

A transaction with an unknown input is kept as an orphan: `mapOrphanTransactions` maps its
hash to the transaction, the peer it came from, its arrival time and its memory usage;
`mapOrphanTransactionsByPrev` files the orphans under the transactions their inputs spend, so
that the orphans of an accepted transaction are tried again; `nBytesOrphanPool` counts their
memory. `AddOrphanTx`, `EraseOrphanTx`, `EraseOrphansByTime`, `LimitOrphanTxSize`,
`CParallelValidation::ClearOrphanCache`, the resolution loop of the `tx` message and
`UnloadBlockIndex` change them.

After every run of these operations, every orphan is filed under the hash of its transaction,
the index maps each hash to exactly the non-empty set of the orphans that spend one of its
outputs, and the counter is the sum of the orphans' usages. So `operator[]` in the resolution
loop never adds an entry, and `LimitOrphanTxSize` ends, never takes `begin()` of an empty map,
and leaves the pool within both of its limits.

## Main definitions

* `MvfBu.Blob` — `uint256` in the order of `base_blob::operator<`.
* `MvfBu.OrphanPool` — the two maps and the counter.
* `MvfBu.AddOrphanTx`, `MvfBu.EraseOrphanTx`, `MvfBu.EraseOrphansByTime`,
  `MvfBu.LimitOrphanTxSize`, `MvfBu.ClearOrphanCache`, `MvfBu.ProcessOrphans` — the operations.
* `MvfBu.OrphanInv` — the invariant.

## Main results

* `MvfBu.OrphanInv.eraseOrphanTx`, `MvfBu.OrphanInv.addOrphanTx` — the two updates keep it.
* `MvfBu.resolveWorkQueue_orphans` — the resolution loop leaves the orphans as they are.
* `MvfBu.limitLoop_spec` — eviction ends within the limits.
* `MvfBu.orphan_pool_consistent` — the invariant over every run of the operations.

## Implementation notes

`GetHash`, `RecursiveDynamicUsage`, `GetRandHash` and the outcome of each call of
`AcceptToMemoryPool` are parameters: the statements hold for all of them. The loop of
`EraseOrphansByTime` walks the keys the map has when it starts, which is what its iterator
walks when every orphan is filed under its own hash. `nBytesOrphanPool` is a natural number:
it is a sum of usages, which stays far below `2 ^ 64`. `LimitOrphanTxSize` is given as many
iterations as the pool has orphans, which `limitLoop_spec` shows to be enough.
-/

namespace MvfBu

/-! ### Hashes as keys -/

/-- A `uint256` as `std::map` and `std::set` order it: `base_blob::operator<` is `memcmp` of
the 32 bytes, the first byte first. -/
def Blob : Type := uint256

/-- The bytes `memcmp` compares. -/
def Blob.bytes (h : Blob) : List ℕ := (serUint256 h).map UInt8.toNat

theorem Blob.bytes_injective : Function.Injective Blob.bytes := by
  intro a b h
  have hser : serUint256 a = serUint256 b :=
    List.map_injective_iff.2 (fun x y hxy => UInt8.toNat_inj.1 hxy) h
  have hlt : ∀ x : uint256, x.toNat < 256 ^ 32 := fun x => by
    have h256 : (256 : ℕ) ^ 32 = 2 ^ 256 := by norm_num
    rw [h256]
    exact x.isLt
  exact BitVec.eq_of_toNat_eq (writeLE_injOn (hlt a) (hlt b) hser)

instance : LinearOrder Blob := LinearOrder.lift' Blob.bytes Blob.bytes_injective

/-- The transaction an input spends an output of, as a key. -/
def prevHash (txin : CTxIn) : Blob := txin.prevout.hash

/-! ### The pool -/

/-- `COrphanTx`: the transaction, the peer it came from, its arrival time and its memory
usage. -/
structure COrphanTx where
  tx : CTransaction
  fromPeer : ℤ
  nEntryTime : ℤ
  nOrphanTxSize : ℕ

/-- The `COrphanTx` that `operator[]` creates: `CTransaction()`, of version `1`, and zeros. -/
def COrphanTx.empty : COrphanTx := ⟨⟨1, [], [], 0⟩, 0, 0, 0⟩

/-- `mapOrphanTransactions`, `mapOrphanTransactionsByPrev` and `nBytesOrphanPool`. -/
structure OrphanPool where
  mapOrphanTransactions : SortedMap Blob COrphanTx
  mapOrphanTransactionsByPrev : SortedMap Blob (Finset Blob)
  nBytesOrphanPool : ℕ

/-- The pool with no orphan, as at start-up and after `UnloadBlockIndex`. -/
def OrphanPool.empty : OrphanPool := ⟨.empty, .empty, 0⟩

/-- `MAX_STANDARD_TX_SIZE`. -/
def MAX_STANDARD_TX_SIZE : ℕ := 100000

/-- One input of `EraseOrphanTx`: `hash` leaves the set of the transaction the input spends,
and a set left empty leaves the index. -/
def eraseFromPrev (hash : Blob) (byPrev : SortedMap Blob (Finset Blob)) (txin : CTxIn) :
    SortedMap Blob (Finset Blob) :=
  match byPrev.find? (prevHash txin) with
  | none => byPrev
  | some s =>
    if s.erase hash = ∅ then byPrev.erase (prevHash txin)
    else byPrev.insert (prevHash txin) (s.erase hash)

/-- `EraseOrphanTx(hash)`: nothing when `hash` is no orphan. -/
def EraseOrphanTx (hash : Blob) (p : OrphanPool) : OrphanPool :=
  match p.mapOrphanTransactions.find? hash with
  | none => p
  | some it =>
    { mapOrphanTransactions := p.mapOrphanTransactions.erase hash
      mapOrphanTransactionsByPrev :=
        it.tx.vin.foldl (eraseFromPrev hash) p.mapOrphanTransactionsByPrev
      nBytesOrphanPool := p.nBytesOrphanPool - it.nOrphanTxSize }

/-- One input of `AddOrphanTx`: `mapOrphanTransactionsByPrev[txin.prevout.hash].insert(hash)`. -/
def addToPrev (hash : Blob) (byPrev : SortedMap Blob (Finset Blob)) (txin : CTxIn) :
    SortedMap Blob (Finset Blob) :=
  byPrev.insert (prevHash txin) (insert hash ((byPrev.find? (prevHash txin)).getD ∅))

/-- `mapOrphanTransactions.lower_bound(randomhash)`, moved to `begin()` when it is `end()`:
`none` when the map is empty. -/
def lowerBoundOrBegin (m : SortedMap Blob COrphanTx) (randomhash : Blob) : Option Blob :=
  match (m.keysFrom (some randomhash)).head? with
  | some k => some k
  | none => m.keys.head?

/-- The loop of `LimitOrphanTxSize`, given `fuel` iterations: `none` when it runs out of them
or takes `begin()` of an empty map. -/
def limitLoop (GetRandHash : ℕ → Blob) (nMaxOrphans nMaxBytes : ℕ) :
    ℕ → ℕ → OrphanPool → Option (OrphanPool × ℕ)
  | fuel, nEvicted, p =>
    if p.mapOrphanTransactions.size > nMaxOrphans ∨ p.nBytesOrphanPool > nMaxBytes then
      match fuel with
      | 0 => none
      | fuel + 1 =>
        match lowerBoundOrBegin p.mapOrphanTransactions (GetRandHash nEvicted) with
        | some k =>
          limitLoop GetRandHash nMaxOrphans nMaxBytes fuel (nEvicted + 1) (EraseOrphanTx k p)
        | none => none
    else some (p, nEvicted)

/-- `LimitOrphanTxSize(nMaxOrphans, nMaxBytes)`: evict random orphans until both limits hold;
the pool and the number evicted. `GetRandHash n` is the hash drawn at the `n`-th eviction. -/
def LimitOrphanTxSize (GetRandHash : ℕ → Blob) (nMaxOrphans nMaxBytes : ℕ) (p : OrphanPool) :
    Option (OrphanPool × ℕ) :=
  limitLoop GetRandHash nMaxOrphans nMaxBytes p.mapOrphanTransactions.size 0 p

section Hashing

variable (GetHash : CTransaction → Blob)

/-- `AddOrphanTx(tx, peer)` at time `nTime`: whether the orphan was stored. An empty pool
first has its counter reset. -/
def AddOrphanTx (RecursiveDynamicUsage : CTransaction → ℕ) (tx : CTransaction) (peer nTime : ℤ)
    (p : OrphanPool) : Bool × OrphanPool :=
  let p := if p.mapOrphanTransactions.size = 0 then { p with nBytesOrphanPool := 0 } else p
  let hash := GetHash tx
  if (p.mapOrphanTransactions.find? hash).isSome then (false, p)
  -- orphans larger than the largest transaction allowed are ignored
  else if tx.serialize.length > MAX_STANDARD_TX_SIZE then (false, p)
  else
    let txSize := RecursiveDynamicUsage tx
    (true,
      { mapOrphanTransactions := p.mapOrphanTransactions.insert hash ⟨tx, peer, nTime, txSize⟩
        mapOrphanTransactionsByPrev := tx.vin.foldl (addToPrev hash) p.mapOrphanTransactionsByPrev
        nBytesOrphanPool := p.nBytesOrphanPool + txSize })

/-- One orphan of the loop of `EraseOrphansByTime`: the orphan filed under `k`, when it
arrived before the cutoff, is erased by the hash of its transaction. -/
def eraseIfOlder (nOrphanTxCutoffTime : ℤ) (p : OrphanPool) (k : Blob) : OrphanPool :=
  match p.mapOrphanTransactions.find? k with
  | some it =>
    if it.nEntryTime < nOrphanTxCutoffTime then EraseOrphanTx (GetHash it.tx) p else p
  | none => p

/-- `EraseOrphansByTime` at time `nNow`, with `-orphanpoolexpiry` in hours: at most once every
five minutes, the orphans older than the expiry are erased. The pool and `nLastOrphanCheck`. -/
def EraseOrphansByTime (orphanpoolexpiry nNow nLastOrphanCheck : ℤ) (p : OrphanPool) :
    OrphanPool × ℤ :=
  if nNow < nLastOrphanCheck + 5 * 60 then (p, nLastOrphanCheck)
  else
    (p.mapOrphanTransactions.keys.foldl
      (eraseIfOlder GetHash (nNow - orphanpoolexpiry * 60 * 60)) p, nNow)

/-- `CParallelValidation::ClearOrphanCache(block)`: out of the initial block download, the
orphans of the previous block and those of this one are erased, and this block's hashes become
`vPreviousBlock`. -/
def ClearOrphanCache (fInitialBlockDownload : Bool) (vtx : List CTransaction)
    (vPreviousBlock : List Blob) (p : OrphanPool) : OrphanPool × List Blob :=
  if fInitialBlockDownload then (p, vPreviousBlock)
  else
    let p := vPreviousBlock.foldl (fun q h => EraseOrphanTx h q) p
    ((vtx.map GetHash).foldl (fun q h => EraseOrphanTx h q) p, vtx.map GetHash)

end Hashing

/-! ### The resolution loop of the `tx` message -/

/-- What `AcceptToMemoryPool` does with an orphan: accept it, find an input missing, or refuse
it with the DoS score of its state (`0` when the state is not invalid). -/
inductive AtmpResult
  | accepted
  | missingInputs
  | refused (nDos : ℕ)

/-- The state of the resolution loop: the orphans as `operator[]` leaves them, the work and
erase queues, the peers found misbehaving, and the number of calls to `AcceptToMemoryPool`. -/
structure ResolveState where
  orphans : SortedMap Blob COrphanTx
  vWorkQueue : List Blob
  vEraseQueue : List Blob
  setMisbehaving : Finset ℤ
  nCalls : ℕ

/-- `mapOrphanTransactions[orphanHash]`: the orphan, or a `COrphanTx()` inserted when there is
none. -/
def orphanAt (m : SortedMap Blob COrphanTx) (orphanHash : Blob) :
    COrphanTx × SortedMap Blob COrphanTx :=
  match m.find? orphanHash with
  | some it => (it, m)
  | none => (COrphanTx.empty, m.insert orphanHash COrphanTx.empty)

/-- The inner loop over the orphans filed under one transaction of the work queue;
`ATMP n tx` is the outcome of the `n`-th call of `AcceptToMemoryPool`. -/
def resolveOrphans (ATMP : ℕ → CTransaction → AtmpResult) :
    List Blob → ResolveState → ResolveState
  | [], st => st
  | orphanHash :: rest, st =>
    let it := orphanAt st.orphans orphanHash
    let st := { st with orphans := it.2 }
    if it.1.fromPeer ∈ st.setMisbehaving then resolveOrphans ATMP rest st
    else
      let st' := match ATMP st.nCalls it.1.tx with
        | .accepted =>
          { st with vWorkQueue := st.vWorkQueue ++ [orphanHash]
                    vEraseQueue := st.vEraseQueue ++ [orphanHash] }
        | .missingInputs => st
        | .refused nDos =>
          { st with setMisbehaving :=
                      if 0 < nDos then insert it.1.fromPeer st.setMisbehaving
                      else st.setMisbehaving
                    vEraseQueue := st.vEraseQueue ++ [orphanHash] }
      resolveOrphans ATMP rest { st' with nCalls := st.nCalls + 1 }

/-- The outer loop `for (i = 0; i < vWorkQueue.size(); i++)`, run for at most `fuel`
iterations; the orphans of each transaction are visited in the order of their set. -/
def resolveWorkQueue (byPrev : SortedMap Blob (Finset Blob))
    (ATMP : ℕ → CTransaction → AtmpResult) : ℕ → ℕ → ResolveState → ResolveState
  | 0, _, st => st
  | fuel + 1, i, st =>
    match st.vWorkQueue[i]? with
    | none => st
    | some h =>
      match byPrev.find? h with
      | none => resolveWorkQueue byPrev ATMP fuel (i + 1) st
      | some s =>
        resolveWorkQueue byPrev ATMP fuel (i + 1) (resolveOrphans ATMP (s.sort (· ≤ ·)) st)

/-- The orphan handling of the `tx` message once the transaction `hash` is accepted: the
resolution loop (`fuel` iterations of it), the erasure of the orphans it accepted or refused,
and `EraseOrphansByTime`. The pool and `nLastOrphanCheck`. -/
def ProcessOrphans (GetHash : CTransaction → Blob) (orphanpoolexpiry : ℤ)
    (ATMP : ℕ → CTransaction → AtmpResult) (fuel : ℕ) (hash : Blob) (nNow nLastOrphanCheck : ℤ)
    (p : OrphanPool) : OrphanPool × ℤ :=
  let st := resolveWorkQueue p.mapOrphanTransactionsByPrev ATMP fuel 0
    ⟨p.mapOrphanTransactions, [hash], [], ∅, 0⟩
  let p := { p with mapOrphanTransactions := st.orphans }
  EraseOrphansByTime GetHash orphanpoolexpiry nNow nLastOrphanCheck
    (st.vEraseQueue.foldl (fun q h => EraseOrphanTx h q) p)

/-! ### Runs -/

/-- The operations on the orphan pool. -/
inductive OrphanEvent
  | addOrphanTx (tx : CTransaction) (peer nTime : ℤ)
  | eraseOrphanTx (hash : Blob)
  | eraseOrphansByTime (nNow : ℤ)
  | limitOrphanTxSize (GetRandHash : ℕ → Blob) (nMaxOrphans nMaxBytes : ℕ)
  | clearOrphanCache (fInitialBlockDownload : Bool) (vtx : List CTransaction)
  | processOrphans (ATMP : ℕ → CTransaction → AtmpResult) (fuel : ℕ) (hash : Blob) (nNow : ℤ)
  | unloadBlockIndex

/-- The pool with the two variables its operations keep beside it. -/
structure OrphanState where
  pool : OrphanPool
  nLastOrphanCheck : ℤ
  vPreviousBlock : List Blob

section Runs

variable (GetHash : CTransaction → Blob) (RecursiveDynamicUsage : CTransaction → ℕ)
  (orphanpoolexpiry : ℤ)

/-- One operation; `none` when `LimitOrphanTxSize` fails. -/
def orphanStep (s : OrphanState) : OrphanEvent → Option OrphanState
  | .addOrphanTx tx peer nTime =>
    some { s with pool := (AddOrphanTx GetHash RecursiveDynamicUsage tx peer nTime s.pool).2 }
  | .eraseOrphanTx hash => some { s with pool := EraseOrphanTx hash s.pool }
  | .eraseOrphansByTime nNow =>
    let r := EraseOrphansByTime GetHash orphanpoolexpiry nNow s.nLastOrphanCheck s.pool
    some { s with pool := r.1, nLastOrphanCheck := r.2 }
  | .limitOrphanTxSize GetRandHash nMaxOrphans nMaxBytes =>
    (LimitOrphanTxSize GetRandHash nMaxOrphans nMaxBytes s.pool).map fun r => { s with pool := r.1 }
  | .clearOrphanCache fInitialBlockDownload vtx =>
    let r := ClearOrphanCache GetHash fInitialBlockDownload vtx s.vPreviousBlock s.pool
    some { s with pool := r.1, vPreviousBlock := r.2 }
  | .processOrphans ATMP fuel hash nNow =>
    let r := ProcessOrphans GetHash orphanpoolexpiry ATMP fuel hash nNow s.nLastOrphanCheck s.pool
    some { s with pool := r.1, nLastOrphanCheck := r.2 }
  | .unloadBlockIndex => some { s with pool := OrphanPool.empty }

/-- A run of operations; `none` when one of them fails. -/
def runOrphanEvents (s : OrphanState) : List OrphanEvent → Option OrphanState
  | [] => some s
  | ev :: evs => (orphanStep GetHash RecursiveDynamicUsage orphanpoolexpiry s ev).bind fun s' =>
    runOrphanEvents s' evs

end Runs

/-! ### The invariant -/

/-- The orphans whose transaction has an input spending an output of `h`. -/
def spenders (m : SortedMap Blob COrphanTx) (h : Blob) : Finset Blob :=
  ((m.entries.filter fun e => h ∈ e.2.tx.vin.map prevHash).map Prod.fst).toFinset

/-- What the index is to hold for `h`: the spenders of `h`, none when there are none. -/
def prevEntry (m : SortedMap Blob COrphanTx) (h : Blob) : Option (Finset Blob) :=
  if spenders m h = ∅ then none else some (spenders m h)

/-- The set of `h` once `hash` has left it, none when that empties it. -/
def dropKey (hash : Blob) (o : Option (Finset Blob)) : Option (Finset Blob) :=
  o.bind fun s => if s.erase hash = ∅ then none else some (s.erase hash)

/-- The set of `h` once `hash` has joined it. -/
def addKey (hash : Blob) (o : Option (Finset Blob)) : Option (Finset Blob) :=
  some (insert hash (o.getD ∅))

/-- **The invariant of the orphan pool.** -/
structure OrphanInv (GetHash : CTransaction → Blob) (p : OrphanPool) : Prop where
  /-- Every orphan is filed under the hash of its transaction. -/
  key_hash : ∀ k it, p.mapOrphanTransactions.find? k = some it → GetHash it.tx = k
  /-- The index maps each hash to the non-empty set of the orphans spending from it. -/
  byPrev : ∀ h, p.mapOrphanTransactionsByPrev.find? h = prevEntry p.mapOrphanTransactions h
  /-- The counter is the sum of the orphans' usages. -/
  bytes : p.nBytesOrphanPool = SortedMap.sumBy COrphanTx.nOrphanTxSize p.mapOrphanTransactions

theorem mem_spenders {m : SortedMap Blob COrphanTx} {h k : Blob} :
    k ∈ spenders m h ↔ ∃ it, m.find? k = some it ∧ h ∈ it.tx.vin.map prevHash := by
  simp only [spenders, List.mem_toFinset, List.mem_map, List.mem_filter, decide_eq_true_eq]
  constructor
  · rintro ⟨e, ⟨he, hh⟩, rfl⟩
    exact ⟨e.2, SortedMap.find?_of_mem he, hh⟩
  · rintro ⟨it, hit, hh⟩
    exact ⟨(k, it), ⟨SortedMap.mem_of_findEntry_eq_some hit, hh⟩, rfl⟩

theorem getD_prevEntry (m : SortedMap Blob COrphanTx) (h : Blob) :
    (prevEntry m h).getD ∅ = spenders m h := by
  unfold prevEntry
  split_ifs with he
  · exact he.symm
  · rfl

/-- **The index after an erasure**: the sets of the transactions the orphan spends lose it. -/
theorem prevEntry_erase {m : SortedMap Blob COrphanTx} {k : Blob} {it : COrphanTx}
    (hk : m.find? k = some it) (h : Blob) :
    prevEntry (m.erase k) h =
      if h ∈ it.tx.vin.map prevHash then dropKey k (prevEntry m h) else prevEntry m h := by
  have hs : spenders (m.erase k) h = (spenders m h).erase k := by
    ext k'
    rw [Finset.mem_erase, mem_spenders, mem_spenders, SortedMap.find?_erase]
    by_cases hk' : k' = k <;> simp [hk']
  have hgoal : prevEntry (m.erase k) h =
      if (spenders m h).erase k = ∅ then none else some ((spenders m h).erase k) := by
    rw [← hs]
    rfl
  rw [hgoal]
  by_cases hh : h ∈ it.tx.vin.map prevHash
  · -- the orphan spends from `h`, so it is among the spenders
    have hne : spenders m h ≠ ∅ := Finset.ne_empty_of_mem (mem_spenders.2 ⟨it, hk, hh⟩)
    rw [if_pos hh, prevEntry, if_neg hne]
    rfl
  · have hnot : k ∉ spenders m h := fun hmem => by
      obtain ⟨it', hit', hh'⟩ := mem_spenders.1 hmem
      rw [hk] at hit'
      cases hit'
      exact hh hh'
    rw [if_neg hh, Finset.erase_eq_of_notMem hnot]
    rfl

/-- **The index after an insertion** of a key that was not there: the sets of the transactions
the orphan spends gain it. -/
theorem prevEntry_insert {m : SortedMap Blob COrphanTx} {k : Blob} (hk : m.find? k = none)
    (it : COrphanTx) (h : Blob) :
    prevEntry (m.insert k it) h =
      if h ∈ it.tx.vin.map prevHash then addKey k (prevEntry m h) else prevEntry m h := by
  have hk' : k ∉ spenders m h := fun hmem => by
    obtain ⟨it', hit', -⟩ := mem_spenders.1 hmem
    rw [hk] at hit'
    cases hit'
  have hs : spenders (m.insert k it) h =
      if h ∈ it.tx.vin.map prevHash then insert k (spenders m h) else spenders m h := by
    ext k'
    rw [mem_spenders, SortedMap.find?_insert]
    by_cases hkk : k' = k
    · subst hkk
      rw [if_pos rfl]
      split_ifs with hh
      · exact ⟨fun _ => Finset.mem_insert_self _ _, fun _ => ⟨it, rfl, hh⟩⟩
      · refine ⟨fun ⟨it', hit', hh'⟩ => ?_, fun hmem => absurd hmem hk'⟩
        cases hit'
        exact absurd hh' hh
    · rw [if_neg hkk]
      split_ifs
      · rw [Finset.mem_insert, mem_spenders]
        simp [hkk]
      · rw [mem_spenders]
  have hgoal : prevEntry (m.insert k it) h =
      if spenders (m.insert k it) h = ∅ then none else some (spenders (m.insert k it) h) := rfl
  rw [hgoal, hs]
  by_cases hh : h ∈ it.tx.vin.map prevHash
  · rw [if_pos hh, if_pos hh, if_neg (Finset.insert_ne_empty _ _), addKey, getD_prevEntry]
  · rw [if_neg hh, if_neg hh]
    rfl

theorem eraseFromPrev_eq (hash : Blob) (byPrev : SortedMap Blob (Finset Blob)) (txin : CTxIn) :
    eraseFromPrev hash byPrev txin =
      byPrev.set (prevHash txin) (dropKey hash (byPrev.find? (prevHash txin))) := by
  unfold eraseFromPrev dropKey
  cases hb : byPrev.find? (prevHash txin) with
  | none => exact (SortedMap.erase_of_find?_eq_none hb).symm
  | some s =>
    simp only [Option.bind_some]
    split_ifs <;> rfl

theorem dropKey_dropKey (hash : Blob) (o : Option (Finset Blob)) :
    dropKey hash (dropKey hash o) = dropKey hash o := by
  cases o with
  | none => rfl
  | some s =>
    unfold dropKey
    by_cases he : s.erase hash = ∅ <;> simp [he]

theorem addKey_addKey (hash : Blob) (o : Option (Finset Blob)) :
    addKey hash (addKey hash o) = addKey hash o := by
  simp [addKey]

/-- The index after the loop of `EraseOrphanTx` over the inputs. -/
theorem find?_foldl_eraseFromPrev (hash : Blob) (vin : List CTxIn)
    (byPrev : SortedMap Blob (Finset Blob)) (h : Blob) :
    (vin.foldl (eraseFromPrev hash) byPrev).find? h =
      if h ∈ vin.map prevHash then dropKey hash (byPrev.find? h) else byPrev.find? h := by
  have hf : eraseFromPrev hash = fun B txin =>
      B.set (prevHash txin) (dropKey hash (B.find? (prevHash txin))) := by
    funext B txin
    exact eraseFromPrev_eq hash B txin
  rw [hf]
  exact SortedMap.find?_foldl_set prevHash _ (dropKey_dropKey hash) vin byPrev h

/-- The index after the loop of `AddOrphanTx` over the inputs. -/
theorem find?_foldl_addToPrev (hash : Blob) (vin : List CTxIn)
    (byPrev : SortedMap Blob (Finset Blob)) (h : Blob) :
    (vin.foldl (addToPrev hash) byPrev).find? h =
      if h ∈ vin.map prevHash then addKey hash (byPrev.find? h) else byPrev.find? h :=
  SortedMap.find?_foldl_set prevHash _ (addKey_addKey hash) vin byPrev h

variable {GetHash : CTransaction → Blob}

/-- Every orphan named by the index is in the pool. -/
theorem OrphanInv.isSome_of_mem {p : OrphanPool} (hp : OrphanInv GetHash p) {h k : Blob}
    {s : Finset Blob} (hs : p.mapOrphanTransactionsByPrev.find? h = some s) (hk : k ∈ s) :
    (p.mapOrphanTransactions.find? k).isSome := by
  rw [hp.byPrev, prevEntry] at hs
  split_ifs at hs
  cases hs
  obtain ⟨it, hit, -⟩ := mem_spenders.1 hk
  rw [hit]
  rfl

theorem orphanInv_empty : OrphanInv GetHash OrphanPool.empty := by
  refine ⟨fun k it h => (by simp [OrphanPool.empty] at h), fun h => ?_, rfl⟩
  have : spenders (SortedMap.empty : SortedMap Blob COrphanTx) h = ∅ := rfl
  simp [OrphanPool.empty, prevEntry, this]

/-- **`EraseOrphanTx` keeps the invariant**, for every hash. -/
theorem OrphanInv.eraseOrphanTx {p : OrphanPool} (hp : OrphanInv GetHash p) (hash : Blob) :
    OrphanInv GetHash (EraseOrphanTx hash p) := by
  unfold EraseOrphanTx
  cases hit : p.mapOrphanTransactions.find? hash with
  | none => exact hp
  | some it =>
    dsimp only
    refine ⟨fun k it' hk => ?_, fun h => ?_, ?_⟩
    · rw [SortedMap.find?_erase] at hk
      split_ifs at hk
      exact hp.key_hash k it' hk
    · rw [find?_foldl_eraseFromPrev, hp.byPrev, prevEntry_erase hit]
    · -- the orphan's usage is its share of the sum
      have hsum := SortedMap.sumBy_eq_erase_add COrphanTx.nOrphanTxSize p.mapOrphanTransactions hash
      rw [hit, SortedMap.share_some] at hsum
      have := hp.bytes
      dsimp only
      omega

theorem OrphanInv.foldl_eraseOrphanTx {p : OrphanPool} (hp : OrphanInv GetHash p)
    (l : List Blob) : OrphanInv GetHash (l.foldl (fun q h => EraseOrphanTx h q) p) := by
  induction l generalizing p with
  | nil => exact hp
  | cons h l ih => exact ih (hp.eraseOrphanTx h)

variable (RecursiveDynamicUsage : CTransaction → ℕ)

/-- **`AddOrphanTx` keeps the invariant**, whether it stores the orphan or not. -/
theorem OrphanInv.addOrphanTx {p : OrphanPool} (hp : OrphanInv GetHash p) (tx : CTransaction)
    (peer nTime : ℤ) :
    OrphanInv GetHash (AddOrphanTx GetHash RecursiveDynamicUsage tx peer nTime p).2 := by
  -- the counter of an empty pool is already zero, so its reset keeps the invariant
  have hp0 : OrphanInv GetHash
      (if p.mapOrphanTransactions.size = 0 then { p with nBytesOrphanPool := 0 } else p) := by
    split_ifs with h0
    · refine ⟨hp.key_hash, hp.byPrev, ?_⟩
      have hnil := List.length_eq_zero_iff.1 h0
      simp [SortedMap.sumBy, hnil]
    · exact hp
  unfold AddOrphanTx
  dsimp only
  generalize (if p.mapOrphanTransactions.size = 0 then { p with nBytesOrphanPool := 0 } else p)
    = q at hp0 ⊢
  split_ifs with h1 h2
  · exact hp0
  · exact hp0
  · have hk : q.mapOrphanTransactions.find? (GetHash tx) = none := by
      simpa using h1
    refine ⟨fun k it hkit => ?_, fun h => ?_, ?_⟩
    · rw [SortedMap.find?_insert] at hkit
      split_ifs at hkit with hkh
      · cases hkit
        exact hkh.symm
      · exact hp0.key_hash k it hkit
    · rw [find?_foldl_addToPrev, hp0.byPrev, prevEntry_insert hk]
    · show q.nBytesOrphanPool + RecursiveDynamicUsage tx = _
      rw [SortedMap.sumBy_insert, SortedMap.erase_of_find?_eq_none hk, hp0.bytes]

/-- `EraseOrphansByTime` keeps the invariant. -/
theorem OrphanInv.eraseOrphansByTime {p : OrphanPool} (hp : OrphanInv GetHash p)
    (orphanpoolexpiry nNow nLastOrphanCheck : ℤ) :
    OrphanInv GetHash (EraseOrphansByTime GetHash orphanpoolexpiry nNow nLastOrphanCheck p).1 := by
  unfold EraseOrphansByTime
  split_ifs
  · exact hp
  · generalize p.mapOrphanTransactions.keys = l
    induction l generalizing p with
    | nil => exact hp
    | cons k l ih =>
      refine ih ?_
      unfold eraseIfOlder
      split
      · split_ifs
        · exact hp.eraseOrphanTx _
        · exact hp
      · exact hp

/-- `ClearOrphanCache` keeps the invariant. -/
theorem OrphanInv.clearOrphanCache {p : OrphanPool} (hp : OrphanInv GetHash p)
    (fInitialBlockDownload : Bool) (vtx : List CTransaction) (vPreviousBlock : List Blob) :
    OrphanInv GetHash (ClearOrphanCache GetHash fInitialBlockDownload vtx vPreviousBlock p).1 := by
  unfold ClearOrphanCache
  split_ifs
  · exact hp
  · exact (hp.foldl_eraseOrphanTx _).foldl_eraseOrphanTx _

/-- An empty pool counts no bytes. -/
theorem OrphanInv.bytes_eq_zero {p : OrphanPool} (hp : OrphanInv GetHash p)
    (h0 : p.mapOrphanTransactions.size = 0) : p.nBytesOrphanPool = 0 := by
  have hnil := List.length_eq_zero_iff.1 h0
  rw [hp.bytes]
  simp [SortedMap.sumBy, hnil]

/-! ### The resolution loop reads the pool without changing it -/

theorem orphanAt_of_find? {m : SortedMap Blob COrphanTx} {k : Blob} {it : COrphanTx}
    (h : m.find? k = some it) : orphanAt m k = (it, m) := by
  simp [orphanAt, h]

/-- Over orphans that are all in the map, the inner loop leaves the map as it is: its
`operator[]` only reads. -/
theorem resolveOrphans_orphans (ATMP : ℕ → CTransaction → AtmpResult) :
    ∀ (l : List Blob) (st : ResolveState), (∀ k ∈ l, (st.orphans.find? k).isSome) →
      (resolveOrphans ATMP l st).orphans = st.orphans
  | [], _, _ => rfl
  | k :: l, st, hl => by
    obtain ⟨it, hit⟩ := Option.isSome_iff_exists.1 (hl k List.mem_cons_self)
    have hl' : ∀ k' ∈ l, (st.orphans.find? k').isSome :=
      fun k' hk' => hl k' (List.mem_cons_of_mem k hk')
    rw [resolveOrphans, orphanAt_of_find? hit]
    dsimp only
    split_ifs
    · exact resolveOrphans_orphans ATMP l _ hl'
    · split <;> exact resolveOrphans_orphans ATMP l _ hl'

/-- **The resolution loop leaves the orphans as they are**: every orphan the index names is in
the pool, so no `operator[]` inserts. -/
theorem resolveWorkQueue_orphans {p : OrphanPool} (hp : OrphanInv GetHash p)
    (ATMP : ℕ → CTransaction → AtmpResult) :
    ∀ (fuel i : ℕ) (st : ResolveState), st.orphans = p.mapOrphanTransactions →
      (resolveWorkQueue p.mapOrphanTransactionsByPrev ATMP fuel i st).orphans =
        p.mapOrphanTransactions
  | 0, _, _, h => h
  | fuel + 1, i, st, h => by
    rw [resolveWorkQueue]
    split
    · exact h
    · split
      · exact resolveWorkQueue_orphans hp ATMP fuel (i + 1) st h
      · rename_i s hs
        refine resolveWorkQueue_orphans hp ATMP fuel (i + 1) _ ?_
        have hkeys : ∀ k ∈ s.sort (· ≤ ·), (st.orphans.find? k).isSome := fun k hk => by
          rw [h]
          exact hp.isSome_of_mem hs ((Finset.mem_sort _).1 hk)
        rw [resolveOrphans_orphans ATMP _ st hkeys, h]

/-- The orphan handling of the `tx` message keeps the invariant. -/
theorem OrphanInv.processOrphans {p : OrphanPool} (hp : OrphanInv GetHash p)
    (orphanpoolexpiry : ℤ) (ATMP : ℕ → CTransaction → AtmpResult) (fuel : ℕ) (hash : Blob)
    (nNow nLastOrphanCheck : ℤ) :
    OrphanInv GetHash
      (ProcessOrphans GetHash orphanpoolexpiry ATMP fuel hash nNow nLastOrphanCheck p).1 := by
  unfold ProcessOrphans
  dsimp only
  rw [resolveWorkQueue_orphans hp ATMP fuel 0 _ rfl]
  exact (hp.foldl_eraseOrphanTx _).eraseOrphansByTime _ _ _

/-! ### Eviction -/

theorem lowerBoundOrBegin_mem {m : SortedMap Blob COrphanTx} {r k : Blob}
    (h : lowerBoundOrBegin m r = some k) : k ∈ m.keys := by
  unfold lowerBoundOrBegin at h
  split at h
  · rename_i k' hk'
    cases h
    exact (List.mem_filter.1 (List.mem_of_mem_head? hk')).1
  · exact List.mem_of_mem_head? h

theorem lowerBoundOrBegin_isSome {m : SortedMap Blob COrphanTx} (r : Blob) (hm : m.keys ≠ []) :
    (lowerBoundOrBegin m r).isSome := by
  unfold lowerBoundOrBegin
  split
  · rfl
  · obtain ⟨k, l, hkl⟩ := List.exists_cons_of_ne_nil hm
    rw [hkl]
    rfl

/-- Erasing an orphan of the pool takes one entry away. -/
theorem size_EraseOrphanTx {p : OrphanPool} {k : Blob} (hk : k ∈ p.mapOrphanTransactions.keys) :
    (EraseOrphanTx k p).mapOrphanTransactions.size + 1 = p.mapOrphanTransactions.size := by
  obtain ⟨it, hit⟩ := SortedMap.exists_find?_of_mem_keys hk
  have h := SortedMap.size_erase_add p.mapOrphanTransactions k
  rw [hit, SortedMap.share_some] at h
  simp only [EraseOrphanTx, hit]
  exact h

/-- **Eviction ends within the limits**: from a pool that keeps the invariant, with at least
as many iterations as orphans, the loop of `LimitOrphanTxSize` returns a pool that keeps it and
holds both limits; it never takes `begin()` of an empty map, since an empty pool counts no
bytes. -/
theorem limitLoop_spec (GetRandHash : ℕ → Blob) (nMaxOrphans nMaxBytes : ℕ) (fuel : ℕ) :
    ∀ (nEvicted : ℕ) (p : OrphanPool), OrphanInv GetHash p →
      p.mapOrphanTransactions.size ≤ fuel →
      ∃ p' n, limitLoop GetRandHash nMaxOrphans nMaxBytes fuel nEvicted p = some (p', n) ∧
        OrphanInv GetHash p' ∧ p'.mapOrphanTransactions.size ≤ nMaxOrphans ∧
        p'.nBytesOrphanPool ≤ nMaxBytes := by
  induction fuel with
  | zero =>
    intro nEvicted p hp hsize
    have hb := hp.bytes_eq_zero (by omega)
    refine ⟨p, nEvicted, ?_, hp, by omega, by omega⟩
    rw [limitLoop, if_neg (by omega)]
  | succ fuel ih =>
    intro nEvicted p hp hsize
    by_cases hc : p.mapOrphanTransactions.size > nMaxOrphans ∨ p.nBytesOrphanPool > nMaxBytes
    · -- a pool over a limit is not empty, so there is an orphan to evict
      have hne : p.mapOrphanTransactions.keys ≠ [] := by
        intro hnil
        have h0 : p.mapOrphanTransactions.size = 0 := by
          rw [SortedMap.size_eq_length_keys, hnil]
          rfl
        have hb := hp.bytes_eq_zero h0
        omega
      obtain ⟨k, hk⟩ :=
        Option.isSome_iff_exists.1 (lowerBoundOrBegin_isSome (GetRandHash nEvicted) hne)
      have hsz := size_EraseOrphanTx (lowerBoundOrBegin_mem hk)
      obtain ⟨p', n, h1, h2⟩ := ih (nEvicted + 1) (EraseOrphanTx k p) (hp.eraseOrphanTx k)
        (by omega)
      refine ⟨p', n, ?_, h2⟩
      rw [limitLoop, if_pos hc, hk]
      exact h1
    · refine ⟨p, nEvicted, ?_, hp, by omega, by omega⟩
      rw [limitLoop, if_neg hc]

/-- `LimitOrphanTxSize` on a pool that keeps the invariant. -/
theorem LimitOrphanTxSize_spec {p : OrphanPool} (hp : OrphanInv GetHash p)
    (GetRandHash : ℕ → Blob) (nMaxOrphans nMaxBytes : ℕ) :
    ∃ p' n, LimitOrphanTxSize GetRandHash nMaxOrphans nMaxBytes p = some (p', n) ∧
      OrphanInv GetHash p' ∧ p'.mapOrphanTransactions.size ≤ nMaxOrphans ∧
      p'.nBytesOrphanPool ≤ nMaxBytes :=
  limitLoop_spec GetRandHash nMaxOrphans nMaxBytes _ 0 p hp le_rfl

/-! ### Runs -/

/-- Every operation succeeds from a pool that keeps the invariant, and keeps it. -/
theorem OrphanInv.orphanStep {s : OrphanState} (hs : OrphanInv GetHash s.pool)
    (orphanpoolexpiry : ℤ) (ev : OrphanEvent) :
    ∃ s', orphanStep GetHash RecursiveDynamicUsage orphanpoolexpiry s ev = some s' ∧
      OrphanInv GetHash s'.pool := by
  cases ev with
  | addOrphanTx tx peer nTime => exact ⟨_, rfl, hs.addOrphanTx RecursiveDynamicUsage tx peer nTime⟩
  | eraseOrphanTx hash => exact ⟨_, rfl, hs.eraseOrphanTx hash⟩
  | eraseOrphansByTime nNow => exact ⟨_, rfl, hs.eraseOrphansByTime _ _ _⟩
  | limitOrphanTxSize GetRandHash nMaxOrphans nMaxBytes =>
    obtain ⟨p', n, h, hp', -⟩ := LimitOrphanTxSize_spec hs GetRandHash nMaxOrphans nMaxBytes
    refine ⟨{ s with pool := p' }, ?_, hp'⟩
    show (LimitOrphanTxSize GetRandHash nMaxOrphans nMaxBytes s.pool).map _ = _
    rw [h]
    rfl
  | clearOrphanCache fInitialBlockDownload vtx => exact ⟨_, rfl, hs.clearOrphanCache _ _ _⟩
  | processOrphans ATMP fuel hash nNow => exact ⟨_, rfl, hs.processOrphans _ _ _ _ _ _⟩
  | unloadBlockIndex => exact ⟨_, rfl, orphanInv_empty⟩

/-- Every run from a pool that keeps the invariant succeeds and ends in one that keeps it. -/
theorem runOrphanEvents_inv (orphanpoolexpiry : ℤ) :
    ∀ (evs : List OrphanEvent) (s : OrphanState), OrphanInv GetHash s.pool →
      ∃ s', runOrphanEvents GetHash RecursiveDynamicUsage orphanpoolexpiry s evs = some s' ∧
        OrphanInv GetHash s'.pool
  | [], s, hs => ⟨s, rfl, hs⟩
  | ev :: evs, s, hs => by
    obtain ⟨s₁, h₁, hs₁⟩ := hs.orphanStep RecursiveDynamicUsage orphanpoolexpiry ev
    obtain ⟨s', h', hs'⟩ := runOrphanEvents_inv orphanpoolexpiry evs s₁ hs₁
    refine ⟨s', ?_, hs'⟩
    rw [runOrphanEvents, h₁, Option.bind_some]
    exact h'

/-- **The orphan pool stays consistent.** For every run of `AddOrphanTx`, `EraseOrphanTx`,
`EraseOrphansByTime`, `LimitOrphanTxSize` with any limits, `ClearOrphanCache`, the orphan
handling of the `tx` message and `UnloadBlockIndex` from start-up: every orphan is filed under
its hash, the index maps each hash to exactly the non-empty set of the orphans spending from it,
every orphan it names is in the pool, the counter is the sum of the usages; and
`LimitOrphanTxSize` then ends, within both of its limits. -/
theorem orphan_pool_consistent (GetHash : CTransaction → Blob)
    (RecursiveDynamicUsage : CTransaction → ℕ) (orphanpoolexpiry nStartTime : ℤ)
    (evs : List OrphanEvent) :
    ∃ s, runOrphanEvents GetHash RecursiveDynamicUsage orphanpoolexpiry
        ⟨OrphanPool.empty, nStartTime, []⟩ evs = some s ∧
      (∀ k it, s.pool.mapOrphanTransactions.find? k = some it → GetHash it.tx = k) ∧
      (∀ h, s.pool.mapOrphanTransactionsByPrev.find? h = prevEntry s.pool.mapOrphanTransactions h) ∧
      (∀ h hs k, s.pool.mapOrphanTransactionsByPrev.find? h = some hs → k ∈ hs →
        (s.pool.mapOrphanTransactions.find? k).isSome) ∧
      s.pool.nBytesOrphanPool =
        SortedMap.sumBy COrphanTx.nOrphanTxSize s.pool.mapOrphanTransactions ∧
      ∀ (GetRandHash : ℕ → Blob) (nMaxOrphans nMaxBytes : ℕ), ∃ p' nEvicted,
        LimitOrphanTxSize GetRandHash nMaxOrphans nMaxBytes s.pool = some (p', nEvicted) ∧
        p'.mapOrphanTransactions.size ≤ nMaxOrphans ∧ p'.nBytesOrphanPool ≤ nMaxBytes := by
  obtain ⟨s, hrun, hs⟩ := runOrphanEvents_inv RecursiveDynamicUsage orphanpoolexpiry evs
    ⟨OrphanPool.empty, nStartTime, []⟩ orphanInv_empty
  refine ⟨s, hrun, hs.key_hash, hs.byPrev, fun h hs' k hh hk => hs.isSome_of_mem hh hk, hs.bytes,
    fun GetRandHash nMaxOrphans nMaxBytes => ?_⟩
  obtain ⟨p', n, hl, -, hsize, hbytes⟩ :=
    LimitOrphanTxSize_spec hs GetRandHash nMaxOrphans nMaxBytes
  exact ⟨p', n, hl, hsize, hbytes⟩

end MvfBu
