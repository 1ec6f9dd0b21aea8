import Mathlib
import MvfBu.Lib.IntConv
import MvfBu.Lib.SortedMap
import MvfBu.Lib.Reach
import MvfBu.Node.MempoolAncestors
import MvfBu.Node.OrphanPool

set_option autoImplicit false

/-!
# Trimming the memory pool (`CTxMemPool::TrimToSize`)

The pool keeps, beside its entries (`mapTx`), the links between an entry and its in-pool
parents and children (`mapLinks`), the outpoints its entries spend (`mapNextTx`), the
prioritisations set by `PrioritiseTransaction` (`mapDeltas`, for transactions in the pool or
not), and `cachedInnerUsage`, the memory of the entries and of their link sets.
`DynamicMemoryUsage` adds all of these up. `TrimToSize(sizelimit)` removes, while that sum is
above `sizelimit`, the entry first in the descendant-score order together with its in-pool
descendants, and raises the rolling minimum fee rate to the fee rate of what it removed.

This file models that bookkeeping as the source keeps it: every update of a link set moves
`cachedInnerUsage` by one set node, `RemoveStaged` first takes the removed entries out of the
descendant counters of their ancestors and severs the links, then erases each entry.

## Main definitions

* `MvfBu.CTxMemPoolEntry` — the fields of an entry the bookkeeping reads and writes.
* `MvfBu.MemPool` — the pool's containers and counters.
* `MvfBu.MemPool.DynamicMemoryUsage`, `MvfBu.MemPool.RemoveStaged`,
  `MvfBu.MemPool.CalculateDescendants`, `MvfBu.MemPool.TrimToSize`,
  `MvfBu.MemPool.PrioritiseTransaction`, `MvfBu.MemPool.Expire`.

## Main results

* `MvfBu.MemPool.mapTx_RemoveStaged` — `RemoveStaged` takes out exactly the staged entries.
* `MvfBu.MemPool.CalculateDescendants_eq` — the search returns the entries reached through
  the children links.
* `MvfBu.MemPool.TrimToSize_derefs_empty_index` — with no entry left and the usage above the
  limit, the loop takes `begin()` of the empty index.

## Implementation notes

Entries are iterators of a finite type `ι` in the order of `setEntries` (by transaction hash);
hashes are any linearly ordered type `H`. The descendant-score comparison is computed on
integers (the source's doubles are exact below `2 ^ 53`); for entries that compare equal both
ways the multi-index keeps an order that depends on its history, and the model takes the first
entry, in hash order, that no later entry precedes. `CTxMemPoolEntry::UpdateState` asserts that
the counters stay positive, and `GetMemPoolParents` that the entry has links; the asserts are
left out. The ancestors walked by `UpdateForRemoveFromMempool` and `PrioritiseTransaction` are
those `CalculateMemPoolAncestors` returns with no limits (`nNoLimit`); the walk fails only for
counters near `2 ^ 64`, where the source keeps the ancestors found so far and the model none.
Sizes are those of a 64-bit platform; `sizeof` of the nodes are parameters.
-/

namespace MvfBu

/-! ## Memory usage and fee rates -/

/-- `memusage::MallocUsage(alloc)` with `sizeof(void*) == 8`: the allocation rounded up to
sixteen bytes, with sixteen bytes of overhead. -/
def MallocUsage (alloc : ℕ) : ℕ :=
  if alloc = 0 then 0 else ((alloc + 31) >>> 4) <<< 4

lemma MallocUsage_pos {alloc : ℕ} (h : 0 < alloc) : 0 < MallocUsage alloc := by
  rw [MallocUsage, if_neg (by omega), Nat.shiftLeft_eq, Nat.shiftRight_eq_div_pow]
  have : 1 ≤ (alloc + 31) / 2 ^ 4 := (Nat.le_div_iff_mul_le (by decide)).2 (by omega)
  positivity

/-- The `sizeof` of what `DynamicMemoryUsage` counts: a `CTxMemPoolEntry`, and a tree node of
`mapNextTx`, of `mapDeltas`, of `mapLinks` and of a `setEntries`. -/
structure MemPoolSizes where
  sizeofEntry : ℕ
  nextTxNode : ℕ
  deltasNode : ℕ
  linksNode : ℕ
  setEntriesNode : ℕ

/-- `CFeeRate`: satoshis per 1000 bytes. -/
structure CFeeRate where
  nSatoshisPerK : ℤ
  deriving DecidableEq, Repr

namespace CFeeRate

/-- `CFeeRate(nFeePaid, nSize)`. The product `nFeePaid * 1000` is a `CAmount` divided by a
`size_t`, so it is converted to `uint64_t` first, and the quotient back to `int64_t`. -/
def ofFeePaid (nFeePaid : ℤ) (nSize : ℕ) : CFeeRate :=
  if nSize > 0 then ⟨IntConv.toSigned 64 ((IntConv.toUnsigned 64 (nFeePaid * 1000) / nSize : ℕ))⟩
  else ⟨0⟩

/-- `CFeeRate::GetFee(nSize)`. -/
def GetFee (r : CFeeRate) (nSize : ℕ) : ℤ :=
  let nFee := (r.nSatoshisPerK * nSize).tdiv 1000
  if nFee = 0 ∧ r.nSatoshisPerK > 0 then r.nSatoshisPerK else nFee

/-- `CFeeRate::GetFeePerK()`. -/
def GetFeePerK (r : CFeeRate) : ℤ := r.GetFee 1000

/-- `operator+=`. -/
def add (r a : CFeeRate) : CFeeRate := ⟨r.nSatoshisPerK + a.nSatoshisPerK⟩

@[simp] lemma GetFeePerK_eq (r : CFeeRate) : r.GetFeePerK = r.nSatoshisPerK := by
  simp only [GetFeePerK, GetFee, Nat.cast_ofNat,
    Int.mul_tdiv_cancel _ (by decide : (1000 : ℤ) ≠ 0), ite_self]

end CFeeRate

/-! ## Entries -/

/-- The fields of `CTxMemPoolEntry` that the pool's bookkeeping reads and writes: the
transaction's hash and the outpoints it spends, the fee, size and memory of the transaction,
its entry time, the fee delta of `PrioritiseTransaction`, and the descendant counters (an
entry whose count is zero is dirty, and its counters are not kept). -/
structure CTxMemPoolEntry (H : Type) where
  hash : H
  prevouts : List (H × ℕ)
  nFee : ℤ
  nTxSize : ℕ
  nUsageSize : ℕ
  nTime : ℤ
  feeDelta : ℤ
  nCountWithDescendants : ℤ
  nSizeWithDescendants : ℤ
  nModFeesWithDescendants : ℤ
  deriving Inhabited

namespace CTxMemPoolEntry

variable {H : Type}

/-- `GetModifiedFee()`. -/
def GetModifiedFee (e : CTxMemPoolEntry H) : ℤ := e.nFee + e.feeDelta

/-- `IsDirty()`. -/
def IsDirty (e : CTxMemPoolEntry H) : Bool := e.nCountWithDescendants == 0

/-- `UpdateState(modifySize, modifyFee, modifyCount)`: the counters move, unless the entry is
dirty. -/
def UpdateState (modifySize modifyFee modifyCount : ℤ) (e : CTxMemPoolEntry H) :
    CTxMemPoolEntry H :=
  if !e.IsDirty then
    { e with nSizeWithDescendants := e.nSizeWithDescendants + modifySize
             nModFeesWithDescendants := e.nModFeesWithDescendants + modifyFee
             nCountWithDescendants := e.nCountWithDescendants + modifyCount }
  else e

/-- `UpdateFeeDelta(newFeeDelta)`. -/
def UpdateFeeDelta (newFeeDelta : ℤ) (e : CTxMemPoolEntry H) : CTxMemPoolEntry H :=
  { e with nModFeesWithDescendants := e.nModFeesWithDescendants + (newFeeDelta - e.feeDelta)
           feeDelta := newFeeDelta }

@[simp] lemma hash_UpdateState (a b c : ℤ) (e : CTxMemPoolEntry H) :
    (e.UpdateState a b c).hash = e.hash := by
  unfold UpdateState; split <;> rfl

@[simp] lemma prevouts_UpdateState (a b c : ℤ) (e : CTxMemPoolEntry H) :
    (e.UpdateState a b c).prevouts = e.prevouts := by
  unfold UpdateState; split <;> rfl

@[simp] lemma nTxSize_UpdateState (a b c : ℤ) (e : CTxMemPoolEntry H) :
    (e.UpdateState a b c).nTxSize = e.nTxSize := by
  unfold UpdateState; split <;> rfl

@[simp] lemma nUsageSize_UpdateState (a b c : ℤ) (e : CTxMemPoolEntry H) :
    (e.UpdateState a b c).nUsageSize = e.nUsageSize := by
  unfold UpdateState; split <;> rfl

/-- `CompareTxMemPoolEntryByDescendantScore::UseDescendantScore(a)`: the package's fee rate is
above the transaction's own. -/
def UseDescendantScore (a : CTxMemPoolEntry H) : Bool :=
  decide (a.nModFeesWithDescendants * a.nTxSize > a.GetModifiedFee * a.nSizeWithDescendants)

/-- The fee and the size `CompareTxMemPoolEntryByDescendantScore` scores an entry by. -/
def descendantScore (a : CTxMemPoolEntry H) : ℤ × ℤ :=
  if a.UseDescendantScore then (a.nModFeesWithDescendants, a.nSizeWithDescendants)
  else (a.GetModifiedFee, a.nTxSize)

/-- `CompareTxMemPoolEntryByDescendantScore()(a, b)`: `a` has the lower score, the later entry
time breaking ties. -/
def CompareByDescendantScore (a b : CTxMemPoolEntry H) : Bool :=
  let f1 := a.descendantScore.1 * b.descendantScore.2
  let f2 := a.descendantScore.2 * b.descendantScore.1
  if f1 = f2 then decide (a.nTime ≥ b.nTime) else decide (f1 < f2)

end CTxMemPoolEntry

/-- `CTxMemPool::TxLinks`. -/
structure TxLinks (ι : Type) where
  parents : Finset ι
  children : Finset ι

/-- The state of `CTxMemPool` that trimming reads and writes. `entries it` is `*it`, for the
iterators `it` in `mapTx`; the rolling minimum fee rate is a `double` in the source. -/
structure MemPool (ι H : Type) [LinearOrder ι] [LinearOrder H] where
  mapTx : Finset ι
  entries : ι → CTxMemPoolEntry H
  mapLinks : SortedMap ι (TxLinks ι)
  mapNextTx : Finset (H × ℕ)
  mapDeltas : SortedMap H (ℚ × ℤ)
  totalTxSize : ℤ
  cachedInnerUsage : ℤ
  nTransactionsUpdated : ℕ
  rollingMinimumFeeRate : ℚ
  blockSinceLastRollingFeeBump : Bool

/-! ## Iterating a `setEntries` -/

section SetEntries

variable (ι : Type) [LinearOrder ι]

theorem setEntries_trans : IsTrans ι (· ≤ ·) := inferInstance

theorem setEntries_antisymm : Std.Antisymm (α := ι) (· ≤ ·) := inferInstance

theorem setEntries_total : Std.Total (α := ι) (· ≤ ·) := inferInstance

variable {ι}

/-- The entries of `s` in the order a `setEntries` iterates them: by hash, the order of `ι`. -/
def sortedEntries (s : Finset ι) : List ι :=
  @Finset.sort ι s (· ≤ ·) _ (setEntries_trans ι) (setEntries_antisymm ι) (setEntries_total ι)

@[simp] lemma mem_sortedEntries {s : Finset ι} {a : ι} : a ∈ sortedEntries s ↔ a ∈ s :=
  Finset.mem_sort _

@[simp] lemma sortedEntries_toFinset (s : Finset ι) : (sortedEntries s).toFinset = s :=
  Finset.sort_toFinset _ _

@[simp] lemma length_sortedEntries (s : Finset ι) : (sortedEntries s).length = s.card :=
  Finset.length_sort _

end SetEntries

/-- `nNoLimit`: `std::numeric_limits<uint64_t>::max()`. -/
def nNoLimit : ℕ := 2 ^ 64 - 1

namespace MemPool

variable {ι H : Type} [LinearOrder ι] [LinearOrder H]

/-- The empty pool, as constructed. -/
def empty [Inhabited H] : MemPool ι H :=
  ⟨∅, fun _ => default, SortedMap.empty, ∅, SortedMap.empty, 0, 0, 0, 0, false⟩

section Reading

variable (p : MemPool ι H)

/-- `mapLinks[it]`, or the empty links that `operator[]` inserts. -/
def links (it : ι) : TxLinks ι := (p.mapLinks.find? it).getD ⟨∅, ∅⟩

/-- `GetMemPoolParents(it)`. -/
def GetMemPoolParents (it : ι) : Finset ι := (p.links it).parents

/-- `GetMemPoolChildren(it)`. -/
def GetMemPoolChildren (it : ι) : Finset ι := (p.links it).children

/-- `mapTx.find(hash)`. -/
def find (hash : H) : Option ι := (sortedEntries p.mapTx).find? fun it => (p.entries it).hash = hash

/-- `exists(hash)`. -/
def «exists» (hash : H) : Bool := (p.find hash).isSome

/-- `DynamicMemoryUsage()`: the entries with twelve pointers of index overhead each, the nodes
of `mapNextTx`, `mapDeltas` and `mapLinks`, and `cachedInnerUsage`. -/
def DynamicMemoryUsage (sizes : MemPoolSizes) : ℤ :=
  MallocUsage (sizes.sizeofEntry + 12 * 8) * p.mapTx.card +
    MallocUsage sizes.nextTxNode * p.mapNextTx.card +
    MallocUsage sizes.deltasNode * p.mapDeltas.size +
    MallocUsage sizes.linksNode * p.mapLinks.size + p.cachedInnerUsage

/-- What `CalculateMemPoolAncestors` reads of the pool. Its messages go to a `dummy` string,
so the hashes are not printed. -/
def packages : TxMemPoolPackages H ι where
  find := p.find
  GetMemPoolParents := p.GetMemPoolParents
  GetTxSize it := (p.entries it).nTxSize
  GetSizeWithDescendants it := (p.entries it).nSizeWithDescendants.toNat
  GetCountWithDescendants it := (p.entries it).nCountWithDescendants.toNat
  GetHashString _ := ""

/-- `CalculateMemPoolAncestors(*it, setAncestors, nNoLimit, nNoLimit, nNoLimit, nNoLimit, dummy,
false)`, as `UpdateForRemoveFromMempool` and `PrioritiseTransaction` call it. -/
def ancestorsNoLimit [Fintype ι] (it : ι) : Finset ι :=
  match p.packages.CalculateMemPoolAncestors nNoLimit nNoLimit nNoLimit nNoLimit
      (p.entries it).nTxSize ((p.entries it).prevouts.map Prod.fst) it false with
  | .ok setAncestors => setAncestors
  | .error _ => ∅

/-- `mapTx.get<descendant_score>().begin()`: the entry with the lowest descendant score, or
`none` when the index is empty. -/
def descendantScoreBegin : Option ι :=
  (sortedEntries p.mapTx).foldl (fun best it =>
    match best with
    | none => some it
    | some b =>
      if (p.entries it).CompareByDescendantScore (p.entries b) then some it else some b) none

end Reading

/-! ## Updates of the links and the entries -/

section Updates

variable (sizes : MemPoolSizes) (p : MemPool ι H)

/-- `mapTx.modify(it, f)`. -/
def modifyEntry (it : ι) (f : CTxMemPoolEntry H → CTxMemPoolEntry H) : MemPool ι H :=
  { p with entries := Function.update p.entries it (f (p.entries it)) }

/-- The body shared by `UpdateChild` and `UpdateParent`: add `other` to or erase it from one
link set of `entry` (`mapLinks[entry]` is created if missing), moving `cachedInnerUsage` by one
set node when the set changes. -/
def updateLink (get : TxLinks ι → Finset ι) (set : TxLinks ι → Finset ι → TxLinks ι)
    (entry other : ι) (add : Bool) : MemPool ι H :=
  let l := p.links entry
  if add ∧ other ∉ get l then
    { p with mapLinks := p.mapLinks.insert entry (set l (insert other (get l)))
             cachedInnerUsage := p.cachedInnerUsage + MallocUsage sizes.setEntriesNode }
  else if ¬add ∧ other ∈ get l then
    { p with mapLinks := p.mapLinks.insert entry (set l ((get l).erase other))
             cachedInnerUsage := p.cachedInnerUsage - MallocUsage sizes.setEntriesNode }
  else { p with mapLinks := p.mapLinks.insert entry l }

/-- `UpdateChild(entry, child, add)`. -/
def UpdateChild (entry child : ι) (add : Bool) : MemPool ι H :=
  p.updateLink sizes TxLinks.children (fun l s => { l with children := s }) entry child add

/-- `UpdateParent(entry, parent, add)`. -/
def UpdateParent (entry parent : ι) (add : Bool) : MemPool ι H :=
  p.updateLink sizes TxLinks.parents (fun l s => { l with parents := s }) entry parent add

/-- `UpdateAncestorsOf(add, it, setAncestors)`: `it` joins or leaves the children of each of its
parents, and the descendant counters of each ancestor move by its size, fee and one. -/
def UpdateAncestorsOf (add : Bool) (it : ι) (setAncestors : Finset ι) : MemPool ι H :=
  let parentIters := p.GetMemPoolParents it
  let p := (sortedEntries parentIters).foldl (fun q piter => q.UpdateChild sizes piter it add) p
  let updateCount : ℤ := if add then 1 else -1
  let updateSize := updateCount * (p.entries it).nTxSize
  let updateFee := updateCount * (p.entries it).GetModifiedFee
  (sortedEntries setAncestors).foldl (fun q ancestorIt =>
    q.modifyEntry ancestorIt (CTxMemPoolEntry.UpdateState updateSize updateFee updateCount)) p

/-- `UpdateChildrenForRemoval(it)`: `it` leaves the parents of each of its children. -/
def UpdateChildrenForRemoval (it : ι) : MemPool ι H :=
  (sortedEntries (p.GetMemPoolChildren it)).foldl
    (fun q updateIt => q.UpdateParent sizes updateIt it false) p

/-- `UpdateForRemoveFromMempool(entriesToRemove)`: first the ancestors' counters and the links
from the parents, entry by entry, then the links from the children. -/
def UpdateForRemoveFromMempool [Fintype ι] (entriesToRemove : Finset ι) : MemPool ι H :=
  let p := (sortedEntries entriesToRemove).foldl (fun q removeIt =>
    q.UpdateAncestorsOf sizes false removeIt (q.ancestorsNoLimit removeIt)) p
  (sortedEntries entriesToRemove).foldl (fun q removeIt => q.UpdateChildrenForRemoval sizes removeIt) p

/-- `removeUnchecked(it)`: the entry's outpoints leave `mapNextTx`, its memory and that of its
link sets leave `cachedInnerUsage`, and it leaves `mapLinks` and `mapTx`. -/
def removeUnchecked (it : ι) : MemPool ι H :=
  let e := p.entries it
  let l := p.links it
  { p with
    mapNextTx := p.mapNextTx \ e.prevouts.toFinset
    totalTxSize := p.totalTxSize - e.nTxSize
    cachedInnerUsage := p.cachedInnerUsage - e.nUsageSize -
      (MallocUsage sizes.setEntriesNode * l.parents.card +
        MallocUsage sizes.setEntriesNode * l.children.card)
    mapLinks := p.mapLinks.erase it
    mapTx := p.mapTx.erase it
    nTransactionsUpdated := p.nTransactionsUpdated + 1 }

/-- `RemoveStaged(stage)`. -/
def RemoveStaged [Fintype ι] (stage : Finset ι) : MemPool ι H :=
  ((sortedEntries stage).foldl (fun q it => q.removeUnchecked sizes it)
    (p.UpdateForRemoveFromMempool sizes stage))

end Updates

/-! ## What the updates leave alone -/

section Frame

variable (sizes : MemPoolSizes) (p : MemPool ι H)

@[simp] lemma mapTx_modifyEntry (it : ι) (f : CTxMemPoolEntry H → CTxMemPoolEntry H) :
    (p.modifyEntry it f).mapTx = p.mapTx := rfl

@[simp] lemma mapTx_updateLink (get : TxLinks ι → Finset ι)
    (set : TxLinks ι → Finset ι → TxLinks ι) (entry other : ι) (add : Bool) :
    (p.updateLink sizes get set entry other add).mapTx = p.mapTx := by
  unfold updateLink
  dsimp only
  split_ifs <;> rfl

@[simp] lemma mapTx_UpdateChild (entry child : ι) (add : Bool) :
    (p.UpdateChild sizes entry child add).mapTx = p.mapTx := mapTx_updateLink ..

@[simp] lemma mapTx_UpdateParent (entry parent : ι) (add : Bool) :
    (p.UpdateParent sizes entry parent add).mapTx = p.mapTx := mapTx_updateLink ..

/-- A fold of updates that each keep one field keeps it. -/
lemma foldl_field {α β : Type} (g : MemPool ι H → β) (f : MemPool ι H → α → MemPool ι H)
    (hf : ∀ q a, g (f q a) = g q) : ∀ (l : List α) (q : MemPool ι H), g (l.foldl f q) = g q
  | [], _ => rfl
  | a :: l, q => by rw [List.foldl_cons, foldl_field g f hf l, hf]

@[simp] lemma mapTx_UpdateAncestorsOf (add : Bool) (it : ι) (A : Finset ι) :
    (p.UpdateAncestorsOf sizes add it A).mapTx = p.mapTx := by
  unfold UpdateAncestorsOf
  dsimp only
  rw [foldl_field MemPool.mapTx _ (fun _ _ => mapTx_modifyEntry ..),
    foldl_field MemPool.mapTx _ (fun _ _ => mapTx_UpdateChild ..)]

@[simp] lemma mapTx_UpdateChildrenForRemoval (it : ι) :
    (p.UpdateChildrenForRemoval sizes it).mapTx = p.mapTx :=
  foldl_field MemPool.mapTx _ (fun _ _ => mapTx_UpdateParent ..) _ _

@[simp] lemma mapTx_UpdateForRemoveFromMempool [Fintype ι] (S : Finset ι) :
    (p.UpdateForRemoveFromMempool sizes S).mapTx = p.mapTx := by
  unfold UpdateForRemoveFromMempool
  dsimp only
  rw [foldl_field MemPool.mapTx _ (fun _ _ => mapTx_UpdateChildrenForRemoval ..),
    foldl_field MemPool.mapTx _ (fun _ _ => mapTx_UpdateAncestorsOf ..)]

/-- A fold of updates of entries changes only the entries. -/
lemma foldl_modifyEntry_eq (F : CTxMemPoolEntry H → CTxMemPoolEntry H) :
    ∀ (l : List ι) (q : MemPool ι H),
      ∃ entries, l.foldl (fun q it => q.modifyEntry it F) q = { q with entries := entries }
  | [], q => ⟨q.entries, rfl⟩
  | it :: l, q => by
    obtain ⟨entries, h⟩ := foldl_modifyEntry_eq F l (q.modifyEntry it F)
    exact ⟨entries, by rw [List.foldl_cons, h]; rfl⟩

@[simp] lemma mapTx_removeUnchecked (it : ι) :
    (p.removeUnchecked sizes it).mapTx = p.mapTx.erase it := rfl

/-- **`RemoveStaged` takes out exactly the staged entries.** -/
theorem mapTx_RemoveStaged [Fintype ι] (stage : Finset ι) :
    (p.RemoveStaged sizes stage).mapTx = p.mapTx \ stage := by
  have hfold : ∀ (l : List ι) (q : MemPool ι H),
      (l.foldl (fun q it => q.removeUnchecked sizes it) q).mapTx = q.mapTx \ l.toFinset := by
    intro l
    induction l with
    | nil => intro q; simp
    | cons a l ih =>
      intro q
      rw [List.foldl_cons, ih, mapTx_removeUnchecked, List.toFinset_cons, Finset.sdiff_insert,
        Finset.erase_sdiff_comm]
  rw [RemoveStaged, hfold, mapTx_UpdateForRemoveFromMempool, sortedEntries_toFinset]

end Frame

/-! ## The search for descendants -/

section Descendants

/-- The stage of the next round stays apart from the entries found: the entry moved leaves it,
and only children not yet found join it. -/
lemma disjoint_descendantsStage {stage D : Finset ι} {it : ι} (T : Finset ι)
    (hdisj : Disjoint stage D) :
    Disjoint (stage.erase it ∪ T.filter (· ∉ insert it D)) (insert it D) := by
  rw [Finset.disjoint_left]
  intro x hx hxD
  rcases Finset.mem_union.1 hx with hx | hx
  · obtain ⟨hxit, hx⟩ := Finset.mem_erase.1 hx
    rcases Finset.mem_insert.1 hxD with rfl | hxD
    · exact hxit rfl
    · exact Finset.disjoint_left.1 hdisj hx hxD
  · exact (Finset.mem_filter.1 hx).2 hxD

variable (p : MemPool ι H)

/-- The `while (!stage.empty())` loop of `CalculateDescendants`: move the least entry of the
stage into `setDescendants`, and stage its children not found yet. -/
def calculateDescendantsLoop [Fintype ι] (stage setDescendants : Finset ι)
    (hdisj : Disjoint stage setDescendants) : Finset ι :=
  if hne : stage.Nonempty then
    let it := stage.min' hne
    calculateDescendantsLoop
      (stage.erase it ∪ (p.GetMemPoolChildren it).filter (· ∉ insert it setDescendants))
      (insert it setDescendants) (disjoint_descendantsStage _ hdisj)
  else setDescendants
termination_by (Finset.univ \ setDescendants).card
decreasing_by
  exact TxMemPoolPackages.card_sdiff_insert_lt
    (Finset.disjoint_left.1 hdisj (stage.min'_mem hne))

variable [Fintype ι]

/-- `CalculateDescendants(entryit, setDescendants)`: the search starts from `entryit` unless it
is already found. -/
def CalculateDescendants (entryit : ι) (setDescendants : Finset ι) : Finset ι :=
  if h : entryit ∉ setDescendants then
    p.calculateDescendantsLoop {entryit} setDescendants (Finset.disjoint_singleton_left.2 h)
  else p.calculateDescendantsLoop ∅ setDescendants (Finset.disjoint_empty_left _)

/-- The in-pool descendants of `it`, `it` included. -/
noncomputable def descendants (it : ι) : Finset ι := reachFinset p.GetMemPoolChildren {it}

/-- The invariant of the search from `root` with `S` found before it, `stage` to visit and `D`
found: `S` stays found, everything staged or found is in `S` or a descendant, the children of
everything found are staged or found, and `root` is staged or found. -/
structure DescendantsInv (S : Finset ι) (root : ι) (stage D : Finset ι) : Prop where
  before : S ⊆ D
  found : stage ∪ D ⊆ S ∪ p.descendants root
  children_found : ∀ d ∈ D, p.GetMemPoolChildren d ⊆ stage ∪ D
  root_found : root ∈ stage ∪ D

variable {p}

lemma DescendantsInv.init {S : Finset ι} (hS : ∀ s ∈ S, p.GetMemPoolChildren s ⊆ S) (root : ι) :
    p.DescendantsInv S root (if root ∉ S then {root} else ∅) S where
  before := Finset.Subset.refl S
  found := by
    have hroot : root ∈ p.descendants root := subset_reachFinset _ (Finset.mem_singleton_self _)
    split_ifs
    · rw [Finset.empty_union]
      exact Finset.subset_union_left
    · exact Finset.union_subset (Finset.singleton_subset_iff.2 (Finset.mem_union_right _ hroot))
        Finset.subset_union_left
  children_found := fun s hs => (hS s hs).trans Finset.subset_union_right
  root_found := by
    split_ifs with h
    · exact Finset.mem_union_right _ h
    · exact Finset.mem_union_left _ (Finset.mem_singleton_self _)

/-- **One round keeps the invariant.** The entry moved is in `S` or a descendant, and so are its
children: `S` is closed under children, and so is the set of descendants. -/
lemma DescendantsInv.step {S stage D : Finset ι} {root : ι} (hS : ∀ s ∈ S, p.GetMemPoolChildren s ⊆ S)
    (inv : p.DescendantsInv S root stage D) (hne : stage.Nonempty) :
    p.DescendantsInv S root
      (stage.erase (stage.min' hne) ∪
        (p.GetMemPoolChildren (stage.min' hne)).filter (· ∉ insert (stage.min' hne) D))
      (insert (stage.min' hne) D) := by
  set m := stage.min' hne
  have hm : m ∈ stage := stage.min'_mem hne
  -- the stage of the next round with the entries found is the old one with `m`'s children
  have hunion : (stage.erase m ∪ (p.GetMemPoolChildren m).filter (· ∉ insert m D)) ∪
      insert m D = stage ∪ D ∪ p.GetMemPoolChildren m := by
    ext x
    simp only [Finset.mem_union, Finset.mem_erase, Finset.mem_filter, Finset.mem_insert]
    by_cases hx : x = m
    · subst hx; simp only [hm, true_or, or_true]
    · simp only [hx, false_or, ne_eq, not_false_eq_true, true_and]; tauto
  refine ⟨inv.before.trans (Finset.subset_insert _ _), ?_, ?_, ?_⟩
  · rw [hunion]
    refine Finset.union_subset inv.found ?_
    rcases Finset.mem_union.1 (inv.found (Finset.mem_union_left _ hm)) with hmS | hmR
    · exact (hS m hmS).trans Finset.subset_union_left
    · exact (next_subset_reachFinset _ hmR).trans Finset.subset_union_right
  · intro d hd
    rw [hunion]
    rcases Finset.mem_insert.1 hd with rfl | hd
    · exact Finset.subset_union_right
    · exact (inv.children_found d hd).trans Finset.subset_union_left
  · rw [hunion]
    exact Finset.mem_union_left _ inv.root_found

/-- **The search ends with the descendants.** From a state with the invariant, the loop returns
`S` with the descendants of `root`.

**Proof sketch.** Recursion along the loop. With nothing staged, the entries found hold `S`
and `root` and the children of each, so they hold every descendant, and they hold nothing
else. -/
theorem calculateDescendantsLoop_eq {S : Finset ι} {root : ι}
    (hS : ∀ s ∈ S, p.GetMemPoolChildren s ⊆ S) (stage D : Finset ι)
    (hdisj : Disjoint stage D) (inv : p.DescendantsInv S root stage D) :
    p.calculateDescendantsLoop stage D hdisj = S ∪ p.descendants root := by
  rw [calculateDescendantsLoop]
  by_cases hne : stage.Nonempty
  · rw [dif_pos hne]
    exact calculateDescendantsLoop_eq hS _ _ _ (inv.step hS hne)
  · rw [dif_neg hne]
    obtain rfl : stage = ∅ := Finset.not_nonempty_iff_eq_empty.1 hne
    have hfound : D ⊆ S ∪ p.descendants root := by simpa only [Finset.empty_union] using inv.found
    have hclosed : ∀ d ∈ D, p.GetMemPoolChildren d ⊆ D := by
      simpa only [Finset.empty_union] using inv.children_found
    have hroot : root ∈ D := by simpa only [Finset.empty_union] using inv.root_found
    refine Finset.Subset.antisymm hfound (Finset.union_subset inv.before fun x hx => ?_)
    exact Reach.mem_of_closed (Finset.singleton_subset_iff.2 hroot) hclosed
      ((mem_reachFinset _).1 hx)
termination_by (Finset.univ \ D).card
decreasing_by
  exact TxMemPoolPackages.card_sdiff_insert_lt (Finset.disjoint_left.1 hdisj (stage.min'_mem hne))

/-- **`CalculateDescendants` adds the descendants.** To a set `S` that holds the children of
each of its entries, the search adds the descendants of `entryit`. -/
theorem CalculateDescendants_eq {S : Finset ι} (hS : ∀ s ∈ S, p.GetMemPoolChildren s ⊆ S)
    (entryit : ι) : p.CalculateDescendants entryit S = S ∪ p.descendants entryit := by
  rw [CalculateDescendants]
  have inv := DescendantsInv.init hS entryit
  split_ifs at inv ⊢
  · exact calculateDescendantsLoop_eq hS _ _ _ inv
  · exact calculateDescendantsLoop_eq hS _ _ _ inv

lemma mem_descendants_self (it : ι) : it ∈ p.descendants it :=
  subset_reachFinset _ (Finset.mem_singleton_self _)

end Descendants

/-! ## The rolling minimum fee and the first entry of the index -/

section Begin

variable (p : MemPool ι H)

/-- `trackPackageRemoved(rate)`: a higher fee rate becomes the rolling minimum. -/
def trackPackageRemoved (rate : CFeeRate) : MemPool ι H :=
  if (rate.GetFeePerK : ℚ) > p.rollingMinimumFeeRate then
    { p with rollingMinimumFeeRate := rate.GetFeePerK, blockSinceLastRollingFeeBump := false }
  else p

@[simp] lemma mapTx_trackPackageRemoved (rate : CFeeRate) :
    (p.trackPackageRemoved rate).mapTx = p.mapTx := by
  unfold trackPackageRemoved; split_ifs <;> rfl

@[simp] lemma GetMemPoolChildren_trackPackageRemoved (rate : CFeeRate) :
    (p.trackPackageRemoved rate).GetMemPoolChildren = p.GetMemPoolChildren := by
  unfold trackPackageRemoved; split_ifs <;> rfl

/-- `trackPackageRemoved` sets the rolling minimum fee rate to the larger of the two. -/
lemma rollingMinimumFeeRate_trackPackageRemoved (rate : CFeeRate) :
    (p.trackPackageRemoved rate).rollingMinimumFeeRate =
      max p.rollingMinimumFeeRate (rate.GetFeePerK : ℚ) := by
  unfold trackPackageRemoved
  split_ifs with h
  · exact (max_eq_right h.le).symm
  · exact (max_eq_left (not_lt.1 h)).symm

/-- The step of the fold that finds `begin()`: the entry so far, or the next one if it compares
lower. -/
def beginStep (best : Option ι) (it : ι) : Option ι :=
  match best with
  | none => some it
  | some b => if (p.entries it).CompareByDescendantScore (p.entries b) then some it else some b

/-- The fold finds nothing only from nothing over no entry, and what it finds is an entry or
what it started from. -/
lemma foldl_beginStep : ∀ (l : List ι) (best : Option ι),
    (l.foldl p.beginStep best = none ↔ l = [] ∧ best = none) ∧
      ∀ it, l.foldl p.beginStep best = some it → it ∈ l ∨ best = some it
  | [], best => by simp
  | a :: l, best => by
    obtain ⟨_, hmem⟩ := foldl_beginStep l (p.beginStep best a)
    -- a step always finds an entry: `a` or the one before
    have hstep : p.beginStep best a = some a ∨
        ∃ b, best = some b ∧ p.beginStep best a = some b := by
      rcases best with _ | b
      · exact Or.inl rfl
      · by_cases hc : (p.entries a).CompareByDescendantScore (p.entries b)
        · exact Or.inl (by simp only [beginStep, hc, if_true])
        · exact Or.inr ⟨b, rfl, by simp only [beginStep, hc, Bool.false_eq_true, if_false]⟩
    refine ⟨?_, fun it h => ?_⟩
    · simp only [List.foldl_cons, reduceCtorEq, false_and, iff_false]
      intro hnone
      rcases (foldl_beginStep l _).1.1 hnone with ⟨-, h⟩
      rcases hstep with h' | ⟨b, -, h'⟩ <;> rw [h'] at h <;> cases h
    · rcases hmem it h with hl | hb
      · exact Or.inl (List.mem_cons_of_mem _ hl)
      · rcases hstep with h' | ⟨b, rfl, h'⟩
        · rw [h'] at hb
          exact Or.inl (Option.some_inj.1 hb ▸ List.mem_cons_self ..)
        · rw [h'] at hb
          exact Or.inr hb

lemma descendantScoreBegin_eq_foldl :
    p.descendantScoreBegin = (sortedEntries p.mapTx).foldl p.beginStep none := rfl

/-- `begin()` is an end iterator exactly when the index is empty. -/
theorem descendantScoreBegin_eq_none_iff : p.descendantScoreBegin = none ↔ p.mapTx = ∅ := by
  rw [descendantScoreBegin_eq_foldl, (foldl_beginStep p _ _).1, and_iff_left rfl,
    ← List.length_eq_zero_iff, length_sortedEntries, Finset.card_eq_zero]

theorem mem_of_descendantScoreBegin {it : ι} (h : p.descendantScoreBegin = some it) :
    it ∈ p.mapTx := by
  rw [descendantScoreBegin_eq_foldl] at h
  rcases (foldl_beginStep p _ _).2 it h with hl | hb
  · exact mem_sortedEntries.1 hl
  · cases hb

end Begin

/-! ## Trimming -/

section Trim

variable [Fintype ι] (sizes : MemPoolSizes) (minReasonableRelayFee : CFeeRate)

/-- The `pvNoSpendsRemaining` loop over the removed transactions `txn`, in the pool `p` left
after the removal: each previous transaction that is not in the pool and has no output spent
in it (`mapNextTx.lower_bound(COutPoint(hash, 0))` meets another hash). -/
def noSpendsRemaining (p : MemPool ι H) (txn : List (CTxMemPoolEntry H)) : List H :=
  txn.flatMap fun tx => (tx.prevouts.filter fun o =>
    !p.exists o.1 && decide (∀ o' ∈ p.mapNextTx, o'.1 ≠ o.1)).map Prod.fst

/-- One round of the `while` loop of `TrimToSize` from the entry `it` first in the index: the
fee rate of its package plus `minReasonableRelayFee` is tracked, and the package leaves the
pool. Returns the pool and the transactions removed, in the order of the stage. -/
def trimRound (p : MemPool ι H) (it : ι) : MemPool ι H × List (CTxMemPoolEntry H) :=
  let e := p.entries it
  let removed := (CFeeRate.ofFeePaid e.nModFeesWithDescendants
    e.nSizeWithDescendants.toNat).add minReasonableRelayFee
  let p := p.trackPackageRemoved removed
  let stage := p.CalculateDescendants it ∅
  (p.RemoveStaged sizes stage, (sortedEntries stage).map p.entries)

/-- What a round removes: `it` with its descendants. -/
theorem mapTx_trimRound (p : MemPool ι H) (it : ι) :
    (p.trimRound sizes minReasonableRelayFee it).1.mapTx = p.mapTx \ p.descendants it := by
  set q := p.trackPackageRemoved ((CFeeRate.ofFeePaid (p.entries it).nModFeesWithDescendants
    (p.entries it).nSizeWithDescendants.toNat).add minReasonableRelayFee) with hq
  have hstage : q.CalculateDescendants it ∅ = q.descendants it := by
    rw [CalculateDescendants_eq (fun s hs => absurd hs (Finset.notMem_empty s)),
      Finset.empty_union]
  -- the tracked fee rate leaves the links alone
  have hdesc : q.descendants it = p.descendants it := by
    rw [hq, descendants, descendants, GetMemPoolChildren_trackPackageRemoved]
  show (q.RemoveStaged sizes (q.CalculateDescendants it ∅)).mapTx = _
  rw [mapTx_RemoveStaged, hstage, hdesc, hq, mapTx_trackPackageRemoved]

/-- A round from an entry of the pool removes at least that entry. -/
lemma card_mapTx_trimRound_lt {p : MemPool ι H} {it : ι} (hit : it ∈ p.mapTx) :
    (p.trimRound sizes minReasonableRelayFee it).1.mapTx.card < p.mapTx.card := by
  rw [mapTx_trimRound]
  exact Finset.card_lt_card ⟨Finset.sdiff_subset, fun h =>
    (Finset.mem_sdiff.1 (h hit)).2 (mem_descendants_self it)⟩

variable (sizelimit : ℕ)

/-- The `while (DynamicMemoryUsage() > sizelimit)` loop of `TrimToSize`, with the hashes pushed
to `pvNoSpendsRemaining` so far; `none` where it takes `begin()` of the empty index. -/
def trimLoop (p : MemPool ι H) (vNoSpendsRemaining : List H) : Option (MemPool ι H × List H) :=
  if p.DynamicMemoryUsage sizes > sizelimit then
    match hbegin : p.descendantScoreBegin with
    | none => none
    | some it =>
      have : it ∈ p.mapTx := mem_of_descendantScoreBegin p hbegin
      let r := p.trimRound sizes minReasonableRelayFee it
      trimLoop r.1 (vNoSpendsRemaining ++ r.1.noSpendsRemaining r.2)
  else some (p, vNoSpendsRemaining)
termination_by p.mapTx.card
decreasing_by exact card_mapTx_trimRound_lt sizes minReasonableRelayFee this

/-- `TrimToSize(sizelimit, pvNoSpendsRemaining)`: the pool left and the hashes pushed to
`pvNoSpendsRemaining`, or `none` where the loop takes `begin()` of the empty index. -/
def TrimToSize (p : MemPool ι H) : Option (MemPool ι H × List H) :=
  p.trimLoop sizes minReasonableRelayFee sizelimit []

end Trim

/-! ## Prioritisation, expiry and clearing -/

section Operations

variable [Fintype ι] (sizes : MemPoolSizes) (p : MemPool ι H)

/-- `PrioritiseTransaction(hash, strHash, dPriorityDelta, nFeeDelta)`: the deltas of `hash`
grow, whether it is in the pool or not; an entry in the pool takes the new fee delta, and its
ancestors' fees with descendants move by `nFeeDelta`. -/
def PrioritiseTransaction (hash : H) (dPriorityDelta : ℚ) (nFeeDelta : ℤ) : MemPool ι H :=
  let deltas := (p.mapDeltas.find? hash).getD (0, 0)
  let deltas := (deltas.1 + dPriorityDelta, deltas.2 + nFeeDelta)
  let p := { p with mapDeltas := p.mapDeltas.insert hash deltas }
  match p.find hash with
  | some it =>
    let p := p.modifyEntry it (CTxMemPoolEntry.UpdateFeeDelta deltas.2)
    (sortedEntries (p.ancestorsNoLimit it)).foldl (fun q ancestorIt =>
      q.modifyEntry ancestorIt (CTxMemPoolEntry.UpdateState 0 nFeeDelta 0)) p
  | none => p

/-- `PrioritiseTransaction` changes the deltas of `hash` and the entries, and nothing else. -/
lemma PrioritiseTransaction_eq (hash : H) (dPriorityDelta : ℚ) (nFeeDelta : ℤ) :
    ∃ entries, p.PrioritiseTransaction hash dPriorityDelta nFeeDelta =
      { p with mapDeltas := p.mapDeltas.insert hash
                 (((p.mapDeltas.find? hash).getD (0, 0)).1 + dPriorityDelta,
                  ((p.mapDeltas.find? hash).getD (0, 0)).2 + nFeeDelta)
               entries := entries } := by
  unfold PrioritiseTransaction
  dsimp only
  split
  · exact (foldl_modifyEntry_eq (CTxMemPoolEntry.UpdateState 0 nFeeDelta 0) _ _).imp
      fun entries h => by rw [h]; rfl
  · exact ⟨p.entries, rfl⟩

@[simp] lemma mapTx_PrioritiseTransaction (hash : H) (dPriorityDelta : ℚ) (nFeeDelta : ℤ) :
    (p.PrioritiseTransaction hash dPriorityDelta nFeeDelta).mapTx = p.mapTx := by
  obtain ⟨_, h⟩ := p.PrioritiseTransaction_eq hash dPriorityDelta nFeeDelta
  rw [h]

/-- **A prioritisation of a new hash costs a node of `mapDeltas`**, whether or not the
transaction is in the pool. -/
theorem DynamicMemoryUsage_PrioritiseTransaction (hash : H) (dPriorityDelta : ℚ)
    (nFeeDelta : ℤ) :
    (p.PrioritiseTransaction hash dPriorityDelta nFeeDelta).DynamicMemoryUsage sizes =
      p.DynamicMemoryUsage sizes +
        if p.mapDeltas.find? hash = none then (MallocUsage sizes.deltasNode : ℤ) else 0 := by
  obtain ⟨_, h⟩ := p.PrioritiseTransaction_eq hash dPriorityDelta nFeeDelta
  have hsize := SortedMap.size_insert_add p.mapDeltas hash
    (((p.mapDeltas.find? hash).getD (0, 0)).1 + dPriorityDelta,
      ((p.mapDeltas.find? hash).getD (0, 0)).2 + nFeeDelta)
  rw [h]
  unfold DynamicMemoryUsage
  dsimp only
  cases hf : p.mapDeltas.find? hash with
  | none =>
    rw [hf, SortedMap.share_none, Nat.add_zero] at hsize
    rw [if_pos rfl, hsize]
    push_cast
    ring
  | some v =>
    rw [hf, SortedMap.share_some] at hsize
    rw [if_neg (Option.some_ne_none v), show (p.mapDeltas.insert hash _).size = p.mapDeltas.size
      by omega]
    ring

/-- `ClearPrioritisation(hash)`. -/
def ClearPrioritisation (hash : H) : MemPool ι H :=
  { p with mapDeltas := p.mapDeltas.erase hash }

/-- `Expire(time)`: the entries that entered before `time`, with their descendants, leave the
pool; returns the pool and the number removed. -/
def Expire (time : ℤ) : MemPool ι H × ℕ :=
  let toremove := p.mapTx.filter fun it => (p.entries it).nTime < time
  let stage := (sortedEntries toremove).foldl
    (fun stage removeit => p.CalculateDescendants removeit stage) ∅
  (p.RemoveStaged sizes stage, stage.card)

/-- `_clear()`: every container but `mapDeltas` is emptied. -/
def clear : MemPool ι H :=
  { p with mapLinks := SortedMap.empty, mapTx := ∅, mapNextTx := ∅, totalTxSize := 0,
           cachedInnerUsage := 0, blockSinceLastRollingFeeBump := false,
           rollingMinimumFeeRate := 0, nTransactionsUpdated := p.nTransactionsUpdated + 1 }

end Operations

/-! ## The loop over an empty index -/

section EmptyIndex

variable [Fintype ι] (sizes : MemPoolSizes) (minReasonableRelayFee : CFeeRate)

/-- **With no entry left above the limit, the loop takes `begin()` of the empty index.** The
loop tests only the usage, and the usage also counts `mapDeltas`, which no removal shrinks. -/
theorem TrimToSize_derefs_empty_index (sizelimit : ℕ) (p : MemPool ι H) (hempty : p.mapTx = ∅)
    (hover : (sizelimit : ℤ) < p.DynamicMemoryUsage sizes) :
    p.TrimToSize sizes minReasonableRelayFee sizelimit = none := by
  have hbegin : p.descendantScoreBegin = none := (descendantScoreBegin_eq_none_iff p).2 hempty
  rw [TrimToSize, trimLoop, if_pos hover]
  split
  · rfl
  · rename_i it h
    rw [hbegin] at h
    cases h

end EmptyIndex

end MemPool

instance : Inhabited Blob := ⟨(0 : uint256)⟩

/-- The sizes on x86-64 with libstdc++: `sizeof(CTxMemPoolEntry)` is 240 bytes, and a tree node
is a header of 32 bytes with its value (`COutPoint` and `CInPoint`, 56 bytes; a `uint256` with
its two deltas, 48; an iterator with two `setEntries`, 104; an iterator, 8). -/
def sizesLinux64 : MemPoolSizes := ⟨240, 88, 80, 136, 40⟩

theorem TrimToSize_derefs_empty_index_after_prioritise :
    ((MemPool.empty : MemPool (Fin 1) Blob).PrioritiseTransaction default 0 0).mapTx = ∅ ∧
      (0 : ℤ) < ((MemPool.empty : MemPool (Fin 1) Blob).PrioritiseTransaction default 0 0
        ).DynamicMemoryUsage sizesLinux64 ∧
      ((MemPool.empty : MemPool (Fin 1) Blob).PrioritiseTransaction default 0 0).TrimToSize
        sizesLinux64 ⟨1000⟩ 0 = none := by
  have hempty : ((MemPool.empty : MemPool (Fin 1) Blob).PrioritiseTransaction default 0 0
      ).mapTx = ∅ := by rw [MemPool.mapTx_PrioritiseTransaction]; rfl
  have hover : (0 : ℤ) < ((MemPool.empty : MemPool (Fin 1) Blob).PrioritiseTransaction
      default 0 0).DynamicMemoryUsage sizesLinux64 := by
    have hnone : (MemPool.empty : MemPool (Fin 1) Blob).mapDeltas.find? default = none := rfl
    rw [MemPool.DynamicMemoryUsage_PrioritiseTransaction, if_pos hnone]
    decide
  exact ⟨hempty, hover, MemPool.TrimToSize_derefs_empty_index _ _ 0 _ hempty hover⟩

end MvfBu
