import Mathlib
import MvfBu.Lib.ExceptLemmas
import MvfBu.Lib.Reach

set_option autoImplicit false

/-!
# The ancestor search of the memory pool (`CTxMemPool::CalculateMemPoolAncestors`)

Before a transaction enters the pool, `CalculateMemPoolAncestors` collects its in-pool
ancestors and checks the package limits: the number and total size of the transaction with
its ancestors, and for each ancestor the size and number of its descendants with the new
transaction added. It starts from the parents found by looking up each input's previous
transaction in `mapTx` (or, for an entry already in the pool, from its `mapLinks` parents),
and then walks the parents breadth-first from a set `parentHashes` of entries still to visit,
moving each into `setAncestors`. The count of ancestors is checked after every parent the walk
meets, the descendant limits and the running size after every entry it moves.

The walk finds exactly the in-pool ancestors, and it succeeds exactly when the limits hold,
with one exception: the size and count limits are checked only as the walk meets ancestors, so
a transaction with no in-pool ancestor passes even when it alone exceeds them
(`CalculateMemPoolAncestors_unchecked_without_parents`), although the options document the
limits as counting the transaction with its ancestors.

## Main definitions

* `MvfBu.TxMemPoolPackages` — what the search reads of the pool.
* `MvfBu.TxMemPoolPackages.CalculateMemPoolAncestors`, with `searchParents`, `addParents` and
  the loop `ancestorLoop`.
* `MvfBu.TxMemPoolPackages.WithinLimits` — the limits on a set of ancestors.

## Main results

* `MvfBu.TxMemPoolPackages.CalculateMemPoolAncestors_exact` — the search returns the in-pool
  ancestors, and succeeds exactly when they are within the limits.
* `MvfBu.TxMemPoolPackages.CalculateMemPoolAncestors_unchecked_without_parents` — an entry
  with no in-pool parent passes whatever its size and whatever the limits.

## Implementation notes

`setEntries` is a set of iterators ordered by transaction hash; here it is a `Finset` over a
finite linear order of entries, `*parentHashes.begin()` its least element and the parents of an
entry are visited in increasing order. The caller's `setAncestors` starts empty, as at every
call in the source. The loop is total: each round moves one entry that is not yet an ancestor
into `setAncestors`, which the disjointness of the two sets, carried as an argument, shows.
-/

namespace MvfBu

open Except

/-- What `CalculateMemPoolAncestors` reads of the pool: `mapTx.find` by transaction hash, the
in-pool parents of an entry (`GetMemPoolParents`, from `mapLinks`), the size and the
descendant counters of an entry, and its hash as text for the messages. -/
structure TxMemPoolPackages (H ι : Type) where
  find : H → Option ι
  GetMemPoolParents : ι → Finset ι
  GetTxSize : ι → ℕ
  GetSizeWithDescendants : ι → ℕ
  GetCountWithDescendants : ι → ℕ
  GetHashString : ι → String

namespace TxMemPoolPackages

variable {H ι : Type} [LinearOrder ι] (pool : TxMemPoolPackages H ι)
  (limitAncestorCount limitAncestorSize limitDescendantCount limitDescendantSize : ℕ)

/-! ## Finding the parents -/

/-- One input met by the search for parents: a previous transaction in the pool joins
`parentHashes`, and the parents with the entry must stay within the ancestor count. -/
def searchParent (parentHashes : Finset ι) (hash : H) : Except String (Finset ι) :=
  match pool.find hash with
  | some piter =>
    let parentHashes := insert piter parentHashes
    if parentHashes.card + 1 > limitAncestorCount then
      throw ("too many unconfirmed parents [limit: " ++ toString limitAncestorCount ++ "]")
    else pure parentHashes
  | none => pure parentHashes

/-- The search of the inputs for in-pool parents (`fSearchForParents`). -/
def searchParents (prevouts : List H) : Except String (Finset ι) :=
  prevouts.foldlM (pool.searchParent limitAncestorCount) ∅

/-- What the search for parents returns from the parents `Q` found so far: the previous
transactions in the pool added to `Q`, once the count after the last one found is within the
limit. -/
lemma foldlM_searchParent_eq_ok_iff {P : Finset ι} :
    ∀ {l : List H} {Q : Finset ι}, l.foldlM (pool.searchParent limitAncestorCount) Q = .ok P ↔
      P = Q ∪ (l.filterMap pool.find).toFinset ∧
        (l.filterMap pool.find ≠ [] → P.card + 1 ≤ limitAncestorCount)
  | [], Q => by
    simp only [List.foldlM_nil, pure_eq_ok, List.filterMap_nil, List.toFinset_nil,
      Finset.union_empty, ne_eq, not_true_eq_false, IsEmpty.forall_iff, and_true]
    exact ⟨fun h => (Except.ok.inj h).symm, fun h => h ▸ rfl⟩
  | hash :: l, Q => by
    rw [List.foldlM_cons, searchParent]
    cases hfind : pool.find hash with
    | none =>
      rw [pure_eq_ok, ok_bind, List.filterMap_cons_none hfind]
      exact foldlM_searchParent_eq_ok_iff
    | some piter =>
      -- `piter` is found: the count is checked with it
      dsimp only
      rw [List.filterMap_cons_some hfind, List.toFinset_cons, Finset.union_insert,
        ← Finset.insert_union]
      by_cases hlim : (insert piter Q).card + 1 > limitAncestorCount
      · rw [if_pos hlim, throw_eq_error, error_bind]
        refine ⟨fun h => (nomatch h), fun ⟨hP, hcard⟩ => ?_⟩
        have hle : (insert piter Q).card ≤ P.card := by
          rw [hP]
          exact Finset.card_le_card Finset.subset_union_left
        have := hcard (List.cons_ne_nil _ _)
        omega
      · rw [if_neg hlim, pure_eq_ok, ok_bind, foldlM_searchParent_eq_ok_iff]
        constructor
        · rintro ⟨rfl, hcard⟩
          refine ⟨rfl, fun _ => ?_⟩
          rcases eq_or_ne (l.filterMap pool.find) [] with hnil | hne
          · rw [hnil, List.toFinset_nil, Finset.union_empty]
            omega
          · exact hcard hne
        · rintro ⟨rfl, hcard⟩
          exact ⟨rfl, fun _ => hcard (List.cons_ne_nil _ _)⟩

lemma searchParents_eq_ok_iff {prevouts : List H} {P : Finset ι} :
    pool.searchParents limitAncestorCount prevouts = .ok P ↔
      P = (prevouts.filterMap pool.find).toFinset ∧
        (P.Nonempty → P.card + 1 ≤ limitAncestorCount) := by
  rw [searchParents, foldlM_searchParent_eq_ok_iff, Finset.empty_union]
  constructor
  · rintro ⟨rfl, hcard⟩
    refine ⟨rfl, fun hne => hcard fun hnil => ?_⟩
    rw [hnil, List.toFinset_nil] at hne
    exact Finset.not_nonempty_empty hne
  · rintro ⟨rfl, hcard⟩
    refine ⟨rfl, fun hne => hcard ?_⟩
    obtain ⟨x, hx⟩ := List.exists_mem_of_ne_nil _ hne
    exact ⟨x, List.mem_toFinset.2 hx⟩

/-! ## The walk -/

/-- One parent met by the `BOOST_FOREACH` over the parents of the entry being moved: a parent
not yet an ancestor joins `parentHashes`, and both sets together must stay within the ancestor
count. The entry being moved is in both, which stands for the `+ 1` the test no longer has. -/
def addParent (setAncestors parentHashes : Finset ι) (phash : ι) : Except String (Finset ι) :=
  let parentHashes := if phash ∉ setAncestors then insert phash parentHashes else parentHashes
  if parentHashes.card + setAncestors.card > limitAncestorCount then
    throw ("too many unconfirmed ancestors [limit: " ++ toString limitAncestorCount ++ "]")
  else pure parentHashes

/-- The `BOOST_FOREACH` over the parents of the entry being moved. -/
def addParents (setAncestors parentHashes : Finset ι) (phashes : List ι) :
    Except String (Finset ι) :=
  phashes.foldlM (addParent limitAncestorCount setAncestors) parentHashes

/-- What the `BOOST_FOREACH` returns: the entries it started with and the parents that are not
yet ancestors, once the count after the last parent met is within the limit. -/
lemma addParents_eq_ok_iff {S P' : Finset ι} :
    ∀ {l : List ι} {P : Finset ι}, addParents limitAncestorCount S P l = .ok P' ↔
      P' = P ∪ l.toFinset.filter (· ∉ S) ∧
        (l ≠ [] → P'.card + S.card ≤ limitAncestorCount)
  | [], P => by
    simp only [addParents, List.foldlM_nil, pure_eq_ok, List.toFinset_nil, Finset.filter_empty,
      Finset.union_empty, ne_eq, not_true_eq_false, IsEmpty.forall_iff, and_true]
    exact ⟨fun h => (Except.ok.inj h).symm, fun h => h ▸ rfl⟩
  | x :: l, P => by
    rw [addParents, List.foldlM_cons, addParent]
    -- the parents met, with `x` added when it is not yet an ancestor
    have hunion : P ∪ (x :: l).toFinset.filter (· ∉ S) =
        (if x ∉ S then insert x P else P) ∪ l.toFinset.filter (· ∉ S) := by
      rw [List.toFinset_cons, Finset.filter_insert]
      split_ifs <;> simp only [Finset.union_insert, Finset.insert_union]
    rw [hunion]
    by_cases hlim : (if x ∉ S then insert x P else P).card + S.card > limitAncestorCount
    · rw [if_pos hlim, throw_eq_error, error_bind]
      refine ⟨fun h => (nomatch h), fun ⟨hP', hcard⟩ => ?_⟩
      have hle : (if x ∉ S then insert x P else P).card ≤ P'.card := by
        rw [hP']
        exact Finset.card_le_card Finset.subset_union_left
      have := hcard (List.cons_ne_nil _ _)
      omega
    · rw [if_neg hlim, pure_eq_ok, ok_bind, ← addParents, addParents_eq_ok_iff]
      constructor
      · rintro ⟨rfl, hcard⟩
        refine ⟨rfl, fun _ => ?_⟩
        rcases eq_or_ne l [] with rfl | hl
        · rw [List.toFinset_nil, Finset.filter_empty, Finset.union_empty]
          omega
        · exact hcard hl
      · rintro ⟨rfl, hcard⟩
        exact ⟨rfl, fun _ => hcard (List.cons_ne_nil _ _)⟩

/-- The parents the `BOOST_FOREACH` adds are not yet ancestors, so the entries left to visit
stay apart from the ancestors once the entry moved is taken out. -/
lemma disjoint_erase_union_filter {S P : Finset ι} {s : ι} (T : Finset ι)
    (hdisj : Disjoint P S) :
    Disjoint ((P ∪ T.filter (· ∉ insert s S)).erase s) (insert s S) := by
  rw [Finset.disjoint_left]
  intro x hx hxS
  obtain ⟨hxs, hx⟩ := Finset.mem_erase.1 hx
  rcases Finset.mem_union.1 hx with hxP | hxnew
  · -- an entry left from before is not an ancestor, and it is not the one moved
    rcases Finset.mem_insert.1 hxS with rfl | hxS
    · exact hxs rfl
    · exact Finset.disjoint_left.1 hdisj hxP hxS
  · exact (Finset.mem_filter.1 hxnew).2 hxS

lemma disjoint_of_addParents {S P P' : Finset ι} {s : ι} {l : List ι} (hdisj : Disjoint P S)
    (h : addParents limitAncestorCount (insert s S) P l = .ok P') :
    Disjoint (P'.erase s) (insert s S) := by
  obtain ⟨rfl, -⟩ := (addParents_eq_ok_iff limitAncestorCount).1 h
  exact disjoint_erase_union_filter _ hdisj

/-- Moving an entry that is not yet an ancestor leaves one entry fewer to move. -/
lemma card_sdiff_insert_lt [Fintype ι] {S : Finset ι} {s : ι} (hs : s ∉ S) :
    (Finset.univ \ insert s S).card < (Finset.univ \ S).card := by
  rw [Finset.sdiff_insert]
  exact Finset.card_erase_lt_of_mem (Finset.mem_sdiff.2 ⟨Finset.mem_univ s, hs⟩)

variable (nTxSize : ℕ)

/-- The `while (!parentHashes.empty())` loop of `CalculateMemPoolAncestors`, for an entry of
size `nTxSize`: move the least entry left to visit into `setAncestors`, check its descendant
limits and the running size, add its parents, and take it out of `parentHashes`. -/
def ancestorLoop [Fintype ι] (parentHashes setAncestors : Finset ι)
    (hdisj : Disjoint parentHashes setAncestors) (totalSizeWithAncestors : ℕ) :
    Except String (Finset ι) :=
  if hne : parentHashes.Nonempty then
    let stageit := parentHashes.min' hne
    let totalSizeWithAncestors := totalSizeWithAncestors + pool.GetTxSize stageit
    if pool.GetSizeWithDescendants stageit + nTxSize > limitDescendantSize then
      throw ("exceeds descendant size limit for tx " ++ pool.GetHashString stageit ++
        " [limit: " ++ toString limitDescendantSize ++ "]")
    else if pool.GetCountWithDescendants stageit + 1 > limitDescendantCount then
      throw ("too many descendants for tx " ++ pool.GetHashString stageit ++ " [limit: " ++
        toString limitDescendantCount ++ "]")
    else if totalSizeWithAncestors > limitAncestorSize then
      throw ("exceeds ancestor size limit [limit: " ++ toString limitAncestorSize ++ "]")
    else
      match h : addParents limitAncestorCount (insert stageit setAncestors) parentHashes
          ((pool.GetMemPoolParents stageit).sort (· ≤ ·)) with
      | .error e => throw e
      | .ok parentHashes' =>
        ancestorLoop (parentHashes'.erase stageit) (insert stageit setAncestors)
          (disjoint_of_addParents limitAncestorCount hdisj h) totalSizeWithAncestors
  else pure setAncestors
termination_by (Finset.univ \ setAncestors).card
decreasing_by exact card_sdiff_insert_lt (Finset.disjoint_left.1 hdisj (parentHashes.min'_mem hne))

/-- `CTxMemPool::CalculateMemPoolAncestors(entry, setAncestors, limitAncestorCount,
limitAncestorSize, limitDescendantCount, limitDescendantSize, errString, fSearchForParents)` for
an entry of size `nTxSize` whose inputs spend the transactions `prevouts`, at `it` in `mapTx`
when it is already in the pool: the ancestors it finds, or `errString`. -/
def CalculateMemPoolAncestors [Fintype ι] (prevouts : List H) (it : ι)
    (fSearchForParents : Bool) :
    Except String (Finset ι) := do
  let parentHashes ← if fSearchForParents then pool.searchParents limitAncestorCount prevouts
    else pure (pool.GetMemPoolParents it)
  pool.ancestorLoop limitAncestorCount limitAncestorSize limitDescendantCount limitDescendantSize
    nTxSize parentHashes ∅ (Finset.disjoint_empty_right _) nTxSize

/-! ## The ancestors and the limits -/

/-- The limits on the ancestors `A` of an entry of size `nTxSize`: every ancestor, with the
entry as one more descendant, stays within the descendant size and count; and when there is an
ancestor, the entry with its ancestors stays within the ancestor count and size. -/
def WithinLimits (A : Finset ι) : Prop :=
  (∀ a ∈ A, pool.GetSizeWithDescendants a + nTxSize ≤ limitDescendantSize ∧
    pool.GetCountWithDescendants a + 1 ≤ limitDescendantCount) ∧
  (A.Nonempty → A.card + 1 ≤ limitAncestorCount ∧
    nTxSize + ∑ a ∈ A, pool.GetTxSize a ≤ limitAncestorSize)

/-- What one round of the walk has found: the entries left, the ancestors, and the parents `T`
of the entry moved. -/
lemma erase_union_filter_union_insert {S P : Finset ι} {s : ι} (hs : s ∈ P) (T : Finset ι) :
    (P ∪ T.filter (· ∉ insert s S)).erase s ∪ insert s S = P ∪ S ∪ T := by
  ext x
  simp only [Finset.mem_union, Finset.mem_erase, Finset.mem_insert, Finset.mem_filter]
  by_cases hxs : x = s
  · subst hxs
    simp only [hs, true_or, or_true]
  · simp only [hxs, false_or, ne_eq, not_false_eq_true, true_and]
    tauto

lemma erase_union_insert_of_addParents {S P P' : Finset ι} {s : ι} (hs : s ∈ P)
    (h : addParents limitAncestorCount (insert s S) P
      ((pool.GetMemPoolParents s).sort (· ≤ ·)) = .ok P') :
    P'.erase s ∪ insert s S = P ∪ S ∪ pool.GetMemPoolParents s := by
  obtain ⟨rfl, -⟩ := (addParents_eq_ok_iff limitAncestorCount).1 h
  rw [Finset.sort_toFinset]
  exact erase_union_filter_union_insert hs _

/-- With the entry moved in both sets, the test of the `BOOST_FOREACH` counts everything found
and the entry once more. -/
lemma card_erase_union_insert {P' S : Finset ι} {s : ι} (hs : s ∈ P')
    (hdisj : Disjoint (P'.erase s) (insert s S)) :
    (P'.erase s ∪ insert s S).card + 1 = P'.card + (insert s S).card := by
  rw [Finset.card_union_of_disjoint hdisj, ← Finset.card_erase_add_one hs]
  omega

section Checks

/-- The checks the walk has passed: the descendant limits of every entry moved, the ancestor
count of everything found, and the running size once an entry has moved. -/
structure WalkChecked (P S : Finset ι) (total : ℕ) : Prop where
  descendants : ∀ s ∈ S, pool.GetSizeWithDescendants s + nTxSize ≤ limitDescendantSize ∧
    pool.GetCountWithDescendants s + 1 ≤ limitDescendantCount
  count : (P ∪ S).Nonempty → (P ∪ S).card + 1 ≤ limitAncestorCount
  size : S.Nonempty → total ≤ limitAncestorSize

variable {pool limitAncestorCount limitAncestorSize limitDescendantCount limitDescendantSize
  nTxSize}

lemma WalkChecked.init {roots : Finset ι}
    (hcount : roots.Nonempty → roots.card + 1 ≤ limitAncestorCount) :
    pool.WalkChecked limitAncestorCount limitAncestorSize limitDescendantCount
      limitDescendantSize nTxSize roots ∅ nTxSize where
  descendants := fun _ h => absurd h (Finset.notMem_empty _)
  count := by
    rw [Finset.union_empty]
    exact hcount
  size := fun h => absurd h Finset.not_nonempty_empty

/-- **One round keeps the checks.** The entry moved passed its own checks, and the count of
everything found was checked after its last parent, or, with no parent, is what it was. -/
lemma WalkChecked.step {P S P' : Finset ι} {total : ℕ} {s : ι}
    (chk : pool.WalkChecked limitAncestorCount limitAncestorSize limitDescendantCount
      limitDescendantSize nTxSize P S total) (hs : s ∈ P)
    (hdisj' : Disjoint (P'.erase s) (insert s S))
    (hunion : P'.erase s ∪ insert s S = P ∪ S ∪ pool.GetMemPoolParents s)
    (hP' : P ⊆ P')
    (hcount : pool.GetMemPoolParents s ≠ ∅ →
      P'.card + (insert s S).card ≤ limitAncestorCount)
    (hdesc : pool.GetSizeWithDescendants s + nTxSize ≤ limitDescendantSize ∧
      pool.GetCountWithDescendants s + 1 ≤ limitDescendantCount)
    (hsize : total + pool.GetTxSize s ≤ limitAncestorSize) :
    pool.WalkChecked limitAncestorCount limitAncestorSize limitDescendantCount
      limitDescendantSize nTxSize (P'.erase s) (insert s S) (total + pool.GetTxSize s) where
  descendants := by
    intro x hx
    rcases Finset.mem_insert.1 hx with rfl | hx
    · exact hdesc
    · exact chk.descendants x hx
  count := by
    intro _
    by_cases hpar : pool.GetMemPoolParents s = ∅
    · -- no parent: nothing new is found
      rw [hunion, hpar, Finset.union_empty]
      exact chk.count ⟨s, Finset.mem_union_left _ hs⟩
    · have := card_erase_union_insert (hP' hs) hdisj'
      have := hcount hpar
      omega
  size := fun _ => hsize

end Checks

section Walk

variable [Fintype ι]

/-- The in-pool ancestors reached from the parents `roots`, the parents included. -/
noncomputable def ancestors (roots : Finset ι) : Finset ι :=
  reachFinset pool.GetMemPoolParents roots

/-- The invariant of the walk from the parents `roots`, with `P` left to visit and `S` moved:
everything found is an ancestor, the roots are found, the parents of every entry moved are
found, and the running size is the entry's with the moved entries'. -/
structure WalkInv (roots P S : Finset ι) (total : ℕ) : Prop where
  found : P ∪ S ⊆ pool.ancestors roots
  roots_found : roots ⊆ P ∪ S
  parents_found : ∀ s ∈ S, pool.GetMemPoolParents s ⊆ P ∪ S
  total_eq : total = nTxSize + ∑ s ∈ S, pool.GetTxSize s

variable {pool limitAncestorCount limitAncestorSize limitDescendantCount limitDescendantSize
  nTxSize}

lemma WalkInv.init (roots : Finset ι) : pool.WalkInv nTxSize roots roots ∅ nTxSize where
  found := by
    rw [Finset.union_empty]
    exact subset_reachFinset _
  roots_found := by rw [Finset.union_empty]
  parents_found := fun _ h => absurd h (Finset.notMem_empty _)
  total_eq := by rw [Finset.sum_empty, Nat.add_zero]

/-- **One round keeps the invariant.** Moving `s` and adding its parents keeps everything found
among the ancestors, since the parents of an ancestor are ancestors, and finds the parents of
`s`. -/
lemma WalkInv.step {roots P S P' : Finset ι} {total : ℕ} {s : ι}
    (inv : pool.WalkInv nTxSize roots P S total) (hdisj : Disjoint P S) (hs : s ∈ P)
    (hunion : P'.erase s ∪ insert s S = P ∪ S ∪ pool.GetMemPoolParents s) :
    pool.WalkInv nTxSize roots (P'.erase s) (insert s S) (total + pool.GetTxSize s) where
  found := by
    rw [hunion]
    have hsA : s ∈ pool.ancestors roots := inv.found (Finset.mem_union_left _ hs)
    exact Finset.union_subset inv.found (next_subset_reachFinset _ hsA)
  roots_found := by
    rw [hunion]
    exact inv.roots_found.trans Finset.subset_union_left
  parents_found := by
    intro x hx
    rw [hunion]
    rcases Finset.mem_insert.1 hx with rfl | hx
    · exact Finset.subset_union_right
    · exact (inv.parents_found x hx).trans Finset.subset_union_left
  total_eq := by
    rw [Finset.sum_insert (Finset.disjoint_left.1 hdisj hs), inv.total_eq]
    omega

/-- **The walk ends with the ancestors, within the limits.** A walk that returns, from a state
with the invariant and the checks passed, returns the ancestors, and they are within the limits.

**Proof sketch.** Recursion along the walk, as the loop recurses. With nothing left to visit,
the entries moved hold the roots and the parents of each, so they are the ancestors, and the
checks passed are the limits. Otherwise the round passed its checks and keeps both
invariants. -/
theorem ancestorLoop_sound {roots : Finset ι} (P S : Finset ι) (hdisj : Disjoint P S)
    (total : ℕ) {R : Finset ι} (inv : pool.WalkInv nTxSize roots P S total)
    (chk : pool.WalkChecked limitAncestorCount limitAncestorSize limitDescendantCount
      limitDescendantSize nTxSize P S total)
    (h : pool.ancestorLoop limitAncestorCount limitAncestorSize limitDescendantCount
      limitDescendantSize nTxSize P S hdisj total = .ok R) :
    R = pool.ancestors roots ∧ pool.WithinLimits limitAncestorCount limitAncestorSize
      limitDescendantCount limitDescendantSize nTxSize (pool.ancestors roots) := by
  rw [ancestorLoop] at h
  by_cases hne : P.Nonempty
  · rw [dif_pos hne] at h
    dsimp only at h
    have hs : P.min' hne ∈ P := P.min'_mem hne
    split_ifs at h with hdsize hdcount hsize
    split at h
    · nomatch h
    · rename_i P' hadd
      have hdisj' := disjoint_of_addParents limitAncestorCount hdisj hadd
      have hunion := erase_union_insert_of_addParents pool limitAncestorCount hs hadd
      obtain ⟨hP', hcount⟩ := (addParents_eq_ok_iff limitAncestorCount).1 hadd
      -- the parents of the entry moved are met exactly when it has some
      have hcount' : pool.GetMemPoolParents (P.min' hne) ≠ ∅ →
          P'.card + (insert (P.min' hne) S).card ≤ limitAncestorCount := fun hpar =>
        hcount (List.ne_nil_of_length_pos (by
          rw [Finset.length_sort]
          exact Finset.card_pos.2 (Finset.nonempty_iff_ne_empty.2 hpar)))
      exact ancestorLoop_sound (P'.erase (P.min' hne)) (insert (P.min' hne) S) hdisj' _
        (inv.step hdisj hs hunion)
        (chk.step hs hdisj' hunion (hP' ▸ Finset.subset_union_left) hcount'
          ⟨by omega, by omega⟩ (by omega)) h
  · -- nothing left to visit: the entries moved are the ancestors
    obtain rfl : P = ∅ := Finset.not_nonempty_iff_eq_empty.1 hne
    rw [dif_neg hne] at h
    obtain rfl : S = R := Except.ok.inj h
    have hfound : S ⊆ pool.ancestors roots := by simpa only [Finset.empty_union] using inv.found
    have hroots : roots ⊆ S := by simpa only [Finset.empty_union] using inv.roots_found
    have hclosed : ∀ s ∈ S, pool.GetMemPoolParents s ⊆ S := by
      simpa only [Finset.empty_union] using inv.parents_found
    have hR : S = pool.ancestors roots := eq_reachFinset _ hfound hroots hclosed
    refine ⟨hR, fun a ha => chk.descendants a (hR ▸ ha), fun hA => ?_⟩
    rw [← hR] at hA ⊢
    have hcount := chk.count (by rwa [Finset.empty_union])
    rw [Finset.empty_union] at hcount
    exact ⟨hcount, inv.total_eq ▸ chk.size hA⟩
termination_by (Finset.univ \ S).card
decreasing_by exact card_sdiff_insert_lt (Finset.disjoint_left.1 hdisj hs)

/-- **Within the limits the walk returns.** From a state with the invariant, a walk whose
ancestors are within the limits passes every check.

**Proof sketch.** Recursion along the walk. The entry moved is an ancestor, so its descendant
limits hold; the running size is at most the ancestors' size; and everything found, counted
with the entry moved once more, is at most the ancestors with the new entry. -/
theorem ancestorLoop_complete {roots : Finset ι}
    (hlim : pool.WithinLimits limitAncestorCount limitAncestorSize limitDescendantCount
      limitDescendantSize nTxSize (pool.ancestors roots))
    (P S : Finset ι) (hdisj : Disjoint P S) (total : ℕ)
    (inv : pool.WalkInv nTxSize roots P S total) :
    ∃ R, pool.ancestorLoop limitAncestorCount limitAncestorSize limitDescendantCount
      limitDescendantSize nTxSize P S hdisj total = .ok R := by
  rw [ancestorLoop]
  by_cases hne : P.Nonempty
  · rw [dif_pos hne]
    dsimp only
    have hs : P.min' hne ∈ P := P.min'_mem hne
    have hsS : P.min' hne ∉ S := Finset.disjoint_left.1 hdisj hs
    have hsA : P.min' hne ∈ pool.ancestors roots := inv.found (Finset.mem_union_left _ hs)
    obtain ⟨hdsize, hdcount⟩ := hlim.1 _ hsA
    obtain ⟨hAcount, hAsize⟩ := hlim.2 ⟨_, hsA⟩
    -- the running size is at most the ancestors' size
    have hsize : total + pool.GetTxSize (P.min' hne) ≤ limitAncestorSize := by
      have hsub : insert (P.min' hne) S ⊆ pool.ancestors roots :=
        Finset.insert_subset hsA (Finset.subset_union_right.trans inv.found)
      have hsum := Finset.sum_le_sum_of_subset (f := pool.GetTxSize) hsub
      rw [Finset.sum_insert hsS] at hsum
      rw [inv.total_eq]
      omega
    rw [if_neg (by omega), if_neg (by omega), if_neg (by omega)]
    -- the parents not yet ancestors join; everything found stays among the ancestors
    have hadd : addParents limitAncestorCount (insert (P.min' hne) S) P
        ((pool.GetMemPoolParents (P.min' hne)).sort (· ≤ ·)) =
          .ok (P ∪ ((pool.GetMemPoolParents (P.min' hne)).sort (· ≤ ·)).toFinset.filter
            (· ∉ insert (P.min' hne) S)) := by
      refine (addParents_eq_ok_iff limitAncestorCount).2 ⟨rfl, fun _ => ?_⟩
      rw [Finset.sort_toFinset]
      have hcard := card_erase_union_insert
        (Finset.mem_union_left
          ((pool.GetMemPoolParents (P.min' hne)).filter (· ∉ insert (P.min' hne) S)) hs)
        (disjoint_erase_union_filter (pool.GetMemPoolParents (P.min' hne)) hdisj)
      rw [erase_union_filter_union_insert hs] at hcard
      have hfound : P ∪ S ∪ pool.GetMemPoolParents (P.min' hne) ⊆ pool.ancestors roots :=
        Finset.union_subset inv.found (next_subset_reachFinset _ hsA)
      have := Finset.card_le_card hfound
      omega
    split
    · rename_i e he
      rw [hadd] at he
      nomatch he
    · rename_i P' hP'
      exact ancestorLoop_complete hlim _ _ _ _
        (inv.step hdisj hs (erase_union_insert_of_addParents pool limitAncestorCount hs hP'))
  · rw [dif_neg hne]
    exact ⟨S, rfl⟩
termination_by (Finset.univ \ S).card
decreasing_by exact card_sdiff_insert_lt (Finset.disjoint_left.1 hdisj hs)

/-- From the parents its search finds, `CalculateMemPoolAncestors` returns their ancestors, and
they are within the limits. -/
lemma CalculateMemPoolAncestors_sound {prevouts : List H} {it : ι} {R : Finset ι}
    (h : pool.CalculateMemPoolAncestors limitAncestorCount limitAncestorSize limitDescendantCount
      limitDescendantSize nTxSize prevouts it true = .ok R) :
    R = pool.ancestors (prevouts.filterMap pool.find).toFinset ∧
      pool.WithinLimits limitAncestorCount limitAncestorSize limitDescendantCount
        limitDescendantSize nTxSize (pool.ancestors (prevouts.filterMap pool.find).toFinset) := by
  unfold CalculateMemPoolAncestors at h
  dsimp only at h
  rw [if_pos rfl] at h
  obtain ⟨P, hP, hloop⟩ := bind_eq_ok.1 h
  obtain ⟨rfl, hcount⟩ := (searchParents_eq_ok_iff pool limitAncestorCount).1 hP
  exact ancestorLoop_sound _ _ _ _ (WalkInv.init _) (WalkChecked.init hcount) hloop

/-- Within the limits `CalculateMemPoolAncestors` succeeds: the parents its search finds are
ancestors, so they are within the ancestor count. -/
lemma CalculateMemPoolAncestors_complete {prevouts : List H} {it : ι}
    (hlim : pool.WithinLimits limitAncestorCount limitAncestorSize limitDescendantCount
      limitDescendantSize nTxSize (pool.ancestors (prevouts.filterMap pool.find).toFinset)) :
    ∃ R, pool.CalculateMemPoolAncestors limitAncestorCount limitAncestorSize
      limitDescendantCount limitDescendantSize nTxSize prevouts it true = .ok R := by
  have hcount : (prevouts.filterMap pool.find).toFinset.Nonempty →
      (prevouts.filterMap pool.find).toFinset.card + 1 ≤ limitAncestorCount := fun hne => by
    have hsub : (prevouts.filterMap pool.find).toFinset ⊆
        pool.ancestors (prevouts.filterMap pool.find).toFinset := subset_reachFinset _
    have := Finset.card_le_card hsub
    have := (hlim.2 (hne.mono hsub)).1
    omega
  obtain ⟨R, hR⟩ := ancestorLoop_complete hlim _ ∅ (Finset.disjoint_empty_right _) nTxSize
    (WalkInv.init _)
  refine ⟨R, ?_⟩
  unfold CalculateMemPoolAncestors
  dsimp only
  rw [if_pos rfl, (searchParents_eq_ok_iff pool limitAncestorCount).2 ⟨rfl, hcount⟩, ok_bind]
  exact hR

end Walk

section Exact

variable [Fintype ι]

/-- **`CalculateMemPoolAncestors` is exact.** For an entry of size `nTxSize` whose inputs spend
`prevouts`, the search returns, when it succeeds, the in-pool ancestors of the parents it
finds; and it succeeds exactly when they are within the limits: every ancestor within the
descendant limits with the entry added, and, when there is an ancestor, the entry with its
ancestors within the ancestor count and size. -/
theorem CalculateMemPoolAncestors_exact (prevouts : List H) (it : ι) :
    (∀ R, pool.CalculateMemPoolAncestors limitAncestorCount limitAncestorSize
      limitDescendantCount limitDescendantSize nTxSize prevouts it true = .ok R →
        R = pool.ancestors (prevouts.filterMap pool.find).toFinset) ∧
    ((∃ R, pool.CalculateMemPoolAncestors limitAncestorCount limitAncestorSize
      limitDescendantCount limitDescendantSize nTxSize prevouts it true = .ok R) ↔
      pool.WithinLimits limitAncestorCount limitAncestorSize limitDescendantCount
        limitDescendantSize nTxSize (pool.ancestors (prevouts.filterMap pool.find).toFinset)) :=
  ⟨fun _ h => (CalculateMemPoolAncestors_sound h).1,
    fun ⟨_, h⟩ => (CalculateMemPoolAncestors_sound h).2, CalculateMemPoolAncestors_complete⟩

/-- **The entry's own size and count are never checked.** An entry none of whose inputs spends
a pool transaction has no ancestors, and the search returns none whatever the limits: the
running size and the ancestor count are checked only as the walk meets ancestors, so an entry
larger than `limitAncestorSize` on its own passes, and so does any entry under
`limitAncestorCount = 0`. -/
theorem CalculateMemPoolAncestors_unchecked_without_parents (prevouts : List H) (it : ι)
    (hnone : ∀ hash ∈ prevouts, pool.find hash = none) :
    pool.CalculateMemPoolAncestors limitAncestorCount limitAncestorSize limitDescendantCount
      limitDescendantSize nTxSize prevouts it true = .ok ∅ := by
  have hfound : prevouts.filterMap pool.find = [] := List.filterMap_eq_nil_iff.2 hnone
  have hsearch : pool.searchParents limitAncestorCount prevouts = .ok ∅ := by
    refine (searchParents_eq_ok_iff pool limitAncestorCount).2 ⟨?_, ?_⟩
    · rw [hfound, List.toFinset_nil]
    · intro hne
      exact absurd hne Finset.not_nonempty_empty
  unfold CalculateMemPoolAncestors
  dsimp only
  rw [if_pos rfl, hsearch, ok_bind, ancestorLoop, dif_neg Finset.not_nonempty_empty]
  rfl

end Exact

/-- A pool that holds no transaction an input could spend. -/
def noParentPool : TxMemPoolPackages Unit (Fin 1) :=
  ⟨fun _ => none, fun _ => ∅, fun _ => 0, fun _ => 0, fun _ => 0, fun _ => ""⟩

/-- A 2000-byte entry with no parent in the pool passes `-limitancestorsize=1`, 1000 bytes, with
the other limits at their defaults. -/
theorem CalculateMemPoolAncestors_no_ancestors :
    (∀ hash ∈ [()], noParentPool.find hash = none) ∧
      noParentPool.CalculateMemPoolAncestors 25 1000 25 101000 2000 [()] 0 true = .ok ∅ :=
  ⟨fun _ _ => rfl,
    CalculateMemPoolAncestors_unchecked_without_parents noParentPool 25 1000 25 101000 2000 [()] 0
      fun _ _ => rfl⟩

end TxMemPoolPackages

end MvfBu
