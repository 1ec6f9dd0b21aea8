import Mathlib.Data.Nat.Bitwise
import MvfBu.Arith.Compact
import MvfBu.Lib.Ancestry

set_option autoImplicit false

/-!
# The skip list of the block index (`chain.cpp`)

Every `CBlockIndex` has a `pprev` pointer to its parent and a `pskip` pointer to an ancestor
further back, at height `GetSkipHeight(nHeight)`. `BuildSkip` sets `pskip` when the entry is
added to the index, by asking the parent for that ancestor. `GetAncestor(height)` walks down
from an entry to its ancestor at `height`, taking `pskip` where it does not overshoot and is
not beaten by the parent's `pskip`, and `pprev` otherwise.

The walk is correct as soon as every skip pointer points where `GetSkipHeight` says; and
`BuildSkip` makes it so, since it asks a walk that only reads lower entries. The induction is
on the height: the skip pointers up to a height make the walks from entries up to that height
correct, and these walks set the skip pointers one height up.

## Main definitions

* `MvfBu.InvertLowestOne`, `MvfBu.GetSkipHeight`.
* `MvfBu.BlockTree` — the `pprev`, `pskip` and `nHeight` of every entry.
* `MvfBu.BlockTree.GetAncestor`, `MvfBu.BlockTree.BuildSkip`, `MvfBu.BlockTree.AddToBlockIndex`.
* `MvfBu.BlockTree.SkipsCorrect` — every `pskip` is the ancestor at `GetSkipHeight(nHeight)`.
* `MvfBu.BlockTree.SkipsBuilt` — every `pskip` is what `BuildSkip` sets.
* `MvfBu.BlockTree.Indexed` — the trees `AddToBlockIndex` builds from an empty index.

## Main results

* `MvfBu.GetSkipHeight_lt` — the skip goes strictly down: the walk terminates.
* `MvfBu.BlockTree.GetAncestor_eq` — with correct skip pointers up to the entry's height,
  `GetAncestor` is the walk along `pprev`, and never trips its assertion.
* `MvfBu.BlockTree.skipsCorrect_iff_skipsBuilt` — correct skip pointers are those
  `BuildSkip` sets.
* `MvfBu.BlockTree.Indexed.invariant` — every tree `AddToBlockIndex` builds is graded and has
  correct skip pointers, and adding a fresh entry never trips an assertion.

## Implementation notes

An entry is an element of `ι`, a pointer. Heights are natural numbers: the `int` of the
source is never negative on an entry, and the height asked of `GetAncestor` is an integer,
checked against `[0, nHeight]` first. The loop of `GetAncestor` is a function by well-founded
recursion on `heightWalk`, with `GetSkipHeight_lt` as its termination proof.
-/

namespace MvfBu

open Ancestry

/-! ## Skip heights -/

/-- `InvertLowestOne`: `n` with its lowest one bit cleared. -/
def InvertLowestOne (n : ℕ) : ℕ := n &&& (n - 1)

/-- `GetSkipHeight`: the height the `pskip` of an entry at `height` points to. -/
def GetSkipHeight (height : ℕ) : ℕ :=
  if height < 2 then 0
  else if height &&& 1 ≠ 0 then InvertLowestOne (InvertLowestOne (height - 1)) + 1
  else InvertLowestOne height

lemma InvertLowestOne_le (n : ℕ) : InvertLowestOne n ≤ n - 1 := Nat.and_le_right

/-- The skip goes strictly down: `GetSkipHeight k < k` for every `k ≥ 1`. -/
theorem GetSkipHeight_lt {height : ℕ} (h : 1 ≤ height) : GetSkipHeight height < height := by
  unfold GetSkipHeight
  have hodd : height &&& 1 = height % 2 := Nat.and_one_is_mod height
  have h₁ := InvertLowestOne_le (height - 1)
  have h₂ := InvertLowestOne_le (InvertLowestOne (height - 1))
  have h₃ := InvertLowestOne_le height
  split_ifs <;> omega

/-! ## The block tree -/

/-- The fields of every `CBlockIndex` the skip list reads: the entries are `ι`. -/
structure BlockTree (ι : Type) where
  pprev : ι → Option ι
  pskip : ι → Option ι
  nHeight : ι → ℕ

namespace BlockTree

variable {ι : Type} (t : BlockTree ι)

/-- The `else` branch of the loop of `GetAncestor`: `assert(pindexWalk->pprev)` and one step
back along `pprev`. -/
def stepPrev (pindexWalk : ι) (heightWalk : ℕ) : Except AssertionFailed (ι × ℕ) :=
  match t.pprev pindexWalk with
  | some pprev => pure (pprev, heightWalk - 1)
  | none => throw ⟨"pindexWalk->pprev"⟩

/-- One pass of the loop of `GetAncestor` towards `height`: follow `pskip` if it is set and
does not overshoot, unless `pprev->pskip` is better than `pskip->pprev`; else step back. -/
def GetAncestorStep (height : ℕ) (pindexWalk : ι) (heightWalk : ℕ) :
    Except AssertionFailed (ι × ℕ) :=
  let heightSkip := GetSkipHeight heightWalk
  let heightSkipPrev := GetSkipHeight (heightWalk - 1)
  match t.pskip pindexWalk with
  | some pskip =>
    -- `heightSkip - 2` truncates at zero where the source's `int` goes negative; the test
    -- `heightSkipPrev < heightSkip - 2` is false in both
    if heightSkip = height ∨
        (heightSkip > height ∧ ¬(heightSkipPrev < heightSkip - 2 ∧ heightSkipPrev ≥ height)) then
      pure (pskip, heightSkip)
    else t.stepPrev pindexWalk heightWalk
  | none => t.stepPrev pindexWalk heightWalk

variable {t}

/-- Every pass of the loop lowers `heightWalk`. -/
lemma GetAncestorStep_lt {height : ℕ} {pindexWalk pindexNext : ι} {heightWalk heightNext : ℕ}
    (hh : height < heightWalk)
    (h : t.GetAncestorStep height pindexWalk heightWalk = .ok (pindexNext, heightNext)) :
    heightNext < heightWalk := by
  have hprev : t.stepPrev pindexWalk heightWalk = .ok (pindexNext, heightNext) →
      heightNext < heightWalk := by
    unfold stepPrev
    split
    · intro h'
      cases h'
      omega
    · intro h'
      cases h'
  unfold GetAncestorStep at h
  split at h
  · dsimp only at h
    split_ifs at h
    · cases h
      exact GetSkipHeight_lt (by omega)
    · exact hprev h
  · exact hprev h

variable (t)

/-- The loop of `CBlockIndex::GetAncestor`, from `pindexWalk` at `heightWalk` down to
`height`. -/
def GetAncestorLoop (height : ℕ) (pindexWalk : ι) (heightWalk : ℕ) : Except AssertionFailed ι :=
  if _hh : height < heightWalk then
    match _hs : t.GetAncestorStep height pindexWalk heightWalk with
    | .ok (pindexNext, heightNext) => GetAncestorLoop height pindexNext heightNext
    | .error e => throw e
  else pure pindexWalk
termination_by heightWalk
decreasing_by exact GetAncestorStep_lt _hh _hs

/-- `CBlockIndex::GetAncestor`: the ancestor of `pindex` at `height`, `NULL` outside
`[0, nHeight]`. -/
def GetAncestor (pindex : ι) (height : ℤ) : Except AssertionFailed (Option ι) :=
  if height > t.nHeight pindex ∨ height < 0 then pure none
  else some <$> t.GetAncestorLoop height.toNat pindex (t.nHeight pindex)

/-- The empty index: every entry a root at height zero without a skip. -/
def empty : BlockTree ι := ⟨fun _ => none, fun _ => none, fun _ => 0⟩

/-! ## The walk of `GetAncestor` -/

/-- The skip pointer of `b` is right: if `b` has a parent, `pskip` is its ancestor at
`GetSkipHeight(nHeight)`. -/
def SkipOk (b : ι) : Prop :=
  ∀ p, t.pprev b = some p →
    t.pskip b = ancestor t.pprev b (t.nHeight b - GetSkipHeight (t.nHeight b))

/-- The skip pointers of the entries up to height `N` are right. -/
def SkipsCorrectUpTo (N : ℕ) : Prop := ∀ b, t.nHeight b ≤ N → t.SkipOk b

/-- Every skip pointer is right. -/
def SkipsCorrect : Prop := ∀ b, t.SkipOk b

/-- Every skip pointer is what `BuildSkip` sets: the parent's ancestor at
`GetSkipHeight(nHeight)`, as `GetAncestor` finds it. -/
def SkipsBuilt : Prop :=
  ∀ b p, t.pprev b = some p → t.GetAncestor p (GetSkipHeight (t.nHeight b)) = .ok (t.pskip b)

variable {t}

lemma GetAncestorLoop_of_le {height heightWalk : ℕ} (pindexWalk : ι) (hh : ¬height < heightWalk) :
    t.GetAncestorLoop height pindexWalk heightWalk = .ok pindexWalk := by
  rw [GetAncestorLoop, dif_neg hh]
  rfl

lemma GetAncestorLoop_of_step {height heightWalk heightNext : ℕ} {pindexWalk pindexNext : ι}
    (hh : height < heightWalk)
    (hs : t.GetAncestorStep height pindexWalk heightWalk = .ok (pindexNext, heightNext)) :
    t.GetAncestorLoop height pindexWalk heightWalk = t.GetAncestorLoop height pindexNext heightNext := by
  rw [GetAncestorLoop, dif_pos hh]
  split
  · next heq =>
    rw [hs] at heq
    cases heq
    rfl
  · next heq =>
    rw [hs] at heq
    cases heq

section Walk

variable (hg : Graded t.pprev t.nHeight)
include hg

/-- One pass of the loop from an entry with a right skip pointer: it lands on an entry at the
height it records, not below `height`, on the way to the same ancestor. -/
lemma GetAncestorStep_spec {height : ℕ} {pindexWalk : ι} (hok : t.SkipOk pindexWalk)
    (hh : height < t.nHeight pindexWalk) :
    ∃ pindexNext heightNext,
      t.GetAncestorStep height pindexWalk (t.nHeight pindexWalk) = .ok (pindexNext, heightNext) ∧
      t.nHeight pindexNext = heightNext ∧ height ≤ heightNext ∧
      ancestor t.pprev pindexWalk (t.nHeight pindexWalk - height) =
        ancestor t.pprev pindexNext (heightNext - height) := by
  obtain ⟨p, hp⟩ := hg.exists_parent (b := pindexWalk) (by omega)
  have hhp := hg.height_parent hp
  -- the step back along `pprev`, taken whenever the skip is not
  have hprev : t.stepPrev pindexWalk (t.nHeight pindexWalk) = .ok (p, t.nHeight pindexWalk - 1) := by
    rw [stepPrev, hp]
    rfl
  have hprevSpec : t.nHeight p = t.nHeight pindexWalk - 1 ∧ height ≤ t.nHeight pindexWalk - 1 ∧
      ancestor t.pprev pindexWalk (t.nHeight pindexWalk - height) =
        ancestor t.pprev p (t.nHeight pindexWalk - 1 - height) := by
    refine ⟨by omega, by omega, ?_⟩
    have hk : t.nHeight pindexWalk - height = (t.nHeight pindexWalk - 1 - height) + 1 := by omega
    rw [hk, ancestor_of_parent _ hp]
  unfold GetAncestorStep
  dsimp only
  cases hs : t.pskip pindexWalk with
  | none => exact ⟨p, _, hprev, hprevSpec⟩
  | some pskip =>
    dsimp only
    split_ifs with hc
    · -- the skip: `pskip` is the ancestor at `GetSkipHeight`, and the rest of the way is from it
      have hlt : GetSkipHeight (t.nHeight pindexWalk) < t.nHeight pindexWalk :=
        GetSkipHeight_lt (by omega)
      have hskip := hok p hp
      rw [hs] at hskip
      have hheight := hg.height_ancestor hskip.symm
      refine ⟨pskip, _, rfl, by omega, by omega, ?_⟩
      have hk : t.nHeight pindexWalk - height = (t.nHeight pindexWalk -
          GetSkipHeight (t.nHeight pindexWalk)) + (GetSkipHeight (t.nHeight pindexWalk) - height) := by
        omega
      rw [hk, ancestor_add, ← hskip, Option.bind_some]
    · exact ⟨p, _, hprev, hprevSpec⟩

/-- With right skip pointers up to height `N`, the loop from an entry up to height `N` ends at
its ancestor at `height`. -/
theorem GetAncestorLoop_eq {N : ℕ} (hs : t.SkipsCorrectUpTo N) {height : ℕ} :
    ∀ (pindexWalk : ι) {a : ι}, t.nHeight pindexWalk ≤ N → height ≤ t.nHeight pindexWalk →
      ancestor t.pprev pindexWalk (t.nHeight pindexWalk - height) = some a →
      t.GetAncestorLoop height pindexWalk (t.nHeight pindexWalk) = .ok a := by
  suffices h : ∀ n (pindexWalk : ι) {a : ι}, t.nHeight pindexWalk = n → n ≤ N → height ≤ n →
      ancestor t.pprev pindexWalk (n - height) = some a →
      t.GetAncestorLoop height pindexWalk n = .ok a from
    fun pindexWalk _ hN hle ha => h _ pindexWalk rfl hN hle ha
  -- strong induction on the height of the walk: every pass lowers it
  intro n
  induction n using Nat.strong_induction_on with
  | _ n ih =>
    intro pindexWalk a hn hN hle ha
    by_cases hh : height < n
    · subst hn
      obtain ⟨pindexNext, heightNext, hstep, hnext, hle', hanc⟩ :=
        GetAncestorStep_spec hg (hs pindexWalk hN) hh
      rw [GetAncestorLoop_of_step hh hstep]
      have hlt := GetAncestorStep_lt hh hstep
      exact ih heightNext hlt pindexNext hnext (by omega) hle' (hanc ▸ ha)
    · have hn' : n - height = 0 := by omega
      rw [hn', ancestor_zero, Option.some_inj] at ha
      rw [GetAncestorLoop_of_le _ hh, ha]

/-- **`GetAncestor` walks along `pprev`.** With right skip pointers up to the height of `b`,
`b.GetAncestor(height)` is the entry `nHeight - height` steps back along `pprev`, `NULL` outside
`[0, nHeight]`, and the assertion in its loop holds. -/
theorem GetAncestor_eq {b : ι} (hs : t.SkipsCorrectUpTo (t.nHeight b)) (height : ℤ) :
    t.GetAncestor b height = .ok (if 0 ≤ height ∧ height ≤ t.nHeight b then
      ancestor t.pprev b (t.nHeight b - height.toNat) else none) := by
  unfold GetAncestor
  by_cases hr : height > t.nHeight b ∨ height < 0
  · rw [if_pos hr, if_neg (by omega)]
    rfl
  · rw [if_neg hr, if_pos (by omega)]
    obtain ⟨a, ha⟩ := hg.exists_ancestor (b := b) (k := t.nHeight b - height.toNat) (by omega)
    rw [ha, GetAncestorLoop_eq hg hs b le_rfl (by omega) ha]
    rfl

/-- The skip pointers `BuildSkip` sets are right, by induction on the height: the walks that
set those one height up only read entries below. -/
theorem skipsCorrectUpTo_of_skipsBuilt (hb : t.SkipsBuilt) (N : ℕ) : t.SkipsCorrectUpTo N := by
  induction N with
  | zero =>
    intro b hb0 p hp
    have := hg.height_parent hp
    omega
  | succ N ih =>
    intro b hbN p hp
    by_cases hle : t.nHeight b ≤ N
    · exact ih b hle p hp
    · have hbp := hg.height_parent hp
      have hpN : t.nHeight p = N := by omega
      have hlt : GetSkipHeight (t.nHeight b) < t.nHeight b := GetSkipHeight_lt (by omega)
      have hget := GetAncestor_eq hg (b := p) (hpN ▸ ih) (GetSkipHeight (t.nHeight b))
      rw [hb b p hp, if_pos ⟨by omega, by omega⟩, Int.toNat_natCast] at hget
      have hk : t.nHeight b - GetSkipHeight (t.nHeight b) =
          (t.nHeight p - GetSkipHeight (t.nHeight b)) + 1 := by omega
      rw [hk, ancestor_of_parent _ hp]
      exact Except.ok.inj hget

/-- Right skip pointers are exactly those `BuildSkip` sets. -/
theorem skipsCorrect_iff_skipsBuilt : t.SkipsCorrect ↔ t.SkipsBuilt := by
  constructor
  · intro hc b p hp
    have hbp := hg.height_parent hp
    have hlt : GetSkipHeight (t.nHeight b) < t.nHeight b := GetSkipHeight_lt (by omega)
    rw [GetAncestor_eq hg (fun x _ => hc x), if_pos ⟨by omega, by omega⟩, Int.toNat_natCast,
      hc b p hp]
    have hk : t.nHeight b - GetSkipHeight (t.nHeight b) =
        (t.nHeight p - GetSkipHeight (t.nHeight b)) + 1 := by omega
    rw [hk, ancestor_of_parent _ hp]
  · intro hb b
    exact skipsCorrectUpTo_of_skipsBuilt hg hb (t.nHeight b) b le_rfl

end Walk

/-- **Skip-list lookup is the walk along `pprev`.** In a block tree where every entry is one above
its parent and every `pskip` was set by `BuildSkip`, `b.GetAncestor(height)` is the entry reached
from `b` by `nHeight - height` steps along `pprev` for `0 ≤ height ≤ nHeight`, and `NULL` for any
other height; its loop ends because `GetSkipHeight` goes strictly down. -/
theorem GetAncestor_eq_pprev_walk (t : BlockTree ι) (hg : Graded t.pprev t.nHeight)
    (hb : t.SkipsBuilt) :
    (∀ k, 1 ≤ k → GetSkipHeight k < k) ∧
    ∀ (b : ι) (height : ℤ), t.GetAncestor b height = .ok (if 0 ≤ height ∧ height ≤ t.nHeight b then
      ancestor t.pprev b (t.nHeight b - height.toNat) else none) := by
  have hs := skipsCorrectUpTo_of_skipsBuilt hg hb
  exact ⟨fun _ hk => GetSkipHeight_lt hk, fun b => GetAncestor_eq hg (hs _)⟩

/-- Four blocks in a line, with the skip pointers `BuildSkip` sets. -/
theorem GetAncestor_eq_pprev_walk_line : ∃ t : BlockTree (Fin 4),
    Graded t.pprev t.nHeight ∧ t.SkipsBuilt ∧
    (∀ k, 1 ≤ k → GetSkipHeight k < k) ∧
    ∀ (b : Fin 4) (height : ℤ), t.GetAncestor b height = .ok (if 0 ≤ height ∧ height ≤ t.nHeight b then
      ancestor t.pprev b (t.nHeight b - height.toNat) else none) := by
  let t : BlockTree (Fin 4) :=
    ⟨fun b => [none, some 0, some 1, some 2].getD b.val none,
      fun b => [none, some 0, some 0, some 1].getD b.val none, fun b => b.val⟩
  have hg : Graded t.pprev t.nHeight := ⟨by decide, by decide⟩
  have hc : t.SkipsCorrect := by
    unfold SkipsCorrect SkipOk
    decide
  have hb := (skipsCorrect_iff_skipsBuilt hg).1 hc
  exact ⟨t, hg, hb, GetAncestor_eq_pprev_walk t hg hb⟩

/-! ## Adding entries -/

section Index

variable (t) [DecidableEq ι]

/-- `CBlockIndex::BuildSkip`: point `pskip` of `pindex` at the ancestor of its parent at
`GetSkipHeight(nHeight)`. -/
def BuildSkip (pindex : ι) : Except AssertionFailed (BlockTree ι) :=
  match t.pprev pindex with
  | some pprev => do
    let pskip ← t.GetAncestor pprev (GetSkipHeight (t.nHeight pindex))
    pure { t with pskip := Function.update t.pskip pindex pskip }
  | none => pure t

/-- `new CBlockIndex(block)`: a fresh entry, with `pprev` and `pskip` `NULL` and height zero. -/
def newEntry (pindexNew : ι) : BlockTree ι where
  pprev := Function.update t.pprev pindexNew none
  pskip := Function.update t.pskip pindexNew none
  nHeight := Function.update t.nHeight pindexNew 0

@[simp] lemma newEntry_pprev (n : ι) : (t.newEntry n).pprev = Function.update t.pprev n none := rfl

@[simp] lemma newEntry_pskip (n : ι) : (t.newEntry n).pskip = Function.update t.pskip n none := rfl

@[simp] lemma newEntry_nHeight (n : ι) : (t.newEntry n).nHeight = Function.update t.nHeight n 0 :=
  rfl

/-- The part of `AddToBlockIndex` that links a new entry into the tree: a fresh entry; when
its parent `miPrev` is in the index, `pprev` and `nHeight` from it and then `BuildSkip`. -/
def AddToBlockIndex (pindexNew : ι) (miPrev : Option ι) : Except AssertionFailed (BlockTree ι) :=
  let t := t.newEntry pindexNew
  match miPrev with
  | some pprev =>
    BuildSkip { t with
      pprev := Function.update t.pprev pindexNew (some pprev)
      nHeight := Function.update t.nHeight pindexNew (t.nHeight pprev + 1) } pindexNew
  | none => pure t

/-- What the block index keeps: heights along `pprev`, and right skip pointers. -/
structure WellFormed : Prop where
  graded : Graded t.pprev t.nHeight
  skips : t.SkipsCorrect

/-- An entry nothing points to as its parent, as a pointer `new` has just returned. -/
def Unreferenced (n : ι) : Prop := ∀ x, t.pprev x ≠ some n

variable {t}

lemma BuildSkip_of_pprev {b p : ι} (hp : t.pprev b = some p) {pskip : Option ι}
    (hs : t.GetAncestor p (GetSkipHeight (t.nHeight b)) = .ok pskip) :
    t.BuildSkip b = .ok { t with pskip := Function.update t.pskip b pskip } := by
  unfold BuildSkip
  rw [hp]
  dsimp only
  rw [hs]
  rfl

/-- A skip pointer stays right when an entry nothing points to gets a new parent, while the
entry's own fields stay. -/
lemma SkipOk.frame {t' : BlockTree ι} {n b : ι} (hok : t.SkipOk b) (hn : t.Unreferenced n)
    {v : Option ι} (hprev : t'.pprev = Function.update t.pprev n v) (hb : b ≠ n)
    (hskip : t'.pskip b = t.pskip b) (hheight : t'.nHeight b = t.nHeight b) : t'.SkipOk b := by
  intro p hp
  rw [hprev, Function.update_of_ne hb] at hp
  rw [hskip, hok p hp, hheight, hprev, ancestor_update hn v hb]

/-- A fresh entry is a root, and nothing points to it. -/
lemma WellFormed.newEntry (hwf : t.WellFormed) {n : ι} (hn : t.Unreferenced n) :
    (t.newEntry n).WellFormed ∧ (t.newEntry n).Unreferenced n := by
  refine ⟨⟨hwf.graded.update hn none (Option.some_ne_none n).symm, fun b => ?_⟩, fun x => ?_⟩
  · by_cases hb : b = n
    · intro p hp
      rw [hb, newEntry_pprev, Function.update_self] at hp
      cases hp
    · exact (hwf.skips b).frame hn rfl hb (Function.update_of_ne hb _ _)
        (Function.update_of_ne hb _ _)
  · rw [newEntry_pprev]
    by_cases hx : x = n
    · rw [hx, Function.update_self]
      exact (Option.some_ne_none n).symm
    · rw [Function.update_of_ne hx]
      exact hn x

/-- **Adding an entry keeps the index well formed**, and trips no assertion: the walk that
`BuildSkip` asks for reads only entries below the new one, whose skip pointers are right. -/
theorem WellFormed.addToBlockIndex (hwf : t.WellFormed) {pindexNew : ι}
    (hn : t.Unreferenced pindexNew) {miPrev : Option ι} (hprev : miPrev ≠ some pindexNew) :
    ∃ t', t.AddToBlockIndex pindexNew miPrev = .ok t' ∧ t'.WellFormed := by
  obtain ⟨hwf₁, hn₁⟩ := hwf.newEntry hn
  unfold AddToBlockIndex
  dsimp only
  cases miPrev with
  | none => exact ⟨_, rfl, hwf₁⟩
  | some p =>
    set t₁ := t.newEntry pindexNew
    set t₂ : BlockTree ι := { t₁ with
      pprev := Function.update t₁.pprev pindexNew (some p)
      nHeight := Function.update t₁.nHeight pindexNew (t₁.nHeight p + 1) } with ht₂
    -- the linked entry: graded, and every other skip pointer still right
    have hg₂ : Graded t₂.pprev t₂.nHeight := hwf₁.graded.update hn₁ (some p) hprev
    have hpprev : t₂.pprev pindexNew = some p := Function.update_self _ _ _
    have hok₂ : ∀ b, b ≠ pindexNew → t₂.SkipOk b := fun b hb =>
      (hwf₁.skips b).frame hn₁ rfl hb rfl (Function.update_of_ne hb _ _)
    have hh₂ := hg₂.height_parent hpprev
    have hs₂ : t₂.SkipsCorrectUpTo (t₂.nHeight p) := fun b hbN =>
      hok₂ b fun h => by subst h; omega
    -- `BuildSkip` finds the parent's ancestor at `GetSkipHeight`
    have hlt : GetSkipHeight (t₂.nHeight pindexNew) < t₂.nHeight pindexNew :=
      GetSkipHeight_lt (by omega)
    have hget := GetAncestor_eq hg₂ hs₂ (GetSkipHeight (t₂.nHeight pindexNew))
    rw [if_pos ⟨by omega, by omega⟩, Int.toNat_natCast] at hget
    refine ⟨_, BuildSkip_of_pprev hpprev hget, hg₂, fun b => ?_⟩
    by_cases hb : b = pindexNew
    · subst hb
      intro q hq
      have hk : t₂.nHeight b - GetSkipHeight (t₂.nHeight b) =
          (t₂.nHeight p - GetSkipHeight (t₂.nHeight b)) + 1 := by omega
      show Function.update t₂.pskip b _ b = ancestor t₂.pprev b _
      rw [Function.update_self, hk, ancestor_of_parent _ hpprev]
    · intro q hq
      show Function.update t₂.pskip pindexNew _ b = _
      rw [Function.update_of_ne hb]
      exact hok₂ b hb q hq

end Index

/-! ## The index over whole runs -/

theorem empty_wellFormed : (empty : BlockTree ι).WellFormed where
  graded := ⟨fun h => absurd h (Option.some_ne_none _).symm, fun _ => rfl⟩
  skips _ _ hp := absurd hp (Option.some_ne_none _).symm

variable [DecidableEq ι]

/-- The trees `AddToBlockIndex` builds from the empty index, every new entry a pointer nothing
points to, whose parent is not itself. -/
inductive Indexed : BlockTree ι → Prop
  | empty : Indexed empty
  | add {t t' : BlockTree ι} {pindexNew : ι} {miPrev : Option ι} :
      Indexed t → t.Unreferenced pindexNew → miPrev ≠ some pindexNew →
      t.AddToBlockIndex pindexNew miPrev = .ok t' → Indexed t'


theorem Indexed.wellFormed (h : t.Indexed) : t.WellFormed := by
  induction h with
  | empty => exact empty_wellFormed
  | add _ hn hprev hadd ih =>
    obtain ⟨t', ht', hwf'⟩ := ih.addToBlockIndex hn hprev
    rw [hadd] at ht'
    cases ht'
    exact hwf'

/-- **The block index over whole runs.** Every tree `AddToBlockIndex` builds is graded, its skip
pointers are those `BuildSkip` set, `GetAncestor` from every entry is the walk along `pprev`, and
adding one more fresh entry trips no assertion. -/
theorem Indexed.invariant (h : t.Indexed) :
    Graded t.pprev t.nHeight ∧ t.SkipsBuilt ∧
    (∀ (b : ι) (height : ℤ), t.GetAncestor b height = .ok (if 0 ≤ height ∧ height ≤ t.nHeight b then
      ancestor t.pprev b (t.nHeight b - height.toNat) else none)) ∧
    ∀ pindexNew miPrev, t.Unreferenced pindexNew → miPrev ≠ some pindexNew →
      ∃ t', t.AddToBlockIndex pindexNew miPrev = .ok t' ∧ t'.Indexed := by
  have hwf := h.wellFormed
  refine ⟨hwf.graded, (skipsCorrect_iff_skipsBuilt hwf.graded).1 hwf.skips,
    fun b => GetAncestor_eq hwf.graded fun x _ => hwf.skips x, ?_⟩
  intro pindexNew miPrev hn hprev
  obtain ⟨t', ht', -⟩ := hwf.addToBlockIndex hn hprev
  exact ⟨t', ht', h.add hn hprev ht'⟩

end BlockTree

end MvfBu
