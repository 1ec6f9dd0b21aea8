import Mathlib.Data.List.Chain
import MvfBu.Chain.SkipList

set_option autoImplicit false

/-!
# The active chain (`CChain` in `chain.h`, `chain.cpp`)

`CChain` keeps the active chain as a vector `vChain` of entries by height. `SetTip` resizes the
vector to the new tip's height and writes the tip and its ancestors down from the top, until it
meets an entry already in place. `Contains` looks an entry up at its height, `FindFork` walks
an entry down to the chain, and `GetLocator` collects entries back to genesis in steps that
double after the first ten.

Stopping at the first entry in place is right only because the old vector was itself the path
to a tip: below a shared entry the old and the new tips have the same ancestors. That is the
invariant every `SetTip` keeps, and `Contains`, `FindFork` and `GetLocator` rest on it.

## Main definitions

* `MvfBu.Chain.CChain` — the vector `vChain`.
* `MvfBu.Chain.CChain.SetTip`, `MvfBu.Chain.CChain.Contains`, `MvfBu.Chain.CChain.FindFork`,
  `MvfBu.Chain.CChain.GetLocator`.
* `MvfBu.BlockTree.pathTo` — the entries from genesis to an entry.
* `MvfBu.Chain.CChain.IsPath` — the vector is empty or the path to some entry.
* `MvfBu.Chain.CChain.IsFork`, `MvfBu.Chain.CChain.IsLocator` — what `FindFork` and
  `GetLocator` are for.

## Main results

* `MvfBu.Chain.CChain.SetTip_eq` — from a vector that is a path, `SetTip` leaves the path to
  the new tip.
* `MvfBu.Chain.CChain.contains_iff` — `Contains` is being an ancestor of the tip.
* `MvfBu.Chain.CChain.FindFork_spec` — `FindFork` returns the last common ancestor with the tip.
* `MvfBu.Chain.CChain.GetLocator_spec` — the locator starts at its entry, goes strictly down in
  height along ancestors, and ends at the genesis block.
* `MvfBu.Chain.CChain.SetTip_run_consistent` — all of these over every run of `SetTip`.

## Implementation notes

The chain lives in the namespace `MvfBu.Chain`: `Validation/ChainSelection.lean` models
`CChain::Contains` on its own representation of entries, as `MvfBu.CChain.Contains`. The loops
of `SetTip`, `FindFork` and `GetLocator` run on fuel, the height of the entry they
start from and one more: each pass goes at least one height down. `nStep` of `GetLocator` is a
natural number: the source's `int` would only overflow past heights of `2 ^ 31`.
-/

namespace MvfBu

open Ancestry

namespace BlockTree

variable {ι : Type} (t : BlockTree ι)

/-- The entries from genesis to `q`, by height: the ancestor of `q` at each height. -/
def pathTo (q : ι) : List (Option ι) :=
  (List.range (t.nHeight q + 1)).map fun i => ancestor t.pprev q (t.nHeight q - i)

theorem length_pathTo (q : ι) : (t.pathTo q).length = t.nHeight q + 1 := by
  rw [pathTo, List.length_map, List.length_range]

theorem getD_pathTo (q : ι) (i : ℕ) :
    (t.pathTo q).getD i none = if i ≤ t.nHeight q then ancestor t.pprev q (t.nHeight q - i) else none := by
  rw [List.getD_eq_getElem?_getD, pathTo, List.getElem?_map]
  by_cases hi : i ≤ t.nHeight q
  · rw [List.getElem?_range (by omega), if_pos hi]
    rfl
  · rw [List.getElem?_eq_none (by rw [List.length_range]; omega), if_neg hi]
    rfl

end BlockTree

namespace Chain

/-- `CChain`: the active chain, its entries by height. -/
structure CChain (ι : Type) where
  vChain : List (Option ι)

namespace CChain

variable {ι : Type} (t : BlockTree ι) (c : CChain ι)

/-- `CChain::operator[]`: the entry at a height, `NULL` outside the vector. -/
def get (nHeight : ℤ) : Option ι :=
  if nHeight < 0 ∨ nHeight ≥ c.vChain.length then none else c.vChain.getD nHeight.toNat none

/-- `CChain::Tip`: the last entry, `NULL` for an empty chain. -/
def Tip : Option ι :=
  if c.vChain.length > 0 then c.vChain.getD (c.vChain.length - 1) none else none

/-- `CChain::Height`: the height of the tip, `-1` for an empty chain. -/
def Height : ℤ := c.vChain.length - 1

/-- `std::vector::resize`: cut to `n` entries or pad with `NULL`. -/
def resize (v : List (Option ι)) (n : ℕ) : List (Option ι) :=
  v.take n ++ List.replicate (n - v.length) none

section Ops

variable [DecidableEq ι]

/-- `CChain::Contains`: the chain holds `pindex` at its height. -/
def Contains (pindex : ι) : Bool := c.get (t.nHeight pindex) == some pindex

/-- The loop of `SetTip`: from `pindex` down along `pprev`, write each entry at its height
until one is already in place. -/
def SetTipLoop : ℕ → List (Option ι) → Option ι → List (Option ι)
  | 0, vChain, _ => vChain
  | _ + 1, vChain, none => vChain
  | fuel + 1, vChain, some pindex =>
    if vChain.getD (t.nHeight pindex) none ≠ some pindex then
      SetTipLoop fuel (vChain.set (t.nHeight pindex) (some pindex)) (t.pprev pindex)
    else vChain

/-- `CChain::SetTip`: make `pindex` the tip; `NULL` clears the chain. -/
def SetTip (pindex : Option ι) : CChain ι :=
  match pindex with
  | none => ⟨[]⟩
  | some p => ⟨SetTipLoop t (t.nHeight p + 1) (resize c.vChain (t.nHeight p + 1)) (some p)⟩

/-- The loop of `FindFork`: down along `pprev` until an entry the chain contains. -/
def FindForkLoop : ℕ → Option ι → Option ι
  | 0, pindex => pindex
  | _ + 1, none => none
  | fuel + 1, some pindex =>
    if c.Contains t pindex then some pindex else FindForkLoop fuel (t.pprev pindex)

/-- `CChain::FindFork`: the last entry of the chain that `pindex` descends from; an entry above
the tip is first taken down to the tip's height. -/
def FindFork (pindex : Option ι) : Except AssertionFailed (Option ι) :=
  match pindex with
  | none => pure none
  | some p => do
    let pindex ← if (t.nHeight p : ℤ) > c.Height then t.GetAncestor p c.Height else pure (some p)
    pure (c.FindForkLoop t (t.nHeight p + 1) pindex)

/-- The loop of `GetLocator`: push each entry, stop after the genesis block, and step back
`nStep` heights, through `vChain` if the chain contains the entry and the skip list if not;
`nStep` doubles once more than ten entries are in. -/
def GetLocatorLoop : ℕ → Option ι → ℕ → List ι → Except AssertionFailed (List ι)
  | 0, _, _, vHave => pure vHave
  | _ + 1, none, _, vHave => pure vHave
  | fuel + 1, some pindex, nStep, vHave =>
    let vHave := vHave ++ [pindex]
    if t.nHeight pindex = 0 then pure vHave
    else do
      let nHeight := max ((t.nHeight pindex : ℤ) - nStep) 0
      let pindex ← if c.Contains t pindex then pure (c.get nHeight) else t.GetAncestor pindex nHeight
      GetLocatorLoop fuel pindex (if vHave.length > 10 then nStep * 2 else nStep) vHave

/-- `CChain::GetLocator`: the hashes of the entries the loop collects, from `pindex` or, for
`NULL`, from the tip. -/
def GetLocator {β : Type} (GetBlockHash : ι → β) (pindex : Option ι) :
    Except AssertionFailed (List β) :=
  let pindex := if pindex.isNone then c.Tip else pindex
  let fuel := match pindex with
    | some p => t.nHeight p + 1
    | none => 0
  List.map GetBlockHash <$> c.GetLocatorLoop t fuel pindex 1 []

end Ops

/-! ## The vector, entry by entry -/

section Vector

variable {ι : Type}

lemma getD_set (l : List (Option ι)) (h i : ℕ) (v : Option ι) :
    (l.set h v).getD i none = if i = h ∧ h < l.length then v else l.getD i none := by
  rw [List.getD_eq_getElem?_getD, List.getD_eq_getElem?_getD, List.getElem?_set]
  by_cases hi : i = h
  · subst hi
    by_cases hl : i < l.length
    · rw [if_pos rfl, if_pos hl, if_pos ⟨rfl, hl⟩]
      rfl
    · rw [if_pos rfl, if_neg hl, if_neg (fun h => hl h.2), List.getElem?_eq_none (by omega)]
  · rw [if_neg (Ne.symm hi), if_neg (fun h => hi h.1)]

lemma length_resize (v : List (Option ι)) (n : ℕ) : (resize v n).length = n := by
  rw [resize, List.length_append, List.length_take, List.length_replicate]
  omega

lemma getD_resize (v : List (Option ι)) (n i : ℕ) :
    (resize v n).getD i none = if i < n then v.getD i none else none := by
  rw [List.getD_eq_getElem?_getD, List.getD_eq_getElem?_getD, resize, List.getElem?_append,
    List.getElem?_take, List.length_take, List.getElem?_replicate]
  by_cases hn : i < n
  · by_cases hv : i < v.length
    · rw [if_pos (by omega : i < min n v.length), if_pos hn, if_pos hn]
    · rw [if_neg (by omega : ¬i < min n v.length),
        if_pos (by omega : i - min n v.length < n - v.length), if_pos hn,
        List.getElem?_eq_none (by omega : v.length ≤ i)]
      rfl
  · rw [if_neg (by omega : ¬i < min n v.length),
      if_neg (by omega : ¬i - min n v.length < n - v.length), if_neg hn]
    rfl

/-- Two vectors of one length that read alike at every index are equal. -/
lemma eq_of_getD {l₁ l₂ : List (Option ι)} (hl : l₁.length = l₂.length)
    (h : ∀ i, l₁.getD i none = l₂.getD i none) : l₁ = l₂ := by
  apply List.ext_getElem hl
  intro i h₁ h₂
  have hi := h i
  rw [List.getD_eq_getElem?_getD, List.getD_eq_getElem?_getD, List.getElem?_eq_getElem h₁,
    List.getElem?_eq_getElem h₂] at hi
  exact hi

end Vector

/-- The vector is empty or the path from genesis to some entry. -/
def IsPath : Prop := c.vChain = [] ∨ ∃ q, c.vChain = t.pathTo q

/-- What `FindFork(b)` is for: the last common ancestor of `b` and the tip, `NULL` when there is
no tip or no common ancestor. -/
def IsFork (b : ι) (r : Option ι) : Prop :=
  (∀ a, r = some a → ∃ q, c.Tip = some q ∧ IsLastCommonAncestor t.pprev a b q) ∧
    (r = none → ∀ q, c.Tip = some q → ∀ d, IsAncestor t.pprev d b → ¬IsAncestor t.pprev d q)

/-- What a locator from `b` is: entries from `b` itself, each an ancestor of `b`, strictly down
in height, ending at a genesis block. -/
def IsLocator (b : ι) (l : List ι) : Prop :=
  l.head? = some b ∧ (∀ y ∈ l, IsAncestor t.pprev y b) ∧
    l.IsChain (fun y z => t.nHeight z < t.nHeight y) ∧ ∃ g, l.getLast? = some g ∧ t.nHeight g = 0

variable {t c}

lemma get_nil (hc : c.vChain = []) (h : ℤ) : c.get h = none := by
  rw [get, hc, if_pos (by simp only [List.length_nil, Nat.cast_zero]; omega)]

lemma Tip_nil (hc : c.vChain = []) : c.Tip = none := by
  rw [Tip, hc, if_neg (by simp)]

lemma get_pathTo {q : ι} (hc : c.vChain = t.pathTo q) (h : ℤ) :
    c.get h = if 0 ≤ h ∧ h ≤ t.nHeight q then ancestor t.pprev q (t.nHeight q - h.toNat) else none := by
  rw [get, hc, BlockTree.length_pathTo]
  by_cases hh : 0 ≤ h ∧ h ≤ t.nHeight q
  · rw [if_neg (by push_cast; omega), if_pos hh, BlockTree.getD_pathTo, if_pos (by omega)]
  · rw [if_pos (by push_cast; omega), if_neg hh]

lemma Tip_pathTo {q : ι} (hc : c.vChain = t.pathTo q) : c.Tip = some q := by
  rw [Tip, hc, BlockTree.length_pathTo, if_pos (by omega), Nat.add_sub_cancel,
    BlockTree.getD_pathTo, if_pos le_rfl, Nat.sub_self, ancestor_zero]

lemma Height_pathTo {q : ι} (hc : c.vChain = t.pathTo q) : c.Height = t.nHeight q := by
  rw [Height, hc, BlockTree.length_pathTo]
  push_cast
  ring

/-! ## `SetTip` -/

section Specs

variable [DecidableEq ι] (hg : Graded t.pprev t.nHeight)
include hg

/-- The loop of `SetTip` towards the path `P` to `p`, over the resized vector `R`. At the entry
`x` of height `h` on the way, the vector holds `R` up to `h` and `P` above; where `R` already has
`x`, it holds `P` below as well (`hagree`), and the loop may stop. -/
theorem SetTipLoop_eq {p : ι} {R : List (Option ι)}
    (hagree : ∀ x h, R.getD h none = some x → ancestor t.pprev p (t.nHeight p - h) = some x →
      ∀ i ≤ h, R.getD i none = (t.pathTo p).getD i none) :
    ∀ (h : ℕ) (x : ι) (W : List (Option ι)) (fuel : ℕ), t.nHeight x = h →
      ancestor t.pprev p (t.nHeight p - h) = some x → h < fuel → W.length = t.nHeight p + 1 →
      (∀ i, W.getD i none = if i ≤ h then R.getD i none else (t.pathTo p).getD i none) →
      SetTipLoop t fuel W (some x) = t.pathTo p := by
  have hP := BlockTree.length_pathTo t p
  intro h x W fuel
  -- induction on the fuel, one pass and one height down at a time
  induction fuel generalizing h x W with
  | zero =>
    intro _ _ hfuel
    omega
  | succ f ih =>
    intro hx hanc _ hW hWget
    have hh : h ≤ t.nHeight p := by
      have := hg.height_ancestor hanc
      omega
    have hloop : SetTipLoop t (f + 1) W (some x) =
        if W.getD (t.nHeight x) none ≠ some x then
          SetTipLoop t f (W.set (t.nHeight x) (some x)) (t.pprev x)
        else W := rfl
    have hat : W.getD (t.nHeight x) none = R.getD h none := by rw [hx, hWget, if_pos le_rfl]
    rw [hloop, hat, hx]
    by_cases hin : R.getD h none = some x
    · -- the entry is in place: below it the old path is the new one
      rw [if_neg (not_not.2 hin)]
      apply eq_of_getD (hW.trans hP.symm)
      intro i
      rw [hWget i]
      split_ifs with hi
      · exact hagree x h hin hanc i hi
      · rfl
    · rw [if_pos hin]
      -- writing the entry moves the boundary one height down
      have hW' : ∀ i, (W.set h (some x)).getD i none =
          if i < h then R.getD i none else (t.pathTo p).getD i none := by
        intro i
        rw [getD_set, hWget]
        by_cases hi : i = h
        · rw [if_pos ⟨hi, by omega⟩, if_neg (by omega), BlockTree.getD_pathTo, if_pos (by omega),
            hi, hanc]
        · rw [if_neg fun h' => hi h'.1]
          by_cases hlt : i < h
          · rw [if_pos hlt.le, if_pos hlt]
          · rw [if_neg (by omega), if_neg hlt]
      cases hpx : t.pprev x with
      | none =>
        -- the genesis block: the loop ends with the whole path written
        have h₀ : h = 0 := hx ▸ hg.height_root hpx
        have hend : SetTipLoop t f (W.set h (some x)) none = W.set h (some x) := by
          cases f <;> rfl
        rw [hend]
        apply eq_of_getD (by rw [List.length_set, hW, hP])
        intro i
        rw [hW' i, if_neg (by omega)]
      | some y =>
        have hy := hg.height_parent hpx
        refine ih (h - 1) y (W.set h (some x)) (by omega) ?_ (by omega)
          (by rw [List.length_set, hW]) ?_
        · have hk : t.nHeight p - (h - 1) = (t.nHeight p - h) + 1 := by omega
          rw [hk, ancestor_succ', hanc, Option.bind_some, hpx]
        · intro i
          rw [hW' i]
          by_cases hlt : i < h
          · rw [if_pos hlt, if_pos (by omega)]
          · rw [if_neg hlt, if_neg (by omega)]

/-- **`SetTip` keeps the vector a path.** From a vector that is empty or the path to some entry,
`SetTip(p)` leaves the path to `p`: every entry the loop stops at has the old and the new tip's
common ancestors below it. -/
theorem SetTip_eq (hc : c.IsPath t) (p : ι) : c.SetTip t (some p) = ⟨t.pathTo p⟩ := by
  have hP := BlockTree.length_pathTo t p
  have hR := length_resize c.vChain (t.nHeight p + 1)
  show CChain.mk _ = _
  congr 1
  refine SetTipLoop_eq hg (R := resize c.vChain (t.nHeight p + 1)) ?_ (t.nHeight p) p _ _ rfl (by rw [Nat.sub_self]; rfl) (by omega) hR ?_
  · -- an entry of the old path at its height: the old tip's ancestors below it are the new tip's
    intro x h hx hanc i hi
    rw [getD_resize] at hx ⊢
    have hh : h < t.nHeight p + 1 := by
      by_contra hh
      rw [if_neg hh] at hx
      cases hx
    rw [if_pos hh] at hx
    rw [if_pos (by omega), BlockTree.getD_pathTo, if_pos (by omega)]
    rcases hc with hnil | ⟨q, hq⟩
    · rw [hnil, List.getD_nil] at hx
      cases hx
    · rw [hq, BlockTree.getD_pathTo] at hx ⊢
      have hhq : h ≤ t.nHeight q := by
        by_contra hhq
        rw [if_neg hhq] at hx
        cases hx
      rw [if_pos hhq] at hx
      rw [if_pos (by omega)]
      have hq' : t.nHeight q - i = (t.nHeight q - h) + (h - i) := by omega
      have hp' : t.nHeight p - i = (t.nHeight p - h) + (h - i) := by omega
      rw [hq', hp', ancestor_add_of_eq _ hx, ancestor_add_of_eq _ hanc]
  · intro i
    by_cases hi : i ≤ t.nHeight p
    · rw [if_pos hi]
    · rw [if_neg hi, getD_resize, if_neg (by omega), BlockTree.getD_pathTo, if_neg hi]

theorem IsPath.SetTip (hc : c.IsPath t) (pindex : Option ι) : (c.SetTip t pindex).IsPath t := by
  cases pindex with
  | none => exact Or.inl rfl
  | some p => exact Or.inr ⟨p, by rw [SetTip_eq hg hc]⟩

/-! ## `Contains` and `FindFork` -/

/-- **`Contains` is being an ancestor of the tip.** -/
theorem contains_iff (hc : c.IsPath t) (b : ι) :
    c.Contains t b = true ↔ ∃ q, c.Tip = some q ∧ IsAncestor t.pprev b q := by
  unfold Contains
  rw [beq_iff_eq]
  rcases hc with hnil | ⟨q, hq⟩
  · rw [get_nil hnil, Tip_nil hnil]
    constructor
    · intro h
      cases h
    · rintro ⟨q, hq, -⟩
      cases hq
  · rw [get_pathTo hq, Tip_pathTo hq]
    constructor
    · intro h
      by_cases hb : 0 ≤ (t.nHeight b : ℤ) ∧ (t.nHeight b : ℤ) ≤ t.nHeight q
      · rw [if_pos hb, Int.toNat_natCast] at h
        exact ⟨q, rfl, hg.isAncestor_iff.2 ⟨by omega, h⟩⟩
      · rw [if_neg hb] at h
        cases h
    · rintro ⟨q', hq', hbq⟩
      cases hq'
      obtain ⟨hle, h⟩ := hg.isAncestor_iff.1 hbq
      rw [if_pos ⟨by omega, by exact_mod_cast hle⟩, Int.toNat_natCast, h]

/-- Through `vChain`, an entry the chain contains finds its own ancestors. -/
lemma get_of_contains (hc : c.IsPath t) {x : ι} (hx : c.Contains t x = true) {h : ℤ} (h₀ : 0 ≤ h)
    (hh : h ≤ t.nHeight x) : c.get h = ancestor t.pprev x (t.nHeight x - h.toNat) := by
  obtain ⟨q, hTip, hxq⟩ := (contains_iff hg hc x).1 hx
  rcases hc with hnil | ⟨q', hq⟩
  · rw [Tip_nil hnil] at hTip
    cases hTip
  · rw [Tip_pathTo hq, Option.some_inj] at hTip
    subst hTip
    obtain ⟨hle, hanc⟩ := hg.isAncestor_iff.1 hxq
    rw [get_pathTo hq, if_pos ⟨h₀, by omega⟩]
    have hk : t.nHeight q' - h.toNat = (t.nHeight q' - t.nHeight x) + (t.nHeight x - h.toNat) := by
      omega
    rw [hk, ancestor_add_of_eq _ hanc]

/-- The loop of `FindFork` from `x` ends at the highest ancestor of `x` the chain contains, or
at `NULL` when it contains none. -/
theorem FindForkLoop_spec : ∀ (fuel : ℕ) (x : ι), t.nHeight x < fuel →
    (∀ a, c.FindForkLoop t fuel (some x) = some a → IsAncestor t.pprev a x ∧
      c.Contains t a = true ∧
      ∀ d, IsAncestor t.pprev d x → c.Contains t d = true → IsAncestor t.pprev d a) ∧
    (c.FindForkLoop t fuel (some x) = none →
      ∀ d, IsAncestor t.pprev d x → c.Contains t d = false) := by
  intro fuel
  induction fuel with
  | zero =>
    intro x hx
    omega
  | succ f ih =>
    intro x hx
    have hloop : c.FindForkLoop t (f + 1) (some x) =
        if c.Contains t x then some x else c.FindForkLoop t f (t.pprev x) := rfl
    rw [hloop]
    by_cases hin : c.Contains t x = true
    · rw [if_pos hin]
      refine ⟨?_, fun h => nomatch h⟩
      rintro a ⟨⟩
      exact ⟨IsAncestor.refl _ x, hin, fun d hd _ => hd⟩
    · rw [if_neg hin]
      cases hpx : t.pprev x with
      | none =>
        -- past the genesis block: the chain contains no ancestor of `x`
        have hend : c.FindForkLoop t f none = none := by
          cases f <;> rfl
        rw [hend]
        refine ⟨fun _ h => (nomatch h), fun _ d hd => ?_⟩
        rw [hd.eq_of_root hpx]
        exact eq_false_of_ne_true hin
      | some y =>
        have hy := hg.height_parent hpx
        obtain ⟨ih₁, ih₂⟩ := ih y (by omega)
        -- the ancestors of `x` the chain contains are ancestors of `y`
        have hbelow : ∀ d, IsAncestor t.pprev d x → c.Contains t d = true →
            IsAncestor t.pprev d y := fun d hd hdin =>
          hd.of_parent hpx fun h => hin (h ▸ hdin)
        refine ⟨fun a ha => ?_, fun hn d hd => ?_⟩
        · obtain ⟨hay, hain, hmax⟩ := ih₁ a ha
          exact ⟨hay.trans (isAncestor_of_parent hpx), hain,
            fun d hd hdin => hmax d (hbelow d hd hdin) hdin⟩
        · by_cases hdin : c.Contains t d = true
          · have := ih₂ hn d (hbelow d hd hdin)
            rw [hdin] at this
            cases this
          · exact eq_false_of_ne_true hdin

variable (hs : t.SkipsCorrect)
include hs

/-- **`FindFork` is the last common ancestor with the tip**, and `NULL` when there is no tip or
no common ancestor. -/
theorem FindFork_spec (hc : c.IsPath t) (b : ι) :
    ∃ r, c.FindFork t (some b) = .ok r ∧ c.IsFork t b r := by
  have hget := BlockTree.GetAncestor_eq hg (b := b) fun x _ => hs x
  rcases hc with hnil | ⟨q, hq⟩
  · -- an empty chain: `Height()` is `-1`, below every entry, and the walk finds `NULL`
    have hH : c.Height = -1 := by
      rw [Height, hnil]
      rfl
    refine ⟨none, ?_, fun _ h => (nomatch h), fun _ q hq => ?_⟩
    swap
    · rw [Tip_nil hnil] at hq
      cases hq
    unfold FindFork
    dsimp only
    rw [hH, if_pos (by omega), hget, if_neg (by omega)]
    show Except.ok (c.FindForkLoop t (t.nHeight b + 1) none) = _
    rfl
  · have hH := Height_pathTo hq
    have hpath : c.IsPath t := Or.inr ⟨q, hq⟩
    -- the walk starts at the ancestor of `b` at the lower of the two heights
    obtain ⟨y, hstart, hyb, hyh, hbelow⟩ : ∃ y,
        c.FindFork t (some b) = .ok (c.FindForkLoop t (t.nHeight b + 1) (some y)) ∧
        IsAncestor t.pprev y b ∧ t.nHeight y ≤ t.nHeight b ∧
        ∀ d, IsAncestor t.pprev d b → IsAncestor t.pprev d q → IsAncestor t.pprev d y := by
      unfold FindFork
      dsimp only
      rw [hH]
      by_cases hgt : t.nHeight b > t.nHeight q
      · obtain ⟨y, hy⟩ := hg.exists_ancestor (b := b) (k := t.nHeight b - t.nHeight q) (by omega)
        have hyq := hg.height_ancestor hy
        refine ⟨y, ?_, ⟨_, hy⟩, by omega, fun d hd hdq => ?_⟩
        · rw [if_pos (by exact_mod_cast hgt), hget, if_pos (by omega), Int.toNat_natCast, hy]
          rfl
        · have hdh := (hg.isAncestor_iff.1 hdq).1
          exact hg.isAncestor_of_le hd ⟨_, hy⟩ (by omega)
      · refine ⟨b, by rw [if_neg (by exact_mod_cast hgt)]; rfl, IsAncestor.refl _ b, le_rfl,
          fun d hd _ => hd⟩
    obtain ⟨hsome, hnone⟩ := FindForkLoop_spec hg (c := c) (t.nHeight b + 1) y (by omega)
    refine ⟨c.FindForkLoop t (t.nHeight b + 1) (some y), hstart, fun a ha => ?_,
      fun hn q' hq' d hd hdq => ?_⟩
    · obtain ⟨hay, hain, hmax⟩ := hsome a ha
      obtain ⟨q', hq', haq⟩ := (contains_iff hg hpath a).1 hain
      refine ⟨q', hq', hay.trans hyb, haq, fun d hd hdq => ?_⟩
      rw [Tip_pathTo hq, Option.some_inj] at hq'
      subst hq'
      exact hmax d (hbelow d hd hdq) ((contains_iff hg hpath d).2 ⟨_, Tip_pathTo hq, hdq⟩)
    · rw [Tip_pathTo hq, Option.some_inj] at hq'
      subst hq'
      have := hnone hn d (hbelow d hd hdq)
      rw [(contains_iff hg hpath d).2 ⟨_, Tip_pathTo hq, hdq⟩] at this
      cases this

/-! ## `GetLocator` -/

/-- The loop of `GetLocator` from `x` appends entries that start at `x`, go strictly down in
height along ancestors of `x`, and end at height zero. -/
theorem GetLocatorLoop_spec (hc : c.IsPath t) : ∀ (fuel : ℕ) (x : ι) (nStep : ℕ) (vHave : List ι),
    t.nHeight x < fuel → 1 ≤ nStep →
    ∃ l, c.GetLocatorLoop t fuel (some x) nStep vHave = .ok (vHave ++ l) ∧ IsLocator t x l := by
  intro fuel
  induction fuel with
  | zero =>
    intro x _ _ hx
    omega
  | succ f ih =>
    intro x nStep vHave hx hstep
    by_cases h₀ : t.nHeight x = 0
    · -- the genesis block ends the locator
      refine ⟨[x], ?_, rfl, fun y hy => ?_, List.isChain_singleton x, x, rfl, h₀⟩
      · rw [GetLocatorLoop, if_pos h₀]
        rfl
      · rw [List.mem_singleton.1 hy]
        exact IsAncestor.refl _ x
    · -- one step back, to the ancestor at `max(nHeight - nStep, 0)`, by either route
      set nHeight : ℤ := max ((t.nHeight x : ℤ) - nStep) 0 with hnHeight
      have hn₀ : 0 ≤ nHeight := le_max_right _ _
      have hnx : nHeight < t.nHeight x := by omega
      obtain ⟨y, hy⟩ := hg.exists_ancestor (b := x) (k := t.nHeight x - nHeight.toNat) (by omega)
      have hyh := hg.height_ancestor hy
      set nStep' := if (vHave ++ [x]).length > 10 then nStep * 2 else nStep with hnStep'
      have hloop : c.GetLocatorLoop t (f + 1) (some x) nStep vHave =
          c.GetLocatorLoop t f (some y) nStep' (vHave ++ [x]) := by
        rw [GetLocatorLoop, if_neg h₀]
        dsimp only
        rw [← hnHeight, ← hnStep']
        split_ifs with hin
        · rw [get_of_contains hg hc hin hn₀ hnx.le, hy]
          rfl
        · rw [BlockTree.GetAncestor_eq hg (fun z _ => hs z), if_pos ⟨hn₀, hnx.le⟩, hy]
          rfl
      obtain ⟨l, hres, hhead, hanc, hchain, g, hlast, hg₀⟩ :=
        ih y nStep' (vHave ++ [x]) (by omega) (by rw [hnStep']; split_ifs <;> omega)
      obtain ⟨l', rfl⟩ : ∃ l', l = y :: l' := by
        cases l with
        | nil => cases hhead
        | cons z l' =>
          rw [List.head?_cons, Option.some_inj] at hhead
          exact ⟨l', by rw [hhead]⟩
      refine ⟨x :: y :: l', ?_, rfl, fun z hz => ?_, ?_, g, ?_, hg₀⟩
      · rw [hloop, hres, List.append_assoc]
        rfl
      · rcases List.mem_cons.1 hz with rfl | hz
        · exact IsAncestor.refl _ z
        · exact (hanc z hz).trans ⟨_, hy⟩
      · exact List.IsChain.cons_cons (by omega) hchain
      · rw [List.getLast?_cons_cons]
        exact hlast

/-- **The locator goes back to genesis.** From `pindex`, or from the tip for `NULL`, `GetLocator`
returns the hashes of entries that start at that entry, are its ancestors, go strictly down in
height, and end at its genesis block; with neither an entry nor a tip it is empty. -/
theorem GetLocator_spec (hc : c.IsPath t) {β : Type} (GetBlockHash : ι → β) (pindex : Option ι) :
    (pindex = none → c.Tip = none → c.GetLocator t GetBlockHash pindex = .ok []) ∧
    ∀ b, (pindex = some b ∨ (pindex = none ∧ c.Tip = some b)) →
      ∃ l, c.GetLocator t GetBlockHash pindex = .ok (l.map GetBlockHash) ∧ IsLocator t b l := by
  refine ⟨fun hp hTip => ?_, fun b hb => ?_⟩
  · subst hp
    unfold GetLocator
    dsimp only
    rw [if_pos Option.isNone_none, hTip]
    rfl
  · -- the entry the locator starts from
    have hstart : (if pindex.isNone then c.Tip else pindex) = some b := by
      rcases hb with rfl | ⟨rfl, hTip⟩
      · rfl
      · rw [if_pos Option.isNone_none, hTip]
    obtain ⟨l, hres, hrest⟩ := GetLocatorLoop_spec hg hs hc (t.nHeight b + 1) b 1 [] (by omega) le_rfl
    refine ⟨l, ?_, hrest⟩
    unfold GetLocator
    dsimp only
    rw [hstart]
    dsimp only
    rw [hres]
    rfl

end Specs

/-- **The active chain over any run of `SetTip`.** In a block tree whose entries are one above
their parents and whose skip pointers `BuildSkip` set, every sequence of `SetTip` calls from the
empty chain leaves, after a call with an entry `p`, a vector of `nHeight + 1` entries that holds
`p.GetAncestor(i)` at each height `i`; and at every point `Contains` is being an ancestor of the
tip, `FindFork` is the last common ancestor with the tip, and `GetLocator` collects a locator. -/
theorem SetTip_run_consistent [DecidableEq ι] (t : BlockTree ι) (hg : Graded t.pprev t.nHeight)
    (hb : t.SkipsBuilt) (ps : List (Option ι)) :
    let c : CChain ι := ps.foldl (fun c p => c.SetTip t p) ⟨[]⟩
    (∀ p : ι, (c.SetTip t (some p)).vChain.length = t.nHeight p + 1 ∧
      ∀ i : ℕ, i ≤ t.nHeight p → t.GetAncestor p i = .ok ((c.SetTip t (some p)).vChain.getD i none)) ∧
    (∀ b, c.Contains t b = true ↔ ∃ q, c.Tip = some q ∧ IsAncestor t.pprev b q) ∧
    c.FindFork t none = .ok none ∧ (∀ b, ∃ r, c.FindFork t (some b) = .ok r ∧ c.IsFork t b r) ∧
    ∀ {β : Type} (GetBlockHash : ι → β) (pindex : Option ι),
      (pindex = none → c.Tip = none → c.GetLocator t GetBlockHash pindex = .ok []) ∧
      ∀ b, (pindex = some b ∨ (pindex = none ∧ c.Tip = some b)) →
        ∃ l, c.GetLocator t GetBlockHash pindex = .ok (l.map GetBlockHash) ∧ IsLocator t b l := by
  intro c
  have hs : t.SkipsCorrect := (BlockTree.skipsCorrect_iff_skipsBuilt hg).2 hb
  -- every `SetTip` keeps the vector a path, from the empty one on
  have hc : c.IsPath t := by
    have hrun : ∀ (ps : List (Option ι)) (c₀ : CChain ι), c₀.IsPath t →
        (ps.foldl (fun c p => c.SetTip t p) c₀).IsPath t := by
      intro ps
      induction ps with
      | nil => exact fun _ h => h
      | cons p ps ih => exact fun c₀ h => ih _ (IsPath.SetTip hg h p)
    exact hrun ps ⟨[]⟩ (Or.inl rfl)
  refine ⟨fun p => ?_, contains_iff hg hc, rfl, FindFork_spec hg hs hc,
    fun GetBlockHash pindex => GetLocator_spec hg hs hc GetBlockHash pindex⟩
  rw [SetTip_eq hg hc]
  refine ⟨BlockTree.length_pathTo t p, fun i hi => ?_⟩
  rw [BlockTree.GetAncestor_eq hg (fun x _ => hs x), if_pos ⟨by omega, by exact_mod_cast hi⟩,
    Int.toNat_natCast, BlockTree.getD_pathTo, if_pos hi]

/-- Four blocks in a line, with the skip pointers `BuildSkip` sets, and the tip set to the last
block and then back to the second. -/
theorem SetTip_run_consistent_line : ∃ t : BlockTree (Fin 4),
    Graded t.pprev t.nHeight ∧ t.SkipsBuilt ∧
    let c : CChain (Fin 4) := [some 3, some 1].foldl (fun c p => c.SetTip t p) ⟨[]⟩
    (∀ p : Fin 4, (c.SetTip t (some p)).vChain.length = t.nHeight p + 1 ∧
      ∀ i : ℕ, i ≤ t.nHeight p → t.GetAncestor p i = .ok ((c.SetTip t (some p)).vChain.getD i none)) ∧
    (∀ b, c.Contains t b = true ↔ ∃ q, c.Tip = some q ∧ IsAncestor t.pprev b q) ∧
    c.FindFork t none = .ok none ∧ (∀ b, ∃ r, c.FindFork t (some b) = .ok r ∧ c.IsFork t b r) ∧
    ∀ {β : Type} (GetBlockHash : Fin 4 → β) (pindex : Option (Fin 4)),
      (pindex = none → c.Tip = none → c.GetLocator t GetBlockHash pindex = .ok []) ∧
      ∀ b, (pindex = some b ∨ (pindex = none ∧ c.Tip = some b)) →
        ∃ l, c.GetLocator t GetBlockHash pindex = .ok (l.map GetBlockHash) ∧ IsLocator t b l := by
  let t : BlockTree (Fin 4) :=
    ⟨fun b => [none, some 0, some 1, some 2].getD b.val none,
      fun b => [none, some 0, some 0, some 1].getD b.val none, fun b => b.val⟩
  have hg : Graded t.pprev t.nHeight := ⟨by decide, by decide⟩
  have hc : t.SkipsCorrect := by
    unfold BlockTree.SkipsCorrect BlockTree.SkipOk
    decide
  have hb := (BlockTree.skipsCorrect_iff_skipsBuilt hg).1 hc
  exact ⟨t, hg, hb, SetTip_run_consistent t hg hb _⟩

end CChain

end Chain

end MvfBu
