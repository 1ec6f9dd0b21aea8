import Mathlib

set_option autoImplicit false

/-!
# Chain selection under the excessive-block rule (`main.cpp` `FindMostWorkChain`)

`FindMostWorkChain` takes the candidate with the most work from `setBlockIndexCandidates`
and walks from it back to the active chain. It stops at the first block that has failed, has
no data, or is excessive within `excessiveAcceptDepth` blocks of the candidate. A stop at a
recent excessive block is forgiven when one of the `EXCESSIVE_BLOCK_CHAIN_RESET` blocks from
depth `excessiveAcceptDepth` on is excessive too: the chain has already accepted an excessive
block. A candidate that is not forgiven is erased from the set together with every block from
it down to the block where the walk stopped, and the next candidate is tried.

Two consequences follow from the walk stopping at the first recent excessive block. A
forgiven candidate is returned although the blocks between the excessive block and the active
chain were never checked, so one of them may have failed or miss its data. And the erased
blocks below a rejected candidate see the excessive window from a smaller depth: one of them
may be forgiven, by an excessive block just beyond the candidate's window, and still be erased.

## Main definitions

* `MvfBu.ChainEnv`, `MvfBu.ChainState` — what chain selection reads and what it changes.
* `MvfBu.walkToActive`, `MvfBu.oldExcessiveAfterWalk`, `MvfBu.eraseFailedChain` — the three
  loops of a pass.
* `MvfBu.FindMostWorkChain`.
* `MvfBu.Usable` — the candidates chain selection is meant to accept: no failed block and no
  missing data back to the active chain, and not `isChainExcessive`.

## Main results

* `MvfBu.FindMostWorkChain_isSome` — the loop ends: every pass that does not return erases
  the best candidate.
* `MvfBu.FindMostWorkChain_of_usable` — when the best candidate is usable it is returned and
  nothing changes.
* `MvfBu.FindMostWorkChainPass_of_oldExcessive` — a candidate whose walk stops at a recent
  excessive block and that is forgiven is returned, whatever lies behind the excessive block.

## Implementation notes

A `CBlockIndex*` is the list of headers from the block back to genesis, as in
`Consensus/VersionBits.lean`: `pprev` is the tail and `[]` is `NULL`. `setBlockIndexCandidates`
is a list without duplicates whose `rbegin` is its greatest element by
`CBlockIndexWorkComparator`, and `mapBlocksUnlinked` a list of pairs. The outer `do`-`while` is
run on fuel, the number of candidates and one more, which `FindMostWorkChain_isSome` shows is
enough. The `uint64_t` depth is a natural number: it never exceeds the length of the chain.
-/

namespace MvfBu

/-- `BLOCK_HAVE_DATA`. -/
def BLOCK_HAVE_DATA : UInt32 := 8

/-- `BLOCK_EXCESSIVE`. -/
def BLOCK_EXCESSIVE : UInt32 := 32

/-- `BLOCK_FAILED_VALID`. -/
def BLOCK_FAILED_VALID : UInt32 := 64

/-- `BLOCK_FAILED_CHILD`. -/
def BLOCK_FAILED_CHILD : UInt32 := 128

/-- `BLOCK_FAILED_MASK`. -/
def BLOCK_FAILED_MASK : UInt32 := BLOCK_FAILED_VALID ||| BLOCK_FAILED_CHILD

variable {β : Type} [DecidableEq β]

/-- What chain selection reads and does not change: the active chain by its tip, the block
index fields the comparator and the assertion read, and the two depths. -/
structure ChainEnv (β : Type) where
  chainActive : List β
  nChainTx : List β → ℕ
  nChainWork : List β → ℕ
  nSequenceId : List β → ℤ
  /-- The address of a block index, the comparator's last tie-break. -/
  address : List β → ℕ
  excessiveAcceptDepth : UInt32
  EXCESSIVE_BLOCK_CHAIN_RESET : UInt32

/-- What chain selection changes. -/
structure ChainState (β : Type) where
  nStatus : List β → UInt32
  setBlockIndexCandidates : List (List β)
  pindexBestInvalid : List β
  mapBlocksUnlinked : List (List β × List β)

/-- `CChain::Contains`: the block at the height of `pindex` is `pindex`; `false` for `NULL`. -/
def CChain.Contains (chainActive pindex : List β) : Bool :=
  match pindex with
  | [] => false
  | _ :: _ => decide (pindex.length ≤ chainActive.length) &&
      chainActive.drop (chainActive.length - pindex.length) == pindex

/-- `CBlockIndexWorkComparator`: less work first, then the later sequence id, then the higher
address. -/
def CBlockIndexWorkComparator (e : ChainEnv β) (pa pb : List β) : Bool :=
  if e.nChainWork pa > e.nChainWork pb then false
  else if e.nChainWork pa < e.nChainWork pb then true
  else if e.nSequenceId pa < e.nSequenceId pb then false
  else if e.nSequenceId pa > e.nSequenceId pb then true
  else if e.address pa < e.address pb then false
  else if e.address pa > e.address pb then true
  else false

/-- `rbegin` of a set ordered by `cmp`: its greatest element. -/
def rbegin {α : Type} (cmp : α → α → Bool) : List α → Option α
  | [] => none
  | a :: l => some (l.foldl (fun m x => if cmp m x then x else m) a)

/-- `nStatus & flag` is not zero. -/
def statusHas (nStatus : List β → UInt32) (flag : UInt32) (pindex : List β) : Bool :=
  nStatus pindex &&& flag != 0

/-! ### The first walk -/

/-- The local variables of the walk back to the active chain. -/
structure WalkFlags where
  depth : ℕ
  fFailedChain : Bool
  fMissingData : Bool
  fRecentExcessive : Bool
  fOldExcessive : Bool
  deriving DecidableEq, Repr

/-- The flags before the walk. -/
def WalkFlags.init : WalkFlags := ⟨0, false, false, false, false⟩

/-- The flags after reading the status of `pindexTest`. -/
def WalkFlags.visit (e : ChainEnv β) (nStatus : List β → UInt32) (f : WalkFlags)
    (pindexTest : List β) : WalkFlags :=
  let excessive := statusHas nStatus BLOCK_EXCESSIVE pindexTest
  { f with
    fFailedChain := statusHas nStatus BLOCK_FAILED_MASK pindexTest
    fMissingData := !statusHas nStatus BLOCK_HAVE_DATA pindexTest
    fRecentExcessive := if f.depth < e.excessiveAcceptDepth.toNat then
      f.fRecentExcessive || excessive else f.fRecentExcessive
    fOldExcessive := if f.depth < e.excessiveAcceptDepth.toNat then
      f.fOldExcessive else f.fOldExcessive || excessive }

/-- The condition that breaks the walk. -/
def WalkFlags.stop (f : WalkFlags) : Bool := f.fFailedChain || f.fMissingData || f.fRecentExcessive

/-- The first loop of `FindMostWorkChain`: from the candidate back while the block is not in
the active chain, with `assert(pindexTest->nChainTx || pindexTest->nHeight == 0)`, until a
block breaks the walk. The block reached and the flags; `none` when the assertion fails. -/
def walkToActive (e : ChainEnv β) (nStatus : List β → UInt32) :
    List β → WalkFlags → Option (List β × WalkFlags)
  | [], f => some ([], f)
  | b :: p, f =>
    if CChain.Contains e.chainActive (b :: p) then some (b :: p, f)
    else if e.nChainTx (b :: p) = 0 ∧ p ≠ [] then none
    else
      let f := f.visit e nStatus (b :: p)
      if f.stop then some (b :: p, f) else walkToActive e nStatus p { f with depth := f.depth + 1 }

/-! ### The look beyond the accept depth -/

/-- The loop that skips to the accept depth: the block reached and the depth. -/
def skipAcceptDepth (excessiveAcceptDepth : ℕ) : List β → ℕ → List β × ℕ
  | [], depth => ([], depth)
  | b :: p, depth =>
    if depth < excessiveAcceptDepth then skipAcceptDepth excessiveAcceptDepth p (depth + 1)
    else (b :: p, depth)

/-- The loop that looks for an older excessive block below the depth `limit`. -/
def scanOldExcessive (nStatus : List β → UInt32) (limit : ℕ) : List β → ℕ → Bool → Bool
  | [], _, fOldExcessive => fOldExcessive
  | b :: p, depth, fOldExcessive =>
    if depth < limit then
      scanOldExcessive nStatus limit p (depth + 1)
        (fOldExcessive || statusHas nStatus BLOCK_EXCESSIVE (b :: p))
    else fOldExcessive

/-- `fOldExcessive` after the look beyond the accept depth, which runs after a recent excessive
block with no older one seen, below `excessiveAcceptDepth + EXCESSIVE_BLOCK_CHAIN_RESET` (an
`unsigned int` sum). -/
def oldExcessiveAfterWalk (e : ChainEnv β) (nStatus : List β → UInt32) (pindexTest : List β)
    (f : WalkFlags) : Bool :=
  let limit := (e.excessiveAcceptDepth + e.EXCESSIVE_BLOCK_CHAIN_RESET).toNat
  if (f.fRecentExcessive && !f.fOldExcessive) && decide (f.depth < limit) then
    let chain := skipAcceptDepth e.excessiveAcceptDepth.toNat pindexTest f.depth
    scanOldExcessive nStatus limit chain.1 chain.2 f.fOldExcessive
  else f.fOldExcessive

/-! ### Rejecting a candidate -/

/-- The loop that removes a rejected candidate's chain from the set, from `pindexFailed` down
to `pindexTest` exclusive: marking each block `BLOCK_FAILED_CHILD` after a failed block, or
putting it back in `mapBlocksUnlinked` after missing data or an excessive block. -/
def eraseFailedChain (fFailedChain fUnlinked : Bool) (pindexTest : List β) :
    List β → ChainState β → ChainState β
  | [], s => s
  | b :: p, s =>
    if b :: p = pindexTest then s
    else
      let s :=
        if fFailedChain then
          let nStatus := s.nStatus (b :: p) ||| BLOCK_FAILED_CHILD
          { s with nStatus := Function.update s.nStatus (b :: p) nStatus }
        else if fUnlinked then { s with mapBlocksUnlinked := (p, b :: p) :: s.mapBlocksUnlinked }
        else s
      eraseFailedChain fFailedChain fUnlinked pindexTest p
        { s with setBlockIndexCandidates := s.setBlockIndexCandidates.erase (b :: p) }

/-- One pass of the `do`-`while` of `FindMostWorkChain`: the block returned with the state
(`inl`), or the state for the next pass (`inr`); `none` when an assertion fails. -/
def FindMostWorkChainPass (e : ChainEnv β) (s : ChainState β) :
    Option ((List β × ChainState β) ⊕ ChainState β) :=
  match rbegin (CBlockIndexWorkComparator e) s.setBlockIndexCandidates with
  | none => some (.inl ([], s))
  | some pindexNew =>
    match walkToActive e s.nStatus pindexNew WalkFlags.init with
    | none => none
    | some (pindexTest, f) =>
      let fOldExcessive := oldExcessiveAfterWalk e s.nStatus pindexTest f
      if f.fFailedChain || f.fMissingData || (f.fRecentExcessive && !fOldExcessive) then
        let s := { s with pindexBestInvalid :=
          if f.fFailedChain && (s.pindexBestInvalid == [] ||
              decide (e.nChainWork pindexNew > e.nChainWork s.pindexBestInvalid))
          then pindexNew else s.pindexBestInvalid }
        let s := eraseFailedChain f.fFailedChain
          (f.fMissingData || (f.fRecentExcessive && !fOldExcessive)) pindexTest pindexNew s
        some (.inr { s with setBlockIndexCandidates := s.setBlockIndexCandidates.erase pindexTest })
      else some (.inl (pindexNew, s))

/-- The passes of `FindMostWorkChain`, on fuel. -/
def findMostWorkLoop (e : ChainEnv β) : ℕ → ChainState β → Option (List β × ChainState β)
  | 0, _ => none
  | fuel + 1, s =>
    match FindMostWorkChainPass e s with
    | none => none
    | some (.inl r) => some r
    | some (.inr s) => findMostWorkLoop e fuel s

/-- `FindMostWorkChain`: the chain to activate (`[]` for `NULL`) and the state after it. -/
def FindMostWorkChain (e : ChainEnv β) (s : ChainState β) : Option (List β × ChainState β) :=
  findMostWorkLoop e (s.setBlockIndexCandidates.length + 1) s

/-! ### Usable candidates -/

/-- The blocks from `pindex` back to the active chain, `pindex` first. -/
def forkPath (chainActive : List β) : List β → List (List β)
  | [] => []
  | b :: p => if CChain.Contains chainActive (b :: p) then [] else (b :: p) :: forkPath chainActive p

/-- **The candidates chain selection should accept.** No block back to the active chain has
failed or misses its data, and the chain is not excessive: it is not the case that a block
back to the active chain within `excessiveAcceptDepth` is excessive while none of the
`EXCESSIVE_BLOCK_CHAIN_RESET` blocks from that depth on is. -/
def Usable (e : ChainEnv β) (nStatus : List β → UInt32) (T : List β) : Bool :=
  let AD := e.excessiveAcceptDepth.toNat
  let path := forkPath e.chainActive T
  (path.all fun b => !statusHas nStatus BLOCK_FAILED_MASK b && statusHas nStatus BLOCK_HAVE_DATA b) &&
    !((path.take AD).any (statusHas nStatus BLOCK_EXCESSIVE) &&
      !(List.range e.EXCESSIVE_BLOCK_CHAIN_RESET.toNat).any fun j =>
        decide (AD + j < T.length) && statusHas nStatus BLOCK_EXCESSIVE (T.drop (AD + j)))


/-- A block the walk passes over: the assertion holds, and it has neither failed nor lost its
data. -/
def WalkClean (e : ChainEnv β) (nStatus : List β → UInt32) (U : List β) : Prop :=
  ¬(e.nChainTx U = 0 ∧ U.tail ≠ []) ∧ statusHas nStatus BLOCK_FAILED_MASK U = false ∧
    statusHas nStatus BLOCK_HAVE_DATA U = true

/-! ### Lemmas of the model -/

/-- The greatest element of a list is in it. -/
theorem rbegin_mem {α : Type} {cmp : α → α → Bool} {l : List α} {a : α}
    (h : rbegin cmp l = some a) : a ∈ l := by
  cases l with
  | nil => cases h
  | cons x xs =>
    rw [rbegin, Option.some.injEq] at h
    subst h
    -- the running maximum stays in the list
    have key : ∀ (ys : List α) (m : α), m ∈ x :: xs → (∀ y ∈ ys, y ∈ x :: xs) →
        ys.foldl (fun m y => if cmp m y then y else m) m ∈ x :: xs := by
      intro ys
      induction ys with
      | nil => exact fun m hm _ => hm
      | cons y ys ih =>
        intro m hm hys
        rw [List.foldl_cons]
        apply ih _ _ fun z hz => hys z (List.mem_cons_of_mem y hz)
        split
        · exact hys y List.mem_cons_self
        · exact hm
    exact key xs x List.mem_cons_self fun y hy => List.mem_cons_of_mem x hy

section ForkPath

variable {tip : List β}

theorem forkPath_cons_of_not_contains {b : β} {p : List β}
    (h : CChain.Contains tip (b :: p) = false) :
    forkPath tip (b :: p) = (b :: p) :: forkPath tip p := by
  rw [forkPath, if_neg (by simp [h])]

/-- A fork path starts at its block, outside the active chain, and goes on from the parent. -/
theorem forkPath_eq_cons {l U : List β} {rest : List (List β)} (h : forkPath tip l = U :: rest) :
    ∃ b p, l = b :: p ∧ U = b :: p ∧ CChain.Contains tip (b :: p) = false ∧
      rest = forkPath tip p := by
  cases l with
  | nil => cases h
  | cons b p =>
    cases hc : CChain.Contains tip (b :: p)
    · rw [forkPath_cons_of_not_contains hc, List.cons.injEq] at h
      exact ⟨b, p, rfl, h.1.symm, hc, h.2.symm⟩
    · simp [forkPath, hc] at h

end ForkPath

section Walk

variable (e : ChainEnv β) (nStatus : List β → UInt32)

omit [DecidableEq β] in
@[simp] theorem WalkFlags.visit_depth (f : WalkFlags) (U : List β) :
    (f.visit e nStatus U).depth = f.depth := rfl

omit [DecidableEq β] in
@[simp] theorem WalkFlags.visit_fFailedChain (f : WalkFlags) (U : List β) :
    (f.visit e nStatus U).fFailedChain = statusHas nStatus BLOCK_FAILED_MASK U := rfl

omit [DecidableEq β] in
@[simp] theorem WalkFlags.visit_fMissingData (f : WalkFlags) (U : List β) :
    (f.visit e nStatus U).fMissingData = !statusHas nStatus BLOCK_HAVE_DATA U := rfl

omit [DecidableEq β] in
@[simp] theorem WalkFlags.visit_fRecentExcessive (f : WalkFlags) (U : List β) :
    (f.visit e nStatus U).fRecentExcessive = if f.depth < e.excessiveAcceptDepth.toNat then
      f.fRecentExcessive || statusHas nStatus BLOCK_EXCESSIVE U else f.fRecentExcessive := rfl

omit [DecidableEq β] in
@[simp] theorem WalkFlags.visit_fOldExcessive (f : WalkFlags) (U : List β) :
    (f.visit e nStatus U).fOldExcessive = if f.depth < e.excessiveAcceptDepth.toNat then
      f.fOldExcessive else f.fOldExcessive || statusHas nStatus BLOCK_EXCESSIVE U := rfl

/-- At a clean block outside the active chain the walk reads the block and stops or goes on. -/
theorem walkToActive_cons_of_clean {b : β} {p : List β} (f : WalkFlags)
    (hc : CChain.Contains e.chainActive (b :: p) = false) (hU : WalkClean e nStatus (b :: p)) :
    walkToActive e nStatus (b :: p) f =
      if (f.visit e nStatus (b :: p)).stop then some (b :: p, f.visit e nStatus (b :: p))
      else walkToActive e nStatus p { f.visit e nStatus (b :: p) with depth := f.depth + 1 } := by
  have hassert : ¬(e.nChainTx (b :: p) = 0 ∧ p ≠ []) := hU.1
  rw [walkToActive, if_neg (by simp [hc]), if_neg hassert]
  rfl

omit [DecidableEq β] in
/-- At a clean block only a recent excessive block stops the walk. -/
theorem WalkFlags.visit_stop_of_clean (f : WalkFlags) {U : List β} (hU : WalkClean e nStatus U) :
    (f.visit e nStatus U).stop = (f.visit e nStatus U).fRecentExcessive := by
  simp [WalkFlags.stop, hU.2.1, hU.2.2]

/-- The walk ends unless an assertion fails on the way. -/
theorem walkToActive_isSome : ∀ (l : List β) (f : WalkFlags),
    (∀ U ∈ forkPath e.chainActive l, ¬(e.nChainTx U = 0 ∧ U.tail ≠ [])) →
    (walkToActive e nStatus l f).isSome
  | [], _, _ => rfl
  | b :: p, f, h => by
    cases hc : CChain.Contains e.chainActive (b :: p)
    · rw [forkPath_cons_of_not_contains hc] at h
      have hassert : ¬(e.nChainTx (b :: p) = 0 ∧ p ≠ []) := h _ List.mem_cons_self
      rw [walkToActive, if_neg (by simp [hc]), if_neg hassert]
      dsimp only
      split
      · rfl
      · exact walkToActive_isSome p _ fun U hU => h U (List.mem_cons_of_mem _ hU)
    · simp [walkToActive, hc]

/-- **A walk with no recent excessive block does not stop**: over clean blocks, none of them
excessive within the accept depth, the walk ends with its stop condition false. -/
theorem walkToActive_of_no_recent : ∀ (l : List β) (f : WalkFlags),
    (∀ U ∈ forkPath e.chainActive l, WalkClean e nStatus U) →
    ((forkPath e.chainActive l).take (e.excessiveAcceptDepth.toNat - f.depth)).any
      (statusHas nStatus BLOCK_EXCESSIVE) = false →
    f.stop = false →
    ∃ r f', walkToActive e nStatus l f = some (r, f') ∧ f'.stop = false
  | [], f, _, _, hf => ⟨[], f, rfl, hf⟩
  | b :: p, f, hclean, hrecent, hf => by
    cases hc : CChain.Contains e.chainActive (b :: p)
    · rw [forkPath_cons_of_not_contains hc] at hclean hrecent
      have hU := hclean _ List.mem_cons_self
      have hfr : f.fRecentExcessive = false := by simp_all [WalkFlags.stop]
      -- within the accept depth the block itself is not excessive
      have hvisit : (f.visit e nStatus (b :: p)).stop = false := by
        rw [WalkFlags.visit_stop_of_clean e nStatus f hU, WalkFlags.visit_fRecentExcessive, hfr]
        split
        · obtain ⟨k, hk⟩ : ∃ k, e.excessiveAcceptDepth.toNat - f.depth = k + 1 :=
            ⟨_, (Nat.succ_pred_eq_of_pos (by omega)).symm⟩
          rw [hk, List.take_succ_cons, List.any_cons, Bool.or_eq_false_iff] at hrecent
          simp [hrecent.1]
        · rfl
      rw [walkToActive_cons_of_clean e nStatus f hc hU, if_neg (by simp [hvisit])]
      apply walkToActive_of_no_recent p _ fun U hU => hclean U (List.mem_cons_of_mem _ hU)
      · -- one block deeper the window is one shorter
        rcases Nat.eq_zero_or_pos (e.excessiveAcceptDepth.toNat - f.depth) with h0 | hpos
        · have : e.excessiveAcceptDepth.toNat - (f.depth + 1) = 0 := by omega
          simp [this]
        · obtain ⟨k, hk⟩ : ∃ k, e.excessiveAcceptDepth.toNat - f.depth = k + 1 :=
            ⟨_, (Nat.succ_pred_eq_of_pos hpos).symm⟩
          have hk' : e.excessiveAcceptDepth.toNat - (f.depth + 1) = k := by omega
          rw [hk, List.take_succ_cons, List.any_cons, Bool.or_eq_false_iff] at hrecent
          simpa [hk'] using hrecent.2
      · simpa [WalkFlags.stop] using hvisit
    · exact ⟨b :: p, f, by simp [walkToActive, hc], hf⟩

/-- **The walk stops at the first recent excessive block**: when the fork path is clean and
not excessive up to a block within the accept depth that is clean and excessive, the walk
stops there, with only `fRecentExcessive` set, whatever lies behind it. -/
theorem walkToActive_of_first_excessive : ∀ (pre : List (List β)) (l : List β) (f : WalkFlags)
    {E : List β} {post : List (List β)},
    forkPath e.chainActive l = pre ++ E :: post →
    f.depth + pre.length < e.excessiveAcceptDepth.toNat →
    (∀ U ∈ pre, WalkClean e nStatus U ∧ statusHas nStatus BLOCK_EXCESSIVE U = false) →
    WalkClean e nStatus E → statusHas nStatus BLOCK_EXCESSIVE E = true →
    f.fRecentExcessive = false → f.fOldExcessive = false →
    walkToActive e nStatus l f =
      some (l.drop pre.length, ⟨f.depth + pre.length, false, false, true, false⟩)
  | [], l, f, E, post, hpath, hdepth, _, hE, hexc, hfr, hfo => by
    obtain ⟨b, p, rfl, rfl, hc, -⟩ := forkPath_eq_cons hpath
    have hlt : f.depth < e.excessiveAcceptDepth.toNat := by simpa using hdepth
    have hv : f.visit e nStatus (b :: p) = ⟨f.depth, false, false, true, false⟩ := by
      simp [WalkFlags.visit, hlt, hfr, hfo, hexc, hE.2.1, hE.2.2]
    rw [walkToActive_cons_of_clean e nStatus f hc hE, hv]
    simp [WalkFlags.stop]
  | U :: pre, l, f, E, post, hpath, hdepth, hpre, hE, hexc, hfr, hfo => by
    obtain ⟨b, p, rfl, rfl, hc, hrest⟩ := forkPath_eq_cons hpath
    have hU := hpre _ List.mem_cons_self
    simp only [List.length_cons] at hdepth
    have hlt : f.depth < e.excessiveAcceptDepth.toNat := by omega
    have hvisit : (f.visit e nStatus (b :: p)).stop = false := by
      simp [WalkFlags.visit_stop_of_clean e nStatus f hU.1, hlt, hfr, hU.2]
    rw [walkToActive_cons_of_clean e nStatus f hc hU.1, if_neg (by simp [hvisit]),
      walkToActive_of_first_excessive pre p _ hrest.symm (by simp only; omega)
        (fun V hV => hpre V (List.mem_cons_of_mem _ hV)) hE hexc (by simp [hlt, hfr, hU.2])
        (by simp [hlt, hfo])]
    simp only [List.length_cons, List.drop_succ_cons]
    congr 3
    omega

end Walk

/-! ### The look beyond the accept depth -/

section Beyond

variable (nStatus : List β → UInt32)

omit [DecidableEq β] in
/-- The skip goes down to the accept depth, or to `NULL`. -/
theorem skipAcceptDepth_eq (excessiveAcceptDepth : ℕ) : ∀ (l : List β) (depth : ℕ),
    skipAcceptDepth excessiveAcceptDepth l depth =
      (l.drop (excessiveAcceptDepth - depth), depth + min (excessiveAcceptDepth - depth) l.length)
  | [], depth => by simp [skipAcceptDepth]
  | b :: p, depth => by
    rw [skipAcceptDepth]
    split
    · obtain ⟨k, hk⟩ : ∃ k, excessiveAcceptDepth - depth = k + 1 :=
        ⟨_, (Nat.succ_pred_eq_of_pos (by omega)).symm⟩
      have hk' : excessiveAcceptDepth - (depth + 1) = k := by omega
      rw [skipAcceptDepth_eq excessiveAcceptDepth p (depth + 1), hk, hk', List.drop_succ_cons,
        List.length_cons, Nat.add_min_add_right]
      congr 1
      omega
    · have h0 : excessiveAcceptDepth - depth = 0 := by omega
      simp [h0]

omit [DecidableEq β] in
/-- **The scan finds an excessive block** among the blocks it reaches below `limit`. -/
theorem scanOldExcessive_eq_true (limit : ℕ) : ∀ (l : List β) (depth : ℕ) (fOld : Bool),
    scanOldExcessive nStatus limit l depth fOld = true ↔
      fOld = true ∨ ∃ i < limit - depth, i < l.length ∧
        statusHas nStatus BLOCK_EXCESSIVE (l.drop i) = true
  | [], depth, fOld => by simp [scanOldExcessive]
  | b :: p, depth, fOld => by
    rw [scanOldExcessive]
    split
    · rw [scanOldExcessive_eq_true limit p (depth + 1), Bool.or_eq_true]
      constructor
      · rintro ((hf | hb) | ⟨i, hi, hlen, hx⟩)
        · exact .inl hf
        · exact .inr ⟨0, by omega, by simp, hb⟩
        · exact .inr ⟨i + 1, by omega, by simpa using hlen, hx⟩
      · rintro (hf | ⟨i, hi, hlen, hx⟩)
        · exact .inl (.inl hf)
        · cases i with
          | zero => exact .inl (.inr hx)
          | succ i => exact .inr ⟨i, by omega, by simpa using hlen, hx⟩
    · have h0 : limit - depth = 0 := by omega
      simp [h0]

omit [DecidableEq β] in
/-- **The look beyond the accept depth reads the reset window.** After the walk stopped
at a recent excessive block at depth `d`, with no wrap of the `unsigned int` sum, an older
excessive block is found exactly when one of the `EXCESSIVE_BLOCK_CHAIN_RESET` blocks from
depth `excessiveAcceptDepth` on is excessive. -/
theorem oldExcessiveAfterWalk_eq_true (e : ChainEnv β) {T : List β} {d : ℕ}
    (hd : d < e.excessiveAcceptDepth.toNat)
    (hwrap : e.excessiveAcceptDepth.toNat + e.EXCESSIVE_BLOCK_CHAIN_RESET.toNat < 2 ^ 32) :
    oldExcessiveAfterWalk e nStatus (T.drop d) ⟨d, false, false, true, false⟩ = true ↔
      ∃ j < e.EXCESSIVE_BLOCK_CHAIN_RESET.toNat, e.excessiveAcceptDepth.toNat + j < T.length ∧
        statusHas nStatus BLOCK_EXCESSIVE (T.drop (e.excessiveAcceptDepth.toNat + j)) = true := by
  have hlimit : (e.excessiveAcceptDepth + e.EXCESSIVE_BLOCK_CHAIN_RESET).toNat =
      e.excessiveAcceptDepth.toNat + e.EXCESSIVE_BLOCK_CHAIN_RESET.toNat := by
    rw [UInt32.toNat_add, Nat.mod_eq_of_lt hwrap]
  have hskip : (T.drop d).drop (e.excessiveAcceptDepth.toNat - d) =
      T.drop e.excessiveAcceptDepth.toNat := by
    rw [List.drop_drop]
    congr 1
    omega
  have hcond : d < (e.excessiveAcceptDepth + e.EXCESSIVE_BLOCK_CHAIN_RESET).toNat := by
    rw [hlimit]
    omega
  simp only [oldExcessiveAfterWalk, Bool.not_false, Bool.and_true, decide_eq_true hcond, if_true]
  rw [skipAcceptDepth_eq, scanOldExcessive_eq_true, hskip, hlimit]
  simp only [Bool.false_eq_true, false_or, List.length_drop, List.drop_drop]
  constructor
  · rintro ⟨i, hi, hlen, hx⟩
    exact ⟨i, by omega, by omega, hx⟩
  · rintro ⟨j, hj, hlen, hx⟩
    exact ⟨j, by omega, by omega, hx⟩

end Beyond

/-! ### Passes and the loop -/

section Pass

variable (e : ChainEnv β) (s : ChainState β)

theorem eraseFailedChain_self (fFailedChain fUnlinked : Bool) (pindexTest : List β) :
    eraseFailedChain fFailedChain fUnlinked pindexTest pindexTest s = s := by
  cases pindexTest with
  | nil => rfl
  | cons b p => simp [eraseFailedChain]

/-- Rejecting a chain only erases candidates. -/
theorem eraseFailedChain_sublist (fFailedChain fUnlinked : Bool) (pindexTest : List β) :
    ∀ (pindexFailed : List β) (s : ChainState β),
      List.Sublist (eraseFailedChain fFailedChain fUnlinked pindexTest pindexFailed s).setBlockIndexCandidates
        s.setBlockIndexCandidates
  | [], s => List.Sublist.refl _
  | b :: p, s => by
    rw [eraseFailedChain]
    split
    · exact List.Sublist.refl _
    · refine (eraseFailedChain_sublist fFailedChain fUnlinked pindexTest p _).trans ?_
      dsimp only
      split_ifs <;> exact List.erase_sublist

/-- Rejecting a chain above the block where the walk stopped erases its first block. -/
theorem eraseFailedChain_length_lt {fFailedChain fUnlinked : Bool} {pindexTest pindexNew : List β}
    (hne : pindexNew ≠ pindexTest) (hnil : pindexNew ≠ [])
    (hmem : pindexNew ∈ s.setBlockIndexCandidates) :
    (eraseFailedChain fFailedChain fUnlinked pindexTest pindexNew s).setBlockIndexCandidates.length <
      s.setBlockIndexCandidates.length := by
  obtain ⟨b, p, rfl⟩ := List.exists_cons_of_ne_nil hnil
  rw [eraseFailedChain, if_neg hne]
  refine lt_of_le_of_lt (eraseFailedChain_sublist fFailedChain fUnlinked pindexTest p _).length_le ?_
  have hpos := List.length_pos_of_mem hmem
  split_ifs <;> (dsimp only; rw [List.length_erase_of_mem hmem]; omega)

/-- A pass returns the best candidate, or `NULL` from an empty set, and changes nothing. -/
theorem FindMostWorkChainPass_eq_inl {r : List β} {s' : ChainState β}
    (h : FindMostWorkChainPass e s = some (.inl (r, s'))) :
    s' = s ∧ (s.setBlockIndexCandidates = [] ∧ r = [] ∨
      rbegin (CBlockIndexWorkComparator e) s.setBlockIndexCandidates = some r) := by
  unfold FindMostWorkChainPass at h
  cases hbest : rbegin (CBlockIndexWorkComparator e) s.setBlockIndexCandidates with
  | none =>
    simp only [hbest, Option.some.injEq, Sum.inl.injEq, Prod.mk.injEq] at h
    refine ⟨h.2.symm, .inl ⟨?_, h.1.symm⟩⟩
    cases hc : s.setBlockIndexCandidates with
    | nil => rfl
    | cons a l => simp [hc, rbegin] at hbest
  | some T =>
    cases hw : walkToActive e s.nStatus T WalkFlags.init with
    | none => simp [hbest, hw] at h
    | some w =>
      simp only [hbest, hw] at h
      split at h
      · simp at h
      · simp only [Option.some.injEq, Sum.inl.injEq, Prod.mk.injEq] at h
        exact ⟨h.2.symm, .inr (h.1 ▸ rfl)⟩

/-- **A pass that does not return erases the best candidate**, and only erases. -/
theorem FindMostWorkChainPass_eq_inr {s' : ChainState β}
    (h : FindMostWorkChainPass e s = some (.inr s')) :
    List.Sublist s'.setBlockIndexCandidates s.setBlockIndexCandidates ∧
      s'.setBlockIndexCandidates.length < s.setBlockIndexCandidates.length := by
  unfold FindMostWorkChainPass at h
  cases hbest : rbegin (CBlockIndexWorkComparator e) s.setBlockIndexCandidates with
  | none => simp [hbest] at h
  | some pindexNew =>
    have hmem := rbegin_mem hbest
    cases hw : walkToActive e s.nStatus pindexNew WalkFlags.init with
    | none => simp [hbest, hw] at h
    | some w =>
      obtain ⟨pindexTest, f⟩ := w
      simp only [hbest, hw] at h
      split at h
      · simp only [Option.some.injEq, Sum.inr.injEq] at h
        subst h
        refine ⟨List.erase_sublist.trans (eraseFailedChain_sublist _ _ _ _ _), ?_⟩
        by_cases heq : pindexNew = pindexTest
        · -- the candidate itself broke the walk: the last erase removes it
          subst heq
          rw [eraseFailedChain_self]
          have hpos := List.length_pos_of_mem hmem
          dsimp only
          rw [List.length_erase_of_mem hmem]
          omega
        · have hnil : pindexNew ≠ [] := by
            rintro rfl
            simp only [walkToActive, Option.some.injEq, Prod.mk.injEq] at hw
            exact heq hw.1
          exact lt_of_le_of_lt List.erase_sublist.length_le (eraseFailedChain_length_lt _ heq hnil hmem)
      · simp at h

/-- A pass returns unless the assertion fails on the way back from the best candidate. -/
theorem FindMostWorkChainPass_isSome
    (hassert : ∀ T ∈ s.setBlockIndexCandidates, ∀ U ∈ forkPath e.chainActive T,
      ¬(e.nChainTx U = 0 ∧ U.tail ≠ [])) :
    (FindMostWorkChainPass e s).isSome := by
  unfold FindMostWorkChainPass
  cases hbest : rbegin (CBlockIndexWorkComparator e) s.setBlockIndexCandidates with
  | none => rfl
  | some T =>
    obtain ⟨⟨pindexTest, f⟩, hw⟩ := Option.isSome_iff_exists.1
      (walkToActive_isSome e s.nStatus T WalkFlags.init (hassert T (rbegin_mem hbest)))
    simp only [hw]
    split_ifs <;> rfl

/-- The loop returns when its fuel exceeds the number of candidates. -/
theorem findMostWorkLoop_isSome : ∀ (fuel : ℕ) (s : ChainState β),
    s.setBlockIndexCandidates.length < fuel →
    (∀ T ∈ s.setBlockIndexCandidates, ∀ U ∈ forkPath e.chainActive T,
      ¬(e.nChainTx U = 0 ∧ U.tail ≠ [])) →
    (findMostWorkLoop e fuel s).isSome
  | 0, _, hlen, _ => absurd hlen (Nat.not_lt_zero _)
  | fuel + 1, s, hlen, hassert => by
    rw [findMostWorkLoop]
    obtain ⟨r, hr⟩ := Option.isSome_iff_exists.1 (FindMostWorkChainPass_isSome e s hassert)
    rw [hr]
    cases r with
    | inl r => rfl
    | inr s' =>
      obtain ⟨hsub, hlt⟩ := FindMostWorkChainPass_eq_inr e s hr
      exact findMostWorkLoop_isSome fuel s' (by omega) fun T hT => hassert T (hsub.subset hT)

/-- **`FindMostWorkChain` returns**, unless the assertion fails on the way back from a
candidate: every pass that does not return erases the best candidate. -/
theorem FindMostWorkChain_isSome
    (hassert : ∀ T ∈ s.setBlockIndexCandidates, ∀ U ∈ forkPath e.chainActive T,
      ¬(e.nChainTx U = 0 ∧ U.tail ≠ [])) :
    (FindMostWorkChain e s).isSome :=
  findMostWorkLoop_isSome e _ s (Nat.lt_succ_self _) hassert

/-- The loop returns the best of the candidates left, or `NULL` when none is left, and only
erases candidates. -/
theorem findMostWorkLoop_eq_some : ∀ (fuel : ℕ) (s : ChainState β) {r : List β}
    {s' : ChainState β}, findMostWorkLoop e fuel s = some (r, s') →
    List.Sublist s'.setBlockIndexCandidates s.setBlockIndexCandidates ∧
      (s'.setBlockIndexCandidates = [] ∧ r = [] ∨
        rbegin (CBlockIndexWorkComparator e) s'.setBlockIndexCandidates = some r)
  | 0, _, _, _, h => by cases h
  | fuel + 1, s, r, s', h => by
    rw [findMostWorkLoop] at h
    cases hp : FindMostWorkChainPass e s with
    | none => simp [hp] at h
    | some q =>
      cases q with
      | inl q =>
        simp only [hp, Option.some.injEq] at h
        subst h
        obtain ⟨rfl, hr⟩ := FindMostWorkChainPass_eq_inl e s hp
        exact ⟨List.Sublist.refl _, hr⟩
      | inr s₁ =>
        simp only [hp] at h
        obtain ⟨hsub, -⟩ := FindMostWorkChainPass_eq_inr e s hp
        obtain ⟨hsub', hr⟩ := findMostWorkLoop_eq_some fuel s₁ h
        exact ⟨hsub'.trans hsub, hr⟩

/-- **`FindMostWorkChain` returns the best candidate left**, or `NULL` when none is left,
after erasing candidates only. -/
theorem FindMostWorkChain_eq_some {r : List β} {s' : ChainState β}
    (h : FindMostWorkChain e s = some (r, s')) :
    List.Sublist s'.setBlockIndexCandidates s.setBlockIndexCandidates ∧
      (s'.setBlockIndexCandidates = [] ∧ r = [] ∨
        rbegin (CBlockIndexWorkComparator e) s'.setBlockIndexCandidates = some r) :=
  findMostWorkLoop_eq_some e _ s h

/-- A pass returns the best candidate when its walk has neither failed nor is left
excessive. -/
theorem FindMostWorkChainPass_of_walk {T pindexTest : List β} {f : WalkFlags}
    (hbest : rbegin (CBlockIndexWorkComparator e) s.setBlockIndexCandidates = some T)
    (hwalk : walkToActive e s.nStatus T WalkFlags.init = some (pindexTest, f))
    (hacc : (f.fFailedChain || f.fMissingData ||
      (f.fRecentExcessive && !oldExcessiveAfterWalk e s.nStatus pindexTest f)) = false) :
    FindMostWorkChainPass e s = some (.inl (T, s)) := by
  simp only [FindMostWorkChainPass, hbest, hwalk]
  rw [if_neg (by simp [hacc])]

/-- **A forgiven candidate is returned unchecked behind its excessive block.** When the walk
from the best candidate meets a recent excessive block before any failed block or missing
data, and one of the blocks of the window beyond the accept depth is excessive, the pass
returns the candidate and changes nothing, whatever the blocks behind the excessive block
are. -/
theorem FindMostWorkChainPass_of_oldExcessive {T E : List β} {pre post : List (List β)}
    (hbest : rbegin (CBlockIndexWorkComparator e) s.setBlockIndexCandidates = some T)
    (hpath : forkPath e.chainActive T = pre ++ E :: post)
    (hdepth : pre.length < e.excessiveAcceptDepth.toNat)
    (hpre : ∀ U ∈ pre, WalkClean e s.nStatus U ∧ statusHas s.nStatus BLOCK_EXCESSIVE U = false)
    (hE : WalkClean e s.nStatus E) (hexc : statusHas s.nStatus BLOCK_EXCESSIVE E = true)
    (hwrap : e.excessiveAcceptDepth.toNat + e.EXCESSIVE_BLOCK_CHAIN_RESET.toNat < 2 ^ 32)
    (hold : ∃ j < e.EXCESSIVE_BLOCK_CHAIN_RESET.toNat, e.excessiveAcceptDepth.toNat + j < T.length ∧
      statusHas s.nStatus BLOCK_EXCESSIVE (T.drop (e.excessiveAcceptDepth.toNat + j)) = true) :
    FindMostWorkChainPass e s = some (.inl (T, s)) := by
  have hwalk := walkToActive_of_first_excessive e s.nStatus pre T WalkFlags.init hpath
    (by simpa [WalkFlags.init] using hdepth) hpre hE hexc rfl rfl
  have hinit : WalkFlags.init.depth + pre.length = pre.length := Nat.zero_add _
  rw [hinit] at hwalk
  refine FindMostWorkChainPass_of_walk e s hbest hwalk ?_
  have hfound := (oldExcessiveAfterWalk_eq_true s.nStatus e (T := T) hdepth hwrap).2 hold
  simp [hfound]

/-- **The best candidate is returned when it is usable**, and nothing changes: when the
assertion holds back to the active chain and the window beyond the accept depth does not
wrap. -/
theorem FindMostWorkChainPass_of_usable {T : List β}
    (hbest : rbegin (CBlockIndexWorkComparator e) s.setBlockIndexCandidates = some T)
    (hassert : ∀ U ∈ forkPath e.chainActive T, ¬(e.nChainTx U = 0 ∧ U.tail ≠ []))
    (hwrap : e.excessiveAcceptDepth.toNat + e.EXCESSIVE_BLOCK_CHAIN_RESET.toNat < 2 ^ 32)
    (hT : Usable e s.nStatus T = true) :
    FindMostWorkChainPass e s = some (.inl (T, s)) := by
  simp only [Usable, Bool.and_eq_true, Bool.not_eq_true', Bool.and_eq_false_iff,
    List.all_eq_true] at hT
  obtain ⟨hall, hwindow⟩ := hT
  have hclean : ∀ U ∈ forkPath e.chainActive T, WalkClean e s.nStatus U := by
    intro U hU
    exact ⟨hassert U hU, (hall U hU).1, (hall U hU).2⟩
  cases hB : ((forkPath e.chainActive T).take e.excessiveAcceptDepth.toNat).any
      (statusHas s.nStatus BLOCK_EXCESSIVE) with
  | false =>
    -- no recent excessive block: the walk runs to the active chain
    obtain ⟨r, f', hw, hstop⟩ := walkToActive_of_no_recent e s.nStatus T WalkFlags.init hclean
      (by simpa [WalkFlags.init] using hB) rfl
    simp only [WalkFlags.stop, Bool.or_eq_false_iff] at hstop
    exact FindMostWorkChainPass_of_walk e s hbest hw (by simp [hstop.1.1, hstop.1.2, hstop.2])
  | true =>
    -- the walk stops at the first recent excessive block, and the window forgives it
    have hC : ∃ j < e.EXCESSIVE_BLOCK_CHAIN_RESET.toNat, e.excessiveAcceptDepth.toNat + j < T.length ∧
        statusHas s.nStatus BLOCK_EXCESSIVE (T.drop (e.excessiveAcceptDepth.toNat + j)) = true := by
      rcases hwindow with hB' | hC
      · simp [hB] at hB'
      · simp only [Bool.not_eq_false', List.any_eq_true, List.mem_range, Bool.and_eq_true,
          decide_eq_true_eq] at hC
        obtain ⟨j, hj, hlen, hx⟩ := hC
        exact ⟨j, hj, hlen, hx⟩
    -- the first excessive block of the fork path is within the accept depth
    obtain ⟨U, hU, hx⟩ := List.any_eq_true.1 hB
    obtain ⟨E, hE⟩ := Option.isSome_iff_exists.1
      (List.find?_isSome.2 ⟨U, List.mem_of_mem_take hU, hx⟩)
    obtain ⟨hEexc, pre, post, hsplit, hpre⟩ := List.find?_eq_some_iff_append.1 hE
    have hlen : pre.length < e.excessiveAcceptDepth.toNat := by
      by_contra hge
      rw [hsplit, List.take_append_of_le_length (Nat.le_of_not_lt hge)] at hU
      have hUq := hpre U (List.mem_of_mem_take hU)
      simp [hx] at hUq
    refine FindMostWorkChainPass_of_oldExcessive e s hbest hsplit hlen ?_
      (hclean E (by rw [hsplit]; simp)) hEexc hwrap hC
    intro V hV
    exact ⟨hclean V (by rw [hsplit]; exact List.mem_append_left _ hV), by simpa using hpre V hV⟩

/-- **`FindMostWorkChain` returns the best candidate when it is usable**, and changes
nothing. -/
theorem FindMostWorkChain_of_usable {T : List β}
    (hbest : rbegin (CBlockIndexWorkComparator e) s.setBlockIndexCandidates = some T)
    (hassert : ∀ U ∈ forkPath e.chainActive T, ¬(e.nChainTx U = 0 ∧ U.tail ≠ []))
    (hwrap : e.excessiveAcceptDepth.toNat + e.EXCESSIVE_BLOCK_CHAIN_RESET.toNat < 2 ^ 32)
    (hT : Usable e s.nStatus T = true) :
    FindMostWorkChain e s = some (T, s) := by
  rw [FindMostWorkChain, findMostWorkLoop, FindMostWorkChainPass_of_usable e s hbest hassert hwrap hT]

end Pass

/-! ### Where the walk diverges from the intent

On the chain `0 ← 1 ← 2 ← 3` with only the genesis block `[0]` active and every block holding
its data. -/

/-- An accept depth of one block and the source's reset window, `6 * 24` blocks. -/
def forgivenChainEnv : ChainEnv ℕ where
  chainActive := [0]
  nChainTx _ := 1
  nChainWork := List.length
  nSequenceId _ := 0
  address _ := 0
  excessiveAcceptDepth := 1
  EXCESSIVE_BLOCK_CHAIN_RESET := 144

/-- The candidate `3` and block `1` are excessive and block `2` has failed. -/
def failedBehindExcessive : ChainState ℕ where
  nStatus b := if b = [3, 2, 1, 0] ∨ b = [1, 0] then BLOCK_HAVE_DATA ||| BLOCK_EXCESSIVE
    else if b = [2, 1, 0] then BLOCK_HAVE_DATA ||| BLOCK_FAILED_VALID else BLOCK_HAVE_DATA
  setBlockIndexCandidates := [[3, 2, 1, 0]]
  pindexBestInvalid := []
  mapBlocksUnlinked := []

/-- **A candidate with a failed block on its path is returned.** The walk stops at the
excessive candidate, block `1` forgives it, and the failed block `2` between them is never
read. -/
theorem FindMostWorkChain_returns_failed_path :
    (FindMostWorkChain forgivenChainEnv failedBehindExcessive).map Prod.fst = some [3, 2, 1, 0] ∧
      [2, 1, 0] ∈ forkPath forgivenChainEnv.chainActive [3, 2, 1, 0] ∧
      statusHas failedBehindExcessive.nStatus BLOCK_FAILED_MASK [2, 1, 0] = true ∧
      Usable forgivenChainEnv failedBehindExcessive.nStatus [3, 2, 1, 0] = false := by
  decide

/-- The block at height `n` of a chain of blocks numbered by height, down to the genesis `0`. -/
def chainTo (n : ℕ) : List ℕ := (List.range (n + 1)).reverse

/-- An accept depth of two blocks and the source's reset window, `6 * 24` blocks. -/
def resetWindowEnv : ChainEnv ℕ where
  chainActive := [0]
  nChainTx _ := 1
  nChainWork := List.length
  nSequenceId _ := 0
  address _ := 0
  excessiveAcceptDepth := 2
  EXCESSIVE_BLOCK_CHAIN_RESET := 144

/-- Candidates `146` and `145`; blocks `145` and `0` are excessive. -/
def usableBelowRejected : ChainState ℕ where
  nStatus b := if b = chainTo 145 ∨ b = [0] then BLOCK_HAVE_DATA ||| BLOCK_EXCESSIVE
    else BLOCK_HAVE_DATA
  setBlockIndexCandidates := [chainTo 146, chainTo 145]
  pindexBestInvalid := []
  mapBlocksUnlinked := []

/-- **A usable candidate is erased.** Candidate `146` is rejected: block `145` is excessive
within its accept depth and its reset window, blocks `144` down to `1`, holds no excessive
block. The walk stopped at block `145`, so block `145` is erased with it, although from block
`145` the reset window reaches the excessive genesis block: no candidate is left, and `NULL` is
returned. -/
theorem FindMostWorkChain_erases_usable :
    (FindMostWorkChain resetWindowEnv usableBelowRejected).map Prod.fst = some [] ∧
      chainTo 145 ∈ usableBelowRejected.setBlockIndexCandidates ∧
      Usable resetWindowEnv usableBelowRejected.nStatus (chainTo 145) = true := by
  decide +kernel

end MvfBu
