import MvfBu.Lib.ExceptLemmas
import Mathlib.Data.Int.Order.Basic

set_option autoImplicit false

/-!
# Fork activation (`main.cpp` `UpdateTip` and `LoadBlockIndexDB`, `mvf-bu.cpp` `ActivateFork`)

The MVF hard fork is switched on by the global `isMVFHardForkActive`, which `CheckSig` reads
to choose the signature hash. Two code paths set it: `LoadBlockIndexDB` at start-up, when the
tip loaded from disk is at or above `FinalActivateForkHeight`, and `UpdateTip` after every
block connected or disconnected, when the new tip is exactly at `FinalActivateForkHeight`.
Either may also fire on the SegWit deployment (`-segwitfork`). Both call `ActivateFork`, whose
one-off actions (recording the actual fork height, writing `btcfork.conf`, the wallet backup)
run only on the first activation of a node that has not forked before. Nothing clears the
flag: `DeactivateFork` has no caller.

The model keeps the globals the trigger reads and writes in `MVFNodeState`, with the height
of the active chain. The state of the SegWit deployment at the new tip is an argument of each
step, and the wallet's `BackupWalletAuto` is a parameter: whether the backup at a block
succeeded.

## Main definitions

* `MvfBu.MVFNodeState`, `MvfBu.ForkSetup`.
* `MvfBu.ActivateFork`, `MvfBu.UpdateTip`, `MvfBu.LoadBlockIndexDB`.
* `MvfBu.TipChange`, `MvfBu.runTipChanges` — blocks connected (`ConnectTip`) and disconnected
  (`DisconnectTip`) one after another, each followed by `UpdateTip`.

## Main results

* `MvfBu.UpdateTip_eq_ok` — everything one `UpdateTip` does to the state.
* `MvfBu.LoadBlockIndexDB_flag` — at start-up the flag is `Height() >= FinalActivateForkHeight`.
* `MvfBu.runTipChanges_flag` — along a run the flag latches: it is set once the tip has been
  at `FinalActivateForkHeight`, and it stays set.
* `MvfBu.runTipChanges_active_of_le` — a tip at or above the fork height has the flag set.
* `MvfBu.fork_flag_survives_reorg_below_fork_height` — a reorg to below the fork height
  leaves it set, where a start-up at the same tip leaves it clear.

## Implementation notes

The `-forkid` and `-diffdrop` settings of `ForkSetup`, the contents of `btcfork.conf` other
than the fork height, and the log lines are left out: no function here reads them.
-/

namespace MvfBu

/-- The text of the `runtime_error` thrown when the automatic wallet backup fails. -/
def backupFailedError : String := "CWallet::BackupWalletAuto() : Auto wallet backup failed!"

/-- The command-line arguments the fork trigger reads. -/
structure MVFArgs where
  /-- `-forkheight`, by default the network's minimum fork height. -/
  forkheight : ℤ
  /-- `-segwitfork` (by default `DEFAULT_TRIGGER_ON_SEGWIT`, true). -/
  segwitfork : Bool
  /-- `-disablewallet`. -/
  disablewallet : Bool
  /-- `-autobackupblock`, when it is given. -/
  autobackupblock : Option ℤ
  deriving DecidableEq, Repr

/-- The globals of the fork trigger (`mvf-bu-globals.cpp`) and the height of `chainActive`. -/
structure MVFNodeState where
  chainHeight : ℤ
  FinalActivateForkHeight : ℤ
  isMVFHardForkActive : Bool
  wasMVFHardForkPreviouslyActivated : Bool
  fAutoBackupDone : Bool
  deriving DecidableEq, Repr

/-- `ForkSetup`, for the fork height and the activation flags. `btcforkConf` is `none` when
there is no `btcfork.conf`, and otherwise the `forkheight` the file gives, which overrides
`-forkheight`. A fork height that is not positive returns `none`: the caller shuts down. The
chain is still empty and no backup has been made. -/
def ForkSetup (args : MVFArgs) (btcforkConf : Option (Option ℤ)) : Option MVFNodeState :=
  let FinalActivateForkHeight := match btcforkConf with
    | some (some h) => h
    | _ => args.forkheight
  if FinalActivateForkHeight ≤ 0 then none
  else some
    { chainHeight := -1, FinalActivateForkHeight := FinalActivateForkHeight,
      isMVFHardForkActive := false, wasMVFHardForkPreviouslyActivated := btcforkConf.isSome,
      fAutoBackupDone := false }

section Trigger

variable (args : MVFArgs) (BackupWalletAuto : ℤ → Bool)

/-- The wallet backup among `ActivateFork`'s one-off actions (MVHF-BU-DES-WABU-3): at the fork
block, if asked for and not yet made, unless the wallet is disabled; a failed backup throws.
When no backup is asked for, the one made before the fork is taken as done. -/
def ActivateForkAutoBackup (actualForkHeight : ℤ) (doBackup : Bool) (s : MVFNodeState) :
    Except String MVFNodeState :=
  if doBackup && !s.fAutoBackupDone then
    if args.disablewallet then pure { s with fAutoBackupDone := true }
    else if BackupWalletAuto actualForkHeight then pure { s with fAutoBackupDone := true }
    else throw backupFailedError
  else pure { s with fAutoBackupDone := true }

/-- `ActivateFork(actualForkHeight, doBackup)` (MVHF-BU-DES-TRIG-6): the one-off actions, only
when the fork is neither active nor recorded in `btcfork.conf`, then the flag. -/
def ActivateFork (actualForkHeight : ℤ) (doBackup : Bool) (s : MVFNodeState) :
    Except String MVFNodeState := do
  let s ← (if !s.isMVFHardForkActive && !s.wasMVFHardForkPreviouslyActivated then
      -- the height recorded is the one the fork actually happened at
      ActivateForkAutoBackup args BackupWalletAuto actualForkHeight doBackup
        { s with FinalActivateForkHeight := actualForkHeight }
    else pure s)
  pure { s with isMVFHardForkActive := true }

/-- The wallet backup at the pre-fork block that closes `UpdateTip` (MVHF-BU-DES-WABU-3): once,
at the block `-autobackupblock` (by default the one before the fork), unless the wallet is
disabled; a failed backup throws. -/
def UpdateTipAutoBackup (s : MVFNodeState) : Except String MVFNodeState :=
  if !s.fAutoBackupDone then
    let BackupBlock := args.autobackupblock.getD (s.FinalActivateForkHeight - 1)
    if args.disablewallet then pure { s with fAutoBackupDone := true }
    else if s.chainHeight = BackupBlock then
      if BackupWalletAuto BackupBlock then pure { s with fAutoBackupDone := true }
      else throw backupFailedError
    else pure s
  else pure s

/-- `UpdateTip(pindexNew)`, for the fork trigger: the new tip, then the fork activation when
the tip is exactly at the fork height (or on SegWit), then the pre-fork backup. -/
def UpdateTip (newHeight : ℤ) (segwitActive : Bool) (s : MVFNodeState) :
    Except String MVFNodeState := do
  let s := { s with chainHeight := newHeight }
  let s ← (if !s.isMVFHardForkActive &&
        (s.chainHeight == s.FinalActivateForkHeight || segwitActive && args.segwitfork) then
      ActivateFork args BackupWalletAuto s.chainHeight true s
    else pure s)
  UpdateTipAutoBackup args BackupWalletAuto s

/-- The end of `LoadBlockIndexDB`: the tip read from the coins database (`none` when the block
index has no entry for it, and the function returns before setting a tip), then the fork
activation when the tip is at or above the fork height (or on SegWit), with no backup. -/
def LoadBlockIndexDB (tipHeight : Option ℤ) (segwitActive : Bool) (s : MVFNodeState) :
    Except String MVFNodeState :=
  match tipHeight with
  | none => pure s
  | some h =>
    let s := { s with chainHeight := h }
    if !s.isMVFHardForkActive &&
        (decide (s.chainHeight ≥ s.FinalActivateForkHeight) || segwitActive && args.segwitfork) then
      ActivateFork args BackupWalletAuto s.chainHeight false s
    else pure s

end Trigger

/-- A change of the active tip: a block connected on top of it (`ConnectTip`) or the tip
disconnected (`DisconnectTip`), with the state of the SegWit deployment at the new tip. -/
inductive TipChange
  | connect (segwitActive : Bool)
  | disconnect (segwitActive : Bool)
  deriving DecidableEq, Repr

namespace TipChange

/-- The height of the new tip. -/
def newHeight : TipChange → ℤ → ℤ
  | connect _, h => h + 1
  | disconnect _, h => h - 1

/-- Whether SegWit is active at the new tip. -/
def segwitActive : TipChange → Bool
  | connect b => b
  | disconnect b => b

/-- Every tip change moves the tip by one block. -/
lemma newHeight_cases (c : TipChange) (h : ℤ) : c.newHeight h = h + 1 ∨ c.newHeight h = h - 1 := by
  cases c with
  | connect _ => exact .inl rfl
  | disconnect _ => exact .inr rfl

end TipChange

section Run

variable (args : MVFArgs) (BackupWalletAuto : ℤ → Bool)

/-- One tip change: `UpdateTip` at the new tip. -/
def applyTipChange (s : MVFNodeState) (c : TipChange) : Except String MVFNodeState :=
  UpdateTip args BackupWalletAuto (c.newHeight s.chainHeight) c.segwitActive s

/-- Tip changes one after another; the first thrown error ends the run. -/
def runTipChanges (cs : List TipChange) (s : MVFNodeState) : Except String MVFNodeState :=
  cs.foldlM (applyTipChange args BackupWalletAuto) s

end Run

/-- The heights of the successive tips of a run from a tip at height `h`. -/
def visitedHeights : ℤ → List TipChange → List ℤ
  | _, [] => []
  | h, c :: cs => c.newHeight h :: visitedHeights (c.newHeight h) cs

/-! ## What one step does -/

section Steps

variable {args : MVFArgs} {BackupWalletAuto : ℤ → Bool}

/-- The backup of `ActivateFork` changes nothing but `fAutoBackupDone`. -/
lemma ActivateForkAutoBackup_eq_ok {a : ℤ} {d : Bool} {s s' : MVFNodeState}
    (h : ActivateForkAutoBackup args BackupWalletAuto a d s = .ok s') :
    s' = { s with fAutoBackupDone := s'.fAutoBackupDone } := by
  unfold ActivateForkAutoBackup at h
  split_ifs at h <;> cases h <;> rfl

/-- The backup of `UpdateTip` changes nothing but `fAutoBackupDone`. -/
lemma UpdateTipAutoBackup_eq_ok {s s' : MVFNodeState}
    (h : UpdateTipAutoBackup args BackupWalletAuto s = .ok s') :
    s' = { s with fAutoBackupDone := s'.fAutoBackupDone } := by
  simp only [UpdateTipAutoBackup] at h
  split_ifs at h <;> cases h <;> rfl

/-- **`ActivateFork` sets the flag**, and records the actual height only on a node that has
not forked before. -/
lemma ActivateFork_eq_ok {a : ℤ} {d : Bool} {s s' : MVFNodeState}
    (h : ActivateFork args BackupWalletAuto a d s = .ok s') :
    s' = { s with
      isMVFHardForkActive := true
      fAutoBackupDone := s'.fAutoBackupDone
      FinalActivateForkHeight :=
        if !s.isMVFHardForkActive && !s.wasMVFHardForkPreviouslyActivated then a
        else s.FinalActivateForkHeight } := by
  unfold ActivateFork at h
  obtain ⟨s₁, h₁, hs'⟩ := Except.bind_eq_ok.1 h
  rw [Except.pure_eq_ok, Except.ok.injEq] at hs'
  subst hs'
  split_ifs at h₁ with hfirst
  · -- the one-off actions ran: only the height and the backup flag moved
    rw [ActivateForkAutoBackup_eq_ok h₁]
    simp [hfirst]
  · cases h₁
    simp [hfirst]

/-- **Everything one `UpdateTip` does**: the new tip, the flag set when the tip is at the fork
height or SegWit triggers, the fork height recorded on a first activation, and the backup
flag; `wasMVFHardForkPreviouslyActivated` is untouched. -/
lemma UpdateTip_eq_ok {n : ℤ} {sw : Bool} {s s' : MVFNodeState}
    (h : UpdateTip args BackupWalletAuto n sw s = .ok s') :
    s' = { s with
      chainHeight := n
      fAutoBackupDone := s'.fAutoBackupDone
      isMVFHardForkActive :=
        s.isMVFHardForkActive || (n == s.FinalActivateForkHeight || sw && args.segwitfork)
      FinalActivateForkHeight :=
        if !s.isMVFHardForkActive && !s.wasMVFHardForkPreviouslyActivated &&
          (n == s.FinalActivateForkHeight || sw && args.segwitfork) then n
        else s.FinalActivateForkHeight } := by
  simp only [UpdateTip] at h
  obtain ⟨s₁, h₁, h₂⟩ := Except.bind_eq_ok.1 h
  rw [UpdateTipAutoBackup_eq_ok h₂]
  obtain ⟨height, F, active, was, done⟩ := s
  split_ifs at h₁ with htrig
  · rw [ActivateFork_eq_ok h₁]
    simp_all
  · -- no activation: the flag stays, whether it was set or the trigger did not fire
    cases h₁
    cases active <;> simp_all

/-- With SegWit not triggering, `UpdateTip` sets the flag exactly when the tip reaches the
fork height, and the fork height stays. -/
lemma UpdateTip_of_no_segwit {n : ℤ} {sw : Bool} {s s' : MVFNodeState}
    (hsw : (sw && args.segwitfork) = false) (h : UpdateTip args BackupWalletAuto n sw s = .ok s') :
    s'.chainHeight = n ∧
      s'.isMVFHardForkActive = (s.isMVFHardForkActive || n == s.FinalActivateForkHeight) ∧
      s'.FinalActivateForkHeight = s.FinalActivateForkHeight ∧
      s'.wasMVFHardForkPreviouslyActivated = s.wasMVFHardForkPreviouslyActivated := by
  rw [UpdateTip_eq_ok h]
  refine ⟨rfl, by simp only [hsw, Bool.or_false], ?_, rfl⟩
  simp only [hsw, Bool.or_false]
  split_ifs with htrig
  · -- a first activation records the tip's height, which is the fork height itself
    simp only [Bool.and_eq_true, beq_iff_eq] at htrig
    exact htrig.2
  · rfl

end Steps

/-! ## Start-up and runs of tip changes -/

section Runs

variable {args : MVFArgs} {BackupWalletAuto : ℤ → Bool}

/-- **The start-up path.** From a state where the fork is not yet active, and with SegWit
not triggering, `LoadBlockIndexDB` leaves the flag equal to `Height() >= FinalActivateForkHeight`
for the tip it loads. -/
theorem LoadBlockIndexDB_flag {h : ℤ} {sw : Bool} {s s' : MVFNodeState}
    (hoff : s.isMVFHardForkActive = false) (hsw : (sw && args.segwitfork) = false)
    (hload : LoadBlockIndexDB args BackupWalletAuto (some h) sw s = .ok s') :
    s'.chainHeight = h ∧
      s'.isMVFHardForkActive = decide (s'.FinalActivateForkHeight ≤ s'.chainHeight) := by
  simp only [LoadBlockIndexDB, hoff, hsw, Bool.or_false, Bool.not_false, Bool.true_and] at hload
  split_ifs at hload with hge
  · -- at or above the fork height: the flag is set, and the height recorded is at most the tip's
    rw [ActivateFork_eq_ok hload]
    have hge' : s.FinalActivateForkHeight ≤ h := by simpa using hge
    refine ⟨rfl, ?_⟩
    split_ifs <;> simp [hge']
  · cases hload
    have hlt : ¬ s.FinalActivateForkHeight ≤ h := by simpa using hge
    exact ⟨rfl, by simp [hlt]⟩

/-- The half of "the flag is `Height() >= FinalActivateForkHeight`" that the code keeps: no
tip at or above the fork height without the flag. -/
def ActivationInv (s : MVFNodeState) : Prop :=
  s.isMVFHardForkActive = false → s.chainHeight < s.FinalActivateForkHeight

/-- A state whose flag is `Height() >= FinalActivateForkHeight`, as `LoadBlockIndexDB` leaves
it, satisfies `ActivationInv`. -/
lemma activationInv_of_flag_eq {s : MVFNodeState}
    (h : s.isMVFHardForkActive = decide (s.FinalActivateForkHeight ≤ s.chainHeight)) :
    ActivationInv s := by
  intro hoff
  rw [hoff] at h
  have hnot : ¬ s.FinalActivateForkHeight ≤ s.chainHeight := by simpa using h.symm
  omega

/-- **Step lemma.** With SegWit not triggering, a tip change keeps `ActivationInv`: a tip
below the fork height moves by one block, so it cannot pass the fork height without stopping
on it, and stopping on it sets the flag. -/
lemma applyTipChange_inv (hseg : args.segwitfork = false) {s s' : MVFNodeState} {c : TipChange}
    (hinv : ActivationInv s) (h : applyTipChange args BackupWalletAuto s c = .ok s') :
    ActivationInv s' := by
  obtain ⟨hh, hflag, hF, -⟩ := UpdateTip_of_no_segwit (by simp [hseg]) h
  intro hoff
  rw [hflag, Bool.or_eq_false_iff] at hoff
  have hbelow := hinv hoff.1
  have hne : c.newHeight s.chainHeight ≠ s.FinalActivateForkHeight := by simpa using hoff.2
  rw [hh, hF]
  rcases TipChange.newHeight_cases c s.chainHeight with hstep | hstep <;> omega

/-- **Run lemma: activation is never missed.** With SegWit not triggering, along every run of
tip changes from a state satisfying `ActivationInv` (as `LoadBlockIndexDB` leaves it), every
tip at or above the fork height has the flag set. -/
theorem runTipChanges_active_of_le (hseg : args.segwitfork = false) {cs : List TipChange}
    {s s' : MVFNodeState} (hinv : ActivationInv s)
    (hrun : runTipChanges args BackupWalletAuto cs s = .ok s')
    (hle : s'.FinalActivateForkHeight ≤ s'.chainHeight) : s'.isMVFHardForkActive = true := by
  have hinv' : ActivationInv s' :=
    Except.foldlM_invariant ActivationInv (fun _ _ _ hs hstep => applyTipChange_inv hseg hs hstep)
      cs hinv hrun
  by_contra hoff
  have := hinv' (by simpa using hoff)
  omega

/-- **Run lemma: the flag latches.** With SegWit not triggering, after a run of tip changes the
fork height is unchanged, and the flag is set exactly when it was set before or one of the
tips of the run was at the fork height. Nothing in a run clears it. -/
theorem runTipChanges_flag (hseg : args.segwitfork = false) :
    ∀ {cs : List TipChange} {s s' : MVFNodeState},
      runTipChanges args BackupWalletAuto cs s = .ok s' →
      s'.FinalActivateForkHeight = s.FinalActivateForkHeight ∧
        s'.isMVFHardForkActive =
          (s.isMVFHardForkActive ||
            decide (s.FinalActivateForkHeight ∈ visitedHeights s.chainHeight cs))
  | [], s, s', hrun => by
    have hss' : s = s' := by simpa [runTipChanges] using hrun
    subst hss'
    simp [visitedHeights]
  | c :: cs, s, s', hrun => by
    obtain ⟨s₁, h₁, hrest⟩ := Except.bind_eq_ok.1 (by simpa [runTipChanges] using hrun)
    obtain ⟨hh, hflag, hF, -⟩ := UpdateTip_of_no_segwit (by simp [hseg]) h₁
    obtain ⟨hF', hflag'⟩ := runTipChanges_flag hseg hrest
    refine ⟨hF'.trans hF, ?_⟩
    -- the first tip is the head of the visited heights, the rest of the run starts there
    have hbeq : (c.newHeight s.chainHeight == s.FinalActivateForkHeight) =
        decide (s.FinalActivateForkHeight = c.newHeight s.chainHeight) := by
      by_cases e : s.FinalActivateForkHeight = c.newHeight s.chainHeight
      · simp [e]
      · have e' : c.newHeight s.chainHeight ≠ s.FinalActivateForkHeight := Ne.symm e
        simp [e, e']
    simp [hflag', hflag, hh, hF, visitedHeights, hbeq, Bool.or_assoc]

/-- **A reorg below the fork height leaves the fork active.** For every fork height and every
setting of the arguments, a node started with no `btcfork.conf` at the block before the fork
height has the flag clear; connecting the fork block and disconnecting it again brings the tip
back to the same height with the flag set, as long as the wallet backup at the fork block
succeeds. -/
theorem fork_flag_survives_reorg_below_fork_height (args : MVFArgs)
    (BackupWalletAuto : ℤ → Bool) (hF : 0 < args.forkheight)
    (hB : BackupWalletAuto args.forkheight = true) :
    ∃ s₀ s₁ s₂, ForkSetup args none = some s₀ ∧
      LoadBlockIndexDB args BackupWalletAuto (some (args.forkheight - 1)) false s₀ = .ok s₁ ∧
      s₁.isMVFHardForkActive = false ∧
      runTipChanges args BackupWalletAuto [.connect false, .disconnect false] s₁ = .ok s₂ ∧
      s₂.chainHeight = s₁.chainHeight ∧ s₂.isMVFHardForkActive = true := by
  have hle : ¬ args.forkheight ≤ 0 := by omega
  have hlt : ¬ args.forkheight ≤ args.forkheight - 1 := by omega
  refine ⟨⟨-1, args.forkheight, false, false, false⟩, ⟨args.forkheight - 1, args.forkheight, false, false, false⟩,
    ⟨args.forkheight - 1, args.forkheight, true, false, true⟩,
    by simp [ForkSetup, hle], by simp [LoadBlockIndexDB, hlt], rfl, ?_, rfl, rfl⟩
  cases hd : args.disablewallet <;>
    simp [runTipChanges, applyTipChange, TipChange.newHeight, TipChange.segwitActive, UpdateTip,
      ActivateFork, ActivateForkAutoBackup, UpdateTipAutoBackup, hd, hB]

/-- The reorg at fork height `10`, with the backup succeeding. -/
theorem fork_flag_survives_reorg_at_ten :
    (0 : ℤ) < 10 ∧ (fun _ : ℤ => true) 10 = true ∧
    ∃ s₀ s₁ s₂, ForkSetup ⟨10, false, false, none⟩ none = some s₀ ∧
      LoadBlockIndexDB ⟨10, false, false, none⟩ (fun _ => true) (some (10 - 1)) false s₀ =
        .ok s₁ ∧
      s₁.isMVFHardForkActive = false ∧
      runTipChanges ⟨10, false, false, none⟩ (fun _ => true) [.connect false, .disconnect false]
        s₁ = .ok s₂ ∧
      s₂.chainHeight = s₁.chainHeight ∧ s₂.isMVFHardForkActive = true :=
  ⟨by decide, rfl,
    fork_flag_survives_reorg_below_fork_height ⟨10, false, false, none⟩ (fun _ => true)
      (by decide) rfl⟩

end Runs

end MvfBu
