import Mathlib.Logic.Relation
import Mathlib.Data.Int.Order.Basic
import MvfBu.Lib.Median

set_option autoImplicit false

/-!
# BIP9 deployment states (`versionbits.cpp`)

A soft fork deployed by BIP9 moves through `THRESHOLD_DEFINED`, `THRESHOLD_STARTED`,
`THRESHOLD_LOCKED_IN` and `THRESHOLD_ACTIVE`, or ends in `THRESHOLD_FAILED`, one retarget
period at a time, reading the median time past of the last block of each period and counting
the blocks of the period that signal. `AbstractThresholdConditionChecker::GetStateFor`
computes the state of the block after `pindexPrev` with a cache: it walks back a period at a
time to a block whose state is cached, to `NULL`, or to a block whose median time is before
the start time, where it stops early and records `THRESHOLD_DEFINED`; it then replays the
periods forward and caches each state.

The early stop is sound only because median times do not fall along a chain whose blocks
keep the timestamp rule (each block later than its parent's median time past), and only when
the start time is not after the timeout: a block before the start time but at or after the
timeout has the state `THRESHOLD_FAILED` by the recursion, and `THRESHOLD_DEFINED` by the
early stop.

## Main definitions

* `MvfBu.ThresholdState`, `MvfBu.AbstractThresholdConditionChecker`.
* `MvfBu.GetMedianTimePast`, `MvfBu.GetStateFor` — the code, over block indices given as
  the list of headers back to genesis (`[]` is `NULL`).
* `MvfBu.recursiveState` — the state defined by recursion over periods.
* `MvfBu.CacheReachable` — the caches that calls of `GetStateFor` leave.

## Main results

* `MvfBu.GetMedianTimePast_drop_le` — under the timestamp rule median times do not fall.
* `MvfBu.GetStateFor_eq` — with the start time not after the timeout, on a chain keeping the
  timestamp rule and with a cache left by earlier calls, `GetStateFor` is the recursive state
  of the period, the same for every block of the period, and never moves backwards along the
  chain.

## Implementation notes

A `CBlockIndex*` is the list of headers from the block back to genesis, so that `pprev` is
the tail, `GetAncestor` a `drop`, and two blocks are the same pointer exactly when they have
the same ancestry. The cache, a `std::map` keyed by pointer, is a function from block indices
that is read and updated at single keys.
-/

namespace MvfBu

/-- `ThresholdState`, the states of a BIP9 deployment. -/
inductive ThresholdState
  | THRESHOLD_DEFINED
  | THRESHOLD_STARTED
  | THRESHOLD_LOCKED_IN
  | THRESHOLD_ACTIVE
  | THRESHOLD_FAILED
  deriving DecidableEq, Repr

open ThresholdState

/-- The moves of a deployment from one period to the next that change its state. -/
inductive ThresholdState.Step : ThresholdState → ThresholdState → Prop
  | start : Step THRESHOLD_DEFINED THRESHOLD_STARTED
  | failDefined : Step THRESHOLD_DEFINED THRESHOLD_FAILED
  | lockIn : Step THRESHOLD_STARTED THRESHOLD_LOCKED_IN
  | failStarted : Step THRESHOLD_STARTED THRESHOLD_FAILED
  | activate : Step THRESHOLD_LOCKED_IN THRESHOLD_ACTIVE

/-- `ThresholdConditionCache`: the states known, by block index. -/
abbrev ThresholdConditionCache (β : Type) := List β → Option ThresholdState

/-- `AbstractThresholdConditionChecker` with its parameters: which blocks signal, the start and
end times, the period, which is positive, and the threshold. -/
structure AbstractThresholdConditionChecker (β : Type) where
  Condition : List β → Bool
  BeginTime : ℤ
  EndTime : ℤ
  Period : ℕ
  Threshold : ℕ
  Period_pos : 0 < Period

/-- `nMedianTimeSpan`. -/
def nMedianTimeSpan : ℕ := 11

/-- `VERSIONBITS_TOP_BITS`. -/
def VERSIONBITS_TOP_BITS : BitVec 32 := 0x20000000#32

/-- `VERSIONBITS_TOP_MASK`. -/
def VERSIONBITS_TOP_MASK : BitVec 32 := 0xE0000000#32

variable {β : Type}

/-- `VersionBitsConditionChecker` for a deployment: a block signals when its version has the
top bits `001` and the deployment's bit set. -/
def VersionBitsConditionChecker (nVersion : β → BitVec 32) (nStartTime nTimeout : ℤ) (bit : ℕ)
    (nMinerConfirmationWindow : ℕ) (hwindow : 0 < nMinerConfirmationWindow)
    (nRuleChangeActivationThreshold : ℕ) : AbstractThresholdConditionChecker β where
  Condition
    | [] => false
    | b :: _ => (nVersion b &&& VERSIONBITS_TOP_MASK) == VERSIONBITS_TOP_BITS &&
        (nVersion b &&& (1#32 <<< bit)) != 0#32
  BeginTime := nStartTime
  EndTime := nTimeout
  Period := nMinerConfirmationWindow
  Threshold := nRuleChangeActivationThreshold
  Period_pos := hwindow

section Periods

variable (GetBlockTime : β → ℤ) (c : AbstractThresholdConditionChecker β)

/-- `CBlockIndex::GetMedianTimePast`: the median of the times of the block and the ten before
it, or of as many as there are. -/
def GetMedianTimePast (pindex : List β) : ℤ :=
  ((pindex.take nMedianTimeSpan).map GetBlockTime).median 0

/-- The `switch` of the forward walk of `GetStateFor`: the state after the period ending at
`pindexPrev`, from the state before it. -/
def nextState (state : ThresholdState) (pindexPrev : List β) : ThresholdState :=
  match state with
  | THRESHOLD_DEFINED =>
    if GetMedianTimePast GetBlockTime pindexPrev ≥ c.EndTime then THRESHOLD_FAILED
    else if GetMedianTimePast GetBlockTime pindexPrev ≥ c.BeginTime then THRESHOLD_STARTED
    else THRESHOLD_DEFINED
  | THRESHOLD_STARTED =>
    if GetMedianTimePast GetBlockTime pindexPrev ≥ c.EndTime then THRESHOLD_FAILED
    else
      -- the blocks of the period ending at `pindexPrev` that signal
      let count := (List.range c.Period).countP fun i => c.Condition (pindexPrev.drop i)
      if count ≥ c.Threshold then THRESHOLD_LOCKED_IN else THRESHOLD_STARTED
  | THRESHOLD_LOCKED_IN => THRESHOLD_ACTIVE
  | THRESHOLD_FAILED => THRESHOLD_FAILED
  | THRESHOLD_ACTIVE => THRESHOLD_ACTIVE

/-- **The BIP9 state by recursion over periods.** The state after the period ending at a
block, from the state one period back; `THRESHOLD_DEFINED` before the first block. -/
def recursiveState : List β → ThresholdState
  | [] => THRESHOLD_DEFINED
  | b :: p => nextState GetBlockTime c (recursiveState ((b :: p).drop c.Period)) (b :: p)
termination_by l => l.length
decreasing_by
  have := c.Period_pos
  simp only [List.length_drop, List.length_cons]
  omega

/-- The timestamp rule along a chain: every block's time is after its parent's median time
past. -/
def MedianTimeRule : List β → Prop
  | [] => True
  | b :: p => (p ≠ [] → GetMedianTimePast GetBlockTime p < GetBlockTime b) ∧ MedianTimeRule p

end Periods

section GetStateFor

variable [DecidableEq β] (GetBlockTime : β → ℤ) (c : AbstractThresholdConditionChecker β)

/-- The backward walk of `GetStateFor`: from `pindexPrev` back a period at a time to a block
whose state is cached, to `NULL`, or to a block whose median time is before the start time,
the last two being cached as `THRESHOLD_DEFINED`. The result is the blocks to compute, newest
first, the block reached and the cache. -/
def walkBack (cache : ThresholdConditionCache β) (pindexPrev : List β) :
    List (List β) × List β × ThresholdConditionCache β :=
  match cache pindexPrev with
  | some _ => ([], pindexPrev, cache)
  | none =>
    match pindexPrev with
    | [] => ([], [], Function.update cache [] (some THRESHOLD_DEFINED))
    | b :: p =>
      if GetMedianTimePast GetBlockTime (b :: p) < c.BeginTime then
        ([], b :: p, Function.update cache (b :: p) (some THRESHOLD_DEFINED))
      else
        let r := walkBack cache ((b :: p).drop c.Period)
        ((b :: p) :: r.1, r.2.1, r.2.2)
termination_by pindexPrev.length
decreasing_by
  have := c.Period_pos
  simp only [List.length_drop, List.length_cons]
  omega

/-- One turn of the forward walk of `GetStateFor`: the state after the period ending at `p`,
from the state before it, cached at `p`. -/
def replayPeriod (p : List β) (r : ThresholdState × ThresholdConditionCache β) :
    ThresholdState × ThresholdConditionCache β :=
  let state := nextState GetBlockTime c r.1 p
  (state, Function.update r.2 p (some state))

/-- `AbstractThresholdConditionChecker::GetStateFor`: the state of the block after
`pindexPrev`, computed at the last block of the period before it, and the cache after the
call. -/
def GetStateFor (pindexPrev : List β) (cache : ThresholdConditionCache β) :
    ThresholdState × ThresholdConditionCache β :=
  let pindexPrev := pindexPrev.drop (pindexPrev.length % c.Period)
  let w := walkBack GetBlockTime c cache pindexPrev
  -- the forward walk, oldest block first
  w.1.foldr (replayPeriod GetBlockTime c) ((w.2.2 w.2.1).getD THRESHOLD_DEFINED, w.2.2)

/-- The caches that calls of `GetStateFor` leave, from the empty one. -/
inductive CacheReachable : ThresholdConditionCache β → Prop
  | empty : CacheReachable fun _ => none
  | call {cache : ThresholdConditionCache β} (pindexPrev : List β) :
      CacheReachable cache → CacheReachable (GetStateFor GetBlockTime c pindexPrev cache).2

end GetStateFor

/-! ### Median times along a chain -/

section MedianTime

variable (GetBlockTime : β → ℤ)

/-- A chain keeping the timestamp rule keeps it back from any of its blocks. -/
theorem MedianTimeRule.drop {l : List β} (h : MedianTimeRule GetBlockTime l) (n : ℕ) :
    MedianTimeRule GetBlockTime (l.drop n) := by
  induction n generalizing l with
  | zero => exact h
  | succ n ih =>
    cases l with
    | nil => exact h
    | cons b p => exact ih h.2

/-- **Median times do not fall** from a block's parent to the block under the timestamp
rule: the block's time is above its parent's median, and the window drops at most its
oldest time. -/
theorem GetMedianTimePast_le_cons {b : β} {p : List β} (h : MedianTimeRule GetBlockTime (b :: p))
    (hp : p ≠ []) : GetMedianTimePast GetBlockTime p ≤ GetMedianTimePast GetBlockTime (b :: p) := by
  have hwin : List.Sublist (p.take 10) (p.take 11) := by
    have h10 : (p.take 11).take 10 = p.take 10 := by
      rw [List.take_take]
      rfl
    exact h10 ▸ List.take_sublist 10 (p.take 11)
  simp only [GetMedianTimePast, nMedianTimeSpan, List.take_succ_cons, List.map_cons]
  apply List.median_le_median_cons
  · simpa using hp
  · exact hwin.map GetBlockTime
  · simp only [List.length_map, List.length_take]
    omega
  · exact h.1 hp

/-- Median times do not fall along a chain keeping the timestamp rule. -/
theorem GetMedianTimePast_drop_le {l : List β} (h : MedianTimeRule GetBlockTime l) (n : ℕ)
    (hn : l.drop n ≠ []) :
    GetMedianTimePast GetBlockTime (l.drop n) ≤ GetMedianTimePast GetBlockTime l := by
  induction n generalizing l with
  | zero => exact le_refl _
  | succ n ih =>
    cases l with
    | nil => exact absurd rfl hn
    | cons b p =>
      rw [List.drop_succ_cons] at hn ⊢
      have hp : p ≠ [] := by
        rintro rfl
        simp at hn
      exact (ih h.2 hn).trans (GetMedianTimePast_le_cons GetBlockTime h hp)

end MedianTime

/-! ### The recursive states -/

section Recursion

variable (GetBlockTime : β → ℤ) (c : AbstractThresholdConditionChecker β)

theorem recursiveState_cons (b : β) (p : List β) :
    recursiveState GetBlockTime c (b :: p) =
      nextState GetBlockTime c (recursiveState GetBlockTime c ((b :: p).drop c.Period)) (b :: p) := by
  rw [recursiveState]

/-- A period either keeps the state or makes one move. -/
theorem nextState_reflGen (state : ThresholdState) (p : List β) :
    Relation.ReflGen ThresholdState.Step state (nextState GetBlockTime c state p) := by
  cases state <;> simp only [nextState]
  · split_ifs
    · exact .single .failDefined
    · exact .single .start
    · exact .refl
  · split_ifs
    · exact .single .failStarted
    · exact .single .lockIn
    · exact .refl
  · exact .single .activate
  · exact .refl
  · exact .refl

/-- **Before the start time a deployment is defined**, on a chain keeping the timestamp rule
and when the start time is not after the timeout: every earlier period ended before the start
time too. -/
theorem recursiveState_of_lt_BeginTime (hc : c.BeginTime ≤ c.EndTime) (l : List β)
    (hl : MedianTimeRule GetBlockTime l) (hne : l ≠ [])
    (hlt : GetMedianTimePast GetBlockTime l < c.BeginTime) :
    recursiveState GetBlockTime c l = THRESHOLD_DEFINED := by
  fun_induction recursiveState GetBlockTime c l with
  | case1 => rfl
  | case2 b p ih =>
    have hprev : recursiveState GetBlockTime c ((b :: p).drop c.Period) = THRESHOLD_DEFINED := by
      by_cases hd : (b :: p).drop c.Period = []
      · rw [hd, recursiveState]
      · exact ih (hl.drop GetBlockTime _) hd
          (lt_of_le_of_lt (GetMedianTimePast_drop_le GetBlockTime hl _ hd) hlt)
    rw [hprev, nextState, if_neg (by omega), if_neg (by omega)]

/-- The states of consecutive periods: one period back the state reaches this one in at most
one move. -/
theorem recursiveState_drop_reflTransGen (l : List β) :
    Relation.ReflTransGen ThresholdState.Step (recursiveState GetBlockTime c (l.drop c.Period))
      (recursiveState GetBlockTime c l) := by
  cases l with
  | nil => rw [List.drop_nil]
  | cons b p =>
    rw [recursiveState_cons GetBlockTime c b p]
    exact (nextState_reflGen GetBlockTime c _ _).to_reflTransGen

end Recursion

/-! ### Periods -/

section Periods

variable {P : ℕ} (hP : 0 < P)
include hP

/-- Within a period the last block of the period before is the same. -/
theorem drop_mod_of_le (l : List β) {i : ℕ} (hi : i ≤ l.length % P) :
    (l.drop i).drop ((l.drop i).length % P) = l.drop (l.length % P) := by
  have hdiv := Nat.mod_add_div l.length P
  have hlt : l.length % P - i < P := by
    have := Nat.mod_lt l.length hP
    omega
  have hmod : (l.drop i).length % P = l.length % P - i := by
    rw [List.length_drop]
    have : l.length - i = (l.length % P - i) + P * (l.length / P) := by omega
    rw [this, Nat.add_mul_mod_self_left, Nat.mod_eq_of_lt hlt]
  rw [hmod, List.drop_drop]
  congr 1
  omega

/-- One block back, the last block of the period before is the same, or the block is the
last of its period and the one before it is a period back. -/
theorem drop_mod_tail (b : β) (p : List β) :
    p.drop (p.length % P) = (b :: p).drop ((b :: p).length % P) ∨
      ((b :: p).length % P = 0 ∧ p.drop (p.length % P) = (b :: p).drop P) := by
  have hlt := Nat.mod_lt p.length hP
  rw [List.length_cons, Nat.add_mod_eq_ite]
  rcases Nat.lt_or_ge 1 P with h1 | h1
  · rw [Nat.mod_eq_of_lt h1]
    split_ifs with hwrap
    · -- the block ends its period
      right
      refine ⟨by omega, ?_⟩
      obtain ⟨Q, rfl⟩ : ∃ Q, P = Q + 1 := ⟨P - 1, by omega⟩
      rw [List.drop_succ_cons]
      congr 1
      omega
    · left
      rw [List.drop_succ_cons]
  · -- a period of one block
    have hP1 : P = 1 := by omega
    subst hP1
    right
    simp [Nat.mod_one]

end Periods

/-! ### The cache -/

section Cache

variable [DecidableEq β] (GetBlockTime : β → ℤ) (c : AbstractThresholdConditionChecker β)

/-- `GetStateFor` after its first step as one recursion: the state after the period ending at
`pindexPrev`, and the cache. -/
def stateFromCache (cache : ThresholdConditionCache β) (pindexPrev : List β) :
    ThresholdState × ThresholdConditionCache β :=
  match cache pindexPrev with
  | some state => (state, cache)
  | none =>
    match pindexPrev with
    | [] => (THRESHOLD_DEFINED, Function.update cache [] (some THRESHOLD_DEFINED))
    | b :: p =>
      if GetMedianTimePast GetBlockTime (b :: p) < c.BeginTime then
        (THRESHOLD_DEFINED, Function.update cache (b :: p) (some THRESHOLD_DEFINED))
      else replayPeriod GetBlockTime c (b :: p) (stateFromCache cache ((b :: p).drop c.Period))
termination_by pindexPrev.length
decreasing_by
  have := c.Period_pos
  simp only [List.length_drop, List.length_cons]
  omega

/-- **The two walks of `GetStateFor` are one recursion.** Replaying forward the blocks the
backward walk collected, from the state where it stopped, is `stateFromCache`. -/
theorem foldr_walkBack (cache : ThresholdConditionCache β) (pindexPrev : List β) :
    (walkBack GetBlockTime c cache pindexPrev).1.foldr (replayPeriod GetBlockTime c)
      (((walkBack GetBlockTime c cache pindexPrev).2.2
        (walkBack GetBlockTime c cache pindexPrev).2.1).getD THRESHOLD_DEFINED,
        (walkBack GetBlockTime c cache pindexPrev).2.2) =
      stateFromCache GetBlockTime c cache pindexPrev := by
  fun_induction walkBack GetBlockTime c cache pindexPrev with
  | case1 p state h =>
    unfold stateFromCache
    simp [h]
  | case2 h =>
    unfold stateFromCache
    simp [h]
  | case3 b p hlt h =>
    unfold stateFromCache
    simp [h, hlt]
  | case4 b p hlt r h ih =>
    unfold stateFromCache
    simp only [h, hlt, if_false, List.foldr_cons, r, ih]

theorem GetStateFor_eq_stateFromCache (pindexPrev : List β) (cache : ThresholdConditionCache β) :
    GetStateFor GetBlockTime c pindexPrev cache =
      stateFromCache GetBlockTime c cache (pindexPrev.drop (pindexPrev.length % c.Period)) :=
  foldr_walkBack GetBlockTime c cache _

/-- A cache is valid when it agrees with the recursion at every block keeping the timestamp
rule. -/
def CacheValid (cache : ThresholdConditionCache β) : Prop :=
  ∀ p state, cache p = some state → MedianTimeRule GetBlockTime p →
    recursiveState GetBlockTime c p = state

variable {GetBlockTime c}

theorem CacheValid.update {cache : ThresholdConditionCache β} (hv : CacheValid GetBlockTime c cache)
    (p : List β) (state : ThresholdState)
    (h : MedianTimeRule GetBlockTime p → recursiveState GetBlockTime c p = state) :
    CacheValid GetBlockTime c (Function.update cache p (some state)) := by
  intro q st hq hrule
  by_cases hqp : q = p
  · subst hqp
    rw [Function.update_self, Option.some.injEq] at hq
    exact hq ▸ h hrule
  · rw [Function.update_of_ne hqp] at hq
    exact hv q st hq hrule

/-- **The recursion of the code computes the recursive states**, and leaves a valid cache,
when the start time is not after the timeout. -/
theorem stateFromCache_spec (hc : c.BeginTime ≤ c.EndTime) {cache : ThresholdConditionCache β}
    (hv : CacheValid GetBlockTime c cache) (pindexPrev : List β) :
    CacheValid GetBlockTime c (stateFromCache GetBlockTime c cache pindexPrev).2 ∧
      (MedianTimeRule GetBlockTime pindexPrev →
        (stateFromCache GetBlockTime c cache pindexPrev).1 =
          recursiveState GetBlockTime c pindexPrev) := by
  fun_induction stateFromCache GetBlockTime c cache pindexPrev with
  | case1 p state h => exact ⟨hv, fun hr => (hv p state h hr).symm⟩
  | case2 h =>
    have hdef : recursiveState GetBlockTime c [] = THRESHOLD_DEFINED := by rw [recursiveState]
    exact ⟨hv.update _ _ fun _ => hdef, fun _ => hdef.symm⟩
  | case3 b p hlt h =>
    -- the early stop: the recursion is defined there too
    have hdef : MedianTimeRule GetBlockTime (b :: p) →
        recursiveState GetBlockTime c (b :: p) = THRESHOLD_DEFINED := fun hr =>
      recursiveState_of_lt_BeginTime GetBlockTime c hc (b :: p) hr (List.cons_ne_nil b p) hlt
    exact ⟨hv.update _ _ hdef, fun hr => (hdef hr).symm⟩
  | case4 b p hlt h ih =>
    obtain ⟨hv', hprev⟩ := ih
    have hstate : MedianTimeRule GetBlockTime (b :: p) →
        recursiveState GetBlockTime c (b :: p) =
          nextState GetBlockTime c
            (stateFromCache GetBlockTime c cache ((b :: p).drop c.Period)).1 (b :: p) :=
      fun hr => by rw [hprev (hr.drop GetBlockTime _), recursiveState_cons]
    exact ⟨hv'.update _ _ hstate, fun hr => (hstate hr).symm⟩

/-- Every cache that calls of `GetStateFor` leave is valid, when the start time is not after
the timeout. -/
theorem CacheReachable.valid (hc : c.BeginTime ≤ c.EndTime) {cache : ThresholdConditionCache β}
    (h : CacheReachable GetBlockTime c cache) : CacheValid GetBlockTime c cache := by
  induction h with
  | empty =>
    intro _ _ h
    cases h
  | call q _ ih =>
    rw [GetStateFor_eq_stateFromCache]
    exact (stateFromCache_spec hc ih _).1

end Cache

/-! ### `GetStateFor` is the recursive state -/

section Correctness

variable (GetBlockTime : β → ℤ) (c : AbstractThresholdConditionChecker β)

/-- **Recursive states never move backwards along a chain**: the state of the period of any
earlier block reaches the state of the period of a later one. -/
theorem recursiveState_periodEnd_drop (l : List β) (i : ℕ) :
    Relation.ReflTransGen ThresholdState.Step
      (recursiveState GetBlockTime c ((l.drop i).drop ((l.drop i).length % c.Period)))
      (recursiveState GetBlockTime c (l.drop (l.length % c.Period))) := by
  induction i with
  | zero =>
    rw [List.drop_zero]
  | succ i ih =>
    rw [← List.drop_drop]
    generalize l.drop i = m at ih ⊢
    cases m with
    | nil =>
      simp only [List.drop_nil] at ih ⊢
      exact ih
    | cons b p =>
      rw [List.drop_one, List.tail_cons]
      rcases drop_mod_tail c.Period_pos b p with h | ⟨h0, h⟩
      · rw [h]
        exact ih
      · -- `b` ends its period: the period of `p` is the one before
        rw [h0, List.drop_zero] at ih
        rw [h]
        exact (recursiveState_drop_reflTransGen GetBlockTime c (b :: p)).trans ih

variable [DecidableEq β]

/-- `GetStateFor` returns the recursive state of the period of `pindexPrev`, on a chain
keeping the timestamp rule, with a cache left by earlier calls, when the start time is not
after the timeout. -/
theorem GetStateFor_fst (hc : c.BeginTime ≤ c.EndTime) {cache : ThresholdConditionCache β}
    (hcache : CacheReachable GetBlockTime c cache) {pindexPrev : List β}
    (hrule : MedianTimeRule GetBlockTime pindexPrev) :
    (GetStateFor GetBlockTime c pindexPrev cache).1 =
      recursiveState GetBlockTime c (pindexPrev.drop (pindexPrev.length % c.Period)) := by
  rw [GetStateFor_eq_stateFromCache]
  exact (stateFromCache_spec hc (hcache.valid hc) _).2 (hrule.drop GetBlockTime _)

/-- **`GetStateFor` with its cache is the BIP9 recursion.** When the start time is not after
the timeout, on a chain keeping the timestamp rule and with caches left by earlier calls,
`GetStateFor` returns the recursive state of the period of `pindexPrev`, returns the same for
every block back to the end of the period before, and for every block further back returns a
state from which this one is reached. -/
theorem GetStateFor_eq (hc : c.BeginTime ≤ c.EndTime) {cache cache' : ThresholdConditionCache β}
    (hcache : CacheReachable GetBlockTime c cache) (hcache' : CacheReachable GetBlockTime c cache')
    {pindexPrev : List β} (hrule : MedianTimeRule GetBlockTime pindexPrev) :
    (GetStateFor GetBlockTime c pindexPrev cache).1 =
        recursiveState GetBlockTime c (pindexPrev.drop (pindexPrev.length % c.Period)) ∧
      (∀ i ≤ pindexPrev.length % c.Period,
        (GetStateFor GetBlockTime c (pindexPrev.drop i) cache').1 =
          (GetStateFor GetBlockTime c pindexPrev cache).1) ∧
      ∀ i, Relation.ReflTransGen ThresholdState.Step
        (GetStateFor GetBlockTime c (pindexPrev.drop i) cache').1
        (GetStateFor GetBlockTime c pindexPrev cache).1 := by
  have hfst := GetStateFor_fst GetBlockTime c hc hcache hrule
  have hdrop : ∀ i, (GetStateFor GetBlockTime c (pindexPrev.drop i) cache').1 =
      recursiveState GetBlockTime c
        ((pindexPrev.drop i).drop ((pindexPrev.drop i).length % c.Period)) := fun i =>
    GetStateFor_fst GetBlockTime c hc hcache' (hrule.drop GetBlockTime i)
  refine ⟨hfst, fun i hi => ?_, fun i => ?_⟩
  · rw [hdrop, hfst, drop_mod_of_le c.Period_pos pindexPrev hi]
  · rw [hdrop, hfst]
    exact recursiveState_periodEnd_drop GetBlockTime c pindexPrev i

/-- A deployment with start time `0` and timeout `100`, a period of one block and no block
signalling. -/
def startBeforeTimeout : AbstractThresholdConditionChecker ℤ :=
  ⟨fun _ => false, 0, 100, 1, 1, Nat.one_pos⟩

theorem GetStateFor_eq_one_block :
    startBeforeTimeout.BeginTime ≤ startBeforeTimeout.EndTime ∧
      CacheReachable id startBeforeTimeout (fun _ => none) ∧ MedianTimeRule id [(60 : ℤ)] ∧
      (GetStateFor id startBeforeTimeout [(60 : ℤ)] fun _ => none).1 =
        recursiveState id startBeforeTimeout ([(60 : ℤ)].drop (1 % startBeforeTimeout.Period)) :=
  have hc : startBeforeTimeout.BeginTime ≤ startBeforeTimeout.EndTime := by decide
  have hrule : MedianTimeRule id [(60 : ℤ)] := ⟨fun h => absurd rfl h, trivial⟩
  ⟨hc, .empty, hrule, (GetStateFor_eq id startBeforeTimeout hc .empty .empty hrule).1⟩

/-- A deployment whose timeout `50` is before its start time `100`. -/
def timeoutBeforeStart : AbstractThresholdConditionChecker ℤ :=
  ⟨fun _ => false, 100, 50, 1, 1, Nat.one_pos⟩

/-- **The early stop needs the start time before the timeout.** A block with median time `60`,
before the start time and at or after the timeout, is `THRESHOLD_DEFINED` by `GetStateFor` and
`THRESHOLD_FAILED` by the recursion. -/
theorem GetStateFor_timeoutBeforeStart :
    (GetStateFor id timeoutBeforeStart [(60 : ℤ)] fun _ => none).1 = THRESHOLD_DEFINED ∧
      recursiveState id timeoutBeforeStart [(60 : ℤ)] = THRESHOLD_FAILED := by
  have hmtp : GetMedianTimePast id [(60 : ℤ)] = 60 := rfl
  constructor
  · rw [GetStateFor_eq_stateFromCache]
    unfold stateFromCache
    simp [hmtp, timeoutBeforeStart]
  · rw [recursiveState_cons]
    simp [hmtp, timeoutBeforeStart, recursiveState, nextState]

end Correctness

end MvfBu
