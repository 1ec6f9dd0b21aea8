import Mathlib
import MvfBu.Consensus.VersionBits
import MvfBu.Node.Mempool
import MvfBu.Arith.Compact

set_option autoImplicit false

/-!
# BIP 68 sequence locks and their cached lock points (`main.cpp`)

`CalculateSequenceLocks` turns the relative lock times of a transaction's inputs into the last
height and the last median time past at which the transaction is still locked, from the heights
of the coins it spends; `EvaluateSequenceLocks` compares them with a block's height and its
parent's median time past. `CheckSequenceLocks` asks whether a transaction could enter the next
block: it builds an entry `index` over the tip, gives the coins of pool transactions the height
`tip + 1`, and can store the pair in `LockPoints` with `maxInputBlock`, the highest block among
the inputs it looked at. The pool keeps the lock points of its entries; `removeForReorg` reuses
them while `TestLockPointValidity` finds `maxInputBlock` still on the active chain.

Reusing them is sound. An input whose coin was in the pool when the lock points were taken
passed only with a zero lock, which any later height of the coin still passes, since median
times do not fall along the chain; an input confirmed then is confirmed at or below
`maxInputBlock`, and a chain that still holds `maxInputBlock` holds the same coin at the same
height and the same ancestors to measure its lock from.

## Main definitions

* `MvfBu.Headers.nHeight`, `MvfBu.Headers.GetAncestor`, `MvfBu.Headers.Contains` — a
  `CBlockIndex*` as its headers back to genesis, and `CChain::Contains` on the chain of a tip.
* `MvfBu.CalculateSequenceLocks`, `MvfBu.EvaluateSequenceLocks`, `MvfBu.SequenceLocks`.
* `MvfBu.LockPoints`, `MvfBu.TestLockPointValidity`, `MvfBu.CheckSequenceLocks`.
* `MvfBu.LockFits` — one input's relative lock is over before a height and a time.

## Main results

* `MvfBu.SequenceLocks_iff` — a block satisfies the sequence locks of a transaction exactly when
  every input's lock is over before it.
* `MvfBu.CheckSequenceLocks_cached_sound` — lock points taken by a successful
  `CheckSequenceLocks` and still valid after any reorganisation give the answer a fresh
  computation gives, and then the transaction is final in every next block.

## Implementation notes

As in `Consensus/VersionBits.lean`, a `CBlockIndex*` is the list of headers from the block back
to genesis, newest first; `[]` is `NULL`. The entry `CBlockIndex index` that `CheckSequenceLocks`
builds is its header `index` put on the tip; only the headers below it are ever read, as no
coin is above the tip. `EvaluateSequenceLocks` asserts `block.pprev`; the model reads the
parent's median time past from `block.tail`. `flags` is a natural number: the source's `int`
only carries the two lock time flag bits. The coins are read through a `CoinsView`, as
`CCoinsViewMemPool` gives them.
-/

namespace MvfBu

/-- `LOCKTIME_VERIFY_SEQUENCE`. -/
def LOCKTIME_VERIFY_SEQUENCE : ℕ := 1 <<< 0

/-- `CTxIn::SEQUENCE_LOCKTIME_GRANULARITY`. -/
def SEQUENCE_LOCKTIME_GRANULARITY : ℕ := 9

namespace Headers

variable {β : Type}

/-- `CBlockIndex::nHeight`: the headers below the block, `-1` for `NULL`. -/
def nHeight (pindex : List β) : ℤ := pindex.length - 1

/-- `CBlockIndex::GetAncestor(height)`: the ancestor at `height`, `NULL` outside
`[0, nHeight]`. -/
def GetAncestor (pindex : List β) (height : ℤ) : List β :=
  if 0 ≤ height ∧ height ≤ nHeight pindex then pindex.drop (pindex.length - 1 - height.toNat)
  else []

/-- `CChain::Contains(pindex)`, `chainActive[pindex->nHeight] == pindex`, on the chain whose
tip is `tip`. -/
def Contains [DecidableEq β] (tip pindex : List β) : Bool :=
  GetAncestor tip (nHeight pindex) == pindex

end Headers

section SequenceLocks

variable {β : Type} (GetBlockTime : β → ℤ)

open Headers

/-- The relative lock of an input, if it has one (`SEQUENCE_LOCKTIME_DISABLE_FLAG` unset). -/
def IsSequenceLocked (txin : CTxIn) : Prop :=
  txin.nSequence.toNat &&& SEQUENCE_LOCKTIME_DISABLE_FLAG = 0

instance (txin : CTxIn) : Decidable (IsSequenceLocked txin) :=
  inferInstanceAs (Decidable (_ = 0))

/-- A time-based lock (`SEQUENCE_LOCKTIME_TYPE_FLAG` set). -/
def IsTimeLock (txin : CTxIn) : Prop :=
  txin.nSequence.toNat &&& SEQUENCE_LOCKTIME_TYPE_FLAG ≠ 0

instance (txin : CTxIn) : Decidable (IsTimeLock txin) :=
  inferInstanceAs (Decidable (_ ≠ 0))

/-- The lock's value, `nSequence & SEQUENCE_LOCKTIME_MASK`. -/
def lockValue (txin : CTxIn) : ℕ := txin.nSequence.toNat &&& SEQUENCE_LOCKTIME_MASK

/-- The median time past a time-based lock counts from: that of the block before the coin's,
`block.GetAncestor(std::max(nCoinHeight - 1, 0))->GetMedianTimePast()`. -/
def coinTime (block : List β) (nCoinHeight : ℤ) : ℤ :=
  GetMedianTimePast GetBlockTime (GetAncestor block (max (nCoinHeight - 1) 0))

/-- One round of the loop of `CalculateSequenceLocks`: the pair so far and the input's entry of
`prevHeights` after the round. -/
def lockStep (block : List β) (lockPair : ℤ × ℤ) (txin : CTxIn) (nCoinHeight : ℤ) :
    (ℤ × ℤ) × ℤ :=
  if ¬IsSequenceLocked txin then (lockPair, 0)
  else if IsTimeLock txin then
    ((lockPair.1, max lockPair.2 (coinTime GetBlockTime block nCoinHeight +
      ((lockValue txin <<< SEQUENCE_LOCKTIME_GRANULARITY : ℕ) : ℤ) - 1)), nCoinHeight)
  else ((max lockPair.1 (nCoinHeight + (lockValue txin : ℤ) - 1), lockPair.2), nCoinHeight)

/-- The loop of `CalculateSequenceLocks` over the inputs and their entries of `prevHeights`. -/
def calculateLoop (block : List β) : List CTxIn → List ℤ → ℤ × ℤ → (ℤ × ℤ) × List ℤ
  | txin :: vin, nCoinHeight :: prevHeights, lockPair =>
    let r := lockStep GetBlockTime block lockPair txin nCoinHeight
    let rest := calculateLoop block vin prevHeights r.1
    (rest.1, r.2 :: rest.2)
  | _, prevHeights, lockPair => (lockPair, prevHeights)

/-- BIP 68 is enforced for version 2 and later, under `LOCKTIME_VERIFY_SEQUENCE`. -/
def EnforcesBIP68 (tx : CTransaction) (flags : ℕ) : Prop :=
  2 ≤ tx.nVersion.toUInt32 ∧ flags &&& LOCKTIME_VERIFY_SEQUENCE ≠ 0

instance (tx : CTransaction) (flags : ℕ) : Decidable (EnforcesBIP68 tx flags) :=
  inferInstanceAs (Decidable (_ ∧ _))

/-- `CalculateSequenceLocks(tx, flags, prevHeights, block)`: the last locked height and time,
`-1` for none, and `prevHeights` with the entries of inputs without a lock set to `0`. -/
def CalculateSequenceLocks (tx : CTransaction) (flags : ℕ) (prevHeights : List ℤ)
    (block : List β) : (ℤ × ℤ) × List ℤ :=
  if ¬EnforcesBIP68 tx flags then ((-1, -1), prevHeights)
  else calculateLoop GetBlockTime block tx.vin prevHeights (-1, -1)

/-- `EvaluateSequenceLocks(block, lockPair)`: the block is above the locked height and its
parent's median time past above the locked time. -/
def EvaluateSequenceLocks (block : List β) (lockPair : ℤ × ℤ) : Bool :=
  let nBlockTime := GetMedianTimePast GetBlockTime block.tail
  if lockPair.1 ≥ nHeight block || lockPair.2 ≥ nBlockTime then false else true

/-- `SequenceLocks(tx, flags, prevHeights, block)`. -/
def SequenceLocks (tx : CTransaction) (flags : ℕ) (prevHeights : List ℤ) (block : List β) :
    Bool :=
  EvaluateSequenceLocks GetBlockTime block (CalculateSequenceLocks GetBlockTime tx flags
    prevHeights block).1

/-- `LockPoints`: the locked height and time, and `maxInputBlock`. -/
structure LockPoints (β : Type) where
  height : ℤ
  time : ℤ
  maxInputBlock : List β

/-- `TestLockPointValidity(lp)`: `maxInputBlock`, if set, is still on the active chain. -/
def TestLockPointValidity [DecidableEq β] (tip : List β) (lp : LockPoints β) : Bool :=
  if lp.maxInputBlock ≠ [] then Contains tip lp.maxInputBlock else true

/-- The height `CheckSequenceLocks` gives a coin: `tip + 1` for one of a pool transaction. -/
def prevHeight (tip : List β) (coins : CCoins) : ℤ :=
  if coins.nHeight = MEMPOOL_HEIGHT then nHeight tip + 1 else coins.nHeight

/-- The heights `CheckSequenceLocks` gives the coins of the inputs; `none` at the first
missing input. -/
def prevHeightsOf (tip : List β) (view : CoinsView) : List CTxIn → Option (List ℤ)
  | [] => some []
  | txin :: vin =>
    match view txin.prevout.hash with
    | none => none
    | some coins => (prevHeightsOf tip view vin).map (prevHeight tip coins :: ·)

/-- The height of `maxInputBlock`: the highest entry of `prevheights` that is not `tip + 1`. -/
def maxInputHeight (tip : List β) (prevheights : List ℤ) : ℤ :=
  prevheights.foldl (fun m height => if height ≠ nHeight tip + 1 then max m height else m) 0

/-- `CheckSequenceLocks(tx, flags, lp, useExistingLockPoints)` at the tip `tip`, with the
coins of `view`, `index` being the header of the entry it builds over the tip: with
`useExistingLockPoints`, the pair of `lp`; otherwise the pair computed from the coins, stored
in `lp` when it is given. -/
def CheckSequenceLocks (tip : List β) (index : β) (view : CoinsView) (tx : CTransaction)
    (flags : ℕ) (lp : Option (LockPoints β)) (useExistingLockPoints : Bool) :
    Except AssertionFailed (Bool × Option (LockPoints β)) :=
  -- `index.pprev = tip; index.nHeight = tip->nHeight + 1`
  let block := index :: tip
  if useExistingLockPoints then
    match lp with
    | none => throw ⟨"lp"⟩
    | some lp => pure (EvaluateSequenceLocks GetBlockTime block (lp.height, lp.time), some lp)
  else
    match prevHeightsOf tip view tx.vin with
    -- `error("%s: Missing input")`
    | none => pure (false, lp)
    | some prevheights =>
      let r := CalculateSequenceLocks GetBlockTime tx flags prevheights block
      let lp := lp.map fun _ =>
        ⟨r.1.1, r.1.2, GetAncestor tip (maxInputHeight tip r.2)⟩
      pure (EvaluateSequenceLocks GetBlockTime block r.1, lp)

end SequenceLocks

/-! ## Headers -/

namespace Headers

variable {β : Type}

@[simp] lemma nHeight_cons (b : β) (T : List β) : nHeight (b :: T) = nHeight T + 1 := by
  simp only [nHeight, List.length_cons]
  push_cast
  ring

lemma nHeight_nonneg {T : List β} (hT : T ≠ []) : 0 ≤ nHeight T := by
  have := List.length_pos_of_ne_nil hT
  simp only [nHeight]
  omega

lemma GetAncestor_of_le {T : List β} {k : ℤ} (h0 : 0 ≤ k) (hk : k ≤ nHeight T) :
    GetAncestor T k = T.drop (T.length - 1 - k.toNat) :=
  if_pos ⟨h0, hk⟩

/-- The entry `CheckSequenceLocks` puts on the tip is never the ancestor at a height of the
chain below it. -/
lemma GetAncestor_cons_of_le (b : β) {T : List β} {k : ℤ} (h0 : 0 ≤ k) (hk : k ≤ nHeight T) :
    GetAncestor (b :: T) k = GetAncestor T k := by
  rw [GetAncestor_of_le h0 (by rw [nHeight_cons]; omega), GetAncestor_of_le h0 hk]
  have hlen : (b :: T).length - 1 - k.toNat = (T.length - 1 - k.toNat) + 1 := by
    simp only [nHeight] at hk
    simp only [List.length_cons]
    omega
  rw [hlen, List.drop_succ_cons]

lemma GetAncestor_self {T : List β} (hT : T ≠ []) : GetAncestor T (nHeight T) = T := by
  rw [GetAncestor_of_le (nHeight_nonneg hT) le_rfl]
  have : T.length - 1 - (nHeight T).toNat = 0 := by
    simp only [nHeight]
    omega
  rw [this, List.drop_zero]

lemma nHeight_GetAncestor {T : List β} {k : ℤ} (h0 : 0 ≤ k) (hk : k ≤ nHeight T) :
    nHeight (GetAncestor T k) = k := by
  rw [GetAncestor_of_le h0 hk]
  simp only [nHeight, List.length_drop] at hk ⊢
  omega

lemma GetAncestor_GetAncestor {T : List β} {j k : ℤ} (h0 : 0 ≤ k) (hkj : k ≤ j)
    (hj : j ≤ nHeight T) : GetAncestor (GetAncestor T j) k = GetAncestor T k := by
  rw [GetAncestor_of_le h0 (by rw [nHeight_GetAncestor (by omega) hj]; exact hkj),
    GetAncestor_of_le (by omega) hj, GetAncestor_of_le h0 (by omega), List.drop_drop]
  congr 1
  simp only [nHeight, List.length_drop] at hj ⊢
  omega

/-- A chain that contains the ancestor of `T` at `m` has the ancestors of `T` at every height
up to `m`. -/
lemma GetAncestor_eq_of_contains [DecidableEq β] {T T' : List β} {m k : ℤ} (hm0 : 0 ≤ m)
    (hm : m ≤ nHeight T) (hc : Contains T' (GetAncestor T m) = true) (hk0 : 0 ≤ k)
    (hkm : k ≤ m) : GetAncestor T' k = GetAncestor T k := by
  have heq : GetAncestor T' m = GetAncestor T m := by
    simpa [Contains, nHeight_GetAncestor hm0 hm] using hc
  -- the ancestor at `m` is not `NULL`, so `m` is a height of `T'`
  have hm' : m ≤ nHeight T' := by
    by_contra hlt
    have hnil : GetAncestor T' m = [] := if_neg (fun h => hlt h.2)
    have hne : GetAncestor T m ≠ [] := by
      rw [GetAncestor_of_le hm0 hm]
      simp only [nHeight] at hm
      simp only [ne_eq, List.drop_eq_nil_iff]
      omega
    exact hne (heq ▸ hnil)
  rw [← GetAncestor_GetAncestor hk0 hkm hm', heq, GetAncestor_GetAncestor hk0 hkm hm]

lemma contains_GetAncestor_of_le [DecidableEq β] {T T' : List β} {m k : ℤ} (hm0 : 0 ≤ m)
    (hm : m ≤ nHeight T) (hc : Contains T' (GetAncestor T m) = true) (hk0 : 0 ≤ k)
    (hkm : k ≤ m) : Contains T' (GetAncestor T k) = true := by
  simp only [Contains, nHeight_GetAncestor hk0 (le_trans hkm hm), beq_iff_eq]
  exact GetAncestor_eq_of_contains hm0 hm hc hk0 hkm

/-- Median times do not fall from an ancestor to the tip of a chain keeping the timestamp
rule. -/
lemma GetMedianTimePast_GetAncestor_le (GetBlockTime : β → ℤ) {T : List β}
    (hrule : MedianTimeRule GetBlockTime T) {k : ℤ} (h0 : 0 ≤ k) (hk : k ≤ nHeight T) :
    GetMedianTimePast GetBlockTime (GetAncestor T k) ≤ GetMedianTimePast GetBlockTime T := by
  rw [GetAncestor_of_le h0 hk]
  apply GetMedianTimePast_drop_le GetBlockTime hrule
  simp only [nHeight] at hk
  simp only [ne_eq, List.drop_eq_nil_iff]
  omega

end Headers

/-! ## The lock of each input -/

section Locks

variable {β : Type} (GetBlockTime : β → ℤ)

open Headers

/-- One input's relative lock, at the height `nCoinHeight` of its coin and measured from the
ancestors of `block`, is over before the height `H` and the median time `T`. -/
def LockFits (block : List β) (txin : CTxIn) (nCoinHeight H T : ℤ) : Prop :=
  IsSequenceLocked txin →
    if IsTimeLock txin then
      coinTime GetBlockTime block nCoinHeight +
        ((lockValue txin <<< SEQUENCE_LOCKTIME_GRANULARITY : ℕ) : ℤ) - 1 < T
    else nCoinHeight + (lockValue txin : ℤ) - 1 < H

/-- A round of the loop keeps the pair below `(H, T)` exactly when the input's lock fits. -/
lemma lockStep_lt_iff (block : List β) (lockPair : ℤ × ℤ) (txin : CTxIn) (nCoinHeight H T : ℤ) :
    ((lockStep GetBlockTime block lockPair txin nCoinHeight).1.1 < H ∧
      (lockStep GetBlockTime block lockPair txin nCoinHeight).1.2 < T) ↔
      (lockPair.1 < H ∧ lockPair.2 < T) ∧ LockFits GetBlockTime block txin nCoinHeight H T := by
  unfold lockStep LockFits
  by_cases hl : IsSequenceLocked txin
  · by_cases ht : IsTimeLock txin
    · simp only [hl, ht, not_true_eq_false, if_false, if_true, max_lt_iff, forall_const]
      tauto
    · simp only [hl, ht, not_true_eq_false, if_false, max_lt_iff, forall_const]
      tauto
  · simp [hl]

lemma lockStep_snd (block : List β) (lockPair : ℤ × ℤ) (txin : CTxIn) (nCoinHeight : ℤ) :
    (lockStep GetBlockTime block lockPair txin nCoinHeight).2 =
      if IsSequenceLocked txin then nCoinHeight else 0 := by
  unfold lockStep
  by_cases hl : IsSequenceLocked txin
  · by_cases ht : IsTimeLock txin <;> simp [hl, ht]
  · simp [hl]

/-- **The loop of `CalculateSequenceLocks`** over inputs with the heights `f`: the pair stays
below `(H, T)` exactly when it starts below and every input's lock fits. -/
lemma calculateLoop_map_lt_iff (block : List β) (f : CTxIn → ℤ) (H T : ℤ) :
    ∀ (vin : List CTxIn) (lockPair : ℤ × ℤ),
      ((calculateLoop GetBlockTime block vin (vin.map f) lockPair).1.1 < H ∧
        (calculateLoop GetBlockTime block vin (vin.map f) lockPair).1.2 < T) ↔
        (lockPair.1 < H ∧ lockPair.2 < T) ∧
          ∀ txin ∈ vin, LockFits GetBlockTime block txin (f txin) H T
  | [], lockPair => by simp [calculateLoop]
  | txin :: vin, lockPair => by
    simp only [List.map_cons, calculateLoop]
    rw [calculateLoop_map_lt_iff block f H T vin, lockStep_lt_iff, List.forall_mem_cons]
    tauto

/-- The loop leaves the heights of the inputs with a lock, and `0` for the others. -/
lemma calculateLoop_map_snd (block : List β) (f : CTxIn → ℤ) :
    ∀ (vin : List CTxIn) (lockPair : ℤ × ℤ),
      (calculateLoop GetBlockTime block vin (vin.map f) lockPair).2 =
        vin.map fun txin => if IsSequenceLocked txin then f txin else 0
  | [], lockPair => by simp [calculateLoop]
  | txin :: vin, lockPair => by
    simp only [List.map_cons, calculateLoop]
    rw [calculateLoop_map_snd block f vin, lockStep_snd]

lemma EvaluateSequenceLocks_iff (block : List β) (lockPair : ℤ × ℤ) :
    EvaluateSequenceLocks GetBlockTime block lockPair = true ↔
      lockPair.1 < nHeight block ∧ lockPair.2 < GetMedianTimePast GetBlockTime block.tail := by
  unfold EvaluateSequenceLocks
  dsimp only
  split_ifs with h
  · simp only [Bool.or_eq_true, decide_eq_true_eq] at h
    simp only [false_iff, not_and, not_lt]
    omega
  · simp only [Bool.or_eq_true, decide_eq_true_eq, not_or, not_le] at h
    simpa using h

/-- **The sequence locks of a block.** A block satisfies them exactly when it is above height
`-1` with a parent's median time above `-1`, and, under BIP 68, every input's lock is over
before the block's height and its parent's median time. -/
theorem SequenceLocks_iff (tx : CTransaction) (flags : ℕ) (f : CTxIn → ℤ) (block : List β) :
    SequenceLocks GetBlockTime tx flags (tx.vin.map f) block = true ↔
      (-1 < nHeight block ∧ -1 < GetMedianTimePast GetBlockTime block.tail) ∧
        (EnforcesBIP68 tx flags → ∀ txin ∈ tx.vin, LockFits GetBlockTime block txin (f txin)
          (nHeight block) (GetMedianTimePast GetBlockTime block.tail)) := by
  unfold SequenceLocks CalculateSequenceLocks
  rw [EvaluateSequenceLocks_iff]
  by_cases he : EnforcesBIP68 tx flags
  · rw [if_neg (not_not.2 he), calculateLoop_map_lt_iff]
    simp only [he, forall_const]
  · rw [if_pos he]
    simp only [he, IsEmpty.forall_iff, and_true]

/-- A confirmed input's lock reads the same ancestors from two blocks that agree below its
coin. -/
lemma LockFits_congr {block block' : List β} {nCoinHeight : ℤ}
    (hanc : GetAncestor block (max (nCoinHeight - 1) 0) =
      GetAncestor block' (max (nCoinHeight - 1) 0)) (txin : CTxIn) (H T : ℤ) :
    LockFits GetBlockTime block txin nCoinHeight H T ↔
      LockFits GetBlockTime block' txin nCoinHeight H T := by
  simp only [LockFits, coinTime, hanc]

/-- A lock that fits at the tip's next height, with the coin of a pool transaction, is zero:
`CheckSequenceLocks` fails any other. -/
lemma lockValue_eq_zero_of_fits (b : β) {T : List β} (hT : T ≠ []) {txin : CTxIn}
    (hl : IsSequenceLocked txin)
    (hfit : LockFits GetBlockTime (b :: T) txin (nHeight T + 1) (nHeight T + 1)
      (GetMedianTimePast GetBlockTime T)) : lockValue txin = 0 := by
  have hfit := hfit hl
  by_cases ht : IsTimeLock txin
  · rw [if_pos ht] at hfit
    have hanc : GetAncestor (b :: T) (max (nHeight T + 1 - 1) 0) = T := by
      rw [show max (nHeight T + 1 - 1) 0 = nHeight T by have := nHeight_nonneg hT; omega,
        GetAncestor_cons_of_le b (nHeight_nonneg hT) le_rfl, GetAncestor_self hT]
    rw [coinTime, hanc] at hfit
    have hshift : lockValue txin <<< SEQUENCE_LOCKTIME_GRANULARITY = 0 := by
      generalize lockValue txin <<< SEQUENCE_LOCKTIME_GRANULARITY = x at hfit
      omega
    simpa [Nat.shiftLeft_eq] using hshift
  · rw [if_neg ht] at hfit
    omega

/-- A zero lock fits at every height up to the next block's, on a chain keeping the
timestamp rule. -/
lemma LockFits_of_lockValue_eq_zero (b : β) {T : List β} (hT : T ≠ [])
    (hrule : MedianTimeRule GetBlockTime T) {txin : CTxIn} (hv : lockValue txin = 0)
    {nCoinHeight : ℤ} (hh : nCoinHeight ≤ nHeight T + 1) :
    LockFits GetBlockTime (b :: T) txin nCoinHeight (nHeight T + 1)
      (GetMedianTimePast GetBlockTime T) := by
  intro _
  split_ifs
  · have hk0 : 0 ≤ max (nCoinHeight - 1) 0 := le_max_right _ _
    have hk : max (nCoinHeight - 1) 0 ≤ nHeight T := by
      have := nHeight_nonneg hT
      omega
    have hmtp := GetMedianTimePast_GetAncestor_le GetBlockTime hrule hk0 hk
    rw [coinTime, GetAncestor_cons_of_le b hk0 hk, hv]
    simp only [Nat.zero_shiftLeft, Nat.cast_zero, add_zero]
    omega
  · rw [hv]
    omega

end Locks

/-! ## `CheckSequenceLocks` -/

section Check

variable {β : Type} (GetBlockTime : β → ℤ)

open Headers

/-- The height `CheckSequenceLocks` gives the coin an input spends. -/
def inputHeight (tip : List β) (view : CoinsView) (txin : CTxIn) : ℤ :=
  prevHeight tip ((view txin.prevout.hash).getD CCoins.Clear)

lemma prevHeightsOf_eq (tip : List β) (view : CoinsView) :
    ∀ vin : List CTxIn, (∀ txin ∈ vin, view txin.prevout.hash ≠ none) →
      prevHeightsOf tip view vin = some (vin.map (inputHeight tip view))
  | [], _ => rfl
  | txin :: vin, hall => by
    obtain ⟨coins, hcoins⟩ := Option.ne_none_iff_exists'.1 (hall txin (by simp))
    rw [prevHeightsOf, hcoins, prevHeightsOf_eq tip view vin (fun t ht => hall t (by simp [ht]))]
    simp [inputHeight, hcoins]

lemma available_of_prevHeightsOf (tip : List β) (view : CoinsView) :
    ∀ (vin : List CTxIn) (hs : List ℤ), prevHeightsOf tip view vin = some hs →
      ∀ txin ∈ vin, view txin.prevout.hash ≠ none
  | [], _, _ => by simp
  | txin :: vin, hs, h => by
    rw [prevHeightsOf] at h
    intro t ht
    cases hcoins : view txin.prevout.hash with
    | none => simp [hcoins] at h
    | some coins =>
      rw [hcoins] at h
      obtain ⟨hs', hrest, -⟩ := Option.map_eq_some_iff.1 h
      rcases List.mem_cons.1 ht with rfl | ht
      · simp [hcoins]
      · exact available_of_prevHeightsOf tip view vin hs' hrest t ht

/-- `CheckSequenceLocks` computing the pair, with every input's coin found. -/
lemma CheckSequenceLocks_fresh (tip : List β) (index : β) (view : CoinsView)
    (tx : CTransaction) (flags : ℕ) (lp : Option (LockPoints β))
    (hall : ∀ txin ∈ tx.vin, view txin.prevout.hash ≠ none) :
    CheckSequenceLocks GetBlockTime tip index view tx flags lp false =
      .ok (EvaluateSequenceLocks GetBlockTime (index :: tip)
          (CalculateSequenceLocks GetBlockTime tx flags (tx.vin.map (inputHeight tip view))
            (index :: tip)).1,
        lp.map fun _ =>
          ⟨(CalculateSequenceLocks GetBlockTime tx flags (tx.vin.map (inputHeight tip view))
              (index :: tip)).1.1,
            (CalculateSequenceLocks GetBlockTime tx flags (tx.vin.map (inputHeight tip view))
              (index :: tip)).1.2,
            GetAncestor tip (maxInputHeight tip (CalculateSequenceLocks GetBlockTime tx flags
              (tx.vin.map (inputHeight tip view)) (index :: tip)).2)⟩) := by
  simp only [CheckSequenceLocks, prevHeightsOf_eq tip view tx.vin hall]
  rfl

/-- A computation that passed found every input's coin: a missing one fails it. -/
lemma available_of_CheckSequenceLocks {tip : List β} {index : β} {view : CoinsView}
    {tx : CTransaction} {flags : ℕ} {lp lp' : Option (LockPoints β)}
    (h : CheckSequenceLocks GetBlockTime tip index view tx flags lp false = .ok (true, lp')) :
    ∀ txin ∈ tx.vin, view txin.prevout.hash ≠ none := by
  simp only [CheckSequenceLocks, Bool.false_eq_true, if_false] at h
  split at h
  · simp at h
  · exact available_of_prevHeightsOf tip view tx.vin _ ‹_›

/-! ### The height of `maxInputBlock` -/

section MaxInput

variable (c : ℤ)

/-- The fold of `maxInputHeight`, from any start. -/
def maxFold (m : ℤ) (hs : List ℤ) : ℤ :=
  hs.foldl (fun m height => if height ≠ c then max m height else m) m

lemma le_maxFold : ∀ (m : ℤ) (hs : List ℤ), m ≤ maxFold c m hs
  | m, [] => le_rfl
  | m, h :: hs => by
    refine le_trans ?_ (le_maxFold _ hs)
    dsimp only
    split_ifs <;> simp

lemma mem_le_maxFold : ∀ (m : ℤ) (hs : List ℤ) {h : ℤ}, h ∈ hs → h ≠ c → h ≤ maxFold c m hs
  | m, [], _, hmem, _ => absurd hmem List.not_mem_nil
  | m, x :: hs, h, hmem, hne => by
    rcases List.mem_cons.1 hmem with rfl | hmem
    · refine le_trans ?_ (le_maxFold c _ hs)
      dsimp only
      rw [if_pos hne]
      exact le_max_right _ _
    · exact mem_le_maxFold _ hs hmem hne

lemma maxFold_le {M : ℤ} : ∀ (m : ℤ) (hs : List ℤ), m ≤ M → (∀ h ∈ hs, h ≠ c → h ≤ M) →
    maxFold c m hs ≤ M
  | m, [], hm, _ => hm
  | m, x :: hs, hm, hall => by
    apply maxFold_le _ hs _ (fun h hh => hall h (by simp [hh]))
    dsimp only
    split_ifs with hx
    · exact max_le hm (hall x (by simp) hx)
    · exact hm

end MaxInput

lemma maxInputHeight_eq (tip : List β) (hs : List ℤ) :
    maxInputHeight tip hs = maxFold (nHeight tip + 1) 0 hs := rfl

/-- The pair the loop ends with is at least the pair it starts from. -/
lemma le_calculateLoop_map (block : List β) (f : CTxIn → ℤ) (vin : List CTxIn)
    (lockPair : ℤ × ℤ) :
    lockPair.1 ≤ (calculateLoop GetBlockTime block vin (vin.map f) lockPair).1.1 ∧
      lockPair.2 ≤ (calculateLoop GetBlockTime block vin (vin.map f) lockPair).1.2 := by
  have h := ((calculateLoop_map_lt_iff GetBlockTime block f
    ((calculateLoop GetBlockTime block vin (vin.map f) lockPair).1.1 + 1)
    ((calculateLoop GetBlockTime block vin (vin.map f) lockPair).1.2 + 1) vin lockPair).1
    ⟨lt_add_one _, lt_add_one _⟩).1
  omega

lemma neg_one_le_CalculateSequenceLocks (tx : CTransaction) (flags : ℕ) (f : CTxIn → ℤ)
    (block : List β) :
    -1 ≤ (CalculateSequenceLocks GetBlockTime tx flags (tx.vin.map f) block).1.1 ∧
      -1 ≤ (CalculateSequenceLocks GetBlockTime tx flags (tx.vin.map f) block).1.2 := by
  unfold CalculateSequenceLocks
  split_ifs
  · exact le_calculateLoop_map GetBlockTime block f tx.vin (-1, -1)
  · exact ⟨le_rfl, le_rfl⟩

/-- The height `CheckSequenceLocks` gives a found coin is the next block's, or a height of the
chain. -/
lemma inputHeight_cases {tip : List β} {view : CoinsView} {txin : CTxIn}
    (hview : ∀ coins, view txin.prevout.hash = some coins →
      coins.nHeight = MEMPOOL_HEIGHT ∨ 0 ≤ coins.nHeight ∧ coins.nHeight ≤ nHeight tip)
    (hfound : view txin.prevout.hash ≠ none) :
    inputHeight tip view txin = nHeight tip + 1 ∨
      0 ≤ inputHeight tip view txin ∧ inputHeight tip view txin ≤ nHeight tip := by
  obtain ⟨coins, hc⟩ := Option.ne_none_iff_exists'.1 hfound
  simp only [inputHeight, prevHeight, hc, Option.getD_some]
  split_ifs with hm
  · exact Or.inl rfl
  · exact (hview coins hc).resolve_left hm |> Or.inr

/-! ### Lock points across a reorganisation -/

section Reorg

variable [DecidableEq β] {T0 T1 : List β} {index0 index1 : β} {view0 view1 : CoinsView}
  {tx : CTransaction} {flags : ℕ} {lpIn lp : LockPoints β}
  (hT0 : T0 ≠ []) (hT1 : T1 ≠ []) (hrule : MedianTimeRule GetBlockTime T1)
  (hview0 : ∀ txin ∈ tx.vin, ∀ coins, view0 txin.prevout.hash = some coins →
    coins.nHeight = MEMPOOL_HEIGHT ∨ 0 ≤ coins.nHeight ∧ coins.nHeight ≤ nHeight T0)
  (hview1 : ∀ txin ∈ tx.vin, ∀ coins, view1 txin.prevout.hash = some coins →
    coins.nHeight = MEMPOOL_HEIGHT ∨ 0 ≤ coins.nHeight ∧ coins.nHeight ≤ nHeight T1)
  (hkeep : ∀ txin ∈ tx.vin, ∀ coins0 coins1, view0 txin.prevout.hash = some coins0 →
    view1 txin.prevout.hash = some coins1 → coins0.nHeight ≠ MEMPOOL_HEIGHT →
    Contains T1 (GetAncestor T0 coins0.nHeight) = true → coins1.nHeight = coins0.nHeight)
  (h0 : CheckSequenceLocks GetBlockTime T0 index0 view0 tx flags (some lpIn) false =
    .ok (true, some lp))
  (hvalid : TestLockPointValidity T1 lp = true)
  (havail : ∀ txin ∈ tx.vin, view1 txin.prevout.hash ≠ none)
  (hcached : CheckSequenceLocks GetBlockTime T1 index1 view1 tx flags (some lp) true =
    .ok (true, some lp))

omit [DecidableEq β] in
include h0 in
/-- The lock points a passing computation stores: its pair, and the ancestor of the tip at
`maxInputHeight`. -/
lemma lockPoints_of_CheckSequenceLocks :
    EvaluateSequenceLocks GetBlockTime (index0 :: T0) (CalculateSequenceLocks GetBlockTime tx
      flags (tx.vin.map (inputHeight T0 view0)) (index0 :: T0)).1 = true ∧
    lp = ⟨(CalculateSequenceLocks GetBlockTime tx flags (tx.vin.map (inputHeight T0 view0))
        (index0 :: T0)).1.1,
      (CalculateSequenceLocks GetBlockTime tx flags (tx.vin.map (inputHeight T0 view0))
        (index0 :: T0)).1.2,
      GetAncestor T0 (maxInputHeight T0 (CalculateSequenceLocks GetBlockTime tx flags
        (tx.vin.map (inputHeight T0 view0)) (index0 :: T0)).2)⟩ := by
  rw [CheckSequenceLocks_fresh GetBlockTime T0 index0 view0 tx flags _
    (available_of_CheckSequenceLocks GetBlockTime h0)] at h0
  simp only [Option.map_some, Except.ok.injEq, Prod.mk.injEq, Option.some.injEq] at h0
  exact ⟨h0.1, h0.2.symm⟩

omit [DecidableEq β] in
include h0 hcached in
/-- The stored pair is below the block after the new tip: what the cached check tests. -/
lemma lockPoints_lt :
    (CalculateSequenceLocks GetBlockTime tx flags (tx.vin.map (inputHeight T0 view0))
        (index0 :: T0)).1.1 < nHeight T1 + 1 ∧
      (CalculateSequenceLocks GetBlockTime tx flags (tx.vin.map (inputHeight T0 view0))
        (index0 :: T0)).1.2 < GetMedianTimePast GetBlockTime T1 := by
  obtain ⟨-, rfl⟩ := lockPoints_of_CheckSequenceLocks GetBlockTime h0
  simp only [CheckSequenceLocks, if_true, pure, Except.pure, Except.ok.injEq,
    Prod.mk.injEq, and_true] at hcached
  rw [EvaluateSequenceLocks_iff, nHeight_cons, List.tail_cons] at hcached
  exact hcached

include hT0 hT1 hrule hview0 hview1 hkeep h0 hvalid havail hcached in
/-- **Each input's lock fits at the new tip.** Under BIP 68, with lock points stored by a
passing computation at `T0` and still valid at `T1`, every input's lock, at the height of
its coin at `T1`, is over before the block after `T1`. -/
lemma LockFits_after_reorg (he : EnforcesBIP68 tx flags) :
    ∀ txin ∈ tx.vin, LockFits GetBlockTime (index1 :: T1) txin (inputHeight T1 view1 txin)
      (nHeight T1 + 1) (GetMedianTimePast GetBlockTime T1) := by
  have hall0 := available_of_CheckSequenceLocks GetBlockTime h0
  have hb1 := lockPoints_lt GetBlockTime h0 hcached
  obtain ⟨heval0, rfl⟩ := lockPoints_of_CheckSequenceLocks GetBlockTime h0
  set f0 := inputHeight T0 view0
  have hcalc : CalculateSequenceLocks GetBlockTime tx flags (tx.vin.map f0) (index0 :: T0) =
      calculateLoop GetBlockTime (index0 :: T0) tx.vin (tx.vin.map f0) (-1, -1) :=
    if_neg (not_not.2 he)
  rw [hcalc] at heval0 hb1 hvalid
  -- every lock fits at `T0` itself, and below the new tip's bounds
  rw [EvaluateSequenceLocks_iff, nHeight_cons, List.tail_cons] at heval0
  have hfits0 := ((calculateLoop_map_lt_iff GetBlockTime _ f0 _ _ tx.vin (-1, -1)).1 heval0).2
  have hfits01 := ((calculateLoop_map_lt_iff GetBlockTime _ f0 _ _ tx.vin (-1, -1)).1 hb1).2
  -- `maxInputBlock` is an ancestor of `T0` that `T1` still holds
  rw [calculateLoop_map_snd] at hvalid
  set M := maxInputHeight T0 (tx.vin.map fun txin => if IsSequenceLocked txin then f0 txin else 0)
  have hM0 : 0 ≤ M := le_maxFold _ 0 _
  have hMle : M ≤ nHeight T0 := by
    apply maxFold_le _ 0 _ (nHeight_nonneg hT0)
    intro h hmem hne
    obtain ⟨t, ht, rfl⟩ := List.mem_map.1 hmem
    split_ifs at hne ⊢
    · have : f0 t = nHeight T0 + 1 ∨ 0 ≤ f0 t ∧ f0 t ≤ nHeight T0 :=
        inputHeight_cases (hview0 t ht) (hall0 t ht)
      omega
    · exact nHeight_nonneg hT0
  have hcontains : Contains T1 (GetAncestor T0 M) = true := by
    have hne : GetAncestor T0 M ≠ [] := by
      rw [GetAncestor_of_le hM0 hMle]
      simp only [nHeight] at hMle
      simp only [ne_eq, List.drop_eq_nil_iff]
      omega
    simpa [TestLockPointValidity, hne] using hvalid
  intro txin htx
  obtain ⟨coins0, hc0⟩ := Option.ne_none_iff_exists'.1 (hall0 txin htx)
  obtain ⟨coins1, hc1⟩ := Option.ne_none_iff_exists'.1 (havail txin htx)
  by_cases hmp : coins0.nHeight = MEMPOOL_HEIGHT
  · -- a pool coin at `T0` passed only with a zero lock, which fits at any later height
    intro hl
    have hf0 : f0 txin = nHeight T0 + 1 := by
      simp [f0, inputHeight, prevHeight, hc0, hmp]
    have hf1 := inputHeight_cases (hview1 txin htx) (havail txin htx)
    have hv := lockValue_eq_zero_of_fits GetBlockTime index0 hT0 hl (hf0 ▸ hfits0 txin htx)
    exact LockFits_of_lockValue_eq_zero GetBlockTime index1 hT1 hrule hv (by omega) hl
  · -- a confirmed coin at `T0` is below `maxInputBlock`: same height, same ancestors
    obtain ⟨hge, hle⟩ := (hview0 txin htx coins0 hc0).resolve_left hmp
    have hf0 : f0 txin = coins0.nHeight := by
      simp [f0, inputHeight, prevHeight, hc0, hmp]
    intro hl
    have hleM : coins0.nHeight ≤ M := by
      apply mem_le_maxFold _ 0 _ (List.mem_map.2 ⟨txin, htx, by rw [if_pos hl, hf0]⟩)
      omega
    have hcont := contains_GetAncestor_of_le hM0 hMle hcontains hge hleM
    have hh1 : coins1.nHeight = coins0.nHeight := hkeep txin htx coins0 coins1 hc0 hc1 hmp hcont
    have hf1' : inputHeight T1 view1 txin = coins0.nHeight := by
      simp [inputHeight, prevHeight, hc1, hh1, hmp]
    have hT1le : coins0.nHeight ≤ nHeight T1 :=
      hh1 ▸ ((hview1 txin htx coins1 hc1).resolve_left (hh1 ▸ hmp)).2
    have hk0 : 0 ≤ max (coins0.nHeight - 1) 0 := le_max_right _ _
    have hanc : GetAncestor (index1 :: T1) (max (coins0.nHeight - 1) 0) =
        GetAncestor (index0 :: T0) (max (coins0.nHeight - 1) 0) := by
      rw [GetAncestor_cons_of_le _ hk0 (by omega), GetAncestor_cons_of_le _ hk0 (by omega),
        GetAncestor_eq_of_contains hM0 hMle hcontains hk0 (by omega)]
    have hfit : LockFits GetBlockTime (index1 :: T1) txin coins0.nHeight (nHeight T1 + 1)
        (GetMedianTimePast GetBlockTime T1) := by
      rw [LockFits_congr GetBlockTime hanc, ← hf0]
      exact hfits01 txin htx
    rw [hf1']
    exact hfit hl

include hT0 hT1 hrule hview0 hview1 hkeep h0 hvalid havail hcached in
/-- **Cached lock points are sound.** Lock points stored by a `CheckSequenceLocks` that passed
at the tip `T0`, still valid at the tip `T1` after any blocks and reorganisations, with every
input's coin found at `T1` and with the coins following the chain (a coin whose block `T1`
still holds keeps its height), answer as a fresh computation at `T1` answers: when the cached
check passes, `CheckSequenceLocks` without lock points passes too. With every input confirmed,
the transaction then satisfies the sequence locks of every block on `T1`. -/
theorem CheckSequenceLocks_cached_sound :
    CheckSequenceLocks GetBlockTime T1 index1 view1 tx flags none false = .ok (true, none) ∧
      ((∀ txin ∈ tx.vin, ∀ coins, view1 txin.prevout.hash = some coins →
          coins.nHeight ≠ MEMPOOL_HEIGHT) →
        ∀ b : β, SequenceLocks GetBlockTime tx flags
          (tx.vin.map fun txin => ((view1 txin.prevout.hash).getD CCoins.Clear).nHeight)
          (b :: T1) = true) := by
  have hb1 := lockPoints_lt GetBlockTime h0 hcached
  have hstart : -1 < nHeight T1 + 1 ∧ -1 < GetMedianTimePast GetBlockTime T1 := by
    have := neg_one_le_CalculateSequenceLocks GetBlockTime tx flags (inputHeight T0 view0)
      (index0 :: T0)
    have := nHeight_nonneg hT1
    omega
  -- the pair computed afresh at `T1` is below the block after `T1`
  have hb : (CalculateSequenceLocks GetBlockTime tx flags (tx.vin.map (inputHeight T1 view1))
        (index1 :: T1)).1.1 < nHeight T1 + 1 ∧
      (CalculateSequenceLocks GetBlockTime tx flags (tx.vin.map (inputHeight T1 view1))
        (index1 :: T1)).1.2 < GetMedianTimePast GetBlockTime T1 := by
    unfold CalculateSequenceLocks
    by_cases he : EnforcesBIP68 tx flags
    · rw [if_neg (not_not.2 he), calculateLoop_map_lt_iff]
      exact ⟨hstart, LockFits_after_reorg GetBlockTime hT0 hT1 hrule hview0 hview1 hkeep h0
        hvalid havail hcached he⟩
    · rw [if_pos he]
      exact hstart
  refine ⟨?_, fun hconf b => ?_⟩
  · rw [CheckSequenceLocks_fresh GetBlockTime T1 index1 view1 tx flags none havail]
    have heval : EvaluateSequenceLocks GetBlockTime (index1 :: T1) (CalculateSequenceLocks
        GetBlockTime tx flags (tx.vin.map (inputHeight T1 view1)) (index1 :: T1)).1 = true := by
      rw [EvaluateSequenceLocks_iff, nHeight_cons, List.tail_cons]
      exact hb
    rw [heval]
    rfl
  · -- with every coin confirmed, these are the heights `CheckSequenceLocks` used
    have hmap : (tx.vin.map fun txin => ((view1 txin.prevout.hash).getD CCoins.Clear).nHeight) =
        tx.vin.map (inputHeight T1 view1) := by
      apply List.map_congr_left
      intro txin htx
      obtain ⟨coins, hc⟩ := Option.ne_none_iff_exists'.1 (havail txin htx)
      simp [inputHeight, prevHeight, hc, hconf txin htx coins hc]
    rw [hmap, SequenceLocks_iff, nHeight_cons, List.tail_cons]
    refine ⟨hstart, fun he txin htx => ?_⟩
    have hf1 := inputHeight_cases (hview1 txin htx) (havail txin htx)
    have hk0 : 0 ≤ max (inputHeight T1 view1 txin - 1) 0 := le_max_right _ _
    have hk : max (inputHeight T1 view1 txin - 1) 0 ≤ nHeight T1 := by
      have := nHeight_nonneg hT1
      omega
    have hanc : GetAncestor (b :: T1) (max (inputHeight T1 view1 txin - 1) 0) =
        GetAncestor (index1 :: T1) (max (inputHeight T1 view1 txin - 1) 0) := by
      rw [GetAncestor_cons_of_le _ hk0 hk, GetAncestor_cons_of_le _ hk0 hk]
    rw [LockFits_congr GetBlockTime hanc]
    exact LockFits_after_reorg GetBlockTime hT0 hT1 hrule hview0 hview1 hkeep h0 hvalid havail
      hcached he txin htx

end Reorg

end Check

/-- A version-2 transaction with one input, locked one block after its coin's. -/
def relLockTx : CTransaction :=
  ⟨2, [⟨⟨7#256, 0⟩, [], 1⟩], [], 0⟩

/-- The coin `relLockTx` spends, confirmed in the genesis block. -/
def genesisCoinView : CoinsView := fun h => if h = 7#256 then some ⟨false, [], 0, 1⟩ else none

/-- Lock points stored at the tip `[5, 0]` and reused after a reorganisation to the tip
`[2, 1, 0]`, which keeps the genesis block with the coin. -/
theorem CheckSequenceLocks_cached_sound_after_reorg :
    CheckSequenceLocks id [2, 1, 0] 3 genesisCoinView relLockTx 1 none false =
        .ok (true, none) ∧
      ((∀ txin ∈ relLockTx.vin, ∀ coins, genesisCoinView txin.prevout.hash = some coins →
          coins.nHeight ≠ MEMPOOL_HEIGHT) →
        ∀ b : ℤ, SequenceLocks id relLockTx 1 (relLockTx.vin.map fun txin =>
          ((genesisCoinView txin.prevout.hash).getD CCoins.Clear).nHeight) (b :: [2, 1, 0]) =
            true) :=
  CheckSequenceLocks_cached_sound id (by simp) (by simp)
    (by simp only [MedianTimeRule]; decide)
    (by simp [relLockTx, genesisCoinView, Headers.nHeight])
    (by simp [relLockTx, genesisCoinView, Headers.nHeight])
    (by simp [relLockTx, genesisCoinView])
    (by rfl : CheckSequenceLocks id [5, 0] 6 genesisCoinView relLockTx 1 (some ⟨0, 0, []⟩) false =
      .ok (true, some ⟨0, -1, [0]⟩))
    (by rfl)
    (by simp [relLockTx, genesisCoinView])
    (by rfl : CheckSequenceLocks id [2, 1, 0] 3 genesisCoinView relLockTx 1 (some ⟨0, -1, [0]⟩)
      true = .ok (true, some ⟨0, -1, [0]⟩))

end MvfBu
