import MvfBu.Validation.ConnectBlock

set_option autoImplicit false

/-!
# The memory pool (`txmempool.cpp`, `main.cpp` `AcceptToMemoryPoolWorker`)

The pool holds the transactions the node has accepted and not yet seen in a block. A
transaction enters through `AcceptToMemoryPool`, which checks its inputs against the coins of
the tip overlaid with the pool (`CCoinsViewMemPool`) at the next block's height, under the
standard script flags and then the mandatory ones, with the fork's signature hash as it is at
that moment. It leaves through `removeForBlock` when a block includes it, or with its
descendants when a block spends one of its inputs. Nothing re-checks the scripts of the
transactions that stay.

## Main definitions

* `MvfBu.CTxMemPool` with `exists`, `lookup`, `spends`, `removeForBlock`.
* `MvfBu.CCoinsViewMemPool`.
* `MvfBu.AcceptToMemoryPool`.

## Main results

* `MvfBu.AcceptToMemoryPool_eq_ok` — an accepted transaction passed both `CheckInputs` calls
  and was appended to the pool.
* `MvfBu.CTxMemPool.mem_removeForBlock` — `removeForBlock` keeps every transaction the block
  neither includes nor conflicts with.

## Implementation notes

The policy checks of `AcceptToMemoryPoolWorker` that do not read the scripts or the fork
(`CheckTransaction`, `IsStandardTx`, the version 2 rule, `CheckFinalTx`, `CheckSequenceLocks`,
`AreInputsStandard`, the sigop limit, the fee and priority rules, the free-transaction rate
limiter, the absurd fee, the ancestor limits and the pool size limit) are one parameter
`policy`. Entries are kept in order of admission; fee, priority and size bookkeeping and the
fee estimator are left out.
-/

namespace MvfBu

open Except

/-- `MEMPOOL_HEIGHT`: the height `CCoinsViewMemPool` gives the coins of pool transactions. -/
def MEMPOOL_HEIGHT : ℤ := 0x7FFFFFFF

/-- `CTxMemPool`: the pool's transactions (`mapTx`), in order of admission. -/
structure CTxMemPool where
  mapTx : List CTransaction

namespace CTxMemPool

variable (GetHash : CTransaction → uint256) (pool : CTxMemPool)

/-- `exists(hash)`. -/
def «exists» (hash : uint256) : Bool := pool.mapTx.any fun tx => GetHash tx == hash

/-- `lookup(hash, tx)`. -/
def lookup (hash : uint256) : Option CTransaction := pool.mapTx.find? fun tx => GetHash tx == hash

/-- `mapNextTx.count(outpoint)`: a pool transaction spends the outpoint. -/
def spends (outpoint : COutPoint) : Bool :=
  pool.mapTx.any fun tx => tx.vin.any fun txin => txin.prevout == outpoint

/-- `addUnchecked`. -/
def addUnchecked (tx : CTransaction) : CTxMemPool := ⟨pool.mapTx ++ [tx]⟩

/-- The hashes of the pool transactions that spend an output of a transaction whose hash is
in `parents` (`GetMemPoolChildren`). -/
def childHashes (parents : List uint256) : List uint256 :=
  (pool.mapTx.filter fun tx => tx.vin.any fun txin => parents.contains txin.prevout.hash).map
    GetHash

/-- `CalculateDescendants`: the hashes reachable from `roots` through `childHashes`. Each round
adds the children of what has been found; after as many rounds as the pool has transactions
nothing new is found. -/
def descendants (roots : List uint256) : List uint256 :=
  Nat.iterate (fun found => found ++ (pool.childHashes GetHash found).filter fun h => !found.contains h)
    pool.mapTx.length roots

/-- `RemoveStaged` of a set of hashes. -/
def removeHashes (hashes : List uint256) : CTxMemPool :=
  ⟨pool.mapTx.filter fun tx => !hashes.contains (GetHash tx)⟩

/-- `removeConflicts(tx)`: each pool transaction other than `tx` that spends an input of `tx`
goes, with its descendants (`remove(txConflict, removed, true)`). -/
def removeConflicts (tx : CTransaction) : CTxMemPool :=
  tx.vin.foldl (fun pool txin =>
    match pool.mapTx.find? fun c => c.vin.any fun cin => cin.prevout == txin.prevout with
    | some txConflict =>
      if txConflict ≠ tx then pool.removeHashes GetHash (pool.descendants GetHash [GetHash txConflict])
      else pool
    | none => pool) pool

/-- `removeForBlock(vtx, ...)`: for each block transaction in order, `remove(tx, dummy, false)`
(the transaction alone) and `removeConflicts(tx)`. -/
def removeForBlock (vtx : List CTransaction) : CTxMemPool :=
  vtx.foldl (fun pool tx =>
    (pool.removeHashes GetHash [GetHash tx]).removeConflicts GetHash tx) pool

end CTxMemPool

/-- `CCoinsViewMemPool(pcoinsTip, pool)`: a pool transaction's coins at `MEMPOOL_HEIGHT`, else
the tip's coins unless they are pruned. -/
def CCoinsViewMemPool (GetHash : CTransaction → uint256) (pcoinsTip : CoinsView)
    (pool : CTxMemPool) : CoinsView := fun txid =>
  match pool.lookup GetHash txid with
  | some tx => some (CCoins.FromTx tx MEMPOOL_HEIGHT)
  | none =>
    match pcoinsTip txid with
    | some coins => if coins.IsPruned then none else some coins
    | none => none

/-- How `AcceptToMemoryPool` turns a transaction away: a reject reason, missing inputs
(`*pfMissingInputs = true`), a policy check, or a failed `CheckInputs`. -/
inductive ATMPError
  | invalid (reason : String)
  | missingInputs
  | policy
  | checkInputs (e : CheckInputsError)
  deriving DecidableEq, Repr

section Accept

variable {H : Type} (sigCrypto : SigCrypto H) (scriptCrypto : ScriptCrypto)
  (FinalForkId : UInt32) (GetHash : CTransaction → uint256)
  (policy : CTransaction → CoinsView → Bool)

/-- `AcceptToMemoryPoolWorker(pool, state, tx, ...)` with the tip's coins `pcoinsTip` at height
`chainHeight` and the fork flag `isMVFHardForkActive` as they are when it runs. -/
def AcceptToMemoryPool (isMVFHardForkActive : Bool) (chainHeight : ℤ) (pcoinsTip : CoinsView)
    (pool : CTxMemPool) (tx : CTransaction) : Except ATMPError CTxMemPool :=
  let hash := GetHash tx
  let view := CCoinsViewMemPool GetHash pcoinsTip pool
  if tx.IsCoinBase then throw (.invalid "coinbase")
  else if pool.exists GetHash hash then throw (.invalid "txn-already-in-mempool")
  else if tx.vin.any (fun txin => pool.spends txin.prevout) then
    throw (.invalid "txn-mempool-conflict")
  else if (view hash).isSome then throw (.invalid "txn-already-known")
  else if tx.vin.any (fun txin => (view txin.prevout.hash).isNone) then throw .missingInputs
  else if !view.HaveInputs tx then throw (.invalid "bad-txns-inputs-spent")
  else if !policy tx view then throw .policy
  else do
    -- the spend height is `GetSpendHeight(view)`, one above the tip
    (CheckInputs sigCrypto scriptCrypto isMVFHardForkActive FinalForkId tx view (chainHeight + 1)
      true STANDARD_SCRIPT_VERIFY_FLAGS).mapError .checkInputs
    (CheckInputs sigCrypto scriptCrypto isMVFHardForkActive FinalForkId tx view (chainHeight + 1)
      true MANDATORY_SCRIPT_VERIFY_FLAGS).mapError .checkInputs
    pure (pool.addUnchecked tx)

/-- **What an admission did.** A transaction that `AcceptToMemoryPool` accepted passed
`CheckInputs` against the pool's view at the next height under the standard flags, with the
fork flag of that moment, and was appended to the pool. -/
theorem AcceptToMemoryPool_eq_ok {isMVFHardForkActive : Bool} {chainHeight : ℤ}
    {pcoinsTip : CoinsView} {pool pool' : CTxMemPool} {tx : CTransaction}
    (h : AcceptToMemoryPool sigCrypto scriptCrypto FinalForkId GetHash policy isMVFHardForkActive
      chainHeight pcoinsTip pool tx = .ok pool') :
    CheckInputs sigCrypto scriptCrypto isMVFHardForkActive FinalForkId tx
        (CCoinsViewMemPool GetHash pcoinsTip pool) (chainHeight + 1) true
        STANDARD_SCRIPT_VERIFY_FLAGS = .ok () ∧
      pool' = pool.addUnchecked tx := by
  unfold AcceptToMemoryPool at h
  dsimp only at h
  split_ifs at h
  obtain ⟨u, hstd, h⟩ := bind_eq_ok.1 h
  obtain ⟨v, -, h⟩ := bind_eq_ok.1 h
  rw [pure_eq_ok, Except.ok.injEq] at h
  exact ⟨mapError_eq_ok.1 hstd, h.symm⟩

end Accept

/-! ## What `removeForBlock` keeps -/

namespace CTxMemPool

variable (GetHash : CTransaction → uint256)

/-- No pool transaction spends an input of `tx`. -/
def NoConflict (pool : CTxMemPool) (tx : CTransaction) : Prop :=
  ∀ txin ∈ tx.vin, ∀ c ∈ pool.mapTx, ∀ cin ∈ c.vin, cin.prevout ≠ txin.prevout

@[simp] lemma mem_removeHashes {pool : CTxMemPool} {hashes : List uint256} {tx : CTransaction} :
    tx ∈ (pool.removeHashes GetHash hashes).mapTx ↔ tx ∈ pool.mapTx ∧ GetHash tx ∉ hashes := by
  simp [removeHashes]

/-- Without a conflict, `removeConflicts` leaves the pool as it is.

**Proof sketch.** Each input's search for a pool transaction spending the same outpoint finds
none, so each step of the loop over the inputs returns the pool it is given. -/
lemma removeConflicts_of_noConflict {pool : CTxMemPool} {tx : CTransaction}
    (h : pool.NoConflict tx) : pool.removeConflicts GetHash tx = pool := by
  unfold removeConflicts
  -- the loop over any part of the inputs returns the pool unchanged
  suffices hloop : ∀ l : List CTxIn, (∀ txin ∈ l, txin ∈ tx.vin) →
      l.foldl (fun pool txin =>
        match pool.mapTx.find? fun c => c.vin.any fun cin => cin.prevout == txin.prevout with
        | some txConflict =>
          if txConflict ≠ tx then pool.removeHashes GetHash (pool.descendants GetHash [GetHash txConflict])
          else pool
        | none => pool) pool = pool from hloop tx.vin fun _ h => h
  intro l hl
  induction l with
  | nil => rfl
  | cons txin l ih =>
    have hnone : (pool.mapTx.find? fun c => c.vin.any fun cin => cin.prevout == txin.prevout) =
        none := by
      rw [List.find?_eq_none]
      intro c hc
      simpa using fun cin hcin => h txin (hl txin (by simp)) c hc cin hcin
    rw [List.foldl_cons, hnone]
    exact ih fun t ht => hl t (by simp [ht])

/-- **`removeForBlock` keeps what the block neither includes nor conflicts with.** A pool
transaction whose hash is not the hash of a block transaction stays in the pool when no pool
transaction spends an input of a block transaction.

**Proof sketch.** Induction on the block's transactions, for every pool contained in the
first: each step removes other hashes (`mem_removeHashes`), and finds no conflict
(`removeConflicts_of_noConflict`), since the pool only shrinks. -/
theorem mem_removeForBlock {pool : CTxMemPool} {vtx : List CTransaction} {tx : CTransaction}
    (htx : tx ∈ pool.mapTx) (hhash : ∀ b ∈ vtx, GetHash b ≠ GetHash tx)
    (hconf : ∀ b ∈ vtx, pool.NoConflict b) : tx ∈ (pool.removeForBlock GetHash vtx).mapTx := by
  unfold removeForBlock
  -- the invariant: the current pool lies inside the first one and still holds `tx`
  suffices hrun : ∀ (l : List CTransaction) (cur : CTxMemPool), (∀ b ∈ l, b ∈ vtx) →
      (∀ c ∈ cur.mapTx, c ∈ pool.mapTx) → tx ∈ cur.mapTx →
      tx ∈ (l.foldl (fun pool b =>
        (pool.removeHashes GetHash [GetHash b]).removeConflicts GetHash b) cur).mapTx from
    hrun vtx pool (fun _ h => h) (fun _ h => h) htx
  intro l
  induction l with
  | nil => intro cur _ _ hcur; exact hcur
  | cons b l ih =>
    intro cur hl hsub hcur
    have hb : b ∈ vtx := hl b (by simp)
    -- the pool after removing `b` itself has no conflict with `b` either
    have hnc : (cur.removeHashes GetHash [GetHash b]).NoConflict b := by
      intro txin htxin c hc
      exact hconf b hb txin htxin c (hsub c ((mem_removeHashes GetHash).1 hc).1)
    rw [List.foldl_cons, removeConflicts_of_noConflict GetHash hnc]
    refine ih _ (fun b' h => hl b' (by simp [h])) (fun c hc => hsub c ?_) ?_
    · exact ((mem_removeHashes GetHash).1 hc).1
    · rw [mem_removeHashes]
      exact ⟨hcur, by simpa using (hhash b hb).symm⟩

end CTxMemPool

end MvfBu
