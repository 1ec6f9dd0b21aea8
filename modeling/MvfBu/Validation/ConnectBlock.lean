import MvfBu.Validation.CheckInputs
import MvfBu.Consensus.Merkle

set_option autoImplicit false

/-!
# Checking and connecting a block (`main.cpp` `CheckTransaction`, `CheckBlock`, `UpdateCoins`,
`ConnectBlock`)

`ConnectBlock` first checks the block again on its own (`CheckBlock`): the header's proof of
work and timestamp, that the header's merkle root is the root of the transactions' hashes with
no duplicated subtree, that the coinbase comes first and alone, and each transaction's own
checks (`CheckTransaction`). It then walks the block's transactions in order over a temporary
view of the unspent outputs. For each ordinary transaction it checks that the inputs are there,
that the sequence locks hold, adds the fee, and runs `CheckInputs`, unless Xpress validation has
pre-verified the transaction: its hash is in `setPreVerifiedTxHash` and not in
`setUnVerifiedOrphanTxHash`. Then `UpdateCoins` spends the inputs, records their undo data and
adds the outputs. At the end the coinbase may pay at most the fees plus the subsidy.

## Main definitions

* `MvfBu.CBlockHeader`, `MvfBu.CBlock`.
* `MvfBu.CheckTransaction`, `MvfBu.BlockMerkleRoot`, `MvfBu.CheckBlock`.
* `MvfBu.CTxInUndo`, `MvfBu.CTxUndo`.
* `MvfBu.UpdateCoins`.
* `MvfBu.BlockContext` — what `ConnectBlock` reads about the block's place in the chain.
* `MvfBu.ConnectBlock`.

## Main results

* `MvfBu.CheckBlock_eq_ok` — what a block `CheckBlock` accepts is: its header passes, its merkle
  root is its transactions', the coinbase comes first and alone, and every transaction passes.
* `MvfBu.ConnectBlock_checkBlock` — `ConnectBlock` accepts only blocks `CheckBlock` accepts.
* `MvfBu.ConnectBlock_of_empty_sets` — a block `ConnectBlock` accepts with empty Xpress sets it
  accepts with any sets, with the same view, fees and undo data.

## Implementation notes

The header carries only the previous block's hash and the merkle root. `CheckBlockHeader`, which
reads the others (the proof of work of the block's hash against `nBits`, and `nTime` at most two
hours past the adjusted time), is a parameter, and so is `Hash`, the double SHA-256 of two merkle
nodes. `ComputeMerkleRoot` shifts by the width of its counter past `2 ^ 31` leaves, which is
undefined; `CheckBlock` then fails with `undefined`. Left out of `CheckBlock`: the `fChecked`
cache (the checks give the same answer again), the block size it records, the sigop limit (only
with `fConservative`, which `ConnectBlock` does not set) and `CheckExcessive`, which only marks
the block for relay. Left out of `ConnectBlock`: the assertion that the view is at the previous
block, the genesis block's special case, the parallel-validation exits (another block won the
race, a quit request) and the counters of sigops and inputs. Script checks run inline, as with
`pvChecks = NULL`: a deferred check that fails rejects the block in the same way.
-/

namespace MvfBu

open Except

/-! ## `CheckBlock` -/

/-- `CBlockHeader`, for what the node reads of it: the previous block's hash and the merkle
root. -/
structure CBlockHeader where
  hashPrevBlock : uint256
  hashMerkleRoot : uint256
  deriving DecidableEq, Repr

/-- `CBlock`: a header and the transactions, the coinbase first. -/
structure CBlock where
  header : CBlockHeader
  vtx : List CTransaction

/-- How `CheckBlock` and `ConnectBlock` fail: `state.DoS(..., REJECT_INVALID, reason)` (the
DoS score is left out), a failed `CheckInputs`, a `runtime_error` of `GetValueOut`, a failed
`assert`, or an operation the C++ leaves undefined. -/
inductive ConnectBlockError
  | dos (reason : String)
  | checkInputs (e : CheckInputsError)
  | runtimeError (what : String)
  | assertion (expr : String)
  | undefined (what : String)
  deriving DecidableEq, Repr

/-- `MAX_COINBASE_SCRIPTSIG_SIZE`. -/
def MAX_COINBASE_SCRIPTSIG_SIZE : ℕ := 100

/-- One output of `CheckTransaction`'s loop: the amount in range, and the running total in
`MoneyRange` after it. -/
def checkTxOut (nValueOut : ℤ) (txout : CTxOut) : Except ConnectBlockError ℤ :=
  if txout.nValue.toInt < 0 then throw (.dos "bad-txns-vout-negative")
  else if txout.nValue.toInt > MAX_MONEY then throw (.dos "bad-txns-vout-toolarge")
  else
    let nValueOut := nValueOut + txout.nValue.toInt
    if !MoneyRange nValueOut then throw (.dos "bad-txns-txouttotal-toolarge") else pure nValueOut

/-- One input of `CheckTransaction`'s duplicate check: an outpoint met before is refused. -/
def checkTxInDuplicate (vInOutPoints : List COutPoint) (txin : CTxIn) :
    Except ConnectBlockError (List COutPoint) :=
  if vInOutPoints.contains txin.prevout then throw (.dos "bad-txns-inputs-duplicate")
  else pure (txin.prevout :: vInOutPoints)

/-- `CheckTransaction(tx, state)`: some input and some output, the outputs' amounts in range, no
outpoint spent twice, a coinbase script of `2` to `MAX_COINBASE_SCRIPTSIG_SIZE` bytes, and no null
outpoint spent by an ordinary transaction. -/
def CheckTransaction (tx : CTransaction) : Except ConnectBlockError Unit :=
  if tx.vin.isEmpty then throw (.dos "bad-txns-vin-empty")
  else if tx.vout.isEmpty then throw (.dos "bad-txns-vout-empty")
  else do
    let _ ← tx.vout.foldlM checkTxOut 0
    let _ ← tx.vin.foldlM checkTxInDuplicate []
    if tx.IsCoinBase then
      let size := (tx.vin.headD default).scriptSig.length
      if size < 2 ∨ size > MAX_COINBASE_SCRIPTSIG_SIZE then throw (.dos "bad-cb-length")
    else if tx.vin.any (·.prevout.IsNull) then throw (.dos "bad-txns-prevout-null")

section Check

variable (Hash : uint256 → uint256 → uint256)
  (CheckBlockHeader : CBlockHeader → Except ConnectBlockError Unit) (GetHash : CTransaction → uint256)

/-- `BlockMerkleRoot(block, &mutated)`: `ComputeMerkleRoot` of the transactions' hashes, with
`Hash` the hash of two nodes and `uint256()` the zero. -/
def BlockMerkleRoot (vtx : List CTransaction) : Option (uint256 × Bool) :=
  Merkle.ComputeMerkleRoot Hash 0 (vtx.map GetHash)

/-- `CheckBlock(block, state, fCheckPOW, fCheckMerkleRoot)` with both flags set, as
`ConnectBlock` calls it: the header, the merkle root and its malleability, the coinbase first
and only there, and each transaction. -/
def CheckBlock (block : CBlock) : Except ConnectBlockError Unit := do
  CheckBlockHeader block.header
  match BlockMerkleRoot Hash GetHash block.vtx with
  | none => throw (.undefined "ComputeMerkleRoot")
  | some (hashMerkleRoot2, mutated) =>
    if block.header.hashMerkleRoot ≠ hashMerkleRoot2 then throw (.dos "bad-txnmrklroot")
    if mutated then throw (.dos "bad-txns-duplicate")
  match block.vtx with
  | [] => throw (.dos "bad-blk-length")
  | coinbase :: rest =>
    if !coinbase.IsCoinBase then throw (.dos "bad-cb-missing")
    if rest.any CTransaction.IsCoinBase then throw (.dos "bad-cb-multiple")
    block.vtx.forM CheckTransaction

/-- **What `CheckBlock` accepts.** The header passes its checks, the merkle root of the
transactions' hashes is the header's with no duplicated subtree, the first transaction is the
coinbase and no other is, and every transaction passes `CheckTransaction`. -/
theorem CheckBlock_eq_ok (block : CBlock) :
    CheckBlock Hash CheckBlockHeader GetHash block = .ok () ↔
      CheckBlockHeader block.header = .ok () ∧
        BlockMerkleRoot Hash GetHash block.vtx = some (block.header.hashMerkleRoot, false) ∧
        (∃ coinbase rest, block.vtx = coinbase :: rest ∧ coinbase.IsCoinBase = true ∧
          ∀ tx ∈ rest, tx.IsCoinBase = false) ∧
        ∀ tx ∈ block.vtx, CheckTransaction tx = .ok () := by
  obtain ⟨header, vtx⟩ := block
  unfold CheckBlock
  dsimp only
  rcases hh : CheckBlockHeader header with e | ⟨⟩
  · simp
  rw [ok_bind]
  rcases hm : BlockMerkleRoot Hash GetHash vtx with _ | ⟨root, mutated⟩
  · simp
  by_cases hr : header.hashMerkleRoot = root
  · subst hr
    cases mutated
    · cases vtx with
      | nil => simp
      | cons coinbase rest =>
        -- the coinbase comes first and alone; then every transaction is checked
        have hmulti : rest.any CTransaction.IsCoinBase = true ↔ ¬∀ tx ∈ rest, tx.IsCoinBase = false :=
          by simp
        by_cases hcb : coinbase.IsCoinBase = true
        · by_cases hrest : rest.any CTransaction.IsCoinBase = true
          · simp [hcb, hrest, hmulti.1 hrest]
          · have hall : ∀ tx ∈ rest, tx.IsCoinBase = false := not_not.1 (mt hmulti.2 hrest)
            simp only [hcb, hrest, Bool.not_true, Bool.false_eq_true, if_false, ne_eq,
              not_true_eq_false, true_and]
            refine (forM_eq_ok (coinbase :: rest)).trans ?_
            exact ⟨fun h => ⟨⟨coinbase, rest, rfl, hcb, hall⟩, h⟩, fun h => h.2⟩
        · simp [hcb]
    · simp
  · simp [hr, Ne.symm hr]

end Check

/-! ## `UpdateCoins` -/

/-- `CTxInUndo`: the output an input spent and, when it was the last unspent output of its
transaction, that transaction's coinbase flag, height and version (`nHeight = 0` otherwise). -/
structure CTxInUndo where
  txout : CTxOut
  fCoinBase : Bool
  nHeight : ℕ
  nVersion : ℤ
  deriving DecidableEq, Repr

/-- `CTxUndo`: the undo records of a transaction's inputs, in order. -/
structure CTxUndo where
  vprevout : List CTxInUndo
  deriving DecidableEq, Repr

/-- One input of `UpdateCoins`: `ModifyCoins` of the spent transaction (an empty `CCoins` when
the view has none), `assert(false)` unless the output is there and unspent, the undo record,
and `Spend`. -/
def spendInput (view : CoinsView) (txin : CTxIn) : Except String (CoinsView × CTxInUndo) :=
  let coins := (view txin.prevout.hash).getD CCoins.Clear
  let nPos := txin.prevout.n.toNat
  if nPos ≥ coins.vout.length ∨ (coins.vout.getD nPos CTxOut.null).IsNull then throw "false"
  else
    let undo : CTxInUndo := ⟨coins.vout.getD nPos CTxOut.null, false, 0, 0⟩
    let coins' := (coins.Spend nPos).getD coins
    -- the last output spent: the undo record keeps the transaction's metadata
    let undo := if coins'.vout.length = 0 then
        { undo with nHeight := coins.nHeight.toNat, fCoinBase := coins.fCoinBase,
                    nVersion := coins.nVersion }
      else undo
    pure (Function.update view txin.prevout.hash (some coins'), undo)

section Update

variable (GetHash : CTransaction → uint256)

/-- `UpdateCoins(tx, state, inputs, txundo, nHeight)`: spend the inputs of an ordinary
transaction in order, then add the transaction's outputs under its hash. -/
def UpdateCoins (tx : CTransaction) (view : CoinsView) (nHeight : ℤ) :
    Except String (CoinsView × CTxUndo) := do
  let (view, vprevout) ← (if tx.IsCoinBase then pure (view, [])
    else tx.vin.foldlM (fun (acc : CoinsView × List CTxInUndo) txin => do
      let (view, undo) ← spendInput acc.1 txin
      pure (view, acc.2 ++ [undo])) (view, []))
  pure (Function.update view (GetHash tx) (some (CCoins.FromTx tx nHeight)), ⟨vprevout⟩)

end Update

/-! ## `ConnectBlock` -/

/-- `GetBlockSubsidy(nHeight, consensusParams)`: fifty coins, halved every
`nSubsidyHalvingInterval` blocks, and zero once the shift would be undefined. -/
def GetBlockSubsidy (nHeight nSubsidyHalvingInterval : ℤ) : ℤ :=
  let halvings := nHeight.tdiv nSubsidyHalvingInterval
  if halvings ≥ 64 then 0
  else (50 * COIN) >>> halvings.toNat

/-- What `ConnectBlock` reads about the block's place in the chain: its height, the script
flags of BIP 16, 66, 65 and 112 at that height, whether scripts are checked at all (they are
not below the last checkpoint), whether BIP 30 is enforced, the BIP 68 sequence lock test
`SequenceLocks(tx, nLockTimeFlags, prevheights, *pindex)` and the halving interval. -/
structure BlockContext where
  nHeight : ℤ
  flags : UInt32
  fScriptChecks : Bool
  fEnforceBIP30 : Bool
  SequenceLocks : CTransaction → List ℤ → Bool
  nSubsidyHalvingInterval : ℤ

/-- What `ConnectBlock`'s transaction loop carries: the temporary view, the fees, the undo
records of the transactions after the first, and the hashes Xpress validation let through. -/
structure ConnectState where
  view : CoinsView
  nFees : ℤ
  vtxundo : List CTxUndo
  vHashesToDelete : List uint256

section Connect

variable {H : Type} (sigCrypto : SigCrypto H) (scriptCrypto : ScriptCrypto)
  (isMVFHardForkActive : Bool) (FinalForkId : UInt32) (GetHash : CTransaction → uint256)
  (Hash : uint256 → uint256 → uint256)
  (CheckBlockHeader : CBlockHeader → Except ConnectBlockError Unit)
  (ctx : BlockContext) (setPreVerifiedTxHash setUnVerifiedOrphanTxHash : List uint256)

/-- Whether `ConnectBlock` runs `CheckInputs` on a transaction: unless Xpress validation
pre-verified it, that is, its hash is in `setPreVerifiedTxHash` and not in
`setUnVerifiedOrphanTxHash`. -/
def checksInputs (hash : uint256) : Bool :=
  let inOrphanCache := setUnVerifiedOrphanTxHash.contains hash
  let inVerifiedCache := setPreVerifiedTxHash.contains hash
  inOrphanCache || (!inVerifiedCache && !inOrphanCache)

/-- The checks of an ordinary transaction in `ConnectBlock`'s loop, before `UpdateCoins`. -/
def ConnectBlockTxChecks (acc : ConnectState) (tx : CTransaction) :
    Except ConnectBlockError ConnectState :=
  if !acc.view.HaveInputs tx then throw (.dos "bad-txns-inputs-missingorspent")
  else
    let prevheights := tx.vin.map fun txin => ((acc.view txin.prevout.hash).getD CCoins.Clear).nHeight
    if !ctx.SequenceLocks tx prevheights then throw (.dos "bad-txns-nonfinal")
    else do
      let nValueOut ← (GetValueOut tx).mapError .runtimeError
      let nFees := acc.nFees + (acc.view.GetValueIn tx - nValueOut)
      let hash := GetHash tx
      if checksInputs setPreVerifiedTxHash setUnVerifiedOrphanTxHash hash then
        (CheckInputs sigCrypto scriptCrypto isMVFHardForkActive FinalForkId tx acc.view ctx.nHeight
            ctx.fScriptChecks ctx.flags).mapError .checkInputs >>= fun _ =>
          pure { acc with nFees := nFees }
      else pure { acc with nFees := nFees, vHashesToDelete := acc.vHashesToDelete ++ [hash] }

/-- One transaction of `ConnectBlock`'s loop, at index `i` of the block. -/
def ConnectBlockTx (acc : ConnectState) (p : CTransaction × ℕ) :
    Except ConnectBlockError ConnectState := do
  let acc ← (if p.1.IsCoinBase then pure acc
    else ConnectBlockTxChecks sigCrypto scriptCrypto isMVFHardForkActive FinalForkId GetHash ctx
      setPreVerifiedTxHash setUnVerifiedOrphanTxHash acc p.1)
  let (view, txundo) ← (UpdateCoins GetHash p.1 acc.view ctx.nHeight).mapError .assertion
  pure { acc with view := view, vtxundo := if p.2 > 0 then acc.vtxundo ++ [txundo] else acc.vtxundo }

/-- The BIP 30 check: no transaction of the block may overwrite unspent coins. -/
def overwritesCoins (view : CoinsView) (vtx : List CTransaction) : Bool :=
  vtx.any fun tx => match view (GetHash tx) with
    | some coins => !coins.IsPruned
    | none => false

/-- `ConnectBlock(block, state, pindex, view)` from `CheckBlock` to the coinbase limit. -/
def ConnectBlock (block : CBlock) (view : CoinsView) : Except ConnectBlockError ConnectState := do
  -- `CheckBlock(block, state, !fJustCheck, !fJustCheck)`, with `fJustCheck` false
  CheckBlock Hash CheckBlockHeader GetHash block
  let vtx := block.vtx
  if ctx.fEnforceBIP30 && overwritesCoins GetHash view vtx then throw (.dos "bad-txns-BIP30")
  else do
    let acc ← vtx.zipIdx.foldlM
      (ConnectBlockTx sigCrypto scriptCrypto isMVFHardForkActive FinalForkId GetHash ctx
        setPreVerifiedTxHash setUnVerifiedOrphanTxHash) ⟨view, 0, [], []⟩
    let blockReward := acc.nFees + GetBlockSubsidy ctx.nHeight ctx.nSubsidyHalvingInterval
    match vtx with
    | [] => throw (.assertion "block.vtx[0]")
    | coinbase :: _ =>
      let nCoinbaseOut ← (GetValueOut coinbase).mapError .runtimeError
      if nCoinbaseOut > blockReward then throw (.dos "bad-cb-amount") else pure acc

end Connect

section Sets

variable {H : Type} (sigCrypto : SigCrypto H) (scriptCrypto : ScriptCrypto)
  (isMVFHardForkActive : Bool) (FinalForkId : UInt32) (GetHash : CTransaction → uint256)
  (Hash : uint256 → uint256 → uint256)
  (CheckBlockHeader : CBlockHeader → Except ConnectBlockError Unit)
  (ctx : BlockContext) (pre orphan : List uint256)

/-- With empty sets `ConnectBlock` checks the inputs of every transaction. -/
@[simp] lemma checksInputs_nil (hash : uint256) : checksInputs [] [] hash = true := rfl

/-- Two loop states of `ConnectBlock` that differ at most in the hashes Xpress validation let
through. -/
def ConnectState.SameCore (a b : ConnectState) : Prop :=
  a.view = b.view ∧ a.nFees = b.nFees ∧ a.vtxundo = b.vtxundo

/-- The checks of a transaction pass with any sets where they pass with empty ones: the sets
can only skip `CheckInputs`. -/
lemma ConnectBlockTxChecks_sim {acc₁ acc₂ acc₁' : ConnectState} (hacc : acc₁.SameCore acc₂)
    (tx : CTransaction)
    (h : ConnectBlockTxChecks sigCrypto scriptCrypto isMVFHardForkActive FinalForkId GetHash ctx
      [] [] acc₁ tx = .ok acc₁') :
    ∃ acc₂', ConnectBlockTxChecks sigCrypto scriptCrypto isMVFHardForkActive FinalForkId GetHash
      ctx pre orphan acc₂ tx = .ok acc₂' ∧ acc₁'.SameCore acc₂' := by
  obtain ⟨hv, hf, hu⟩ := hacc
  unfold ConnectBlockTxChecks at h ⊢
  rw [← hv, ← hf]
  dsimp only at h ⊢
  -- the guards read only the view, which is the same on both sides
  by_cases hin : (!acc₁.view.HaveInputs tx) = true
  · rw [if_pos hin] at h
    exact absurd h (by simp)
  by_cases hseq : (!ctx.SequenceLocks tx
      (tx.vin.map fun txin => ((acc₁.view txin.prevout.hash).getD CCoins.Clear).nHeight)) = true
  · rw [if_neg hin, if_pos hseq] at h
    exact absurd h (by simp)
  rw [if_neg hin, if_neg hseq] at h ⊢
  obtain ⟨nValueOut, hout, h⟩ := bind_eq_ok.1 h
  rw [hout, ok_bind]
  simp only [checksInputs_nil, ↓reduceIte] at h
  obtain ⟨u, hci, h⟩ := bind_eq_ok.1 h
  rw [pure_eq_ok, Except.ok.injEq] at h
  subst h
  -- the run with the sets either makes the same check or skips it
  by_cases hc : checksInputs pre orphan (GetHash tx) = true
  · simp only [hc, ↓reduceIte, hci, ok_bind, pure_eq_ok, Except.ok.injEq, exists_eq_left']
    exact ⟨rfl, rfl, hu⟩
  · simp only [hc, Bool.false_eq_true, ↓reduceIte, pure_eq_ok, Except.ok.injEq,
      exists_eq_left']
    exact ⟨rfl, rfl, hu⟩

/-- **Step lemma.** One transaction of `ConnectBlock`'s loop that passes with empty sets passes
with any sets, to a state with the same view, fees and undo data. -/
lemma ConnectBlockTx_sim {acc₁ acc₂ acc₁' : ConnectState} (hacc : acc₁.SameCore acc₂)
    (p : CTransaction × ℕ)
    (h : ConnectBlockTx sigCrypto scriptCrypto isMVFHardForkActive FinalForkId GetHash ctx
      [] [] acc₁ p = .ok acc₁') :
    ∃ acc₂', ConnectBlockTx sigCrypto scriptCrypto isMVFHardForkActive FinalForkId GetHash
      ctx pre orphan acc₂ p = .ok acc₂' ∧ acc₁'.SameCore acc₂' := by
  unfold ConnectBlockTx at h ⊢
  obtain ⟨b₁, hb₁, h⟩ := bind_eq_ok.1 h
  obtain ⟨b₂, hb₂, hv, hf, hu⟩ : ∃ b₂, (if p.1.IsCoinBase then pure acc₂
      else ConnectBlockTxChecks sigCrypto scriptCrypto isMVFHardForkActive FinalForkId GetHash
        ctx pre orphan acc₂ p.1) = .ok b₂ ∧ b₁.SameCore b₂ := by
    by_cases hcb : p.1.IsCoinBase = true
    · simp only [hcb, ↓reduceIte, pure_eq_ok, Except.ok.injEq] at hb₁ ⊢
      exact ⟨acc₂, rfl, hb₁ ▸ hacc⟩
    · simp only [hcb, Bool.false_eq_true, ↓reduceIte] at hb₁ ⊢
      exact ConnectBlockTxChecks_sim sigCrypto scriptCrypto isMVFHardForkActive FinalForkId
        GetHash ctx pre orphan hacc p.1 hb₁
  rw [hb₂, ok_bind]
  -- `UpdateCoins` reads only the view
  obtain ⟨⟨view, txundo⟩, hup, h⟩ := bind_eq_ok.1 h
  rw [← hv, hup, ok_bind]
  dsimp only at h ⊢
  rw [pure_eq_ok, Except.ok.injEq] at h
  subst h
  exact ⟨_, rfl, rfl, hf, by rw [hu]⟩

/-- **`ConnectBlock` checks the block.** A block `ConnectBlock` accepts, with any sets, passes
`CheckBlock`. -/
theorem ConnectBlock_checkBlock {block : CBlock} {view : CoinsView} {acc : ConnectState}
    (h : ConnectBlock sigCrypto scriptCrypto isMVFHardForkActive FinalForkId GetHash Hash
      CheckBlockHeader ctx pre orphan block view = .ok acc) :
    CheckBlock Hash CheckBlockHeader GetHash block = .ok () := by
  obtain ⟨⟨⟩, hcheck, -⟩ := bind_eq_ok.1 h
  exact hcheck

/-- **Xpress validation only skips checks.** A block that `ConnectBlock` accepts with empty
Xpress sets it accepts with any sets, with the same view, fees and undo data.

**Proof sketch.** `CheckBlock` reads neither the sets nor the view. The loops simulate each other
step by step (`foldlM_simulation` with `ConnectBlockTx_sim`); the BIP 30 check and the coinbase
limit read only the view and the fees. -/
theorem ConnectBlock_of_empty_sets (block : CBlock) (view : CoinsView) {acc : ConnectState}
    (h : ConnectBlock sigCrypto scriptCrypto isMVFHardForkActive FinalForkId GetHash Hash
      CheckBlockHeader ctx [] [] block view = .ok acc) :
    ∃ acc', ConnectBlock sigCrypto scriptCrypto isMVFHardForkActive FinalForkId GetHash Hash
      CheckBlockHeader ctx pre orphan block view = .ok acc' ∧ acc.SameCore acc' := by
  have hcheck := ConnectBlock_checkBlock sigCrypto scriptCrypto isMVFHardForkActive FinalForkId
    GetHash Hash CheckBlockHeader ctx [] [] h
  unfold ConnectBlock at h ⊢
  rw [hcheck, ok_bind] at h ⊢
  obtain ⟨header, vtx⟩ := block
  dsimp only at h ⊢
  by_cases hbip : (ctx.fEnforceBIP30 && overwritesCoins GetHash view vtx) = true
  · rw [if_pos hbip] at h
    exact absurd h (by simp)
  rw [if_neg hbip] at h ⊢
  obtain ⟨acc₁, hrun, h⟩ := bind_eq_ok.1 h
  have hstart : ConnectState.SameCore ⟨view, 0, [], []⟩ ⟨view, 0, [], []⟩ := ⟨rfl, rfl, rfl⟩
  obtain ⟨acc₂, hrun₂, hv, hf, hu⟩ := foldlM_simulation ConnectState.SameCore
    (fun _ _ a _ hst hs => ConnectBlockTx_sim sigCrypto scriptCrypto isMVFHardForkActive
      FinalForkId GetHash ctx pre orphan hst a hs) vtx.zipIdx hstart hrun
  rw [hrun₂, ok_bind]
  -- the coinbase limit reads only the fees
  cases vtx with
  | nil => exact absurd h (by simp)
  | cons coinbase rest =>
    obtain ⟨nOut, hout, h⟩ := bind_eq_ok.1 h
    simp only [hout, ok_bind, ← hf]
    by_cases hcb : nOut > acc₁.nFees + GetBlockSubsidy ctx.nHeight ctx.nSubsidyHalvingInterval
    · rw [if_pos hcb] at h
      exact absurd h (by simp)
    · rw [if_neg hcb, pure_eq_ok, Except.ok.injEq] at h
      subst h
      rw [if_neg hcb]
      exact ⟨acc₂, rfl, hv, hf, hu⟩

end Sets

end MvfBu
