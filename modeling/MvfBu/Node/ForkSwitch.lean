import MvfBu.Node.Handlers
import MvfBu.Script.SoftFork

set_option autoImplicit false

/-!
# The signature switch, the memory pool and Xpress validation

Pool transactions are checked once, at admission, under the signature hash of that moment.
The `UpdateTip` that reaches the fork height switches `CheckSig` to the fork's hash and leaves
the pool as `removeForBlock` made it: a transaction admitted on the block before, signed for the
legacy hash, stays in the pool, and no longer passes `CheckInputs`. Xpress validation trusts the
pool: when a thin block on the tip includes that transaction, `CThinBlock::process` puts its
hash into `setPreVerifiedTxHash`, and `ConnectBlock` accepts the block without the check that a
node without the set makes and fails.

## Main definitions

* `MvfBu.mempoolMinable` — every pool transaction passes `CheckInputs` for the next block.
* `MvfBu.xvalAgrees` — `ConnectBlock` accepts a block with the node's Xpress sets exactly when
  it does with empty ones.

## Main results

* `MvfBu.ConnectTip_activates_fork_keeps_pool` — the block at the fork height switches the fork
  on and keeps every pool transaction it neither includes nor conflicts with.
* `MvfBu.mempool_tx_fails_after_fork_activation` — a run from a pool that passes its checks to
  one that does not.
* `MvfBu.xpress_validation_connects_block_full_validation_rejects` — a run in which a thin
  block that full validation rejects is connected.

## Implementation notes

The runs use a signature scheme in which a signature verifies for exactly one hash, and a
hash that keeps the last four bytes of the preimage, the fork word `(nChainId << 1) | nHashType`
that tells the legacy hash from the fork's (`CheckSig_active_of_legacy` is the same fact for any
injective hash). Their blocks pass `CheckBlock`: each header carries the merkle root of its
transactions' hashes under the runs' node hash `merkleNodeHash`, and meets its proof of work and
time bound, as a header mined to its target does.
-/

namespace MvfBu

open Except

section Properties

variable {H : Type} (env : NodeEnv H)

/-- Every pool transaction passes `CheckInputs` against the tip's coins overlaid with the pool, at
the next block's height, under its script flags and the current fork flag: what
`TestBlockValidity` asks of a template built from the pool. -/
def mempoolMinable (s : NodeState) : Bool :=
  s.mempool.mapTx.all fun tx =>
    (CheckInputs env.sigCrypto env.scriptCrypto s.fork.isMVFHardForkActive env.FinalForkId tx
      (CCoinsViewMemPool env.GetHash s.pcoinsTip s.mempool) (s.fork.chainHeight + 1) true
      (env.blockContext (s.fork.chainHeight + 1)).flags).toBool

/-- `ConnectBlock` of a block on the tip accepts it with the node's Xpress sets exactly when it
accepts it with empty sets. -/
def xvalAgrees (s : NodeState) (block : CBlock) : Bool :=
  let connect (pre orphan : List uint256) :=
    (ConnectBlock env.sigCrypto env.scriptCrypto s.fork.isMVFHardForkActive env.FinalForkId
      env.GetHash env.Hash env.CheckBlockHeader (env.blockContext (s.fork.chainHeight + 1)) pre
      orphan block s.pcoinsTip).toBool
  connect s.setPreVerifiedTxHash s.setUnVerifiedOrphanTxHash == connect [] []

/-- **The block at the fork height switches the fork on and keeps the pool.** When `ConnectTip`
connects the block at `FinalActivateForkHeight`, the fork flag is set afterwards, and every pool
transaction that the block neither includes nor conflicts with is still in the pool: nothing
checks it again under the new signature hash.

**Proof sketch.** `ConnectTip_eq_ok` splits the step into `UpdateTip` at the fork height, which
sets the flag (`UpdateTip_eq_ok`), and `removeForBlock`, which keeps the transaction
(`CTxMemPool.mem_removeForBlock`). -/
theorem ConnectTip_activates_fork_keeps_pool {s s' : NodeState} {block : CBlock} {sw : Bool}
    {tx : CTransaction} (hF : s.fork.chainHeight + 1 = s.fork.FinalActivateForkHeight)
    (h : ConnectTip env s block sw = .ok s') (htx : tx ∈ s.mempool.mapTx)
    (hhash : ∀ b ∈ block.vtx, env.GetHash b ≠ env.GetHash tx)
    (hconf : ∀ b ∈ block.vtx, s.mempool.NoConflict b) :
    s'.fork.isMVFHardForkActive = true ∧ tx ∈ s'.mempool.mapTx := by
  obtain ⟨-, -, hup, -, hpool⟩ := ConnectTip_eq_ok env h
  refine ⟨?_, hpool ▸ CTxMemPool.mem_removeForBlock env.GetHash htx hhash hconf⟩
  rw [UpdateTip_eq_ok hup]
  simp [hF]

end Properties

/-! ## A run across the fork height -/

/-- A DER signature `0x30 len 0x02 len(R) R 0x02 0x01 0x01` with `S = 1`. -/
def derSignature (r : List UInt8) : List UInt8 :=
  [0x30, (r.length + 5).toUInt8, 0x02, r.length.toUInt8] ++ r ++ [0x02, 0x01, 0x01]

/-- The signature scheme of the runs: the hash keeps the last four bytes of the preimage, and a
signature verifies exactly for the hash that is its `R`. -/
def wordCrypto : SigCrypto (List UInt8) where
  Hash l := l.drop (l.length - 4)
  one := [1]
  VerifySignature sig _ h := sig == derSignature h

/-- A compressed public key. -/
def forkPubKey : valtype := 0x02 :: List.replicate 32 0x11

/-- Pay to `forkPubKey`: push the key, `OP_CHECKSIG`. -/
def forkScriptPubKey : CScript := [33] ++ forkPubKey ++ [OP_CHECKSIG]

/-- The `SIGHASH_ALL` signature for the legacy hash, whose fork word `(0 << 1) | 1` is the last
four bytes of every legacy preimage. -/
def legacySig : valtype := derSignature [1, 0, 0, 0] ++ [SIGHASH_ALL.toUInt8]

/-- The transaction whose output the run spends. -/
def fundTxid : uint256 := 0xf00d

/-- A transaction spending `fundTxid:0` with the legacy signature. -/
def legacySpendTx : CTransaction :=
  ⟨1, [⟨⟨fundTxid, 0⟩, [12] ++ legacySig, SEQUENCE_FINAL⟩], [⟨90000, forkScriptPubKey⟩], 0⟩

/-- A coinbase with the height byte `h` in its script. -/
def coinbaseAt (h : UInt8) : CTransaction :=
  ⟨1, [⟨⟨0, 0xffffffff⟩, [1, h], SEQUENCE_FINAL⟩], [⟨5000000000, []⟩], 0⟩

/-- The transaction hash of the runs: the serialization read as a number. -/
def serialHash (tx : CTransaction) : uint256 :=
  BitVec.ofNat 256 (tx.serialize.foldl (fun a b => a * 251 + b.toNat) 0)

/-- The hash of two merkle nodes in the runs: their 64 bytes read as a number, as `serialHash`
reads a serialization. -/
def merkleNodeHash (a b : uint256) : uint256 :=
  BitVec.ofNat 256 ((serUint256 a ++ serUint256 b).foldl (fun n x => n * 251 + x.toNat) 0)

/-- A node with the fork at height `10` (no SegWit trigger, the wallet backup succeeding), the
default fork id, no policy rejections, and the script flags of BIP 16, 66, 65 and 112 at every
height; block hashes count the heights, and every header meets its proof of work and its time
bound. -/
def forkEnv : NodeEnv (List UInt8) where
  sigCrypto := wordCrypto
  scriptCrypto := identityCrypto
  FinalForkId := HARDFORK_SIGHASH_ID
  GetHash := serialHash
  GetBlockHash header := header.hashPrevBlock + 1
  Hash := merkleNodeHash
  CheckBlockHeader _ := pure ()
  args := ⟨10, false, false, none⟩
  BackupWalletAuto _ := true
  policy _ _ := true
  blockRules h := ⟨h, SCRIPT_VERIFY_P2SH ||| SCRIPT_VERIFY_DERSIG |||
    SCRIPT_VERIFY_CHECKLOCKTIMEVERIFY ||| SCRIPT_VERIFY_CHECKSEQUENCEVERIFY, true, true,
    fun _ _ => true, 210000⟩

/-- The node started at tip `9`, one below the fork height, holding the output `fundTxid:0`
(paying `forkPubKey`) and an empty pool. -/
def forkStart : NodeState where
  fork := ⟨9, 10, false, false, false⟩
  tip := 9
  pcoinsTip txid :=
    if txid = fundTxid then some ⟨false, [⟨100000, forkScriptPubKey⟩], 5, 1⟩ else none
  mempool := ⟨[]⟩
  mapOrphanTransactions := []
  setPreVerifiedTxHash := []
  setUnVerifiedOrphanTxHash := []
  nMisbehavior _ := 0

/-- The fork state of `forkStart` is the one start-up gives at tip `9`. -/
theorem forkStart_fork_of_startup :
    (ForkSetup forkEnv.args none).map (LoadBlockIndexDB forkEnv.args forkEnv.BackupWalletAuto
      (some 9) false) = some (.ok forkStart.fork) := by
  decide

/-- The block at the fork height: a coinbase only, whose hash is the merkle root. -/
def block10 : CBlock := ⟨⟨9, serialHash (coinbaseAt 10)⟩, [coinbaseAt 10]⟩

/-- The header of the block after it, which includes `legacySpendTx`: the merkle root of the
two transactions is the hash of their hashes. -/
def header11 : CBlockHeader :=
  ⟨10, merkleNodeHash (serialHash (coinbaseAt 11)) (serialHash legacySpendTx)⟩

/-- The block after the fork height. -/
def block11 : CBlock := ⟨header11, [coinbaseAt 11, legacySpendTx]⟩

/-- Both blocks pass `CheckBlock`: their headers carry the merkle roots of their transactions. -/
example : CheckBlock forkEnv.Hash forkEnv.CheckBlockHeader forkEnv.GetHash block10 = .ok () ∧
    CheckBlock forkEnv.Hash forkEnv.CheckBlockHeader forkEnv.GetHash block11 = .ok () := by
  decide +kernel

/-- The thin block of `block11` from peer `0`: its hashes, with the coinbase sent along. -/
def thinBlock11 (segwitActive : Bool) : NodeEvent :=
  .thinBlock 0 header11 [serialHash (coinbaseAt 11), serialHash legacySpendTx] [coinbaseAt 11]
    segwitActive

/-- **Admitted before the fork, not minable after it.** From `forkStart`, whose empty pool
passes its checks, the pool admits `legacySpendTx` at tip `9` and the block at the fork height
is connected; the transaction stays in the pool, and now fails `CheckInputs` for the next
block: its legacy signature does not verify for the fork's hash. -/
theorem mempool_tx_fails_after_fork_activation :
    mempoolMinable forkEnv forkStart = true ∧
      ∃ s, runNode forkEnv forkStart [.tx legacySpendTx, .block block10 false] = .ok s ∧
        s.fork.isMVFHardForkActive = true ∧ legacySpendTx ∈ s.mempool.mapTx ∧
        mempoolMinable forkEnv s = false := by
  refine ⟨by decide, ?_⟩
  obtain ⟨s, hs, hp⟩ := toOption_any_eq_true.1 (show
    (runNode forkEnv forkStart [.tx legacySpendTx, .block block10 false]).toOption.any
      (fun s => s.fork.isMVFHardForkActive && s.mempool.mapTx.contains legacySpendTx &&
        !mempoolMinable forkEnv s) = true by decide +kernel)
  simp only [Bool.and_eq_true, List.contains_iff_mem, Bool.not_eq_eq_eq_not, Bool.not_true] at hp
  exact ⟨s, hs, hp.1.1, hp.1.2, hp.2⟩

/-- **Xpress validation connects a block that full validation rejects.** After the run of
`mempool_tx_fails_after_fork_activation`, the thin block of `block11` builds on the tip: its
transaction from the pool is pre-verified, `ConnectBlock` with the sets accepts the block while
it rejects it with empty sets, and the node connects it. The same block as a full block is
rejected, for the script of `legacySpendTx`. -/
theorem xpress_validation_connects_block_full_validation_rejects :
    ∃ s, runNode forkEnv forkStart [.tx legacySpendTx, .block block10 false] = .ok s ∧
      xvalAgrees forkEnv
        (ThinBlockResolve forkEnv s header11 [serialHash (coinbaseAt 11), serialHash legacySpendTx]
          [coinbaseAt 11]).2 block11 = false ∧
      (∃ s', NodeStep forkEnv s (thinBlock11 false) = .ok s' ∧
        s'.tip = forkEnv.GetBlockHash header11) ∧
      (ConnectTip forkEnv s block11 false).map (fun _ => ()) =
        .error (.rejected (.checkInputs (.mandatoryScript (.scriptError .SCRIPT_ERR_EVAL_FALSE)))) := by
  obtain ⟨s, hs, hp⟩ := toOption_any_eq_true.1 (show
    (runNode forkEnv forkStart [.tx legacySpendTx, .block block10 false]).toOption.any
      (fun s => !xvalAgrees forkEnv (ThinBlockResolve forkEnv s header11
          [serialHash (coinbaseAt 11), serialHash legacySpendTx] [coinbaseAt 11]).2 block11 &&
        (NodeStep forkEnv s (thinBlock11 false)).toOption.any
          (fun s' => s'.tip == forkEnv.GetBlockHash header11) &&
        (ConnectTip forkEnv s block11 false).map (fun _ => ()) ==
          .error (.rejected (.checkInputs (.mandatoryScript (.scriptError .SCRIPT_ERR_EVAL_FALSE)))))
      = true by decide +kernel)
  simp only [Bool.and_eq_true, Bool.not_eq_eq_eq_not, Bool.not_true, beq_iff_eq] at hp
  obtain ⟨⟨hx, hstep⟩, hfull⟩ := hp
  obtain ⟨s', hs', htip⟩ := toOption_any_eq_true.1 hstep
  exact ⟨s, hs, hx, ⟨s', hs', by simpa using htip⟩, hfull⟩

end MvfBu
