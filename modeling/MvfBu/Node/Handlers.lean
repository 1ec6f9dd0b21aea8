import MvfBu.Node.Mempool
import MvfBu.Validation.ForkActivation

set_option autoImplicit false

/-!
# The node's handlers (`main.cpp` `ConnectTip`, `ProcessMessage`; `thinblock.cpp`
`CThinBlock::process`; `parallel.cpp` `HandleBlockMessageThread`)

The node's state is the active chain's tip and height with the fork globals, the coins of the
tip, the memory pool, the orphan pool, and the two global sets of Xpress validation:
`setPreVerifiedTxHash`, the hashes of thin-block transactions the node already holds in its
pool and will not check again, and `setUnVerifiedOrphanTxHash`, those it took from the orphan
pool and must check. Events change it one at a time: a loose transaction
(`AcceptToMemoryPool`, or the orphan pool when its inputs are missing), a full block, a thin
block (`CThinBlock::process`, which fills the sets when the block builds on the tip and hands the
reassembled block on), and the clearing of the sets once no thin block is in flight. A block
is connected by `ConnectTip`: `ConnectBlock` with the sets as they are, then
`removeForBlock` on the pool and `UpdateTip`, which may switch on the fork.

## Main definitions

* `MvfBu.NodeEnv` — the cryptography, hashes, arguments and rules the node runs with.
* `MvfBu.NodeState`, `MvfBu.NodeEvent`.
* `MvfBu.ConnectTip`, `MvfBu.ThinBlockResolve`, `MvfBu.ThinBlockProcess`, `MvfBu.NodeStep`,
  `MvfBu.runNode`.

## Main results

* `MvfBu.ConnectTip_eq_ok` — what connecting a block does to the pool, the tip and the fork.

## Implementation notes

Only blocks that extend the tip are connected; a block on another branch is stored, which
changes nothing modelled here, and reorganisations (`DisconnectTip`, `removeForReorg`) are
left out, as is the DoS score of a rejected block. `CThinBlock::process` checks the merkle root
of the thin block's hashes and charges the peer for a mismatch; its memory limits and its
per-peer bookkeeping (`MvfBu.Node.ThinBlockBytes`) are left out here, as is the request
manager: the reassembled block is the header with the transactions the hashes resolve to.
-/

namespace MvfBu

open Except

/-- What the node runs with: the cryptography (over a hash type `H`), the fork id of the
signature hash after the fork, the transaction and block hashes, the hash of two merkle nodes,
the header checks of `CheckBlockHeader` (proof of work and timestamp), the fork's start-up
arguments, whether the wallet backup at a height succeeds, the policy checks of
`AcceptToMemoryPool`, and the consensus rules of a block at each height. -/
structure NodeEnv (H : Type) where
  sigCrypto : SigCrypto H
  scriptCrypto : ScriptCrypto
  FinalForkId : UInt32
  GetHash : CTransaction → uint256
  GetBlockHash : CBlockHeader → uint256
  Hash : uint256 → uint256 → uint256
  CheckBlockHeader : CBlockHeader → Except ConnectBlockError Unit
  args : MVFArgs
  BackupWalletAuto : ℤ → Bool
  policy : CTransaction → CoinsView → Bool
  blockRules : ℤ → BlockContext

/-- The node's state. -/
structure NodeState where
  /-- The height of `chainActive` and the fork globals. -/
  fork : MVFNodeState
  /-- `chainActive.Tip()->GetBlockHash()`. -/
  tip : uint256
  pcoinsTip : CoinsView
  mempool : CTxMemPool
  mapOrphanTransactions : List CTransaction
  setPreVerifiedTxHash : List uint256
  setUnVerifiedOrphanTxHash : List uint256
  /-- The misbehaviour score of each peer (`Misbehaving`). -/
  nMisbehavior : ℕ → ℕ

/-- How `ConnectTip` fails: `ConnectBlock` rejected the block, the block does not build on the
tip, or `UpdateTip` threw. -/
inductive ConnectTipError
  | rejected (e : ConnectBlockError)
  | notOnTip
  | exception (what : String)
  deriving DecidableEq, Repr

/-- The events of a node. -/
inductive NodeEvent
  /-- A loose transaction (`ProcessMessage` of `tx`). -/
  | tx (tx : CTransaction)
  /-- A full block (`ProcessNewBlock`). -/
  | block (block : CBlock) (segwitActive : Bool)
  /-- A thin block from peer `pfrom` (`CThinBlock::process`). -/
  | thinBlock (pfrom : ℕ) (header : CBlockHeader) (vTxHashes : List uint256)
      (vMissingTx : List CTransaction) (segwitActive : Bool)
  /-- The end of `HandleBlockMessageThread` with no thin block in flight. -/
  | clearXVal

section Handlers

variable {H : Type} (env : NodeEnv H)

/-- The consensus rules of the block at `height`. -/
def NodeEnv.blockContext (height : ℤ) : BlockContext := { env.blockRules height with nHeight := height }

/-- `ConnectTip(state, chainparams, pindexNew, pblock)`: `ConnectBlock` with the Xpress sets as
they are and the fork flag of the current tip, the hashes Xpress validation used erased from
the sets, `removeForBlock` on the pool, then `UpdateTip` at the new height. -/
def ConnectTip (s : NodeState) (block : CBlock) (segwitActive : Bool) :
    Except ConnectTipError NodeState :=
  if block.header.hashPrevBlock ≠ s.tip then throw .notOnTip
  else do
    let height := s.fork.chainHeight + 1
    let acc ← (ConnectBlock env.sigCrypto env.scriptCrypto s.fork.isMVFHardForkActive
      env.FinalForkId env.GetHash env.Hash env.CheckBlockHeader (env.blockContext height)
      s.setPreVerifiedTxHash s.setUnVerifiedOrphanTxHash block s.pcoinsTip).mapError .rejected
    let fork ← (UpdateTip env.args env.BackupWalletAuto height segwitActive s.fork).mapError
      .exception
    pure { s with
      fork := fork
      tip := env.GetBlockHash block.header
      pcoinsTip := acc.view
      mempool := s.mempool.removeForBlock env.GetHash block.vtx
      setPreVerifiedTxHash := s.setPreVerifiedTxHash.filter fun h => !acc.vHashesToDelete.contains h
      setUnVerifiedOrphanTxHash :=
        s.setUnVerifiedOrphanTxHash.filter fun h => !acc.vHashesToDelete.contains h }

/-- A block handed to validation: connected when it is valid and builds on the tip, ignored
otherwise; an exception of `UpdateTip` stops the node. -/
def processBlock (s : NodeState) (block : CBlock) (segwitActive : Bool) :
    Except String NodeState :=
  match ConnectTip env s block segwitActive with
  | .ok s' => pure s'
  | .error (.exception what) => throw what
  | .error _ => pure s

/-- One hash of `CThinBlock::process`'s loop, with `fXVal` whether the block builds on the tip:
the transaction it resolves to (from the orphan pool, else the pool, else those sent along) and
the Xpress set it enters. A pool transaction enters `setPreVerifiedTxHash` only under `fXVal`;
an orphan always enters `setUnVerifiedOrphanTxHash`. -/
def resolveThinTx (fXVal : Bool) (vMissingTx : List CTransaction) (s : NodeState)
    (hash : uint256) : Option CTransaction × NodeState :=
  if hash = 0 then (none, s)
  else
    let inMemPool := s.mempool.lookup env.GetHash hash
    let inMissingTx := vMissingTx.find? fun tx => env.GetHash tx == hash
    match s.mapOrphanTransactions.find? fun tx => env.GetHash tx == hash with
    | some orphan =>
      (some orphan, { s with setUnVerifiedOrphanTxHash := s.setUnVerifiedOrphanTxHash.insert hash })
    | none =>
      if inMemPool.isSome && fXVal then
        (inMemPool, { s with setPreVerifiedTxHash := s.setPreVerifiedTxHash.insert hash })
      else (inMissingTx.or inMemPool, s)

/-- The loop of `CThinBlock::process` over the block's hashes: the slots of the reassembled
block (`none` for a transaction still missing) and the state with the Xpress sets filled. -/
def ThinBlockResolve (s : NodeState) (header : CBlockHeader) (vTxHashes : List uint256)
    (vMissingTx : List CTransaction) : List (Option CTransaction) × NodeState :=
  let fXVal := header.hashPrevBlock == s.tip
  vTxHashes.foldl (fun (acc : List (Option CTransaction) × NodeState) hash =>
    let (tx, s) := resolveThinTx env fXVal vMissingTx acc.2 hash
    (acc.1 ++ [tx], s)) ([], s)

/-- `Misbehaving(pnode, howmuch)`: raise the peer's misbehaviour score. -/
def NodeState.Misbehaving (s : NodeState) (pnode howmuch : ℕ) : NodeState :=
  { s with nMisbehavior := Function.update s.nMisbehavior pnode (s.nMisbehavior pnode + howmuch) }

/-- `CThinBlock::process` of a thin block from `pfrom`: a header whose merkle root is not that of
the hashes, or a tree with a duplicated subtree, gets the peer charged 100 and nothing else done
(`ComputeMerkleRoot` past `2 ^ 31` hashes is undefined and stops the node). Otherwise, with every
transaction found, the block goes to validation and the orphans it used leave the orphan pool;
with some missing, the full block is requested and `setPreVerifiedTxHash` is cleared. -/
def ThinBlockProcess (s : NodeState) (pfrom : ℕ) (header : CBlockHeader)
    (vTxHashes : List uint256) (vMissingTx : List CTransaction) (segwitActive : Bool) :
    Except String NodeState :=
  match Merkle.ComputeMerkleRoot env.Hash 0 vTxHashes with
  | none => throw "ComputeMerkleRoot"
  | some (merkleroot, mutated) =>
    if header.hashMerkleRoot ≠ merkleroot ∨ mutated then pure (s.Misbehaving pfrom 100)
    else
      let (vtx, s) := ThinBlockResolve env s header vTxHashes vMissingTx
      if vtx.all Option.isSome then do
        let s ← processBlock env s ⟨header, vtx.filterMap id⟩ segwitActive
        pure { s with
          mapOrphanTransactions :=
            s.mapOrphanTransactions.filter fun tx => !vTxHashes.contains (env.GetHash tx) }
      else pure { s with setPreVerifiedTxHash := [] }

/-- One event. A loose transaction the pool turns away changes nothing, unless its inputs are
missing, when it goes to the orphan pool (`AddOrphanTx`). -/
def NodeStep (s : NodeState) : NodeEvent → Except String NodeState
  | .tx tx =>
    match AcceptToMemoryPool env.sigCrypto env.scriptCrypto env.FinalForkId env.GetHash env.policy
        s.fork.isMVFHardForkActive s.fork.chainHeight s.pcoinsTip s.mempool tx with
    | .ok pool => pure { s with mempool := pool }
    | .error .missingInputs => pure { s with mapOrphanTransactions := s.mapOrphanTransactions ++ [tx] }
    | .error _ => pure s
  | .block block segwitActive => processBlock env s block segwitActive
  | .thinBlock pfrom header vTxHashes vMissingTx segwitActive =>
    ThinBlockProcess env s pfrom header vTxHashes vMissingTx segwitActive
  | .clearXVal => pure { s with setPreVerifiedTxHash := [], setUnVerifiedOrphanTxHash := [] }

/-- A run of events. -/
def runNode (s : NodeState) (events : List NodeEvent) : Except String NodeState :=
  events.foldlM (NodeStep env) s

/-- **What connecting a block does.** The block builds on the tip, `ConnectBlock` accepted it
with the sets and fork flag of the state, `UpdateTip` moved the fork state to the new height,
the new tip is the block, the coins are `ConnectBlock`'s view and the pool is what
`removeForBlock` left. -/
theorem ConnectTip_eq_ok {s s' : NodeState} {block : CBlock} {sw : Bool}
    (h : ConnectTip env s block sw = .ok s') :
    block.header.hashPrevBlock = s.tip ∧
      (∃ acc, ConnectBlock env.sigCrypto env.scriptCrypto s.fork.isMVFHardForkActive
          env.FinalForkId env.GetHash env.Hash env.CheckBlockHeader
          (env.blockContext (s.fork.chainHeight + 1)) s.setPreVerifiedTxHash
          s.setUnVerifiedOrphanTxHash block s.pcoinsTip = .ok acc ∧
        s'.pcoinsTip = acc.view) ∧
      UpdateTip env.args env.BackupWalletAuto (s.fork.chainHeight + 1) sw s.fork = .ok s'.fork ∧
      s'.tip = env.GetBlockHash block.header ∧
      s'.mempool = s.mempool.removeForBlock env.GetHash block.vtx := by
  unfold ConnectTip at h
  by_cases hprev : block.header.hashPrevBlock = s.tip
  · rw [if_neg (not_not.2 hprev)] at h
    obtain ⟨acc, hacc, h⟩ := bind_eq_ok.1 h
    obtain ⟨fork, hfork, h⟩ := bind_eq_ok.1 h
    rw [pure_eq_ok, Except.ok.injEq] at h
    subst h
    exact ⟨hprev, ⟨acc, mapError_eq_ok.1 hacc, rfl⟩, mapError_eq_ok.1 hfork, rfl, rfl⟩
  · rw [if_pos hprev] at h
    exact absurd h (by simp)

end Handlers

end MvfBu
