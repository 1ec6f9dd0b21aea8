import Mathlib.Data.List.Nodup
import MvfBu.Node.ForkSwitch
import MvfBu.Node.ThinBlockBytes

set_option autoImplicit false

/-!
# Xtreme thin blocks (`thinblock.cpp` `CXThinBlock`, `CXRequestThinBlockTx`, `CXThinBlockTx`)

An xthin block carries a block's header, the first eight bytes (`GetCheapHash`) of each
transaction's hash, and the transactions the sender expects the receiver to miss. The receiver
(`CXThinBlock::process`) returns at once if it is already validating a block from the peer
(`PV.IsAlreadyValidating`). Otherwise it maps the short hashes of its orphans, its pool and the
transactions sent along to full hashes (`mapPartialTxHash`), and reads the block's full hashes off
that map to check the merkle root before it fills the block's slots, counting each slot's bytes
against the memory limits of `MvfBu.Node.ThinBlockBytes`; a limit hit clears the thin block and
ends the handler. A short hash with no entry, a transaction it does not hold, counts as a
collision: the receiver asks for a regular thin block (`GETDATA` of `MSG_THINBLOCK`) instead. So
when the receiver knows every transaction, and no limit is hit, it hands the block on at once,
and when it misses one it falls back to a thin block.

A slot stays empty after that only for a null hash or a transaction with no inputs and no
outputs. Then `process` sends `get_xblocktx` with the short hashes of the empty slots, the
sender answers with those transactions of the block (`CXRequestThinBlockTx::HandleMessage`), and
the receiver's `CXThinBlockTx::HandleMessage` fills the slots, after checking that it still holds
one short hash per slot. But `process` clears the short hashes (`pfrom->xThinBlockHashes.clear()`)
before it builds the request from them, so the check fails on every answer and the receiver bans
the sender.

## Main definitions

* `MvfBu.GetCheapHash`.
* `MvfBu.ThinPeer` — the receiver's per-peer thin block state.
* `MvfBu.resolveXThinSlots` — the slots `process` resolves, or none for a regular thin block.
* `MvfBu.CXThinBlock.ofBlock`, `MvfBu.CXThinBlock.process`,
  `MvfBu.CXRequestThinBlockTx.HandleMessage`, `MvfBu.CXThinBlockTx.HandleMessage`.
* `MvfBu.xthinExchange` — the three handlers run in turn between a sender and a receiver.

## Main results

* `MvfBu.lookupPartial_partialTxHashes` — with distinct short hashes, the receiver's map finds a
  transaction's hash exactly when the transaction is an orphan, in the pool or sent along.
* `MvfBu.process_ofBlock` — with no block from the peer under validation and the bytes within the
  limit, `process` hands the block on, in order, when the receiver knows every transaction, and
  asks for a regular thin block otherwise.
* `MvfBu.xthinExchange_ofBlock` — under the same conditions the exchange hands the block on
  exactly when the receiver knows every transaction, and never charges the sender.
* `MvfBu.xblocktx_after_rerequest_bans_sender` — once `process` has asked for missing
  transactions, any answer gets the sender banned, its bytes still counted, and no block handed
  on.

## Implementation notes

A slot is `none` for the null transaction. The value `operator[]` returns on the cleared vector
is undefined; it is a parameter `staleHash`, and the results hold for every choice. The peer's
thin block is a `ThinPeer`; the byte counts of all peers are the `CThinBlockData` of
`MvfBu.Node.ThinBlockBytes`, moved by that module's `CXThinBlock.process` and `fillSlots` on the
slots resolved here, with `RecursiveDynamicUsage` a parameter (`nSizeNullTx` for the null
transaction). The thin block state of the other peers that a limit hit may clear, the statistics,
the Xpress validation sets (modelled with `CThinBlock::process` in `MvfBu.Node.Handlers`) and the
rate limit on `get_xblocktx` requests are left out. The maps of the source iterate in key order;
with no collision the resulting map does not depend on the order, and the model inserts in list
order.
-/

namespace MvfBu

/-- `uint256::GetCheapHash`: `ReadLE64(data)`, the low 64 bits of the little-endian number. -/
def GetCheapHash (hash : uint256) : UInt64 := UInt64.ofNat hash.toNat

/-- `CXThinBlock`: a header, the short hashes of the block's transactions, and the transactions
sent along. -/
structure CXThinBlock where
  header : CBlockHeader
  vTxHashes : List UInt64
  vMissingTx : List CTransaction

/-- `CXRequestThinBlockTx`: the block's hash and the short hashes of the transactions asked for
(`get_xblocktx`). -/
structure CXRequestThinBlockTx where
  blockhash : uint256
  setCheapHashesToRequest : List UInt64
  deriving DecidableEq, Repr

/-- `CXThinBlockTx`: the block's hash and the transactions sent (`xblocktx`). -/
structure CXThinBlockTx where
  blockhash : uint256
  vMissingTx : List CTransaction
  deriving DecidableEq, Repr

/-- The receiver's state for one peer: the thin block being assembled (its header, and its slots,
`none` for a null transaction), the short hashes of its slots, how many are still missing (`-1`
when no block waits), the blocks requested from the peer, and the peer's misbehaviour score. -/
structure ThinPeer where
  header : CBlockHeader
  vtx : List (Option CTransaction)
  xThinBlockHashes : List UInt64
  thinBlockWaitingForTxns : ℤ
  mapThinBlocksInFlight : List uint256
  misbehavior : ℕ
  deriving DecidableEq, Repr

/-- `CThinBlockData::ClearThinBlockData(pnode)` on the peer's thin block: no block waits, the
thin block is set null (`SetNull`) and its short hashes are cleared. -/
def ThinPeer.ClearThinBlockData (peer : ThinPeer) : ThinPeer :=
  { peer with thinBlockWaitingForTxns := -1, header := ⟨0, 0⟩, vtx := [], xThinBlockHashes := [] }

/-- What `process` does next: hand the block to validation (`PV.HandleBlockMessage`), ask for a
regular thin block (`GETDATA` of `MSG_THINBLOCK`), ask for the missing transactions, or return
`false` with nothing sent (the peer's block is already being validated, or a memory limit was
hit). -/
inductive XThinAction
  | handleBlock (header : CBlockHeader) (vtx : List CTransaction)
  | getThinBlock
  | getXBlockTx (req : CXRequestThinBlockTx)
  | stop
  deriving DecidableEq, Repr

open ThinBlockBytes (CThinBlockData NodeId TxSlot)

section XThin

variable (GetHash : CTransaction → uint256)

/-- `CXThinBlock(block, filter)`: every transaction's short hash, and the transactions the
receiver's filter does not contain, with the coinbase always. -/
def CXThinBlock.ofBlock (block : CBlock) (filterContains : uint256 → Bool) : CXThinBlock where
  header := block.header
  vTxHashes := block.vtx.map fun tx => GetCheapHash (GetHash tx)
  vMissingTx := (block.vtx.zipIdx.filter fun p => !filterContains (GetHash p.1) || p.2 == 0).map
    Prod.fst

/-- `mapPartialTxHash.find(cheapHash)`: the full hash a short hash maps to. -/
def lookupPartial (map : List (UInt64 × uint256)) (cheapHash : UInt64) : Option uint256 :=
  (map.find? (·.1 == cheapHash)).map Prod.snd

/-- `mapPartialTxHash[hash.GetCheapHash()] = hash`. -/
def insertCheap (map : List (UInt64 × uint256)) (hash : uint256) : List (UInt64 × uint256) :=
  (GetCheapHash hash, hash) :: map.filter (·.1 != GetCheapHash hash)

/-- One entry of `mapPartialTxHash` from the orphans or the pool: a short hash met before is a
collision. -/
def insertPartial (acc : List (UInt64 × uint256) × Bool) (hash : uint256) :
    List (UInt64 × uint256) × Bool :=
  (insertCheap acc.1 hash, acc.2 || (lookupPartial acc.1 (GetCheapHash hash)).isSome)

/-- One entry of `mapPartialTxHash` from the transactions sent along: a short hash met before
is a collision only when its full hash differs. -/
def insertPartialMissing (acc : List (UInt64 × uint256) × Bool) (hash : uint256) :
    List (UInt64 × uint256) × Bool :=
  let existingHash := (lookupPartial acc.1 (GetCheapHash hash)).getD 0
  (insertCheap acc.1 hash, acc.2 || (existingHash != 0 && existingHash != hash))

/-- `mapPartialTxHash` and the collision flag: the orphans, then the pool, then the
transactions sent along. -/
def partialTxHashes (orphans mempool vMissingTx : List CTransaction) :
    List (UInt64 × uint256) × Bool :=
  let acc := (orphans.map GetHash).foldl insertPartial ([], false)
  let acc := (mempool.map GetHash).foldl insertPartial acc
  (vMissingTx.map GetHash).foldl insertPartialMissing acc

/-- The full hashes of the block's short hashes, each entry used once; `none` when a short hash
has no entry (a missing or repeated transaction, which `process` counts as a collision). -/
def fullTxHashes : List (UInt64 × uint256) → List UInt64 → Option (List uint256)
  | _, [] => some []
  | map, cheapHash :: rest =>
    match lookupPartial map cheapHash with
    | some hash => (fullTxHashes (map.filter (·.1 != cheapHash)) rest).map (hash :: ·)
    | none => none

/-- The slot a full hash fills: the orphan; else, when the block builds on the tip (`fXVal`),
the pool's; else the one sent along, or the pool's. `none` stands for the null transaction: the
null hash, a hash found nowhere, or a transaction with no inputs and no outputs. -/
def resolveXThinTx (fXVal : Bool) (orphans mempool vMissingTx : List CTransaction)
    (hash : uint256) : Option CTransaction :=
  if hash = 0 then none
  else
    let byHash := fun (tx : CTransaction) => GetHash tx == hash
    let inMemPool := mempool.find? byHash
    let tx := (orphans.find? byHash).or
      (if inMemPool.isSome && fXVal then inMemPool else (vMissingTx.find? byHash).or inMemPool)
    tx.filter fun tx => !tx.IsNull

variable (GetBlockHash : CBlockHeader → uint256)
  (ComputeMerkleRoot : List uint256 → uint256 × Bool)

/-- The slots `process` fills, or `none` when it asks for a regular thin block instead: a
collision, a short hash with no entry, or a merkle root of the full hashes that is not the
header's. -/
def resolveXThinSlots (fXVal : Bool) (orphans mempool : List CTransaction) (msg : CXThinBlock) :
    Option (List (Option CTransaction)) :=
  let (map, collision) := partialTxHashes GetHash orphans mempool msg.vMissingTx
  match (if collision then none else fullTxHashes map msg.vTxHashes) with
  | none => none
  | some hashes =>
    let (merkleroot, mutated) := ComputeMerkleRoot hashes
    if msg.header.hashMerkleRoot ≠ merkleroot ∨ mutated then none
    else some (hashes.map (resolveXThinTx GetHash fXVal orphans mempool msg.vMissingTx))

variable (maxAllowedSize nSizeNullTx : ℕ) (RecursiveDynamicUsage : CTransaction → ℕ)

/-- What the byte count sees of a slot: whether it holds a transaction, and the
`RecursiveDynamicUsage` of what it holds, `nSizeNullTx` for the null transaction (a transaction
with no inputs and no outputs uses as much). -/
def slotBytes (slot : Option CTransaction) : TxSlot :=
  ⟨slot.isSome, (slot.map RecursiveDynamicUsage).getD nSizeNullTx⟩

/-- `CXThinBlock::process(pfrom, ...)` on a receiver with orphans `orphans` and pool `mempool`,
the peer's thin block state `peer` and the byte counts `d` (`MvfBu.Node.ThinBlockBytes`, with the
limit `maxAllowedSize`). `alreadyValidating` is `PV.IsAlreadyValidating(pfrom->id)`, and
`staleHash i` is what `pfrom->xThinBlockHashes[i]` reads once the vector has been cleared. -/
def CXThinBlock.process (alreadyValidating : Bool) (staleHash : ℕ → UInt64) (tip : uint256)
    (orphans mempool : List CTransaction) (msg : CXThinBlock) (peer : ThinPeer)
    (d : CThinBlockData) (pfrom : NodeId) : ThinPeer × CThinBlockData × XThinAction :=
  if alreadyValidating then (peer, d, .stop)
  else
    let fXVal := msg.header.hashPrevBlock == tip
    let peer := { peer.ClearThinBlockData with header := msg.header, xThinBlockHashes := msg.vTxHashes }
    let slots := resolveXThinSlots GetHash ComputeMerkleRoot fXVal orphans mempool msg
    -- the byte count of the same run: the short hashes, then each slot as it is pushed
    let counted := ThinBlockBytes.CXThinBlock.process maxAllowedSize false msg.vTxHashes
      (slots.map (·.map (slotBytes nSizeNullTx RecursiveDynamicUsage))) d pfrom
    match slots with
    | none => (peer.ClearThinBlockData, counted.1, .getThinBlock)
    | some vtx =>
      -- a memory limit was hit: the thin block is cleared and the peer disconnected
      if !counted.2 then (peer.ClearThinBlockData, counted.1, .stop)
      else
        -- the short hashes are cleared before the request below reads them
        let peer := { peer with vtx := vtx, xThinBlockHashes := [] }
        let missingCount := vtx.countP Option.isNone
        if missingCount = 0 then
          ({ peer with thinBlockWaitingForTxns := -1 }, counted.1,
            .handleBlock msg.header (vtx.filterMap id))
        else
          ({ peer with thinBlockWaitingForTxns := missingCount }, counted.1,
            .getXBlockTx ⟨GetBlockHash msg.header,
              ((vtx.zipIdx.filter fun p => p.1.isNone).map fun p => staleHash p.2).dedup⟩)

/-- `CXRequestThinBlockTx::HandleMessage` on a sender that holds `block`: the transactions of
the block whose short hash is asked for, or the misbehaviour score charged to the requester. -/
def CXRequestThinBlockTx.HandleMessage (block : CBlock) (req : CXRequestThinBlockTx) :
    Except ℕ CXThinBlockTx :=
  if req.setCheapHashesToRequest.isEmpty || req.blockhash == 0 then throw 100
  else if req.blockhash ≠ GetBlockHash block.header then throw 20
  else pure ⟨req.blockhash, block.vtx.filter fun tx =>
    req.setCheapHashesToRequest.contains (GetCheapHash (GetHash tx))⟩

/-- The slot `i` of the thin block after an `xblocktx`: an empty slot takes the transaction
sent whose short hash is the slot's. -/
def fillSlot (xThinBlockHashes : List UInt64) (mapMissingTx : List (UInt64 × CTransaction))
    (p : Option CTransaction × ℕ) : Option CTransaction :=
  match p.1 with
  | some tx => some tx
  | none => ((mapMissingTx.find? (·.1 == xThinBlockHashes.getD p.2 0)).map Prod.snd)

/-- `CXThinBlockTx::HandleMessage(vRecv, pfrom)`: a peer that does not do thin blocks
(`fThinBlockCapable` false) is charged 100; a message without transactions, without a block
hash, or for a thin block whose slots and short hashes disagree in number bans the sender
(`Misbehaving(100)`) and drops the block, its bytes still counted; an answer not asked for is
ignored; otherwise the empty slots are filled, each filled slot's bytes over the null
transaction's counted against the limit (a hit that clears this peer's thin block ends the
handler), and the block goes to validation once none is left. -/
def CXThinBlockTx.HandleMessage (fThinBlockCapable : Bool) (msg : CXThinBlockTx)
    (peer : ThinPeer) (d : CThinBlockData) (pfrom : NodeId) :
    ThinPeer × CThinBlockData × Option (CBlockHeader × List CTransaction) :=
  if !fThinBlockCapable then ({ peer with misbehavior := peer.misbehavior + 100 }, d, none)
  else if msg.vMissingTx.isEmpty || msg.blockhash == 0 ||
      peer.xThinBlockHashes.length != peer.vtx.length then
    ({ peer with
      mapThinBlocksInFlight := peer.mapThinBlocksInFlight.erase msg.blockhash
      thinBlockWaitingForTxns := -1
      header := ⟨0, 0⟩
      vtx := []
      misbehavior := peer.misbehavior + 100 }, d, none)
  else if !peer.mapThinBlocksInFlight.contains msg.blockhash then (peer, d, none)
  else
    -- `mapMissingTx` keyed by short hash, the last transaction sent winning
    let mapMissingTx := (msg.vMissingTx.map fun tx => (GetCheapHash (GetHash tx), tx)).reverse
    let counted := ThinBlockBytes.fillSlots maxAllowedSize nSizeNullTx
      (ThinBlockBytes.lookupMissing
        (msg.vMissingTx.map fun tx => (GetCheapHash (GetHash tx), RecursiveDynamicUsage tx)))
      pfrom 0 ((peer.vtx.map Option.isSome).zip peer.xThinBlockHashes) d
    if counted.2 then (peer.ClearThinBlockData, counted.1, none)
    else
      let vtx := peer.vtx.zipIdx.map (fillSlot peer.xThinBlockHashes mapMissingTx)
      let filled := (peer.vtx.countP Option.isNone : ℤ) - vtx.countP Option.isNone
      let waiting := peer.thinBlockWaitingForTxns - filled
      if waiting = 0 then
        ({ peer with vtx := vtx, thinBlockWaitingForTxns := -1 }, counted.1,
          some (peer.header, vtx.filterMap id))
      else ({ peer with vtx := vtx, thinBlockWaitingForTxns := waiting }, counted.1, none)

/-- An xthin block relayed from a sender holding `block` to a receiver whose filter is
`filterContains`: the receiver runs `process`; when it asks for missing transactions the sender
answers (`CXRequestThinBlockTx::HandleMessage`) and the receiver handles the answer
(`CXThinBlockTx::HandleMessage`); a request the sender refuses gets no answer. The receiver's
peer state, its byte counts, and the block it hands to validation. -/
def xthinExchange (alreadyValidating fThinBlockCapable : Bool) (staleHash : ℕ → UInt64)
    (tip : uint256) (orphans mempool : List CTransaction) (block : CBlock)
    (filterContains : uint256 → Bool) (peer : ThinPeer) (d : CThinBlockData) (pfrom : NodeId) :
    ThinPeer × CThinBlockData × Option (CBlockHeader × List CTransaction) :=
  match CXThinBlock.process GetHash GetBlockHash ComputeMerkleRoot maxAllowedSize nSizeNullTx
      RecursiveDynamicUsage alreadyValidating staleHash tip orphans mempool
      (CXThinBlock.ofBlock GetHash block filterContains) peer d pfrom with
  | (peer, d, .handleBlock header vtx) => (peer, d, some (header, vtx))
  | (peer, d, .getThinBlock) => (peer, d, none)
  | (peer, d, .stop) => (peer, d, none)
  | (peer, d, .getXBlockTx req) =>
    match CXRequestThinBlockTx.HandleMessage GetHash GetBlockHash block req with
    | .ok reply => CXThinBlockTx.HandleMessage GetHash maxAllowedSize nSizeNullTx
        RecursiveDynamicUsage fThinBlockCapable reply peer d pfrom
    | .error _ => (peer, d, none)

/-! ## The short-hash map -/

section ShortHashMap

theorem lookupPartial_cons (entry : UInt64 × uint256) (map : List (UInt64 × uint256))
    (c : UInt64) :
    lookupPartial (entry :: map) c = if entry.1 = c then some entry.2 else lookupPartial map c := by
  by_cases h : entry.1 = c <;> simp [lookupPartial, h]

@[simp] theorem lookupPartial_nil (c : UInt64) : lookupPartial [] c = none := rfl

/-- Dropping the entries of `c` hides `c` and nothing else. -/
theorem lookupPartial_filter (map : List (UInt64 × uint256)) (c c' : UInt64) :
    lookupPartial (map.filter (·.1 != c)) c' = if c' = c then none else lookupPartial map c' := by
  induction map with
  | nil => simp
  | cons entry rest ih =>
    by_cases hc : entry.1 = c
    · rw [List.filter_cons_of_neg (by simp [hc]), ih, lookupPartial_cons]
      by_cases hc' : c' = c
      · simp [hc']
      · simp [hc', hc, Ne.symm hc']
    · rw [List.filter_cons_of_pos (by simp [hc]), lookupPartial_cons, ih, lookupPartial_cons]
      by_cases hc' : c' = c
      · simp [hc', hc]
      · simp [hc']

theorem lookupPartial_insertCheap (map : List (UInt64 × uint256)) (hash : uint256) (c : UInt64) :
    lookupPartial (insertCheap map hash) c =
      if GetCheapHash hash = c then some hash else lookupPartial map c := by
  rw [insertCheap, lookupPartial_cons, lookupPartial_filter]
  by_cases h : GetCheapHash hash = c
  · simp [h]
  · simp [h, Ne.symm h]

/-- **The map after a loop of insertions.** A short hash finds the last hash inserted under it,
else what it found before.

**Proof sketch.** Induction on the hashes, the map generalised; one insertion is
`lookupPartial_insertCheap`. -/
theorem lookupPartial_foldl_insertCheap (hashes : List uint256) (map : List (UInt64 × uint256))
    (c : UInt64) :
    lookupPartial (hashes.foldl insertCheap map) c =
      (hashes.reverse.find? fun h => GetCheapHash h == c).or (lookupPartial map c) := by
  induction hashes generalizing map with
  | nil => simp
  | cons h rest ih =>
    rw [List.foldl_cons, ih, lookupPartial_insertCheap, List.reverse_cons, List.find?_append]
    by_cases hc : GetCheapHash h = c <;> simp [hc]

/-- Every entry of the map built from `hashes` is one of them, under its own short hash. -/
theorem lookupPartial_foldl_insertCheap_eq_some {hashes : List uint256} {c : UInt64}
    {hash : uint256} (hl : lookupPartial (hashes.foldl insertCheap []) c = some hash) :
    hash ∈ hashes ∧ GetCheapHash hash = c := by
  rw [lookupPartial_foldl_insertCheap, lookupPartial_nil, Option.or_none] at hl
  exact ⟨List.mem_reverse.1 (List.mem_of_find?_eq_some hl), by simpa using List.find?_some hl⟩

/-- Every hash of `hashes` has an entry under its short hash. -/
theorem lookupPartial_foldl_insertCheap_isSome {hashes : List uint256} {hash : uint256}
    (hmem : hash ∈ hashes) :
    (lookupPartial (hashes.foldl insertCheap []) (GetCheapHash hash)).isSome := by
  rw [lookupPartial_foldl_insertCheap, lookupPartial_nil, Option.or_none, List.find?_isSome]
  exact ⟨hash, List.mem_reverse.2 hmem, by simp⟩

/-- The three loops of `process` build the map as `insertCheap` does; they differ only in the
collision flag. -/
theorem foldl_fst_of_insertCheap
    {f : List (UInt64 × uint256) × Bool → uint256 → List (UInt64 × uint256) × Bool}
    (hf : ∀ acc hash, (f acc hash).1 = insertCheap acc.1 hash) (hashes : List uint256)
    (acc : List (UInt64 × uint256) × Bool) :
    (hashes.foldl f acc).1 = hashes.foldl insertCheap acc.1 := by
  induction hashes generalizing acc with
  | nil => rfl
  | cons hash rest ih => rw [List.foldl_cons, ih, hf, List.foldl_cons]

/-- The loops over the orphans and the pool flag no collision when no short hash repeats and
none is in the map yet. -/
theorem foldl_insertPartial_snd {hashes : List uint256} (hnodup : (hashes.map GetCheapHash).Nodup)
    (acc : List (UInt64 × uint256) × Bool)
    (hfresh : ∀ h ∈ hashes, lookupPartial acc.1 (GetCheapHash h) = none) :
    (hashes.foldl insertPartial acc).2 = acc.2 := by
  induction hashes generalizing acc with
  | nil => rfl
  | cons h rest ih =>
    rw [List.map_cons, List.nodup_cons] at hnodup
    have hstep : (insertPartial acc h).2 = acc.2 := by
      simp [insertPartial, hfresh h List.mem_cons_self]
    rw [List.foldl_cons, ih hnodup.2, hstep]
    -- the new entry sits under `h`'s short hash, which no later hash shares
    intro h' hmem
    have hne : GetCheapHash h ≠ GetCheapHash h' := fun heq =>
      hnodup.1 (heq ▸ List.mem_map_of_mem hmem)
    show lookupPartial (insertCheap acc.1 h) _ = none
    rw [lookupPartial_insertCheap, if_neg hne]
    exact hfresh h' (List.mem_cons_of_mem _ hmem)

/-- The loop over the transactions sent along flags no collision when every entry met under a
hash's short hash is that hash. -/
theorem foldl_insertPartialMissing_snd {hashes : List uint256}
    (hinj : ∀ h₁ ∈ hashes, ∀ h₂ ∈ hashes, GetCheapHash h₁ = GetCheapHash h₂ → h₁ = h₂)
    (acc : List (UInt64 × uint256) × Bool)
    (hsame : ∀ h ∈ hashes, ∀ h', lookupPartial acc.1 (GetCheapHash h) = some h' → h' = h) :
    (hashes.foldl insertPartialMissing acc).2 = acc.2 := by
  induction hashes generalizing acc with
  | nil => rfl
  | cons h rest ih =>
    have hstep : (insertPartialMissing acc h).2 = acc.2 := by
      cases hl : lookupPartial acc.1 (GetCheapHash h) with
      | none => simp [insertPartialMissing, hl]
      | some h' => simp [insertPartialMissing, hl, hsame h List.mem_cons_self h' hl]
    rw [List.foldl_cons, ih (fun h₁ m₁ h₂ m₂ => hinj h₁ (List.mem_cons_of_mem _ m₁) h₂
      (List.mem_cons_of_mem _ m₂)), hstep]
    intro h₂ hmem h' hl
    change lookupPartial (insertCheap acc.1 h) _ = _ at hl
    rw [lookupPartial_insertCheap] at hl
    by_cases hc : GetCheapHash h = GetCheapHash h₂
    · rw [if_pos hc, Option.some.injEq] at hl
      exact hl ▸ hinj h List.mem_cons_self h₂ (List.mem_cons_of_mem _ hmem) hc
    · rw [if_neg hc] at hl
      exact hsame h₂ (List.mem_cons_of_mem _ hmem) h' hl

/-- Each short hash of `hashes`, found in the map under its own hash, gives back `hashes`. -/
theorem fullTxHashes_map {hashes : List uint256} (hnodup : (hashes.map GetCheapHash).Nodup)
    (map : List (UInt64 × uint256))
    (hlook : ∀ h ∈ hashes, lookupPartial map (GetCheapHash h) = some h) :
    fullTxHashes map (hashes.map GetCheapHash) = some hashes := by
  induction hashes generalizing map with
  | nil => rfl
  | cons h rest ih =>
    rw [List.map_cons, List.nodup_cons] at hnodup
    rw [List.map_cons, fullTxHashes, hlook h List.mem_cons_self]
    -- the entry used is dropped; the later short hashes differ from it
    have hrest : ∀ h' ∈ rest,
        lookupPartial (map.filter (·.1 != GetCheapHash h)) (GetCheapHash h') = some h' := by
      intro h' hmem
      have hne : GetCheapHash h' ≠ GetCheapHash h := fun heq =>
        hnodup.1 (heq ▸ List.mem_map_of_mem hmem)
      rw [lookupPartial_filter, if_neg hne]
      exact hlook h' (List.mem_cons_of_mem _ hmem)
    rw [ih hnodup.2 _ hrest]
    rfl

/-- A short hash with no entry makes `fullTxHashes` fail. -/
theorem fullTxHashes_eq_none {cheapHashes : List UInt64} {c : UInt64} (hc : c ∈ cheapHashes) :
    ∀ map : List (UInt64 × uint256), lookupPartial map c = none →
      fullTxHashes map cheapHashes = none := by
  induction cheapHashes with
  | nil => simp at hc
  | cons c₀ rest ih =>
    intro map hnone
    rw [fullTxHashes]
    cases hl : lookupPartial map c₀ with
    | none => rfl
    | some hash =>
      -- `c` is not `c₀`, whose entry exists; dropping `c₀`'s entries keeps `c` unfound
      have hmem : c ∈ rest := by
        rcases List.mem_cons.1 hc with rfl | hmem
        · rw [hnone] at hl; cases hl
        · exact hmem
      have hnone' : lookupPartial (map.filter (·.1 != c₀)) c = none := by
        rw [lookupPartial_filter]
        split_ifs
        · rfl
        · exact hnone
      dsimp only
      rw [ih hmem _ hnone']
      rfl

end ShortHashMap

/-! ## Reassembly of a block the receiver knows -/

section Reassembly

variable {GetHash} {U orphans mempool vMissingTx : List CTransaction}

theorem partialTxHashes_fst (orphans mempool vMissingTx : List CTransaction) :
    (partialTxHashes GetHash orphans mempool vMissingTx).1 =
      ((orphans ++ mempool ++ vMissingTx).map GetHash).foldl insertCheap [] := by
  rw [partialTxHashes, foldl_fst_of_insertCheap (fun _ _ => rfl),
    foldl_fst_of_insertCheap (fun _ _ => rfl), foldl_fst_of_insertCheap (fun _ _ => rfl),
    List.map_append, List.map_append, List.foldl_append, List.foldl_append]

/-- The transactions of `U` have distinct short hashes: no two distinct transactions of `U`
share a `GetCheapHash` of their hashes, so that no two share a hash either. -/
def CheapHashInjOn (GetHash : CTransaction → uint256) (U : List CTransaction) : Prop :=
  ∀ t₁ ∈ U, ∀ t₂ ∈ U, GetCheapHash (GetHash t₁) = GetCheapHash (GetHash t₂) → t₁ = t₂

theorem CheapHashInjOn.hash_eq (hinj : CheapHashInjOn GetHash U) {t₁ t₂ : CTransaction}
    (h₁ : t₁ ∈ U) (h₂ : t₂ ∈ U) (h : GetHash t₁ = GetHash t₂) : t₁ = t₂ :=
  hinj t₁ h₁ t₂ h₂ (congrArg GetCheapHash h)

/-- Two hashes of transactions of `U` with one short hash are one hash. -/
theorem CheapHashInjOn.cheap_eq (hinj : CheapHashInjOn GetHash U) {L : List CTransaction}
    (hsub : L ⊆ U) : ∀ h₁ ∈ L.map GetHash, ∀ h₂ ∈ L.map GetHash,
      GetCheapHash h₁ = GetCheapHash h₂ → h₁ = h₂ := by
  intro h₁ m₁ h₂ m₂ hc
  obtain ⟨t₁, ht₁, rfl⟩ := List.mem_map.1 m₁
  obtain ⟨t₂, ht₂, rfl⟩ := List.mem_map.1 m₂
  rw [hinj t₁ (hsub ht₁) t₂ (hsub ht₂) hc]

section
variable (hinj : CheapHashInjOn GetHash U) (hsub : orphans ++ mempool ++ vMissingTx ⊆ U)
include hinj hsub

/-- **No collision.** With the orphans and the pool distinct and the short hashes of `U`
distinct, `process` flags no collision.

**Proof sketch.** The orphans and the pool have distinct short hashes, so their loops flag
nothing (`foldl_insertPartial_snd`); an entry met by a transaction sent along is one of them
with its short hash, hence its own hash (`foldl_insertPartialMissing_snd`). -/
theorem partialTxHashes_snd (hpool : (orphans ++ mempool).Nodup) :
    (partialTxHashes GetHash orphans mempool vMissingTx).2 = false := by
  have hpoolSub : orphans ++ mempool ⊆ U := fun t ht => hsub (List.mem_append_left _ ht)
  have hmissSub : vMissingTx ⊆ U := fun t ht => hsub (List.mem_append_right _ ht)
  -- the two loops over the pool as one
  have hloop : (mempool.map GetHash).foldl insertPartial ((orphans.map GetHash).foldl
      insertPartial ([], false)) = ((orphans ++ mempool).map GetHash).foldl insertPartial ([], false) := by
    rw [List.map_append, List.foldl_append]
  have hnodup : (((orphans ++ mempool).map GetHash).map GetCheapHash).Nodup := by
    rw [List.map_map]
    exact List.Nodup.map_on (fun t₁ h₁ t₂ h₂ hc => hinj t₁ (hpoolSub h₁) t₂ (hpoolSub h₂) hc) hpool
  have hpoolFlag := foldl_insertPartial_snd hnodup ([], false) (fun _ _ => rfl)
  unfold partialTxHashes
  dsimp only
  rw [hloop, foldl_insertPartialMissing_snd (hinj.cheap_eq hmissSub), hpoolFlag]
  -- an entry under a sent transaction's short hash is a pool hash, hence that transaction's
  intro h hmem h' hl
  rw [foldl_fst_of_insertCheap (fun _ _ => rfl)] at hl
  obtain ⟨hmem', hc⟩ := lookupPartial_foldl_insertCheap_eq_some hl
  exact hinj.cheap_eq hsub h'
    (by simp only [List.map_append, List.mem_append] at hmem' ⊢; exact .inl hmem')
    h (by simp only [List.map_append, List.mem_append]; exact .inr hmem) hc

/-- **The map of `process`.** A transaction of `U` finds its own hash under its short hash
exactly when it is an orphan, in the pool or sent along. -/
theorem lookupPartial_partialTxHashes {t : CTransaction} (ht : t ∈ U) :
    lookupPartial (partialTxHashes GetHash orphans mempool vMissingTx).1
        (GetCheapHash (GetHash t)) =
      if t ∈ orphans ++ mempool ++ vMissingTx then some (GetHash t) else none := by
  rw [partialTxHashes_fst]
  split_ifs with hknown
  · obtain ⟨h, hl⟩ := Option.isSome_iff_exists.1
      (lookupPartial_foldl_insertCheap_isSome (List.mem_map_of_mem hknown))
    obtain ⟨hmem, hc⟩ := lookupPartial_foldl_insertCheap_eq_some hl
    obtain ⟨t', ht', rfl⟩ := List.mem_map.1 hmem
    rw [hl, hinj t' (hsub ht') t ht hc]
  · -- an entry would be the hash of a known transaction with `t`'s short hash, that is `t`
    cases hl : lookupPartial (((orphans ++ mempool ++ vMissingTx).map GetHash).foldl insertCheap [])
        (GetCheapHash (GetHash t)) with
    | none => rfl
    | some h =>
      obtain ⟨hmem, hc⟩ := lookupPartial_foldl_insertCheap_eq_some hl
      obtain ⟨t', ht', rfl⟩ := List.mem_map.1 hmem
      exact absurd (hinj t' (hsub ht') t ht hc ▸ ht') hknown

/-- **Resolution.** A known transaction that is not null, with a non-null hash, is what its
hash resolves to, whether it is an orphan, in the pool or sent along. -/
theorem resolveXThinTx_of_mem (fXVal : Bool) {t : CTransaction}
    (ht : t ∈ orphans ++ mempool ++ vMissingTx) (hhash : GetHash t ≠ 0) (hnull : t.IsNull = false) :
    resolveXThinTx GetHash fXVal orphans mempool vMissingTx (GetHash t) = some t := by
  -- each of the three lists finds `t` when it holds it, and nothing otherwise
  have hfind : ∀ l, l ⊆ orphans ++ mempool ++ vMissingTx →
      l.find? (fun tx => GetHash tx == GetHash t) = if t ∈ l then some t else none := by
    intro l hl
    split_ifs with hmem
    · have hsome : (l.find? fun tx => GetHash tx == GetHash t).isSome :=
        List.find?_isSome.2 ⟨t, hmem, by simp⟩
      obtain ⟨x, hx⟩ := Option.isSome_iff_exists.1 hsome
      rw [hx, hinj.hash_eq (hsub (hl (List.mem_of_find?_eq_some hx))) (hsub ht)
        (by simpa using List.find?_some hx)]
    · rw [List.find?_eq_none]
      intro x hx heq
      exact hmem (hinj.hash_eq (hsub (hl hx)) (hsub ht) (by simpa using heq) ▸ hx)
  unfold resolveXThinTx
  rw [if_neg hhash]
  dsimp only
  rw [hfind orphans (fun x hx => by simp [hx]), hfind mempool (fun x hx => by simp [hx]),
    hfind vMissingTx (fun x hx => by simp [hx])]
  simp only [List.mem_append] at ht
  by_cases ho : t ∈ orphans <;> by_cases hm : t ∈ mempool <;> by_cases hv : t ∈ vMissingTx <;>
    simp_all

end

end Reassembly

/-! ## What `process` does -/

variable {GetHash GetBlockHash ComputeMerkleRoot maxAllowedSize nSizeNullTx RecursiveDynamicUsage}
  {staleHash : ℕ → UInt64} {tip : uint256} {orphans mempool : List CTransaction}
  {msg : CXThinBlock} {d : CThinBlockData} {pfrom : NodeId}

/-- `process` never charges the sender. -/
theorem process_misbehavior (alreadyValidating : Bool) (peer : ThinPeer) :
    (CXThinBlock.process GetHash GetBlockHash ComputeMerkleRoot maxAllowedSize nSizeNullTx
      RecursiveDynamicUsage alreadyValidating staleHash tip orphans mempool msg peer d
      pfrom).1.misbehavior = peer.misbehavior := by
  unfold CXThinBlock.process ThinPeer.ClearThinBlockData
  split_ifs
  · rfl
  · dsimp only
    split
    · rfl
    · split_ifs <;> rfl

/-- When the short hashes do not all find an entry, no slot is resolved. -/
theorem resolveXThinSlots_of_fullTxHashes_eq_none {fXVal : Bool}
    (h : fullTxHashes (partialTxHashes GetHash orphans mempool msg.vMissingTx).1 msg.vTxHashes =
      none) :
    resolveXThinSlots GetHash ComputeMerkleRoot fXVal orphans mempool msg = none := by
  unfold resolveXThinSlots
  rcases hp : partialTxHashes GetHash orphans mempool msg.vMissingTx with ⟨map, collision⟩
  rw [hp] at h
  dsimp only at h ⊢
  cases collision
  · rw [if_neg Bool.false_ne_true, h]
  · rfl

/-- When the short hashes find the full hashes `hashes` with no collision, and their merkle root
is the header's, each slot is what its hash resolves to. -/
theorem resolveXThinSlots_of_fullTxHashes_eq_some {fXVal : Bool} {hashes : List uint256}
    (hflag : (partialTxHashes GetHash orphans mempool msg.vMissingTx).2 = false)
    (h : fullTxHashes (partialTxHashes GetHash orphans mempool msg.vMissingTx).1 msg.vTxHashes =
      some hashes)
    (hmerkle : ComputeMerkleRoot hashes = (msg.header.hashMerkleRoot, false)) :
    resolveXThinSlots GetHash ComputeMerkleRoot fXVal orphans mempool msg =
      some (hashes.map (resolveXThinTx GetHash fXVal orphans mempool msg.vMissingTx)) := by
  unfold resolveXThinSlots
  rcases hp : partialTxHashes GetHash orphans mempool msg.vMissingTx with ⟨map, collision⟩
  rw [hp] at h hflag
  dsimp only at h hflag ⊢
  subst hflag
  rw [if_neg Bool.false_ne_true, h]
  dsimp only
  rw [hmerkle]
  simp

/-- With no slots resolved, `process` asks for a regular thin block. -/
theorem process_of_resolveXThinSlots_eq_none {peer : ThinPeer}
    (h : resolveXThinSlots GetHash ComputeMerkleRoot (msg.header.hashPrevBlock == tip) orphans
      mempool msg = none) :
    (CXThinBlock.process GetHash GetBlockHash ComputeMerkleRoot maxAllowedSize nSizeNullTx
      RecursiveDynamicUsage false staleHash tip orphans mempool msg peer d pfrom).2.2 =
      .getThinBlock := by
  unfold CXThinBlock.process
  simp only [Bool.false_eq_true, if_false, h]

/-- **`process` hands a complete block on.** When every slot is resolved to a transaction and the
byte count, the short hashes and twice the slots' bytes stay within `maxAllowedSize`, no limit is
hit and `process` hands the block on.

**Proof sketch.** The byte count meets no limit (`CXThinBlock.process_snd_of_le` of
`MvfBu.Node.ThinBlockBytes`), and no slot is empty. -/
theorem process_of_resolveXThinSlots_eq_some {peer : ThinPeer} {vtx : List (Option CTransaction)}
    (h : resolveXThinSlots GetHash ComputeMerkleRoot (msg.header.hashPrevBlock == tip) orphans
      mempool msg = some vtx)
    (hfound : ∀ slot ∈ vtx, slot.isSome)
    (hbytes : d.nThinBlockBytes + 8 * msg.vTxHashes.length +
      2 * ((vtx.map (slotBytes nSizeNullTx RecursiveDynamicUsage)).map TxSlot.nTxSize).sum ≤
        maxAllowedSize) :
    (CXThinBlock.process GetHash GetBlockHash ComputeMerkleRoot maxAllowedSize nSizeNullTx
      RecursiveDynamicUsage false staleHash tip orphans mempool msg peer d pfrom).2.2 =
      .handleBlock msg.header (vtx.filterMap id) := by
  have hcounted : (ThinBlockBytes.CXThinBlock.process maxAllowedSize false msg.vTxHashes
      (some (vtx.map (slotBytes nSizeNullTx RecursiveDynamicUsage))) d pfrom).2 = true :=
    ThinBlockBytes.CXThinBlock.process_snd_of_le maxAllowedSize msg.vTxHashes _ hbytes
  have hnone : vtx.countP Option.isNone = 0 := by
    rw [List.countP_eq_zero]
    intro slot hslot
    simpa [Option.isSome_iff_ne_none] using hfound slot hslot
  unfold CXThinBlock.process
  simp only [Bool.false_eq_true, if_false, h, Option.map_some, hcounted, Bool.not_true, hnone]
  rfl

end XThin

/-! ## Runs at height eleven -/

/-- The sum of the hashes, standing for the merkle root in the runs below. -/
def sumMerkleRoot (hashes : List uint256) : uint256 × Bool := (hashes.foldl (· + ·) 0, false)

/-- The transactions of the block at height `11` of `MvfBu.Node.ForkSwitch`, with the merkle
root `sumMerkleRoot` of their hashes. -/
def xthinBlock : CBlock :=
  ⟨⟨10, (sumMerkleRoot [serialHash (coinbaseAt 11), serialHash legacySpendTx]).1⟩,
    [coinbaseAt 11, legacySpendTx]⟩

/-- A receiver's filter that holds `legacySpendTx`: the xthin block sends only the coinbase
along. -/
def xthinFilter (hash : uint256) : Bool := hash == serialHash legacySpendTx

/-- The receiver's peer state before the xthin block: the block is in flight from the peer. -/
def xthinPeer : ThinPeer := ⟨⟨0, 0⟩, [], [], -1, [forkEnv.GetBlockHash xthinBlock.header], 0⟩

/-- The receiver's byte counts before the xthin block: peer `0` alone, no bytes held. -/
def xthinBytes : CThinBlockData := ⟨[0], fun _ => ThinBlockBytes.ThinNode.new, 0⟩

/-- A transaction with no inputs and no outputs (`CTransaction::IsNull`). -/
def nullTx : CTransaction := ⟨1, [], [], 0⟩

/-- The block at height `11` with `nullTx` after the coinbase. -/
def nullTxBlock : CBlock :=
  ⟨⟨10, (sumMerkleRoot [serialHash (coinbaseAt 11), serialHash nullTx]).1⟩, [coinbaseAt 11, nullTx]⟩

/-! ## Xthin reassembly -/

section Reassemble

variable {GetHash : CTransaction → uint256} {GetBlockHash : CBlockHeader → uint256}
  {ComputeMerkleRoot : List uint256 → uint256 × Bool} {maxAllowedSize nSizeNullTx : ℕ}
  {RecursiveDynamicUsage : CTransaction → ℕ} {staleHash : ℕ → UInt64} {tip : uint256}
  {orphans mempool : List CTransaction} {d : CThinBlockData} {pfrom : NodeId}

theorem CXThinBlock.ofBlock_vMissingTx_subset (B : CBlock) (filterContains : uint256 → Bool) :
    (CXThinBlock.ofBlock GetHash B filterContains).vMissingTx ⊆ B.vtx := by
  intro t ht
  obtain ⟨p, hp, rfl⟩ := List.mem_map.1 ht
  exact List.fst_mem_of_mem_zipIdx (List.mem_filter.1 hp).1

/-- The receiver's pool with what a block's xthin block sends along is within the pool and the
block. -/
theorem CXThinBlock.ofBlock_pool_subset (B : CBlock) (filterContains : uint256 → Bool) :
    orphans ++ mempool ++ (CXThinBlock.ofBlock GetHash B filterContains).vMissingTx ⊆
      orphans ++ mempool ++ B.vtx := by
  intro t ht
  simp only [List.mem_append] at ht ⊢
  rcases ht with ht | ht
  · exact .inl ht
  · exact .inr (CXThinBlock.ofBlock_vMissingTx_subset B filterContains ht)

theorem CXThinBlock.ofBlock_vTxHashes (B : CBlock) (filterContains : uint256 → Bool) :
    (CXThinBlock.ofBlock GetHash B filterContains).vTxHashes =
      (B.vtx.map GetHash).map GetCheapHash := by
  rw [List.map_map]
  rfl

/-- **The slots of a block's xthin block** are its transactions, in order, when the receiver
knows each of them.

**Proof sketch.** No collision is flagged (`partialTxHashes_snd`). Each short hash finds its
transaction's hash (`lookupPartial_partialTxHashes`), so `fullTxHashes` gives the block's hashes
(`fullTxHashes_map`), and each hash resolves to its transaction (`resolveXThinTx_of_mem`). -/
theorem resolveXThinSlots_ofBlock {B : CBlock} {filterContains : uint256 → Bool}
    (hpool : (orphans ++ mempool).Nodup) (hblock : B.vtx.Nodup)
    (hinj : CheapHashInjOn GetHash (orphans ++ mempool ++ B.vtx))
    (hvalid : ∀ t ∈ B.vtx, GetHash t ≠ 0 ∧ t.IsNull = false)
    (hmerkle : ComputeMerkleRoot (B.vtx.map GetHash) = (B.header.hashMerkleRoot, false))
    (hall : ∀ t ∈ B.vtx,
      t ∈ orphans ++ mempool ++ (CXThinBlock.ofBlock GetHash B filterContains).vMissingTx) :
    resolveXThinSlots GetHash ComputeMerkleRoot
        ((CXThinBlock.ofBlock GetHash B filterContains).header.hashPrevBlock == tip) orphans
        mempool (CXThinBlock.ofBlock GetHash B filterContains) = some (B.vtx.map some) := by
  set msg := CXThinBlock.ofBlock GetHash B filterContains with hmsg
  have hsub : orphans ++ mempool ++ msg.vMissingTx ⊆ orphans ++ mempool ++ B.vtx :=
    CXThinBlock.ofBlock_pool_subset B filterContains
  have hnodup : ((B.vtx.map GetHash).map GetCheapHash).Nodup := by
    rw [List.map_map]
    exact List.Nodup.map_on (fun t₁ h₁ t₂ h₂ hc =>
      hinj t₁ (List.mem_append_right _ h₁) t₂ (List.mem_append_right _ h₂) hc) hblock
  have hfull : fullTxHashes (partialTxHashes GetHash orphans mempool msg.vMissingTx).1
      msg.vTxHashes = some (B.vtx.map GetHash) := by
    rw [CXThinBlock.ofBlock_vTxHashes]
    refine fullTxHashes_map hnodup _ fun h hmem => ?_
    obtain ⟨t, ht, rfl⟩ := List.mem_map.1 hmem
    rw [lookupPartial_partialTxHashes hinj hsub (List.mem_append_right _ ht), if_pos (hall t ht)]
  have hresolve : ∀ t ∈ B.vtx, resolveXThinTx GetHash (msg.header.hashPrevBlock == tip) orphans
      mempool msg.vMissingTx (GetHash t) = some t :=
    fun t ht => resolveXThinTx_of_mem hinj hsub _ (hall t ht) (hvalid t ht).1 (hvalid t ht).2
  rw [resolveXThinSlots_of_fullTxHashes_eq_some (partialTxHashes_snd hinj hsub hpool) hfull
    hmerkle, List.map_map]
  exact congrArg some (List.map_congr_left hresolve)

/-- **`process` on a block's xthin block.** Let the receiver's orphans and pool be distinct, the
block's transactions distinct, not null and with non-null hashes, the short hashes of all these
transactions distinct, and the header's merkle root that of the block. Let no block from the peer
be under validation, and the byte count, eight bytes per short hash and twice the transactions'
`RecursiveDynamicUsage` stay within `maxAllowedSize`. Then `process` hands the block on, its
transactions in order, when each is an orphan, in the pool or sent along, and otherwise asks for
a regular thin block.

**Proof sketch.** When every transaction is known the slots are the block's transactions
(`resolveXThinSlots_ofBlock`), whose bytes meet no limit (`process_of_resolveXThinSlots_eq_some`).
When one is not known its short hash has no entry (`lookupPartial_partialTxHashes`) and
`fullTxHashes` fails (`fullTxHashes_eq_none`). -/
theorem process_ofBlock {B : CBlock} {filterContains : uint256 → Bool} {peer : ThinPeer}
    (hpool : (orphans ++ mempool).Nodup) (hblock : B.vtx.Nodup)
    (hinj : CheapHashInjOn GetHash (orphans ++ mempool ++ B.vtx))
    (hvalid : ∀ t ∈ B.vtx, GetHash t ≠ 0 ∧ t.IsNull = false)
    (hmerkle : ComputeMerkleRoot (B.vtx.map GetHash) = (B.header.hashMerkleRoot, false))
    (hbytes : d.nThinBlockBytes + 8 * B.vtx.length + 2 * (B.vtx.map RecursiveDynamicUsage).sum ≤
      maxAllowedSize) :
    (CXThinBlock.process GetHash GetBlockHash ComputeMerkleRoot maxAllowedSize nSizeNullTx
        RecursiveDynamicUsage false staleHash tip orphans mempool
        (CXThinBlock.ofBlock GetHash B filterContains) peer d pfrom).2.2 =
      if ∀ t ∈ B.vtx,
          t ∈ orphans ++ mempool ++ (CXThinBlock.ofBlock GetHash B filterContains).vMissingTx
        then .handleBlock B.header B.vtx else .getThinBlock := by
  set msg := CXThinBlock.ofBlock GetHash B filterContains with hmsg
  split_ifs with hall
  · -- every transaction is known: the slots are the block's transactions
    have hslots : resolveXThinSlots GetHash ComputeMerkleRoot (msg.header.hashPrevBlock == tip)
        orphans mempool msg = some (B.vtx.map some) :=
      resolveXThinSlots_ofBlock hpool hblock hinj hvalid hmerkle hall
    have hsizes : ((B.vtx.map some).map (slotBytes nSizeNullTx RecursiveDynamicUsage)).map
        TxSlot.nTxSize = B.vtx.map RecursiveDynamicUsage := by
      simp [Function.comp_def, slotBytes]
    rw [process_of_resolveXThinSlots_eq_some hslots (by simp) (by
      rw [hsizes, CXThinBlock.ofBlock_vTxHashes, List.length_map, List.length_map]; exact hbytes)]
    simp [msg, CXThinBlock.ofBlock]
  · -- a transaction nobody knows: its short hash has no entry
    push Not at hall
    obtain ⟨t, ht, hunknown⟩ := hall
    have hmem : GetCheapHash (GetHash t) ∈ msg.vTxHashes := by
      rw [CXThinBlock.ofBlock_vTxHashes]
      exact List.mem_map_of_mem (List.mem_map_of_mem ht)
    have hsub : orphans ++ mempool ++ msg.vMissingTx ⊆ orphans ++ mempool ++ B.vtx :=
      CXThinBlock.ofBlock_pool_subset B filterContains
    have hnone := lookupPartial_partialTxHashes hinj hsub (List.mem_append_right _ ht)
    rw [if_neg hunknown] at hnone
    exact process_of_resolveXThinSlots_eq_none (resolveXThinSlots_of_fullTxHashes_eq_none
      (fullTxHashes_eq_none hmem _ hnone))

/-- **Xthin reassembly.** Under the hypotheses of `process_ofBlock` (in particular, no block from
the peer under validation and the bytes within the limit), relaying a block as an xthin block
hands it to validation, its transactions in order, exactly when the receiver knows each of them
(orphan, pool, or sent along); otherwise nothing is handed on (the receiver has asked for a
regular thin block). The sender is never charged.

**Proof sketch.** By `process_ofBlock` the receiver never asks for missing transactions, so the
exchange is `process` alone, which charges no one (`process_misbehavior`). -/
theorem xthinExchange_ofBlock {B : CBlock} {filterContains : uint256 → Bool} {peer : ThinPeer}
    (fThinBlockCapable : Bool) (hpool : (orphans ++ mempool).Nodup) (hblock : B.vtx.Nodup)
    (hinj : CheapHashInjOn GetHash (orphans ++ mempool ++ B.vtx))
    (hvalid : ∀ t ∈ B.vtx, GetHash t ≠ 0 ∧ t.IsNull = false)
    (hmerkle : ComputeMerkleRoot (B.vtx.map GetHash) = (B.header.hashMerkleRoot, false))
    (hbytes : d.nThinBlockBytes + 8 * B.vtx.length + 2 * (B.vtx.map RecursiveDynamicUsage).sum ≤
      maxAllowedSize) :
    (xthinExchange GetHash GetBlockHash ComputeMerkleRoot maxAllowedSize nSizeNullTx
        RecursiveDynamicUsage false fThinBlockCapable staleHash tip orphans mempool B
        filterContains peer d pfrom).2.2 =
      (if ∀ t ∈ B.vtx,
          t ∈ orphans ++ mempool ++ (CXThinBlock.ofBlock GetHash B filterContains).vMissingTx
        then some (B.header, B.vtx) else none) ∧
    (xthinExchange GetHash GetBlockHash ComputeMerkleRoot maxAllowedSize nSizeNullTx
        RecursiveDynamicUsage false fThinBlockCapable staleHash tip orphans mempool B
        filterContains peer d pfrom).1.misbehavior = peer.misbehavior := by
  unfold xthinExchange
  rcases hp : CXThinBlock.process GetHash GetBlockHash ComputeMerkleRoot maxAllowedSize
    nSizeNullTx RecursiveDynamicUsage false staleHash tip orphans mempool
    (CXThinBlock.ofBlock GetHash B filterContains) peer d pfrom with ⟨peer', d', action⟩
  have hproc := congrArg (·.2.2) hp
  have hmis := congrArg (·.1.misbehavior) hp
  rw [process_ofBlock hpool hblock hinj hvalid hmerkle hbytes] at hproc
  rw [process_misbehavior] at hmis
  dsimp only at hproc hmis
  -- `process` either handed the block on or asked for a thin block: no answer is awaited
  split_ifs at hproc with hall
  · subst hproc
    dsimp only
    exact ⟨by rw [if_pos hall], hmis.symm⟩
  · subst hproc
    dsimp only
    exact ⟨by rw [if_neg hall], hmis.symm⟩

/-- The receiver at tip `10` with `legacySpendTx` in its pool, no bytes counted and the limit
`256000000`, rebuilds `xthinBlock` from its xthin block. -/
theorem xthinExchange_ofBlock_at_height_eleven :
    (xthinExchange serialHash forkEnv.GetBlockHash sumMerkleRoot 256000000 300 (fun _ => 300)
        false true (fun _ => 0) 10 [] [legacySpendTx] xthinBlock xthinFilter xthinPeer
        xthinBytes 0).2.2 =
      (if ∀ t ∈ xthinBlock.vtx,
          t ∈ [] ++ [legacySpendTx] ++ (CXThinBlock.ofBlock serialHash xthinBlock xthinFilter).vMissingTx
        then some (xthinBlock.header, xthinBlock.vtx) else none) ∧
    (xthinExchange serialHash forkEnv.GetBlockHash sumMerkleRoot 256000000 300 (fun _ => 300)
        false true (fun _ => 0) 10 [] [legacySpendTx] xthinBlock xthinFilter xthinPeer
        xthinBytes 0).1.misbehavior = xthinPeer.misbehavior :=
  xthinExchange_ofBlock true (by decide) (by decide +kernel)
    (by unfold CheapHashInjOn; decide +kernel) (by decide +kernel) rfl (by decide)

/-- With an empty pool the receiver cannot resolve `legacySpendTx`'s short hash: `process` asks
for a regular thin block, no `get_xblocktx` is sent, and the xthin exchange hands no block on. -/
theorem xthin_unknown_tx_requests_thin_block :
    (CXThinBlock.process serialHash forkEnv.GetBlockHash sumMerkleRoot 256000000 300 (fun _ => 300)
        false (fun _ => 0) 10 [] [] (CXThinBlock.ofBlock serialHash xthinBlock xthinFilter)
        xthinPeer xthinBytes 0).2.2 = .getThinBlock ∧
      (xthinExchange serialHash forkEnv.GetBlockHash sumMerkleRoot 256000000 300 (fun _ => 300)
        false true (fun _ => 0) 10 [] [] xthinBlock xthinFilter xthinPeer xthinBytes 0).2.2 =
        none := by
  decide +kernel

end Reassemble

/-! ## The re-request bans the sender -/

section Rerequest

variable {GetHash : CTransaction → uint256} {GetBlockHash : CBlockHeader → uint256}
  {ComputeMerkleRoot : List uint256 → uint256 × Bool} {maxAllowedSize nSizeNullTx : ℕ}
  {RecursiveDynamicUsage : CTransaction → ℕ} {staleHash : ℕ → UInt64} {tip : uint256}
  {orphans mempool : List CTransaction} {msg : CXThinBlock} {d : CThinBlockData} {pfrom : NodeId}

/-- **`process` asks for transactions only after clearing the short hashes.** When it ends with
a `get_xblocktx`, the peer's short hashes are gone and its thin block has an empty slot.

**Proof sketch.** The other branches end with another action. In this one the short hashes
were set to `[]` and the count of empty slots is not zero. -/
theorem process_getXBlockTx {alreadyValidating : Bool} {peer peer' : ThinPeer}
    {d' : CThinBlockData} {req : CXRequestThinBlockTx}
    (h : CXThinBlock.process GetHash GetBlockHash ComputeMerkleRoot maxAllowedSize nSizeNullTx
      RecursiveDynamicUsage alreadyValidating staleHash tip orphans mempool msg peer d pfrom =
        (peer', d', .getXBlockTx req)) :
    peer'.xThinBlockHashes = [] ∧ none ∈ peer'.vtx := by
  unfold CXThinBlock.process at h
  split_ifs at h
  · cases h
  dsimp only at h
  split at h
  · cases h
  · rename_i vtx _
    split_ifs at h with hlimit hmissing
    · cases h
    · cases h
    · simp only [Prod.mk.injEq] at h
      obtain ⟨rfl, -, -⟩ := h
      refine ⟨rfl, ?_⟩
      -- a non-zero count of empty slots names one
      obtain ⟨slot, hmem, hslot⟩ := List.countP_pos_iff.1 (Nat.pos_of_ne_zero hmissing)
      cases slot with
      | none => exact hmem
      | some tx => simp at hslot

/-- **The answer to a re-request bans its sender.** After `process` has asked for missing
transactions, `CXThinBlockTx::HandleMessage` of any answer charges the sender 100, keeps the
peer's bytes counted, and hands no block on: a peer that does thin blocks finds no short hash for
the thin block's slots.

**Proof sketch.** By `process_getXBlockTx` the peer holds no short hash and at least one slot,
so the consistency check of the handler fails. -/
theorem xblocktx_after_rerequest_bans_sender {alreadyValidating : Bool} {peer peer' : ThinPeer}
    {d' : CThinBlockData} {req : CXRequestThinBlockTx}
    (h : CXThinBlock.process GetHash GetBlockHash ComputeMerkleRoot maxAllowedSize nSizeNullTx
      RecursiveDynamicUsage alreadyValidating staleHash tip orphans mempool msg peer d pfrom =
        (peer', d', .getXBlockTx req)) (fThinBlockCapable : Bool) (reply : CXThinBlockTx) :
    (CXThinBlockTx.HandleMessage GetHash maxAllowedSize nSizeNullTx RecursiveDynamicUsage
        fThinBlockCapable reply peer' d' pfrom).1.misbehavior = peer'.misbehavior + 100 ∧
      (CXThinBlockTx.HandleMessage GetHash maxAllowedSize nSizeNullTx RecursiveDynamicUsage
        fThinBlockCapable reply peer' d' pfrom).2.1 = d' ∧
      (CXThinBlockTx.HandleMessage GetHash maxAllowedSize nSizeNullTx RecursiveDynamicUsage
        fThinBlockCapable reply peer' d' pfrom).2.2 = none := by
  obtain ⟨hhashes, hslot⟩ := process_getXBlockTx h
  have hlen : peer'.xThinBlockHashes.length ≠ peer'.vtx.length := by
    rw [hhashes, List.length_nil]
    exact (List.length_pos_of_mem hslot).ne
  have hcheck : (peer'.xThinBlockHashes.length != peer'.vtx.length) = true := by
    simpa using hlen
  unfold CXThinBlockTx.HandleMessage
  cases fThinBlockCapable <;> simp [hcheck]

/-- The request is reached by a block holding a null transaction: every short hash finds its
entry, the null transaction leaves its slot empty, and the sender's honest answer gets it banned;
the cleared vector read here still holds the short hashes. -/
example :
    (CXThinBlock.process serialHash forkEnv.GetBlockHash sumMerkleRoot 256000000 300
        (fun _ => 300) false
        (fun i => (CXThinBlock.ofBlock serialHash nullTxBlock fun _ => false).vTxHashes.getD i 0) 10
        [] [] (CXThinBlock.ofBlock serialHash nullTxBlock fun _ => false) xthinPeer xthinBytes
        0).2.2 = .getXBlockTx ⟨11, [GetCheapHash (serialHash nullTx)]⟩ ∧
    (xthinExchange serialHash forkEnv.GetBlockHash sumMerkleRoot 256000000 300 (fun _ => 300)
        false true
        (fun i => (CXThinBlock.ofBlock serialHash nullTxBlock fun _ => false).vTxHashes.getD i 0) 10
        [] [] nullTxBlock (fun _ => false) xthinPeer xthinBytes 0).1.misbehavior = 100 := by
  decide +kernel

end Rerequest

end MvfBu
