import Mathlib.Algebra.BigOperators.Group.Finset.Piecewise
import MvfBu.Primitives.Transaction

set_option autoImplicit false

/-!
# The memory count of thin blocks (`thinblock.cpp` `CThinBlockData`, `parallel.cpp`)

A thin block is reassembled in memory, transaction by transaction, and the node guards against
a peer that makes it hold too much: each peer's `CNode` counts the bytes of its thin block
(`nLocalThinBlockBytes`), `thindata` counts the bytes of all of them (`nThinBlockBytes`), and the
handlers compare the two against `maxAllowedSize` as each transaction is added, clearing the
peer with the largest thin block when the total is over. The global count is meant to be the sum
of the peers' counts; `AddThinBlockBytes` and `ClearThinBlockData` move both by the same amount,
and `DeleteThinBlockBytes` skips a subtraction that would go below zero.

Two sites break that. `HandleBlockMessageThread`, once a block is validated and no peer has a
thin block in flight, sets the global count to zero (`ResetThinBlockBytes`) whatever the peers
still hold; and `CXThinBlockTx::HandleMessage`, on an answer that does not match the thin block
it waits for, forgets the request without clearing the peer's bytes. The second is the path of
every answer to a `get_xblocktx`: `CXThinBlock::process` asks for the slots it left null and
clears the short hashes before the answer comes (see `MvfBu.Node.XThin`; a transaction it lacks
makes it re-request a regular thin block instead). After both, a peer holds bytes the global
count no longer has, and the limit is checked against less than the node holds.

## Main definitions

* `MvfBu.ThinBlockBytes.CThinBlockData` — `thindata` with the nodes its methods reach.
* `CThinBlockData.AddThinBlockBytes`, `DeleteThinBlockBytes`, `ResetThinBlockBytes`,
  `ClearThinBlockData`, and `ClearLargestThinBlockAndDisconnect`.
* `CThinBlock.process`, `CXThinBlock.process`, `CXThinBlockTx.HandleMessage` and
  `HandleBlockMessageThread`, as far as they touch the counts.
* `MvfBu.ThinBlockBytes.step`, `MvfBu.ThinBlockBytes.run` — the events in turn.

## Main results

* `MvfBu.ThinBlockBytes.ClearThinBlockData_nThinBlockBytes` — while the counts agree,
  `ClearThinBlockData` takes a peer's bytes off the global count, with no subtraction skipped.
* `MvfBu.ThinBlockBytes.step_inv`, `MvfBu.ThinBlockBytes.run_inv` — every event but the end of
  validation keeps the global count equal to the sum of the peers' counts.
* `MvfBu.ThinBlockBytes.HandleBlockMessageThread_inv_iff` — the end of validation keeps it
  exactly when a thin block is still in flight or no peer holds bytes.
* `MvfBu.ThinBlockBytes.CXThinBlock.process_snd_of_le` — `CXThinBlock::process` meets no memory
  limit while the count, the short hashes and twice the slots' bytes stay within the limit.

## Implementation notes

The counts are `uint64_t`; they are natural numbers here, since they count bytes held in memory
and stay far below `2 ^ 64`. The peers are fixed (connections and `FinalizeNode` are left out).
The lookups that resolve a block's transactions are modelled in `MvfBu.Node.XThin`, whose
`process` runs this module's `CXThinBlock.process` on the slots it resolves; here each slot comes
resolved, with its `RecursiveDynamicUsage`. Statistics, logging, the Xpress
validation sets and the messages sent are left out.
-/

namespace MvfBu

namespace ThinBlockBytes

/-- `NodeId`: the id of a connected peer. -/
abbrev NodeId := ℕ

/-- What the byte count reads and writes of a `CNode`: the bytes of its thin block, the thin
blocks requested from it (the keys of `mapThinBlocksInFlight`), how many transactions its thin
block still misses (`-1` when none waits), the slots of that block (`true` for a transaction,
`false` for the null one), its short hashes, and whether it is to be disconnected. -/
structure ThinNode where
  nLocalThinBlockBytes : ℕ
  mapThinBlocksInFlight : List uint256
  thinBlockWaitingForTxns : ℤ
  vtx : List Bool
  xThinBlockHashes : List UInt64
  fDisconnect : Bool
  deriving DecidableEq, Repr

/-- A peer as `CNode`'s constructor leaves it. -/
def ThinNode.new : ThinNode := ⟨0, [], -1, [], [], false⟩

/-- What `ClearThinBlockData` leaves of a node: no bytes, no block waiting, no slots and no
short hashes. -/
def ThinNode.cleared (n : ThinNode) : ThinNode :=
  { n with nLocalThinBlockBytes := 0, thinBlockWaitingForTxns := -1, vtx := [],
           xThinBlockHashes := [] }

/-- `thindata` with the nodes its methods reach through their `CNode` pointers: `vNodes` in
order, each node's thin block fields, and the global count `nThinBlockBytes`. -/
structure CThinBlockData where
  vNodes : List NodeId
  node : NodeId → ThinNode
  nThinBlockBytes : ℕ

/-- A slot of a thin block as the receiver resolves it: whether it holds a transaction (and not
the null one) and the `RecursiveDynamicUsage` of what it holds. -/
structure TxSlot where
  found : Bool
  nTxSize : ℕ
  deriving DecidableEq, Repr

namespace CThinBlockData

/-- Apply `f` to the fields of node `p`. -/
def modifyNode (d : CThinBlockData) (p : NodeId) (f : ThinNode → ThinNode) : CThinBlockData :=
  { d with node := Function.update d.node p (f (d.node p)) }

/-- What the global count is meant to be: the sum of the peers' own counts. -/
def totalLocal (d : CThinBlockData) : ℕ :=
  ∑ p ∈ d.vNodes.toFinset, (d.node p).nLocalThinBlockBytes

/-- `CThinBlockData::AddThinBlockBytes(bytes, pfrom)`: both counts grow; returns the global
one. -/
def AddThinBlockBytes (d : CThinBlockData) (bytes : ℕ) (pfrom : NodeId) :
    CThinBlockData × ℕ :=
  let d := { d.modifyNode pfrom fun n =>
      { n with nLocalThinBlockBytes := n.nLocalThinBlockBytes + bytes } with
    nThinBlockBytes := d.nThinBlockBytes + bytes }
  (d, d.nThinBlockBytes)

/-- `CThinBlockData::DeleteThinBlockBytes(bytes, pfrom)`: each count shrinks only if it holds
`bytes`. -/
def DeleteThinBlockBytes (d : CThinBlockData) (bytes : ℕ) (pfrom : NodeId) : CThinBlockData :=
  let d := if bytes ≤ (d.node pfrom).nLocalThinBlockBytes then
      d.modifyNode pfrom fun n => { n with nLocalThinBlockBytes := n.nLocalThinBlockBytes - bytes }
    else d
  if bytes ≤ d.nThinBlockBytes then { d with nThinBlockBytes := d.nThinBlockBytes - bytes } else d

/-- `CThinBlockData::ResetThinBlockBytes()`. -/
def ResetThinBlockBytes (d : CThinBlockData) : CThinBlockData := { d with nThinBlockBytes := 0 }

/-- `CThinBlockData::ClearThinBlockData(pnode)`: take the node's bytes off the global count and
clear its thin block. -/
def ClearThinBlockData (d : CThinBlockData) (pnode : NodeId) : CThinBlockData :=
  (d.DeleteThinBlockBytes (d.node pnode).nLocalThinBlockBytes pnode).modifyNode pnode
    ThinNode.cleared

/-- `pnode->fDisconnect = true`. -/
def disconnect (d : CThinBlockData) (pnode : NodeId) : CThinBlockData :=
  d.modifyNode pnode fun n => { n with fDisconnect := true }

/-- The loop of `ClearLargestThinBlockAndDisconnect`: the first node of `vNodes` with the most
thin block bytes. -/
def largestNode (d : CThinBlockData) : Option NodeId :=
  d.vNodes.foldl (fun pLargest pnode =>
    match pLargest with
    | none => some pnode
    | some q =>
      if (d.node pnode).nLocalThinBlockBytes > (d.node q).nLocalThinBlockBytes then some pnode
      else some q) none

/-! ### The counts under each method -/

section Frame

variable (d : CThinBlockData) (p q : NodeId) (f : ThinNode → ThinNode)

@[simp] theorem modifyNode_vNodes : (d.modifyNode p f).vNodes = d.vNodes := rfl

@[simp] theorem modifyNode_nThinBlockBytes :
    (d.modifyNode p f).nThinBlockBytes = d.nThinBlockBytes := rfl

@[simp] theorem modifyNode_node_self : (d.modifyNode p f).node p = f (d.node p) :=
  Function.update_self ..

theorem modifyNode_node_of_ne {p q : NodeId} (h : q ≠ p) : (d.modifyNode p f).node q = d.node q :=
  Function.update_of_ne h ..

/-- A node's count is part of the sum. -/
theorem nLocalThinBlockBytes_le_totalLocal {p : NodeId} (hp : p ∈ d.vNodes) :
    (d.node p).nLocalThinBlockBytes ≤ d.totalLocal :=
  Finset.single_le_sum (f := fun q => (d.node q).nLocalThinBlockBytes) (fun _ _ => Nat.zero_le _)
    (List.mem_toFinset.2 hp)

/-- Changing a connected node's count changes the sum by the difference. -/
theorem totalLocal_modifyNode {p : NodeId} (hp : p ∈ d.vNodes) :
    (d.modifyNode p f).totalLocal + (d.node p).nLocalThinBlockBytes =
      d.totalLocal + (f (d.node p)).nLocalThinBlockBytes := by
  have hp' : p ∈ d.vNodes.toFinset := List.mem_toFinset.2 hp
  have hupd : (fun q => ((d.modifyNode p f).node q).nLocalThinBlockBytes) =
      Function.update (fun q => (d.node q).nLocalThinBlockBytes) p
        (f (d.node p)).nLocalThinBlockBytes := by
    funext q
    by_cases h : q = p
    · subst h
      simp
    · simp [modifyNode_node_of_ne _ _ h, h]
  rw [totalLocal, modifyNode_vNodes, hupd, Finset.sum_update_of_mem hp', totalLocal,
    Finset.sum_eq_add_sum_sdiff_singleton_of_mem hp']
  omega

/-- A change that keeps a node's count keeps the sum. -/
theorem totalLocal_modifyNode_of_eq {p : NodeId}
    (h : (f (d.node p)).nLocalThinBlockBytes = (d.node p).nLocalThinBlockBytes) :
    (d.modifyNode p f).totalLocal = d.totalLocal := by
  refine Finset.sum_congr rfl fun q _ => ?_
  by_cases hq : q = p
  · subst hq
    rw [modifyNode_node_self, h]
  · rw [modifyNode_node_of_ne _ _ hq]

end Frame

/-- The global count is the sum of the peers' counts. -/
def Inv (d : CThinBlockData) : Prop := d.nThinBlockBytes = d.totalLocal

variable {d : CThinBlockData} {p : NodeId}

theorem Inv.modifyNode (hd : d.Inv) (f : ThinNode → ThinNode)
    (h : (f (d.node p)).nLocalThinBlockBytes = (d.node p).nLocalThinBlockBytes) :
    (d.modifyNode p f).Inv := by
  rw [Inv, modifyNode_nThinBlockBytes, totalLocal_modifyNode_of_eq _ _ h]
  exact hd

theorem Inv.disconnect (hd : d.Inv) : (d.disconnect p).Inv := hd.modifyNode _ rfl

@[simp] theorem disconnect_vNodes : (d.disconnect p).vNodes = d.vNodes := rfl

@[simp] theorem AddThinBlockBytes_vNodes (b : ℕ) :
    (d.AddThinBlockBytes b p).1.vNodes = d.vNodes := rfl

theorem AddThinBlockBytes_snd (b : ℕ) :
    (d.AddThinBlockBytes b p).2 = d.nThinBlockBytes + b := rfl

theorem Inv.AddThinBlockBytes (hd : d.Inv) (hp : p ∈ d.vNodes) (b : ℕ) :
    (d.AddThinBlockBytes b p).1.Inv := by
  let grow := fun n : ThinNode => { n with nLocalThinBlockBytes := n.nLocalThinBlockBytes + b }
  have hsum := totalLocal_modifyNode d grow hp
  rw [Inv] at hd
  show d.nThinBlockBytes + b = (d.modifyNode p grow).totalLocal
  dsimp only [grow] at hsum ⊢
  omega

@[simp] theorem DeleteThinBlockBytes_vNodes (b : ℕ) :
    (d.DeleteThinBlockBytes b p).vNodes = d.vNodes := by
  unfold DeleteThinBlockBytes
  dsimp only
  split_ifs <;> rfl

@[simp] theorem ClearThinBlockData_vNodes : (d.ClearThinBlockData p).vNodes = d.vNodes := by
  simp [ClearThinBlockData]

/-- With the global count holding the node's, `ClearThinBlockData` subtracts from both. -/
theorem ClearThinBlockData_eq (h : (d.node p).nLocalThinBlockBytes ≤ d.nThinBlockBytes) :
    d.ClearThinBlockData p = { d.modifyNode p ThinNode.cleared with
      nThinBlockBytes := d.nThinBlockBytes - (d.node p).nLocalThinBlockBytes } := by
  simp only [ClearThinBlockData, DeleteThinBlockBytes, le_refl, if_true,
    modifyNode_nThinBlockBytes, h]
  simp only [modifyNode, Function.update_self, Function.update_idem]
  rfl

/-- **No subtraction is skipped** while the counts agree: `ClearThinBlockData` takes the peer's
whole count off the global one. -/
theorem ClearThinBlockData_nThinBlockBytes (hd : d.Inv) (hp : p ∈ d.vNodes) :
    (d.ClearThinBlockData p).nThinBlockBytes + (d.node p).nLocalThinBlockBytes =
      d.nThinBlockBytes := by
  have hle : (d.node p).nLocalThinBlockBytes ≤ d.nThinBlockBytes :=
    hd ▸ nLocalThinBlockBytes_le_totalLocal d hp
  rw [ClearThinBlockData_eq hle]
  exact Nat.sub_add_cancel hle

theorem Inv.ClearThinBlockData (hd : d.Inv) (hp : p ∈ d.vNodes) :
    (d.ClearThinBlockData p).Inv := by
  have hle : (d.node p).nLocalThinBlockBytes ≤ d.nThinBlockBytes :=
    hd ▸ nLocalThinBlockBytes_le_totalLocal d hp
  have hsum := totalLocal_modifyNode d ThinNode.cleared hp
  rw [Inv] at hd
  rw [ClearThinBlockData_eq hle]
  show d.nThinBlockBytes - (d.node p).nLocalThinBlockBytes =
    (d.modifyNode p ThinNode.cleared).totalLocal
  simp only [ThinNode.cleared, Nat.add_zero] at hsum
  omega

end CThinBlockData

open CThinBlockData

/-- `ClearLargestThinBlockAndDisconnect(pfrom)`: clear and disconnect the node with the largest
thin block; returns whether that node is `pfrom`. -/
def ClearLargestThinBlockAndDisconnect (d : CThinBlockData) (pfrom : NodeId) :
    CThinBlockData × Bool :=
  match d.largestNode with
  | none => (d, false)
  | some pLargest => ((d.ClearThinBlockData pLargest).disconnect pLargest, pfrom == pLargest)

/-- `if (thindata.AddThinBlockBytes(bytes, pfrom) > limit)` followed by
`ClearLargestThinBlockAndDisconnect(pfrom)`, as the handlers write it: count the bytes, and on a
global count over the limit clear the largest thin block; returns whether that was `pfrom`'s. -/
def addAndCheckLimit (d : CThinBlockData) (bytes : ℕ) (pfrom : NodeId) (limit : ℕ) :
    CThinBlockData × Bool :=
  let a := d.AddThinBlockBytes bytes pfrom
  if a.2 > limit then ClearLargestThinBlockAndDisconnect a.1 pfrom else (a.1, false)

/-- The request manager's `mapThinBlocksInFlight.insert`: one thin block per peer at a time. -/
def RequestThinBlock (d : CThinBlockData) (pfrom : NodeId) (hash : uint256) : CThinBlockData :=
  if (d.node pfrom).mapThinBlocksInFlight.length < 1 then
    d.modifyNode pfrom fun n => { n with mapThinBlocksInFlight := hash :: n.mapThinBlocksInFlight }
  else d

/-- A fold whose step keeps the accumulator or takes the element ends on an element or on where
it started. -/
theorem foldl_mem_or_eq {F : Option NodeId → NodeId → Option NodeId}
    (hF : ∀ o x, F o x = some x ∨ F o x = o) :
    ∀ (l : List NodeId) (o : Option NodeId) {p : NodeId}, l.foldl F o = some p → p ∈ l ∨ o = some p
  | [], _, _, h => .inr h
  | x :: l, o, p, h => by
    rcases foldl_mem_or_eq hF l (F o x) h with hl | ho
    · exact .inl (List.mem_cons_of_mem x hl)
    · rcases hF o x with hx | hx <;> rw [hx] at ho
      · exact .inl (Option.some.inj ho ▸ List.mem_cons_self)
      · exact .inr ho

/-- `ClearLargestThinBlockAndDisconnect` picks a connected node. -/
theorem largestNode_mem {d : CThinBlockData} {p : NodeId} (h : d.largestNode = some p) :
    p ∈ d.vNodes := by
  refine (foldl_mem_or_eq (fun o x => ?_) d.vNodes none h).resolve_right (by simp)
  rcases o with _ | q
  · exact .inl rfl
  · dsimp only
    split_ifs
    · exact .inl rfl
    · exact .inr rfl

section Preserve

variable {d : CThinBlockData} {pfrom : NodeId}

@[simp] theorem ClearLargestThinBlockAndDisconnect_vNodes :
    (ClearLargestThinBlockAndDisconnect d pfrom).1.vNodes = d.vNodes := by
  unfold ClearLargestThinBlockAndDisconnect
  split <;> simp

theorem ClearLargestThinBlockAndDisconnect_inv (hd : d.Inv) :
    (ClearLargestThinBlockAndDisconnect d pfrom).1.Inv := by
  unfold ClearLargestThinBlockAndDisconnect
  split
  · exact hd
  · rename_i pLargest hl
    exact (hd.ClearThinBlockData (largestNode_mem hl)).disconnect

@[simp] theorem addAndCheckLimit_vNodes (b l : ℕ) :
    (addAndCheckLimit d b pfrom l).1.vNodes = d.vNodes := by
  unfold addAndCheckLimit
  dsimp only
  split_ifs <;> simp

theorem addAndCheckLimit_inv (hd : d.Inv) (hp : pfrom ∈ d.vNodes) (b l : ℕ) :
    (addAndCheckLimit d b pfrom l).1.Inv := by
  unfold addAndCheckLimit
  dsimp only
  split_ifs
  · exact ClearLargestThinBlockAndDisconnect_inv (hd.AddThinBlockBytes hp b)
  · exact hd.AddThinBlockBytes hp b

@[simp] theorem RequestThinBlock_vNodes (h : uint256) :
    (RequestThinBlock d pfrom h).vNodes = d.vNodes := by
  unfold RequestThinBlock
  split_ifs <;> rfl

theorem RequestThinBlock_inv (hd : d.Inv) (h : uint256) : (RequestThinBlock d pfrom h).Inv := by
  unfold RequestThinBlock
  split_ifs
  · exact hd.modifyNode _ rfl
  · exact hd

end Preserve

section Handlers

variable (maxAllowedSize : ℕ)

/-- The loop of `CThinBlock::process` and `CXThinBlock::process` over the block's slots: count
each slot's bytes; on a global count over the limit (less the slot) clear the largest thin
block, and stop if it was this one; on this peer's count over it, clear and disconnect the peer
and stop; else push the slot. Returns whether the loop stopped with the memory error. -/
def processSlots (pfrom : NodeId) : CThinBlockData → List TxSlot → CThinBlockData × Bool
  | d, [] => (d, false)
  | d, tx :: txs =>
    let nCurrentMax := if maxAllowedSize ≥ tx.nTxSize then maxAllowedSize - tx.nTxSize else 0
    let c := addAndCheckLimit d tx.nTxSize pfrom nCurrentMax
    if c.2 then (c.1, true)
    else if (c.1.node pfrom).nLocalThinBlockBytes > nCurrentMax then
      ((c.1.ClearThinBlockData pfrom).disconnect pfrom, true)
    else
      processSlots pfrom (c.1.modifyNode pfrom fun n => { n with vtx := n.vtx ++ [tx.found] }) txs

/-- How many slots are null: `missingCount`. -/
def missingCount (txs : List TxSlot) : ℕ := txs.countP fun tx => !tx.found

/-- `CThinBlock::process(pfrom)` as far as the counts go: clear the peer's thin block, count
the hashes (32 bytes each), check the merkle root (`merkleOk`; a mismatch returns the error and
keeps the bytes), run the slots; with every transaction at hand the block goes to validation,
else the peer's thin block is cleared and the regular block requested. Returns the handler's
value. -/
def CThinBlock.process (merkleOk : Bool) (txs : List TxSlot) (d : CThinBlockData)
    (pfrom : NodeId) : CThinBlockData × Bool :=
  let d := (d.ClearThinBlockData pfrom).AddThinBlockBytes (txs.length * 32) pfrom
  if !merkleOk then (d.1, false)
  else
    let r := processSlots maxAllowedSize pfrom d.1 txs
    if r.2 then (r.1, false)
    else if missingCount txs = 0 then
      (r.1.modifyNode pfrom fun n => { n with thinBlockWaitingForTxns := -1 }, true)
    else
      ((r.1.modifyNode pfrom fun n =>
        { n with thinBlockWaitingForTxns := missingCount txs }).ClearThinBlockData pfrom, true)

/-- `CXThinBlock::process(pfrom)` as far as the counts go: unless the peer's block is being
validated, clear its thin block, keep the short hashes and count them (8 bytes each). A
collision or a wrong merkle root (`resolved = none`) clears the thin block to ask for a regular
one; else the slots are run, the short hashes cleared, and the block goes to validation or the
missing transactions are asked for, with the bytes kept. -/
def CXThinBlock.process (alreadyValidating : Bool) (vTxHashes : List UInt64)
    (resolved : Option (List TxSlot)) (d : CThinBlockData) (pfrom : NodeId) :
    CThinBlockData × Bool :=
  if alreadyValidating then (d, false)
  else
    let d := ((d.ClearThinBlockData pfrom).modifyNode pfrom fun n =>
      { n with xThinBlockHashes := vTxHashes }).AddThinBlockBytes (vTxHashes.length * 8) pfrom
    match resolved with
    | none =>
      ((d.1.modifyNode pfrom fun n => { n with xThinBlockHashes := [] }).ClearThinBlockData pfrom,
        true)
    | some txs =>
      let r := processSlots maxAllowedSize pfrom d.1 txs
      if r.2 then (r.1, false)
      else
        let waiting : ℤ := if missingCount txs = 0 then -1 else missingCount txs
        (r.1.modifyNode pfrom fun n =>
          { n with xThinBlockHashes := [], thinBlockWaitingForTxns := waiting }, true)

variable (nSizeNullTx : ℕ)

/-- The loop of `CXThinBlockTx::HandleMessage` over the slots `i` with their short hashes: a
null slot the answer holds (`lookup`) is filled, one fewer transaction waits, its bytes over the
null transaction's are counted, and on a global count over the limit the largest thin block is
cleared, stopping if it was this one. Returns whether the loop stopped with the error. -/
def fillSlots (lookup : UInt64 → Option ℕ) (pfrom : NodeId) :
    ℕ → List (Bool × UInt64) → CThinBlockData → CThinBlockData × Bool
  | _, [], d => (d, false)
  | i, (slot, h) :: slots, d =>
    match slot, lookup h with
    | false, some usage =>
      let d := d.modifyNode pfrom fun n =>
        { n with vtx := n.vtx.set i true, thinBlockWaitingForTxns := n.thinBlockWaitingForTxns - 1 }
      let c := addAndCheckLimit d (usage - nSizeNullTx) pfrom maxAllowedSize
      if c.2 then (c.1, true) else fillSlots lookup pfrom (i + 1) slots c.1
    | _, _ => fillSlots lookup pfrom (i + 1) slots d

/-- `mapMissingTx.find(cheapHash)`: the last transaction of the answer with that short hash, by
its `RecursiveDynamicUsage`. -/
def lookupMissing (vMissingTx : List (UInt64 × ℕ)) (cheapHash : UInt64) : Option ℕ :=
  (vMissingTx.reverse.find? (·.1 == cheapHash)).map Prod.snd

/-- `CXThinBlockTx::HandleMessage(pfrom)` as far as the counts go: an empty answer, a null hash,
or short hashes that do not match the slots make the peer's request forgotten and its thin
block reset, with its bytes kept; an answer for no block in flight is dropped; else the slots
are filled, and the block goes to validation once none waits. -/
def CXThinBlockTx.HandleMessage (blockhash : uint256) (vMissingTx : List (UInt64 × ℕ))
    (d : CThinBlockData) (pfrom : NodeId) : CThinBlockData × Bool :=
  let n := d.node pfrom
  if vMissingTx.isEmpty || blockhash == 0 || n.xThinBlockHashes.length != n.vtx.length then
    (d.modifyNode pfrom fun n =>
      { n with mapThinBlocksInFlight := n.mapThinBlocksInFlight.erase blockhash,
               thinBlockWaitingForTxns := -1, vtx := [] }, false)
  else if blockhash ∉ n.mapThinBlocksInFlight then (d, true)
  else
    let r := fillSlots maxAllowedSize nSizeNullTx (lookupMissing vMissingTx) pfrom 0
      (n.vtx.zip n.xThinBlockHashes) d
    if r.2 then (r.1, false)
    else if (r.1.node pfrom).thinBlockWaitingForTxns = 0 then
      (r.1.modifyNode pfrom fun n => { n with thinBlockWaitingForTxns := -1 }, true)
    else (r.1, true)

end Handlers

/-! ### Every handler keeps the counts in step -/

section HandlersPreserve

variable (maxAllowedSize nSizeNullTx : ℕ) {pfrom : NodeId}

@[simp] theorem processSlots_vNodes (d : CThinBlockData) (txs : List TxSlot) :
    (processSlots maxAllowedSize pfrom d txs).1.vNodes = d.vNodes := by
  fun_induction processSlots maxAllowedSize pfrom d txs <;> simp_all +zetaDelta

theorem processSlots_inv {d : CThinBlockData} (hp : pfrom ∈ d.vNodes) (hd : d.Inv)
    (txs : List TxSlot) : (processSlots maxAllowedSize pfrom d txs).1.Inv := by
  -- every slot goes through the limit check; the loop leaves from its state, or clears it
  fun_induction processSlots maxAllowedSize pfrom d txs with
  | case1 => exact hd
  | case2 d tx txs nCurrentMax c => exact addAndCheckLimit_inv hd hp _ _
  | case3 d tx txs nCurrentMax c =>
    exact ((addAndCheckLimit_inv hd hp _ _).ClearThinBlockData (by simpa [c] using hp)).disconnect
  | case4 d tx txs nCurrentMax c _ _ ih =>
    exact ih (by simpa [c] using hp) ((addAndCheckLimit_inv hd hp _ _).modifyNode _ rfl)

@[simp] theorem fillSlots_vNodes (lookup : UInt64 → Option ℕ) (i : ℕ)
    (slots : List (Bool × UInt64)) (d : CThinBlockData) :
    (fillSlots maxAllowedSize nSizeNullTx lookup pfrom i slots d).1.vNodes = d.vNodes := by
  fun_induction fillSlots maxAllowedSize nSizeNullTx lookup pfrom i slots d <;> simp_all +zetaDelta

theorem fillSlots_inv (lookup : UInt64 → Option ℕ) (i : ℕ) (slots : List (Bool × UInt64))
    {d : CThinBlockData} (hp : pfrom ∈ d.vNodes) (hd : d.Inv) :
    (fillSlots maxAllowedSize nSizeNullTx lookup pfrom i slots d).1.Inv := by
  -- a filled slot changes no count before the limit check
  fun_induction fillSlots maxAllowedSize nSizeNullTx lookup pfrom i slots d with
  | case1 => exact hd
  | case2 i h slots d usage _ d' c _ => exact addAndCheckLimit_inv (hd.modifyNode _ rfl) hp _ _
  | case3 i h slots d usage _ d' c _ ih =>
    exact ih (by simpa [c, d'] using hp) (addAndCheckLimit_inv (hd.modifyNode _ rfl) hp _ _)
  | case4 i slot h slots d _ ih => exact ih hp hd

@[simp] theorem CThinBlock.process_vNodes (merkleOk : Bool) (txs : List TxSlot)
    (d : CThinBlockData) : (CThinBlock.process maxAllowedSize merkleOk txs d pfrom).1.vNodes =
      d.vNodes := by
  unfold CThinBlock.process
  dsimp only
  split_ifs <;> simp

theorem CThinBlock.process_inv {d : CThinBlockData} (hp : pfrom ∈ d.vNodes) (hd : d.Inv)
    (merkleOk : Bool) (txs : List TxSlot) :
    (CThinBlock.process maxAllowedSize merkleOk txs d pfrom).1.Inv := by
  have h0 := (hd.ClearThinBlockData hp).AddThinBlockBytes (by simpa using hp) (txs.length * 32)
  have h1 := processSlots_inv maxAllowedSize (by simpa using hp) h0 txs
  unfold CThinBlock.process
  dsimp only
  split_ifs
  · exact h0
  · exact h1
  · exact h1.modifyNode _ rfl
  · exact (h1.modifyNode _ rfl).ClearThinBlockData (by simpa using hp)

@[simp] theorem CXThinBlock.process_vNodes (alreadyValidating : Bool) (vTxHashes : List UInt64)
    (resolved : Option (List TxSlot)) (d : CThinBlockData) :
    (CXThinBlock.process maxAllowedSize alreadyValidating vTxHashes resolved d pfrom).1.vNodes =
      d.vNodes := by
  unfold CXThinBlock.process
  split_ifs
  · rfl
  · cases resolved
    · simp
    · dsimp only
      split_ifs <;> simp

theorem CXThinBlock.process_inv {d : CThinBlockData} (hp : pfrom ∈ d.vNodes) (hd : d.Inv)
    (alreadyValidating : Bool) (vTxHashes : List UInt64) (resolved : Option (List TxSlot)) :
    (CXThinBlock.process maxAllowedSize alreadyValidating vTxHashes resolved d pfrom).1.Inv := by
  have h0 := ((hd.ClearThinBlockData hp).modifyNode (p := pfrom)
    (fun n => { n with xThinBlockHashes := vTxHashes }) rfl).AddThinBlockBytes
    (by simpa using hp) (vTxHashes.length * 8)
  unfold CXThinBlock.process
  split_ifs
  · exact hd
  · cases resolved with
    | none => exact (h0.modifyNode _ rfl).ClearThinBlockData (by simpa using hp)
    | some txs =>
      have h1 := processSlots_inv maxAllowedSize (by simpa using hp) h0 txs
      dsimp only
      split_ifs
      · exact h1
      all_goals exact h1.modifyNode _ rfl

@[simp] theorem CXThinBlockTx.HandleMessage_vNodes (blockhash : uint256)
    (vMissingTx : List (UInt64 × ℕ)) (d : CThinBlockData) :
    (CXThinBlockTx.HandleMessage maxAllowedSize nSizeNullTx blockhash vMissingTx d pfrom).1.vNodes =
      d.vNodes := by
  unfold CXThinBlockTx.HandleMessage
  dsimp only
  split_ifs <;> simp

theorem CXThinBlockTx.HandleMessage_inv {d : CThinBlockData} (hp : pfrom ∈ d.vNodes) (hd : d.Inv)
    (blockhash : uint256) (vMissingTx : List (UInt64 × ℕ)) :
    (CXThinBlockTx.HandleMessage maxAllowedSize nSizeNullTx blockhash vMissingTx d pfrom).1.Inv := by
  have h1 := fillSlots_inv maxAllowedSize nSizeNullTx (lookupMissing vMissingTx) 0
    ((d.node pfrom).vtx.zip (d.node pfrom).xThinBlockHashes) hp hd
  unfold CXThinBlockTx.HandleMessage
  dsimp only
  split_ifs
  -- the inconsistent answer forgets the request but keeps the bytes, on both counts
  · exact hd.modifyNode _ rfl
  · exact h1
  · exact h1.modifyNode _ rfl
  · exact h1
  · exact hd

end HandlersPreserve

/-! ### No limit trips under a bound -/

section Bound

variable (maxAllowedSize : ℕ) {d : CThinBlockData} {pfrom : NodeId}

@[simp] theorem AddThinBlockBytes_nThinBlockBytes (b : ℕ) :
    (d.AddThinBlockBytes b pfrom).1.nThinBlockBytes = d.nThinBlockBytes + b := rfl

@[simp] theorem AddThinBlockBytes_node_self (b : ℕ) :
    ((d.AddThinBlockBytes b pfrom).1.node pfrom).nLocalThinBlockBytes =
      (d.node pfrom).nLocalThinBlockBytes + b := by
  simp [AddThinBlockBytes]

/-- `ClearThinBlockData` never raises the global count. -/
theorem ClearThinBlockData_nThinBlockBytes_le :
    (d.ClearThinBlockData pfrom).nThinBlockBytes ≤ d.nThinBlockBytes := by
  unfold ClearThinBlockData DeleteThinBlockBytes
  dsimp only
  split_ifs <;> simp

@[simp] theorem ClearThinBlockData_node_self :
    ((d.ClearThinBlockData pfrom).node pfrom).nLocalThinBlockBytes = 0 := by
  simp [ClearThinBlockData, ThinNode.cleared]

/-- Under the limit, `addAndCheckLimit` only counts. -/
theorem addAndCheckLimit_of_le {b limit : ℕ} (h : d.nThinBlockBytes + b ≤ limit) :
    addAndCheckLimit d b pfrom limit = ((d.AddThinBlockBytes b pfrom).1, false) := by
  unfold addAndCheckLimit
  rw [if_neg (by rw [AddThinBlockBytes_snd]; omega)]

/-- **No slot trips a limit** while both counts, with twice the bytes of the slots still to come
on top, stay within `maxAllowedSize`: each slot is checked with its bytes counted against the
limit less its bytes.

**Proof sketch.** Induction on the slots: the first one's bytes move both counts up by the same
amount and leave twice the rest within the limit. -/
theorem processSlots_snd_of_le : ∀ (txs : List TxSlot) {d : CThinBlockData},
    d.nThinBlockBytes + 2 * (txs.map TxSlot.nTxSize).sum ≤ maxAllowedSize →
    (d.node pfrom).nLocalThinBlockBytes + 2 * (txs.map TxSlot.nTxSize).sum ≤ maxAllowedSize →
    (processSlots maxAllowedSize pfrom d txs).2 = false
  | [], _, _, _ => rfl
  | tx :: txs, d, hg, hl => by
    simp only [List.map_cons, List.sum_cons] at hg hl
    have hmax : (if maxAllowedSize ≥ tx.nTxSize then maxAllowedSize - tx.nTxSize else 0) =
        maxAllowedSize - tx.nTxSize := if_pos (by omega)
    have hadd : addAndCheckLimit d tx.nTxSize pfrom (maxAllowedSize - tx.nTxSize) =
        ((d.AddThinBlockBytes tx.nTxSize pfrom).1, false) := addAndCheckLimit_of_le (by omega)
    simp only [processSlots, hmax, hadd, Bool.false_eq_true, if_false,
      AddThinBlockBytes_node_self]
    rw [if_neg (by omega)]
    -- the slot pushed: both counts grew by its bytes
    exact processSlots_snd_of_le txs (by simp; omega) (by simp; omega)

/-- **`CXThinBlock::process` meets no limit** when the global count, the short hashes' bytes and
twice the slots' bytes stay within `maxAllowedSize`: it ends without the memory error. -/
theorem CXThinBlock.process_snd_of_le (vTxHashes : List UInt64) (txs : List TxSlot)
    (h : d.nThinBlockBytes + 8 * vTxHashes.length + 2 * (txs.map TxSlot.nTxSize).sum ≤
      maxAllowedSize) :
    (CXThinBlock.process maxAllowedSize false vTxHashes (some txs) d pfrom).2 = true := by
  have hclear : (d.ClearThinBlockData pfrom).nThinBlockBytes ≤ d.nThinBlockBytes :=
    ClearThinBlockData_nThinBlockBytes_le
  -- the slots start from the cleared peer with its short hashes counted
  have hslots : (processSlots maxAllowedSize pfrom (((d.ClearThinBlockData pfrom).modifyNode pfrom
      fun n => { n with xThinBlockHashes := vTxHashes }).AddThinBlockBytes (vTxHashes.length * 8)
      pfrom).1 txs).2 = false :=
    processSlots_snd_of_le maxAllowedSize txs
      (by simp only [AddThinBlockBytes_nThinBlockBytes, modifyNode_nThinBlockBytes]; omega)
      (by simp only [AddThinBlockBytes_node_self, modifyNode_node_self,
        ClearThinBlockData_node_self]; omega)
  unfold CXThinBlock.process
  simp only [Bool.false_eq_true, if_false, hslots]

end Bound

/-- The cleanup at the end of `HandleBlockMessageThread` for block `hash` from `pfrom`: forget
the request and clear the peer's thin block if the block was in flight, and set the global count
to zero once no peer has a thin block in flight. -/
def HandleBlockMessageThread (d : CThinBlockData) (pfrom : NodeId) (hash : uint256) :
    CThinBlockData :=
  let d := if hash ∈ (d.node pfrom).mapThinBlocksInFlight then
      (d.modifyNode pfrom fun n =>
        { n with mapThinBlocksInFlight := n.mapThinBlocksInFlight.erase hash }).ClearThinBlockData
        pfrom
    else d
  let nTotalThinBlocksInFlight := d.vNodes.countP fun p => !(d.node p).mapThinBlocksInFlight.isEmpty
  if nTotalThinBlocksInFlight = 0 then d.ResetThinBlockBytes else d

/-- What happens to the thin block counts, one thing at a time: a thin block requested, one of
the three handlers run for a peer, `ClearThinBlockData` and
`ClearLargestThinBlockAndDisconnect` called, or the validation of a block from a peer ended. -/
inductive Event
  | request (pfrom : NodeId) (hash : uint256)
  | thinblock (pfrom : NodeId) (merkleOk : Bool) (txs : List TxSlot)
  | xthinblock (pfrom : NodeId) (alreadyValidating : Bool) (vTxHashes : List UInt64)
      (resolved : Option (List TxSlot))
  | xblocktx (pfrom : NodeId) (blockhash : uint256) (vMissingTx : List (UInt64 × ℕ))
  | clearThinBlockData (pnode : NodeId)
  | clearLargest (pfrom : NodeId)
  | blockValidated (pfrom : NodeId) (hash : uint256)
  deriving DecidableEq, Repr

/-- The peer an event is about. -/
def Event.peer : Event → NodeId
  | .request p _ | .thinblock p _ _ | .xthinblock p _ _ _ | .xblocktx p _ _
  | .clearThinBlockData p | .clearLargest p | .blockValidated p _ => p

/-- Whether an event is the end of a block's validation, the one that may reset the count. -/
def Event.isBlockValidated : Event → Bool
  | .blockValidated _ _ => true
  | _ => false

section Run

variable (maxAllowedSize nSizeNullTx : ℕ)

/-- One event. -/
def step (d : CThinBlockData) : Event → CThinBlockData
  | .request p h => RequestThinBlock d p h
  | .thinblock p m txs => (CThinBlock.process maxAllowedSize m txs d p).1
  | .xthinblock p v hs r => (CXThinBlock.process maxAllowedSize v hs r d p).1
  | .xblocktx p h txs => (CXThinBlockTx.HandleMessage maxAllowedSize nSizeNullTx h txs d p).1
  | .clearThinBlockData p => d.ClearThinBlockData p
  | .clearLargest p => (ClearLargestThinBlockAndDisconnect d p).1
  | .blockValidated p h => HandleBlockMessageThread d p h

/-- Events in turn. -/
def run (d : CThinBlockData) (es : List Event) : CThinBlockData :=
  es.foldl (step maxAllowedSize nSizeNullTx) d

/-! ### Runs -/

variable {d : CThinBlockData} {pfrom : NodeId}

@[simp] theorem HandleBlockMessageThread_vNodes (hash : uint256) :
    (HandleBlockMessageThread d pfrom hash).vNodes = d.vNodes := by
  unfold HandleBlockMessageThread
  dsimp only
  split_ifs <;> simp [ResetThinBlockBytes]

/-- **The end of validation keeps the counts in step** exactly when a thin block is still in
flight, so that no reset happens, or when no peer holds bytes. -/
theorem HandleBlockMessageThread_inv_iff (hp : pfrom ∈ d.vNodes) (hd : d.Inv) (hash : uint256) :
    (HandleBlockMessageThread d pfrom hash).Inv ↔
      (∃ q ∈ d.vNodes, ((HandleBlockMessageThread d pfrom hash).node q).mapThinBlocksInFlight ≠ [])
        ∨ (HandleBlockMessageThread d pfrom hash).totalLocal = 0 := by
  -- `d'`: the request forgotten and the thin block cleared, if the block was in flight
  obtain ⟨d', hd', hv, heq⟩ : ∃ d' : CThinBlockData, d'.Inv ∧ d'.vNodes = d.vNodes ∧
      HandleBlockMessageThread d pfrom hash =
        if d'.vNodes.countP (fun p => !(d'.node p).mapThinBlocksInFlight.isEmpty) = 0 then
          d'.ResetThinBlockBytes else d' := by
    refine ⟨_, ?_, ?_, rfl⟩
    · split_ifs
      · exact (hd.modifyNode _ rfl).ClearThinBlockData (by simpa using hp)
      · exact hd
    · split_ifs <;> simp
  rw [heq]
  by_cases hc : d'.vNodes.countP (fun p => !(d'.node p).mapThinBlocksInFlight.isEmpty) = 0
  · -- the reset: the global count is zero, and no peer has a thin block in flight
    rw [if_pos hc]
    have hnone : ¬∃ q ∈ d.vNodes, (d'.node q).mapThinBlocksInFlight ≠ [] := by
      rintro ⟨q, hq, hne⟩
      have hq' := List.countP_eq_zero.1 hc q (hv ▸ hq)
      exact hne (by simpa using hq')
    show 0 = d'.totalLocal ↔ (∃ q ∈ d.vNodes, (d'.node q).mapThinBlocksInFlight ≠ []) ∨
      d'.totalLocal = 0
    rw [or_iff_right hnone, eq_comm]
  · rw [if_neg hc]
    obtain ⟨q, hq, hin⟩ := List.countP_pos_iff.1 (Nat.pos_of_ne_zero hc)
    simp only [Bool.not_eq_true', List.isEmpty_eq_false_iff] at hin
    exact iff_of_true hd' (.inl ⟨q, hv ▸ hq, hin⟩)

variable (maxAllowedSize nSizeNullTx : ℕ)

@[simp] theorem step_vNodes (d : CThinBlockData) (e : Event) :
    (step maxAllowedSize nSizeNullTx d e).vNodes = d.vNodes := by
  cases e <;> simp [step]

/-- **Every event but the end of validation keeps the counts in step.** -/
theorem step_inv (e : Event) (hp : e.peer ∈ d.vNodes) (hv : e.isBlockValidated = false)
    (hd : d.Inv) : (step maxAllowedSize nSizeNullTx d e).Inv := by
  cases e with
  | request p h => exact RequestThinBlock_inv hd h
  | thinblock p m txs => exact CThinBlock.process_inv maxAllowedSize hp hd m txs
  | xthinblock p v hs r => exact CXThinBlock.process_inv maxAllowedSize hp hd v hs r
  | xblocktx p h txs => exact CXThinBlockTx.HandleMessage_inv maxAllowedSize nSizeNullTx hp hd h txs
  | clearThinBlockData p => exact hd.ClearThinBlockData hp
  | clearLargest p => exact ClearLargestThinBlockAndDisconnect_inv hd
  | blockValidated p h => simp [Event.isBlockValidated] at hv

/-- A run of events from connected peers, none of them the end of a validation, keeps the global
count equal to the sum of the peers' counts. -/
theorem run_inv (es : List Event) (hp : ∀ e ∈ es, e.peer ∈ d.vNodes)
    (hv : ∀ e ∈ es, e.isBlockValidated = false) (hd : d.Inv) :
    (run maxAllowedSize nSizeNullTx d es).Inv := by
  induction es generalizing d with
  | nil => exact hd
  | cons e es ih =>
    have hstep := step_inv maxAllowedSize nSizeNullTx e (hp e List.mem_cons_self)
      (hv e List.mem_cons_self) hd
    exact ih (fun e' he' => by simpa using hp e' (List.mem_cons_of_mem e he'))
      (fun e' he' => hv e' (List.mem_cons_of_mem e he')) hstep

end Run

/-- **The reset drops bytes a peer still holds.** Peer `0` is asked for block `1`; its xthin
block misses a transaction, so the peer is asked for it, and its answer is taken as inconsistent
(the short hashes were cleared): the request is forgotten with the 624 bytes still counted on the
peer. A block from peer `1` then ends validation with no thin block in flight, and the global
count drops to zero, below the peer's own, so that `DeleteThinBlockBytes` would skip the
subtraction when the peer is cleared. Peer `1` then sends the same xthin block, which passes every
limit check for `maxAllowedSize = 256000000`, sixteen times the default excessive block size, and
the peers hold 1248 bytes while the global count says 624. -/
theorem HandleBlockMessageThread_reset_drops_bytes :
    ∃ d d' : CThinBlockData,
      d = run 256000000 0 ⟨[0, 1], fun _ => ThinNode.new, 0⟩
        [.request 0 1, .xthinblock 0 false [1, 2, 3] (some [⟨true, 300⟩, ⟨true, 300⟩, ⟨false, 0⟩]),
          .xblocktx 0 1 [(3, 250)], .blockValidated 1 2] ∧
      d' = step 256000000 0 d
        (.xthinblock 1 false [4, 5, 6] (some [⟨true, 300⟩, ⟨true, 300⟩, ⟨false, 0⟩])) ∧
      d.nThinBlockBytes = 0 ∧ (d.node 0).nLocalThinBlockBytes = 624 ∧ d.totalLocal = 624 ∧
      d'.nThinBlockBytes = 624 ∧ d'.totalLocal = 1248 ∧
      (d'.node 0).fDisconnect = false ∧ (d'.node 1).fDisconnect = false := by
  refine ⟨_, _, rfl, rfl, ?_⟩
  decide

end ThinBlockBytes

end MvfBu
