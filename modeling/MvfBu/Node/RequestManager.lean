import Mathlib.Data.Nat.Basic
import MvfBu.Lib.SortedMap
import MvfBu.Lib.Runs

set_option autoImplicit false

/-!
# The request manager (`requestManager.cpp`)

`CRequestManager` decides which peer to ask for each transaction and block the node has
heard of. It keeps one entry, a `CUnknownObj`, per object: in `mapTxnInfo` for transactions,
in `mapBlkInfo` for blocks. An entry lists the peers that announced the object
(`availableFrom`, most desirable first), counts the requests out for it and remembers when it
was last asked for. `AskFor` records an announcement and takes a reference to the peer;
`SendRequests` walks both maps, asks one peer for each object whose retry interval has passed
and releases that peer; `Received`, `AlreadyReceived` and `Rejected` report what came back;
`cleanup` forgets an entry and releases every peer it still names. Beside the maps the
manager counts the requests out (`inFlight`) and the transactions waiting (`pendingTxns`).

## Main definitions

* `MvfBu.CUnknownObj`, `MvfBu.CUnknownObj.AddSource` — an entry, and a new source for it.
* `MvfBu.CRequestManager` with `cleanup`, `AskFor`, `Received`, `AlreadyReceived`,
  `Rejected` and `SendRequests` (its two loops `sendBlockRequest` and `sendTxRequest`).
* `MvfBu.CRequestManager.run` — a sequence of operations from the empty manager.
* `MvfBu.CRequestManager.Inv` — what every state a run reaches satisfies.

## Main results

* `MvfBu.CRequestManager.run_inv` — along every run the references held on each peer are
  the entries naming it, `inFlight` is at most the requests out for transactions, and
  `pendingTxns` at most the number of transactions waiting.
* `MvfBu.CRequestManager.blockRequest_counters` — neither bound is an equality: `cleanup`
  takes a block entry's requests from `inFlight` and counts it off `pendingTxns`, so a block
  asked for, requested and received leaves both at `-1`.

## Implementation notes

Operations run one after another. `SendRequests` leaves `cs_objDownloader` around
`RequestBlock` and the insertion into the peer's `mapAskFor`; nothing else runs in between
here, so the entry found again after a failed `RequestBlock` is the one the loop changed.

What the manager reads of the rest of the node is a `ReqEnv` given with each operation: the
chain's and the network's state, the peers' flags, latencies and ping verdicts
(`IsNodePingAcceptable` compares a peer's ping with the others' statistics), the result of
`RequestBlock`, the clock at each entry the loops reach and how many requests the pacer lets
through. The manager's share of each peer's `nRefCount` is the state field `nodeRefs`.
What the operations do to the rest of the node (the messages sent, `MarkBlockAsInFlight`, the
peer's `mapAskFor` and latency statistics) and the statistics `receivedTxns`,
`rejectedTxns` and `inFlightTxns`, which nothing in the manager reads, are left out, as is
`CNodeRequestData::requestCount`, which is never read. The map keys are ordered by an
arbitrary linear order, standing for `uint256`'s byte comparison. `int` and `unsigned int`
counters are `ℤ` and `ℕ`, exact while they stay within their ranges.
-/

namespace MvfBu

/-! ### Objects, peers and the environment -/

/-- `MSG_TX`, the object type of transactions (`protocol.h`). -/
def MSG_TX : ℤ := 1

/-- `MSG_BLOCK`. -/
def MSG_BLOCK : ℤ := 2

/-- `MSG_THINBLOCK`. -/
def MSG_THINBLOCK : ℤ := 4

/-- `MSG_XTHINBLOCK`. -/
def MSG_XTHINBLOCK : ℤ := 5

/-- `CInv`: an object's type and hash. -/
structure CInv (κ : Type) where
  type : ℤ
  hash : κ
  deriving DecidableEq

/-- The block types the manager takes, the test `AskFor`, `Received` and `Rejected` make:
`MSG_BLOCK`, `MSG_THINBLOCK` or `MSG_XTHINBLOCK`. -/
def IsBlockType (type : ℤ) : Bool :=
  type == MSG_BLOCK || type == MSG_THINBLOCK || type == MSG_XTHINBLOCK

/-- `REJECT_INSUFFICIENTFEE`, the one rejection code `Rejected` acts on. -/
def REJECT_INSUFFICIENTFEE : UInt8 := 0x42

/-- `MIN_TX_REQUEST_RETRY_INTERVAL`, in microseconds. -/
def MIN_TX_REQUEST_RETRY_INTERVAL : ℤ := 5 * 1000 * 1000

/-- `MIN_BLK_REQUEST_RETRY_INTERVAL`, in microseconds. -/
def MIN_BLK_REQUEST_RETRY_INTERVAL : ℤ := 5 * 1000 * 1000

/-- What the request manager reads of the rest of the node during one operation. -/
structure ReqEnv (ν κ : Type) where
  IsChainNearlySyncd : Bool
  NetworkIDString : String
  IsTrafficShapingEnabled : Bool
  /-- `PV.IsReorgInProgress()`. -/
  IsReorgInProgress : Bool
  ThinBlockCapable : ν → Bool
  /-- `txReqLatency.GetTotal().get_int()` of a peer. -/
  txReqLatency : ν → ℤ
  fDisconnect : ν → Bool
  IsNodePingAcceptable : ν → Bool
  RequestBlock : ν → CInv κ → Bool
  /-- `GetTimeMicros()` when the block loop reaches the entry of a key. -/
  blkRequestTime : κ → ℤ
  /-- `GetTimeMicros()` when the transaction loop reaches the entry of a key. -/
  txRequestTime : κ → ℤ
  /-- How many calls of `requestPacer.try_leak(1)` succeed. -/
  requestPacer : ℕ

namespace CNode

variable {ν : Type} [DecidableEq ν] (refs : ν → ℤ)

/-- `CNode::AddRef`, on the references the manager holds. -/
def AddRef (n : ν) : ν → ℤ := Function.update refs n (refs n + 1)

/-- `CNode::Release`, on the references the manager holds. -/
def Release (n : ν) : ν → ℤ := Function.update refs n (refs n - 1)

/-- `Release` of each peer of a list in turn. -/
def ReleaseAll (ns : List ν) : ν → ℤ := ns.foldl Release refs

theorem AddRef_apply (n m : ν) : AddRef refs n m = refs m + if n = m then 1 else 0 := by
  by_cases h : n = m
  · subst h
    simp [AddRef]
  · simp [AddRef, Ne.symm h, h]

theorem Release_apply (n m : ν) : Release refs n m = refs m - if n = m then 1 else 0 := by
  by_cases h : n = m
  · subst h
    simp [Release]
  · simp [Release, Ne.symm h, h]

/-- Releasing a list takes from each peer one reference per time the list names it. -/
theorem ReleaseAll_apply (ns : List ν) (m : ν) :
    ReleaseAll refs ns m = refs m - (ns.count m : ℕ) := by
  induction ns generalizing refs with
  | nil => simp [ReleaseAll]
  | cons n ns ih =>
    rw [ReleaseAll, List.foldl_cons, ← ReleaseAll, ih, Release_apply, List.count_cons]
    by_cases h : n = m
    · subst h
      simp
      omega
    · simp [h]

end CNode

variable {ν κ : Type}

/-- `CNodeRequestData`: a source of an object and how much it is wanted. -/
structure CNodeRequestData (ν : Type) where
  desirability : ℤ
  node : ν

/-- `CNodeRequestData(CNode*)`: thin-block peers are preferred once the chain is nearly
synced, and slow ones less wanted, up to a latency of ten seconds. -/
def CNodeRequestData.new (env : ReqEnv ν κ) (n : ν) : CNodeRequestData ν :=
  let MaxLatency : ℤ := 10 * 1000 * 1000
  let latency := env.txReqLatency n
  -- a peer never asked is given an average latency of 80 ms
  let latency := if latency = 0 then 80 * 1000 else latency
  let latency := if latency > MaxLatency then MaxLatency else latency
  ⟨(if env.ThinBlockCapable n && env.IsChainNearlySyncd then MaxLatency else 0) - latency, n⟩

/-- `CUnknownObj`: the entry of an object the node wants. -/
structure CUnknownObj (ν κ : Type) where
  obj : CInv κ
  rateLimited : Bool
  lastRequestTime : ℤ
  outstandingReqs : ℕ
  availableFrom : List (CNodeRequestData ν)
  priority : ℕ

namespace CUnknownObj

/-- `CUnknownObj()`, with the object `AskFor` sets right after the insertion. -/
def new (obj : CInv κ) : CUnknownObj ν κ := ⟨obj, false, 0, 0, [], 0⟩

/-- The loop of `AddSource`: `req` goes before the first source less desirable than it, or at
the back; the flag says it went before one. -/
def insertSource (req : CNodeRequestData ν) :
    List (CNodeRequestData ν) → List (CNodeRequestData ν) × Bool
  | [] => ([req], false)
  | i :: l =>
    if i.desirability < req.desirability then (req :: i :: l, true)
    else ((i :: (insertSource req l).1), (insertSource req l).2)

variable [DecidableEq ν]

/-- `CUnknownObj::AddSource`: a peer that is not a source yet becomes one, and the manager
takes a reference to it. The result is that of the source: `true` when the new source went
before another, `false` when it is already there and also when it went at the back. -/
def AddSource (env : ReqEnv ν κ) (pfrom : ν) (refs : ν → ℤ) (o : CUnknownObj ν κ) :
    (ν → ℤ) × CUnknownObj ν κ × Bool :=
  if o.availableFrom.any (fun r => r.node == pfrom) then (refs, o, false)
  else
    (CNode.AddRef refs pfrom,
      { o with availableFrom := (insertSource (CNodeRequestData.new env pfrom) o.availableFrom).1 },
      (insertSource (CNodeRequestData.new env pfrom) o.availableFrom).2)

/-- The sources of an entry that name peer `n`. -/
def sourcesOf (o : CUnknownObj ν κ) (n : ν) : ℕ := (o.availableFrom.map CNodeRequestData.node).count n

end CUnknownObj

/-! ### The manager -/

/-- `CRequestManager`: the two maps, the positions of the two loops of `SendRequests`
(`none` is `end()`), the counters, and the references the manager holds on each peer. -/
structure CRequestManager (ν κ : Type) [LinearOrder κ] where
  mapTxnInfo : SortedMap κ (CUnknownObj ν κ)
  mapBlkInfo : SortedMap κ (CUnknownObj ν κ)
  sendIter : Option κ
  sendBlkIter : Option κ
  inFlight : ℤ
  droppedTxns : ℤ
  pendingTxns : ℤ
  nodeRefs : ν → ℤ

namespace CRequestManager

variable [LinearOrder κ] [DecidableEq ν]

/-- `CRequestManager()`: empty maps, both loops at `end()`, all counters zero. -/
def init : CRequestManager ν κ :=
  ⟨SortedMap.empty, SortedMap.empty, none, none, 0, 0, 0, fun _ => 0⟩

/-- `CRequestManager::cleanup`: forget the entry `item` of key `k`. Its requests leave
`inFlight`, `pendingTxns` drops by one, each of its sources is released, and the entry is
erased from `mapTxnInfo` if its object is a transaction and from `mapBlkInfo` otherwise, a
loop position on it moving to the next key. -/
def cleanup (s : CRequestManager ν κ) (k : κ) (item : CUnknownObj ν κ) : CRequestManager ν κ :=
  let s := { s with
    inFlight := s.inFlight - item.outstandingReqs
    droppedTxns := s.droppedTxns - ((item.outstandingReqs : ℤ) - 1)
    pendingTxns := s.pendingTxns - 1
    nodeRefs := CNode.ReleaseAll s.nodeRefs (item.availableFrom.map CNodeRequestData.node) }
  if item.obj.type = MSG_TX then
    { s with
      sendIter := if s.sendIter = some k then s.mapTxnInfo.nextKey k else s.sendIter
      mapTxnInfo := s.mapTxnInfo.erase k }
  else
    { s with
      sendBlkIter := if s.sendBlkIter = some k then s.mapBlkInfo.nextKey k else s.sendBlkIter
      mapBlkInfo := s.mapBlkInfo.erase k }

/-- `CRequestManager::AskFor(obj, from, priority)`: the entry of the object is found or made,
and `pfrom` added as a source. A new transaction entry counts in `pendingTxns`; objects of
other types are ignored. -/
def AskFor (s : CRequestManager ν κ) (env : ReqEnv ν κ) (obj : CInv κ) (pfrom : ν)
    (priority : ℕ) : CRequestManager ν κ :=
  if obj.type = MSG_TX then
    let found := s.mapTxnInfo.find? obj.hash
    let data := found.getD (CUnknownObj.new obj)
    let data := { data with obj := obj, priority := max priority data.priority }
    let r := data.AddSource env pfrom s.nodeRefs
    { s with
      mapTxnInfo := s.mapTxnInfo.insert obj.hash r.2.1
      pendingTxns := if found.isNone then s.pendingTxns + 1 else s.pendingTxns
      nodeRefs := r.1 }
  else if IsBlockType obj.type then
    let data := (s.mapBlkInfo.find? obj.hash).getD (CUnknownObj.new obj)
    let data := { data with obj := obj, priority := max priority data.priority }
    let r := data.AddSource env pfrom s.nodeRefs
    { s with mapBlkInfo := s.mapBlkInfo.insert obj.hash r.2.1, nodeRefs := r.1 }
  else s

/-- `CRequestManager::Received`: the entry of the object, if it is still there, is cleaned
up. -/
def Received (s : CRequestManager ν κ) (obj : CInv κ) : CRequestManager ν κ :=
  if obj.type = MSG_TX then
    match s.mapTxnInfo.find? obj.hash with
    | none => s
    | some item => s.cleanup obj.hash item
  else if IsBlockType obj.type then
    match s.mapBlkInfo.find? obj.hash with
    | none => s
    | some item => s.cleanup obj.hash item
  else s

/-- `CRequestManager::AlreadyReceived`: the entry of the hash, looked for among the
transactions and then among the blocks, is cleaned up. -/
def AlreadyReceived (s : CRequestManager ν κ) (obj : CInv κ) : CRequestManager ν κ :=
  match s.mapTxnInfo.find? obj.hash with
  | some item => s.cleanup obj.hash item
  | none =>
    match s.mapBlkInfo.find? obj.hash with
    | some item => s.cleanup obj.hash item
    | none => s

/-- `CRequestManager::Rejected`: a rejected transaction takes one request off `inFlight` and
one off its entry, each only when it is not zero; a fee rejection stops further requests of
the object. For an object of another type the source's iterator is never set, and the fee
rejection writes through it: no result. -/
def Rejected (s : CRequestManager ν κ) (obj : CInv κ) (reason : UInt8) :
    Option (CRequestManager ν κ) :=
  if obj.type = MSG_TX then
    match s.mapTxnInfo.find? obj.hash with
    | none => some s
    | some item =>
      let item := { item with
        outstandingReqs := if item.outstandingReqs ≠ 0 then item.outstandingReqs - 1
          else item.outstandingReqs }
      let item := if reason = REJECT_INSUFFICIENTFEE then { item with rateLimited := true }
        else item
      some { s with
        inFlight := if s.inFlight ≠ 0 then s.inFlight - 1 else s.inFlight
        mapTxnInfo := s.mapTxnInfo.insert obj.hash item }
  else if IsBlockType obj.type then
    match s.mapBlkInfo.find? obj.hash with
    | none => some s
    | some item =>
      some (if reason = REJECT_INSUFFICIENTFEE then
        { s with mapBlkInfo := s.mapBlkInfo.insert obj.hash { item with rateLimited := true } }
        else s)
  else if reason = REJECT_INSUFFICIENTFEE then none
  else some s

/-- The inner loop of `SendRequests`: sources are popped off the front until one is not to be
released. The result is the peers released on the way, the source found, and the sources
left. -/
def popSource (release : ν → Bool) :
    List (CNodeRequestData ν) → List ν × Option ν × List (CNodeRequestData ν)
  | [] => ([], none, [])
  | r :: l =>
    if release r.node then (r.node :: (popSource release l).1, (popSource release l).2)
    else ([], some r.node, l)

/-- The failure path after `RequestBlock` in `SendRequests`: the entry of the object is found
again, and its request count and time set back. -/
def unrequestBlock (s : CRequestManager ν κ) (obj : CInv κ) (lastTime : ℤ) : CRequestManager ν κ :=
  match s.mapBlkInfo.find? obj.hash with
  | none => s
  | some it =>
    { s with
      mapBlkInfo := s.mapBlkInfo.insert obj.hash { it with
        outstandingReqs := it.outstandingReqs - 1
        lastRequestTime := lastTime } }

/-- The sources the block loop of `SendRequests` releases without asking them: disconnected
peers, and during the initial download peers with an unacceptable ping. -/
def releaseBlockSource (env : ReqEnv ν κ) (n : ν) : Bool :=
  env.fDisconnect n || (!env.IsChainNearlySyncd && !env.IsNodePingAcceptable n)

/-- The body of the block loop of `SendRequests` at key `k`. Once the retry interval has
passed, the first usable source (connected, and with an acceptable ping during the initial
download) is asked by `RequestBlock` and released, the entry counting one more request unless
`RequestBlock` fails; an entry left with no source at all is cleaned up. -/
def sendBlockRequest (env : ReqEnv ν κ) (blkReqRetryInterval : ℤ) (s : CRequestManager ν κ)
    (k : κ) : CRequestManager ν κ :=
  match s.mapBlkInfo.find? k with
  | none => s
  | some item =>
    let now := env.blkRequestTime k
    if now - item.lastRequestTime > blkReqRetryInterval then
      if item.availableFrom ≠ [] then
        let p := popSource (releaseBlockSource env) item.availableFrom
        let refs := CNode.ReleaseAll s.nodeRefs p.1
        match p.2.1 with
        | none =>
          { s with
            mapBlkInfo := s.mapBlkInfo.insert k { item with availableFrom := p.2.2 }
            nodeRefs := refs }
        | some n =>
          let s := { s with
            mapBlkInfo := s.mapBlkInfo.insert k { item with
              availableFrom := p.2.2
              outstandingReqs := item.outstandingReqs + 1
              lastRequestTime := now }
            nodeRefs := refs }
          let s := if env.RequestBlock n item.obj then s
            else s.unrequestBlock item.obj item.lastRequestTime
          { s with nodeRefs := CNode.Release s.nodeRefs n }
      else s.cleanup k item
    else s

/-- The body of the transaction loop of `SendRequests` at key `k`. Once the retry interval has
passed and the object is not rate limited, the first connected source is asked and released,
and the request counted in the entry and in `inFlight`; a repeated request counts as dropped,
and an entry with no source at all is cleaned up. -/
def sendTxRequest (env : ReqEnv ν κ) (txReqRetryInterval : ℤ) (s : CRequestManager ν κ)
    (k : κ) : CRequestManager ν κ :=
  match s.mapTxnInfo.find? k with
  | none => s
  | some item =>
    let now := env.txRequestTime k
    if now - item.lastRequestTime > txReqRetryInterval then
      if !item.rateLimited then
        let s := if item.lastRequestTime ≠ 0 then { s with droppedTxns := s.droppedTxns + 1 }
          else s
        if item.availableFrom = [] then s.cleanup k item
        else
          let p := popSource env.fDisconnect item.availableFrom
          let refs := CNode.ReleaseAll s.nodeRefs p.1
          match p.2.1 with
          | none =>
            { s with
              mapTxnInfo := s.mapTxnInfo.insert k { item with availableFrom := p.2.2 }
              nodeRefs := refs }
          | some n =>
            { s with
              mapTxnInfo := s.mapTxnInfo.insert k { item with
                availableFrom := p.2.2
                outstandingReqs := item.outstandingReqs + 1
                lastRequestTime := now }
              nodeRefs := CNode.Release refs n
              inFlight := s.inFlight + 1 }
      else s
    else s

/-- `CRequestManager::SendRequests`. The block loop runs from its position to the end of
`mapBlkInfo` unless a re-org is in progress; the transaction loop runs from its position for
as many entries as the pacer lets through and stops there. A loop at `end()` starts again at
`begin()`. During the initial download and under traffic shaping the retry intervals are
longer. -/
def SendRequests (s : CRequestManager ν κ) (env : ReqEnv ν κ) : CRequestManager ν κ :=
  let slow := (!env.IsChainNearlySyncd && env.NetworkIDString != "regtest") ||
    env.IsTrafficShapingEnabled
  let blkReqRetryInterval :=
    if slow then MIN_BLK_REQUEST_RETRY_INTERVAL * 6 else MIN_BLK_REQUEST_RETRY_INTERVAL
  let txReqRetryInterval :=
    if slow then MIN_TX_REQUEST_RETRY_INTERVAL * (12 * 2) else MIN_TX_REQUEST_RETRY_INTERVAL
  let blks := s.mapBlkInfo.keysFrom s.sendBlkIter
  let nBlk := if env.IsReorgInProgress then 0 else blks.length
  let s := (blks.take nBlk).foldl (sendBlockRequest env blkReqRetryInterval) s
  let s := { s with sendBlkIter := (blks.drop nBlk).head? }
  let txs := s.mapTxnInfo.keysFrom s.sendIter
  let nTx := min env.requestPacer txs.length
  let s := (txs.take nTx).foldl (sendTxRequest env txReqRetryInterval) s
  { s with sendIter := (txs.drop nTx).head? }

/-- The operations of the manager that the rest of the node calls. -/
inductive ReqOp (ν κ : Type)
  | AskFor (obj : CInv κ) (pfrom : ν) (priority : ℕ)
  | Received (obj : CInv κ)
  | AlreadyReceived (obj : CInv κ)
  | Rejected (obj : CInv κ) (reason : UInt8)
  | SendRequests

/-- One operation, in the environment it runs in. -/
def step (s : CRequestManager ν κ) : ReqEnv ν κ × ReqOp ν κ → Option (CRequestManager ν κ)
  | (env, .AskFor obj pfrom priority) => some (s.AskFor env obj pfrom priority)
  | (_, .Received obj) => some (s.Received obj)
  | (_, .AlreadyReceived obj) => some (s.AlreadyReceived obj)
  | (_, .Rejected obj reason) => s.Rejected obj reason
  | (env, .SendRequests) => some (s.SendRequests env)

/-- A sequence of operations from the empty manager. -/
def run (ops : List (ReqEnv ν κ × ReqOp ν κ)) : Option (CRequestManager ν κ) :=
  ops.foldlM step init

end CRequestManager

/-! ### Sources and references -/

namespace CUnknownObj

/-- The loop of `AddSource` puts the new source among the others. -/
theorem insertSource_perm (req : CNodeRequestData ν) :
    ∀ l : List (CNodeRequestData ν), (insertSource req l).1.Perm (req :: l)
  | [] => List.Perm.refl _
  | i :: l => by
    rw [insertSource]
    split_ifs
    · exact List.Perm.refl _
    · exact ((insertSource_perm req l).cons i).trans (List.Perm.swap req i l)

variable [DecidableEq ν]

@[simp] theorem AddSource_obj (env : ReqEnv ν κ) (pfrom : ν) (refs : ν → ℤ)
    (o : CUnknownObj ν κ) : (o.AddSource env pfrom refs).2.1.obj = o.obj := by
  unfold AddSource
  split_ifs <;> rfl

@[simp] theorem AddSource_outstandingReqs (env : ReqEnv ν κ) (pfrom : ν) (refs : ν → ℤ)
    (o : CUnknownObj ν κ) :
    (o.AddSource env pfrom refs).2.1.outstandingReqs = o.outstandingReqs := by
  unfold AddSource
  split_ifs <;> rfl

/-- **Adding a source.** `AddSource` takes one reference on a peer per source it adds that
names the peer. -/
theorem AddSource_sourcesOf (env : ReqEnv ν κ) (pfrom : ν) (refs : ν → ℤ)
    (o : CUnknownObj ν κ) (n : ν) :
    (o.AddSource env pfrom refs).1 n + o.sourcesOf n =
      refs n + (o.AddSource env pfrom refs).2.1.sourcesOf n := by
  unfold AddSource
  split_ifs with h
  · rfl
  · -- the new source, whose peer is `pfrom`, joins the others
    have hperm := ((insertSource_perm (CNodeRequestData.new env pfrom) o.availableFrom).map
      CNodeRequestData.node).count_eq n
    have hnode : (CNodeRequestData.new env pfrom).node = pfrom := rfl
    simp only [sourcesOf, hperm, List.map_cons, hnode, List.count_cons, CNode.AddRef_apply]
    by_cases hn : pfrom = n
    · subst hn
      simp
      omega
    · simp [hn]

end CUnknownObj

namespace CRequestManager

variable [LinearOrder κ] [DecidableEq ν]

omit [DecidableEq ν] in
/-- What the loop of `SendRequests` pops off a list of sources: the peers released, the one
found, and the sources left, in the order of the list. -/
theorem popSource_nodes (release : ν → Bool) : ∀ l : List (CNodeRequestData ν),
    l.map CNodeRequestData.node =
      (popSource release l).1 ++ (popSource release l).2.1.toList ++
        (popSource release l).2.2.map CNodeRequestData.node
  | [] => rfl
  | r :: l => by
    rw [popSource]
    split_ifs
    · rw [List.map_cons, popSource_nodes release l]
      rfl
    · rfl

/-! ### The invariant -/

open SortedMap

/-- The sources naming peer `n` in the entries of a map. -/
def sourcesIn (m : SortedMap κ (CUnknownObj ν κ)) (n : ν) : ℕ := m.sumBy (·.sourcesOf n)

/-- The requests out for the entries of a map. -/
def requestsIn (m : SortedMap κ (CUnknownObj ν κ)) : ℕ := m.sumBy (·.outstandingReqs)

/-- **The request manager's invariant.** Transaction entries hold transactions and block
entries other objects, so that `cleanup` erases an entry from the map it is in; the manager
holds one reference on a peer per source naming it in either map; and `inFlight` and
`pendingTxns` are at most the transaction requests out and the transaction entries. -/
structure Inv (s : CRequestManager ν κ) : Prop where
  txn_type : s.mapTxnInfo.All fun o => o.obj.type = MSG_TX
  blk_type : s.mapBlkInfo.All fun o => o.obj.type ≠ MSG_TX
  nodeRefs_eq : ∀ n, s.nodeRefs n = (sourcesIn s.mapTxnInfo n + sourcesIn s.mapBlkInfo n : ℕ)
  inFlight_le : s.inFlight ≤ (requestsIn s.mapTxnInfo : ℤ)
  pendingTxns_le : s.pendingTxns ≤ (s.mapTxnInfo.size : ℤ)

theorem inv_init : (init : CRequestManager ν κ).Inv :=
  ⟨all_empty _, all_empty _, fun _ => rfl, Int.le_refl _, Int.le_refl _⟩

variable {s s' : CRequestManager ν κ}

/-- The invariant reads the maps, the references and the two counters only. -/
theorem Inv.congr (hs : s.Inv) (htxn : s'.mapTxnInfo = s.mapTxnInfo)
    (hblk : s'.mapBlkInfo = s.mapBlkInfo) (hrefs : s'.nodeRefs = s.nodeRefs)
    (hflight : s'.inFlight = s.inFlight) (hpend : s'.pendingTxns = s.pendingTxns) : s'.Inv := by
  obtain ⟨h1, h2, h3, h4, h5⟩ := hs
  exact ⟨htxn ▸ h1, hblk ▸ h2, htxn ▸ hblk ▸ hrefs ▸ h3, htxn ▸ hflight ▸ h4,
    htxn ▸ hpend ▸ h5⟩

/-- **One transaction entry set.** A step that sets the entry of `k` in `mapTxnInfo` to a
transaction or to nothing, keeps `mapBlkInfo`, moves each peer's references by the change in
its sources, and keeps `inFlight` and `pendingTxns` below the requests and entries of the
other keys plus the new entry's, when they were below them plus the old entry's, keeps the
invariant. -/
theorem Inv.setTxn (hs : s.Inv) {k : κ} {o : Option (CUnknownObj ν κ)}
    (htxn : s'.mapTxnInfo = s.mapTxnInfo.set k o) (hblk : s'.mapBlkInfo = s.mapBlkInfo)
    (htype : ∀ x ∈ o, x.obj.type = MSG_TX)
    (hrefs : ∀ n, s'.nodeRefs n + share (·.sourcesOf n) (s.mapTxnInfo.find? k) =
      s.nodeRefs n + share (·.sourcesOf n) o)
    (hflight : ∀ R : ℕ, s.inFlight ≤ ↑(R + share (·.outstandingReqs) (s.mapTxnInfo.find? k)) →
      s'.inFlight ≤ ↑(R + share (·.outstandingReqs) o))
    (hpend : ∀ R : ℕ, s.pendingTxns ≤ ↑(R + share (fun _ => 1) (s.mapTxnInfo.find? k)) →
      s'.pendingTxns ≤ ↑(R + share (fun _ => 1) o)) :
    s'.Inv where
  txn_type := htxn ▸ hs.txn_type.set k htype
  blk_type := hblk ▸ hs.blk_type
  nodeRefs_eq n := by
    have hold := sumBy_eq_erase_add (·.sourcesOf n) s.mapTxnInfo k
    have hnew := sumBy_set_eq (·.sourcesOf n) s.mapTxnInfo k o
    have h := hs.nodeRefs_eq n
    have h' := hrefs n
    rw [sourcesIn, htxn, hnew, hblk]
    rw [sourcesIn, hold] at h
    push_cast at h ⊢
    omega
  inFlight_le := by
    have h := hs.inFlight_le
    rw [requestsIn, sumBy_eq_erase_add _ s.mapTxnInfo k] at h
    rw [requestsIn, htxn, sumBy_set_eq]
    exact hflight _ h
  pendingTxns_le := by
    have h := hs.pendingTxns_le
    rw [size_eq_sumBy, sumBy_eq_erase_add _ s.mapTxnInfo k] at h
    rw [size_eq_sumBy, htxn, sumBy_set_eq]
    exact hpend _ h

/-- **One block entry set.** A step that sets the entry of `k` in `mapBlkInfo` to an object
that is not a transaction or to nothing, keeps `mapTxnInfo`, moves each peer's references by
the change in its sources, and does not raise `inFlight` or `pendingTxns` keeps the
invariant. -/
theorem Inv.setBlk (hs : s.Inv) {k : κ} {o : Option (CUnknownObj ν κ)}
    (htxn : s'.mapTxnInfo = s.mapTxnInfo) (hblk : s'.mapBlkInfo = s.mapBlkInfo.set k o)
    (htype : ∀ x ∈ o, x.obj.type ≠ MSG_TX)
    (hrefs : ∀ n, s'.nodeRefs n + share (·.sourcesOf n) (s.mapBlkInfo.find? k) =
      s.nodeRefs n + share (·.sourcesOf n) o)
    (hflight : s'.inFlight ≤ s.inFlight) (hpend : s'.pendingTxns ≤ s.pendingTxns) :
    s'.Inv where
  txn_type := htxn ▸ hs.txn_type
  blk_type := hblk ▸ hs.blk_type.set k htype
  nodeRefs_eq n := by
    have hold := sumBy_eq_erase_add (·.sourcesOf n) s.mapBlkInfo k
    have hnew := sumBy_set_eq (·.sourcesOf n) s.mapBlkInfo k o
    have h := hs.nodeRefs_eq n
    have h' := hrefs n
    simp only [sourcesIn] at h ⊢
    rw [hblk, hnew, htxn]
    rw [hold] at h
    push_cast at h ⊢
    omega
  inFlight_le := htxn ▸ Int.le_trans hflight hs.inFlight_le
  pendingTxns_le := htxn ▸ Int.le_trans hpend hs.pendingTxns_le

/-! ### Each operation keeps the invariant -/

/-- `cleanup` releases one reference per source of the entry. -/
theorem cleanup_nodeRefs (s : CRequestManager ν κ) (k : κ) (item : CUnknownObj ν κ) (n : ν) :
    (s.cleanup k item).nodeRefs n + item.sourcesOf n = s.nodeRefs n := by
  have h : (s.cleanup k item).nodeRefs =
      CNode.ReleaseAll s.nodeRefs (item.availableFrom.map CNodeRequestData.node) := by
    unfold cleanup
    split_ifs <;> rfl
  rw [h, CNode.ReleaseAll_apply, CUnknownObj.sourcesOf]
  omega

/-- **`cleanup` keeps the invariant**, for an entry found in either map. -/
theorem Inv.cleanup (hs : s.Inv) {k : κ} {item : CUnknownObj ν κ}
    (h : s.mapTxnInfo.find? k = some item ∨ s.mapBlkInfo.find? k = some item) :
    (s.cleanup k item).Inv := by
  have hrefs : ∀ n, (s.cleanup k item).nodeRefs n +
      share (fun o : CUnknownObj ν κ => o.sourcesOf n) (some item) =
        s.nodeRefs n + share (fun o : CUnknownObj ν κ => o.sourcesOf n) none := fun n => by
    rw [share_some, share_none, Int.natCast_zero, Int.add_zero]
    exact cleanup_nodeRefs s k item n
  rcases h with h | h
  · -- a transaction entry leaves `mapTxnInfo`, with its requests and its count
    have htx : item.obj.type = MSG_TX := hs.txn_type.of_find? h
    refine hs.setTxn (o := none) ?_ ?_ (by simp) (h ▸ hrefs) (fun R hR => ?_) (fun R hR => ?_)
    · simp [CRequestManager.cleanup, htx]
    · simp [CRequestManager.cleanup, htx]
    · simp only [h, share_some] at hR
      simp only [CRequestManager.cleanup, htx, ↓reduceIte, share_none, Nat.add_zero]
      omega
    · simp only [h, share_some] at hR
      simp only [CRequestManager.cleanup, htx, ↓reduceIte, share_none, Nat.add_zero]
      omega
  · have hblk : item.obj.type ≠ MSG_TX := hs.blk_type.of_find? h
    refine hs.setBlk (o := none) ?_ ?_ (by simp) (h ▸ hrefs) ?_ ?_
    · simp only [CRequestManager.cleanup, hblk, ↓reduceIte]
    · simp only [CRequestManager.cleanup, hblk, ↓reduceIte, set_none]
    · simp only [CRequestManager.cleanup, hblk, ↓reduceIte]
      omega
    · simp only [CRequestManager.cleanup, hblk, ↓reduceIte]
      omega

omit [LinearOrder κ] in
/-- The entry `AskFor` starts from has the sources of the one found, or none. -/
theorem sourcesOf_getD_new (found : Option (CUnknownObj ν κ)) (obj : CInv κ) (p : ℕ) (n : ν) :
    ({ found.getD (CUnknownObj.new obj) with obj := obj, priority := p } :
      CUnknownObj ν κ).sourcesOf n = share (·.sourcesOf n) found := by
  cases found <;> rfl

omit [LinearOrder κ] [DecidableEq ν] in
/-- The entry `AskFor` starts from has the requests of the one found, or none. -/
theorem outstandingReqs_getD_new (found : Option (CUnknownObj ν κ)) (obj : CInv κ) (p : ℕ) :
    ({ found.getD (CUnknownObj.new obj) with obj := obj, priority := p } :
      CUnknownObj ν κ).outstandingReqs = share (·.outstandingReqs) found := by
  cases found <;> rfl

/-- **`AskFor` keeps the invariant.** -/
theorem Inv.AskFor (hs : s.Inv) (env : ReqEnv ν κ) (obj : CInv κ) (pfrom : ν) (priority : ℕ) :
    (s.AskFor env obj pfrom priority).Inv := by
  unfold CRequestManager.AskFor
  split_ifs with htx hblk
  · -- a transaction: its entry is found or made, and the peer added as a source
    refine hs.setTxn (k := obj.hash) (o := some _) rfl rfl (by simpa using htx)
      (fun n => ?_) (fun R hR => ?_) (fun R hR => ?_)
    · rw [share_some, ← sourcesOf_getD_new _ obj (max priority _) n]
      exact CUnknownObj.AddSource_sourcesOf env pfrom s.nodeRefs _ n
    · rw [share_some, CUnknownObj.AddSource_outstandingReqs, outstandingReqs_getD_new]
      exact hR
    · cases hf : s.mapTxnInfo.find? obj.hash <;> simp only [hf, share_none, share_some] at hR ⊢
      · simp only [Option.isNone_none, ↓reduceIte]
        omega
      · simpa using hR
  · -- a block: the same in `mapBlkInfo`, with no count
    have hne : obj.type ≠ MSG_TX := htx
    refine hs.setBlk (k := obj.hash) (o := some _) rfl rfl (by simpa using hne)
      (fun n => ?_) (Int.le_refl _) (Int.le_refl _)
    rw [share_some, ← sourcesOf_getD_new _ obj (max priority _) n]
    exact CUnknownObj.AddSource_sourcesOf env pfrom s.nodeRefs _ n
  · exact hs

/-- **`Received` keeps the invariant.** -/
theorem Inv.Received (hs : s.Inv) (obj : CInv κ) : (s.Received obj).Inv := by
  unfold CRequestManager.Received
  split_ifs
  · cases h : s.mapTxnInfo.find? obj.hash with
    | none => exact hs
    | some item => exact hs.cleanup (.inl h)
  · cases h : s.mapBlkInfo.find? obj.hash with
    | none => exact hs
    | some item => exact hs.cleanup (.inr h)
  · exact hs

/-- **`AlreadyReceived` keeps the invariant.** -/
theorem Inv.AlreadyReceived (hs : s.Inv) (obj : CInv κ) : (s.AlreadyReceived obj).Inv := by
  unfold CRequestManager.AlreadyReceived
  cases h : s.mapTxnInfo.find? obj.hash with
  | some item => exact hs.cleanup (.inl h)
  | none =>
    cases h' : s.mapBlkInfo.find? obj.hash with
    | some item => exact hs.cleanup (.inr h')
    | none => exact hs

/-- **`Rejected` keeps the invariant**, when it has a result. -/
theorem Inv.Rejected (hs : s.Inv) {obj : CInv κ} {reason : UInt8}
    (h : s.Rejected obj reason = some s') : s'.Inv := by
  unfold CRequestManager.Rejected at h
  by_cases htx : obj.type = MSG_TX
  · rw [if_pos htx] at h
    cases hf : s.mapTxnInfo.find? obj.hash with
    | none =>
      rw [hf] at h
      cases h
      exact hs
    | some item =>
      -- one request off `inFlight` and one off the entry, each only if there is one
      rw [hf] at h
      cases h
      have htype : item.obj.type = MSG_TX := hs.txn_type.of_find? hf
      refine hs.setTxn (k := obj.hash) (o := some _) rfl rfl ?_ (fun n => ?_) (fun R hR => ?_)
        (fun R hR => ?_)
      · intro x hx
        cases hx
        split_ifs <;> exact htype
      · rw [hf, share_some, share_some]
        split_ifs <;> rfl
      · rw [hf, share_some] at hR
        rw [share_some]
        split_ifs <;> dsimp only <;> omega
      · simpa [hf] using hR
  · rw [if_neg htx] at h
    by_cases hblk : IsBlockType obj.type = true
    · rw [if_pos hblk] at h
      cases hf : s.mapBlkInfo.find? obj.hash with
      | none =>
        rw [hf] at h
        cases h
        exact hs
      | some item =>
        rw [hf] at h
        cases h
        split_ifs
        · -- a fee rejection marks the block entry
          have htype : item.obj.type ≠ MSG_TX := hs.blk_type.of_find? hf
          refine hs.setBlk (k := obj.hash) (o := some _) rfl rfl ?_ (fun n => ?_) (Int.le_refl _)
            (Int.le_refl _)
          · intro x hx
            cases hx
            exact htype
          · rw [hf]
            rfl
        · exact hs
    · -- an object of another type has no entry to reject
      rw [if_neg hblk] at h
      split at h
      · cases h
      · cases h
        exact hs

omit [DecidableEq ν] in
/-- The failure path of a block request leaves the references as they are. -/
theorem unrequestBlock_nodeRefs (s : CRequestManager ν κ) (obj : CInv κ) (t : ℤ) :
    (s.unrequestBlock obj t).nodeRefs = s.nodeRefs := by
  unfold CRequestManager.unrequestBlock
  split <;> rfl

omit [DecidableEq ν] in
/-- The failure path of a block request and a change of the references commute. -/
theorem unrequestBlock_with_nodeRefs (s : CRequestManager ν κ) (obj : CInv κ) (t : ℤ)
    (r : ν → ℤ) :
    { s.unrequestBlock obj t with nodeRefs := r } =
      ({ s with nodeRefs := r } : CRequestManager ν κ).unrequestBlock obj t := by
  cases h : s.mapBlkInfo.find? obj.hash <;> simp [CRequestManager.unrequestBlock, h]

/-- **The failure path of a block request keeps the invariant**: it sets one block entry's
count and time back. -/
theorem Inv.unrequestBlock (hs : s.Inv) (obj : CInv κ) (t : ℤ) : (s.unrequestBlock obj t).Inv := by
  unfold CRequestManager.unrequestBlock
  cases h : s.mapBlkInfo.find? obj.hash with
  | none => exact hs
  | some it =>
    have htype : it.obj.type ≠ MSG_TX := hs.blk_type.of_find? h
    refine hs.setBlk (k := obj.hash) (o := some _) rfl rfl ?_ (fun n => ?_) (Int.le_refl _)
      (Int.le_refl _)
    · intro x hx
      cases hx
      exact htype
    · rw [h]
      rfl

omit [LinearOrder κ] in
/-- The sources of an entry that the loops of `SendRequests` pop: the peers released, the one
found and the sources left. -/
theorem sourcesOf_popSource (release : ν → Bool) (item : CUnknownObj ν κ) (n : ν) :
    item.sourcesOf n = (popSource release item.availableFrom).1.count n +
      (popSource release item.availableFrom).2.1.toList.count n +
        ((popSource release item.availableFrom).2.2.map CNodeRequestData.node).count n := by
  rw [CUnknownObj.sourcesOf, popSource_nodes release, List.count_append, List.count_append]

/-- **One step of the block loop keeps the invariant.** -/
theorem Inv.sendBlockRequest (hs : s.Inv) (env : ReqEnv ν κ) (iv : ℤ) (k : κ) :
    (sendBlockRequest env iv s k).Inv := by
  unfold CRequestManager.sendBlockRequest
  cases h : s.mapBlkInfo.find? k with
  | none => exact hs
  | some item =>
    have htype : item.obj.type ≠ MSG_TX := hs.blk_type.of_find? h
    have hsrc := sourcesOf_popSource (releaseBlockSource env) item
    dsimp only
    split_ifs with htime hne
    · generalize popSource (releaseBlockSource env) item.availableFrom = p at hsrc ⊢
      obtain ⟨rel, next, rest⟩ := p
      cases next with
      | none =>
        -- every source was released
        dsimp only
        refine hs.setBlk (k := k) (o := some _) rfl rfl ?_ (fun n => ?_) (Int.le_refl _)
          (Int.le_refl _)
        · intro x hx
          cases hx
          exact htype
        · dsimp only
          rw [h, share_some, share_some, CNode.ReleaseAll_apply, hsrc n]
          simp only [Option.toList_none, List.count_nil, CUnknownObj.sourcesOf]
          push_cast
          omega
      | some m =>
        -- the source asked is released after the request, whatever `RequestBlock` says
        have h1 : ({ s with
            mapBlkInfo := s.mapBlkInfo.insert k { item with
              availableFrom := rest
              outstandingReqs := item.outstandingReqs + 1
              lastRequestTime := env.blkRequestTime k }
            nodeRefs := CNode.Release (CNode.ReleaseAll s.nodeRefs rel) m } :
              CRequestManager ν κ).Inv := by
          refine hs.setBlk (k := k) (o := some _) rfl rfl ?_ (fun n => ?_) (Int.le_refl _)
            (Int.le_refl _)
          · intro x hx
            cases hx
            exact htype
          · dsimp only
            rw [h, share_some, share_some, CNode.Release_apply, CNode.ReleaseAll_apply, hsrc n]
            simp only [Option.toList_some, List.count_singleton, CUnknownObj.sourcesOf]
            split_ifs <;> simp_all <;> omega
        dsimp only
        split_ifs
        · exact h1
        · rw [unrequestBlock_nodeRefs, unrequestBlock_with_nodeRefs]
          exact h1.unrequestBlock _ _
    · exact hs.cleanup (.inr h)
    · exact hs

/-- **One step of the transaction loop keeps the invariant.** -/
theorem Inv.sendTxRequest (hs : s.Inv) (env : ReqEnv ν κ) (iv : ℤ) (k : κ) :
    (sendTxRequest env iv s k).Inv := by
  unfold CRequestManager.sendTxRequest
  cases h : s.mapTxnInfo.find? k with
  | none => exact hs
  | some item =>
    have htype : item.obj.type = MSG_TX := hs.txn_type.of_find? h
    have hsrc := sourcesOf_popSource env.fDisconnect item
    dsimp only
    split
    · split
      · -- the dropped count is nothing the invariant reads
        generalize hd : (if item.lastRequestTime ≠ 0 then
          { s with droppedTxns := s.droppedTxns + 1 } else s) = sd
        have hsd : sd.Inv ∧ sd.mapTxnInfo = s.mapTxnInfo ∧ sd.nodeRefs = s.nodeRefs ∧
            sd.inFlight = s.inFlight := by
          subst hd
          split_ifs
          · exact ⟨hs.congr rfl rfl rfl rfl rfl, rfl, rfl, rfl⟩
          · exact ⟨hs, rfl, rfl, rfl⟩
        obtain ⟨hsd, htxn, hrefs, hflight⟩ := hsd
        split
        · exact hsd.cleanup (.inl (htxn ▸ h))
        · generalize popSource env.fDisconnect item.availableFrom = p at hsrc ⊢
          obtain ⟨rel, next, rest⟩ := p
          cases next with
          | none =>
            -- every source was disconnected
            dsimp only
            refine hsd.setTxn (k := k) (o := some _) rfl rfl ?_ (fun n => ?_) (fun R hR => ?_)
              (fun R hR => ?_)
            · intro x hx
              cases hx
              exact htype
            · dsimp only
              rw [htxn, h, hrefs, share_some, share_some, CNode.ReleaseAll_apply, hsrc n]
              simp only [Option.toList_none, List.count_nil, CUnknownObj.sourcesOf]
              push_cast
              omega
            · rw [htxn, h] at hR
              exact hR
            · rw [htxn, h] at hR
              exact hR
          | some m =>
            -- one request more, in the entry and in `inFlight`
            dsimp only
            refine hsd.setTxn (k := k) (o := some _) rfl rfl ?_ (fun n => ?_) (fun R hR => ?_)
              (fun R hR => ?_)
            · intro x hx
              cases hx
              exact htype
            · dsimp only
              rw [htxn, h, hrefs, share_some, share_some, CNode.Release_apply,
                CNode.ReleaseAll_apply, hsrc n]
              simp only [Option.toList_some, List.count_singleton, CUnknownObj.sourcesOf]
              split_ifs <;> simp_all <;> omega
            · rw [htxn, h, share_some] at hR
              dsimp only
              rw [hflight, share_some]
              push_cast at hR ⊢
              omega
            · rw [htxn, h] at hR
              exact hR
      · exact hs
    · exact hs

/-- The block loop of `SendRequests` keeps the invariant, over any keys. -/
theorem Inv.foldl_sendBlockRequest (hs : s.Inv) (env : ReqEnv ν κ) (iv : ℤ) (l : List κ) :
    (l.foldl (CRequestManager.sendBlockRequest env iv) s).Inv :=
  List.foldl_invariant Inv (fun _ k hs => hs.sendBlockRequest env iv k) l hs

/-- The transaction loop of `SendRequests` keeps the invariant, over any keys. -/
theorem Inv.foldl_sendTxRequest (hs : s.Inv) (env : ReqEnv ν κ) (iv : ℤ) (l : List κ) :
    (l.foldl (CRequestManager.sendTxRequest env iv) s).Inv :=
  List.foldl_invariant Inv (fun _ k hs => hs.sendTxRequest env iv k) l hs

/-- **`SendRequests` keeps the invariant**: each step of its two loops does, and the loop
positions are nothing the invariant reads. -/
theorem Inv.SendRequests (hs : s.Inv) (env : ReqEnv ν κ) : (s.SendRequests env).Inv := by
  unfold CRequestManager.SendRequests
  refine Inv.congr (Inv.foldl_sendTxRequest ?_ env _ _) rfl rfl rfl rfl rfl
  exact Inv.congr (hs.foldl_sendBlockRequest env _ _) rfl rfl rfl rfl rfl

/-- **Every operation keeps the invariant.** -/
theorem Inv.step (hs : s.Inv) {a : ReqEnv ν κ × ReqOp ν κ} (h : s.step a = some s') : s'.Inv := by
  obtain ⟨env, op⟩ := a
  cases op with
  | AskFor obj pfrom priority =>
    cases h
    exact hs.AskFor env obj pfrom priority
  | Received obj =>
    cases h
    exact hs.Received obj
  | AlreadyReceived obj =>
    cases h
    exact hs.AlreadyReceived obj
  | Rejected obj reason => exact hs.Rejected h
  | SendRequests =>
    cases h
    exact hs.SendRequests env

/-- **Every run keeps the invariant.** Along every sequence of operations from the empty
manager, the references the manager holds on each peer are the sources naming it,
`inFlight` is at most the requests out for transactions, and `pendingTxns` at most the
transaction entries. -/
theorem run_inv {ops : List (ReqEnv ν κ × ReqOp ν κ)} {s : CRequestManager ν κ}
    (h : run ops = some s) : s.Inv :=
  List.foldlM_invariant Inv (fun _ _ _ hs h => hs.step h) ops inv_init h

/-- A synced node whose one peer is connected and answers every block request, ten seconds
after start. -/
def syncedEnv : ReqEnv ℕ ℕ where
  IsChainNearlySyncd := true
  NetworkIDString := "main"
  IsTrafficShapingEnabled := false
  IsReorgInProgress := false
  ThinBlockCapable _ := false
  txReqLatency _ := 0
  fDisconnect _ := false
  IsNodePingAcceptable _ := true
  RequestBlock _ _ := true
  blkRequestTime _ := 10 * 1000 * 1000
  txRequestTime _ := 10 * 1000 * 1000
  requestPacer := 512

/-- **The counters are not what they count.** A block announced by a peer, requested from it
and received leaves no transaction entry and no transaction request, but `pendingTxns` and
`inFlight` at `-1`: `cleanup` counts the block entry off `pendingTxns`, which only
transaction entries raise, and takes its request from `inFlight`, which only transaction
requests raise. -/
theorem blockRequest_counters :
    (run [(syncedEnv, ReqOp.AskFor ⟨MSG_BLOCK, 7⟩ 0 0), (syncedEnv, ReqOp.SendRequests),
        (syncedEnv, ReqOp.Received ⟨MSG_BLOCK, 7⟩)]).map
      (fun s => (s.mapTxnInfo.size, requestsIn s.mapTxnInfo, s.pendingTxns, s.inFlight)) =
      some (0, 0, -1, -1) := by
  decide

end CRequestManager

end MvfBu
