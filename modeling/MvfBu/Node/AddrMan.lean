import MvfBu.Lib.SortedMap
import MvfBu.Lib.SlotTable
import MvfBu.Lib.IntConv

set_option autoImplicit false

/-!
# The address manager (`addrman.cpp`)

`CAddrMan` keeps the addresses it has heard of in `mapInfo`, by id, with `mapAddr` from
address to id and `vRandom` listing the ids in a random order, each entry knowing its place
there (`nRandomPos`). An address that was never connected to sits in one to eight slots of
the 1024 "new" buckets; one that was is in exactly one slot of the 256 "tried" buckets. The
bucket and the slot in it come from keyed hashes of the address, its group and its source.
`Check_` recomputes all of this and returns `0` when it is consistent.

## Main definitions

* `MvfBu.CAddrInfo`, `MvfBu.CAddrMan`, `MvfBu.AddrHashes` — the entries, the manager, and
  the keyed hashes that place an entry in the tables.
* `MvfBu.CAddrMan.Create`, `SwapRandom`, `Delete`, `ClearNew`, `MakeTried` — the internal
  steps.
* `MvfBu.CAddrMan.Add_`, `Good_`, `Attempt_`, `GetAddr_`, `Connected_` — the operations.
* `MvfBu.CAddrMan.Check_` — the consistency check of `DEBUG_ADDRMAN`.
* `MvfBu.CAddrMan.run` — a sequence of operations from an empty manager.

## Implementation notes

The two tables are `SlotTable` functions, `mapInfo` a `SortedMap` (`Check_` walks it in key
order) and `mapAddr` a function to `Option ℤ`. Every `assert` is an `Option`: `none` is an
aborted run. Randomness and the clock are inputs of the operations: `RandomInt(n)` is a
given number reduced mod `n`, `GetAdjustedTime()` a given time. `Select_` changes nothing,
so it steps to the same state; what it returns is left out, as are `nServices`, which no
check reads, and the `LogPrint` calls. Where the C++ reads `mapInfo[id]` with `operator[]`
for an id the tables hold, a missing id would insert a default entry; no reachable state
misses one, and the model stops there. The hash functions take the key; `nIdCount` is an
unbounded integer, a run of 2^31 creations apart.
-/

namespace MvfBu

open SlotTable

/-- `ADDRMAN_TRIED_BUCKET_COUNT`. -/
def ADDRMAN_TRIED_BUCKET_COUNT : ℕ := 256

/-- `ADDRMAN_NEW_BUCKET_COUNT`. -/
def ADDRMAN_NEW_BUCKET_COUNT : ℕ := 1024

/-- `ADDRMAN_BUCKET_SIZE`. -/
def ADDRMAN_BUCKET_SIZE : ℕ := 64

/-- `ADDRMAN_NEW_BUCKETS_PER_ADDRESS`. -/
def ADDRMAN_NEW_BUCKETS_PER_ADDRESS : ℤ := 8

/-- `ADDRMAN_HORIZON_DAYS`. -/
def ADDRMAN_HORIZON_DAYS : ℤ := 30

/-- `ADDRMAN_RETRIES`. -/
def ADDRMAN_RETRIES : ℤ := 3

/-- `ADDRMAN_MAX_FAILURES`. -/
def ADDRMAN_MAX_FAILURES : ℤ := 10

/-- `ADDRMAN_MIN_FAIL_DAYS`. -/
def ADDRMAN_MIN_FAIL_DAYS : ℤ := 7

/-- `ADDRMAN_GETADDR_MAX_PCT`. -/
def ADDRMAN_GETADDR_MAX_PCT : ℕ := 23

/-- `ADDRMAN_GETADDR_MAX`. -/
def ADDRMAN_GETADDR_MAX : ℕ := 2500

/-- A tried bucket. -/
abbrev TriedBucket := Fin ADDRMAN_TRIED_BUCKET_COUNT

/-- A new bucket. -/
abbrev NewBucket := Fin ADDRMAN_NEW_BUCKET_COUNT

/-- A slot in a bucket. -/
abbrev BucketPos := Fin ADDRMAN_BUCKET_SIZE

/-- `CService`: a network address (`CNetAddr`) and a port. -/
structure CService (α : Type) where
  ip : α
  port : ℕ
  deriving DecidableEq

/-- `CAddress`: a service with the time it was last seen. -/
structure CAddress (α : Type) where
  service : CService α
  nTime : ℤ

/-- `CAddrInfo`: an address with its statistics and its places in the tables. -/
structure CAddrInfo (α : Type) where
  service : CService α
  nTime : ℤ
  nLastTry : ℤ
  nLastCountAttempt : ℤ
  source : α
  nLastSuccess : ℤ
  nAttempts : ℤ
  nRefCount : ℤ
  fInTried : Bool
  nRandomPos : ℤ

variable {α : Type} [DecidableEq α]

/-- `CAddrInfo(addr, addrSource)`, with `Init()`. -/
def CAddrInfo.new (addr : CAddress α) (source : α) : CAddrInfo α :=
  ⟨addr.service, addr.nTime, 0, 0, source, 0, 0, 0, false, -1⟩

/-- `CAddrInfo::IsTerrible`. -/
def CAddrInfo.IsTerrible (info : CAddrInfo α) (nNow : ℤ) : Bool :=
  if info.nLastTry ≠ 0 ∧ info.nLastTry ≥ nNow - 60 then false
  else if info.nTime > nNow + 10 * 60 then true
  else if info.nTime = 0 ∨ nNow - info.nTime > ADDRMAN_HORIZON_DAYS * 24 * 60 * 60 then true
  else if info.nLastSuccess = 0 ∧ info.nAttempts ≥ ADDRMAN_RETRIES then true
  else if nNow - info.nLastSuccess > ADDRMAN_MIN_FAIL_DAYS * 24 * 60 * 60 ∧
      info.nAttempts ≥ ADDRMAN_MAX_FAILURES then true
  else false

/-- The keyed hashes of `CAddrInfo` (`GetTriedBucket`, `GetNewBucket`, `GetBucketPosition`),
as functions of the key, and `CNetAddr::IsRoutable`. -/
structure AddrHashes (α : Type) where
  GetTriedBucket : ℕ → CService α → TriedBucket
  GetNewBucket : ℕ → CService α → α → NewBucket
  GetBucketPosition : ℕ → CService α → Bool → ℕ → BucketPos
  IsRoutable : α → Bool

/-- The state of `CAddrMan`. -/
structure CAddrMan (α : Type) where
  nKey : ℕ
  nIdCount : ℤ
  mapInfo : SortedMap ℤ (CAddrInfo α)
  mapAddr : α → Option ℤ
  vRandom : List ℤ
  nTried : ℤ
  vvTried : TriedBucket → BucketPos → ℤ
  nNew : ℤ
  vvNew : NewBucket → BucketPos → ℤ
  nLastGood : ℤ

namespace CAddrMan

/-- `CAddrMan()`: `Clear()` with the key it draws. -/
def init (nKey : ℕ) : CAddrMan α :=
  ⟨nKey, 0, SortedMap.empty, fun _ => none, [], 0, fun _ _ => -1, 0, fun _ _ => -1, 1⟩

variable (h : AddrHashes α)

/-- Writing fields of `mapInfo[nId]` for an id in `mapInfo`. -/
def modifyInfo (s : CAddrMan α) (nId : ℤ) (f : CAddrInfo α → CAddrInfo α) : CAddrMan α :=
  match s.mapInfo.find? nId with
  | none => s
  | some info => { s with mapInfo := s.mapInfo.insert nId (f info) }

/-- `CAddrMan::Find`: the id and the entry of an address. -/
def Find (s : CAddrMan α) (addr : α) : Option (ℤ × CAddrInfo α) :=
  match s.mapAddr addr with
  | none => none
  | some nId => (s.mapInfo.find? nId).map fun info => (nId, info)

/-- `CAddrMan::Create`: a new entry at the end of `vRandom`, and its id. -/
def Create (s : CAddrMan α) (addr : CAddress α) (addrSource : α) : CAddrMan α × ℤ :=
  let nId := s.nIdCount
  ({ s with
      nIdCount := nId + 1
      mapInfo := s.mapInfo.insert nId
        { CAddrInfo.new addr addrSource with nRandomPos := s.vRandom.length }
      mapAddr := Function.update s.mapAddr addr.service.ip (some nId)
      vRandom := s.vRandom ++ [nId] }, nId)

/-- `CAddrMan::SwapRandom`: exchange two places of `vRandom`. -/
def SwapRandom (s : CAddrMan α) (nRndPos1 nRndPos2 : ℕ) : Option (CAddrMan α) :=
  if nRndPos1 = nRndPos2 then some s
  else if h1 : nRndPos1 < s.vRandom.length then
    if h2 : nRndPos2 < s.vRandom.length then
      let nId1 := s.vRandom[nRndPos1]
      let nId2 := s.vRandom[nRndPos2]
      if (s.mapInfo.find? nId1).isSome ∧ (s.mapInfo.find? nId2).isSome then
        let s := s.modifyInfo nId1 fun info => { info with nRandomPos := nRndPos2 }
        let s := s.modifyInfo nId2 fun info => { info with nRandomPos := nRndPos1 }
        some { s with vRandom := (s.vRandom.set nRndPos1 nId2).set nRndPos2 nId1 }
      else none
    else none
  else none

/-- `CAddrMan::Delete`: remove a new entry that no bucket holds; nothing when the id is
gone already. -/
def Delete (s : CAddrMan α) (nId : ℤ) : Option (CAddrMan α) :=
  match s.mapInfo.find? nId with
  | none => some s
  | some info =>
    if info.fInTried ∨ info.nRefCount ≠ 0 then none
    else
      (s.SwapRandom (IntConv.toUnsigned 32 info.nRandomPos)
        (IntConv.toUnsigned 32 (s.vRandom.length - 1 : ℤ))).map fun s =>
        { s with
          vRandom := s.vRandom.dropLast
          mapAddr := Function.update s.mapAddr info.service.ip none
          mapInfo := s.mapInfo.erase nId
          nNew := s.nNew - 1 }

/-- `CAddrMan::ClearNew`: empty a new slot, deleting its entry when no other slot holds
it. -/
def ClearNew (s : CAddrMan α) (nUBucket : NewBucket) (nUBucketPos : BucketPos) :
    Option (CAddrMan α) :=
  if s.vvNew nUBucket nUBucketPos ≠ -1 then
    let nIdDelete := s.vvNew nUBucket nUBucketPos
    match s.mapInfo.find? nIdDelete with
    | none => none
    | some infoDelete =>
      if infoDelete.nRefCount > 0 then
        let s := { s with
          mapInfo := s.mapInfo.insert nIdDelete
            { infoDelete with nRefCount := infoDelete.nRefCount - 1 }
          vvNew := setSlot s.vvNew nUBucket nUBucketPos (-1) }
        if infoDelete.nRefCount - 1 = 0 then s.Delete nIdDelete else some s
      else none
  else some s

/-- One turn of the first loop of `MakeTried`: empty the slot of `bucket` that would hold the
entry, if it does. -/
def clearNewBucket (nId : ℤ) (service : CService α) (s : CAddrMan α) (bucket : NewBucket) :
    CAddrMan α :=
  let pos := h.GetBucketPosition s.nKey service true bucket
  if s.vvNew bucket pos = nId then
    { s.modifyInfo nId (fun info => { info with nRefCount := info.nRefCount - 1 }) with
      vvNew := setSlot s.vvNew bucket pos (-1) }
  else s

/-- The eviction of `MakeTried`: the entry in the tried slot goes back to its new bucket,
emptying the slot there first. -/
def evictTried (s : CAddrMan α) (nKBucket : TriedBucket) (nKBucketPos : BucketPos) :
    Option (CAddrMan α) :=
  let nIdEvict := s.vvTried nKBucket nKBucketPos
  match s.mapInfo.find? nIdEvict with
  | none => none
  | some infoOld =>
    let s := { s.modifyInfo nIdEvict (fun info => { info with fInTried := false }) with
      vvTried := setSlot s.vvTried nKBucket nKBucketPos (-1)
      nTried := s.nTried - 1 }
    let nUBucket := h.GetNewBucket s.nKey infoOld.service infoOld.source
    let nUBucketPos := h.GetBucketPosition s.nKey infoOld.service true nUBucket
    (s.ClearNew nUBucket nUBucketPos).bind fun s =>
      if s.vvNew nUBucket nUBucketPos ≠ -1 then none
      else some { s.modifyInfo nIdEvict (fun info => { info with nRefCount := 1 }) with
        vvNew := setSlot s.vvNew nUBucket nUBucketPos nIdEvict
        nNew := s.nNew + 1 }

/-- `CAddrMan::MakeTried`: move the entry `nId` from the new buckets to its tried slot,
evicting the entry there. -/
def MakeTried (s : CAddrMan α) (nId : ℤ) : Option (CAddrMan α) :=
  match s.mapInfo.find? nId with
  | none => none
  | some info =>
    let s := (List.finRange ADDRMAN_NEW_BUCKET_COUNT).foldl (clearNewBucket h nId info.service) s
    let s := { s with nNew := s.nNew - 1 }
    match s.mapInfo.find? nId with
    | none => none
    | some info =>
      if info.nRefCount ≠ 0 then none
      else
        let nKBucket := h.GetTriedBucket s.nKey info.service
        let nKBucketPos := h.GetBucketPosition s.nKey info.service false nKBucket
        let evicted :=
          if s.vvTried nKBucket nKBucketPos ≠ -1 then s.evictTried h nKBucket nKBucketPos
          else some s
        evicted.bind fun s =>
          if s.vvTried nKBucket nKBucketPos ≠ -1 then none
          else some { s.modifyInfo nId (fun info => { info with fInTried := true }) with
            vvTried := setSlot s.vvTried nKBucket nKBucketPos nId
            nTried := s.nTried + 1 }

/-- `CAddrMan::Good_`: record a successful connection, and move the entry to the tried
table if a new bucket holds it (looked for from bucket `RandomInt(1024)` on). -/
def Good_ (s : CAddrMan α) (addr : CService α) (nTime : ℤ) (nRnd : ℕ) : Option (CAddrMan α) :=
  let s := { s with nLastGood := nTime }
  match s.Find addr.ip with
  | none => some s
  | some (nId, info) =>
    if info.service ≠ addr then some s
    else
      let info := { info with nLastSuccess := nTime, nLastTry := nTime, nAttempts := 0 }
      let s := { s with mapInfo := s.mapInfo.insert nId info }
      if info.fInTried then some s
      else
        let nStart := nRnd % ADDRMAN_NEW_BUCKET_COUNT
        let found := (List.range ADDRMAN_NEW_BUCKET_COUNT).any fun n =>
          let nB : NewBucket := ⟨(n + nStart) % ADDRMAN_NEW_BUCKET_COUNT, Nat.mod_lt _ (by decide)⟩
          s.vvNew nB (h.GetBucketPosition s.nKey info.service true nB) = nId
        if found then s.MakeTried h nId else some s

/-- The end of `CAddrMan::Add_`: put the entry in the slot of its new bucket for `source`,
overwriting a terrible entry or one held elsewhere when the entry has no slot yet, and
deleting an entry that found no slot. -/
def addToNew (s : CAddrMan α) (nId : ℤ) (source : α) (nAdjustedTime : ℤ) :
    Option (CAddrMan α) :=
  match s.mapInfo.find? nId with
  | none => none
  | some pinfo =>
    let nUBucket := h.GetNewBucket s.nKey pinfo.service source
    let nUBucketPos := h.GetBucketPosition s.nKey pinfo.service true nUBucket
    let nExisting := s.vvNew nUBucket nUBucketPos
    if nExisting ≠ nId then
      let fInsert : Option Bool :=
        if nExisting = -1 then some true
        else (s.mapInfo.find? nExisting).map fun infoExisting =>
          infoExisting.IsTerrible nAdjustedTime ||
            decide (infoExisting.nRefCount > 1 ∧ pinfo.nRefCount = 0)
      fInsert.bind fun fInsert =>
        if fInsert then
          (s.ClearNew nUBucket nUBucketPos).map fun s =>
            { s.modifyInfo nId (fun info => { info with nRefCount := info.nRefCount + 1 }) with
              vvNew := setSlot s.vvNew nUBucket nUBucketPos nId }
        else if pinfo.nRefCount = 0 then s.Delete nId
        else some s
    else some s

/-- `CAddrMan::Add_`: add an address heard from `source`, or refresh it and maybe give it one
more new bucket; whether it was new. -/
def Add_ (s : CAddrMan α) (addr : CAddress α) (source : α) (nTimePenalty nAdjustedTime : ℤ)
    (nRnd : ℕ) : Option (CAddrMan α × Bool) :=
  if !h.IsRoutable addr.service.ip then some (s, false)
  else
    match s.Find addr.service.ip with
    | some (nId, pinfo) =>
      let fCurrentlyOnline := decide (nAdjustedTime - addr.nTime < 24 * 60 * 60)
      let nUpdateInterval : ℤ := if fCurrentlyOnline then 60 * 60 else 24 * 60 * 60
      let pinfo :=
        if addr.nTime ≠ 0 ∧
            (pinfo.nTime = 0 ∨ pinfo.nTime < addr.nTime - nUpdateInterval - nTimePenalty) then
          { pinfo with nTime := max 0 (addr.nTime - nTimePenalty) }
        else pinfo
      let s := { s with mapInfo := s.mapInfo.insert nId pinfo }
      if addr.nTime = 0 ∨ (pinfo.nTime ≠ 0 ∧ addr.nTime ≤ pinfo.nTime) then some (s, false)
      else if pinfo.fInTried then some (s, false)
      else if pinfo.nRefCount = ADDRMAN_NEW_BUCKETS_PER_ADDRESS then some (s, false)
      else
        -- the stochastic test: `RandomInt(2 ^ nRefCount) != 0` gives up
        let nFactor := 2 ^ pinfo.nRefCount.toNat
        if nFactor > 1 ∧ nRnd % nFactor ≠ 0 then some (s, false)
        else (s.addToNew h nId source nAdjustedTime).map fun s => (s, false)
    | none =>
      let (s, nId) := s.Create addr source
      let s := s.modifyInfo nId fun info => { info with nTime := max 0 (info.nTime - nTimePenalty) }
      let s := { s with nNew := s.nNew + 1 }
      (s.addToNew h nId source nAdjustedTime).map fun s => (s, true)

/-- `CAddrMan::Attempt_`: record a connection attempt. -/
def Attempt_ (s : CAddrMan α) (addr : CService α) (fCountFailure : Bool) (nTime : ℤ) :
    CAddrMan α :=
  match s.Find addr.ip with
  | none => s
  | some (nId, info) =>
    if info.service ≠ addr then s
    else
      let info := { info with nLastTry := nTime }
      let info :=
        if fCountFailure ∧ info.nLastCountAttempt < s.nLastGood then
          { info with nLastCountAttempt := nTime, nAttempts := info.nAttempts + 1 }
        else info
      { s with mapInfo := s.mapInfo.insert nId info }

/-- `CAddrMan::Connected_`: refresh the time of a connected address every twenty minutes. -/
def Connected_ (s : CAddrMan α) (addr : CService α) (nTime : ℤ) : CAddrMan α :=
  match s.Find addr.ip with
  | none => s
  | some (nId, info) =>
    if info.service ≠ addr then s
    else if nTime - info.nTime > 20 * 60 then
      { s with mapInfo := s.mapInfo.insert nId { info with nTime := nTime } }
    else s

/-- The loop of `CAddrMan::GetAddr_` from place `n`: shuffle `vRandom` into place and collect
the addresses that are not terrible, until `nNodes` of them. -/
def getAddrLoop (nNodes : ℕ) (nNow : ℤ) (rnd : ℕ → ℕ) :
    ℕ → ℕ → CAddrMan α → List (CAddress α) → Option (CAddrMan α × List (CAddress α))
  | 0, _, s, vAddr => some (s, vAddr)
  | k + 1, n, s, vAddr =>
    if vAddr.length ≥ nNodes then some (s, vAddr)
    else
      let nRndPos := rnd n % (s.vRandom.length - n) + n
      (s.SwapRandom n nRndPos).bind fun s =>
        match s.vRandom[n]?.bind s.mapInfo.find? with
        | none => none
        | some ai =>
          let vAddr := if ai.IsTerrible nNow then vAddr else vAddr ++ [⟨ai.service, ai.nTime⟩]
          getAddrLoop nNodes nNow rnd k (n + 1) s vAddr

/-- `CAddrMan::GetAddr_`: up to 23% of the addresses, at most 2500, in random order. -/
def GetAddr_ (s : CAddrMan α) (nNow : ℤ) (rnd : ℕ → ℕ) :
    Option (CAddrMan α × List (CAddress α)) :=
  let nNodes := min (ADDRMAN_GETADDR_MAX_PCT * s.vRandom.length / 100) ADDRMAN_GETADDR_MAX
  getAddrLoop nNodes nNow rnd s.vRandom.length 0 s []

/-! ### `Check_` -/

/-- One entry of the loop of `Check_` over `mapInfo`: the tried ids so far and the reference
counts of the new entries, or the first error. -/
def checkInfo (s : CAddrMan α) (acc : List ℤ × SortedMap ℤ ℤ) (e : ℤ × CAddrInfo α) :
    Except ℤ (List ℤ × SortedMap ℤ ℤ) := do
  let n := e.1
  let info := e.2
  let acc ←
    if info.fInTried then
      if info.nLastSuccess = 0 then throw (-1)
      else if info.nRefCount ≠ 0 then throw (-2)
      else pure (acc.1.insert n, acc.2)
    else
      if info.nRefCount < 0 ∨ info.nRefCount > ADDRMAN_NEW_BUCKETS_PER_ADDRESS then throw (-3)
      else if info.nRefCount = 0 then throw (-4)
      else pure (acc.1, acc.2.insert n info.nRefCount)
  if (s.mapAddr info.service.ip).getD 0 ≠ n then throw (-5)
  if info.nRandomPos < 0 ∨ s.vRandom[info.nRandomPos.toNat]? ≠ some n then throw (-14)
  if info.nLastTry < 0 then throw (-6)
  if info.nLastSuccess < 0 then throw (-8)
  pure acc

/-- One slot of the loop of `Check_` over the tried table: each id found is taken out of
the tried ids, and must sit in its own slot. -/
def checkTriedSlot (s : CAddrMan α) (setTried : List ℤ) (p : TriedBucket × BucketPos) :
    Except ℤ (List ℤ) :=
  let nId := s.vvTried p.1 p.2
  if nId ≠ -1 then
    if nId ∉ setTried then throw (-11)
    else
      match s.mapInfo.find? nId with
      | none => throw (-11)
      | some info =>
        if h.GetTriedBucket s.nKey info.service ≠ p.1 then throw (-17)
        else if h.GetBucketPosition s.nKey info.service false p.1 ≠ p.2 then throw (-18)
        else pure (setTried.erase nId)
  else pure setTried

/-- One slot of the loop of `Check_` over the new table: each id found uses up one of its
references, and must sit in its own slot of the bucket. -/
def checkNewSlot (s : CAddrMan α) (mapNew : SortedMap ℤ ℤ) (p : NewBucket × BucketPos) :
    Except ℤ (SortedMap ℤ ℤ) :=
  let nId := s.vvNew p.1 p.2
  if nId ≠ -1 then
    match mapNew.find? nId with
    | none => throw (-12)
    | some c =>
      match s.mapInfo.find? nId with
      | none => throw (-12)
      | some info =>
        if h.GetBucketPosition s.nKey info.service true p.1 ≠ p.2 then throw (-19)
        else if c - 1 = 0 then pure (mapNew.erase nId) else pure (mapNew.insert nId (c - 1))
  else pure mapNew

/-- `CAddrMan::Check_`: `0` when the manager is consistent, else the code of the first check
that fails. -/
def Check_ (s : CAddrMan α) : ℤ :=
  if (s.vRandom.length : ℤ) ≠ s.nTried + s.nNew then -7
  else
    match s.mapInfo.entries.foldlM s.checkInfo ([], SortedMap.empty) with
    | .error err => err
    | .ok (setTried, mapNew) =>
      if (setTried.length : ℤ) ≠ s.nTried then -9
      else if (mapNew.size : ℤ) ≠ s.nNew then -10
      else
        match (slots _ _).foldlM (s.checkTriedSlot h) setTried with
        | .error err => err
        | .ok setTried =>
          match (slots _ _).foldlM (s.checkNewSlot h) mapNew with
          | .error err => err
          | .ok mapNew =>
            if setTried.length ≠ 0 then -13
            else if mapNew.size ≠ 0 then -15
            else if s.nKey = 0 then -16
            else 0

/-! ### Runs -/

/-- The operations of the manager, with the random numbers and times they read. -/
inductive Op (α : Type) where
  | Add_ (addr : CAddress α) (source : α) (nTimePenalty nAdjustedTime : ℤ) (nRnd : ℕ)
  | Good_ (addr : CService α) (nTime : ℤ) (nRnd : ℕ)
  | Attempt_ (addr : CService α) (fCountFailure : Bool) (nTime : ℤ)
  | Select_ (newOnly : Bool)
  | GetAddr_ (nNow : ℤ) (rnd : ℕ → ℕ)
  | Connected_ (addr : CService α) (nTime : ℤ)

/-- One operation; `none` when an assertion fails. -/
def step (s : CAddrMan α) : Op α → Option (CAddrMan α)
  | .Add_ addr source nTimePenalty nAdjustedTime nRnd =>
    (s.Add_ h addr source nTimePenalty nAdjustedTime nRnd).map Prod.fst
  | .Good_ addr nTime nRnd => s.Good_ h addr nTime nRnd
  | .Attempt_ addr fCountFailure nTime => some (s.Attempt_ addr fCountFailure nTime)
  | .Select_ _ => some s
  | .GetAddr_ nNow rnd => (s.GetAddr_ nNow rnd).map Prod.fst
  | .Connected_ addr nTime => some (s.Connected_ addr nTime)

/-- A sequence of operations from an empty manager with key `nKey`. -/
def run (nKey : ℕ) (ops : List (Op α)) : Option (CAddrMan α) :=
  ops.foldlM (step h) (init nKey)

end CAddrMan

end MvfBu
