import Mathlib.Data.List.AList
import MvfBu.Primitives.Coins

set_option autoImplicit false

/-!
# The coins cache (`coins.h`, `coins.cpp` `CCoinsViewCache`)

A `CCoinsViewCache` keeps coins fetched from the view beneath it (its parent, another cache or
the database) and the changes made to them, each entry with two flags: `DIRTY`, the entry may
differ from the parent's, and `FRESH`, the parent has no coins for it or pruned ones. Reads
(`GetCoins`, `AccessCoins`) go through `FetchCoins`, which copies what the parent has into the
cache. `ModifyCoins` hands out a `CCoinsModifier`; its destructor cleans the coins up, erases a
fresh entry that ends pruned, and corrects `cachedCoinsUsage`. `ModifyNewCoins` starts from
empty coins marked fresh without asking the parent. `Flush` writes the dirty entries into the
parent (`BatchWrite`) and empties the cache; `Uncache` drops an entry that is neither dirty nor
fresh.

Caches are stacked over one base view, as in `coins_cache_simulation_test`: each layer's parent
is the layer beneath, the last one's the base.

## Main definitions

* `MvfBu.CCoinsCacheEntry`, `MvfBu.CCoinsViewCache`, `MvfBu.CoinsBase`.
* `MvfBu.GetCoins` — `GetCoins` through a stack of caches, each fetching from the one beneath.
* `MvfBu.ModifyCoins`, `MvfBu.ModifyNewCoins` — a change made through a `CCoinsModifier`.
* `MvfBu.CCoinsViewCache.BatchWrite`, `MvfBu.CoinsBase.BatchWrite`, `MvfBu.FlushAt`,
  `MvfBu.CCoinsViewCache.Uncache`.
* `MvfBu.CacheOp`, `MvfBu.CoinsStack.step` — the operations on a stack and one step.

## Implementation notes

`cacheCoins` is an `AList` keyed by transaction id. The memory a `CCoins` takes,
`DynamicMemoryUsage`, depends on the allocator and on the capacity of its vectors; it is a
parameter. The base view stands for `CCoinsViewDB` and the test's `CCoinsViewTest`: it may
report a pruned entry as absent (`hide`) and may drop a pruned entry it is sent (`drop`), the
choices being arguments of the operations. `hashBlock`, `hasModifier` (no two modifiers are
ever alive here) and the locks are left out.
-/

namespace MvfBu

/-- `CCoinsCacheEntry`: cached coins and the two bits of `flags`, `DIRTY` and `FRESH`. -/
structure CCoinsCacheEntry where
  coins : CCoins
  dirty : Bool
  fresh : Bool
  deriving DecidableEq, Repr

/-- `CCoinsMap`: the entries of a cache by transaction id. -/
abbrev CCoinsMap := AList fun _ : uint256 => CCoinsCacheEntry

/-- `CCoinsViewCache`: the entries and the memory they take, `cachedCoinsUsage`. -/
structure CCoinsViewCache where
  cacheCoins : CCoinsMap
  cachedCoinsUsage : ℕ

/-- The view at the bottom of a stack of caches: the coins it stores by transaction id. -/
structure CoinsBase where
  map : AList fun _ : uint256 => CCoins

namespace CoinsBase

/-- `GetCoins(txid, coins)` of the base: the stored coins, except that a pruned entry is
reported as absent when `hide` is set. -/
def GetCoins (base : CoinsBase) (hide : Bool) (txid : uint256) : Option CCoins :=
  match base.map.lookup txid with
  | some coins => if hide && coins.IsPruned then none else some coins
  | none => none

/-- One entry of the base's `BatchWrite`: a dirty entry is stored, or erased when it is pruned
and `drop` is set for it. -/
def writeEntry (drop : uint256 → Bool) (base : CoinsBase) (txid : uint256)
    (entry : CCoinsCacheEntry) : CoinsBase :=
  if entry.dirty then
    if entry.coins.IsPruned && drop txid then ⟨base.map.erase txid⟩
    else ⟨base.map.insert txid entry.coins⟩
  else base

/-- `BatchWrite(mapCoins, hashBlock)` of the base: every entry in turn. -/
def BatchWrite (base : CoinsBase) (drop : uint256 → Bool) (mapCoins : CCoinsMap) : CoinsBase :=
  mapCoins.foldl (writeEntry drop) base

end CoinsBase

namespace CCoinsViewCache

variable (DynamicMemoryUsage : CCoins → ℕ)

/-- A cache with no entries (a new one, or one just flushed). -/
def empty : CCoinsViewCache := ⟨∅, 0⟩

/-- The entry `FetchCoins` keeps for coins the parent returned: fresh when they are pruned. -/
def insertFetched (cache : CCoinsViewCache) (txid : uint256) (coins : CCoins) :
    CCoinsViewCache :=
  ⟨cache.cacheCoins.insert txid ⟨coins, false, coins.IsPruned⟩,
    cache.cachedCoinsUsage + DynamicMemoryUsage coins⟩

/-- `~CCoinsModifier()` for the entry `entry` of `txid`, with `cachedCoinUsage` the usage
counted for it when the modifier was made: the coins are cleaned up, a fresh entry left pruned
is erased, and the usage counted is replaced by the usage now. -/
def releaseModifier (cache : CCoinsViewCache) (txid : uint256) (entry : CCoinsCacheEntry)
    (cachedCoinUsage : ℕ) : CCoinsViewCache :=
  let entry := { entry with coins := entry.coins.Cleanup }
  let usage := cache.cachedCoinsUsage - cachedCoinUsage
  if entry.fresh && entry.coins.IsPruned then ⟨cache.cacheCoins.erase txid, usage⟩
  else ⟨cache.cacheCoins.insert txid entry, usage + DynamicMemoryUsage entry.coins⟩

/-- One entry of `BatchWrite` into a cache. A clean entry is ignored. With no entry of ours, a
fresh pruned one is ignored too, and any other is moved up, dirty, and fresh only when it was
fresh (we may have just flushed ours). With an entry of ours that is fresh, a pruned one erases
it; otherwise its coins replace ours, which become dirty. -/
def batchWriteEntry (cache : CCoinsViewCache) (txid : uint256) (entry : CCoinsCacheEntry) :
    CCoinsViewCache :=
  if entry.dirty then
    match cache.cacheCoins.lookup txid with
    | none =>
      if entry.fresh && entry.coins.IsPruned then cache
      else ⟨cache.cacheCoins.insert txid ⟨entry.coins, true, entry.fresh⟩,
        cache.cachedCoinsUsage + DynamicMemoryUsage entry.coins⟩
    | some ours =>
      if ours.fresh && entry.coins.IsPruned then
        ⟨cache.cacheCoins.erase txid, cache.cachedCoinsUsage - DynamicMemoryUsage ours.coins⟩
      else ⟨cache.cacheCoins.insert txid ⟨entry.coins, true, ours.fresh⟩,
        cache.cachedCoinsUsage - DynamicMemoryUsage ours.coins + DynamicMemoryUsage entry.coins⟩
  else cache

/-- `BatchWrite(mapCoins, hashBlock)` of a cache: every entry of the child in turn. -/
def BatchWrite (cache : CCoinsViewCache) (mapCoins : CCoinsMap) : CCoinsViewCache :=
  mapCoins.foldl (batchWriteEntry DynamicMemoryUsage) cache

/-- `Uncache(hash)`: an entry that is neither dirty nor fresh is dropped. -/
def Uncache (cache : CCoinsViewCache) (hash : uint256) : CCoinsViewCache :=
  match cache.cacheCoins.lookup hash with
  | some entry =>
    if !entry.dirty && !entry.fresh then
      ⟨cache.cacheCoins.erase hash, cache.cachedCoinsUsage - DynamicMemoryUsage entry.coins⟩
    else cache
  | none => cache

end CCoinsViewCache

section Stack

variable (DynamicMemoryUsage : CCoins → ℕ) (base : CoinsBase)

/-- `GetCoins(txid, coins)` of the view made of `caches` (the top first) over `base`: a cache
answers from its entry, or asks the view beneath and keeps what it gets (`FetchCoins`). The
caches after the read, and the coins. `AccessCoins` of the top is this read. -/
def GetCoins (hide : Bool) : List CCoinsViewCache → uint256 → List CCoinsViewCache × Option CCoins
  | [], txid => ([], base.GetCoins hide txid)
  | cache :: lower, txid =>
    match cache.cacheCoins.lookup txid with
    | some entry => (cache :: lower, some entry.coins)
    | none =>
      match GetCoins hide lower txid with
      | (lower, some coins) => (cache.insertFetched DynamicMemoryUsage txid coins :: lower, some coins)
      | (lower, none) => (cache :: lower, none)

/-- `ModifyCoins(txid)` of the top cache, the change `modify` made through the modifier, and
the modifier's destructor. A new entry takes the parent's coins, fresh when they are pruned, or
empty coins, fresh, when the parent has none. -/
def ModifyCoins (hide : Bool) (txid : uint256) (modify : CCoins → CCoins) :
    List CCoinsViewCache → List CCoinsViewCache
  | [] => []
  | cache :: lower =>
    match cache.cacheCoins.lookup txid with
    | some entry =>
      cache.releaseModifier DynamicMemoryUsage txid
        ⟨modify entry.coins, true, entry.fresh⟩ (DynamicMemoryUsage entry.coins) :: lower
    | none =>
      match GetCoins DynamicMemoryUsage base hide lower txid with
      | (lower, some coins) =>
        cache.releaseModifier DynamicMemoryUsage txid ⟨modify coins, true, coins.IsPruned⟩ 0 :: lower
      | (lower, none) =>
        cache.releaseModifier DynamicMemoryUsage txid ⟨modify CCoins.Clear, true, true⟩ 0 :: lower

/-- `ModifyNewCoins(txid)` of the top cache and the change `modify`: empty coins, fresh and
dirty, whatever the cache or its parent hold, with no usage counted for the entry before. -/
def ModifyNewCoins (txid : uint256) (modify : CCoins → CCoins) :
    List CCoinsViewCache → List CCoinsViewCache
  | [] => []
  | cache :: lower =>
    cache.releaseModifier DynamicMemoryUsage txid ⟨modify CCoins.Clear, true, true⟩ 0 :: lower

/-- `Flush()` of the cache `level` places below the top: its entries go into the view beneath
(`BatchWrite`) and it is emptied. -/
def FlushAt (drop : uint256 → Bool) :
    ℕ → CoinsBase → List CCoinsViewCache → CoinsBase × List CCoinsViewCache
  | _, base, [] => (base, [])
  | 0, base, [cache] => (base.BatchWrite drop cache.cacheCoins, [CCoinsViewCache.empty])
  | 0, base, cache :: parent :: lower =>
    (base, CCoinsViewCache.empty :: parent.BatchWrite DynamicMemoryUsage cache.cacheCoins :: lower)
  | level + 1, base, cache :: lower =>
    let (base, lower) := FlushAt drop level base lower
    (base, cache :: lower)

/-- `Uncache(hash)` of the cache `level` places below the top. -/
def UncacheAt (hash : uint256) : ℕ → List CCoinsViewCache → List CCoinsViewCache
  | _, [] => []
  | 0, cache :: lower => cache.Uncache DynamicMemoryUsage hash :: lower
  | level + 1, cache :: lower => cache :: UncacheAt hash level lower

end Stack

/-- The operations on a stack of caches, as `coins_cache_simulation_test` makes them, with the
base's choices (`hide`, `drop`). -/
inductive CacheOp
  /-- `ModifyCoins(txid)` of the top and a change through the modifier. -/
  | modifyCoins (txid : uint256) (modify : CCoins → CCoins) (hide : Bool)
  /-- `ModifyNewCoins(txid)` of the top and a change through the modifier. -/
  | modifyNewCoins (txid : uint256) (modify : CCoins → CCoins)
  /-- `AccessCoins(txid)` of the top. -/
  | accessCoins (txid : uint256) (hide : Bool)
  /-- `Uncache(hash)` of a cache. -/
  | uncache (level : ℕ) (hash : uint256)
  /-- `Flush()` of a cache. -/
  | flush (level : ℕ) (drop : uint256 → Bool)
  /-- A new cache on top. -/
  | push
  /-- `Flush()` of the top, which is then removed. -/
  | pop (drop : uint256 → Bool)

/-- A stack of caches, the top first, over a base. -/
structure CoinsStack where
  base : CoinsBase
  caches : List CCoinsViewCache

namespace CoinsStack

variable (DynamicMemoryUsage : CCoins → ℕ)

/-- One operation on a stack. -/
def step (s : CoinsStack) : CacheOp → CoinsStack
  | .modifyCoins txid modify hide =>
    ⟨s.base, ModifyCoins DynamicMemoryUsage s.base hide txid modify s.caches⟩
  | .modifyNewCoins txid modify => ⟨s.base, ModifyNewCoins DynamicMemoryUsage txid modify s.caches⟩
  | .accessCoins txid hide => ⟨s.base, (GetCoins DynamicMemoryUsage s.base hide s.caches txid).1⟩
  | .uncache level hash => ⟨s.base, UncacheAt DynamicMemoryUsage hash level s.caches⟩
  | .flush level drop =>
    let (base, caches) := FlushAt DynamicMemoryUsage drop level s.base s.caches
    ⟨base, caches⟩
  | .push => ⟨s.base, CCoinsViewCache.empty :: s.caches⟩
  | .pop drop =>
    let (base, caches) := FlushAt DynamicMemoryUsage drop 0 s.base s.caches
    ⟨base, caches.tail⟩

/-- A run of operations. -/
def run (s : CoinsStack) (ops : List CacheOp) : CoinsStack := ops.foldl (step DynamicMemoryUsage) s

end CoinsStack

end MvfBu
