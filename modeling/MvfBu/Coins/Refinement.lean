import MvfBu.Coins.ViewCache
import MvfBu.Lib.AListFold
import MvfBu.Lib.Runs

set_option autoImplicit false

/-!
# A stack of coins caches refines one map

The abstract model of a stack of caches is one map from transaction ids to coins, changed
only by `ModifyCoins` and `ModifyNewCoins`. A stack refines it when what its top shows for a
transaction agrees with the map's entry: coins `operator==` finds equal (all pruned coins are
equal to it), or nothing for pruned or absent coins. That is the check
`coins_cache_simulation_test` makes. The height and version of pruned coins are not kept: a
fresh entry that ends pruned is erased, and the view beneath may hold other pruned coins.

The refinement holds along every run from a stack that keeps the invariant, for changes that
treat pruned coins alike and for `ModifyNewCoins` of a transaction absent or pruned in every
cache and in the base, the source's "no entry with the given txid exists". Absent or pruned in
what the top shows is not enough: over spent coins in the top and unspent ones beneath, the
fresh entry `ModifyNewCoins` makes is erased once spent, and the old coins show again.

The proof rests on an invariant of each cache over the view beneath it: a `FRESH` entry is
absent or pruned beneath, an entry that is not `DIRTY` agrees with what is beneath, cached
coins are cleaned up, and `cachedCoinsUsage` is the memory of the entries.

## Main definitions

* `MvfBu.stackView` — what a stack shows, without the side effects of reading.
* `MvfBu.SimulationCheck` — the simulation test's check of a read against the map.
* `MvfBu.CacheInv`, `MvfBu.StackInv` — the invariant of a cache and of a stack.
* `MvfBu.CacheOp.apply` — the abstract map's step.
* `MvfBu.CoinsStack.Allows`, `MvfBu.RespectsPruned` — what an operation asks of the stack.
* `MvfBu.Refines` — the refinement relation.

## Main results

* `MvfBu.GetCoins_spec` — reading through a stack changes no layer's view.
* `MvfBu.ModifyCoins_spec`, `MvfBu.ModifyNewCoins_spec`, `MvfBu.FlushAt_spec`,
  `MvfBu.UncacheAt_spec` — one lemma per operation.
* `MvfBu.step_refines`, `MvfBu.run_refines` — an operation, and a run, refine the map's.
* `MvfBu.stack_refines_map` — along every allowed run, the top's reads agree with the map.
* `MvfBu.modifyNewCoins_over_spent_coins_resurrects` — `ModifyNewCoins` over spent coins in
  the top and unspent ones beneath brings the unspent ones back.
-/

namespace MvfBu

/-! ## Coins up to pruning -/

/-- Coins that agree up to pruning: equal, or both pruned. -/
def CCoins.PrunedEquiv (c c' : CCoins) : Prop := c = c' ∨ (c.IsPruned = true ∧ c'.IsPruned = true)

namespace CCoins

theorem PrunedEquiv.refl (c : CCoins) : c.PrunedEquiv c := .inl rfl

theorem PrunedEquiv.trans {c₁ c₂ c₃ : CCoins} (h₁₂ : c₁.PrunedEquiv c₂) (h₂₃ : c₂.PrunedEquiv c₃) :
    c₁.PrunedEquiv c₃ := by
  rcases h₁₂ with rfl | ⟨h₁, h₂⟩
  · exact h₂₃
  · rcases h₂₃ with rfl | ⟨-, h₃⟩
    · exact .inr ⟨h₁, h₂⟩
    · exact .inr ⟨h₁, h₃⟩

/-- Coins equal up to pruning are those `operator==` finds equal. -/
theorem beq_eq_true_iff {a b : CCoins} : a.beq b = true ↔ a.PrunedEquiv b := by
  obtain ⟨f, v, h, n⟩ := a
  obtain ⟨f', v', h', n'⟩ := b
  simp only [beq, PrunedEquiv, mk.injEq, Bool.or_eq_true, Bool.and_eq_true, beq_iff_eq]
  tauto

end CCoins

/-- What a view shows agrees with an entry: the same, or each absent or pruned. -/
def ViewAgrees (o o' : Option CCoins) : Prop :=
  o = o' ∨ (o.all CCoins.IsPruned = true ∧ o'.all CCoins.IsPruned = true)

namespace ViewAgrees

theorem refl (o : Option CCoins) : ViewAgrees o o := .inl rfl

theorem symm {o o' : Option CCoins} (h : ViewAgrees o o') : ViewAgrees o' o := by
  rcases h with rfl | ⟨h, h'⟩
  · exact refl _
  · exact .inr ⟨h', h⟩

/-- Absent or pruned on one side, absent or pruned on the other. -/
theorem all_pruned {o o' : Option CCoins} (h : ViewAgrees o o')
    (hp : o.all CCoins.IsPruned = true) : o'.all CCoins.IsPruned = true := by
  rcases h with rfl | ⟨-, h'⟩
  · exact hp
  · exact h'

theorem trans {o₁ o₂ o₃ : Option CCoins} (h₁₂ : ViewAgrees o₁ o₂) (h₂₃ : ViewAgrees o₂ o₃) :
    ViewAgrees o₁ o₃ := by
  rcases h₁₂ with rfl | ⟨h₁, h₂⟩
  · exact h₂₃
  · exact .inr ⟨h₁, h₂₃.all_pruned h₂⟩

/-- Read as coins, with empty coins for nothing, agreeing views give coins equal up to
pruning. -/
theorem getD_clear {o o' : Option CCoins} (h : ViewAgrees o o') :
    (o.getD CCoins.Clear).PrunedEquiv (o'.getD CCoins.Clear) := by
  rcases h with rfl | ⟨h, h'⟩
  · exact .inl rfl
  · refine .inr ⟨?_, ?_⟩
    · cases o with
      | none => rfl
      | some c => simpa using h
    · cases o' with
      | none => rfl
      | some c => simpa using h'

/-- Coins equal up to pruning, shown by both views. -/
theorem of_prunedEquiv {c c' : CCoins} (h : c.PrunedEquiv c') : ViewAgrees (some c) (some c') := by
  rcases h with rfl | ⟨h, h'⟩
  · exact refl _
  · exact .inr ⟨by simpa using h, by simpa using h'⟩

end ViewAgrees

/-- The check `coins_cache_simulation_test` makes of what `AccessCoins` returned against the
coins it expects (`result[txid]`, empty coins when it has none): coins `operator==` finds
equal, or no coins only where pruned ones are expected. -/
def SimulationCheck (coins expected : Option CCoins) : Bool :=
  match coins with
  | some c => c.beq (expected.getD CCoins.Clear)
  | none => (expected.getD CCoins.Clear).IsPruned

/-- Agreement is what the simulation test checks. -/
theorem ViewAgrees.iff_simulationCheck {o o' : Option CCoins} :
    ViewAgrees o o' ↔ SimulationCheck o o' = true := by
  cases o with
  | none =>
    cases o' with
    | none => exact ⟨fun _ => rfl, fun _ => .refl _⟩
    | some e => simp [ViewAgrees, SimulationCheck]
  | some c =>
    rw [SimulationCheck, CCoins.beq_eq_true_iff]
    cases o' with
    | none =>
      -- nothing expected: only pruned coins pass, and empty coins are pruned
      constructor
      · rintro (h | ⟨h, -⟩)
        · cases h
        · exact .inr ⟨by simpa using h, rfl⟩
      · rintro (rfl | ⟨h, -⟩)
        · exact .inr ⟨rfl, rfl⟩
        · exact .inr ⟨by simpa using h, rfl⟩
    | some e => simp [ViewAgrees, CCoins.PrunedEquiv]

/-! ## What a stack shows -/

/-- What a stack of caches (the top first) over `base` shows for a transaction, without the
side effects of reading: each cache's entry, else what is beneath. -/
def stackView (base : CoinsBase) : List CCoinsViewCache → uint256 → Option CCoins
  | [], txid => base.map.lookup txid
  | cache :: lower, txid =>
    match cache.cacheCoins.lookup txid with
    | some entry => some entry.coins
    | none => stackView base lower txid

theorem stackView_cons (base : CoinsBase) (cache : CCoinsViewCache)
    (lower : List CCoinsViewCache) (txid : uint256) :
    stackView base (cache :: lower) txid =
      (cache.cacheCoins.lookup txid).elim (stackView base lower txid) fun e => some e.coins := by
  rw [stackView]
  cases cache.cacheCoins.lookup txid <;> rfl

section Invariant

variable (DynamicMemoryUsage : CCoins → ℕ)

/-- **The invariant of a cache**, `beneath` being the view under it. -/
structure CacheInv (beneath : uint256 → Option CCoins) (cache : CCoinsViewCache) : Prop where
  /-- Cached coins are cleaned up. -/
  cleanup : ∀ t e, cache.cacheCoins.lookup t = some e → e.coins.Cleanup = e.coins
  /-- `FRESH`: the view beneath has no coins for the entry, or pruned ones. -/
  fresh : ∀ t e, cache.cacheCoins.lookup t = some e → e.fresh = true →
    (beneath t).all CCoins.IsPruned = true
  /-- An entry that is not `DIRTY` agrees with the view beneath. -/
  clean : ∀ t e, cache.cacheCoins.lookup t = some e → e.dirty = false →
    ViewAgrees (some e.coins) (beneath t)
  /-- `cachedCoinsUsage` is the memory of the entries' coins. -/
  usage : cache.cachedCoinsUsage = cache.cacheCoins.sumValues fun e => DynamicMemoryUsage e.coins

/-- **The invariant of a stack**: each cache's over the view beneath it, and the base's coins
cleaned up. -/
def StackInv (base : CoinsBase) : List CCoinsViewCache → Prop
  | [] => ∀ t c, base.map.lookup t = some c → c.Cleanup = c
  | cache :: lower => CacheInv DynamicMemoryUsage (stackView base lower) cache ∧ StackInv base lower

variable {DynamicMemoryUsage}

/-- Everything a stack shows is cleaned up. -/
theorem stackView_cleanup {base : CoinsBase} :
    ∀ {caches : List CCoinsViewCache}, StackInv DynamicMemoryUsage base caches →
      ∀ {t c}, stackView base caches t = some c → c.Cleanup = c
  | [], hinv, t, c, h => hinv t c h
  | cache :: lower, hinv, t, c, h => by
    rw [stackView_cons] at h
    cases he : cache.cacheCoins.lookup t with
    | none =>
      rw [he] at h
      exact stackView_cleanup hinv.2 h
    | some e =>
      rw [he, Option.elim_some, Option.some.injEq] at h
      exact h ▸ hinv.1.cleanup t e he

namespace CacheInv

variable {beneath : uint256 → Option CCoins} {cache : CCoinsViewCache}

/-- The invariant depends on the view beneath only up to agreement. -/
theorem congr {beneath' : uint256 → Option CCoins} (h : CacheInv DynamicMemoryUsage beneath cache)
    (hagree : ∀ t, ViewAgrees (beneath t) (beneath' t)) :
    CacheInv DynamicMemoryUsage beneath' cache where
  cleanup := h.cleanup
  fresh t e he hf := (hagree t).all_pruned (h.fresh t e he hf)
  clean t e he hd := (h.clean t e he hd).trans (hagree t)
  usage := h.usage

/-- The usage of a cache splits into that of an entry and that of the others. -/
theorem usage_split (h : CacheInv DynamicMemoryUsage beneath cache) (t : uint256) :
    cache.cachedCoinsUsage = (cache.cacheCoins.erase t).sumValues (fun e => DynamicMemoryUsage e.coins) +
      ((cache.cacheCoins.lookup t).map fun e => DynamicMemoryUsage e.coins).getD 0 := by
  rw [h.usage, AList.sumValues_eq_erase_add]

/-- An entry written, with what it must satisfy, keeps the invariant. -/
theorem insert (h : CacheInv DynamicMemoryUsage beneath cache) (t : uint256) (e : CCoinsCacheEntry)
    (usage : ℕ) (hcleanup : e.coins.Cleanup = e.coins)
    (hfresh : e.fresh = true → (beneath t).all CCoins.IsPruned = true)
    (hclean : e.dirty = false → ViewAgrees (some e.coins) (beneath t))
    (husage : usage = (cache.cacheCoins.erase t).sumValues (fun e => DynamicMemoryUsage e.coins) +
      DynamicMemoryUsage e.coins) :
    CacheInv DynamicMemoryUsage beneath ⟨cache.cacheCoins.insert t e, usage⟩ where
  cleanup t' e' he' := by
    by_cases ht : t' = t
    · subst ht
      rw [AList.lookup_insert, Option.some.injEq] at he'
      exact he' ▸ hcleanup
    · rw [AList.lookup_insert_ne ht] at he'
      exact h.cleanup t' e' he'
  fresh t' e' he' := by
    by_cases ht : t' = t
    · subst ht
      rw [AList.lookup_insert, Option.some.injEq] at he'
      exact he' ▸ hfresh
    · rw [AList.lookup_insert_ne ht] at he'
      exact h.fresh t' e' he'
  clean t' e' he' := by
    by_cases ht : t' = t
    · subst ht
      rw [AList.lookup_insert, Option.some.injEq] at he'
      exact he' ▸ hclean
    · rw [AList.lookup_insert_ne ht] at he'
      exact h.clean t' e' he'
  usage := by rw [husage, AList.sumValues_insert]

/-- An entry erased, with the usage corrected, keeps the invariant. -/
theorem erase (h : CacheInv DynamicMemoryUsage beneath cache) (t : uint256) (usage : ℕ)
    (husage : usage = (cache.cacheCoins.erase t).sumValues fun e => DynamicMemoryUsage e.coins) :
    CacheInv DynamicMemoryUsage beneath ⟨cache.cacheCoins.erase t, usage⟩ where
  cleanup t' e' he' := by
    by_cases ht : t' = t
    · subst ht
      rw [AList.lookup_erase] at he'
      cases he'
    · rw [AList.lookup_erase_ne ht] at he'
      exact h.cleanup t' e' he'
  fresh t' e' he' := by
    by_cases ht : t' = t
    · subst ht
      rw [AList.lookup_erase] at he'
      cases he'
    · rw [AList.lookup_erase_ne ht] at he'
      exact h.fresh t' e' he'
  clean t' e' he' := by
    by_cases ht : t' = t
    · subst ht
      rw [AList.lookup_erase] at he'
      cases he'
    · rw [AList.lookup_erase_ne ht] at he'
      exact h.clean t' e' he'
  usage := husage

end CacheInv

/-- A cache with no entries keeps the invariant over any view. -/
theorem CacheInv.empty (beneath : uint256 → Option CCoins) :
    CacheInv DynamicMemoryUsage beneath CCoinsViewCache.empty where
  cleanup _ _ he := by cases he
  fresh _ _ he := by cases he
  clean _ _ he := by cases he
  usage := rfl

end Invariant

/-! ## Reading through a stack -/

section Reads

variable {DynamicMemoryUsage : CCoins → ℕ} (base : CoinsBase) (hide : Bool)

/-- What the base returns: what it stores, or nothing for pruned coins it hides. -/
theorem CoinsBase.GetCoins_cases (t : uint256) :
    base.GetCoins hide t = base.map.lookup t ∨
      (base.GetCoins hide t = none ∧ (base.map.lookup t).all CCoins.IsPruned = true) := by
  unfold CoinsBase.GetCoins
  cases hl : base.map.lookup t with
  | none => exact .inl rfl
  | some c =>
    dsimp only
    by_cases hp : (hide && c.IsPruned) = true
    · rw [if_pos hp]
      have hpruned : c.IsPruned = true := (Bool.and_eq_true_iff.1 hp).2
      exact .inr ⟨rfl, by simpa using hpruned⟩
    · rw [if_neg hp]
      exact .inl rfl

/-- **Reading through a stack.** `GetCoins` changes no layer's view and keeps the invariant;
it returns what the stack shows, or nothing for pruned coins the base hides.

**Proof sketch.** Induction on the caches. A cache with no entry asks the caches beneath, whose
view does not change, and keeps what they return, which is what it showed. -/
theorem GetCoins_spec : ∀ (caches : List CCoinsViewCache) (t : uint256),
    StackInv DynamicMemoryUsage base caches →
      stackView base (GetCoins DynamicMemoryUsage base hide caches t).1 = stackView base caches ∧
      StackInv DynamicMemoryUsage base (GetCoins DynamicMemoryUsage base hide caches t).1 ∧
      ((GetCoins DynamicMemoryUsage base hide caches t).2 = stackView base caches t ∨
        ((GetCoins DynamicMemoryUsage base hide caches t).2 = none ∧
          (stackView base caches t).all CCoins.IsPruned = true))
  | [], t, hinv => ⟨rfl, hinv, CoinsBase.GetCoins_cases base hide t⟩
  | cache :: lower, t, ⟨hc, hl⟩ => by
    cases he : cache.cacheCoins.lookup t with
    | some e =>
      have hget : GetCoins DynamicMemoryUsage base hide (cache :: lower) t =
          (cache :: lower, some e.coins) := by simp [GetCoins, he]
      rw [hget, stackView_cons, he]
      exact ⟨rfl, ⟨hc, hl⟩, .inl rfl⟩
    | none =>
      obtain ⟨hview, hinv', hres⟩ := GetCoins_spec lower t hl
      rcases hg : GetCoins DynamicMemoryUsage base hide lower t with ⟨lower', _ | coins⟩
      · -- nothing fetched: the cache is left as it was
        rw [hg] at hview hinv' hres
        have hget : GetCoins DynamicMemoryUsage base hide (cache :: lower) t = (cache :: lower', none) := by
          simp [GetCoins, he, hg]
        rw [hget]
        refine ⟨?_, ⟨by rw [hview]; exact hc, hinv'⟩, ?_⟩
        · funext t'
          rw [stackView_cons, stackView_cons, hview]
        · rw [stackView_cons, he, Option.elim_none]
          exact hres
      · -- fetched coins are what the caches beneath showed; the cache keeps them
        rw [hg] at hview hinv' hres
        have hcoins : stackView base lower t = some coins := by
          rcases hres with h | ⟨h, -⟩
          · exact h.symm
          · cases h
        have hget : GetCoins DynamicMemoryUsage base hide (cache :: lower) t =
            (cache.insertFetched DynamicMemoryUsage t coins :: lower', some coins) := by
          simp [GetCoins, he, hg]
        rw [hget]
        refine ⟨?_, ⟨?_, hinv'⟩, .inl ?_⟩
        · funext t'
          rw [stackView_cons, stackView_cons, hview]
          by_cases ht : t' = t
          · subst ht
            rw [CCoinsViewCache.insertFetched, AList.lookup_insert, he, Option.elim_none, hcoins]
            rfl
          · rw [CCoinsViewCache.insertFetched, AList.lookup_insert_ne ht]
        · rw [hview]
          refine hc.insert t _ _ (stackView_cleanup hl hcoins) (fun hf => ?_) (fun _ => ?_) ?_
          · rw [hcoins]
            simpa using hf
          · rw [hcoins]
            exact ViewAgrees.refl _
          · rw [hc.usage_split t, he]
            rfl
        · rw [stackView_cons, he, Option.elim_none, hcoins]

end Reads

/-! ## Changes through a modifier -/

section Modify

variable {DynamicMemoryUsage : CCoins → ℕ} {base : CoinsBase}

theorem lookup_releaseModifier (cache : CCoinsViewCache) (txid : uint256) (e : CCoinsCacheEntry)
    (u : ℕ) (t : uint256) :
    (cache.releaseModifier DynamicMemoryUsage txid e u).cacheCoins.lookup t =
      if t = txid then
        (if e.fresh && e.coins.IsPruned then none else some { e with coins := e.coins.Cleanup })
      else cache.cacheCoins.lookup t := by
  unfold CCoinsViewCache.releaseModifier
  dsimp only
  rw [CCoins.IsPruned_Cleanup]
  by_cases ht : t = txid
  · subst ht
    rw [if_pos rfl]
    split_ifs <;> simp [AList.lookup_erase, AList.lookup_insert]
  · rw [if_neg ht]
    split_ifs <;> simp [AList.lookup_erase_ne ht, AList.lookup_insert_ne ht]

/-- The top after the modifier's destructor shows the cleaned-up coins, or, when a fresh entry
ends pruned, what is beneath. -/
theorem stackView_releaseModifier (cache : CCoinsViewCache) (lower : List CCoinsViewCache)
    (txid : uint256) (e : CCoinsCacheEntry) (u : ℕ) (t : uint256) :
    stackView base (cache.releaseModifier DynamicMemoryUsage txid e u :: lower) t =
      if t = txid then
        (if e.fresh && e.coins.IsPruned then stackView base lower txid else some e.coins.Cleanup)
      else stackView base (cache :: lower) t := by
  rw [stackView_cons, lookup_releaseModifier, stackView_cons]
  by_cases ht : t = txid
  · subst ht
    split_ifs <;> rfl
  · rw [if_neg ht, if_neg ht]

/-- **The modifier's destructor keeps the invariant**, when the usage it is handed is the
entry's and a fresh entry is absent or pruned beneath. -/
theorem CacheInv.releaseModifier {beneath : uint256 → Option CCoins} {cache : CCoinsViewCache}
    (h : CacheInv DynamicMemoryUsage beneath cache) (txid : uint256) (e : CCoinsCacheEntry) (u : ℕ)
    (hu : u = ((cache.cacheCoins.lookup txid).map fun e => DynamicMemoryUsage e.coins).getD 0)
    (hfresh : e.fresh = true → (beneath txid).all CCoins.IsPruned = true)
    (hdirty : e.dirty = true) :
    CacheInv DynamicMemoryUsage beneath (cache.releaseModifier DynamicMemoryUsage txid e u) := by
  have hsplit := h.usage_split txid
  rw [← hu] at hsplit
  unfold CCoinsViewCache.releaseModifier
  dsimp only
  split_ifs
  · exact h.erase txid _ (by rw [hsplit, Nat.add_sub_cancel])
  · refine h.insert txid _ _ (CCoins.Cleanup_Cleanup _) hfresh (fun hd => ?_) ?_
    · rw [hdirty] at hd
      cases hd
    · rw [hsplit, Nat.add_sub_cancel]

/-- **`ModifyCoins` of the top.** The invariant holds after it; the top shows the change made
to coins equal, up to pruning, to what it showed (or nothing or pruned coins, when the change
ends pruned), and what it showed for every other transaction.

**Proof sketch.** An entry of the top is changed in place. Otherwise the read beneath changes
no view (`GetCoins_spec`) and returns what the top showed, or nothing for pruned coins; the new
entry is fresh exactly when that is pruned or absent. The destructor keeps the invariant
(`CacheInv.releaseModifier`), and a fresh entry it erases leaves pruned coins or nothing. -/
theorem ModifyCoins_spec (hide : Bool) (txid : uint256) (modify : CCoins → CCoins)
    (cache : CCoinsViewCache) (lower : List CCoinsViewCache)
    (hinv : StackInv DynamicMemoryUsage base (cache :: lower)) :
    StackInv DynamicMemoryUsage base (ModifyCoins DynamicMemoryUsage base hide txid modify (cache :: lower)) ∧
      (∀ t, t ≠ txid → stackView base (ModifyCoins DynamicMemoryUsage base hide txid modify
        (cache :: lower)) t = stackView base (cache :: lower) t) ∧
      ∃ cur : CCoins, cur.PrunedEquiv ((stackView base (cache :: lower) txid).getD CCoins.Clear) ∧
        ViewAgrees (stackView base (ModifyCoins DynamicMemoryUsage base hide txid modify
          (cache :: lower)) txid) (some (modify cur).Cleanup) := by
  obtain ⟨hc, hl⟩ := hinv
  -- the top shows what the modifier's destructor leaves
  have hview : ∀ (lower' : List CCoinsViewCache) (e : CCoinsCacheEntry) (u : ℕ),
      stackView base lower' = stackView base lower →
      (e.fresh = true → (stackView base lower txid).all CCoins.IsPruned = true) →
      ViewAgrees (stackView base (cache.releaseModifier DynamicMemoryUsage txid e u :: lower') txid)
        (some e.coins.Cleanup) := by
    intro lower' e u hlower hfresh
    rw [stackView_releaseModifier, if_pos rfl, hlower]
    split_ifs with hp
    · have hpruned := (Bool.and_eq_true_iff.1 hp)
      exact .inr ⟨hfresh hpruned.1, by simpa using hpruned.2⟩
    · exact .refl _
  have hother : ∀ (lower' : List CCoinsViewCache) (e : CCoinsCacheEntry) (u : ℕ),
      stackView base lower' = stackView base lower → ∀ t, t ≠ txid →
      stackView base (cache.releaseModifier DynamicMemoryUsage txid e u :: lower') t =
        stackView base (cache :: lower) t := by
    intro lower' e u hlower t ht
    rw [stackView_releaseModifier, if_neg ht, stackView_cons, stackView_cons, hlower]
  cases he : cache.cacheCoins.lookup txid with
  | some e =>
    -- an entry of the top is changed in place
    have hmod : ModifyCoins DynamicMemoryUsage base hide txid modify (cache :: lower) =
        cache.releaseModifier DynamicMemoryUsage txid ⟨modify e.coins, true, e.fresh⟩
          (DynamicMemoryUsage e.coins) :: lower := by
      simp [ModifyCoins, he]
    have hfresh : e.fresh = true → (stackView base lower txid).all CCoins.IsPruned = true :=
      hc.fresh txid e he
    rw [hmod]
    refine ⟨⟨hc.releaseModifier txid _ _ (by rw [he]; rfl) hfresh rfl, hl⟩,
      hother lower _ _ rfl, e.coins, ?_, hview lower _ _ rfl hfresh⟩
    rw [stackView_cons, he]
    exact .inl rfl
  | none =>
    obtain ⟨hlview, hlinv, hres⟩ := GetCoins_spec base hide lower txid hl
    have hshow : stackView base (cache :: lower) txid = stackView base lower txid := by
      rw [stackView_cons, he]
      rfl
    have hu : (0 : ℕ) = ((cache.cacheCoins.lookup txid).map
        fun e => DynamicMemoryUsage e.coins).getD 0 := by rw [he]; rfl
    rcases hg : GetCoins DynamicMemoryUsage base hide lower txid with ⟨lower', _ | coins⟩
    · -- the view beneath has nothing to show, or pruned coins it hides: a fresh entry
      rw [hg] at hlview hlinv hres
      have hpruned : (stackView base lower txid).all CCoins.IsPruned = true := by
        rcases hres with h | ⟨-, h⟩
        · rw [← h]
          rfl
        · exact h
      have hmod : ModifyCoins DynamicMemoryUsage base hide txid modify (cache :: lower) =
          cache.releaseModifier DynamicMemoryUsage txid ⟨modify CCoins.Clear, true, true⟩ 0 :: lower' := by
        simp [ModifyCoins, he, hg]
      rw [hmod]
      refine ⟨⟨?_, hlinv⟩, hother lower' _ _ hlview, CCoins.Clear, ?_,
        hview lower' _ _ hlview fun _ => hpruned⟩
      · rw [hlview]
        exact hc.releaseModifier txid _ _ hu (fun _ => hpruned) rfl
      · rw [hshow]
        refine .inr ⟨rfl, ?_⟩
        cases hv : stackView base lower txid with
        | none => rfl
        | some c => rw [hv] at hpruned; simpa using hpruned
    · -- coins fetched from beneath: fresh when they are pruned
      rw [hg] at hlview hlinv hres
      have hcoins : stackView base lower txid = some coins := by
        rcases hres with h | ⟨h, -⟩
        · exact h.symm
        · cases h
      have hfresh : coins.IsPruned = true → (stackView base lower txid).all CCoins.IsPruned = true := by
        intro hp
        rw [hcoins]
        simpa using hp
      have hmod : ModifyCoins DynamicMemoryUsage base hide txid modify (cache :: lower) =
          cache.releaseModifier DynamicMemoryUsage txid ⟨modify coins, true, coins.IsPruned⟩ 0 :: lower' := by
        simp [ModifyCoins, he, hg]
      rw [hmod]
      refine ⟨⟨?_, hlinv⟩, hother lower' _ _ hlview, coins, ?_, hview lower' _ _ hlview hfresh⟩
      · rw [hlview]
        exact hc.releaseModifier txid _ _ hu hfresh rfl
      · rw [hshow, hcoins]
        exact .inl rfl

/-- Absent or pruned in every cache of the list and in the base, absent or pruned in the
stack's view. -/
theorem stackView_all_pruned (txid : uint256) :
    ∀ {caches : List CCoinsViewCache},
      (∀ cache ∈ caches, (cache.cacheCoins.lookup txid).all (fun e => e.coins.IsPruned) = true) →
      (base.map.lookup txid).all CCoins.IsPruned = true →
      (stackView base caches txid).all CCoins.IsPruned = true
  | [], _, hbase => hbase
  | cache :: lower, hcaches, hbase => by
    rw [stackView_cons]
    have htop := hcaches cache List.mem_cons_self
    cases he : cache.cacheCoins.lookup txid with
    | none => exact stackView_all_pruned txid (fun c hc => hcaches c (List.mem_cons_of_mem _ hc)) hbase
    | some e =>
      rw [he] at htop
      simpa using htop

/-- **`ModifyNewCoins` of the top**, for a transaction absent or pruned in every cache and in
the base, with coins that have no outputs taking no memory. The invariant holds after it; the
top shows the change made to empty coins (or nothing or pruned coins, when it ends pruned), and
what it showed for every other transaction.

**Proof sketch.** The entry of the top, if any, is pruned and cleaned up, so it has no outputs
and no usage: the destructor is handed its usage. Beneath, everything is absent or pruned, so
the fresh entry is right. -/
theorem ModifyNewCoins_spec (husage : ∀ c : CCoins, c.vout = [] → DynamicMemoryUsage c = 0)
    (txid : uint256) (modify : CCoins → CCoins) (cache : CCoinsViewCache)
    (lower : List CCoinsViewCache) (hinv : StackInv DynamicMemoryUsage base (cache :: lower))
    (hcaches : ∀ c ∈ cache :: lower, (c.cacheCoins.lookup txid).all (fun e => e.coins.IsPruned) = true)
    (hbase : (base.map.lookup txid).all CCoins.IsPruned = true) :
    StackInv DynamicMemoryUsage base (ModifyNewCoins DynamicMemoryUsage txid modify (cache :: lower)) ∧
      (∀ t, t ≠ txid → stackView base (ModifyNewCoins DynamicMemoryUsage txid modify
        (cache :: lower)) t = stackView base (cache :: lower) t) ∧
      ViewAgrees (stackView base (ModifyNewCoins DynamicMemoryUsage txid modify (cache :: lower)) txid)
        (some (modify CCoins.Clear).Cleanup) := by
  obtain ⟨hc, hl⟩ := hinv
  have hbeneath : (stackView base lower txid).all CCoins.IsPruned = true :=
    stackView_all_pruned txid (fun c hmem => hcaches c (List.mem_cons_of_mem _ hmem)) hbase
  -- the entry replaced, if any, takes no memory
  have hu : (0 : ℕ) = ((cache.cacheCoins.lookup txid).map fun e => DynamicMemoryUsage e.coins).getD 0 := by
    have htop := hcaches cache List.mem_cons_self
    cases he : cache.cacheCoins.lookup txid with
    | none => rfl
    | some e =>
      rw [he] at htop
      have hnil := CCoins.vout_eq_nil_of_IsPruned (hc.cleanup txid e he) (by simpa using htop)
      exact (husage _ hnil).symm
  refine ⟨⟨hc.releaseModifier txid _ _ hu (fun _ => hbeneath) rfl, hl⟩, ?_, ?_⟩
  · intro t ht
    rw [ModifyNewCoins, stackView_releaseModifier, if_neg ht]
  · rw [ModifyNewCoins, stackView_releaseModifier, if_pos rfl]
    dsimp only
    split_ifs with hp
    · exact .inr ⟨hbeneath, by simpa using (Bool.and_eq_true_iff.1 hp).2⟩
    · exact .refl _

end Modify

/-! ## Uncache and flush -/

section Flush

variable {DynamicMemoryUsage : CCoins → ℕ}

/-- A cache over views that agree shows views that agree. -/
theorem stackView_cons_agrees {base base' : CoinsBase} {lower lower' : List CCoinsViewCache}
    (h : ∀ t, ViewAgrees (stackView base lower t) (stackView base' lower' t))
    (cache : CCoinsViewCache) (t : uint256) :
    ViewAgrees (stackView base (cache :: lower) t) (stackView base' (cache :: lower') t) := by
  rw [stackView_cons, stackView_cons]
  cases cache.cacheCoins.lookup t with
  | none => exact h t
  | some e => exact .refl _

/-- **`Uncache` of a cache.** The invariant holds after it, and the stack shows what it showed,
up to pruning.

**Proof sketch.** Only an entry that is neither dirty nor fresh is dropped; it agrees with the
view beneath, which now shows through. The caches above see views that agree with the old ones,
which keeps their invariant (`CacheInv.congr`). -/
theorem UncacheAt_spec (hash : uint256) {base : CoinsBase} :
    ∀ (level : ℕ) (caches : List CCoinsViewCache), StackInv DynamicMemoryUsage base caches →
      StackInv DynamicMemoryUsage base (UncacheAt DynamicMemoryUsage hash level caches) ∧
        ∀ t, ViewAgrees (stackView base (UncacheAt DynamicMemoryUsage hash level caches) t)
          (stackView base caches t)
  | level, [], hinv => by
    have hnil : UncacheAt DynamicMemoryUsage hash level [] = [] := by cases level <;> rfl
    rw [hnil]
    exact ⟨hinv, fun _ => .refl _⟩
  | 0, cache :: lower, ⟨hc, hl⟩ => by
    rw [show UncacheAt DynamicMemoryUsage hash 0 (cache :: lower) =
      cache.Uncache DynamicMemoryUsage hash :: lower from rfl]
    unfold CCoinsViewCache.Uncache
    cases he : cache.cacheCoins.lookup hash with
    | none => exact ⟨⟨hc, hl⟩, fun _ => .refl _⟩
    | some e =>
      dsimp only
      split_ifs with hflags
      · obtain ⟨hd, -⟩ := Bool.and_eq_true_iff.1 hflags
        have hsplit := hc.usage_split hash
        rw [he, Option.map_some, Option.getD_some] at hsplit
        refine ⟨⟨hc.erase hash _ (by rw [hsplit, Nat.add_sub_cancel]), hl⟩, fun t => ?_⟩
        rw [stackView_cons, stackView_cons]
        by_cases ht : t = hash
        · -- the entry dropped agreed with the view beneath
          subst ht
          rw [AList.lookup_erase, he]
          exact (hc.clean t e he (by simpa using hd)).symm
        · rw [AList.lookup_erase_ne ht]
          exact .refl _
      · exact ⟨⟨hc, hl⟩, fun _ => .refl _⟩
  | level + 1, cache :: lower, ⟨hc, hl⟩ => by
    obtain ⟨hinv', hagree⟩ := UncacheAt_spec hash level lower hl
    rw [show UncacheAt DynamicMemoryUsage hash (level + 1) (cache :: lower) =
      cache :: UncacheAt DynamicMemoryUsage hash level lower from rfl]
    exact ⟨⟨hc.congr fun t => (hagree t).symm, hinv'⟩, stackView_cons_agrees hagree cache⟩

/-- What `BatchWrite` leaves for a transaction, from ours and the child's entry. -/
def batchEntry (ours : Option CCoinsCacheEntry) (entry : CCoinsCacheEntry) :
    Option CCoinsCacheEntry :=
  if entry.dirty then
    match ours with
    | none => if entry.fresh && entry.coins.IsPruned then none else some ⟨entry.coins, true, entry.fresh⟩
    | some o => if o.fresh && entry.coins.IsPruned then none else some ⟨entry.coins, true, o.fresh⟩
  else ours

theorem lookup_batchWriteEntry (cache : CCoinsViewCache) (txid : uint256)
    (entry : CCoinsCacheEntry) (t : uint256) :
    (cache.batchWriteEntry DynamicMemoryUsage txid entry).cacheCoins.lookup t =
      if t = txid then batchEntry (cache.cacheCoins.lookup txid) entry
      else cache.cacheCoins.lookup t := by
  unfold CCoinsViewCache.batchWriteEntry batchEntry
  by_cases hd : entry.dirty = true
  · rw [if_pos hd, if_pos hd]
    cases ho : cache.cacheCoins.lookup txid with
    | none =>
      dsimp only
      by_cases hp : (entry.fresh && entry.coins.IsPruned) = true
      · rw [if_pos hp, if_pos hp]
        by_cases ht : t = txid
        · rw [if_pos ht, ht, ho]
        · rw [if_neg ht]
      · rw [if_neg hp, if_neg hp]
        by_cases ht : t = txid
        · rw [if_pos ht, ht, AList.lookup_insert]
        · rw [if_neg ht, AList.lookup_insert_ne ht]
    | some o =>
      dsimp only
      by_cases hp : (o.fresh && entry.coins.IsPruned) = true
      · rw [if_pos hp, if_pos hp]
        by_cases ht : t = txid
        · rw [if_pos ht, ht, AList.lookup_erase]
        · rw [if_neg ht, AList.lookup_erase_ne ht]
      · rw [if_neg hp, if_neg hp]
        by_cases ht : t = txid
        · rw [if_pos ht, ht, AList.lookup_insert]
        · rw [if_neg ht, AList.lookup_insert_ne ht]
  · rw [if_neg hd, if_neg hd]
    by_cases ht : t = txid
    · rw [if_pos ht, ht]
    · rw [if_neg ht]

/-- After `BatchWrite` a transaction of the child has `batchEntry` of ours and the child's;
any other keeps ours. -/
theorem lookup_BatchWrite (cache : CCoinsViewCache) (mapCoins : CCoinsMap) (t : uint256) :
    (cache.BatchWrite DynamicMemoryUsage mapCoins).cacheCoins.lookup t =
      (mapCoins.lookup t).elim (cache.cacheCoins.lookup t) (batchEntry (cache.cacheCoins.lookup t)) :=
  AList.foldl_observe (fun c t => c.cacheCoins.lookup t) _ (fun _ => batchEntry)
    (fun c txid e t => lookup_batchWriteEntry c txid e t) mapCoins cache t

/-- What `BatchWrite` leaves is ours unchanged, or the child's coins, dirty, fresh only where
the child's entry was fresh and we had none, or ours was fresh. -/
theorem batchEntry_eq_some {ours : Option CCoinsCacheEntry} {entry e : CCoinsCacheEntry}
    (h : batchEntry ours entry = some e) :
    (entry.dirty = false ∧ ours = some e) ∨
      (e.coins = entry.coins ∧ e.dirty = true ∧
        (e.fresh = true → (ours = none ∧ entry.fresh = true) ∨ ∃ o, ours = some o ∧ o.fresh = true)) := by
  unfold batchEntry at h
  by_cases hd : entry.dirty = true
  · rw [if_pos hd] at h
    right
    cases ours with
    | none =>
      dsimp only at h
      split_ifs at h
      rw [Option.some.injEq] at h
      subst h
      exact ⟨rfl, rfl, fun hf => .inl ⟨rfl, hf⟩⟩
    | some o =>
      dsimp only at h
      split_ifs at h
      rw [Option.some.injEq] at h
      subst h
      exact ⟨rfl, rfl, fun hf => .inr ⟨o, rfl, hf⟩⟩
  · rw [if_neg hd] at h
    exact .inl ⟨by simpa using hd, h⟩

/-- `BatchWrite` into a cache keeps `cachedCoinsUsage` the memory of the entries. -/
theorem BatchWrite_usage (cache : CCoinsViewCache) (mapCoins : CCoinsMap)
    (h : cache.cachedCoinsUsage = cache.cacheCoins.sumValues fun e => DynamicMemoryUsage e.coins) :
    (cache.BatchWrite DynamicMemoryUsage mapCoins).cachedCoinsUsage =
      (cache.BatchWrite DynamicMemoryUsage mapCoins).cacheCoins.sumValues
        fun e => DynamicMemoryUsage e.coins := by
  refine AList.foldl_invariant (fun c : CCoinsViewCache => c.cachedCoinsUsage =
    c.cacheCoins.sumValues fun e => DynamicMemoryUsage e.coins) _ ?_ mapCoins h
  intro c txid entry hc
  have hsplit := AList.sumValues_eq_erase_add (fun e : CCoinsCacheEntry => DynamicMemoryUsage e.coins)
    c.cacheCoins txid
  unfold CCoinsViewCache.batchWriteEntry
  by_cases hd : entry.dirty = true
  · rw [if_pos hd]
    cases ho : c.cacheCoins.lookup txid with
    | none =>
      rw [ho, Option.map_none, Option.getD_none, Nat.add_zero] at hsplit
      dsimp only
      by_cases hp : (entry.fresh && entry.coins.IsPruned) = true
      · rw [if_pos hp]
        exact hc
      · rw [if_neg hp]
        show c.cachedCoinsUsage + DynamicMemoryUsage entry.coins = _
        rw [AList.sumValues_insert, hc, hsplit]
    | some o =>
      rw [ho, Option.map_some, Option.getD_some] at hsplit
      dsimp only
      by_cases hp : (o.fresh && entry.coins.IsPruned) = true
      · rw [if_pos hp]
        show c.cachedCoinsUsage - DynamicMemoryUsage o.coins = _
        rw [hc, hsplit, Nat.add_sub_cancel]
      · rw [if_neg hp]
        show c.cachedCoinsUsage - DynamicMemoryUsage o.coins + DynamicMemoryUsage entry.coins = _
        rw [AList.sumValues_insert, hc, hsplit, Nat.add_sub_cancel]
  · rw [if_neg hd]
    exact hc

/-- **`BatchWrite` into the parent keeps the parent's invariant**, the child's holding over the
parent. -/
theorem CacheInv.BatchWrite {base : CoinsBase} {lower : List CCoinsViewCache}
    {parent cache : CCoinsViewCache}
    (hp : CacheInv DynamicMemoryUsage (stackView base lower) parent)
    (hc : CacheInv DynamicMemoryUsage (stackView base (parent :: lower)) cache) :
    CacheInv DynamicMemoryUsage (stackView base lower)
      (parent.BatchWrite DynamicMemoryUsage cache.cacheCoins) := by
  -- every entry left is the parent's, or the child's coins written dirty
  have hcases : ∀ t e, (parent.BatchWrite DynamicMemoryUsage cache.cacheCoins).cacheCoins.lookup t = some e →
      parent.cacheCoins.lookup t = some e ∨
        ∃ ce, cache.cacheCoins.lookup t = some ce ∧ e.coins = ce.coins ∧ e.dirty = true ∧
          (e.fresh = true → (parent.cacheCoins.lookup t = none ∧ ce.fresh = true) ∨
            ∃ o, parent.cacheCoins.lookup t = some o ∧ o.fresh = true) := by
    intro t e he
    rw [lookup_BatchWrite] at he
    cases hce : cache.cacheCoins.lookup t with
    | none =>
      rw [hce] at he
      exact .inl he
    | some ce =>
      rw [hce] at he
      rcases batchEntry_eq_some he with ⟨-, hpe⟩ | ⟨hcoins, hdirty, hfresh⟩
      · exact .inl hpe
      · exact .inr ⟨ce, rfl, hcoins, hdirty, hfresh⟩
  refine ⟨fun t e he => ?_, fun t e he hf => ?_, fun t e he hd => ?_,
    BatchWrite_usage parent _ hp.usage⟩
  · rcases hcases t e he with hpe | ⟨ce, hce, hcoins, -, -⟩
    · exact hp.cleanup t e hpe
    · rw [hcoins]
      exact hc.cleanup t ce hce
  · rcases hcases t e he with hpe | ⟨ce, hce, -, -, hfresh⟩
    · exact hp.fresh t e hpe hf
    · rcases hfresh hf with ⟨hnone, hcf⟩ | ⟨o, ho, hof⟩
      · -- the child's fresh entry, with no entry of ours: fresh beneath us too
        have h := hc.fresh t ce hce hcf
        rwa [stackView_cons, hnone, Option.elim_none] at h
      · exact hp.fresh t o ho hof
  · rcases hcases t e he with hpe | ⟨-, -, -, hdirty, -⟩
    · exact hp.clean t e hpe hd
    · rw [hdirty] at hd
      cases hd

/-- **`BatchWrite` into the parent**: the parent then shows what the child showed, up to
pruning. -/
theorem stackView_BatchWrite_agrees {base : CoinsBase} {lower : List CCoinsViewCache}
    {parent cache : CCoinsViewCache}
    (hp : CacheInv DynamicMemoryUsage (stackView base lower) parent)
    (hc : CacheInv DynamicMemoryUsage (stackView base (parent :: lower)) cache) (t : uint256) :
    ViewAgrees (stackView base (parent.BatchWrite DynamicMemoryUsage cache.cacheCoins :: lower) t)
      (stackView base (cache :: parent :: lower) t) := by
  rw [stackView_cons base _ lower, lookup_BatchWrite, stackView_cons base cache (parent :: lower)]
  cases hce : cache.cacheCoins.lookup t with
  | none =>
    rw [Option.elim_none, Option.elim_none, ← stackView_cons]
    exact .refl _
  | some ce =>
    rw [Option.elim_some, Option.elim_some]
    unfold batchEntry
    by_cases hd : ce.dirty = true
    · rw [if_pos hd]
      cases ho : parent.cacheCoins.lookup t with
      | none =>
        dsimp only
        split_ifs with hfp
        · -- a fresh pruned child entry is dropped: beneath shows nothing or pruned coins
          obtain ⟨hf, hpruned⟩ := Bool.and_eq_true_iff.1 hfp
          have h := hc.fresh t ce hce hf
          rw [stackView_cons, ho, Option.elim_none] at h
          exact .inr ⟨h, by simpa using hpruned⟩
        · exact .refl _
      | some o =>
        dsimp only
        split_ifs with hfp
        · -- our fresh entry is erased: beneath us shows nothing or pruned coins
          obtain ⟨hf, hpruned⟩ := Bool.and_eq_true_iff.1 hfp
          exact .inr ⟨hp.fresh t o ho hf, by simpa using hpruned⟩
        · exact .refl _
    · -- a clean child entry is not written: it agrees with what the parent shows
      rw [if_neg hd, ← stackView_cons]
      exact (hc.clean t ce hce (by simpa using hd)).symm

/-- What the base's `BatchWrite` leaves for a transaction, from what it stored and the cache's
entry. -/
def baseEntry (drop : uint256 → Bool) (txid : uint256) (ours : Option CCoins)
    (entry : CCoinsCacheEntry) : Option CCoins :=
  if entry.dirty then (if entry.coins.IsPruned && drop txid then none else some entry.coins)
  else ours

theorem lookup_writeEntry (drop : uint256 → Bool) (base : CoinsBase) (txid : uint256)
    (entry : CCoinsCacheEntry) (t : uint256) :
    (base.writeEntry drop txid entry).map.lookup t =
      if t = txid then baseEntry drop txid (base.map.lookup txid) entry else base.map.lookup t := by
  unfold CoinsBase.writeEntry baseEntry
  by_cases hd : entry.dirty = true
  · rw [if_pos hd, if_pos hd]
    by_cases hp : (entry.coins.IsPruned && drop txid) = true
    · rw [if_pos hp, if_pos hp]
      by_cases ht : t = txid
      · rw [if_pos ht, ht, AList.lookup_erase]
      · rw [if_neg ht, AList.lookup_erase_ne ht]
    · rw [if_neg hp, if_neg hp]
      by_cases ht : t = txid
      · rw [if_pos ht, ht, AList.lookup_insert]
      · rw [if_neg ht, AList.lookup_insert_ne ht]
  · rw [if_neg hd, if_neg hd]
    by_cases ht : t = txid
    · rw [if_pos ht, ht]
    · rw [if_neg ht]

/-- After the base's `BatchWrite` a transaction of the cache has `baseEntry`; any other keeps
what the base stored. -/
theorem lookup_base_BatchWrite (base : CoinsBase) (drop : uint256 → Bool) (mapCoins : CCoinsMap)
    (t : uint256) :
    (base.BatchWrite drop mapCoins).map.lookup t =
      (mapCoins.lookup t).elim (base.map.lookup t) (baseEntry drop t (base.map.lookup t)) :=
  AList.foldl_observe (fun b t => b.map.lookup t) _ (baseEntry drop)
    (fun b txid e t => lookup_writeEntry drop b txid e t) mapCoins base t

/-- **`Flush` of a cache.** The invariant holds after it, and the stack shows what it showed,
up to pruning.

**Proof sketch.** The flushed cache's entries go into the view beneath, which then shows what
the cache showed (`stackView_BatchWrite_agrees`, and for the base the same by cases) and keeps
its invariant (`CacheInv.BatchWrite`); the flushed cache is empty. The caches above see views
that agree with the old ones (`CacheInv.congr`). -/
theorem FlushAt_spec (drop : uint256 → Bool) :
    ∀ (level : ℕ) (base : CoinsBase) (caches : List CCoinsViewCache),
      StackInv DynamicMemoryUsage base caches →
      StackInv DynamicMemoryUsage (FlushAt DynamicMemoryUsage drop level base caches).1
          (FlushAt DynamicMemoryUsage drop level base caches).2 ∧
        ∀ t, ViewAgrees (stackView (FlushAt DynamicMemoryUsage drop level base caches).1
          (FlushAt DynamicMemoryUsage drop level base caches).2 t) (stackView base caches t)
  | level, base, [], hinv => by
    have hnil : FlushAt DynamicMemoryUsage drop level base [] = (base, []) := by
      cases level <;> rfl
    rw [hnil]
    exact ⟨hinv, fun _ => .refl _⟩
  | 0, base, [cache], ⟨hc, hb⟩ => by
    rw [show FlushAt DynamicMemoryUsage drop 0 base [cache] =
      (base.BatchWrite drop cache.cacheCoins, [CCoinsViewCache.empty]) from rfl]
    have hlook := lookup_base_BatchWrite base drop cache.cacheCoins
    refine ⟨⟨CacheInv.empty _, fun t c hcl => ?_⟩, fun t => ?_⟩
    · -- the base stores cleaned-up coins: its own, or the cache's
      rw [hlook] at hcl
      cases hce : cache.cacheCoins.lookup t with
      | none =>
        rw [hce, Option.elim_none] at hcl
        exact hb t c hcl
      | some ce =>
        rw [hce, Option.elim_some] at hcl
        unfold baseEntry at hcl
        split_ifs at hcl
        · rw [Option.some.injEq] at hcl
          exact hcl ▸ hc.cleanup t ce hce
        · exact hb t c hcl
    · show ViewAgrees (stackView _ [CCoinsViewCache.empty] t) (stackView base [cache] t)
      rw [stackView_cons, stackView_cons, show CCoinsViewCache.empty.cacheCoins.lookup t = none from rfl,
        Option.elim_none]
      show ViewAgrees ((base.BatchWrite drop cache.cacheCoins).map.lookup t) _
      rw [hlook]
      cases hce : cache.cacheCoins.lookup t with
      | none => exact .refl _
      | some ce =>
        rw [Option.elim_some, Option.elim_some]
        unfold baseEntry
        split_ifs with hd hp
        · -- a pruned entry the base drops
          exact .inr ⟨rfl, by simpa using (Bool.and_eq_true_iff.1 hp).1⟩
        · exact .refl _
        · -- a clean entry is not written: it agrees with the base
          exact (hc.clean t ce hce (by simpa using hd)).symm
  | 0, base, cache :: parent :: lower, ⟨hc, hp, hl⟩ => by
    rw [show FlushAt DynamicMemoryUsage drop 0 base (cache :: parent :: lower) =
      (base, CCoinsViewCache.empty :: parent.BatchWrite DynamicMemoryUsage cache.cacheCoins :: lower)
      from rfl]
    refine ⟨⟨CacheInv.empty _, hp.BatchWrite hc, hl⟩, fun t => ?_⟩
    rw [stackView_cons base CCoinsViewCache.empty,
      show CCoinsViewCache.empty.cacheCoins.lookup t = none from rfl, Option.elim_none]
    exact stackView_BatchWrite_agrees hp hc t
  | level + 1, base, cache :: lower, ⟨hc, hl⟩ => by
    obtain ⟨hinv', hagree⟩ := FlushAt_spec drop level base lower hl
    have hflush : FlushAt DynamicMemoryUsage drop (level + 1) base (cache :: lower) =
        ((FlushAt DynamicMemoryUsage drop level base lower).1,
          cache :: (FlushAt DynamicMemoryUsage drop level base lower).2) := by
      rw [FlushAt]
    rw [hflush]
    exact ⟨⟨hc.congr fun t => (hagree t).symm, hinv'⟩, stackView_cons_agrees hagree cache⟩

end Flush

/-! ## The abstract map and the refinement -/

/-- A change that treats coins `operator==` finds equal alike: the changed coins, cleaned up,
are equal too. The simulation test's changes (new coins, or `Clear`) are such; a change that
reads the height or version of pruned coins is not. -/
def RespectsPruned (modify : CCoins → CCoins) : Prop :=
  ∀ c c', c.PrunedEquiv c' → (modify c).Cleanup.PrunedEquiv (modify c').Cleanup

/-- A change to fixed coins treats all coins alike. -/
theorem RespectsPruned.const (coins : CCoins) : RespectsPruned fun _ => coins :=
  fun _ _ _ => .refl _

/-- A change that leaves all coins pruned treats pruned coins alike. -/
theorem RespectsPruned.of_pruned {modify : CCoins → CCoins}
    (h : ∀ c, (modify c).IsPruned = true) : RespectsPruned modify := by
  intro c c' _
  refine .inr ⟨?_, ?_⟩
  · rw [CCoins.IsPruned_Cleanup]
    exact h c
  · rw [CCoins.IsPruned_Cleanup]
    exact h c'

/-- The abstract map's step: a change through a modifier replaces a transaction's coins (empty
coins when there are none) by the changed coins, cleaned up as the modifier's destructor does;
`ModifyNewCoins` changes empty coins. Reads, `Uncache`, flushes and the stack's shape change
nothing. -/
def CacheOp.apply (m : CoinsView) : CacheOp → CoinsView
  | .modifyCoins txid modify _ =>
    Function.update m txid (some (modify ((m txid).getD CCoins.Clear)).Cleanup)
  | .modifyNewCoins txid modify => Function.update m txid (some (modify CCoins.Clear).Cleanup)
  | _ => m

namespace CoinsStack

/-- A transaction's coins are absent or pruned in every cache and in the base: the "no entry
with the given txid exists" that `ModifyNewCoins` assumes, up to pruning. -/
def PrunedEverywhere (s : CoinsStack) (txid : uint256) : Bool :=
  s.caches.all (fun cache => (cache.cacheCoins.lookup txid).all fun e => e.coins.IsPruned) &&
    (s.base.map.lookup txid).all CCoins.IsPruned

/-- What an operation asks of the stack it is made on: a top cache for a change, a change that
treats pruned coins alike, and for `ModifyNewCoins` a transaction absent or pruned
everywhere. -/
def Allows (s : CoinsStack) : CacheOp → Prop
  | .modifyCoins _ modify _ => s.caches ≠ [] ∧ RespectsPruned modify
  | .modifyNewCoins txid _ => s.caches ≠ [] ∧ s.PrunedEverywhere txid = true
  | _ => True

end CoinsStack

/-- **The refinement relation**: the stack keeps its invariant and shows, for every
transaction, the abstract map's coins up to pruning. -/
structure Refines (DynamicMemoryUsage : CCoins → ℕ) (s : CoinsStack) (m : CoinsView) : Prop where
  inv : StackInv DynamicMemoryUsage s.base s.caches
  agree : ∀ t, ViewAgrees (stackView s.base s.caches t) (m t)

section Refinement

variable {DynamicMemoryUsage : CCoins → ℕ}

/-- An empty cache on top shows what is beneath. -/
theorem stackView_empty_cons (base : CoinsBase) (lower : List CCoinsViewCache) :
    stackView base (CCoinsViewCache.empty :: lower) = stackView base lower := by
  funext t
  rw [stackView_cons]
  rfl

/-- The flushed top is left empty. -/
theorem FlushAt_zero_head (drop : uint256 → Bool) (base : CoinsBase) :
    ∀ caches : List CCoinsViewCache,
      ∀ c ∈ (FlushAt DynamicMemoryUsage drop 0 base caches).2.head?, c = CCoinsViewCache.empty
  | [] => fun _ hc => by cases hc
  | [_] => fun _ hc => (Option.mem_some_iff.1 hc).symm
  | _ :: _ :: _ => fun _ hc => (Option.mem_some_iff.1 hc).symm

/-- Removing an empty top, if any, changes neither what the stack shows nor the invariant. -/
theorem Refines.tail {s : CoinsStack} {m : CoinsView} (h : Refines DynamicMemoryUsage s m)
    (hhead : ∀ c ∈ s.caches.head?, c = CCoinsViewCache.empty) :
    Refines DynamicMemoryUsage ⟨s.base, s.caches.tail⟩ m := by
  obtain ⟨base, caches⟩ := s
  cases caches with
  | nil => exact h
  | cons c lower =>
    obtain rfl := hhead c rfl
    refine ⟨h.inv.2, fun t => ?_⟩
    have hagree := h.agree t
    rwa [stackView_empty_cons] at hagree

theorem step_flush (s : CoinsStack) (level : ℕ) (drop : uint256 → Bool) :
    s.step DynamicMemoryUsage (.flush level drop) =
      ⟨(FlushAt DynamicMemoryUsage drop level s.base s.caches).1,
        (FlushAt DynamicMemoryUsage drop level s.base s.caches).2⟩ := rfl

theorem step_pop (s : CoinsStack) (drop : uint256 → Bool) :
    s.step DynamicMemoryUsage (.pop drop) =
      ⟨(FlushAt DynamicMemoryUsage drop 0 s.base s.caches).1,
        (FlushAt DynamicMemoryUsage drop 0 s.base s.caches).2.tail⟩ := rfl

/-- **One operation refines the abstract map's step.** From a stack that refines a map, an
allowed operation leads to a stack that refines the map after the operation.

**Proof sketch.** One case per operation, from its lemma. A change shows the change of coins
equal, up to pruning, to the map's, and a change that treats pruned coins alike turns them
into coins equal up to pruning. Reads, `Uncache` and flushes show what the stack showed, up to
pruning; a new or a popped top is empty. -/
theorem step_refines (husage : ∀ c : CCoins, c.vout = [] → DynamicMemoryUsage c = 0)
    {s : CoinsStack} {m : CoinsView} (h : Refines DynamicMemoryUsage s m) (op : CacheOp)
    (hop : s.Allows op) : Refines DynamicMemoryUsage (s.step DynamicMemoryUsage op) (op.apply m) := by
  obtain ⟨base, caches⟩ := s
  cases op with
  | modifyCoins txid modify hide =>
    obtain ⟨hne, hresp⟩ := hop
    obtain ⟨cache, lower, rfl⟩ := List.exists_cons_of_ne_nil hne
    obtain ⟨hinv, hother, cur, hcur, hview⟩ := ModifyCoins_spec hide txid modify cache lower h.inv
    refine ⟨hinv, fun t => ?_⟩
    by_cases ht : t = txid
    · -- the changed transaction: the stack changed coins equal to the map's up to pruning
      subst ht
      have hm : cur.PrunedEquiv ((m t).getD CCoins.Clear) := hcur.trans (h.agree t).getD_clear
      rw [CacheOp.apply, Function.update_self]
      exact hview.trans (ViewAgrees.of_prunedEquiv (hresp _ _ hm))
    · rw [CacheOp.apply, Function.update_of_ne ht]
      exact (hother t ht).symm ▸ h.agree t
  | modifyNewCoins txid modify =>
    obtain ⟨hne, hpruned⟩ := hop
    obtain ⟨cache, lower, rfl⟩ := List.exists_cons_of_ne_nil hne
    obtain ⟨hcaches, hbase⟩ := Bool.and_eq_true_iff.1 hpruned
    obtain ⟨hinv, hother, hview⟩ :=
      ModifyNewCoins_spec husage txid modify cache lower h.inv (List.all_eq_true.1 hcaches) hbase
    refine ⟨hinv, fun t => ?_⟩
    by_cases ht : t = txid
    · subst ht
      rw [CacheOp.apply, Function.update_self]
      exact hview
    · rw [CacheOp.apply, Function.update_of_ne ht]
      exact (hother t ht).symm ▸ h.agree t
  | accessCoins txid hide =>
    obtain ⟨hview, hinv, -⟩ := GetCoins_spec base hide caches txid h.inv
    refine ⟨hinv, fun t => ?_⟩
    show ViewAgrees (stackView base (GetCoins DynamicMemoryUsage base hide caches txid).1 t) (m t)
    rw [hview]
    exact h.agree t
  | uncache level hash =>
    obtain ⟨hinv, hagree⟩ := UncacheAt_spec hash level caches h.inv
    exact ⟨hinv, fun t => (hagree t).trans (h.agree t)⟩
  | flush level drop =>
    obtain ⟨hinv, hagree⟩ := FlushAt_spec drop level base caches h.inv
    rw [step_flush]
    exact ⟨hinv, fun t => (hagree t).trans (h.agree t)⟩
  | push =>
    refine ⟨⟨CacheInv.empty _, h.inv⟩, fun t => ?_⟩
    show ViewAgrees (stackView base (CCoinsViewCache.empty :: caches) t) (m t)
    rw [stackView_empty_cons]
    exact h.agree t
  | pop drop =>
    -- the top is flushed, which leaves it empty, and removed
    obtain ⟨hinv, hagree⟩ := FlushAt_spec drop 0 base caches h.inv
    have hflushed : Refines DynamicMemoryUsage ⟨(FlushAt DynamicMemoryUsage drop 0 base caches).1,
        (FlushAt DynamicMemoryUsage drop 0 base caches).2⟩ m :=
      ⟨hinv, fun t => (hagree t).trans (h.agree t)⟩
    rw [step_pop]
    exact hflushed.tail (FlushAt_zero_head drop base caches)

/-- **A run refines the abstract map's run.** -/
theorem run_refines (husage : ∀ c : CCoins, c.vout = [] → DynamicMemoryUsage c = 0)
    {s : CoinsStack} {m : CoinsView} (h : Refines DynamicMemoryUsage s m) (ops : List CacheOp)
    (hops : List.GuardedRun (CoinsStack.step DynamicMemoryUsage) CoinsStack.Allows s ops) :
    Refines DynamicMemoryUsage (s.run DynamicMemoryUsage ops) (ops.foldl CacheOp.apply m) :=
  List.foldl_simulation (Refines DynamicMemoryUsage)
    (fun _ _ op h hop => step_refines husage h op hop) ops h hops

/-- `GetCoins` of a stack returns what it shows, or nothing for pruned coins. -/
theorem GetCoins_agrees {base : CoinsBase} {caches : List CCoinsViewCache}
    (hinv : StackInv DynamicMemoryUsage base caches) (hide : Bool) (t : uint256) :
    ViewAgrees (GetCoins DynamicMemoryUsage base hide caches t).2 (stackView base caches t) := by
  rcases (GetCoins_spec base hide caches t hinv).2.2 with h | ⟨h, hpruned⟩
  · rw [h]
    exact .refl _
  · rw [h]
    exact .inr ⟨rfl, hpruned⟩

/-- **A stack of caches refines one map.** Along every run of allowed operations from a stack
that keeps the invariant, the stack keeps it, and `GetCoins` (or `AccessCoins`) of the top
returns the coins of the map the same changes make from what the stack showed at the start,
up to pruning: the simulation test's check passes (`ViewAgrees.iff_simulationCheck`). -/
theorem stack_refines_map (husage : ∀ c : CCoins, c.vout = [] → DynamicMemoryUsage c = 0)
    (s : CoinsStack) (hinv : StackInv DynamicMemoryUsage s.base s.caches) (ops : List CacheOp)
    (hops : List.GuardedRun (CoinsStack.step DynamicMemoryUsage) CoinsStack.Allows s ops)
    (hide : Bool) (t : uint256) :
    StackInv DynamicMemoryUsage (s.run DynamicMemoryUsage ops).base
        (s.run DynamicMemoryUsage ops).caches ∧
      ViewAgrees (GetCoins DynamicMemoryUsage (s.run DynamicMemoryUsage ops).base hide
          (s.run DynamicMemoryUsage ops).caches t).2
        (ops.foldl CacheOp.apply (stackView s.base s.caches) t) := by
  have hrun := run_refines husage ⟨hinv, fun t => .refl _⟩ ops hops
  exact ⟨hrun.inv, (GetCoins_agrees hrun.inv hide t).trans (hrun.agree t)⟩

end Refinement

/-! ## Runs from one empty cache -/

/-- One empty cache over an empty base, as the simulation test starts. -/
def CoinsStack.init : CoinsStack := ⟨⟨∅⟩, [CCoinsViewCache.empty]⟩

/-- A memory usage for the runs below: a unit for each output. -/
def voutUsage (c : CCoins) : ℕ := c.vout.length

/-- Coins with one unspent output of 5 satoshis, at height 5. -/
def unspentCoins : CCoins := ⟨false, [⟨5, []⟩], 5, 1⟩

/-- Other coins of the same transaction id (a duplicate coinbase), at height 9. -/
def duplicateCoins : CCoins := ⟨true, [⟨7, []⟩], 9, 1⟩

/-- Every output spent (`Spend` of each position). -/
def spendAll (c : CCoins) : CCoins := { c with vout := c.vout.map CTxOut.SetNull }

theorem voutUsage_eq_zero (c : CCoins) (h : c.vout = []) : voutUsage c = 0 := by
  rw [voutUsage, h, List.length_nil]

theorem IsPruned_spendAll (c : CCoins) : (spendAll c).IsPruned = true := by
  simp [spendAll, CCoins.IsPruned, CTxOut.SetNull, CTxOut.IsNull, CTxOut.null]

theorem StackInv_init : StackInv voutUsage CoinsStack.init.base CoinsStack.init.caches :=
  ⟨CacheInv.empty _, fun _ _ h => by cases h⟩

/-- Coins made and flushed into the base, a second cache pushed, the coins spent there and
the cache popped into the first; new coins for another transaction, a read and an `Uncache`. -/
def twoLayerRun : List CacheOp :=
  [.modifyCoins 7 (fun _ => unspentCoins) false, .flush 0 (fun _ => false), .push,
    .modifyCoins 7 spendAll false, .pop (fun _ => true), .modifyNewCoins 8 (fun _ => duplicateCoins),
    .accessCoins 7 true, .uncache 0 7]

theorem stack_refines_map_two_layers :
    StackInv voutUsage (CoinsStack.init.run voutUsage twoLayerRun).base
        (CoinsStack.init.run voutUsage twoLayerRun).caches ∧
      ViewAgrees (GetCoins voutUsage (CoinsStack.init.run voutUsage twoLayerRun).base true
          (CoinsStack.init.run voutUsage twoLayerRun).caches 7).2
        (twoLayerRun.foldl CacheOp.apply (stackView CoinsStack.init.base CoinsStack.init.caches) 7) :=
  stack_refines_map voutUsage_eq_zero CoinsStack.init StackInv_init twoLayerRun
    ⟨⟨List.cons_ne_nil _ _, RespectsPruned.const _⟩, trivial, trivial,
      ⟨List.cons_ne_nil _ _, RespectsPruned.of_pruned IsPruned_spendAll⟩, trivial,
      ⟨List.ne_nil_of_length_pos (by decide +kernel), by decide +kernel⟩, trivial, trivial, trivial⟩
    true 7

/-- Coins made and flushed into the base, then spent in the cache: the top shows pruned coins,
over unspent ones in the base. -/
def spentInCache : List CacheOp :=
  [.modifyCoins 7 (fun _ => unspentCoins) false, .flush 0 (fun _ => false),
    .modifyCoins 7 spendAll false]

/-- `ModifyNewCoins` where the view shows spent coins, and the new coins spent: the case of a
duplicate coinbase spent before a flush, which `coins.h` warns of. -/
def resurrectionRun : List CacheOp :=
  spentInCache ++ [.modifyNewCoins 7 (fun _ => duplicateCoins), .modifyCoins 7 spendAll false]

/-- **`ModifyNewCoins` over spent coins brings them back.** After `spentInCache` the top shows
pruned coins for the transaction; `ModifyNewCoins` then marks its entry fresh over the spent
one, spending the new coins erases it, and the base's unspent coins show again where the map
has pruned ones. -/
theorem modifyNewCoins_over_spent_coins_resurrects :
    (GetCoins voutUsage (CoinsStack.init.run voutUsage spentInCache).base false
        (CoinsStack.init.run voutUsage spentInCache).caches 7).2.all CCoins.IsPruned = true ∧
      (GetCoins voutUsage (CoinsStack.init.run voutUsage resurrectionRun).base false
        (CoinsStack.init.run voutUsage resurrectionRun).caches 7).2 = some unspentCoins ∧
      SimulationCheck (GetCoins voutUsage (CoinsStack.init.run voutUsage resurrectionRun).base false
          (CoinsStack.init.run voutUsage resurrectionRun).caches 7).2
        (resurrectionRun.foldl CacheOp.apply
          (stackView CoinsStack.init.base CoinsStack.init.caches) 7) = false := by
  decide +kernel

/-- An output put back into coins that keep their height and version: what `ApplyTxInUndo`
does with an undo record that has no height. It reads the height of pruned coins. -/
def restoreOutput (c : CCoins) : CCoins := { c with vout := [⟨3, []⟩] }

/- Pruned coins kept in the base after a flush are not the map's pruned coins: the base keeps
spent coins of height 5, the map has those of height 9. A change that reads the height tells
them apart, and the check fails. -/
example :
    let ops := spentInCache ++ [.flush 0 (fun _ => false), .modifyCoins 7 (fun _ => duplicateCoins) false,
      .modifyCoins 7 spendAll false, .modifyCoins 7 restoreOutput false]
    SimulationCheck (GetCoins voutUsage (CoinsStack.init.run voutUsage ops).base false
        (CoinsStack.init.run voutUsage ops).caches 7).2
      (ops.foldl CacheOp.apply (stackView CoinsStack.init.base CoinsStack.init.caches) 7) = false := by
  decide +kernel

end MvfBu
