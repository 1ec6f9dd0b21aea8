import MvfBu.Node.AddrManInv
import Mathlib.Data.List.Perm.Subperm

set_option autoImplicit false

/-!
# The internal steps of the address manager

Each internal step of `CAddrMan` (`SwapRandom`, `Delete`, `ClearNew`, the loop and the
eviction of `MakeTried`, `MakeTried` itself and the end of `Add_`) goes on from a state where
the invariant holds, to a state where it holds again, with the offsets and the ids without a
slot each leaves. None of them aborts: the `assert`s of `addrman.cpp` hold.

## Main results

* `CAddrMan.InvAt.size_le` — at most one entry per slot, so a bounded number of entries,
  which keeps the places of `vRandom` in the range of the `unsigned int` that `Delete` passes.
* `CAddrMan.InvAt.SwapRandom`, `InvAt.Delete`, `InvAt.ClearNew` — the steps that empty a slot.
* `CAddrMan.InvAt.MakeTried` — moving an entry to its tried slot.
* `CAddrMan.InvAt.addToNew` — placing an entry in its new bucket, or deleting it.

## Design

A step reports what it leaves unchanged as `stats`: each entry apart from its place in
`vRandom`, which `SwapRandom` moves. Callers that hold an id across a step read its entry back
from there.
-/

namespace MvfBu

namespace CAddrMan

open SlotTable

variable {α : Type}

/-- An entry apart from its place in `vRandom`. -/
def unranked (info : CAddrInfo α) : CAddrInfo α := { info with nRandomPos := 0 }

/-- The entries apart from their places in `vRandom`, by id. -/
def stats (M : SortedMap ℤ (CAddrInfo α)) (m : ℤ) : Option (CAddrInfo α) :=
  (M.find? m).map unranked

section Stats

variable (M : SortedMap ℤ (CAddrInfo α)) (n : ℤ) (x : CAddrInfo α)

theorem stats_insert : stats (M.insert n x) = Function.update (stats M) n (some (unranked x)) := by
  funext m
  simp only [stats, SortedMap.find?_insert, Function.update_apply]
  split_ifs <;> rfl

theorem stats_erase : stats (M.erase n) = Function.update (stats M) n none := by
  funext m
  simp only [stats, SortedMap.find?_erase, Function.update_apply]
  split_ifs <;> rfl

variable {M n}

/-- Writing an entry's place in `vRandom` only. -/
theorem stats_insert_rank {info : CAddrInfo α} (hn : M.find? n = some info) (z : ℤ) :
    stats (M.insert n { info with nRandomPos := z }) = stats M := by
  rw [stats_insert]
  exact Function.update_eq_self_iff.2 (by simp [stats, hn]; rfl)

/-- An entry with the same statistics has the same place. -/
theorem places_eq_of_stats {M' : SortedMap ℤ (CAddrInfo α)} {m : ℤ}
    (hs : stats M' m = stats M m) : places M' m = places M m := by
  have hplace : ∀ o : Option (CAddrInfo α), o.map place = (o.map unranked).map place := by
    intro o
    cases o <;> rfl
  simp only [stats] at hs
  simp only [places]
  rw [hplace, hs, ← hplace]

/-- An entry without statistics has no place. -/
theorem places_eq_none_of_stats (hs : stats M n = none) : places M n = none := by
  simpa [stats, places] using hs

/-- An entry read back from its statistics. -/
theorem find?_of_stats {M' : SortedMap ℤ (CAddrInfo α)} {info : CAddrInfo α}
    (hs : stats M' n = stats M n) (hn : M.find? n = some info) :
    ∃ info', M'.find? n = some info' ∧ unranked info' = unranked info := by
  simp only [stats, hn, Option.map_some, Option.map_eq_some_iff] at hs
  exact hs

end Stats

variable {h : AddrHashes α} {dT dN : ℤ} {E : List ℤ} {s : CAddrMan α} {n : ℤ}
  {info : CAddrInfo α}

/-! ### How many entries there are -/

/-- **At most one entry per slot.** Every entry is in a slot of one of the tables, or has no
slot yet and is in `E`. -/
theorem InvAt.size_le (hI : InvAt h dT dN E s) :
    s.mapInfo.size ≤ ADDRMAN_TRIED_BUCKET_COUNT * ADDRMAN_BUCKET_SIZE +
      ADDRMAN_NEW_BUCKET_COUNT * ADDRMAN_BUCKET_SIZE + E.length := by
  have hsub : s.mapInfo.keys ⊆ slotValues s.vvTried ++ slotValues s.vvNew ++ E := by
    intro m hm
    obtain ⟨info, hinfo⟩ := SortedMap.exists_find?_of_mem_keys hm
    have hp := hI.places_of_find hinfo
    cases ht : info.fInTried with
    | true =>
      have hslot := (hI.tried.slot_of_tried m _ hp ht).1
      exact List.mem_append_left _
        (List.mem_append_left _ (List.mem_map.2 ⟨_, mem_slots _, hslot⟩))
    | false =>
      by_cases hmE : m ∈ E
      · exact List.mem_append_right _ hmE
      · have h1 := hI.refCount_pos m _ hp ht hmE
        have h2 := hI.new.refCount_eq m _ hp ht
        have hcount : 0 < slotCount s.vvNew m := by
          simp only [place_nRefCount] at h1 h2
          omega
        exact List.mem_append_left _ (List.mem_append_right _ (List.count_pos_iff.1 hcount))
  have hlen := ((SortedMap.nodup_keys s.mapInfo).subperm hsub).length_le
  rw [← SortedMap.size_eq_length_keys] at hlen
  simp only [List.length_append, slotValues, List.length_map, length_slots] at hlen
  omega

/-- The places of `vRandom` fit an `unsigned int`. -/
theorem InvAt.length_le (hI : InvAt h dT dN E s) (hE : E.length ≤ 3) :
    s.vRandom.length ≤ 2 ^ 32 := by
  have := hI.size_le
  rw [hI.random.length_eq]
  simp only [ADDRMAN_TRIED_BUCKET_COUNT, ADDRMAN_NEW_BUCKET_COUNT, ADDRMAN_BUCKET_SIZE] at this
  omega

/-! ### Exchanging two places of `vRandom` -/

/-- **`SwapRandom`** exchanges two places of `vRandom`: it goes on, and keeps the invariant and
the entries apart from their places there. -/
theorem InvAt.SwapRandom (hI : InvAt h dT dN E s) {p1 p2 : ℕ} (hp1 : p1 < s.vRandom.length)
    (hp2 : p2 < s.vRandom.length) :
    ∃ v M, s.SwapRandom p1 p2 = some { s with vRandom := v, mapInfo := M } ∧
      InvAt h dT dN E { s with vRandom := v, mapInfo := M } ∧ stats M = stats s.mapInfo ∧
      v.length = s.vRandom.length ∧ v[p2]? = s.vRandom[p1]? := by
  by_cases heq : p1 = p2
  · subst heq
    refine ⟨s.vRandom, s.mapInfo, ?_, hI, rfl, rfl, rfl⟩
    simp [CAddrMan.SwapRandom]
  obtain ⟨info1, hf1, -⟩ := hI.random.find_of_get (List.getElem?_eq_getElem hp1)
  obtain ⟨info2, hf2, -⟩ := hI.random.find_of_get (List.getElem?_eq_getElem hp2)
  have hid : s.vRandom[p1] ≠ s.vRandom[p2] := fun he =>
    heq (hI.random.index.eq_of_get (List.getElem?_eq_getElem hp1)
      (he ▸ List.getElem?_eq_getElem hp2))
  have hf2' : (s.mapInfo.insert s.vRandom[p1] { info1 with nRandomPos := p2 }).find?
      s.vRandom[p2] = some info2 := by
    rw [SortedMap.find?_insert_of_ne _ _ hid]
    exact hf2
  have hstats : stats ((s.mapInfo.insert s.vRandom[p1] { info1 with nRandomPos := p2 }).insert
      s.vRandom[p2] { info2 with nRandomPos := p1 }) = stats s.mapInfo := by
    rw [stats_insert_rank hf2', stats_insert_rank hf1]
  have hP : places ((s.mapInfo.insert s.vRandom[p1] { info1 with nRandomPos := p2 }).insert
      s.vRandom[p2] { info2 with nRandomPos := p1 }) = places s.mapInfo :=
    funext fun m => places_eq_of_stats (congrFun hstats m)
  refine ⟨_, _, ?_, hI.reorder (hI.random.swap hp1 hp2 heq hf1 hf2) hP ?_ ?_ ?_, hstats, ?_, ?_⟩
  · unfold CAddrMan.SwapRandom
    rw [if_neg heq, dif_pos hp1, dif_pos hp2]
    dsimp only
    rw [if_pos ⟨by simp [hf1], by simp [hf2]⟩, modifyInfo_of_find _ _ hf1,
      modifyInfo_of_find _ _ hf2']
  · rw [size_insert_of_find _ hf2', size_insert_of_find _ hf1]
  · rw [triedNum_insert_same { info2 with nRandomPos := p1 } hf2' rfl,
      triedNum_insert_same { info1 with nRandomPos := p2 } hf1 rfl]
  · have t1 : TimesOk { info1 with nRandomPos := (p2 : ℤ) } :=
      (hI.times.of_find? hf1 : TimesOk info1)
    have t2 : TimesOk { info2 with nRandomPos := (p1 : ℤ) } :=
      (hI.times.of_find? hf2 : TimesOk info2)
    exact (hI.times.insert t1).insert t2
  · simp
  · rw [List.getElem?_set_self (by simpa using hp2), List.getElem?_eq_getElem hp1]

/-! ### The first loop of `MakeTried` -/

/-- A slot of a new bucket that holds an entry is the one at its position in the bucket. -/
theorem InvAt.pos_of_newSlot (hI : InvAt h dT dN E s) (hn : s.mapInfo.find? n = some info)
    {b : NewBucket} {i : BucketPos} (hb : s.vvNew b i = n) :
    h.GetBucketPosition s.nKey info.service true b = i := by
  have hp := hI.places_of_find hn
  obtain ⟨q, hq, -, hqpos⟩ := hI.new.new_slot b i (hb ▸ hI.addr.ne_neg_one hp)
  rw [hb, hp, Option.some.injEq] at hq
  rw [← hq] at hqpos
  exact hqpos

/-- **One turn of the first loop of `MakeTried`** empties the slot of `bucket` at the entry's
position if it holds the entry, which then has one reference less. Only the entry and the new
table change, and no slot of `bucket` holds the entry after it. -/
theorem InvAt.clearNewBucket (hI : InvAt h dT dN E s) (hE : n ∈ E)
    (hn : s.mapInfo.find? n = some info) (bucket : NewBucket) :
    ∃ M vv, clearNewBucket h n info.service s bucket = { s with mapInfo := M, vvNew := vv } ∧
      InvAt h dT dN E { s with mapInfo := M, vvNew := vv } ∧
      (∀ m, m ≠ n → M.find? m = s.mapInfo.find? m) ∧
      (∃ r, M.find? n = some { info with nRefCount := r }) ∧
      (∀ i, vv bucket i ≠ n) ∧ ∀ b, b ≠ bucket → vv b = s.vvNew b := by
  have hn1 := hI.addr.ne_neg_one (hI.places_of_find hn)
  unfold CAddrMan.clearNewBucket
  by_cases hb : s.vvNew bucket (h.GetBucketPosition s.nKey info.service true bucket) = n
  · rw [if_pos hb, modifyInfo_of_find _ _ hn]
    refine ⟨_, _, rfl, ?_, fun m hm => SortedMap.find?_insert_of_ne _ _ (Ne.symm hm),
      ⟨_, SortedMap.find?_insert_self ..⟩, fun i hi => ?_, fun b hb' => ?_⟩
    · have hI1 := hI.clearNewSlot (hb.symm ▸ hn)
      rw [hb] at hI1
      exact hI1.mono (List.cons_subset.2 ⟨hE, List.Subset.refl E⟩)
    · rw [setSlot_apply] at hi
      split_ifs at hi with hbi
      · exact hn1 hi.symm
      · exact hbi ⟨rfl, (hI.pos_of_newSlot hn hi).symm⟩
    · funext i
      rw [setSlot_apply, if_neg fun hbi => hb' hbi.1]
  · rw [if_neg hb]
    refine ⟨s.mapInfo, s.vvNew, rfl, hI, fun _ _ => rfl, ⟨info.nRefCount, hn⟩, fun i hi => ?_,
      fun _ _ => rfl⟩
    exact hb ((hI.pos_of_newSlot hn hi).symm ▸ hi)

/-- **The first loop of `MakeTried`** over a list of buckets: no slot of those buckets holds the
entry after it, and only the entry's references and the new table change.

**Proof sketch.** Induction on the buckets, one turn at a time (`InvAt.clearNewBucket`). -/
theorem InvAt.clearNewBuckets (hE : n ∈ E) :
    ∀ (l : List NewBucket) {s : CAddrMan α} {info : CAddrInfo α}, InvAt h dT dN E s →
      s.mapInfo.find? n = some info →
      ∃ M vv, l.foldl (CAddrMan.clearNewBucket h n info.service) s =
          { s with mapInfo := M, vvNew := vv } ∧
        InvAt h dT dN E { s with mapInfo := M, vvNew := vv } ∧
        (∀ m, m ≠ n → M.find? m = s.mapInfo.find? m) ∧
        (∃ r, M.find? n = some { info with nRefCount := r }) ∧
        ∀ b i, vv b i = n → b ∉ l ∧ s.vvNew b i = n
  | [], s, info, hI, hn => ⟨s.mapInfo, s.vvNew, rfl, hI, fun _ _ => rfl, ⟨_, hn⟩,
      fun _ _ hi => ⟨List.not_mem_nil, hi⟩⟩
  | a :: l, s, info, hI, hn => by
    obtain ⟨M1, vv1, hs1, hI1, hM1, ⟨r1, hr1⟩, hcl1, hfr1⟩ := hI.clearNewBucket hE hn a
    obtain ⟨M, vv, hs, hI2, hM, ⟨r, hr⟩, hcl⟩ := InvAt.clearNewBuckets hE l hI1 hr1
    refine ⟨M, vv, ?_, hI2, fun m hm => (hM m hm).trans (hM1 m hm), ⟨r, hr⟩,
      fun b i hi => ?_⟩
    · rw [List.foldl_cons, hs1]
      exact hs
    · obtain ⟨hbl, hb1⟩ := hcl b i hi
      have hba : b ≠ a := fun hba => hcl1 i (hba ▸ hb1)
      refine ⟨fun hmem => (List.mem_cons.1 hmem).elim hba hbl, ?_⟩
      have hb1' : vv1 b i = n := hb1
      rwa [hfr1 b hba] at hb1'


/-- An entry that a new slot holds has a reference. -/
theorem InvAt.one_le_refCount_of_slot (hI : InvAt h dT dN E s)
    (hn : s.mapInfo.find? n = some info) {b : NewBucket} {i : BucketPos}
    (hb : s.vvNew b i = n) : 1 ≤ info.nRefCount := by
  have hp := hI.places_of_find hn
  have hc := hI.new.refCount_eq n _ hp (hI.new.new_of_slot hb hp (hI.addr.ne_neg_one hp))
  have hpos : slotCount s.vvNew n ≠ 0 := fun h0 => (slotCount_eq_zero _ _).1 h0 b i hb
  simp only [place_nRefCount] at hc
  omega

/-! ### The steps that empty a slot, and `MakeTried` -/

variable [DecidableEq α]

/-- **`Delete`** removes a new entry without references: it goes on, and keeps the invariant,
the tables and the other entries. -/
theorem InvAt.Delete (hI : InvAt h dT dN E s) (hlen : s.vRandom.length ≤ 2 ^ 32)
    (hn : s.mapInfo.find? n = some info) (hnew : info.fInTried = false)
    (hr : info.nRefCount = 0) :
    ∃ s', s.Delete n = some s' ∧ InvAt h dT dN E s' ∧
      stats s'.mapInfo = Function.update (stats s.mapInfo) n none ∧ s'.vvNew = s.vvNew ∧
      s'.vvTried = s.vvTried ∧ s'.nKey = s.nKey := by
  obtain ⟨hpos0, hget⟩ := hI.random.get_of_find hn
  have hlt : info.nRandomPos.toNat < s.vRandom.length := (List.getElem?_eq_some_iff.1 hget).1
  -- the two places `Delete` passes as `unsigned int`s are unchanged by the conversion
  have hu1 : IntConv.toUnsigned 32 info.nRandomPos = info.nRandomPos.toNat := by
    have := @IntConv.toUnsigned_of_lt 32 _ hpos0 (by omega)
    omega
  have hu2 : IntConv.toUnsigned 32 ((s.vRandom.length : ℤ) - 1) = s.vRandom.length - 1 := by
    have := @IntConv.toUnsigned_of_lt 32 ((s.vRandom.length : ℤ) - 1) (by omega) (by omega)
    omega
  obtain ⟨v, M, hswap, hI1, hstats, hlenv, hlast⟩ :=
    hI.SwapRandom hlt (Nat.sub_lt (by omega) Nat.one_pos)
  have hlast' : v.getLast? = some n := by
    rw [List.getLast?_eq_getElem?, hlenv, hlast, hget]
  have hp : places M n = some (place info) := by
    rw [places_eq_of_stats (congrFun hstats n)]
    exact hI.places_of_find hn
  refine ⟨_, ?_, hI1.erase hlast' hp hnew hr, ?_, rfl, rfl, rfl⟩
  · unfold CAddrMan.Delete
    rw [hn]
    dsimp only
    rw [if_neg (by simp [hnew, hr]), hu1, hu2, hswap]
    rfl
  · show stats (M.erase n) = _
    rw [stats_erase, hstats]

/-- **`ClearNew`** empties a new slot, deleting its entry when no other slot holds it: it goes
on, and keeps the invariant, the tried table, the key and the other entries. -/
theorem InvAt.ClearNew (hI : InvAt h dT dN E s) (hlen : s.vRandom.length ≤ 2 ^ 32)
    (b : NewBucket) (i : BucketPos) :
    ∃ s', s.ClearNew b i = some s' ∧ InvAt h dT dN E s' ∧ s'.vvNew b i = -1 ∧
      s'.vvTried = s.vvTried ∧ s'.nKey = s.nKey ∧
      ∀ m, m ≠ s.vvNew b i → stats s'.mapInfo m = stats s.mapInfo m := by
  by_cases hb : s.vvNew b i = -1
  · exact ⟨s, by simp [CAddrMan.ClearNew, hb], hI, hb, rfl, rfl, fun _ _ => rfl⟩
  obtain ⟨p, hp, hnew, -⟩ := hI.new.new_slot b i hb
  obtain ⟨info, hn, rfl⟩ :
      ∃ info, s.mapInfo.find? (s.vvNew b i) = some info ∧ place info = p := by
    simpa [places] using hp
  -- the slot holds a reference of its entry
  have hpos : 0 < info.nRefCount := by
    have h1 := hI.new.refCount_eq _ _ hp hnew
    have h2 : slotCount s.vvNew (s.vvNew b i) ≠ 0 := fun h0 =>
      (slotCount_eq_zero _ _).1 h0 b i rfl
    simp only [place_nRefCount] at h1
    omega
  have hI1 := hI.clearNewSlot hn
  have hframe : ∀ m, m ≠ s.vvNew b i → stats (s.mapInfo.insert (s.vvNew b i)
      { info with nRefCount := info.nRefCount - 1 }) m = stats s.mapInfo m := fun m hm => by
    rw [stats_insert, Function.update_of_ne hm]
  have hclear : s.ClearNew b i = if info.nRefCount - 1 = 0 then
      CAddrMan.Delete { s with
        mapInfo := s.mapInfo.insert (s.vvNew b i) { info with nRefCount := info.nRefCount - 1 }
        vvNew := setSlot s.vvNew b i (-1) } (s.vvNew b i)
      else some { s with
        mapInfo := s.mapInfo.insert (s.vvNew b i) { info with nRefCount := info.nRefCount - 1 }
        vvNew := setSlot s.vvNew b i (-1) } := by
    unfold CAddrMan.ClearNew
    rw [if_pos hb]
    dsimp only
    rw [hn]
    dsimp only
    rw [if_pos hpos]
  by_cases hz : info.nRefCount - 1 = 0
  · -- the last reference: the entry is deleted
    obtain ⟨s2, hdel, hI2, hst2, hvv2, htr2, hkey2⟩ :=
      hI1.Delete hlen (SortedMap.find?_insert_self _ _ _) hnew hz
    have hgone : places s2.mapInfo (s.vvNew b i) = none := by
      have := congrFun hst2 (s.vvNew b i)
      rw [Function.update_self] at this
      exact places_eq_none_of_stats this
    refine ⟨s2, by rw [hclear, if_pos hz]; exact hdel,
      hI2.of_cons (fun q hq => by rw [hgone] at hq; cases hq), ?_, htr2, hkey2, fun m hm => ?_⟩
    · rw [hvv2]
      exact setSlot_self ..
    · rw [hst2, Function.update_of_ne hm]
      exact hframe m hm
  · refine ⟨_, by rw [hclear, if_neg hz], hI1.of_cons fun q hq _ => ?_, setSlot_self .., rfl,
      rfl, hframe⟩
    rw [places_insert, Function.update_self, Option.some.injEq] at hq
    rw [← hq]
    dsimp only [place]
    omega


/-- **The eviction of `MakeTried`** moves the entry of a tried slot back to its new bucket,
emptying the slot there first: it goes on, and keeps the invariant, the key and every entry that
neither slot holds. -/
theorem InvAt.evictTried (hI : InvAt h dT dN E s) (hE : E.length ≤ 2) {b : TriedBucket}
    {i : BucketPos} (hb : s.vvTried b i ≠ -1) :
    ∃ s', s.evictTried h b i = some s' ∧ InvAt h dT dN E s' ∧ s'.vvTried b i = -1 ∧
      s'.nKey = s.nKey ∧ ∀ m, m ≠ s.vvTried b i → (∀ b' i', s.vvNew b' i' ≠ m) →
        stats s'.mapInfo m = stats s.mapInfo m := by
  obtain ⟨p, hp, htr, -⟩ := hI.tried.tried_slot b i hb
  obtain ⟨infoOld, hn, rfl⟩ :
      ∃ info, s.mapInfo.find? (s.vvTried b i) = some info ∧ place info = p := by
    simpa [places] using hp
  have hr0 : infoOld.nRefCount = 0 := (hI.tried.slot_of_tried _ _ hp htr).2
  have hI1 := hI.clearTriedSlot hn
  obtain ⟨s2, hcl, hI2, hslot2, htr2, hkey2, hst2⟩ :=
    hI1.ClearNew (hI1.length_le (by simp only [List.length_cons]; omega))
      (h.GetNewBucket s.nKey infoOld.service infoOld.source)
      (h.GetBucketPosition s.nKey infoOld.service true
        (h.GetNewBucket s.nKey infoOld.service infoOld.source))
  -- the evicted entry was tried, so no new slot holds it and `ClearNew` leaves it
  have hoff : ∀ b' i', s.vvNew b' i' ≠ s.vvTried b i :=
    hI.new.ne_of_not_new hb fun q hq => by
      rw [hp, Option.some.injEq] at hq
      exact hq ▸ htr
  obtain ⟨info2, hf2, hu2⟩ := find?_of_stats (hst2 _ (hoff _ _).symm)
    (SortedMap.find?_insert_self s.mapInfo (s.vvTried b i) { infoOld with fInTried := false })
  have hnew2 : info2.fInTried = false := (congrArg CAddrInfo.fInTried hu2 :)
  have hr2 : info2.nRefCount = 0 := (congrArg CAddrInfo.nRefCount hu2 :).trans hr0
  have hs2 : info2.service = infoOld.service := (congrArg CAddrInfo.service hu2 :)
  have hI3 := hI2.fillNewSlot hslot2 hf2 hnew2 (by rw [hr2]; decide)
    (by rw [hkey2, hs2]) (List.Subset.refl _) (c := 1) (by rw [hr2]; rfl)
  have hI4 := hI3.nNew_add 1 rfl
  rw [Int.sub_add_cancel] at hI4
  refine ⟨_, ?_, hI4, ?_, hkey2, fun m hm hmoff => ?_⟩
  · unfold CAddrMan.evictTried
    dsimp only
    rw [hn]
    dsimp only
    rw [modifyInfo_of_find _ _ hn]
    dsimp only
    rw [hcl, Option.bind_some, if_neg (not_not.2 hslot2), modifyInfo_of_find _ _ hf2]
  · show s2.vvTried b i = -1
    rw [htr2]
    exact setSlot_self ..
  · show stats (s2.mapInfo.insert _ _) m = _
    rw [stats_insert, Function.update_of_ne hm, hst2 m (hmoff _ _).symm, stats_insert,
      Function.update_of_ne hm]

/-- **`MakeTried`** moves a new entry that has had a success to its tried slot, evicting the
entry there back to the new table: it goes on, and keeps the invariant.

**Proof sketch.** The first loop takes every reference of the entry, since a new slot that holds
it is at its position in its bucket (`InvAt.clearNewBuckets`). The eviction leaves the entry,
which no slot holds (`InvAt.evictTried`), and the entry then fills its emptied tried slot. -/
theorem InvAt.MakeTried (hI : Inv h s) (hn : s.mapInfo.find? n = some info)
    (hnew : info.fInTried = false) (hsucc : info.nLastSuccess ≠ 0) :
    ∃ s', s.MakeTried h n = some s' ∧ Inv h s' := by
  obtain ⟨M, vv, hs1, hI1, -, ⟨r, hr⟩, hcl⟩ :=
    InvAt.clearNewBuckets (List.mem_singleton_self n) (List.finRange ADDRMAN_NEW_BUCKET_COUNT)
      (InvAt.mono hI (List.nil_subset [n])) hn
  have hoff : ∀ b i, vv b i ≠ n := fun b i hbi => (hcl b i hbi).1 (List.mem_finRange b)
  have hr0 : r = 0 := by
    have := hI1.new.refCount_eq n _ (hI1.places_of_find hr) hnew
    rw [show slotCount vv n = 0 from (slotCount_eq_zero vv n).2 hoff] at this
    exact this
  subst hr0
  have hI2 : InvAt h 0 (0 + -1) [n] { s with mapInfo := M, vvNew := vv, nNew := s.nNew - 1 } :=
    hI1.nNew_add (-1) (by dsimp only; omega)
  have hp2 := hI2.places_of_find hr
  have hoff2 : (0 : ℤ) + -1 + 1 = 0 := by norm_num
  unfold CAddrMan.MakeTried
  rw [hn]
  dsimp only
  rw [hs1]
  dsimp only
  rw [hr]
  dsimp only
  rw [if_neg (not_not.2 rfl)]
  by_cases hkb : s.vvTried (h.GetTriedBucket s.nKey info.service)
      (h.GetBucketPosition s.nKey info.service false (h.GetTriedBucket s.nKey info.service)) = -1
  · -- the tried slot is empty: the entry takes it
    rw [if_neg (not_not.2 hkb), Option.bind_some, if_neg (not_not.2 hkb),
      modifyInfo_of_find _ _ hr]
    refine ⟨_, rfl, ?_⟩
    have hI3 := hI2.fillTriedSlot hkb hr hnew rfl rfl hsucc (List.Subset.refl [n])
    rw [hoff2] at hI3
    exact hI3
  · -- the entry there goes back to the new table first
    rw [if_pos hkb]
    obtain ⟨s3, hev, hI3, htr3, hkey3, hst3⟩ := hI2.evictTried (by simp) hkb
    have hne : n ≠ s.vvTried (h.GetTriedBucket s.nKey info.service)
        (h.GetBucketPosition s.nKey info.service false (h.GetTriedBucket s.nKey info.service)) :=
      (hI2.tried.ne_of_not_tried (hI2.addr.ne_neg_one hp2)
        (fun q hq => by rw [hp2, Option.some.injEq] at hq; exact hq ▸ hnew) _ _).symm
    obtain ⟨info3, hf3, hu3⟩ := find?_of_stats (hst3 n hne hoff) hr
    have hnew3 : info3.fInTried = false := (congrArg CAddrInfo.fInTried hu3 :).trans hnew
    have hr3 : info3.nRefCount = 0 := (congrArg CAddrInfo.nRefCount hu3 :)
    have hs3 : info3.service = info.service := (congrArg CAddrInfo.service hu3 :)
    have hsucc3 : info3.nLastSuccess ≠ 0 := (congrArg CAddrInfo.nLastSuccess hu3 :) ▸ hsucc
    rw [hev, Option.bind_some, if_neg (not_not.2 htr3), modifyInfo_of_find _ _ hf3]
    refine ⟨_, rfl, ?_⟩
    have hI4 := hI3.fillTriedSlot htr3 hf3 hnew3 hr3 (by rw [hkey3, hs3]; rfl) hsucc3
      (List.Subset.refl [n])
    rw [hoff2] at hI4
    exact hI4

/-! ### The end of `Add_` -/

/-- **Writing the entry into a new slot**, after emptying it, for an entry with no slot yet or
with a reference: it goes on, and the invariant holds again. -/
theorem InvAt.insertNew (hI : InvAt h 0 0 [n] s) (hn : s.mapInfo.find? n = some info)
    (hnew : info.fInTried = false) (hlt : info.nRefCount < ADDRMAN_NEW_BUCKETS_PER_ADDRESS)
    {b : NewBucket} {i : BucketPos} (hb : s.vvNew b i ≠ n)
    (hpos : h.GetBucketPosition s.nKey info.service true b = i) :
    ∃ s', ((s.ClearNew b i).map fun s =>
      { s.modifyInfo n (fun info => { info with nRefCount := info.nRefCount + 1 }) with
        vvNew := setSlot s.vvNew b i n }) = some s' ∧ Inv h s' := by
  obtain ⟨s2, hcl, hI2, hslot2, -, hkey2, hst2⟩ :=
    hI.ClearNew (hI.length_le (by simp)) b i
  obtain ⟨info2, hf2, hu2⟩ := find?_of_stats (hst2 n (Ne.symm hb)) hn
  have hnew2 : info2.fInTried = false := (congrArg CAddrInfo.fInTried hu2 :).trans hnew
  have hr2 : info2.nRefCount = info.nRefCount := (congrArg CAddrInfo.nRefCount hu2 :)
  have hs2 : info2.service = info.service := (congrArg CAddrInfo.service hu2 :)
  rw [hcl, Option.map_some, modifyInfo_of_find _ _ hf2]
  exact ⟨_, rfl, hI2.fillNewSlot hslot2 hf2 hnew2 (hr2 ▸ hlt) (by rw [hkey2, hs2, hpos])
    (List.Subset.refl [n]) rfl⟩

/-- **The end of `Add_`** puts an entry in the slot of its new bucket for the source, or deletes
it when it has no slot and gets none: it goes on, and the invariant holds again. The entry may
be one that `Add_` has just created, with no slot yet. -/
theorem InvAt.addToNew (hI : InvAt h 0 0 [n] s) (hn : s.mapInfo.find? n = some info)
    (hnew : info.fInTried = false) (hlt : info.nRefCount < ADDRMAN_NEW_BUCKETS_PER_ADDRESS)
    (source : α) (nAdjustedTime : ℤ) :
    ∃ s', s.addToNew h n source nAdjustedTime = some s' ∧ Inv h s' := by
  have hp := hI.places_of_find hn
  unfold CAddrMan.addToNew
  rw [hn]
  dsimp only
  by_cases hex : s.vvNew (h.GetNewBucket s.nKey info.service source)
      (h.GetBucketPosition s.nKey info.service true (h.GetNewBucket s.nKey info.service source)) = n
  · -- the slot holds the entry already
    rw [if_neg (not_not.2 hex)]
    refine ⟨s, rfl, hI.of_cons fun q hq _ => ?_⟩
    rw [hp, Option.some.injEq] at hq
    exact hq ▸ hI.one_le_refCount_of_slot hn hex
  rw [if_pos hex]
  by_cases he1 : s.vvNew (h.GetNewBucket s.nKey info.service source)
      (h.GetBucketPosition s.nKey info.service true
        (h.GetNewBucket s.nKey info.service source)) = -1
  · -- an empty slot takes the entry
    rw [if_pos he1, Option.bind_some, if_pos rfl]
    exact hI.insertNew hn hnew hlt hex rfl
  obtain ⟨q, hq, -, -⟩ := hI.new.new_slot _ _ he1
  obtain ⟨infoEx, hfex, -⟩ : ∃ infoEx, s.mapInfo.find? (s.vvNew (h.GetNewBucket s.nKey
      info.service source) (h.GetBucketPosition s.nKey info.service true
      (h.GetNewBucket s.nKey info.service source))) = some infoEx ∧ place infoEx = q := by
    simpa [places] using hq
  rw [if_neg he1, hfex, Option.map_some, Option.bind_some]
  split_ifs with hins hz
  · -- the entry there is terrible, or has other slots: the entry takes its place
    exact hI.insertNew hn hnew hlt hex rfl
  · -- an entry with no slot that gets none is deleted
    obtain ⟨s', hdel, hI', hst', -⟩ :=
      hI.Delete (hI.length_le (by simp)) hn hnew hz
    have hgone : places s'.mapInfo n = none := by
      have := congrFun hst' n
      rw [Function.update_self] at this
      exact places_eq_none_of_stats this
    exact ⟨s', hdel, hI'.of_cons fun q hq _ => by rw [hgone] at hq; cases hq⟩
  · refine ⟨s, rfl, hI.of_cons fun q hq _ => ?_⟩
    rw [hp, Option.some.injEq] at hq
    have := hI.new.refCount_eq n _ hp hnew
    simp only [place_nRefCount] at this
    rw [← hq]
    simp only [place_nRefCount]
    omega

end CAddrMan

end MvfBu
