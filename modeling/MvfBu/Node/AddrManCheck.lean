import MvfBu.Node.AddrManRun
import MvfBu.Lib.ExceptLemmas

set_option autoImplicit false

/-!
# The consistency check of the address manager

`Check_` returns `0` on every state where the invariant holds. It walks `mapInfo`, gathering
the ids of the tried entries and the reference counts of the new ones; then the tried table,
taking each id it finds out of the tried ids; then the new table, using up one reference for
each slot. Each walk is a run of steps in `Except`, and each goes through by the progress rule
`Except.foldlM_progress`, with an invariant on what the walk has gathered when a list of steps
is still to come. With the runs of `AddrManRun`, `Check_` returns `0` after every run from an
empty manager.

## Main definitions

* `CAddrMan.InfoScan`, `CAddrMan.TriedScan`, `CAddrMan.NewScan` — what each walk has gathered,
  with the steps still to come.

## Main results

* `CAddrMan.Inv.checkInfo` — an entry passes the checks of the walk over `mapInfo`.
* `CAddrMan.InfoScan.step`, `TriedScan.step`, `NewScan.step` — one step of each walk.
* `CAddrMan.Inv.Check_` — `Check_` returns `0` where the invariant holds.
* `CAddrMan.Check_run_eq_zero` — `Check_` returns `0` after every run from an empty manager,
  when the operations read the time as the clock gives it; at time `0` a `Good_` makes it
  return `-1`.
-/

namespace MvfBu

namespace CAddrMan

open SlotTable

variable {α : Type} {h : AddrHashes α} {s : CAddrMan α}

/-! ### The walk over `mapInfo` -/

/-- The reference count the walk over `mapInfo` gathers for an id: that of its entry, if it
is a new one. -/
def newRefCount (M : SortedMap ℤ (CAddrInfo α)) (m : ℤ) : Option ℤ :=
  (M.find? m).bind fun info => if info.fInTried then none else some info.nRefCount

/-- What the walk over `mapInfo` has gathered, with the entries `rest` still to come: the ids of
the tried entries before them, and the reference counts of the new entries before them. -/
structure InfoScan (s : CAddrMan α) (rest : List (ℤ × CAddrInfo α))
    (acc : List ℤ × SortedMap ℤ ℤ) : Prop where
  rest_nodup : (rest.map Prod.fst).Nodup
  rest_find : ∀ e ∈ rest, s.mapInfo.find? e.1 = some e.2
  tried_nodup : acc.1.Nodup
  mem_tried : ∀ m, m ∈ acc.1 ↔
    (∃ info, s.mapInfo.find? m = some info ∧ info.fInTried = true) ∧ m ∉ rest.map Prod.fst
  find_new : ∀ m,
    acc.2.find? m = if m ∈ rest.map Prod.fst then none else newRefCount s.mapInfo m
  tried_length : acc.1.length + (rest.map fun e => triedFlag e.2).sum = triedNum s.mapInfo
  size_eq : acc.1.length + acc.2.size + rest.length = s.mapInfo.size

/-- Whether the walk had gathered an id other than the next entry's as a tried one. -/
theorem InfoScan.mem_tried_of_ne {n : ℤ} {info : CAddrInfo α} {rest : List (ℤ × CAddrInfo α)}
    {acc : List ℤ × SortedMap ℤ ℤ} (hS : InfoScan s ((n, info) :: rest) acc) {m : ℤ}
    (hm : m ≠ n) : m ∈ acc.1 ↔
      (∃ info, s.mapInfo.find? m = some info ∧ info.fInTried = true) ∧ m ∉ rest.map Prod.fst := by
  rw [hS.mem_tried m]
  simp [hm]

/-- What the walk had gathered for an id other than the next entry's. -/
theorem InfoScan.find_new_of_ne {n : ℤ} {info : CAddrInfo α} {rest : List (ℤ × CAddrInfo α)}
    {acc : List ℤ × SortedMap ℤ ℤ} (hS : InfoScan s ((n, info) :: rest) acc) {m : ℤ}
    (hm : m ≠ n) :
    acc.2.find? m = if m ∈ rest.map Prod.fst then none else newRefCount s.mapInfo m := by
  rw [hS.find_new m]
  by_cases hr : m ∈ rest.map Prod.fst
  · have hr' : m ∈ ((n, info) :: rest).map Prod.fst := List.mem_cons_of_mem _ hr
    rw [if_pos hr', if_pos hr]
  · have hr' : m ∉ ((n, info) :: rest).map Prod.fst := fun h' => (List.mem_cons.1 h').elim hm hr
    rw [if_neg hr', if_neg hr]

/-- Nothing gathered before the walk. -/
theorem InfoScan.init (s : CAddrMan α) : InfoScan s s.mapInfo.entries ([], SortedMap.empty) where
  rest_nodup := SortedMap.nodup_keys s.mapInfo
  rest_find := fun _ he => SortedMap.find?_of_mem he
  tried_nodup := List.nodup_nil
  mem_tried := fun _ => by
    refine iff_of_false List.not_mem_nil ?_
    rintro ⟨⟨_, hm, -⟩, hkey⟩
    exact hkey (SortedMap.mem_keys_of_find? hm)
  find_new := fun m => by
    split_ifs with hkey
    · rfl
    · cases hm : s.mapInfo.find? m with
      | none => simp [newRefCount, hm]
      | some info => exact absurd (SortedMap.mem_keys_of_find? hm) hkey
  tried_length := Nat.zero_add _
  size_eq := by simp [SortedMap.size, SortedMap.empty]

/-- **An entry passes the checks** of the walk over `mapInfo`: a tried one joins the tried ids,
a new one the reference counts. -/
theorem Inv.checkInfo (hI : Inv h s) {n : ℤ} {info : CAddrInfo α}
    (hn : s.mapInfo.find? n = some info) (acc : List ℤ × SortedMap ℤ ℤ) :
    s.checkInfo acc (n, info) = .ok (if info.fInTried then (acc.1.insert n, acc.2)
      else (acc.1, acc.2.insert n info.nRefCount)) := by
  have hp := hI.places_of_find hn
  obtain ⟨hlastTry, hsucc, hsuccTried⟩ : TimesOk info := hI.times.of_find? hn
  have haddr : s.mapAddr info.service.ip = some n := hI.addr.addr_of_find n _ hp
  obtain ⟨hpos, hget⟩ := hI.random.get_of_find hn
  -- the checks after the first read the address, the place in `vRandom` and the times
  have htail : ¬ (info.nRandomPos < 0 ∨ s.vRandom[info.nRandomPos.toNat]? ≠ some n) := by
    simp [hget, hpos]
  cases htr : info.fInTried with
  | true =>
    have hr0 : info.nRefCount = 0 := (hI.tried.slot_of_tried n _ hp htr).2
    simp [CAddrMan.checkInfo, htr, hsuccTried htr, hr0, haddr, htail, not_lt.2 hlastTry,
      not_lt.2 hsucc]
  | false =>
    have hpos1 : 1 ≤ info.nRefCount := hI.refCount_pos n _ hp htr List.not_mem_nil
    have hle : info.nRefCount ≤ ADDRMAN_NEW_BUCKETS_PER_ADDRESS := hI.new.refCount_le n _ hp
    have hr : ¬ (info.nRefCount < 0 ∨ info.nRefCount > ADDRMAN_NEW_BUCKETS_PER_ADDRESS) := by
      omega
    have hr0 : info.nRefCount ≠ 0 := by omega
    simp [CAddrMan.checkInfo, htr, hr, hr0, haddr, htail, not_lt.2 hlastTry, not_lt.2 hsucc]

/-- **One step of the walk over `mapInfo`** passes, and keeps what the walk gathers right. -/
theorem InfoScan.step (hI : Inv h s) {e : ℤ × CAddrInfo α} {rest : List (ℤ × CAddrInfo α)}
    {acc : List ℤ × SortedMap ℤ ℤ} (hS : InfoScan s (e :: rest) acc) :
    ∃ acc', s.checkInfo acc e = .ok acc' ∧ InfoScan s rest acc' := by
  obtain ⟨n, info⟩ := e
  have hn : s.mapInfo.find? n = some info := hS.rest_find _ List.mem_cons_self
  obtain ⟨hnrest, hnodup⟩ := List.nodup_cons.1 hS.rest_nodup
  -- the id of the entry is not gathered yet
  have hnkey : n ∈ ((n, info) :: rest).map Prod.fst := List.mem_cons_self
  have hnT : n ∉ acc.1 := fun hT => ((hS.mem_tried n).1 hT).2 hnkey
  have hnN : acc.2.find? n = none := by rw [hS.find_new n, if_pos hnkey]
  have hfind' : ∀ e ∈ rest, s.mapInfo.find? e.1 = some e.2 := fun e he =>
    hS.rest_find e (List.mem_cons_of_mem _ he)
  have hlen := hS.tried_length
  have hsize := hS.size_eq
  simp only [List.map_cons, List.sum_cons, List.length_cons] at hlen hsize
  refine ⟨_, hI.checkInfo hn acc, ?_⟩
  cases htr : info.fInTried with
  | true =>
    -- the id joins the tried ids
    have hflag : triedFlag info = 1 := by simp [triedFlag, htr]
    rw [if_pos rfl]
    refine ⟨hnodup, hfind', hS.tried_nodup.insert, fun m => ?_, fun m => ?_, ?_, ?_⟩
    · dsimp only
      rw [List.mem_insert_iff]
      by_cases hm : m = n
      · subst hm
        exact iff_of_true (Or.inl rfl) ⟨⟨info, hn, htr⟩, hnrest⟩
      · rw [or_iff_right hm]
        exact hS.mem_tried_of_ne hm
    · dsimp only
      by_cases hm : m = n
      · subst hm
        rw [hnN, if_neg hnrest]
        simp [newRefCount, hn, htr]
      · exact hS.find_new_of_ne hm
    · dsimp only
      rw [List.length_insert_of_not_mem hnT]
      omega
    · dsimp only
      rw [List.length_insert_of_not_mem hnT]
      omega
  | false =>
    -- the reference count of the entry joins the new ones
    have hflag : triedFlag info = 0 := by simp [triedFlag, htr]
    have hsizeN := SortedMap.size_insert_add acc.2 n info.nRefCount
    rw [hnN, SortedMap.share_none, Nat.add_zero] at hsizeN
    rw [if_neg Bool.false_ne_true]
    refine ⟨hnodup, hfind', hS.tried_nodup, fun m => ?_, fun m => ?_, ?_, ?_⟩
    · dsimp only
      by_cases hm : m = n
      · subst hm
        refine iff_of_false hnT ?_
        rintro ⟨⟨info', hm', htr'⟩, -⟩
        rw [hn, Option.some.injEq] at hm'
        rw [← hm', htr] at htr'
        cases htr'
      · exact hS.mem_tried_of_ne hm
    · dsimp only
      rw [SortedMap.find?_insert]
      by_cases hm : m = n
      · subst hm
        simp [hnrest, newRefCount, hn, htr]
      · rw [if_neg hm]
        exact hS.find_new_of_ne hm
    · dsimp only
      omega
    · dsimp only
      omega

/-! ### The walk over the tried table -/

/-- What the walk over the tried table has left of the tried ids, with the slots `rest` still to
come: the tried entries whose slot is among them. -/
structure TriedScan (h : AddrHashes α) (s : CAddrMan α) (rest : List (TriedBucket × BucketPos))
    (T : List ℤ) : Prop where
  rest_nodup : rest.Nodup
  nodup : T.Nodup
  mem : ∀ m, m ∈ T ↔ ∃ info, s.mapInfo.find? m = some info ∧ info.fInTried = true ∧
    triedSlotOf h s.nKey info.service ∈ rest

/-- The walk over the tried table starts from every tried id. -/
theorem TriedScan.init {T : List ℤ} {N : SortedMap ℤ ℤ} (hS : InfoScan s [] (T, N)) :
    TriedScan h s (slots _ _) T where
  rest_nodup := nodup_slots
  nodup := hS.tried_nodup
  mem := fun m => by
    rw [hS.mem_tried m]
    constructor
    · rintro ⟨⟨info, hm, htr⟩, -⟩
      exact ⟨info, hm, htr, mem_slots _⟩
    · rintro ⟨info, hm, htr, -⟩
      exact ⟨⟨info, hm, htr⟩, List.not_mem_nil⟩

/-- **One step of the walk over the tried table** passes, and takes the id it finds out of the
tried ids. -/
theorem TriedScan.step (hI : Inv h s) {p : TriedBucket × BucketPos}
    {rest : List (TriedBucket × BucketPos)} {T : List ℤ} (hS : TriedScan h s (p :: rest) T) :
    ∃ T', s.checkTriedSlot h T p = .ok T' ∧ TriedScan h s rest T' := by
  obtain ⟨hprest, hnodup⟩ := List.nodup_cons.1 hS.rest_nodup
  -- a tried entry's slot holds it, so a slot holds no other tried entry
  have hslot : ∀ m info, s.mapInfo.find? m = some info → info.fInTried = true →
      triedSlotOf h s.nKey info.service = p → s.vvTried p.1 p.2 = m := by
    intro m info hm htr hp
    have := (hI.tried.slot_of_tried m _ (hI.places_of_find hm) htr).1
    rwa [place_service, hp] at this
  by_cases hb : s.vvTried p.1 p.2 = -1
  · refine ⟨T, by simp [CAddrMan.checkTriedSlot, hb], hnodup, hS.nodup, fun m => ?_⟩
    rw [hS.mem m]
    refine exists_congr fun info => and_congr_right fun hm => and_congr_right fun htr => ?_
    refine ⟨fun hmem => (List.mem_cons.1 hmem).resolve_left fun hp => ?_,
      List.mem_cons_of_mem _⟩
    have := hslot m info hm htr hp
    rw [hb] at this
    exact hI.addr.ne_neg_one (hI.places_of_find hm) this.symm
  obtain ⟨q, hq, hqtr, hqslot⟩ := hI.tried.tried_slot p.1 p.2 hb
  obtain ⟨info, hn, rfl⟩ := places_eq_some.1 hq
  rw [place_service] at hqslot
  rw [place_fInTried] at hqtr
  have hmem : s.vvTried p.1 p.2 ∈ T := (hS.mem _).2 ⟨info, hn, hqtr, by
    rw [hqslot]
    exact List.mem_cons_self⟩
  have hb1 : h.GetTriedBucket s.nKey info.service = p.1 := congrArg Prod.fst hqslot
  have hb2 : h.GetBucketPosition s.nKey info.service false p.1 = p.2 := by
    have := congrArg Prod.snd hqslot
    rwa [triedSlotOf, hb1] at this
  refine ⟨T.erase (s.vvTried p.1 p.2), by simp [CAddrMan.checkTriedSlot, hb, hmem, hn, hb1, hb2],
    hnodup, hS.nodup.erase _, fun m => ?_⟩
  rw [hS.nodup.mem_erase_iff, hS.mem m]
  constructor
  · rintro ⟨hne, info', hm, htr, hmem'⟩
    refine ⟨info', hm, htr, (List.mem_cons.1 hmem').resolve_left fun hp => hne ?_⟩
    exact (hslot m info' hm htr hp).symm
  · rintro ⟨info', hm, htr, hmem'⟩
    refine ⟨fun he => hprest ?_, info', hm, htr, List.mem_cons_of_mem _ hmem'⟩
    subst he
    rw [hn, Option.some.injEq] at hm
    subst hm
    rwa [hqslot] at hmem'

/-! ### The walk over the new table -/

/-- How many of the slots `rest` of the new table hold `m`. -/
def newSlotsLeft (s : CAddrMan α) (rest : List (NewBucket × BucketPos)) (m : ℤ) : ℕ :=
  (rest.map fun p => s.vvNew p.1 p.2).count m

theorem newSlotsLeft_cons (s : CAddrMan α) (p : NewBucket × BucketPos)
    (rest : List (NewBucket × BucketPos)) (m : ℤ) :
    newSlotsLeft s (p :: rest) m = newSlotsLeft s rest m + if s.vvNew p.1 p.2 = m then 1 else 0 := by
  simp [newSlotsLeft, List.count_cons]

/-- What the walk over the new table has left of the reference counts, with the slots `rest`
still to come: for each id, how many of them hold it. -/
structure NewScan (s : CAddrMan α) (rest : List (NewBucket × BucketPos)) (N : SortedMap ℤ ℤ) :
    Prop where
  find : ∀ m, N.find? m =
    if m = -1 ∨ newSlotsLeft s rest m = 0 then none else some (newSlotsLeft s rest m : ℤ)

/-- The walk over the new table starts from the reference counts of the new entries, which are
the numbers of slots that hold them. -/
theorem NewScan.init (hI : Inv h s) {T : List ℤ} {N : SortedMap ℤ ℤ}
    (hS : InfoScan s [] (T, N)) : NewScan s (slots _ _) N where
  find := fun m => by
    rw [hS.find_new m, if_neg (by simp)]
    show newRefCount s.mapInfo m = if m = -1 ∨ slotCount s.vvNew m = 0 then none else _
    cases hm : s.mapInfo.find? m with
    | none =>
      -- no slot holds an id without an entry
      have hoff : m ≠ -1 → slotCount s.vvNew m = 0 := fun hm1 =>
        (slotCount_eq_zero _ _).2 fun b i hbi => by
          obtain ⟨q, hq, -⟩ := hI.new.new_slot b i (hbi ▸ hm1)
          rw [hbi] at hq
          simp [places, hm] at hq
      rw [if_pos (or_iff_not_imp_left.2 hoff)]
      simp [newRefCount, hm]
    | some info =>
      have hp := hI.places_of_find hm
      have hm1 := hI.addr.ne_neg_one hp
      cases htr : info.fInTried with
      | true =>
        have hoff : slotCount s.vvNew m = 0 := (slotCount_eq_zero _ _).2
          (hI.new.ne_of_not_new hm1 fun q hq => by
            rw [hp, Option.some.injEq] at hq
            rw [← hq]
            exact htr)
        rw [if_pos (Or.inr hoff)]
        simp [newRefCount, hm, htr]
      | false =>
        have hc := hI.new.refCount_eq m _ hp htr
        have hpos := hI.refCount_pos m _ hp htr List.not_mem_nil
        simp only [place_nRefCount] at hc hpos
        have hc0 : slotCount s.vvNew m ≠ 0 := by omega
        have hnr : newRefCount s.mapInfo m = some info.nRefCount := by
          simp [newRefCount, hm, htr]
        rw [hnr, if_neg (not_or.2 ⟨hm1, hc0⟩), hc]
        rfl

/-- **One step of the walk over the new table** passes, and uses up one reference of the id it
finds. -/
theorem NewScan.step (hI : Inv h s) {p : NewBucket × BucketPos}
    {rest : List (NewBucket × BucketPos)} {N : SortedMap ℤ ℤ} (hS : NewScan s (p :: rest) N) :
    ∃ N', s.checkNewSlot h N p = .ok N' ∧ NewScan s rest N' := by
  by_cases hb : s.vvNew p.1 p.2 = -1
  · refine ⟨N, by simp [CAddrMan.checkNewSlot, hb], ⟨fun m => ?_⟩⟩
    by_cases hm : m = -1
    · rw [hS.find m]
      simp [hm]
    · have hcount : newSlotsLeft s (p :: rest) m = newSlotsLeft s rest m := by
        rw [newSlotsLeft_cons, if_neg (by rw [hb]; exact Ne.symm hm), Nat.add_zero]
      rw [hS.find m, hcount]
  -- the slot holds a new entry at its position in the bucket
  obtain ⟨q, hq, -, hqpos⟩ := hI.new.new_slot p.1 p.2 hb
  obtain ⟨info, hn, rfl⟩ := places_eq_some.1 hq
  rw [place_service] at hqpos
  have hc : N.find? (s.vvNew p.1 p.2) =
      some ((newSlotsLeft s rest (s.vvNew p.1 p.2) : ℤ) + 1) := by
    rw [hS.find, newSlotsLeft_cons, if_pos rfl, if_neg (by omega)]
    push_cast
    rfl
  refine ⟨if (newSlotsLeft s rest (s.vvNew p.1 p.2) : ℤ) + 1 - 1 = 0 then
      N.erase (s.vvNew p.1 p.2)
    else N.insert (s.vvNew p.1 p.2) ((newSlotsLeft s rest (s.vvNew p.1 p.2) : ℤ) + 1 - 1), ?_,
    ⟨fun m => ?_⟩⟩
  · simp only [CAddrMan.checkNewSlot, ne_eq, hb, not_false_eq_true, if_true, hc, hn, hqpos,
      not_true_eq_false, if_false]
    split_ifs <;> rfl
  · rw [Int.add_sub_cancel]
    by_cases hm : m = s.vvNew p.1 p.2
    · subst hm
      split_ifs with h0 h1 h1
      · exact SortedMap.find?_erase_self ..
      · omega
      · simp [hb] at h1
        omega
      · exact SortedMap.find?_insert_self ..
    · have hother : newSlotsLeft s rest m = newSlotsLeft s (p :: rest) m := by
        rw [newSlotsLeft_cons, if_neg (Ne.symm hm), Nat.add_zero]
      rw [hother, ← hS.find m]
      split_ifs
      · exact SortedMap.find?_erase_of_ne _ (Ne.symm hm)
      · exact SortedMap.find?_insert_of_ne _ _ (Ne.symm hm)

/-! ### `Check_` -/

/-- **`Check_` returns `0`** on every state where the invariant holds.

**Proof sketch.** The counters agree with the number of entries. The walk over `mapInfo` passes,
gathering every tried id and the reference count of every new entry (`InfoScan.step`), so the
counts of the two agree with `nTried` and `nNew`. The walk over the tried table takes every
tried id out, each at its own slot (`TriedScan.step`); the walk over the new table uses up
every reference, one per slot (`NewScan.step`). -/
theorem Inv.Check_ (hI : Inv h s) : s.Check_ h = 0 := by
  have hlen : (s.vRandom.length : ℤ) = s.nTried + s.nNew := by
    have h1 := hI.nTried_eq
    have h2 := hI.nNew_eq
    rw [hI.random.length_eq]
    omega
  obtain ⟨⟨T, N⟩, hinfo, hS⟩ := Except.foldlM_progress (InfoScan s)
    (fun _ _ _ hS => InfoScan.step hI hS) _ (InfoScan.init s)
  obtain ⟨T', htried, hT'⟩ := Except.foldlM_progress (TriedScan h s)
    (fun _ _ _ hT => TriedScan.step hI hT) _ (TriedScan.init hS)
  obtain ⟨N', hnew, hN'⟩ := Except.foldlM_progress (NewScan s)
    (fun _ _ _ hN => NewScan.step hI hN) _ (NewScan.init hI hS)
  -- what the walk over `mapInfo` gathers agrees with the counters
  have hT : (T.length : ℤ) = s.nTried := by
    have := hS.tried_length
    simp only [List.map_nil, List.sum_nil, Nat.add_zero] at this
    rw [hI.nTried_eq, ← this]
    omega
  have hN : (N.size : ℤ) = s.nNew := by
    have h1 := hS.tried_length
    have h2 := hS.size_eq
    have h3 := hI.nNew_eq
    simp only [List.map_nil, List.sum_nil, List.length_nil, Nat.add_zero] at h1 h2
    omega
  -- the walks over the tables leave nothing
  have hT'0 : T'.length = 0 := by
    rw [List.length_eq_zero_iff, List.eq_nil_iff_forall_not_mem]
    intro m hm
    obtain ⟨_, _, _, hmem⟩ := (hT'.mem m).1 hm
    exact List.not_mem_nil hmem
  have hN'0 : N'.size = 0 := SortedMap.size_eq_zero_of_find? fun m => by
    rw [hN'.find m]
    simp [newSlotsLeft]
  unfold CAddrMan.Check_
  rw [if_neg (by omega), hinfo]
  simp only [hT, hN, ne_eq, not_true_eq_false, if_false, htried, hnew, hT'0, hN'0,
    hI.nKey_ne, if_false]

/-! ### Runs -/

variable [DecidableEq α]

/-- **`Check_` returns `0` after every run** from an empty manager whose key is not zero, when
every operation reads the time as the clock gives it: positive for `Good_`, not negative for
`Attempt_`. -/
theorem Check_run_eq_zero {nKey : ℕ} (hkey : nKey ≠ 0) (ops : List (Op α))
    (hops : ∀ op ∈ ops, op.clockOk = true) :
    ∃ s, CAddrMan.run h nKey ops = some s ∧ s.Check_ h = 0 := by
  obtain ⟨s, hrun, hI⟩ := Inv.run hkey ops hops
  exact ⟨s, hrun, hI.Check_⟩

/-- Keyed hashes that put every address in bucket `0` at position `0`. -/
def constHashes : AddrHashes ℕ :=
  ⟨fun _ _ => ⟨0, by decide⟩, fun _ _ _ => ⟨0, by decide⟩, fun _ _ _ _ => ⟨0, by decide⟩,
    fun _ => true⟩

/-- An address heard of, then connected to at a positive time. -/
theorem Check_run_eq_zero_add_good :
    (1 : ℕ) ≠ 0 ∧
      (∀ op ∈ [Op.Add_ ⟨⟨7, 8333⟩, 100⟩ 3 0 200 0, Op.Good_ ⟨7, 8333⟩ 200 0], op.clockOk = true) ∧
      ∃ s, CAddrMan.run constHashes 1
        [Op.Add_ ⟨⟨7, 8333⟩, 100⟩ 3 0 200 0, Op.Good_ ⟨7, 8333⟩ 200 0] = some s ∧
        s.Check_ constHashes = 0 :=
  ⟨by decide, by decide, Check_run_eq_zero (by decide) _ (by decide)⟩

/-- `Good_` at time `0` moves an entry to the tried table with no success recorded, and
`Check_` then returns `-1`. -/
theorem Check_after_good_at_time_zero :
    (CAddrMan.run constHashes 1
      [Op.Add_ ⟨⟨7, 8333⟩, 100⟩ 3 0 200 0, Op.Good_ ⟨7, 8333⟩ 0 0]).map
        (Check_ constHashes) = some (-1) := by
  decide +kernel

end CAddrMan

end MvfBu
