import MvfBu.Node.AddrMan
import MvfBu.Lib.PosIndex

set_option autoImplicit false

/-!
# The invariant of the address manager

The consistency `Check_` tests is an invariant of every operation. It is stated as
`CAddrMan.InvAt`, which also describes the states inside an operation: the counters `nTried`
and `nNew` may be off by a known amount (`MakeTried` decrements `nNew` before the entry
leaves the new table), and a few ids may have no new slot yet (the entry `Add_` just created,
the entry `MakeTried` is moving).

## Main definitions

* `CAddrMan.Place`, `CAddrMan.places` — what places an entry in the tables.
* `CAddrMan.RandomInv` — `vRandom` lists the ids of `mapInfo`, each at its `nRandomPos`.
* `CAddrMan.TableInv` — `mapAddr`, the fresh ids and the two tables agree with the places.
* `CAddrMan.InvAt`, `CAddrMan.Inv` — the invariant inside and between operations.

## Main results

* `CAddrMan.TableInv.clearNew`, `fillNew`, `clearTried`, `fillTried`, `erase`, `create` —
  how one change of a slot or of an entry moves the tables' invariant.

## Design

The invariant is stated over the parts of the state it reads: `vRandom` and `mapInfo` for
`RandomInv`; the places of the entries, `mapAddr`, `nIdCount`, the two tables and the key
for `TableInv`. Each change an internal step makes is then one lemma about these parts, with
no state in it, and each internal step is one lemma that chains them.
-/

namespace MvfBu

namespace CAddrMan

open SlotTable

variable {α : Type}

/-- What places an entry in the tables: its address, its table and its reference count. -/
structure Place (α : Type) where
  service : CService α
  fInTried : Bool
  nRefCount : ℤ

/-- The place of an entry. -/
def place (info : CAddrInfo α) : Place α := ⟨info.service, info.fInTried, info.nRefCount⟩

@[simp] theorem place_service (info : CAddrInfo α) : (place info).service = info.service := rfl

@[simp] theorem place_fInTried (info : CAddrInfo α) : (place info).fInTried = info.fInTried := rfl

@[simp] theorem place_nRefCount (info : CAddrInfo α) : (place info).nRefCount = info.nRefCount :=
  rfl

/-- The places of the entries, by id. -/
def places (M : SortedMap ℤ (CAddrInfo α)) (m : ℤ) : Option (Place α) := (M.find? m).map place

/-- The places in `vRandom` the entries record, by id. -/
def randomPos (M : SortedMap ℤ (CAddrInfo α)) (m : ℤ) : Option ℤ :=
  (M.find? m).map CAddrInfo.nRandomPos

/-- `1` for a tried entry. -/
def triedFlag (info : CAddrInfo α) : ℕ := if info.fInTried then 1 else 0

/-- The number of tried entries. -/
def triedNum (M : SortedMap ℤ (CAddrInfo α)) : ℕ := SortedMap.sumBy triedFlag M

/-- The times `Check_` reads are not negative, and a tried entry has had a success. -/
def TimesOk (info : CAddrInfo α) : Prop :=
  0 ≤ info.nLastTry ∧ 0 ≤ info.nLastSuccess ∧ (info.fInTried = true → info.nLastSuccess ≠ 0)

/-! ### Writing and erasing an entry -/

section Entries

variable (M : SortedMap ℤ (CAddrInfo α)) (n : ℤ) (x : CAddrInfo α)

/-- `modifyInfo` on an entry that is there writes it. -/
theorem modifyInfo_of_find (s : CAddrMan α) {info : CAddrInfo α}
    (hn : s.mapInfo.find? n = some info) (f : CAddrInfo α → CAddrInfo α) :
    s.modifyInfo n f = { s with mapInfo := s.mapInfo.insert n (f info) } := by
  unfold modifyInfo
  rw [hn]

theorem places_insert : places (M.insert n x) = Function.update (places M) n (some (place x)) := by
  funext m
  simp only [places, SortedMap.find?_insert, Function.update_apply]
  split_ifs <;> rfl

theorem places_erase : places (M.erase n) = Function.update (places M) n none := by
  funext m
  simp only [places, SortedMap.find?_erase, Function.update_apply]
  split_ifs <;> rfl

theorem randomPos_insert :
    randomPos (M.insert n x) = Function.update (randomPos M) n (some x.nRandomPos) := by
  funext m
  simp only [randomPos, SortedMap.find?_insert, Function.update_apply]
  split_ifs <;> rfl

theorem randomPos_erase : randomPos (M.erase n) = Function.update (randomPos M) n none := by
  funext m
  simp only [randomPos, SortedMap.find?_erase, Function.update_apply]
  split_ifs <;> rfl

variable {M n} {info : CAddrInfo α}

theorem size_insert_of_find (hn : M.find? n = some info) : (M.insert n x).size = M.size := by
  have hsize := SortedMap.size_insert_add M n x
  rw [hn, SortedMap.share_some] at hsize
  omega

theorem size_erase_of_find (hn : M.find? n = some info) : (M.erase n).size + 1 = M.size := by
  have hsize := SortedMap.size_erase_add M n
  rwa [hn, SortedMap.share_some] at hsize

theorem triedNum_insert_of_find (hn : M.find? n = some info) :
    triedNum (M.insert n x) + triedFlag info = triedNum M + triedFlag x := by
  have hsum := SortedMap.sumBy_set triedFlag M n (some x)
  rwa [SortedMap.set_some, hn, SortedMap.share_some, SortedMap.share_some] at hsum

theorem triedNum_insert_of_none (hn : M.find? n = none) :
    triedNum (M.insert n x) = triedNum M + triedFlag x := by
  have hsum := SortedMap.sumBy_set triedFlag M n (some x)
  rwa [SortedMap.set_some, hn, SortedMap.share_some, SortedMap.share_none, Nat.add_zero] at hsum

/-- Writing an entry that stays in its table keeps the number of tried entries. -/
theorem triedNum_insert_same (hn : M.find? n = some info) (hx : x.fInTried = info.fInTried) :
    triedNum (M.insert n x) = triedNum M := by
  have := triedNum_insert_of_find x hn
  have hflag : triedFlag x = triedFlag info := by simp only [triedFlag, hx]
  omega

theorem triedNum_erase_of_find (hn : M.find? n = some info) :
    triedNum (M.erase n) + triedFlag info = triedNum M := by
  have hsum := SortedMap.sumBy_set triedFlag M n none
  rwa [SortedMap.set_none, hn, SortedMap.share_some, SortedMap.share_none, Nat.add_zero] at hsum

end Entries

/-- Over an update at one point, a value is either the new one there or an old one elsewhere. -/
theorem update_eq_some {β : Type} {P : ℤ → Option β} {n m : ℤ} {p q : β} :
    Function.update P n (some p) m = some q ↔ (m = n ∧ p = q) ∨ (m ≠ n ∧ P m = some q) := by
  rw [Function.update_apply]
  split_ifs with hm <;> simp [hm]

/-! ### The invariant -/

/-- `vRandom` lists the ids of the entries, each at the place its entry records. -/
structure RandomInv (vRandom : List ℤ) (M : SortedMap ℤ (CAddrInfo α)) : Prop where
  length_eq : vRandom.length = M.size
  index : vRandom.PosIndex (randomPos M)

/-- `mapAddr` leads from each address to its entry, and the ids are below `nIdCount`. -/
structure AddrInv (P : ℤ → Option (Place α)) (mapAddr : α → Option ℤ) (nIdCount : ℤ) :
    Prop where
  addr_of_find : ∀ m p, P m = some p → mapAddr p.service.ip = some m
  find_of_addr : ∀ a m, mapAddr a = some m → ∃ p, P m = some p ∧ p.service.ip = a
  nIdCount_nonneg : 0 ≤ nIdCount
  id_mem : ∀ m p, P m = some p → 0 ≤ m ∧ m < nIdCount

variable (h : AddrHashes α)

/-- The tried slot of an address. -/
def triedSlotOf (nKey : ℕ) (service : CService α) : TriedBucket × BucketPos :=
  (h.GetTriedBucket nKey service,
    h.GetBucketPosition nKey service false (h.GetTriedBucket nKey service))

/-- The tried table agrees with the places: a tried entry sits in its tried slot with no
reference, and every tried slot that is not empty holds a tried entry that belongs there. -/
structure TriedInv (nKey : ℕ) (P : ℤ → Option (Place α)) (vvTried : TriedBucket → BucketPos → ℤ) :
    Prop where
  tried_slot : ∀ b i, vvTried b i ≠ -1 → ∃ p, P (vvTried b i) = some p ∧ p.fInTried = true ∧
    triedSlotOf h nKey p.service = (b, i)
  slot_of_tried : ∀ m p, P m = some p → p.fInTried = true →
    vvTried (triedSlotOf h nKey p.service).1 (triedSlotOf h nKey p.service).2 = m ∧
      p.nRefCount = 0

/-- The new table agrees with the places: a new entry has as many references as new slots hold
it, every entry at most eight, and every new slot that is not empty holds a new entry at its
position in the bucket. -/
structure NewInv (nKey : ℕ) (P : ℤ → Option (Place α)) (vvNew : NewBucket → BucketPos → ℤ) :
    Prop where
  new_slot : ∀ b i, vvNew b i ≠ -1 → ∃ p, P (vvNew b i) = some p ∧ p.fInTried = false ∧
    h.GetBucketPosition nKey p.service true b = i
  refCount_eq : ∀ m p, P m = some p → p.fInTried = false → p.nRefCount = slotCount vvNew m
  refCount_le : ∀ m p, P m = some p → p.nRefCount ≤ ADDRMAN_NEW_BUCKETS_PER_ADDRESS

/-- **The invariant inside an operation.** The random order, the address map and the two
tables agree with the entries, the counters are off by `dT` and `dN`, the new entries outside
`E` have a reference, and the times are right. -/
structure InvAt (dT dN : ℤ) (E : List ℤ) (s : CAddrMan α) : Prop where
  random : RandomInv s.vRandom s.mapInfo
  addr : AddrInv (places s.mapInfo) s.mapAddr s.nIdCount
  tried : TriedInv h s.nKey (places s.mapInfo) s.vvTried
  new : NewInv h s.nKey (places s.mapInfo) s.vvNew
  nKey_ne : s.nKey ≠ 0
  nTried_eq : s.nTried = triedNum s.mapInfo + dT
  nNew_eq : s.nNew + triedNum s.mapInfo = s.mapInfo.size + dN
  refCount_pos : ∀ m p, places s.mapInfo m = some p → p.fInTried = false → m ∉ E →
    1 ≤ p.nRefCount
  times : s.mapInfo.All TimesOk

/-- **The invariant of the address manager**, between operations. -/
def Inv (s : CAddrMan α) : Prop := InvAt h 0 0 [] s

variable {h}

/-! ### `mapAddr` and the ids -/

section Addr

variable {P : ℤ → Option (Place α)} {mapAddr : α → Option ℤ} {nIdCount : ℤ}

theorem AddrInv.ne_neg_one (hA : AddrInv P mapAddr nIdCount) {m : ℤ} {p : Place α}
    (hm : P m = some p) : m ≠ -1 := by
  have := (hA.id_mem m p hm).1
  omega

theorem AddrInv.neg_one (hA : AddrInv P mapAddr nIdCount) : P (-1) = none := by
  cases hp : P (-1) with
  | none => rfl
  | some p => exact absurd rfl (hA.ne_neg_one hp)

theorem AddrInv.fresh (hA : AddrInv P mapAddr nIdCount) : P nIdCount = none := by
  cases hp : P nIdCount with
  | none => rfl
  | some p =>
    have := (hA.id_mem _ p hp).2
    omega

/-- Changing an entry but its address keeps `mapAddr` and the ids right. -/
theorem AddrInv.update (hA : AddrInv P mapAddr nIdCount) {n : ℤ} {p p' : Place α}
    (hn : P n = some p) (hs : p'.service = p.service) :
    AddrInv (Function.update P n (some p')) mapAddr nIdCount := by
  constructor
  · intro m q hq
    rcases update_eq_some.1 hq with ⟨rfl, rfl⟩ | ⟨-, hq⟩
    · rw [hs]
      exact hA.addr_of_find _ p hn
    · exact hA.addr_of_find m q hq
  · intro a m ha
    obtain ⟨q, hq, hqa⟩ := hA.find_of_addr a m ha
    by_cases hm : m = n
    · subst hm
      rw [hn, Option.some.injEq] at hq
      subst hq
      exact ⟨p', Function.update_self .., hs ▸ hqa⟩
    · exact ⟨q, by rw [Function.update_of_ne hm]; exact hq, hqa⟩
  · exact hA.nIdCount_nonneg
  · intro m q hq
    rcases update_eq_some.1 hq with ⟨rfl, rfl⟩ | ⟨-, hq⟩
    · exact hA.id_mem _ p hn
    · exact hA.id_mem m q hq

variable [DecidableEq α]

/-- **A new entry** takes the next id, for an address with no id yet. -/
theorem AddrInv.create (hA : AddrInv P mapAddr nIdCount) {p : Place α}
    (hfree : mapAddr p.service.ip = none) :
    AddrInv (Function.update P nIdCount (some p))
      (Function.update mapAddr p.service.ip (some nIdCount)) (nIdCount + 1) := by
  constructor
  · intro m q hq
    rcases update_eq_some.1 hq with ⟨rfl, rfl⟩ | ⟨-, hq⟩
    · exact Function.update_self ..
    · have hq' := hA.addr_of_find m q hq
      have hne : q.service.ip ≠ p.service.ip := fun he => by
        rw [he, hfree] at hq'
        cases hq'
      rw [Function.update_of_ne hne]
      exact hq'
  · intro a m ha
    by_cases hap : a = p.service.ip
    · subst hap
      rw [Function.update_self, Option.some.injEq] at ha
      subst ha
      exact ⟨p, Function.update_self .., rfl⟩
    · rw [Function.update_of_ne hap] at ha
      obtain ⟨q, hq, hqa⟩ := hA.find_of_addr a m ha
      have hm : m ≠ nIdCount := (hA.id_mem m q hq).2.ne
      exact ⟨q, by rw [Function.update_of_ne hm]; exact hq, hqa⟩
  · have := hA.nIdCount_nonneg
    omega
  · intro m q hq
    rcases update_eq_some.1 hq with ⟨rfl, rfl⟩ | ⟨-, hq⟩
    · have := hA.nIdCount_nonneg
      omega
    · have := hA.id_mem m q hq
      omega

/-- **Erasing an entry** with its address. -/
theorem AddrInv.erase (hA : AddrInv P mapAddr nIdCount) {n : ℤ} {p : Place α}
    (hn : P n = some p) :
    AddrInv (Function.update P n none) (Function.update mapAddr p.service.ip none) nIdCount := by
  have hpn := hA.addr_of_find n p hn
  constructor
  · intro m q hq
    have hm : m ≠ n := fun he => by rw [he, Function.update_self] at hq; cases hq
    rw [Function.update_of_ne hm] at hq
    have hq' := hA.addr_of_find m q hq
    have hne : q.service.ip ≠ p.service.ip := fun he => by
      rw [he, hpn, Option.some.injEq] at hq'
      exact hm hq'.symm
    rw [Function.update_of_ne hne]
    exact hq'
  · intro a m ha
    by_cases hap : a = p.service.ip
    · subst hap
      rw [Function.update_self] at ha
      cases ha
    · rw [Function.update_of_ne hap] at ha
      obtain ⟨q, hq, hqa⟩ := hA.find_of_addr a m ha
      have hm : m ≠ n := fun he => by
        rw [he, hn, Option.some.injEq] at hq
        exact hap (hq ▸ hqa).symm
      exact ⟨q, by rw [Function.update_of_ne hm]; exact hq, hqa⟩
  · exact hA.nIdCount_nonneg
  · intro m q hq
    have hm : m ≠ n := fun he => by rw [he, Function.update_self] at hq; cases hq
    rw [Function.update_of_ne hm] at hq
    exact hA.id_mem m q hq

end Addr

/-! ### The tried table -/

section Tried

variable {nKey : ℕ} {P : ℤ → Option (Place α)} {vvTried : TriedBucket → BucketPos → ℤ}

/-- No tried slot holds an id that is not a tried entry. -/
theorem TriedInv.ne_of_not_tried (hT : TriedInv h nKey P vvTried) {m : ℤ} (hm1 : m ≠ -1)
    (hm : ∀ p, P m = some p → p.fInTried = false) (b : TriedBucket) (i : BucketPos) :
    vvTried b i ≠ m := by
  intro hb
  obtain ⟨q, hq, hqt, -⟩ := hT.tried_slot b i (hb ▸ hm1)
  rw [hb] at hq
  rw [hm q hq] at hqt
  cases hqt

/-- Changing the place of an id that no tried slot holds, to one that is not tried. -/
theorem TriedInv.update_off (hT : TriedInv h nKey P vvTried) {n : ℤ}
    (hoff : ∀ b i, vvTried b i ≠ n) {o : Option (Place α)}
    (ho : ∀ p, o = some p → p.fInTried = false) :
    TriedInv h nKey (Function.update P n o) vvTried := by
  constructor
  · intro b i hne
    rw [Function.update_of_ne (hoff b i)]
    exact hT.tried_slot b i hne
  · intro m q hq ht
    by_cases hm : m = n
    · subst hm
      rw [Function.update_self] at hq
      rw [ho q hq] at ht
      cases ht
    · rw [Function.update_of_ne hm] at hq
      exact hT.slot_of_tried m q hq ht

/-- **Emptying a tried slot** makes its entry a new one, with no reference yet. -/
theorem TriedInv.clear (hT : TriedInv h nKey P vvTried) {b : TriedBucket} {i : BucketPos}
    {n : ℤ} {p : Place α} (hb : vvTried b i = n) (hn : P n = some p) (hn1 : n ≠ -1) :
    TriedInv h nKey (Function.update P n (some { p with fInTried := false }))
      (setSlot vvTried b i (-1)) := by
  obtain ⟨q, hq, -, hslot⟩ := hT.tried_slot b i (hb ▸ hn1)
  rw [hb, hn, Option.some.injEq] at hq
  subst hq
  constructor
  · intro b' i' hne
    rw [setSlot_apply] at hne ⊢
    split_ifs at hne ⊢ with hbi
    · exact absurd rfl hne
    · obtain ⟨q', hq', hqt', hslot'⟩ := hT.tried_slot b' i' hne
      have hm : vvTried b' i' ≠ n := fun he => by
        rw [he, hn, Option.some.injEq] at hq'
        subst hq'
        exact hbi (Prod.mk.injEq .. ▸ hslot'.symm.trans hslot)
      exact ⟨q', by rw [Function.update_of_ne hm]; exact hq', hqt', hslot'⟩
  · intro m q hq ht
    rcases update_eq_some.1 hq with ⟨-, rfl⟩ | ⟨hm, hq⟩
    · cases ht
    · obtain ⟨hs, hr⟩ := hT.slot_of_tried m q hq ht
      rw [setSlot_apply, if_neg]
      · exact ⟨hs, hr⟩
      · rintro ⟨h1, h2⟩
        rw [h1, h2, hb] at hs
        exact hm hs.symm

/-- **Filling an empty tried slot** with a new entry without references, whose slot it is,
makes the entry a tried one. -/
theorem TriedInv.fill (hT : TriedInv h nKey P vvTried) {b : TriedBucket} {i : BucketPos}
    {n : ℤ} {p : Place α} (hb : vvTried b i = -1) (hn : P n = some p) (hnew : p.fInTried = false)
    (hr : p.nRefCount = 0) (hslot : triedSlotOf h nKey p.service = (b, i))
    (hP1 : P (-1) = none) :
    TriedInv h nKey (Function.update P n (some { p with fInTried := true }))
      (setSlot vvTried b i n) := by
  have hn1 : n ≠ -1 := fun he => by rw [he, hP1] at hn; cases hn
  constructor
  · intro b' i' hne
    rw [setSlot_apply] at hne ⊢
    split_ifs at hne ⊢ with hbi
    · obtain ⟨rfl, rfl⟩ := hbi
      exact ⟨_, Function.update_self .., rfl, hslot⟩
    · obtain ⟨q', hq', hqt', hslot'⟩ := hT.tried_slot b' i' hne
      have hm : vvTried b' i' ≠ n :=
        hT.ne_of_not_tried hn1 (fun q hq => by rw [hn, Option.some.injEq] at hq; exact hq ▸ hnew)
          b' i'
      exact ⟨q', by rw [Function.update_of_ne hm]; exact hq', hqt', hslot'⟩
  · intro m q hq ht
    rcases update_eq_some.1 hq with ⟨rfl, rfl⟩ | ⟨hm, hq⟩
    · refine ⟨?_, hr⟩
      show setSlot vvTried b i m (triedSlotOf h nKey p.service).1
        (triedSlotOf h nKey p.service).2 = m
      rw [hslot]
      exact setSlot_self ..
    · obtain ⟨hs, hr'⟩ := hT.slot_of_tried m q hq ht
      rw [setSlot_apply, if_neg]
      · exact ⟨hs, hr'⟩
      · rintro ⟨h1, h2⟩
        rw [h1, h2, hb] at hs
        rw [← hs, hP1] at hq
        cases hq

end Tried

/-! ### The new table -/

section New

variable {nKey : ℕ} {P : ℤ → Option (Place α)} {vvNew : NewBucket → BucketPos → ℤ}

/-- The entry a new slot holds is a new one. -/
theorem NewInv.new_of_slot (hN : NewInv h nKey P vvNew) {b : NewBucket} {i : BucketPos}
    {n : ℤ} {p : Place α} (hb : vvNew b i = n) (hn : P n = some p) (hn1 : n ≠ -1) :
    p.fInTried = false := by
  obtain ⟨q, hq, hqt, -⟩ := hN.new_slot b i (hb ▸ hn1)
  rw [hb, hn, Option.some.injEq] at hq
  exact hq ▸ hqt

/-- No new slot holds an id that is not a new entry. -/
theorem NewInv.ne_of_not_new (hN : NewInv h nKey P vvNew) {m : ℤ} (hm1 : m ≠ -1)
    (hm : ∀ p, P m = some p → p.fInTried = true) (b : NewBucket) (i : BucketPos) :
    vvNew b i ≠ m := by
  intro hb
  obtain ⟨q, hq, hqt, -⟩ := hN.new_slot b i (hb ▸ hm1)
  rw [hb] at hq
  rw [hm q hq] at hqt
  cases hqt

/-- Changing the place of an id that no new slot holds, to one with no reference if new. -/
theorem NewInv.update_off (hN : NewInv h nKey P vvNew) {n : ℤ} (hoff : ∀ b i, vvNew b i ≠ n)
    {o : Option (Place α)}
    (ho : ∀ p, o = some p → (p.fInTried = false → p.nRefCount = 0) ∧
      p.nRefCount ≤ ADDRMAN_NEW_BUCKETS_PER_ADDRESS) :
    NewInv h nKey (Function.update P n o) vvNew := by
  constructor
  · intro b i hne
    rw [Function.update_of_ne (hoff b i)]
    exact hN.new_slot b i hne
  · intro m q hq hqnew
    by_cases hm : m = n
    · subst hm
      rw [Function.update_self] at hq
      rw [(ho q hq).1 hqnew, (slotCount_eq_zero vvNew m).2 hoff, Nat.cast_zero]
    · rw [Function.update_of_ne hm] at hq
      exact hN.refCount_eq m q hq hqnew
  · intro m q hq
    by_cases hm : m = n
    · subst hm
      rw [Function.update_self] at hq
      exact (ho q hq).2
    · rw [Function.update_of_ne hm] at hq
      exact hN.refCount_le m q hq

/-- **Emptying a new slot** takes one reference from the entry it held. -/
theorem NewInv.clear (hN : NewInv h nKey P vvNew) {b : NewBucket} {i : BucketPos} {n : ℤ}
    {p : Place α} (hb : vvNew b i = n) (hn : P n = some p) (hP1 : P (-1) = none) :
    NewInv h nKey (Function.update P n (some { p with nRefCount := p.nRefCount - 1 }))
      (setSlot vvNew b i (-1)) := by
  have hn1 : n ≠ -1 := fun he => by rw [he, hP1] at hn; cases hn
  have hnew := hN.new_of_slot hb hn hn1
  constructor
  · intro b' i' hne
    rw [setSlot_apply] at hne ⊢
    split_ifs at hne ⊢ with hbi
    · exact absurd rfl hne
    · obtain ⟨q, hq, hqt, hpos⟩ := hN.new_slot b' i' hne
      by_cases hm : vvNew b' i' = n
      · rw [hm, hn, Option.some.injEq] at hq
        subst hq
        exact ⟨{ p with nRefCount := p.nRefCount - 1 }, by rw [hm, Function.update_self], hqt,
          hpos⟩
      · exact ⟨q, by rw [Function.update_of_ne hm]; exact hq, hqt, hpos⟩
  · intro m q hq hqnew
    have hc := slotCount_setSlot vvNew b i (-1) m
    rcases update_eq_some.1 hq with ⟨rfl, rfl⟩ | ⟨hm, hq⟩
    · rw [if_pos hb, if_neg (Ne.symm hn1)] at hc
      have := hN.refCount_eq m p hn hnew
      dsimp only
      omega
    · have hm1 : m ≠ -1 := fun he => by rw [he, hP1] at hq; cases hq
      rw [if_neg (by rw [hb]; exact Ne.symm hm), if_neg (Ne.symm hm1)] at hc
      rw [hN.refCount_eq m q hq hqnew]
      omega
  · intro m q hq
    rcases update_eq_some.1 hq with ⟨rfl, rfl⟩ | ⟨-, hq⟩
    · have := hN.refCount_le m p hn
      dsimp only
      omega
    · exact hN.refCount_le m q hq

/-- **Filling an empty new slot** with a new entry whose position it is gives the entry one
more reference. -/
theorem NewInv.fill (hN : NewInv h nKey P vvNew) {b : NewBucket} {i : BucketPos} {n : ℤ}
    {p : Place α} (hb : vvNew b i = -1) (hn : P n = some p) (hnew : p.fInTried = false)
    (hlt : p.nRefCount < ADDRMAN_NEW_BUCKETS_PER_ADDRESS)
    (hpos : h.GetBucketPosition nKey p.service true b = i) (hP1 : P (-1) = none) :
    NewInv h nKey (Function.update P n (some { p with nRefCount := p.nRefCount + 1 }))
      (setSlot vvNew b i n) := by
  have hn1 : n ≠ -1 := fun he => by rw [he, hP1] at hn; cases hn
  constructor
  · intro b' i' hne
    rw [setSlot_apply] at hne ⊢
    split_ifs at hne ⊢ with hbi
    · obtain ⟨rfl, rfl⟩ := hbi
      exact ⟨_, Function.update_self .., hnew, hpos⟩
    · obtain ⟨q, hq, hqt, hpos'⟩ := hN.new_slot b' i' hne
      by_cases hm : vvNew b' i' = n
      · rw [hm, hn, Option.some.injEq] at hq
        subst hq
        exact ⟨{ p with nRefCount := p.nRefCount + 1 }, by rw [hm, Function.update_self], hqt,
          hpos'⟩
      · exact ⟨q, by rw [Function.update_of_ne hm]; exact hq, hqt, hpos'⟩
  · intro m q hq hqnew
    have hc := slotCount_setSlot vvNew b i m m
    rcases update_eq_some.1 hq with ⟨rfl, rfl⟩ | ⟨hm, hq⟩
    · rw [if_neg (by rw [hb]; exact Ne.symm hn1), if_pos rfl] at hc
      have := hN.refCount_eq m p hn hnew
      dsimp only
      omega
    · have hc' := slotCount_setSlot vvNew b i n m
      have hm1 : m ≠ -1 := fun he => by rw [he, hP1] at hq; cases hq
      rw [if_neg (by rw [hb]; exact Ne.symm hm1), if_neg (Ne.symm hm)] at hc'
      rw [hN.refCount_eq m q hq hqnew]
      omega
  · intro m q hq
    rcases update_eq_some.1 hq with ⟨rfl, rfl⟩ | ⟨-, hq⟩
    · dsimp only
      omega
    · exact hN.refCount_le m q hq

end New

/-! ### The random order -/

section Random

variable {v : List ℤ} {M : SortedMap ℤ (CAddrInfo α)} {n : ℤ} {info x : CAddrInfo α}

/-- Writing an entry that keeps its place in `vRandom`. -/
theorem RandomInv.insert_same (hR : RandomInv v M) (hn : M.find? n = some info)
    (hx : x.nRandomPos = info.nRandomPos) : RandomInv v (M.insert n x) := by
  refine ⟨by rw [size_insert_of_find x hn]; exact hR.length_eq, ?_⟩
  rw [randomPos_insert, hx, Function.update_eq_self_iff.2 (by simp [randomPos, hn])]
  exact hR.index

/-- A new entry at the end of `vRandom`. -/
theorem RandomInv.append (hR : RandomInv v M) (hn : M.find? n = none)
    (hx : x.nRandomPos = v.length) : RandomInv (v ++ [n]) (M.insert n x) := by
  have hsize := SortedMap.size_insert_add M n x
  rw [hn, SortedMap.share_none, Nat.add_zero] at hsize
  refine ⟨by rw [List.length_append, hsize, hR.length_eq]; rfl, ?_⟩
  rw [randomPos_insert, hx]
  exact hR.index.append (by simp [randomPos, hn])

/-- The last entry of `vRandom` erased. -/
theorem RandomInv.dropLast (hR : RandomInv v M) (hlast : v.getLast? = some n)
    (hn : M.find? n = some info) : RandomInv v.dropLast (M.erase n) := by
  have hsize := size_erase_of_find hn
  refine ⟨by rw [List.length_dropLast, hR.length_eq]; omega, ?_⟩
  rw [randomPos_erase]
  exact hR.index.dropLast hlast

/-- **Exchanging two places** of `vRandom`, with the places the two entries record. -/
theorem RandomInv.swap (hR : RandomInv v M) {p1 p2 : ℕ} (hp1 : p1 < v.length)
    (hp2 : p2 < v.length) (hne : p1 ≠ p2) {info1 info2 : CAddrInfo α}
    (hf1 : M.find? v[p1] = some info1) (hf2 : M.find? v[p2] = some info2) :
    RandomInv ((v.set p1 v[p2]).set p2 v[p1])
      ((M.insert v[p1] { info1 with nRandomPos := p2 }).insert v[p2]
        { info2 with nRandomPos := p1 }) := by
  have hid : v[p1] ≠ v[p2] := fun he =>
    hne (hR.index.eq_of_get (List.getElem?_eq_getElem hp1) (he ▸ List.getElem?_eq_getElem hp2))
  have hf2' : (M.insert v[p1] { info1 with nRandomPos := p2 }).find? v[p2] = some info2 := by
    rw [SortedMap.find?_insert_of_ne _ _ hid]
    exact hf2
  refine ⟨?_, ?_⟩
  · rw [List.length_set, List.length_set, size_insert_of_find _ hf2', size_insert_of_find _ hf1]
    exact hR.length_eq
  · rw [randomPos_insert, randomPos_insert]
    exact hR.index.swap hp1 hp2 hne

/-- Every id in `vRandom` has an entry. -/
theorem RandomInv.find_of_get (hR : RandomInv v M) {i : ℕ} (hi : v[i]? = some n) :
    ∃ info, M.find? n = some info ∧ info.nRandomPos = i := by
  have hpos := hR.index.pos_of_get i n hi
  simp only [randomPos, Option.map_eq_some_iff] at hpos
  exact hpos

/-- Every entry has its place in `vRandom`. -/
theorem RandomInv.get_of_find (hR : RandomInv v M) (hn : M.find? n = some info) :
    0 ≤ info.nRandomPos ∧ v[info.nRandomPos.toNat]? = some n :=
  hR.index.get_of_pos n _ (by simp [randomPos, hn])

end Random

/-! ### One change of the state -/

section Changes

variable {dT dN : ℤ} {E : List ℤ} {s : CAddrMan α} {n : ℤ} {info : CAddrInfo α}

theorem InvAt.places_of_find (_hI : InvAt h dT dN E s) (hn : s.mapInfo.find? n = some info) :
    places s.mapInfo n = some (place info) := by
  simp [places, hn]

/-- More ids may go without a slot. -/
theorem InvAt.mono (hI : InvAt h dT dN E s) {E' : List ℤ} (hE : E ⊆ E') : InvAt h dT dN E' s :=
  { hI with refCount_pos := fun m p hm hnew hmE => hI.refCount_pos m p hm hnew fun h' => hmE (hE h') }

/-- An id leaves `E` once it is gone or has a reference. -/
theorem InvAt.of_cons (hI : InvAt h dT dN (n :: E) s)
    (hn : ∀ p, places s.mapInfo n = some p → p.fInTried = false → 1 ≤ p.nRefCount) :
    InvAt h dT dN E s := by
  refine { hI with refCount_pos := fun m p hm hnew hmE => ?_ }
  by_cases hmn : m = n
  · subst hmn
    exact hn p hm hnew
  · exact hI.refCount_pos m p hm hnew (by simp [hmn, hmE])

/-- A change of `nNew` moves its offset. -/
theorem InvAt.nNew_add (hI : InvAt h dT dN E s) {c : ℤ} (k : ℤ) (hc : c = s.nNew + k) :
    InvAt h dT (dN + k) E { s with nNew := c } :=
  { hI with nNew_eq := by have := hI.nNew_eq; dsimp only; omega }

/-- **Reordering**: a state whose entries have the same places and the same counts, with a
random order that agrees with them and right times, keeps the invariant. -/
theorem InvAt.reorder (hI : InvAt h dT dN E s) {v : List ℤ} {M : SortedMap ℤ (CAddrInfo α)}
    (hR : RandomInv v M) (hP : places M = places s.mapInfo) (hsize : M.size = s.mapInfo.size)
    (htried : triedNum M = triedNum s.mapInfo) (ht : M.All TimesOk) :
    InvAt h dT dN E { s with vRandom := v, mapInfo := M } := by
  refine ⟨hR, hP ▸ hI.addr, hP ▸ hI.tried, hP ▸ hI.new, hI.nKey_ne, ?_, ?_, ?_, ht⟩
  · rw [htried]
    exact hI.nTried_eq
  · rw [htried, hsize]
    exact hI.nNew_eq
  · rw [hP]
    exact hI.refCount_pos

/-- **Writing statistics** of an entry: what places it, its place in `vRandom` and the
times stay right. -/
theorem InvAt.insert_stats (hI : InvAt h dT dN E s) (hn : s.mapInfo.find? n = some info)
    {x : CAddrInfo α} (hx : place x = place info) (hpos : x.nRandomPos = info.nRandomPos)
    (ht : TimesOk x) : InvAt h dT dN E { s with mapInfo := s.mapInfo.insert n x } := by
  have hP : places (s.mapInfo.insert n x) = places s.mapInfo := by
    rw [places_insert, hx]
    exact Function.update_eq_self_iff.2 (hI.places_of_find hn).symm
  exact hI.reorder (hI.random.insert_same hn hpos) hP (size_insert_of_find x hn)
    (triedNum_insert_same x hn (congrArg Place.fInTried hx)) (hI.times.insert ht)

/-- Changing a new entry into another new one keeps the tried table right. -/
theorem InvAt.tried_update_new (hI : InvAt h dT dN E s) {p : Place α}
    (hp : places s.mapInfo n = some p) (hnew : p.fInTried = false) {o : Option (Place α)}
    (ho : ∀ q, o = some q → q.fInTried = false) :
    TriedInv h s.nKey (Function.update (places s.mapInfo) n o) s.vvTried :=
  hI.tried.update_off
    (hI.tried.ne_of_not_tried (hI.addr.ne_neg_one hp)
      fun q hq => by rw [hp, Option.some.injEq] at hq; exact hq ▸ hnew) ho

/-- **Emptying a new slot**: its entry has one reference less, and may have none left. -/
theorem InvAt.clearNewSlot (hI : InvAt h dT dN E s) {b : NewBucket} {i : BucketPos}
    (hn : s.mapInfo.find? (s.vvNew b i) = some info) :
    InvAt h dT dN (s.vvNew b i :: E) { s with
      mapInfo := s.mapInfo.insert (s.vvNew b i) { info with nRefCount := info.nRefCount - 1 }
      vvNew := setSlot s.vvNew b i (-1) } := by
  have hp := hI.places_of_find hn
  have hnew := hI.new.new_of_slot rfl hp (hI.addr.ne_neg_one hp)
  have htried := triedNum_insert_same { info with nRefCount := info.nRefCount - 1 } hn rfl
  refine ⟨hI.random.insert_same hn rfl, ?_, ?_, ?_, hI.nKey_ne, ?_, ?_, ?_, ?_⟩
  · rw [places_insert]
    exact hI.addr.update hp rfl
  · rw [places_insert]
    exact hI.tried_update_new hp hnew fun q hq => by cases hq; exact hnew
  · rw [places_insert]
    exact hI.new.clear rfl hp hI.addr.neg_one
  · rw [htried]
    exact hI.nTried_eq
  · rw [htried, size_insert_of_find _ hn]
    exact hI.nNew_eq
  · intro m q hq hqnew hmE
    rw [places_insert] at hq
    rcases update_eq_some.1 hq with ⟨rfl, -⟩ | ⟨-, hq⟩
    · exact absurd (List.mem_cons_self ..) hmE
    · exact hI.refCount_pos m q hq hqnew fun h' => hmE (List.mem_cons_of_mem _ h')
  · exact hI.times.insert (hI.times.of_find? hn : TimesOk info)

/-- **Filling an empty new slot** with a new entry whose position it is: the entry has one
reference more. -/
theorem InvAt.fillNewSlot (hI : InvAt h dT dN E s) {b : NewBucket} {i : BucketPos}
    (hb : s.vvNew b i = -1) (hn : s.mapInfo.find? n = some info) (hnew : info.fInTried = false)
    (hlt : info.nRefCount < ADDRMAN_NEW_BUCKETS_PER_ADDRESS)
    (hpos : h.GetBucketPosition s.nKey info.service true b = i) {E' : List ℤ}
    (hE : E ⊆ n :: E') {c : ℤ} (hc : c = info.nRefCount + 1) :
    InvAt h dT dN E' { s with
      mapInfo := s.mapInfo.insert n { info with nRefCount := c }
      vvNew := setSlot s.vvNew b i n } := by
  subst hc
  have hp := hI.places_of_find hn
  have htried := triedNum_insert_same { info with nRefCount := info.nRefCount + 1 } hn rfl
  refine ⟨hI.random.insert_same hn rfl, ?_, ?_, ?_, hI.nKey_ne, ?_, ?_, ?_, ?_⟩
  · rw [places_insert]
    exact hI.addr.update hp rfl
  · rw [places_insert]
    exact hI.tried_update_new hp hnew fun q hq => by cases hq; exact hnew
  · rw [places_insert]
    exact hI.new.fill hb hp hnew hlt hpos hI.addr.neg_one
  · rw [htried]
    exact hI.nTried_eq
  · rw [htried, size_insert_of_find _ hn]
    exact hI.nNew_eq
  · intro m q hq hqnew hmE
    rw [places_insert] at hq
    rcases update_eq_some.1 hq with ⟨rfl, rfl⟩ | ⟨hm, hq⟩
    · have := hI.new.refCount_eq m _ hp hnew
      simp only [place_nRefCount] at this ⊢
      omega
    · exact hI.refCount_pos m q hq hqnew fun h' => (List.mem_cons.1 (hE h')).elim hm hmE
  · exact hI.times.insert (hI.times.of_find? hn : TimesOk info)

/-- **Emptying a tried slot**: its entry becomes a new one, with no reference yet, and
`nTried` goes down with it. -/
theorem InvAt.clearTriedSlot (hI : InvAt h dT dN E s) {b : TriedBucket} {i : BucketPos}
    (hn : s.mapInfo.find? (s.vvTried b i) = some info) :
    InvAt h dT (dN - 1) (s.vvTried b i :: E) { s with
      mapInfo := s.mapInfo.insert (s.vvTried b i) { info with fInTried := false }
      vvTried := setSlot s.vvTried b i (-1)
      nTried := s.nTried - 1 } := by
  have hp := hI.places_of_find hn
  have hn1 := hI.addr.ne_neg_one hp
  obtain ⟨q, hq, hqt, -⟩ := hI.tried.tried_slot b i hn1
  rw [hp, Option.some.injEq] at hq
  subst hq
  have htr : info.fInTried = true := hqt
  have hr0 : info.nRefCount = 0 := (hI.tried.slot_of_tried _ _ hp htr).2
  have htried := triedNum_insert_of_find { info with fInTried := false } hn
  have hflag : triedFlag info = 1 := by simp [triedFlag, htr]
  have hflag' : triedFlag { info with fInTried := false } = 0 := rfl
  refine ⟨hI.random.insert_same hn rfl, ?_, ?_, ?_, hI.nKey_ne, ?_, ?_, ?_, ?_⟩
  · rw [places_insert]
    exact hI.addr.update hp rfl
  · rw [places_insert]
    exact hI.tried.clear rfl hp hn1
  · rw [places_insert]
    refine hI.new.update_off (hI.new.ne_of_not_new hn1 fun q hq => ?_) fun q hq => ?_
    · rw [hp, Option.some.injEq] at hq
      exact hq ▸ htr
    · cases hq
      exact ⟨fun _ => hr0, by simp only [place_nRefCount, hr0]; decide⟩
  · have := hI.nTried_eq
    dsimp only
    omega
  · have := hI.nNew_eq
    dsimp only
    rw [size_insert_of_find _ hn]
    omega
  · intro m q hq hqnew hmE
    rw [places_insert] at hq
    rcases update_eq_some.1 hq with ⟨rfl, -⟩ | ⟨-, hq⟩
    · exact absurd (List.mem_cons_self ..) hmE
    · exact hI.refCount_pos m q hq hqnew fun h' => hmE (List.mem_cons_of_mem _ h')
  · have ht := hI.times.of_find? hn
    exact hI.times.insert ⟨ht.1, ht.2.1, fun hf => by cases hf⟩

/-- **Filling an empty tried slot** with a new entry without references, whose slot it is,
and which has had a success: the entry becomes a tried one, and `nTried` goes up with it. -/
theorem InvAt.fillTriedSlot (hI : InvAt h dT dN E s) {b : TriedBucket} {i : BucketPos}
    (hb : s.vvTried b i = -1) (hn : s.mapInfo.find? n = some info) (hnew : info.fInTried = false)
    (hr : info.nRefCount = 0) (hslot : triedSlotOf h s.nKey info.service = (b, i))
    (hsucc : info.nLastSuccess ≠ 0) {E' : List ℤ} (hE : E ⊆ n :: E') :
    InvAt h dT (dN + 1) E' { s with
      mapInfo := s.mapInfo.insert n { info with fInTried := true }
      vvTried := setSlot s.vvTried b i n
      nTried := s.nTried + 1 } := by
  have hp := hI.places_of_find hn
  have hn1 := hI.addr.ne_neg_one hp
  have hslots : slotCount s.vvNew n = 0 := by
    have := hI.new.refCount_eq n _ hp hnew
    dsimp only [place] at this
    omega
  have htried := triedNum_insert_of_find { info with fInTried := true } hn
  have hflag : triedFlag info = 0 := by simp [triedFlag, hnew]
  have hflag' : triedFlag { info with fInTried := true } = 1 := rfl
  refine ⟨hI.random.insert_same hn rfl, ?_, ?_, ?_, hI.nKey_ne, ?_, ?_, ?_, ?_⟩
  · rw [places_insert]
    exact hI.addr.update hp rfl
  · rw [places_insert]
    exact hI.tried.fill hb hp hnew hr hslot hI.addr.neg_one
  · rw [places_insert]
    refine hI.new.update_off ((slotCount_eq_zero s.vvNew n).1 hslots) fun q hq => ?_
    cases hq
    exact ⟨(fun hf => by cases hf), by simp only [place_nRefCount, hr]; decide⟩
  · have := hI.nTried_eq
    dsimp only
    omega
  · have := hI.nNew_eq
    dsimp only
    rw [size_insert_of_find _ hn]
    omega
  · intro m q hq hqnew hmE
    rw [places_insert] at hq
    rcases update_eq_some.1 hq with ⟨rfl, rfl⟩ | ⟨hm, hq⟩
    · cases hqnew
    · exact hI.refCount_pos m q hq hqnew fun h' => (List.mem_cons.1 (hE h')).elim hm hmE
  · have ht := hI.times.of_find? hn
    exact hI.times.insert ⟨ht.1, ht.2.1, fun _ => hsucc⟩

variable [DecidableEq α]

/-- **Erasing the last entry** of `vRandom`, a new one without references, with its address;
`nNew` goes down with it. -/
theorem InvAt.erase (hI : InvAt h dT dN E s) {p : Place α} (hlast : s.vRandom.getLast? = some n)
    (hp : places s.mapInfo n = some p) (hnew : p.fInTried = false) (hr : p.nRefCount = 0) :
    InvAt h dT dN E { s with
      vRandom := s.vRandom.dropLast
      mapAddr := Function.update s.mapAddr p.service.ip none
      mapInfo := s.mapInfo.erase n
      nNew := s.nNew - 1 } := by
  obtain ⟨info, hn, rfl⟩ : ∃ info, s.mapInfo.find? n = some info ∧ place info = p := by
    simpa [places] using hp
  have hslots : slotCount s.vvNew n = 0 := by
    have := hI.new.refCount_eq n _ hp hnew
    simp only [place_nRefCount] at this hr
    omega
  have htried := triedNum_erase_of_find hn
  have hflag : triedFlag info = 0 := by simp_all [triedFlag]
  have hsize := size_erase_of_find hn
  refine ⟨hI.random.dropLast hlast hn, ?_, ?_, ?_, hI.nKey_ne, ?_, ?_, ?_, hI.times.erase n⟩
  · rw [places_erase]
    exact hI.addr.erase hp
  · rw [places_erase]
    exact hI.tried_update_new hp hnew fun q hq => by cases hq
  · rw [places_erase]
    exact hI.new.update_off ((slotCount_eq_zero _ _).1 hslots) fun q hq => by cases hq
  · have := hI.nTried_eq
    dsimp only
    omega
  · have := hI.nNew_eq
    dsimp only
    omega
  · intro m q hq hqnew hmE
    rw [places_erase] at hq
    have hm : m ≠ n := fun he => by rw [he, Function.update_self] at hq; cases hq
    rw [Function.update_of_ne hm] at hq
    exact hI.refCount_pos m q hq hqnew hmE

/-- **A new entry** without references at the next id and at the end of `vRandom`, for an
address with no id yet: the entry has no slot, and `nNew` is one behind. -/
theorem InvAt.insert_fresh (hI : InvAt h dT dN E s) {x : CAddrInfo α}
    (hfree : s.mapAddr x.service.ip = none) (hpos : x.nRandomPos = s.vRandom.length)
    (hnew : x.fInTried = false) (hr : x.nRefCount = 0) (ht : TimesOk x) :
    InvAt h dT (dN - 1) (s.nIdCount :: E) { s with
      nIdCount := s.nIdCount + 1
      mapInfo := s.mapInfo.insert s.nIdCount x
      mapAddr := Function.update s.mapAddr x.service.ip (some s.nIdCount)
      vRandom := s.vRandom ++ [s.nIdCount] } := by
  have hfresh : places s.mapInfo s.nIdCount = none := hI.addr.fresh
  have hn : s.mapInfo.find? s.nIdCount = none := by simpa [places] using hfresh
  have hn1 : s.nIdCount ≠ -1 := by
    have := hI.addr.nIdCount_nonneg
    omega
  have htried := triedNum_insert_of_none x hn
  have hflag : triedFlag x = 0 := by simp [triedFlag, hnew]
  have hsize := SortedMap.size_insert_add s.mapInfo s.nIdCount x
  rw [hn, SortedMap.share_none, Nat.add_zero] at hsize
  refine ⟨hI.random.append hn hpos, ?_, ?_, ?_, hI.nKey_ne, ?_, ?_, ?_, hI.times.insert ht⟩
  · rw [places_insert]
    exact hI.addr.create hfree
  · rw [places_insert]
    exact hI.tried.update_off
      (hI.tried.ne_of_not_tried hn1 fun q hq => by rw [hfresh] at hq; cases hq)
      fun q hq => by cases hq; exact hnew
  · rw [places_insert]
    exact hI.new.update_off
      (hI.new.ne_of_not_new hn1 fun q hq => by rw [hfresh] at hq; cases hq)
      fun q hq => by cases hq; exact ⟨fun _ => hr, by simp only [place_nRefCount, hr]; decide⟩
  · have := hI.nTried_eq
    dsimp only
    omega
  · have := hI.nNew_eq
    dsimp only
    omega
  · intro m q hq hqnew hmE
    rw [places_insert] at hq
    rcases update_eq_some.1 hq with ⟨rfl, -⟩ | ⟨-, hq⟩
    · exact absurd (List.mem_cons_self ..) hmE
    · exact hI.refCount_pos m q hq hqnew fun h' => hmE (List.mem_cons_of_mem _ h')

/-- **`Create`** adds a new entry without references, for an address with no id yet. -/
theorem InvAt.Create (hI : InvAt h dT dN E s) {addr : CAddress α} {source : α}
    (hfree : s.mapAddr addr.service.ip = none) :
    InvAt h dT (dN - 1) (s.nIdCount :: E) (s.Create addr source).1 :=
  hI.insert_fresh hfree rfl rfl rfl ⟨le_rfl, le_rfl, fun hf => by cases hf⟩

end Changes

end CAddrMan

end MvfBu
