import MvfBu.Node.AddrManSteps

set_option autoImplicit false

/-!
# Runs of the address manager

Every operation of `CAddrMan` goes on from a state where the invariant holds to a state where
it holds again, when the clock it reads is right: `Good_` is given a positive time and
`Attempt_` one that is not negative, as `GetAdjustedTime()` gives. So every run from an empty
manager goes on, and keeps the invariant.

## Main results

* `CAddrMan.Inv.init` — the empty manager, for a key that is not zero.
* `CAddrMan.Inv.Add_`, `Inv.Good_`, `Inv.Attempt_`, `Inv.GetAddr_`, `Inv.Connected_` — the
  operations.
* `CAddrMan.Inv.step`, `CAddrMan.Inv.foldlM_step`, `CAddrMan.Inv.run` — one operation, a
  sequence of them from a state where the invariant holds, and a run from an empty manager.
-/

namespace MvfBu

namespace CAddrMan

open SlotTable

variable {α : Type} {h : AddrHashes α} {dT dN : ℤ} {E : List ℤ} {s : CAddrMan α}

/-! ### The empty manager -/

@[simp] theorem places_empty (m : ℤ) :
    places (SortedMap.empty : SortedMap ℤ (CAddrInfo α)) m = none := rfl

@[simp] theorem triedNum_empty : triedNum (SortedMap.empty : SortedMap ℤ (CAddrInfo α)) = 0 :=
  rfl

/-- **The empty manager** keeps the invariant, for a key that is not zero. -/
theorem Inv.init {nKey : ℕ} (hkey : nKey ≠ 0) : Inv h (init nKey : CAddrMan α) where
  random := ⟨rfl, ⟨fun _ _ hz => (by cases hz), fun _ _ hi => (by simp [CAddrMan.init] at hi)⟩⟩
  addr := ⟨fun _ _ hp => (by cases hp), fun _ _ ha => (by cases ha), le_rfl,
    fun _ _ hp => (by cases hp)⟩
  tried := ⟨fun _ _ hb => absurd rfl hb, fun _ _ hp => (by cases hp)⟩
  new := ⟨fun _ _ hb => absurd rfl hb, fun _ _ hp => (by cases hp), fun _ _ hp => (by cases hp)⟩
  nKey_ne := hkey
  nTried_eq := rfl
  nNew_eq := rfl
  refCount_pos := fun _ _ hp => (by cases hp)
  times := SortedMap.all_empty _

/-! ### Looking an address up -/

/-- An id with a place has an entry with that place. -/
theorem places_eq_some {M : SortedMap ℤ (CAddrInfo α)} {m : ℤ} {p : Place α} :
    places M m = some p ↔ ∃ info, M.find? m = some info ∧ place info = p :=
  Option.map_eq_some_iff

/-- What `Find` returns is an entry of `mapInfo`. -/
theorem find?_of_Find {a : α} {nId : ℤ} {info : CAddrInfo α}
    (hf : s.Find a = some (nId, info)) : s.mapInfo.find? nId = some info := by
  unfold Find at hf
  split at hf
  · cases hf
  · obtain ⟨x, hx, hxe⟩ := Option.map_eq_some_iff.1 hf
    rw [Prod.mk.injEq] at hxe
    rw [← hxe.1, ← hxe.2]
    exact hx

/-- An address that `Find` does not know has no id. -/
theorem InvAt.mapAddr_of_Find (hI : InvAt h dT dN E s) {a : α} (hf : s.Find a = none) :
    s.mapAddr a = none := by
  cases hm : s.mapAddr a with
  | none => rfl
  | some m =>
    obtain ⟨p, hp, -⟩ := hI.addr.find_of_addr a m hm
    obtain ⟨info, hn, -⟩ := places_eq_some.1 hp
    simp [Find, hm, hn] at hf

/-- Writing statistics of an entry through `modifyInfo`. -/
theorem InvAt.modifyInfo_stats (hI : InvAt h dT dN E s) {n : ℤ} {info : CAddrInfo α}
    (hn : s.mapInfo.find? n = some info) {f : CAddrInfo α → CAddrInfo α}
    (hx : place (f info) = place info) (hpos : (f info).nRandomPos = info.nRandomPos)
    (ht : TimesOk (f info)) : InvAt h dT dN E (s.modifyInfo n f) := by
  rw [modifyInfo_of_find _ _ hn]
  exact hI.insert_stats hn hx hpos ht

/-- `nLastGood` is no part of the invariant. -/
theorem InvAt.set_nLastGood (hI : InvAt h dT dN E s) (t : ℤ) :
    InvAt h dT dN E { s with nLastGood := t } :=
  ⟨hI.random, hI.addr, hI.tried, hI.new, hI.nKey_ne, hI.nTried_eq, hI.nNew_eq, hI.refCount_pos,
    hI.times⟩

variable [DecidableEq α]

/-! ### The operations -/

/-- **`Attempt_`** writes the time of the attempt, and may count a failure: the invariant holds
again when the time is not negative. -/
theorem Inv.Attempt_ (hI : Inv h s) (addr : CService α) (fCountFailure : Bool) {nTime : ℤ}
    (ht : 0 ≤ nTime) : Inv h (s.Attempt_ addr fCountFailure nTime) := by
  unfold CAddrMan.Attempt_
  rcases hf : s.Find addr.ip with _ | ⟨nId, info⟩
  · exact hI
  have hn := find?_of_Find hf
  obtain ⟨-, hsucc, htried⟩ : TimesOk info := hI.times.of_find? hn
  dsimp only
  split_ifs
  · exact hI
  · exact InvAt.insert_stats hI hn rfl rfl ⟨ht, hsucc, htried⟩
  · exact InvAt.insert_stats hI hn rfl rfl ⟨ht, hsucc, htried⟩

/-- **`Connected_`** refreshes the time of an entry, which no check reads. -/
theorem Inv.Connected_ (hI : Inv h s) (addr : CService α) (nTime : ℤ) :
    Inv h (s.Connected_ addr nTime) := by
  unfold CAddrMan.Connected_
  rcases hf : s.Find addr.ip with _ | ⟨nId, info⟩
  · exact hI
  have hn := find?_of_Find hf
  dsimp only
  split_ifs
  · exact hI
  · exact InvAt.insert_stats hI hn rfl rfl (hI.times.of_find? hn : TimesOk info)
  · exact hI

/-- **`Good_`** records a success, and moves a new entry that a new bucket holds to the tried
table: it goes on, and the invariant holds again when the time is positive. -/
theorem Inv.Good_ (hI : Inv h s) (addr : CService α) {nTime : ℤ} (ht : 0 < nTime)
    (nRnd : ℕ) : ∃ s', s.Good_ h addr nTime nRnd = some s' ∧ Inv h s' := by
  unfold CAddrMan.Good_
  have hI1 : Inv h { s with nLastGood := nTime } := InvAt.set_nLastGood hI nTime
  generalize { s with nLastGood := nTime } = s1 at hI1 ⊢
  dsimp only
  rcases hf : s1.Find addr.ip with _ | ⟨nId, info⟩
  · exact ⟨s1, rfl, hI1⟩
  have hn := find?_of_Find hf
  have hI2 : Inv h { s1 with mapInfo := (s1.mapInfo.insert nId
      { info with nLastSuccess := nTime, nLastTry := nTime, nAttempts := 0 }) } :=
    InvAt.insert_stats hI1 hn rfl rfl ⟨ht.le, ht.le, fun _ => ht.ne'⟩
  dsimp only
  split_ifs with haddr htried hfound
  · exact ⟨s1, rfl, hI1⟩
  · exact ⟨_, rfl, hI2⟩
  · -- a new bucket holds the entry: it moves to the tried table
    exact InvAt.MakeTried hI2 (SortedMap.find?_insert_self ..) (by simpa using htried) ht.ne'
  · exact ⟨_, rfl, hI2⟩

/-- **`Add_`** adds an address, or refreshes the entry of one it knows and may give it one more
new bucket: it goes on, and the invariant holds again. -/
theorem Inv.Add_ (hI : Inv h s) (addr : CAddress α) (source : α)
    (nTimePenalty nAdjustedTime : ℤ) (nRnd : ℕ) :
    ∃ r, s.Add_ h addr source nTimePenalty nAdjustedTime nRnd = some r ∧ Inv h r.1 := by
  unfold CAddrMan.Add_
  split_ifs with hroutable
  · exact ⟨_, rfl, hI⟩
  rcases hf : s.Find addr.service.ip with _ | ⟨nId, pinfo⟩
  · -- an address it does not know: a new entry, its time less the penalty, then a new bucket
    have hC : InvAt h 0 (0 - 1) [s.nIdCount] (s.Create addr source).1 :=
      InvAt.Create hI (InvAt.mapAddr_of_Find hI hf)
    have hnC : (s.Create addr source).1.mapInfo.find? s.nIdCount =
        some { CAddrInfo.new addr source with nRandomPos := s.vRandom.length } :=
      SortedMap.find?_insert_self ..
    have hM := hC.modifyInfo_stats hnC
      (f := fun info => { info with nTime := max 0 (info.nTime - nTimePenalty) }) rfl rfl
      ⟨le_rfl, le_rfl, fun hf => by cases hf⟩
    have hN := hM.nNew_add 1 rfl
    rw [Int.sub_add_cancel] at hN
    have hnM : ((s.Create addr source).1.modifyInfo s.nIdCount
        fun info => { info with nTime := max 0 (info.nTime - nTimePenalty) }).mapInfo.find?
          s.nIdCount = some { CAddrInfo.new addr source with
            nRandomPos := s.vRandom.length, nTime := max 0 (addr.nTime - nTimePenalty) } := by
      rw [modifyInfo_of_find _ _ hnC]
      exact SortedMap.find?_insert_self ..
    obtain ⟨s', hs', hI'⟩ := InvAt.addToNew hN hnM rfl
      (show (0 : ℤ) < ADDRMAN_NEW_BUCKETS_PER_ADDRESS by decide) source nAdjustedTime
    exact ⟨_, congrArg (Option.map fun s => (s, true)) hs', hI'⟩
  · -- an address it knows: its time may be refreshed, which keeps its place
    have hn := find?_of_Find hf
    dsimp only
    -- the entry refreshed as `Add_` does it
    generalize hx : (if addr.nTime ≠ 0 ∧ (pinfo.nTime = 0 ∨ pinfo.nTime < addr.nTime -
        (if decide (nAdjustedTime - addr.nTime < 24 * 60 * 60) = true then 60 * 60
          else 24 * 60 * 60) - nTimePenalty) then
        { pinfo with nTime := max 0 (addr.nTime - nTimePenalty) } else pinfo) = x
    have hxs : place x = place pinfo ∧ x.nRandomPos = pinfo.nRandomPos ∧ TimesOk x := by
      have htimes : TimesOk pinfo := hI.times.of_find? hn
      rw [← hx]
      split_ifs <;> exact ⟨rfl, rfl, htimes⟩
    have hI2 := InvAt.insert_stats hI hn hxs.1 hxs.2.1 hxs.2.2
    split_ifs with hcur htried hmax hrnd
    · exact ⟨_, rfl, hI2⟩
    · exact ⟨_, rfl, hI2⟩
    · exact ⟨_, rfl, hI2⟩
    · exact ⟨_, rfl, hI2⟩
    · -- the stochastic test passed: one more new bucket, up to eight
      have hle := hI2.new.refCount_le nId _ (hI2.places_of_find (SortedMap.find?_insert_self ..))
      obtain ⟨s', hs', hI'⟩ := InvAt.addToNew (InvAt.mono hI2 (List.nil_subset _))
        (SortedMap.find?_insert_self ..) (by simpa using htried) (lt_of_le_of_ne hle hmax) source
        nAdjustedTime
      exact ⟨_, congrArg (Option.map fun s => (s, false)) hs', hI'⟩

omit [DecidableEq α] in
/-- **The loop of `GetAddr_`** from place `n`, with `k` places left: it goes on, and keeps the
invariant.

**Proof sketch.** Induction on the places left: each turn exchanges place `n` with one at or
after it (`InvAt.SwapRandom`), and the id then at place `n` has an entry
(`RandomInv.find_of_get`). -/
theorem Inv.getAddrLoop (nNodes : ℕ) (nNow : ℤ) (rnd : ℕ → ℕ) :
    ∀ (k n : ℕ) {s : CAddrMan α} (vAddr : List (CAddress α)), Inv h s →
      n + k = s.vRandom.length →
      ∃ r, getAddrLoop nNodes nNow rnd k n s vAddr = some r ∧ Inv h r.1
  | 0, _, s, vAddr, hI, _ => ⟨(s, vAddr), rfl, hI⟩
  | k + 1, n, s, vAddr, hI, hlen => by
    rw [CAddrMan.getAddrLoop]
    split_ifs with hfull
    · exact ⟨(s, vAddr), rfl, hI⟩
    -- the place drawn is at or after `n`, and in `vRandom`
    have hn : n < s.vRandom.length := by omega
    have hpos : rnd n % (s.vRandom.length - n) + n < s.vRandom.length := by
      have := Nat.mod_lt (rnd n) (Nat.sub_pos_of_lt hn)
      omega
    obtain ⟨v, M, hswap, hI1, -, hlenv, -⟩ := InvAt.SwapRandom hI hn hpos
    have hnv : n < v.length := by omega
    obtain ⟨ai, hai, -⟩ := hI1.random.find_of_get (List.getElem?_eq_getElem hnv)
    dsimp only at hai ⊢
    rw [hswap, Option.bind_some]
    dsimp only
    rw [List.getElem?_eq_getElem hnv, Option.bind_some, hai]
    exact Inv.getAddrLoop nNodes nNow rnd k (n + 1) _ hI1 (by dsimp only; omega)

omit [DecidableEq α] in
/-- **`GetAddr_`** shuffles `vRandom` as it collects addresses: it goes on, and the invariant
holds again. -/
theorem Inv.GetAddr_ (hI : Inv h s) (nNow : ℤ) (rnd : ℕ → ℕ) :
    ∃ r, s.GetAddr_ nNow rnd = some r ∧ Inv h r.1 :=
  Inv.getAddrLoop _ nNow rnd _ 0 [] hI (Nat.zero_add _)

/-! ### Runs -/

/-- Whether an operation reads the time as the clock gives it, where a check reads what it
writes: positive for `Good_`, not negative for `Attempt_`. -/
def Op.clockOk : Op α → Bool
  | .Good_ _ nTime _ => decide (0 < nTime)
  | .Attempt_ _ _ nTime => decide (0 ≤ nTime)
  | _ => true

/-- **One operation** goes on, and the invariant holds again. -/
theorem Inv.step (hI : Inv h s) {op : Op α} (hop : op.clockOk = true) :
    ∃ s', s.step h op = some s' ∧ Inv h s' := by
  cases op with
  | Add_ addr source nTimePenalty nAdjustedTime nRnd =>
    obtain ⟨r, hr, hI'⟩ := hI.Add_ addr source nTimePenalty nAdjustedTime nRnd
    exact ⟨r.1, by rw [CAddrMan.step, hr, Option.map_some], hI'⟩
  | Good_ addr nTime nRnd => exact hI.Good_ addr (by simpa [Op.clockOk] using hop) nRnd
  | Attempt_ addr fCountFailure nTime =>
    exact ⟨_, rfl, hI.Attempt_ addr fCountFailure (by simpa [Op.clockOk] using hop)⟩
  | Select_ _ => exact ⟨s, rfl, hI⟩
  | GetAddr_ nNow rnd =>
    obtain ⟨r, hr, hI'⟩ := hI.GetAddr_ nNow rnd
    exact ⟨r.1, by rw [CAddrMan.step, hr, Option.map_some], hI'⟩
  | Connected_ addr nTime => exact ⟨_, rfl, hI.Connected_ addr nTime⟩

/-- **A sequence of operations** from a state where the invariant holds goes on, and keeps it,
when every operation reads the time as the clock gives it.

**Proof sketch.** Induction on the operations, one step at a time (`Inv.step`). -/
theorem Inv.foldlM_step : ∀ (ops : List (Op α)) {s : CAddrMan α}, Inv h s →
    (∀ op ∈ ops, op.clockOk = true) → ∃ s', ops.foldlM (CAddrMan.step h) s = some s' ∧ Inv h s'
  | [], s, hI, _ => ⟨s, rfl, hI⟩
  | op :: ops, _, hI, hops => by
    obtain ⟨s1, hs1, hI1⟩ := hI.step (hops op (List.mem_cons_self ..))
    obtain ⟨s', hs', hI'⟩ :=
      Inv.foldlM_step ops hI1 fun o ho => hops o (List.mem_cons_of_mem _ ho)
    refine ⟨s', ?_, hI'⟩
    rw [List.foldlM_cons, hs1]
    exact hs'

/-- **Every run from an empty manager** goes on, and keeps the invariant, for a key that is not
zero and operations that read the time as the clock gives it. -/
theorem Inv.run {nKey : ℕ} (hkey : nKey ≠ 0) (ops : List (Op α))
    (hops : ∀ op ∈ ops, op.clockOk = true) : ∃ s, CAddrMan.run h nKey ops = some s ∧ Inv h s :=
  Inv.foldlM_step ops (Inv.init hkey) hops

end CAddrMan

end MvfBu
