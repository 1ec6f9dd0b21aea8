import Mathlib.Data.List.FinRange
import Mathlib.Data.List.Perm.Basic

set_option autoImplicit false

/-!
# Two-dimensional tables of slots

A fixed-size C array `int t[m][n]` is a function `Fin m → Fin n → γ`. Writing one slot is
`setSlot`, and the slots read in the order of the two nested `for` loops that scan the table
are `slots m n`. Counting how often a value occurs in the table is `slotCount`; writing one
slot changes the counts of its old and new values by one.

## Main definitions

* `SlotTable.setSlot`, `SlotTable.slots`, `SlotTable.slotValues`, `SlotTable.slotCount`.

## Main results

* `List.count_map_update` — over a list without duplicates, updating a function at one point
  moves one occurrence from the old value to the new.
* `SlotTable.slotCount_setSlot` — the same for a table.
* `SlotTable.slotCount_eq_zero` — a value counted nowhere is in no slot.
-/

/-- **Counting after one update.** Over a list without duplicates that holds `k`, the
values of `Function.update f k v` have the occurrences of those of `f`, with the one at `k`
moved from `f k` to `v`. -/
theorem List.count_map_update {κ γ : Type} [DecidableEq κ] [DecidableEq γ] {L : List κ}
    (hL : L.Nodup) {k : κ} (hk : k ∈ L) (f : κ → γ) (v x : γ) :
    (L.map (Function.update f k v)).count x + (if f k = x then 1 else 0) =
      (L.map f).count x + (if v = x then 1 else 0) := by
  induction L with
  | nil => cases hk
  | cons a L ih =>
    rw [List.nodup_cons] at hL
    by_cases hak : a = k
    · subst hak
      -- the rest of the list does not hold `a`: the two maps agree there
      have hrest : L.map (Function.update f a v) = L.map f :=
        List.map_congr_left fun y hy => Function.update_of_ne (fun (h : y = a) => hL.1 (h ▸ hy)) v f
      simp only [List.map_cons, Function.update_self, hrest, List.count_cons, beq_iff_eq]
      split_ifs <;> omega
    · have hk' : k ∈ L := (List.mem_cons.1 hk).resolve_left (Ne.symm hak)
      simp only [List.map_cons, List.count_cons, Function.update_of_ne hak, beq_iff_eq]
      have := ih hL.2 hk'
      omega

namespace SlotTable

variable {m n : ℕ} {γ : Type}

/-- `t[b][i] = v`. -/
def setSlot (t : Fin m → Fin n → γ) (b : Fin m) (i : Fin n) (v : γ) : Fin m → Fin n → γ :=
  Function.update t b (Function.update (t b) i v)

/-- The slots in the order `for (b = 0; b < m; b++) for (i = 0; i < n; i++)`. -/
def slots (m n : ℕ) : List (Fin m × Fin n) :=
  (List.finRange m).flatMap fun b => (List.finRange n).map fun i => (b, i)

/-- The values of the slots, in scanning order. -/
def slotValues (t : Fin m → Fin n → γ) : List γ := (slots m n).map fun p => t p.1 p.2

/-- How many slots hold `x`. -/
def slotCount [DecidableEq γ] (t : Fin m → Fin n → γ) (x : γ) : ℕ := (slotValues t).count x

theorem setSlot_apply (t : Fin m → Fin n → γ) (b : Fin m) (i : Fin n) (v : γ) (b' : Fin m)
    (i' : Fin n) : setSlot t b i v b' i' = if b' = b ∧ i' = i then v else t b' i' := by
  unfold setSlot
  by_cases hb : b' = b
  · subst hb
    by_cases hi : i' = i
    · subst hi
      simp
    · simp [hi]
  · simp [hb]

@[simp] theorem setSlot_self (t : Fin m → Fin n → γ) (b : Fin m) (i : Fin n) (v : γ) :
    setSlot t b i v b i = v := by
  simp [setSlot_apply]

theorem mem_slots (p : Fin m × Fin n) : p ∈ slots m n := by
  simp [slots]

theorem length_slots : (slots m n).length = m * n := by
  simp [slots, List.length_flatMap]

theorem nodup_slots : (slots m n).Nodup := by
  unfold slots
  rw [List.nodup_flatMap]
  refine ⟨fun b _ => (List.nodup_finRange n).map fun i j h => ?_, ?_⟩
  · simpa using h
  · refine (List.nodup_finRange m).pairwise_of_forall_ne fun b _ b' _ hne => ?_
    simp only [Function.onFun, List.disjoint_left, List.mem_map]
    rintro _ ⟨i, -, rfl⟩ ⟨i', -, h⟩
    exact hne (congrArg Prod.fst h).symm

/-- The table as a function of the slot. -/
theorem setSlot_uncurry [DecidableEq γ] (t : Fin m → Fin n → γ) (b : Fin m) (i : Fin n)
    (v : γ) : (fun p : Fin m × Fin n => setSlot t b i v p.1 p.2) =
      Function.update (fun p : Fin m × Fin n => t p.1 p.2) (b, i) v := by
  funext p
  rw [setSlot_apply, Function.update_apply]
  simp [Prod.ext_iff]

/-- No slot holds `x` exactly when `x` is counted nowhere. -/
theorem slotCount_eq_zero [DecidableEq γ] (t : Fin m → Fin n → γ) (x : γ) :
    slotCount t x = 0 ↔ ∀ b i, t b i ≠ x := by
  unfold slotCount slotValues
  rw [List.count_eq_zero]
  simp [mem_slots]

/-- **Writing one slot** moves one occurrence from its old value to the new. -/
theorem slotCount_setSlot [DecidableEq γ] (t : Fin m → Fin n → γ) (b : Fin m) (i : Fin n)
    (v x : γ) : slotCount (setSlot t b i v) x + (if t b i = x then 1 else 0) =
      slotCount t x + (if v = x then 1 else 0) := by
  unfold slotCount slotValues
  rw [setSlot_uncurry]
  exact List.count_map_update nodup_slots (mem_slots (b, i)) (fun p => t p.1 p.2) v x

end SlotTable
