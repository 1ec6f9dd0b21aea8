import Mathlib

set_option autoImplicit false

/-!
# Ordered maps as sorted association lists

An ordered map keeps its entries in increasing order of key, with no key twice, and is
walked in that order by iterators; `std::map` is one. Here it is a list of key-value pairs
whose sortedness is a field of the structure, so that no map with a key twice can be built.
Lookup and erasure act on the first entry of a key; insertion puts a new key in its place in
the order and replaces the value of a key already there.

The sums of a function of the values are the counters that software keeps beside its maps:
each key's share of a sum is its value's, which `insert` replaces and `erase` removes.

## Main definitions

* `SortedMap` — entries with strictly increasing keys.
* `SortedMap.find?`, `SortedMap.insert`, `SortedMap.erase` — `find`, `operator[]` assignment,
  `erase`.
* `SortedMap.keysFrom`, `SortedMap.nextKey` — the keys an iterator walks, and `++it`.
* `SortedMap.sumBy`, `SortedMap.All` — a sum over the values, and a property of every value.

## Main results

* `SortedMap.find?_insert_self`, `SortedMap.find?_insert_of_ne`, `SortedMap.find?_erase_self`,
  `SortedMap.find?_erase_of_ne` — what a lookup sees after an update.
* `SortedMap.sumBy_eq_erase_add`, `SortedMap.sumBy_insert`, `SortedMap.sumBy_set` — a key's
  share of a sum.
* `SortedMap.All.insert`, `SortedMap.All.erase`, `SortedMap.All.set` — a property of every
  value is kept by updates that keep it.
* `SortedMap.find?_foldl_set` — a fold that sets keys from their own values by an idempotent
  function sets each key of the list once.
-/

/-- **Ordered maps.** The entries of a map in increasing order of key, as `std::map` keeps
them; the order makes the keys distinct. -/
structure SortedMap (κ : Type) [LinearOrder κ] (β : Type) where
  entries : List (κ × β)
  sorted : entries.Pairwise fun a b => a.1 < b.1

namespace SortedMap

variable {κ β : Type} [LinearOrder κ]

/-! ### The operations on the entry lists -/

section Entries

/-- The value of the first entry of key `k`. -/
def findEntry (k : κ) : List (κ × β) → Option β
  | [] => none
  | e :: l => if e.1 = k then some e.2 else findEntry k l

/-- Insertion in key order, replacing the entry of the key if there is one. -/
def insertEntry (k : κ) (v : β) : List (κ × β) → List (κ × β)
  | [] => [(k, v)]
  | e :: l =>
    if k < e.1 then (k, v) :: e :: l
    else if k = e.1 then (k, v) :: l
    else e :: insertEntry k v l

/-- Removal of the first entry of key `k`. -/
def eraseEntry (k : κ) : List (κ × β) → List (κ × β)
  | [] => []
  | e :: l => if e.1 = k then l else e :: eraseEntry k l

theorem mem_insertEntry {k : κ} {v : β} {e : κ × β} :
    ∀ {l : List (κ × β)}, e ∈ insertEntry k v l → e = (k, v) ∨ e ∈ l
  | [], h => by simpa [insertEntry] using h
  | e' :: l, h => by
    rw [insertEntry] at h
    split_ifs at h with hlt heq
    · simpa using h
    · rcases List.mem_cons.1 h with rfl | hl
      · exact .inl rfl
      · exact .inr (List.mem_cons_of_mem _ hl)
    · rcases List.mem_cons.1 h with rfl | hl
      · exact .inr List.mem_cons_self
      · rcases mem_insertEntry hl with h | h
        · exact .inl h
        · exact .inr (List.mem_cons_of_mem _ h)

theorem sorted_insertEntry (k : κ) (v : β) : ∀ {l : List (κ × β)},
    l.Pairwise (fun a b => a.1 < b.1) → (insertEntry k v l).Pairwise fun a b => a.1 < b.1
  | [], _ => List.pairwise_singleton _ _
  | e :: l, hl => by
    rw [insertEntry]
    have hhead : ∀ a ∈ l, e.1 < a.1 := fun a ha => List.rel_of_pairwise_cons hl ha
    split_ifs with hlt heq
    · refine hl.cons fun a ha => ?_
      rcases List.mem_cons.1 ha with rfl | ha
      · exact hlt
      · exact hlt.trans (hhead a ha)
    · exact hl.of_cons.cons fun a ha => heq ▸ hhead a ha
    · -- the new key lies past the head
      have hgt : e.1 < k := lt_of_le_of_ne (not_lt.1 hlt) (Ne.symm heq)
      refine (sorted_insertEntry k v hl.of_cons).cons fun a ha => ?_
      rcases mem_insertEntry ha with rfl | ha
      · exact hgt
      · exact hhead a ha

theorem eraseEntry_sublist (k : κ) : ∀ l : List (κ × β), (eraseEntry k l).Sublist l
  | [] => List.Sublist.slnil
  | e :: l => by
    rw [eraseEntry]
    split_ifs
    · exact List.sublist_cons_self e l
    · exact (eraseEntry_sublist k l).cons_cons e

theorem findEntry_eq_none_of_forall_lt {k : κ} :
    ∀ {l : List (κ × β)}, (∀ a ∈ l, k < a.1) → findEntry k l = none
  | [], _ => rfl
  | e :: l, h => by
    rw [findEntry, if_neg (ne_of_gt (h e List.mem_cons_self)),
      findEntry_eq_none_of_forall_lt fun a ha => h a (List.mem_cons_of_mem e ha)]

theorem eraseEntry_of_findEntry_eq_none {k : κ} :
    ∀ {l : List (κ × β)}, findEntry k l = none → eraseEntry k l = l
  | [], _ => rfl
  | e :: l, h => by
    rw [findEntry] at h
    split_ifs at h with he
    rw [eraseEntry, if_neg he, eraseEntry_of_findEntry_eq_none h]

theorem findEntry_insertEntry_self (k : κ) (v : β) :
    ∀ l : List (κ × β), findEntry k (insertEntry k v l) = some v
  | [] => by simp [insertEntry, findEntry]
  | e :: l => by
    rw [insertEntry]
    split_ifs with hlt heq
    · simp [findEntry]
    · simp [findEntry]
    · rw [findEntry, if_neg (Ne.symm heq), findEntry_insertEntry_self k v l]

theorem findEntry_insertEntry_of_ne {k k' : κ} (v : β) (h : k ≠ k') :
    ∀ l : List (κ × β), findEntry k' (insertEntry k v l) = findEntry k' l
  | [] => by simp [insertEntry, findEntry, h]
  | e :: l => by
    rw [insertEntry]
    split_ifs with hlt heq
    · simp [findEntry, h]
    · subst heq
      simp [findEntry, h]
    · rw [findEntry, findEntry, findEntry_insertEntry_of_ne v h l]

theorem findEntry_eraseEntry_of_ne {k k' : κ} (h : k ≠ k') :
    ∀ l : List (κ × β), findEntry k' (eraseEntry k l) = findEntry k' l
  | [] => rfl
  | e :: l => by
    rw [eraseEntry]
    split_ifs with he
    · subst he
      rw [findEntry, if_neg h]
    · rw [findEntry, findEntry, findEntry_eraseEntry_of_ne h l]

theorem findEntry_eraseEntry_self (k : κ) : ∀ {l : List (κ × β)},
    l.Pairwise (fun a b => a.1 < b.1) → findEntry k (eraseEntry k l) = none
  | [], _ => rfl
  | e :: l, hl => by
    rw [eraseEntry]
    split_ifs with he
    · -- the keys after the first entry of `k` are past it
      exact findEntry_eq_none_of_forall_lt fun a ha => he ▸ List.rel_of_pairwise_cons hl ha
    · rw [findEntry, if_neg he, findEntry_eraseEntry_self k hl.of_cons]

theorem mem_of_findEntry_eq_some {k : κ} {v : β} :
    ∀ {l : List (κ × β)}, findEntry k l = some v → (k, v) ∈ l
  | [], h => by simp [findEntry] at h
  | e :: l, h => by
    rw [findEntry] at h
    split_ifs at h with he
    · cases h
      subst he
      exact List.mem_cons_self
    · exact List.mem_cons_of_mem e (mem_of_findEntry_eq_some h)

/-- In a list sorted by key, an entry is what its key finds. -/
theorem findEntry_of_mem {k : κ} {v : β} : ∀ {l : List (κ × β)},
    l.Pairwise (fun a b => a.1 < b.1) → (k, v) ∈ l → findEntry k l = some v
  | [], _, h => by cases h
  | e :: l, hl, h => by
    rw [findEntry]
    rcases List.mem_cons.1 h with rfl | h
    · simp
    · -- a later entry has a larger key than the first
      have hlt : e.1 < k := List.rel_of_pairwise_cons hl h
      rw [if_neg (ne_of_lt hlt)]
      exact findEntry_of_mem hl.of_cons h

variable (f : β → ℕ)

/-- The first entry of a key is its share of a list's sum. -/
theorem sum_eq_eraseEntry_add (k : κ) : ∀ l : List (κ × β),
    (l.map fun e => f e.2).sum =
      ((eraseEntry k l).map fun e => f e.2).sum + ((findEntry k l).map f).getD 0
  | [] => rfl
  | e :: l => by
    rw [eraseEntry, findEntry]
    split_ifs with he
    · simp [Nat.add_comm]
    · rw [List.map_cons, List.map_cons, List.sum_cons, List.sum_cons,
        sum_eq_eraseEntry_add k l]
      omega

theorem sum_insertEntry (k : κ) (v : β) : ∀ {l : List (κ × β)},
    l.Pairwise (fun a b => a.1 < b.1) →
      ((insertEntry k v l).map fun e => f e.2).sum = ((eraseEntry k l).map fun e => f e.2).sum + f v
  | [], _ => by simp [insertEntry, eraseEntry]
  | e :: l, hl => by
    rw [insertEntry]
    split_ifs with hlt heq
    · -- a new least key: nothing of `k` to erase
      have hnone : findEntry k (e :: l) = none :=
        findEntry_eq_none_of_forall_lt fun a ha => by
          rcases List.mem_cons.1 ha with rfl | ha
          · exact hlt
          · exact hlt.trans (List.rel_of_pairwise_cons hl ha)
      rw [eraseEntry_of_findEntry_eq_none hnone, List.map_cons, List.sum_cons, Nat.add_comm]
    · rw [eraseEntry, if_pos heq.symm, List.map_cons, List.sum_cons, Nat.add_comm]
    · rw [eraseEntry, if_neg (Ne.symm heq), List.map_cons, List.map_cons, List.sum_cons,
        List.sum_cons, sum_insertEntry k v hl.of_cons, Nat.add_assoc]

end Entries

/-! ### Maps -/

/-- The empty map. -/
def empty : SortedMap κ β := ⟨[], List.Pairwise.nil⟩

/-- `find(k)`: the value of key `k`, if there is one. -/
def find? (m : SortedMap κ β) (k : κ) : Option β := findEntry k m.entries

/-- `m[k] = v`: key `k` with value `v`, in its place in the order. -/
def insert (m : SortedMap κ β) (k : κ) (v : β) : SortedMap κ β :=
  ⟨insertEntry k v m.entries, sorted_insertEntry k v m.sorted⟩

/-- `erase(k)`: the map without key `k`. -/
def erase (m : SortedMap κ β) (k : κ) : SortedMap κ β :=
  ⟨eraseEntry k m.entries, m.sorted.sublist (eraseEntry_sublist k m.entries)⟩

/-- The keys in increasing order. -/
def keys (m : SortedMap κ β) : List κ := m.entries.map Prod.fst

/-- `size()`. -/
def size (m : SortedMap κ β) : ℕ := m.entries.length

/-- The keys a loop walks from the iterator at `it` to `end()`, where `none` is `end()` and
is first moved to `begin()`, as the loops of the source do. -/
def keysFrom (m : SortedMap κ β) : Option κ → List κ
  | none => m.keys
  | some k => m.keys.filter fun k' => k ≤ k'

/-- `++it` from key `k`: the next key, or `end()`. -/
def nextKey (m : SortedMap κ β) (k : κ) : Option κ := (m.keys.filter fun k' => k < k').head?

/-- The sum of `f` over the values. -/
def sumBy (f : β → ℕ) (m : SortedMap κ β) : ℕ := (m.entries.map fun e => f e.2).sum

/-- The map with key `k` set to `o`: `insert` for a value, `erase` for none. -/
def set (m : SortedMap κ β) (k : κ) : Option β → SortedMap κ β
  | none => m.erase k
  | some v => m.insert k v

/-- The share of `f` of an optional value: its value's, or nothing. -/
def share (f : β → ℕ) (o : Option β) : ℕ := (o.map f).getD 0

/-- Every value satisfies `P`. -/
def All (P : β → Prop) (m : SortedMap κ β) : Prop := ∀ e ∈ m.entries, P e.2

variable {m : SortedMap κ β} {k k' : κ} {v : β}

@[simp] theorem find?_empty (k : κ) : (empty : SortedMap κ β).find? k = none := rfl

@[simp] theorem find?_insert_self (m : SortedMap κ β) (k : κ) (v : β) :
    (m.insert k v).find? k = some v :=
  findEntry_insertEntry_self k v m.entries

theorem find?_insert_of_ne (m : SortedMap κ β) (v : β) (h : k ≠ k') :
    (m.insert k v).find? k' = m.find? k' :=
  findEntry_insertEntry_of_ne v h m.entries

@[simp] theorem find?_erase_self (m : SortedMap κ β) (k : κ) : (m.erase k).find? k = none :=
  findEntry_eraseEntry_self k m.sorted

theorem find?_erase_of_ne (m : SortedMap κ β) (h : k ≠ k') : (m.erase k).find? k' = m.find? k' :=
  findEntry_eraseEntry_of_ne h m.entries

@[simp] theorem set_none (m : SortedMap κ β) (k : κ) : m.set k none = m.erase k := rfl

@[simp] theorem set_some (m : SortedMap κ β) (k : κ) (v : β) : m.set k (some v) = m.insert k v :=
  rfl

@[simp] theorem share_none (f : β → ℕ) : share f none = 0 := rfl

@[simp] theorem share_some (f : β → ℕ) (v : β) : share f (some v) = f v := rfl

theorem find?_insert (m : SortedMap κ β) (k : κ) (v : β) (k' : κ) :
    (m.insert k v).find? k' = if k' = k then some v else m.find? k' := by
  split_ifs with h
  · rw [h, find?_insert_self]
  · exact find?_insert_of_ne m v (Ne.symm h)

theorem find?_erase (m : SortedMap κ β) (k k' : κ) :
    (m.erase k).find? k' = if k' = k then none else m.find? k' := by
  split_ifs with h
  · rw [h, find?_erase_self]
  · exact find?_erase_of_ne m (Ne.symm h)

theorem find?_of_mem {e : κ × β} (h : e ∈ m.entries) : m.find? e.1 = some e.2 :=
  findEntry_of_mem m.sorted h

/-- The keys of a map are distinct. -/
theorem nodup_keys (m : SortedMap κ β) : m.keys.Nodup :=
  (List.pairwise_map.2 m.sorted).imp ne_of_lt

theorem size_eq_length_keys (m : SortedMap κ β) : m.size = m.keys.length := by
  simp [size, keys]

/-- A key of the map finds its value. -/
theorem exists_find?_of_mem_keys (h : k ∈ m.keys) : ∃ v, m.find? k = some v := by
  obtain ⟨e, he, rfl⟩ := List.mem_map.1 h
  exact ⟨e.2, find?_of_mem he⟩

/-- A key that finds a value is a key of the map. -/
theorem mem_keys_of_find? (h : m.find? k = some v) : k ∈ m.keys :=
  List.mem_map.2 ⟨(k, v), mem_of_findEntry_eq_some h, rfl⟩

/-- A map where no key finds a value is empty. -/
theorem size_eq_zero_of_find? (h : ∀ k, m.find? k = none) : m.size = 0 := by
  rw [size, List.length_eq_zero_iff, List.eq_nil_iff_forall_not_mem]
  intro e he
  have hfind := find?_of_mem he
  rw [h e.1] at hfind
  cases hfind

theorem erase_of_find?_eq_none (h : m.find? k = none) : m.erase k = m := by
  obtain ⟨l, hl⟩ := m
  simp only [erase, SortedMap.mk.injEq]
  exact eraseEntry_of_findEntry_eq_none h

section Sums

variable (f : β → ℕ)

@[simp] theorem sumBy_empty : sumBy f (empty : SortedMap κ β) = 0 := rfl

/-- **A key's share of the sum.** The sum is the sum without the key plus its value's. -/
theorem sumBy_eq_erase_add (m : SortedMap κ β) (k : κ) :
    sumBy f m = sumBy f (m.erase k) + share f (m.find? k) :=
  sum_eq_eraseEntry_add f k m.entries

theorem sumBy_insert (m : SortedMap κ β) (k : κ) (v : β) :
    sumBy f (m.insert k v) = sumBy f (m.erase k) + f v :=
  sum_insertEntry f k v m.sorted

/-- **Setting a key.** The sum after setting a key is the sum without it plus the new
share. -/
theorem sumBy_set_eq (m : SortedMap κ β) (k : κ) (o : Option β) :
    sumBy f (m.set k o) = sumBy f (m.erase k) + share f o := by
  cases o with
  | none => rw [set_none, share_none, Nat.add_zero]
  | some v => exact sumBy_insert f m k v

/-- A sum with the key's old share is the sum after setting it with the new
share. -/
theorem sumBy_set (m : SortedMap κ β) (k : κ) (o : Option β) :
    sumBy f (m.set k o) + share f (m.find? k) = sumBy f m + share f o := by
  cases o with
  | none => exact (sumBy_eq_erase_add f m k).symm
  | some v =>
    rw [set_some, sumBy_insert, sumBy_eq_erase_add f m k, share_some]
    omega

/-- The size is the sum of one per value. -/
theorem size_eq_sumBy (m : SortedMap κ β) : m.size = sumBy (fun _ => 1) m := by
  simp [size, sumBy]

/-- Inserting a key adds one entry unless the key is there. -/
theorem size_insert_add (m : SortedMap κ β) (k : κ) (v : β) :
    (m.insert k v).size + share (fun _ => 1) (m.find? k) = m.size + 1 := by
  rw [size_eq_sumBy, size_eq_sumBy, ← set_some, sumBy_set, share_some]

/-- Erasing a key removes its entry, if any. -/
theorem size_erase_add (m : SortedMap κ β) (k : κ) :
    (m.erase k).size + share (fun _ => 1) (m.find? k) = m.size := by
  rw [size_eq_sumBy, size_eq_sumBy, ← set_none, sumBy_set, share_none, Nat.add_zero]

end Sums

theorem All.of_find? {P : β → Prop} (hm : m.All P) (h : m.find? k = some v) : P v :=
  hm (k, v) (mem_of_findEntry_eq_some h)

theorem All.insert {P : β → Prop} (hm : m.All P) (hv : P v) : (m.insert k v).All P := by
  intro e he
  rcases mem_insertEntry he with rfl | he
  · exact hv
  · exact hm e he

theorem All.erase {P : β → Prop} (hm : m.All P) (k : κ) : (m.erase k).All P :=
  fun e he => hm e ((eraseEntry_sublist k m.entries).subset he)

theorem All.set {P : β → Prop} (hm : m.All P) (k : κ) {o : Option β} (ho : ∀ v ∈ o, P v) :
    (m.set k o).All P := by
  cases o with
  | none => exact hm.erase k
  | some v => exact hm.insert (ho v rfl)

@[simp] theorem all_empty (P : β → Prop) : (empty : SortedMap κ β).All P := fun _ h => by
  cases h

theorem find?_set (m : SortedMap κ β) (k : κ) (o : Option β) (k' : κ) :
    (m.set k o).find? k' = if k' = k then o else m.find? k' := by
  cases o with
  | none => exact find?_erase m k k'
  | some v => exact find?_insert m k v k'

/-- **Setting keys from their own values.** Folding, over a list, the update that sets the key
of each element to `g` of its value sets every key of the list once, when `g` is
idempotent. -/
theorem find?_foldl_set {α : Type} (key : α → κ) (g : Option β → Option β)
    (hg : ∀ o, g (g o) = g o) (l : List α) (m : SortedMap κ β) (k : κ) :
    (l.foldl (fun m a => m.set (key a) (g (m.find? (key a)))) m).find? k =
      if k ∈ l.map key then g (m.find? k) else m.find? k := by
  induction l generalizing m with
  | nil => simp
  | cons a l ih =>
    rw [List.foldl_cons, ih, find?_set]
    by_cases h1 : k = key a <;> by_cases h2 : k ∈ l.map key <;> simp [h1, h2, hg]

end SortedMap
