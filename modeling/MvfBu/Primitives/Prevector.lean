import Mathlib
import MvfBu.Serialize

set_option autoImplicit false

/-!
# The small vector of scripts (`prevector.h`)

`prevector<N, T>` keeps up to `N` elements in place and more on the heap. Its storage is one
`_size` counter and a union of the `N` in-place elements with a `capacity` and a pointer
`indirect`. The mode is read off `_size` alone: a vector holding its elements in place has
`_size` equal to its size, at most `N`; a vector on the heap stores its size plus `N + 1`.
Scripts are `prevector<28, unsigned char>` (`CScriptBase`).

This file models the class for `T = unsigned char`, as `CScriptBase` instantiates it, byte by
byte: the union is its bytes, of which the first four are `capacity` and the next eight
`indirect` (the class is `#pragma pack(1)` and `size_type` is `uint32_t`), and the heap maps
each block to its bytes.

Every operation on one vector refines the same operation of `std::vector` on the list of its
elements (`Op.step_refines`, `run_refines`). `swap` does not: it exchanges the two unions whole,
or only their `capacity` and `indirect` fields when both `_size` are odd. Both odd is not the
test of two heap vectors it stands for: two in-place vectors of odd sizes exchange only their
first twelve bytes, and the longer one keeps the rest of the other's old bytes
(`swap_odd_direct`).

## Main definitions

* `MvfBu.Heap`, `MvfBu.Prevector`.
* `MvfBu.Prevector.change_capacity` and the operations built on it: `push_back`, `insert`,
  `erase`, `resize`, `reserve`, `assign`, `operator_assign`, `swap`, ...
* `MvfBu.Prevector.Wf` — the invariant: `size() <= capacity()`, and a heap vector's capacity
  is above `N`.
* `MvfBu.Prevector.Op` — the operations on one vector, with `Op.step` (the model) and
  `Op.vector` (what `std::vector` does to the list of elements).

## Main results

* `MvfBu.Prevector.Op.step_refines`, `MvfBu.Prevector.run_refines` — from a well-formed vector,
  every run of operations keeps the invariant and its elements are those of `std::vector`.
* `MvfBu.Prevector.swap_odd_direct` — what `swap` leaves in the second of two in-place vectors
  of odd sizes.

## Implementation notes

`malloc` takes the next address and leaves the block's old bytes in it, as uninitialized
memory; `realloc` is modelled as growing the block where it is, and `free` as leaving the heap
as it is: no freed block is read again. `_size` is a natural number: `uint32_t` does not wrap
as long as the sizes plus `N + 1` stay below `2 ^ 32`. The iterator arguments of the source
are positions here, and an input range is the list of its elements.
-/

namespace MvfBu

/-- The heap as `malloc`, `realloc` and `free` see it: the bytes of each block by address, and
the address the next `malloc` returns. -/
structure Heap where
  blocks : ℕ → ℕ → UInt8
  next : UInt64

namespace Heap

/-- `malloc`: the next address, and the heap with it taken. -/
def malloc (h : Heap) : ℕ × Heap := (h.next.toNat, ⟨h.blocks, h.next + 1⟩)

/-- The heap with the bytes of the block at `a` replaced. -/
def setBlock (h : Heap) (a : ℕ) (block : ℕ → UInt8) : Heap :=
  ⟨Function.update h.blocks a block, h.next⟩

@[simp] lemma blocks_setBlock_self (h : Heap) (a : ℕ) (block : ℕ → UInt8) :
    (h.setBlock a block).blocks a = block := by
  simp [setBlock]

lemma malloc_lt (h : Heap) : h.malloc.1 < 2 ^ 64 := h.next.toNat_lt

lemma setBlock_setBlock (h : Heap) (a : ℕ) (block block' : ℕ → UInt8) :
    (h.setBlock a block).setBlock a block' = h.setBlock a block' := by
  simp [setBlock]

end Heap

/-- `prevector<N, unsigned char>`: `_size` and the bytes of `_union`. -/
structure Prevector (N : ℕ) where
  _size : ℕ
  _union : ℕ → UInt8

namespace Prevector

variable {N : ℕ}

/-! ## Bytes of the union -/

/-- The `w` bytes of a byte map from `off`. -/
def readBytes (u : ℕ → UInt8) (off w : ℕ) : List UInt8 :=
  (List.range w).map fun i => u (off + i)

/-- A byte map with the bytes `bs` written from `off`. -/
def writeBytes (u : ℕ → UInt8) (off : ℕ) (bs : List UInt8) : ℕ → UInt8 :=
  fun i => if off ≤ i ∧ i < off + bs.length then bs.getD (i - off) 0 else u i

lemma readBytes_writeBytes_self (u : ℕ → UInt8) (off : ℕ) (bs : List UInt8) {w : ℕ}
    (hw : bs.length = w) : readBytes (writeBytes u off bs) off w = bs := by
  subst hw
  apply List.ext_getElem (by simp [readBytes])
  intro i _ hi
  simp [readBytes, writeBytes, hi]

/-- Bytes written below the ones read leave them as they were. -/
lemma readBytes_writeBytes_of_le (u : ℕ → UInt8) (off off' w : ℕ) (bs : List UInt8)
    (hle : off + bs.length ≤ off') :
    readBytes (writeBytes u off bs) off' w = readBytes u off' w := by
  apply List.map_congr_left
  intro i _
  simp only [writeBytes]
  rw [if_neg (by omega)]

/-- `_union.capacity`: the first four bytes, little-endian. -/
def unionCapacity (v : Prevector N) : ℕ := readLE (readBytes v._union 0 4)

/-- `_union.indirect`: the next eight bytes. -/
def unionIndirect (v : Prevector N) : ℕ := readLE (readBytes v._union 4 8)

lemma unionCapacity_lt (v : Prevector N) : v.unionCapacity < 2 ^ 32 := by
  simpa [unionCapacity, readBytes] using readLE_lt (readBytes v._union 0 4)

/-! ## Reading -/

/-- `is_direct()`. -/
def is_direct (v : Prevector N) : Prop := v._size ≤ N

instance (v : Prevector N) : Decidable v.is_direct := inferInstanceAs (Decidable (v._size ≤ N))

/-- `size()`. -/
def size (v : Prevector N) : ℕ := if v.is_direct then v._size else v._size - N - 1

/-- `capacity()`. -/
def capacity (v : Prevector N) : ℕ := if v.is_direct then N else v.unionCapacity

/-- `*item_ptr(pos)`: the byte in place, or in the heap block. -/
def item (h : Heap) (v : Prevector N) (pos : ℕ) : UInt8 :=
  if v.is_direct then v._union pos else h.blocks v.unionIndirect pos

/-- The elements: `item_ptr(0)` up to `item_ptr(size())`. -/
def toList (h : Heap) (v : Prevector N) : List UInt8 := (List.range v.size).map (v.item h)

/-- The invariant of a vector: `size() <= capacity()`, and a vector on the heap has a
capacity above `N`, so that it is in place exactly when `capacity() == N`. -/
structure Wf (v : Prevector N) : Prop where
  size_le_capacity : v.size ≤ v.capacity
  capacity_gt : ¬v.is_direct → N < v.unionCapacity

lemma wf_iff (v : Prevector N) :
    v.Wf ↔ v.size ≤ v.capacity ∧ (¬v.is_direct → N < v.unionCapacity) :=
  ⟨fun hv => ⟨hv.1, hv.2⟩, fun hv => ⟨hv.1, hv.2⟩⟩

instance (v : Prevector N) : Decidable v.Wf := decidable_of_iff _ (wf_iff v).symm

/-! ## Writing -/

/-- Writing through `item_ptr`: `g` rewrites the storage the elements are read from. -/
def modifyItems (g : (ℕ → UInt8) → ℕ → UInt8) (v : Prevector N) (h : Heap) :
    Prevector N × Heap :=
  if v.is_direct then (⟨v._size, g v._union⟩, h)
  else (v, h.setBlock v.unionIndirect (g (h.blocks v.unionIndirect)))

/-- `new(item_ptr(pos)) T(value)`. -/
def setItem (v : Prevector N) (h : Heap) (pos : ℕ) (value : UInt8) : Prevector N × Heap :=
  v.modifyItems (fun e => Function.update e pos value) h

/-- `memmove(item_ptr(dst), item_ptr(src), count)`. -/
def moveItems (dst src count : ℕ) (v : Prevector N) (h : Heap) : Prevector N × Heap :=
  v.modifyItems (fun e j => if dst ≤ j ∧ j < dst + count then e (j - dst + src) else e j) h

/-- `_size += k`. -/
def addSize (k : ℕ) (v : Prevector N) : Prevector N := ⟨v._size + k, v._union⟩

/-- `_size -= k`. -/
def subSize (k : ℕ) (v : Prevector N) : Prevector N := ⟨v._size - k, v._union⟩

/-- `change_capacity(new_capacity)`: into place, copying the elements back from the heap; on
the heap, growing the block; or from place to a new block, copying the elements out. -/
def change_capacity (new_capacity : ℕ) (v : Prevector N) (h : Heap) : Prevector N × Heap :=
  if new_capacity ≤ N then
    if ¬v.is_direct then
      -- `memcpy(direct_ptr(0), indirect, size())`, then `free(indirect)`
      (⟨v._size - (N + 1), fun i => if i < v.size then h.blocks v.unionIndirect i
        else v._union i⟩, h)
    else (v, h)
  else
    if ¬v.is_direct then
      (⟨v._size, writeBytes v._union 0 (writeLE 4 new_capacity)⟩, h)
    else
      let m := h.malloc
      -- `memcpy(new_indirect, direct_ptr(0), size())` over the block's old bytes
      let block := fun i => if i < v.size then v._union i else m.2.blocks m.1 i
      (⟨v._size + (N + 1),
          writeBytes (writeBytes v._union 4 (writeLE 8 m.1)) 0 (writeLE 4 new_capacity)⟩,
        m.2.setBlock m.1 block)

/-! ## The two modes -/

lemma size_of_direct {v : Prevector N} (hd : v.is_direct) : v.size = v._size := if_pos hd

lemma size_of_not_direct {v : Prevector N} (hd : ¬v.is_direct) : v.size = v._size - N - 1 :=
  if_neg hd

lemma capacity_of_direct {v : Prevector N} (hd : v.is_direct) : v.capacity = N := if_pos hd

lemma capacity_of_not_direct {v : Prevector N} (hd : ¬v.is_direct) :
    v.capacity = v.unionCapacity :=
  if_neg hd

lemma item_of_direct (h : Heap) {v : Prevector N} (hd : v.is_direct) : v.item h = v._union := by
  funext pos
  exact if_pos hd

lemma item_of_not_direct (h : Heap) {v : Prevector N} (hd : ¬v.is_direct) :
    v.item h = h.blocks v.unionIndirect := by
  funext pos
  exact if_neg hd

/-- An in-place vector is well formed: its capacity is `N` and its size at most `N`. -/
lemma wf_of_is_direct {v : Prevector N} (hd : v.is_direct) : v.Wf where
  size_le_capacity := by
    rw [size_of_direct hd, capacity_of_direct hd]
    exact hd
  capacity_gt hnd := absurd hd hnd

/-- A well-formed vector is in place exactly when `capacity() == N`. -/
theorem Wf.is_direct_iff {v : Prevector N} (hv : v.Wf) : v.is_direct ↔ v.capacity = N := by
  by_cases hd : v.is_direct
  · simp [hd, capacity_of_direct hd]
  · have hgt := hv.capacity_gt hd
    rw [capacity_of_not_direct hd]
    simp only [hd, false_iff]
    omega

/-- Two vectors over the same union and in the same mode read the same capacity and
elements. -/
lemma capacity_congr {v w : Prevector N} (hu : w._union = v._union)
    (hd : w.is_direct ↔ v.is_direct) : w.capacity = v.capacity := by
  simp only [capacity, unionCapacity, hu, hd]

lemma item_congr (h : Heap) {v w : Prevector N} (hu : w._union = v._union)
    (hd : w.is_direct ↔ v.is_direct) : w.item h = v.item h := by
  funext pos
  simp only [item, unionIndirect, hu, hd]

/-! ## Writing through `item_ptr` -/

section modifyItems

variable (g : (ℕ → UInt8) → ℕ → UInt8) (v : Prevector N) (h : Heap)

@[simp] lemma size_field_modifyItems : (v.modifyItems g h).1._size = v._size := by
  unfold modifyItems
  split <;> rfl

lemma is_direct_modifyItems : (v.modifyItems g h).1.is_direct ↔ v.is_direct := by
  simp only [is_direct, size_field_modifyItems]

@[simp] lemma size_modifyItems : (v.modifyItems g h).1.size = v.size := by
  unfold modifyItems
  split <;> rfl

@[simp] lemma capacity_modifyItems : (v.modifyItems g h).1.capacity = v.capacity := by
  unfold modifyItems
  split_ifs with hd
  · have hd' : (⟨v._size, g v._union⟩ : Prevector N).is_direct := hd
    rw [capacity_of_direct hd, capacity_of_direct hd']
  · rfl

/-- What a write through `item_ptr` does to the elements: `g` applied to them. -/
lemma item_modifyItems : (v.modifyItems g h).1.item (v.modifyItems g h).2 = g (v.item h) := by
  unfold modifyItems
  split_ifs with hd
  · have hd' : (⟨v._size, g v._union⟩ : Prevector N).is_direct := hd
    rw [item_of_direct _ hd, item_of_direct _ hd']
  · rw [item_of_not_direct _ hd, item_of_not_direct _ hd, Heap.blocks_setBlock_self]

lemma Wf.modifyItems {v : Prevector N} (hv : v.Wf) : (v.modifyItems g h).1.Wf := by
  unfold Prevector.modifyItems
  split_ifs with hd
  · exact wf_of_is_direct hd
  · exact hv

end modifyItems

/-! ## Changing `_size` within a mode -/

section resizeField

variable {v : Prevector N} {k : ℕ}

lemma is_direct_addSize (hk : v.size + k ≤ v.capacity) :
    (v.addSize k).is_direct ↔ v.is_direct := by
  by_cases hd : v.is_direct
  · rw [size_of_direct hd, capacity_of_direct hd] at hk
    simp only [hd, iff_true]
    exact hk
  · simp only [is_direct, addSize] at hd ⊢
    omega

lemma size_addSize (hk : v.size + k ≤ v.capacity) : (v.addSize k).size = v.size + k := by
  have hd := is_direct_addSize hk
  by_cases hd' : v.is_direct
  · rw [size_of_direct (hd.2 hd'), size_of_direct hd']
    rfl
  · rw [size_of_not_direct (fun h => hd' (hd.1 h)), size_of_not_direct hd']
    simp only [is_direct, addSize] at hd' ⊢
    omega

lemma capacity_addSize (hk : v.size + k ≤ v.capacity) : (v.addSize k).capacity = v.capacity :=
  capacity_congr rfl (is_direct_addSize hk)

lemma item_addSize (h : Heap) (hk : v.size + k ≤ v.capacity) :
    (v.addSize k).item h = v.item h :=
  item_congr h rfl (is_direct_addSize hk)

lemma Wf.addSize (hv : v.Wf) (hk : v.size + k ≤ v.capacity) : (v.addSize k).Wf where
  size_le_capacity := by rw [size_addSize hk, capacity_addSize hk]; exact hk
  capacity_gt hnd := hv.capacity_gt (fun hd => hnd ((is_direct_addSize hk).2 hd))

lemma is_direct_subSize (hk : k ≤ v.size) : (v.subSize k).is_direct ↔ v.is_direct := by
  by_cases hd : v.is_direct
  · simp only [is_direct, subSize] at hd ⊢
    omega
  · rw [size_of_not_direct hd] at hk
    simp only [is_direct, subSize] at hd ⊢
    omega

lemma size_subSize (hk : k ≤ v.size) : (v.subSize k).size = v.size - k := by
  have hd := is_direct_subSize hk
  by_cases hd' : v.is_direct
  · rw [size_of_direct (hd.2 hd'), size_of_direct hd']
    rfl
  · rw [size_of_not_direct (fun h => hd' (hd.1 h)), size_of_not_direct hd']
    rw [size_of_not_direct hd'] at hk
    simp only [is_direct, subSize] at hd' ⊢
    omega

lemma capacity_subSize (hk : k ≤ v.size) : (v.subSize k).capacity = v.capacity :=
  capacity_congr rfl (is_direct_subSize hk)

lemma item_subSize (h : Heap) (hk : k ≤ v.size) : (v.subSize k).item h = v.item h :=
  item_congr h rfl (is_direct_subSize hk)

lemma Wf.subSize (hv : v.Wf) (hk : k ≤ v.size) : (v.subSize k).Wf where
  size_le_capacity := by
    rw [size_subSize hk, capacity_subSize hk]
    exact le_trans (Nat.sub_le _ _) hv.size_le_capacity
  capacity_gt hnd := hv.capacity_gt (fun hd => hnd ((is_direct_subSize hk).2 hd))

end resizeField

/-! ## `change_capacity` -/

lemma unionCapacity_writeCapacity (s : ℕ) (u : ℕ → UInt8) {c : ℕ} (hc : c < 2 ^ 32) :
    (⟨s, writeBytes u 0 (writeLE 4 c)⟩ : Prevector N).unionCapacity = c := by
  rw [unionCapacity, readBytes_writeBytes_self _ _ _ (length_writeLE 4 c), readLE_writeLE]
  exact Nat.mod_eq_of_lt (by norm_num at hc ⊢; exact hc)

lemma unionIndirect_writeCapacity (s : ℕ) (u : ℕ → UInt8) (c : ℕ) :
    (⟨s, writeBytes u 0 (writeLE 4 c)⟩ : Prevector N).unionIndirect =
      (⟨s, u⟩ : Prevector N).unionIndirect := by
  simp only [unionIndirect]
  rw [readBytes_writeBytes_of_le _ _ _ _ _ (by simp)]

lemma unionIndirect_writeIndirect (s : ℕ) (u : ℕ → UInt8) {a : ℕ} (ha : a < 2 ^ 64) :
    (⟨s, writeBytes u 4 (writeLE 8 a)⟩ : Prevector N).unionIndirect = a := by
  rw [unionIndirect, readBytes_writeBytes_self _ _ _ (length_writeLE 8 a), readLE_writeLE]
  exact Nat.mod_eq_of_lt (by norm_num at ha ⊢; exact ha)

section change_capacity

variable {v : Prevector N} {c : ℕ} (h : Heap)

lemma is_direct_change_capacity (hc : v.size ≤ c) :
    (v.change_capacity c h).1.is_direct ↔ c ≤ N := by
  unfold change_capacity
  split_ifs with hcN hd hd
  · simpa [hcN] using hd
  · rw [size_of_not_direct hd] at hc
    simp only [is_direct, hcN, iff_true]
    omega
  · simp only [is_direct] at hd ⊢
    omega
  · simp only [is_direct] at hd ⊢
    omega

lemma size_change_capacity (hc : v.size ≤ c) : (v.change_capacity c h).1.size = v.size := by
  unfold change_capacity
  split_ifs with hcN hd hd
  · rfl
  · have hd' : (⟨v._size - (N + 1), fun i => if i < v.size then h.blocks v.unionIndirect i
        else v._union i⟩ : Prevector N).is_direct := by
      rw [size_of_not_direct hd] at hc
      simp only [is_direct]
      omega
    rw [size_of_direct hd', size_of_not_direct hd]
    dsimp only
    omega
  · rw [size_of_direct hd, size_of_not_direct (by simp only [is_direct]; omega)]
    dsimp only
    omega
  · rfl

lemma capacity_change_capacity (hc : v.size ≤ c) (hc32 : N < c → c < 2 ^ 32) :
    (v.change_capacity c h).1.capacity = max N c := by
  have hd' := is_direct_change_capacity h hc
  by_cases hcN : c ≤ N
  · rw [capacity_of_direct (hd'.2 hcN), max_eq_left hcN]
  · rw [capacity_of_not_direct (fun hd => hcN (hd'.1 hd)), max_eq_right (by omega)]
    unfold change_capacity
    simp only [if_neg hcN]
    split_ifs
    · exact unionCapacity_writeCapacity _ _ (hc32 (by omega))
    · exact unionCapacity_writeCapacity _ _ (hc32 (by omega))

/-- `change_capacity` keeps the elements: it copies them between the union and the heap. -/
lemma item_change_capacity (hc : v.size ≤ c) {i : ℕ} (hi : i < v.size) :
    (v.change_capacity c h).1.item (v.change_capacity c h).2 i = v.item h i := by
  have hd' := is_direct_change_capacity h hc
  unfold change_capacity at hd' ⊢
  split_ifs at hd' ⊢ with hcN hd hd
  · rfl
  · rw [item_of_direct _ (hd'.2 hcN), item_of_not_direct _ hd]
    exact if_pos hi
  · rw [item_of_not_direct _ (fun h => hcN (hd'.1 h)), item_of_direct _ hd,
      unionIndirect_writeCapacity, unionIndirect_writeIndirect _ _ h.malloc_lt,
      Heap.blocks_setBlock_self]
    exact if_pos hi
  · rw [item_of_not_direct _ (fun h => hcN (hd'.1 h)), item_of_not_direct _ hd,
      unionIndirect_writeCapacity]

lemma wf_change_capacity (hc : v.size ≤ c) (hc32 : N < c → c < 2 ^ 32) :
    (v.change_capacity c h).1.Wf := by
  have hd' := is_direct_change_capacity h hc
  by_cases hcN : c ≤ N
  · exact wf_of_is_direct (hd'.2 hcN)
  · have hnd : ¬(v.change_capacity c h).1.is_direct := fun hd => hcN (hd'.1 hd)
    have hcap := capacity_change_capacity h hc hc32
    rw [max_eq_right (by omega)] at hcap
    refine ⟨by rw [size_change_capacity h hc, hcap]; exact hc, fun _ => ?_⟩
    rw [← capacity_of_not_direct hnd, hcap]
    omega

end change_capacity

/-! ## Growing and the loops of the class -/

/-- The growth before an insertion, in `push_back` and the three `insert`s:
`if (capacity() < new_size) change_capacity(new_size + (new_size >> 1))`. -/
def growFor (new_size : ℕ) (v : Prevector N) (h : Heap) : Prevector N × Heap :=
  if v.capacity < new_size then v.change_capacity (new_size + (new_size >>> 1)) h else (v, h)

/-- `reserve(new_capacity)`. -/
def reserve (new_capacity : ℕ) (v : Prevector N) (h : Heap) : Prevector N × Heap :=
  if new_capacity > v.capacity then v.change_capacity new_capacity h else (v, h)

lemma size_le_size_field (v : Prevector N) : v.size ≤ v._size := by
  unfold size
  split <;> omega

lemma size_field_lt_of_size_lt {v : Prevector N} {n : ℕ} (hn : v.size < n) :
    v._size < n + N + 1 := by
  unfold size at hn
  split at hn <;> omega

/-- The first loop of `resize`: `while (size() > new_size) { item_ptr(size() - 1)->~T();
_size--; }`, the destructor of `unsigned char` doing nothing. -/
def shrinkLoop (new_size : ℕ) (v : Prevector N) : Prevector N :=
  if new_size < v.size then shrinkLoop new_size (v.subSize 1) else v
termination_by v._size
decreasing_by
  have hpos : 0 < v._size := lt_of_lt_of_le (by omega) (size_le_size_field v)
  simp only [subSize]
  omega

/-- The loop that appends: `while (size() < new_size) { _size++;
new(item_ptr(size() - 1)) T(val); }` in `resize`, `assign` and the copying members, the
element written at `i` being `val i`. -/
def fillLoop (new_size : ℕ) (val : ℕ → UInt8) (v : Prevector N) (h : Heap) :
    Prevector N × Heap :=
  if v.size < new_size then
    let w := v.addSize 1
    let r := w.setItem h (w.size - 1) (val (w.size - 1))
    fillLoop new_size val r.1 r.2
  else (v, h)
termination_by new_size + N + 1 - v._size
decreasing_by
  have hlt := size_field_lt_of_size_lt ‹v.size < new_size›
  simp only [setItem, size_field_modifyItems, addSize]
  omega

/-- The loop of `insert(pos, count, value)` and `insert(pos, first, last)`: `val i` written at
`p + i` for `i < count`. -/
def writeLoop (p : ℕ) (val : ℕ → UInt8) : ℕ → Prevector N → Heap → Prevector N × Heap
  | 0, v, h => (v, h)
  | k + 1, v, h =>
    let r := writeLoop p val k v h
    r.1.setItem r.2 (p + k) (val k)

/-! ## The members -/

/-- `push_back(value)`. -/
def push_back (value : UInt8) (v : Prevector N) (h : Heap) : Prevector N × Heap :=
  let g := v.growFor (v.size + 1) h
  let w := g.1.setItem g.2 g.1.size value
  (w.1.addSize 1, w.2)

/-- `pop_back()`. -/
def pop_back (v : Prevector N) : Prevector N := v.subSize 1

/-- `insert(pos, value)`. -/
def insert (p : ℕ) (value : UInt8) (v : Prevector N) (h : Heap) : Prevector N × Heap :=
  let g := v.growFor (v.size + 1) h
  let m := g.1.moveItems (p + 1) p (g.1.size - p) g.2
  (m.1.addSize 1).setItem m.2 p value

/-- The body `insert(pos, count, value)` and `insert(pos, first, last)` share: room for `count`
more, the tail moved up by `count`, `_size += count`, and `val i` written at `p + i`. -/
def insertN (p count : ℕ) (val : ℕ → UInt8) (v : Prevector N) (h : Heap) :
    Prevector N × Heap :=
  let g := v.growFor (v.size + count) h
  let m := g.1.moveItems (p + count) p (g.1.size - p) g.2
  writeLoop p val count (m.1.addSize count) m.2

/-- `insert(pos, count, value)`. -/
def insert_count (p count : ℕ) (value : UInt8) (v : Prevector N) (h : Heap) :
    Prevector N × Heap :=
  v.insertN p count (fun _ => value) h

/-- `insert(pos, first, last)`, the range being the list `xs`. -/
def insert_range (p : ℕ) (xs : List UInt8) (v : Prevector N) (h : Heap) : Prevector N × Heap :=
  v.insertN p xs.length (fun i => xs.getD i 0) h

/-- `erase(pos)`. -/
def erase (p : ℕ) (v : Prevector N) (h : Heap) : Prevector N × Heap :=
  let m := v.moveItems p (p + 1) (v.size - (p + 1)) h
  (m.1.subSize 1, m.2)

/-- `erase(first, last)`: `_size--` once for each erased element, then the tail, up to the old
end, moved down to `first`. -/
def erase_range (first last : ℕ) (v : Prevector N) (h : Heap) : Prevector N × Heap :=
  let endp := v.size
  ((subSize 1)^[last - first] v).moveItems first last (endp - last) h

/-- `resize(new_size)`; its test before `change_capacity` is the body of `reserve`. -/
def resize (new_size : ℕ) (v : Prevector N) (h : Heap) : Prevector N × Heap :=
  let r := (shrinkLoop new_size v).reserve new_size h
  fillLoop new_size (fun _ => 0) r.1 r.2

/-- `shrink_to_fit()`. -/
def shrink_to_fit (v : Prevector N) (h : Heap) : Prevector N × Heap :=
  v.change_capacity v.size h

/-- `clear()`. -/
def clear (v : Prevector N) (h : Heap) : Prevector N × Heap := v.resize 0 h

/-- The body `assign(n, val)` and `assign(first, last)` share: `clear()`, room for `n`, and
the loop that appends; from `size() == 0`, the round that reaches size `i + 1` writes `val i`. -/
def assignN (n : ℕ) (val : ℕ → UInt8) (v : Prevector N) (h : Heap) : Prevector N × Heap :=
  let c := v.clear h
  let r := c.1.reserve n c.2
  fillLoop n val r.1 r.2

/-- `assign(n, val)`. -/
def assign (n : ℕ) (value : UInt8) (v : Prevector N) (h : Heap) : Prevector N × Heap :=
  v.assignN n (fun _ => value) h

/-- `assign(first, last)`, the range being the list `xs`. -/
def assign_range (xs : List UInt8) (v : Prevector N) (h : Heap) : Prevector N × Heap :=
  v.assignN xs.length (fun i => xs.getD i 0) h

/-- `operator=(other)`, `xs` being the elements of `other`: `resize(0)`, then
`change_capacity(other.size())`, which may move the vector back in place, then the copy. -/
def operator_assign (xs : List UInt8) (v : Prevector N) (h : Heap) : Prevector N × Heap :=
  let c := v.resize 0 h
  let r := c.1.change_capacity xs.length c.2
  fillLoop xs.length (fun i => xs.getD i 0) r.1 r.2

/-- The copy constructor `prevector(other)`, `xs` being the elements of `other`: from
`_size(0)` over the uninitialized bytes `u`, `change_capacity(other.size())`, then the copy. -/
def copy (xs : List UInt8) (u : ℕ → UInt8) (h : Heap) : Prevector N × Heap :=
  let r := (⟨0, u⟩ : Prevector N).change_capacity xs.length h
  fillLoop xs.length (fun i => xs.getD i 0) r.1 r.2

/-- `swap(other)`: with both `_size` odd, `std::swap` of `capacity` and of `indirect`, the
first twelve bytes of the unions; otherwise of the unions; then of the sizes. -/
def swap (a b : Prevector N) : Prevector N × Prevector N :=
  if a._size &&& b._size &&& 1 ≠ 0 then
    (⟨b._size, fun i => if i < 12 then b._union i else a._union i⟩,
      ⟨a._size, fun i => if i < 12 then a._union i else b._union i⟩)
  else (⟨b._size, b._union⟩, ⟨a._size, a._union⟩)

/-! ## Growing -/

lemma Wf.le_capacity {v : Prevector N} (hv : v.Wf) : N ≤ v.capacity := by
  by_cases hd : v.is_direct
  · rw [capacity_of_direct hd]
  · rw [capacity_of_not_direct hd]
    exact le_of_lt (hv.capacity_gt hd)

section grow

variable {v : Prevector N} {n : ℕ} (h : Heap)

lemma size_growFor (hn : v.size ≤ n) : (v.growFor n h).1.size = v.size := by
  unfold growFor
  split_ifs
  · exact size_change_capacity h (le_trans hn (Nat.le_add_right _ _))
  · rfl

lemma capacity_growFor (hn31 : n < 2 ^ 31) (hn : v.size ≤ n) :
    n ≤ (v.growFor n h).1.capacity := by
  unfold growFor
  split_ifs with hlt
  · rw [capacity_change_capacity h (le_trans hn (Nat.le_add_right _ _))
      (fun _ => by rw [Nat.shiftRight_one]; omega)]
    omega
  · dsimp only
    omega

lemma item_growFor (hn : v.size ≤ n) {i : ℕ} (hi : i < v.size) :
    (v.growFor n h).1.item (v.growFor n h).2 i = v.item h i := by
  unfold growFor
  split_ifs
  · exact item_change_capacity h (le_trans hn (Nat.le_add_right _ _)) hi
  · rfl

lemma Wf.growFor (hv : v.Wf) (hn31 : n < 2 ^ 31) (hn : v.size ≤ n) :
    (v.growFor n h).1.Wf := by
  unfold Prevector.growFor
  split_ifs
  · exact wf_change_capacity h (le_trans hn (Nat.le_add_right _ _))
      (fun _ => by rw [Nat.shiftRight_one]; omega)
  · exact hv

lemma size_reserve (hv : v.Wf) : (v.reserve n h).1.size = v.size := by
  unfold reserve
  split_ifs with hgt
  · exact size_change_capacity h (by have := hv.size_le_capacity; omega)
  · rfl

lemma capacity_reserve (hv : v.Wf) (hn32 : n < 2 ^ 32) :
    (v.reserve n h).1.capacity = max v.capacity n := by
  unfold reserve
  split_ifs with hgt
  · rw [capacity_change_capacity h (by have := hv.size_le_capacity; omega) (fun _ => hn32)]
    have := hv.le_capacity
    omega
  · dsimp only
    omega

lemma item_reserve (hv : v.Wf) {i : ℕ} (hi : i < v.size) :
    (v.reserve n h).1.item (v.reserve n h).2 i = v.item h i := by
  unfold reserve
  split_ifs with hgt
  · exact item_change_capacity h (by have := hv.size_le_capacity; omega) hi
  · rfl

lemma Wf.reserve (hv : v.Wf) (hn32 : n < 2 ^ 32) : (v.reserve n h).1.Wf := by
  unfold Prevector.reserve
  split_ifs with hgt
  · exact wf_change_capacity h (by have := hv.size_le_capacity; omega) (fun _ => hn32)
  · exact hv

end grow

/-! ## The loops -/

lemma subSize_subSize (j k : ℕ) (v : Prevector N) :
    (v.subSize j).subSize k = v.subSize (j + k) := by
  simp [subSize, Nat.sub_sub]

/-- The shrinking loop of `resize` takes `size() - new_size` off `_size`. -/
lemma shrinkLoop_eq (new_size : ℕ) (v : Prevector N) :
    shrinkLoop new_size v = v.subSize (v.size - new_size) := by
  fun_induction shrinkLoop new_size v with
  | case1 v hlt ih =>
    rw [ih, size_subSize (by omega), subSize_subSize]
    congr 2
    omega
  | case2 v hge =>
    rw [show v.size - new_size = 0 by omega]
    rfl

/-- The loop of `erase(first, last)` takes its count off `_size`. -/
lemma iterate_subSize (k : ℕ) (v : Prevector N) : (subSize 1)^[k] v = v.subSize k := by
  induction k with
  | zero => rfl
  | succ k ih => rw [Function.iterate_succ_apply', ih, subSize_subSize]

/-- The appending loop, from a vector with room for `new_size`: the size becomes
`max size new_size`, and the positions from the old size on hold `val`. -/
lemma fillLoop_spec (new_size : ℕ) (val : ℕ → UInt8) (v : Prevector N) (h : Heap) :
    v.Wf → new_size ≤ v.capacity →
      (fillLoop new_size val v h).1.Wf ∧
      (fillLoop new_size val v h).1.size = max v.size new_size ∧
      (fillLoop new_size val v h).1.capacity = v.capacity ∧
      ∀ i, (fillLoop new_size val v h).1.item (fillLoop new_size val v h).2 i =
        if v.size ≤ i ∧ i < new_size then val i else v.item h i := by
  fun_induction fillLoop new_size val v h with
  | case1 v h hlt w r ih =>
    intro hv hn
    have hk : v.size + 1 ≤ v.capacity := by omega
    have hwsize : w.size = v.size + 1 := size_addSize hk
    have hrsize : r.1.size = v.size + 1 := by simp [r, setItem, hwsize]
    have hrcap : r.1.capacity = v.capacity := by simp [r, setItem, w, capacity_addSize hk]
    have hritem : r.1.item r.2 = Function.update (v.item h) v.size (val v.size) := by
      simp only [r, setItem, item_modifyItems, w, item_addSize h hk, hwsize]
      rfl
    obtain ⟨hwf', hsize', hcap', hitem'⟩ := ih ((hv.addSize hk).modifyItems _ _) (by omega)
    refine ⟨hwf', by omega, by omega, fun i => ?_⟩
    rw [hitem', hritem]
    by_cases hi : i = v.size
    · subst hi
      simp [hlt]
    · rw [Function.update_of_ne hi]
      split_ifs <;> first | rfl | omega
  | case2 v h hge =>
    intro hv _
    refine ⟨hv, by dsimp only; omega, rfl, fun i => ?_⟩
    rw [if_neg (by omega)]

/-! ## Writes compose -/

/-- Two writes through `item_ptr` are one: the second rewrites what the first left. -/
lemma modifyItems_modifyItems (g g' : (ℕ → UInt8) → ℕ → UInt8) (v : Prevector N)
    (h : Heap) :
    (v.modifyItems g h).1.modifyItems g' (v.modifyItems g h).2 = v.modifyItems (g' ∘ g) h := by
  by_cases hd : v.is_direct
  · have hd' : (⟨v._size, g v._union⟩ : Prevector N).is_direct := hd
    simp only [modifyItems, if_pos hd, if_pos hd']
    rfl
  · simp only [modifyItems, if_neg hd, Heap.blocks_setBlock_self, Heap.setBlock_setBlock]
    rfl

lemma modifyItems_id (v : Prevector N) (h : Heap) : v.modifyItems id h = (v, h) := by
  unfold modifyItems
  split_ifs
  · rfl
  · simp [Heap.setBlock]

/-- The writing loop of `insert` is one write of `val` over `[p, p + count)`. -/
lemma writeLoop_eq (p : ℕ) (val : ℕ → UInt8) (count : ℕ) (v : Prevector N) (h : Heap) :
    writeLoop p val count v h =
      v.modifyItems (fun e j => if p ≤ j ∧ j < p + count then val (j - p) else e j) h := by
  induction count with
  | zero =>
    have hid : (fun (e : ℕ → UInt8) j => if p ≤ j ∧ j < p + 0 then val (j - p) else e j) =
        id := by
      funext e j
      rw [if_neg (by omega)]
      rfl
    rw [hid, modifyItems_id]
    rfl
  | succ k ih =>
    rw [writeLoop, ih, setItem, modifyItems_modifyItems]
    congr 1
    funext e j
    simp only [Function.comp_apply, Function.update_apply]
    split_ifs with h1 <;> first | rfl | omega | (subst h1; simp)

/-! ## Elements -/

@[simp] lemma length_toList (h : Heap) (v : Prevector N) : (v.toList h).length = v.size := by
  simp [toList]

lemma getElem?_toList (h : Heap) (v : Prevector N) (i : ℕ) :
    (v.toList h)[i]? = if i < v.size then some (v.item h i) else none := by
  unfold toList
  split_ifs with hi
  · rw [List.getElem?_map, List.getElem?_range hi]
    rfl
  · rw [List.getElem?_eq_none (by simpa using hi)]

/-- The positions of a list with `[p, q)` replaced by `m`. -/
lemma getElem?_splice {α : Type} (l m : List α) {p q : ℕ} (hpq : p ≤ q) (hq : q ≤ l.length)
    (i : ℕ) : (l.take p ++ m ++ l.drop q)[i]? =
      if i < p then l[i]? else if i < p + m.length then m[i - p]?
      else l[i - p - m.length + q]? := by
  rw [List.getElem?_append, List.getElem?_append, List.getElem?_take, List.getElem?_drop]
  simp only [List.length_append, List.length_take, min_eq_left (le_trans hpq hq)]
  split_ifs <;> first | rfl | omega | (congr 1; omega)

/-- `v'` over `h'` holds the elements of `v` over `h` with the ones in `[p, q)` replaced by
`m`: the shape of every operation on one vector. -/
structure Splice (v : Prevector N) (h : Heap) (v' : Prevector N) (h' : Heap) (p q : ℕ)
    (m : List UInt8) : Prop where
  size_eq : v'.size = p + m.length + (v.size - q)
  item_eq : ∀ i < v'.size, v'.item h' i =
    if i < p then v.item h i else if i < p + m.length then m.getD (i - p) 0
    else v.item h (i - p - m.length + q)

lemma toList_of_splice {v v' : Prevector N} {h h' : Heap} {p q : ℕ} {m : List UInt8}
    (hs : Splice v h v' h' p q m) (hpq : p ≤ q) (hq : q ≤ v.size) :
    v'.toList h' = (v.toList h).take p ++ m ++ (v.toList h).drop q := by
  apply List.ext_getElem?
  intro i
  rw [getElem?_splice _ _ hpq (by simpa using hq), getElem?_toList, getElem?_toList,
    getElem?_toList]
  have hsize := hs.size_eq
  by_cases hi : i < v'.size
  · rw [if_pos hi, hs.item_eq i hi]
    split_ifs <;> first | omega | rfl | skip
    rw [List.getD_eq_getElem?_getD, List.getElem?_eq_getElem (by omega)]
    rfl
  · rw [if_neg hi]
    split_ifs <;> first | omega | rfl

/-- A step that keeps the elements keeps a splice. -/
lemma Splice.of_keep {v s s' : Prevector N} {h hs hs' : Heap} {p q : ℕ} {m : List UInt8}
    (hsp : Splice v h s hs p q m) (hsize : s'.size = s.size)
    (hitem : ∀ i < s.size, s'.item hs' i = s.item hs i) : Splice v h s' hs' p q m where
  size_eq := hsize.trans hsp.size_eq
  item_eq i hi := by
    rw [hitem i (hsize ▸ hi)]
    exact hsp.item_eq i (hsize ▸ hi)

lemma splice_refl (v : Prevector N) (h : Heap) : Splice v h v h v.size v.size [] where
  size_eq := by simp
  item_eq i hi := by rw [if_pos hi]

/-- The appending loop after a step that kept the elements below `p` and dropped the rest. -/
lemma Splice.fillLoop {v r : Prevector N} {h hr : Heap} {p : ℕ}
    (hs : Splice v h r hr p v.size []) (hwf : r.Wf) {n : ℕ} (hcap : n ≤ r.capacity)
    (hpn : p ≤ n) (val : ℕ → UInt8) (mm : List UInt8) (hlen : mm.length = n - p)
    (hmm : ∀ i < mm.length, mm.getD i 0 = val (p + i)) :
    (Prevector.fillLoop n val r hr).1.Wf ∧
      Splice v h (Prevector.fillLoop n val r hr).1 (Prevector.fillLoop n val r hr).2 p v.size
        mm := by
  have hrsize : r.size = p := by
    have := hs.size_eq
    simp only [List.length_nil, Nat.add_zero, Nat.sub_self] at this
    exact this
  obtain ⟨hwf', hsize', -, hitem'⟩ := fillLoop_spec n val r hr hwf hcap
  refine ⟨hwf', ⟨?_, fun i hi => ?_⟩⟩
  · rw [hsize']
    omega
  · rw [hsize'] at hi
    rw [hitem' i]
    by_cases hip : i < p
    · rw [if_neg (by omega), hs.item_eq i (by omega), if_pos hip, if_pos hip]
    · rw [if_pos (by omega), if_neg hip, if_pos (by omega), hmm (i - p) (by omega)]
      congr 1
      omega

/-! ## The members as splices -/

section members

variable {v : Prevector N} (h : Heap)

lemma push_back_spec (value : UInt8) (hv : v.Wf) (hb : v.size + 1 < 2 ^ 31) :
    (v.push_back value h).1.Wf ∧
      Splice v h (v.push_back value h).1 (v.push_back value h).2 v.size v.size [value] := by
  have hn : v.size ≤ v.size + 1 := Nat.le_succ _
  have hgsize := size_growFor h hn
  have hgcap := capacity_growFor h hb hn
  have hgitem := fun i (hi : i < v.size) => item_growFor h hn hi
  have hgwf := hv.growFor h hb hn
  unfold push_back
  dsimp only
  set g := v.growFor (v.size + 1) h
  set w := g.1.setItem g.2 g.1.size value with hw
  have hwsize : w.1.size = v.size := by simp [w, setItem, hgsize]
  have hk : w.1.size + 1 ≤ w.1.capacity := by
    simp only [w, setItem, size_modifyItems, capacity_modifyItems]
    omega
  have hwitem : w.1.item w.2 = Function.update (g.1.item g.2) v.size value := by
    rw [hw, setItem, item_modifyItems, hgsize]
  refine ⟨(hgwf.modifyItems _ _).addSize hk, ⟨?_, fun i hi => ?_⟩⟩
  · rw [size_addSize hk, hwsize]
    simp
  · rw [size_addSize hk, hwsize] at hi
    rw [item_addSize _ hk, hwitem]
    by_cases hlt : i < v.size
    · rw [Function.update_of_ne (by omega), hgitem i hlt, if_pos hlt]
    · rw [show i = v.size by omega, Function.update_self, if_neg (lt_irrefl _)]
      simp

lemma pop_back_spec (hv : v.Wf) (hp : 0 < v.size) :
    v.pop_back.Wf ∧ Splice v h v.pop_back h (v.size - 1) v.size [] := by
  have hk : 1 ≤ v.size := hp
  refine ⟨hv.subSize hk, ⟨?_, fun i hi => ?_⟩⟩
  · rw [pop_back, size_subSize hk]
    simp
  · rw [pop_back, size_subSize hk] at hi
    rw [pop_back, item_subSize h hk, if_pos hi]

lemma insert_spec (p : ℕ) (value : UInt8) (hv : v.Wf) (hp : p ≤ v.size)
    (hb : v.size + 1 < 2 ^ 31) :
    (v.insert p value h).1.Wf ∧
      Splice v h (v.insert p value h).1 (v.insert p value h).2 p p [value] := by
  have hn : v.size ≤ v.size + 1 := Nat.le_succ _
  have hgsize := size_growFor h hn
  have hgcap := capacity_growFor h hb hn
  have hgitem := fun i (hi : i < v.size) => item_growFor h hn hi
  have hgwf := hv.growFor h hb hn
  unfold insert
  dsimp only
  set g := v.growFor (v.size + 1) h
  set m := g.1.moveItems (p + 1) p (g.1.size - p) g.2 with hm
  have hmsize : m.1.size = v.size := by simp [m, moveItems, hgsize]
  have hk : m.1.size + 1 ≤ m.1.capacity := by
    simp only [m, moveItems, size_modifyItems, capacity_modifyItems]
    omega
  have hmitem : m.1.item m.2 = fun j => if p + 1 ≤ j ∧ j < p + 1 + (v.size - p) then
      g.1.item g.2 (j - (p + 1) + p) else g.1.item g.2 j := by
    rw [hm, moveItems, item_modifyItems, hgsize]
  refine ⟨((hgwf.modifyItems _ _).addSize hk).modifyItems _ _, ⟨?_, fun i hi => ?_⟩⟩
  · rw [setItem, size_modifyItems, size_addSize hk, hmsize]
    simp
    omega
  · rw [setItem, size_modifyItems, size_addSize hk, hmsize] at hi
    rw [setItem, item_modifyItems, item_addSize _ hk, hmitem]
    rcases lt_trichotomy i p with hlt | rfl | hgt
    · rw [Function.update_of_ne (by omega), if_neg (by omega), hgitem i (by omega), if_pos hlt]
    · simp
    · rw [Function.update_of_ne (by omega), if_pos (by omega), hgitem (i - (p + 1) + p) (by omega),
        if_neg (by omega), if_neg (by simp; omega)]
      congr 1

lemma insertN_spec (p : ℕ) (val : ℕ → UInt8) (mm : List UInt8)
    (hmm : ∀ i < mm.length, mm.getD i 0 = val i) (hv : v.Wf) (hp : p ≤ v.size)
    (hb : v.size + mm.length < 2 ^ 31) :
    (v.insertN p mm.length val h).1.Wf ∧
      Splice v h (v.insertN p mm.length val h).1 (v.insertN p mm.length val h).2 p p mm := by
  have hn : v.size ≤ v.size + mm.length := Nat.le_add_right _ _
  have hgsize := size_growFor h hn
  have hgcap := capacity_growFor h hb hn
  have hgitem := fun i (hi : i < v.size) => item_growFor h hn hi
  have hgwf := hv.growFor h hb hn
  unfold insertN
  dsimp only
  rw [writeLoop_eq]
  set g := v.growFor (v.size + mm.length) h
  set m := g.1.moveItems (p + mm.length) p (g.1.size - p) g.2 with hm
  have hmsize : m.1.size = v.size := by simp [m, moveItems, hgsize]
  have hk : m.1.size + mm.length ≤ m.1.capacity := by
    simp only [m, moveItems, size_modifyItems, capacity_modifyItems]
    omega
  have hmitem : m.1.item m.2 = fun j => if p + mm.length ≤ j ∧ j < p + mm.length + (v.size - p)
      then g.1.item g.2 (j - (p + mm.length) + p) else g.1.item g.2 j := by
    rw [hm, moveItems, item_modifyItems, hgsize]
  refine ⟨((hgwf.modifyItems _ _).addSize hk).modifyItems _ _, ⟨?_, fun i hi => ?_⟩⟩
  · rw [size_modifyItems, size_addSize hk, hmsize]
    omega
  · rw [size_modifyItems, size_addSize hk, hmsize] at hi
    rw [item_modifyItems, item_addSize _ hk, hmitem]
    dsimp only
    by_cases hlt : i < p
    · have c1 : ¬(p ≤ i ∧ i < p + mm.length) := by omega
      have c2 : ¬(p + mm.length ≤ i ∧ i < p + mm.length + (v.size - p)) := by omega
      rw [if_neg c1, if_neg c2, hgitem i (by omega), if_pos hlt]
    · by_cases hin : i < p + mm.length
      · rw [if_pos ⟨by omega, hin⟩, if_neg hlt, if_pos hin, hmm (i - p) (by omega)]
      · have c1 : ¬(p ≤ i ∧ i < p + mm.length) := by omega
        have c2 : p + mm.length ≤ i ∧ i < p + mm.length + (v.size - p) := by omega
        rw [if_neg c1, if_pos c2, hgitem (i - (p + mm.length) + p) (by omega), if_neg hlt,
          if_neg hin]
        congr 1
        omega

lemma erase_spec (p : ℕ) (hv : v.Wf) (hp : p < v.size) :
    (v.erase p h).1.Wf ∧ Splice v h (v.erase p h).1 (v.erase p h).2 p (p + 1) [] := by
  unfold erase
  dsimp only
  set m := v.moveItems p (p + 1) (v.size - (p + 1)) h with hm
  have hmsize : m.1.size = v.size := by simp [m, moveItems]
  have hk : 1 ≤ m.1.size := by omega
  have hmitem : m.1.item m.2 = fun j => if p ≤ j ∧ j < p + (v.size - (p + 1)) then
      v.item h (j - p + (p + 1)) else v.item h j := by
    rw [hm, moveItems, item_modifyItems]
  refine ⟨(hv.modifyItems _ _).subSize hk, ⟨?_, fun i hi => ?_⟩⟩
  · rw [size_subSize hk, hmsize]
    simp
    omega
  · rw [size_subSize hk, hmsize] at hi
    rw [item_subSize _ hk, hmitem]
    dsimp only
    by_cases hlt : i < p
    · have c1 : ¬(p ≤ i ∧ i < p + (v.size - (p + 1))) := by omega
      rw [if_neg c1, if_pos hlt]
    · have c1 : p ≤ i ∧ i < p + (v.size - (p + 1)) := by omega
      have c2 : ¬i < p + ([] : List UInt8).length := by simp; omega
      rw [if_pos c1, if_neg hlt, if_neg c2]
      congr 1

lemma erase_range_spec (first last : ℕ) (hv : v.Wf) (hfl : first ≤ last)
    (hl : last ≤ v.size) :
    (v.erase_range first last h).1.Wf ∧
      Splice v h (v.erase_range first last h).1 (v.erase_range first last h).2 first last [] := by
  unfold erase_range
  dsimp only
  rw [iterate_subSize]
  have hk : last - first ≤ v.size := by omega
  have hwsize : (v.subSize (last - first)).size = v.size - (last - first) := size_subSize hk
  have hwitem : (v.subSize (last - first)).item h = v.item h := item_subSize h hk
  refine ⟨(hv.subSize hk).modifyItems _ _, ⟨?_, fun i hi => ?_⟩⟩
  · rw [moveItems, size_modifyItems, hwsize]
    simp
    omega
  · rw [moveItems, size_modifyItems, hwsize] at hi
    rw [moveItems, item_modifyItems, hwitem]
    by_cases hlt : i < first
    · have c1 : ¬(first ≤ i ∧ i < first + (v.size - last)) := by omega
      rw [if_neg c1, if_pos hlt]
    · have c1 : first ≤ i ∧ i < first + (v.size - last) := by omega
      have c2 : ¬i < first + ([] : List UInt8).length := by simp; omega
      rw [if_pos c1, if_neg hlt, if_neg c2]
      congr 1

lemma reserve_spec (n : ℕ) (hv : v.Wf) (hn32 : n < 2 ^ 32) :
    (v.reserve n h).1.Wf ∧ Splice v h (v.reserve n h).1 (v.reserve n h).2 v.size v.size [] :=
  ⟨hv.reserve h hn32,
    (splice_refl v h).of_keep (size_reserve h hv) (fun _ hi => item_reserve h hv hi)⟩

lemma shrink_to_fit_spec (hv : v.Wf) :
    (v.shrink_to_fit h).1.Wf ∧
      Splice v h (v.shrink_to_fit h).1 (v.shrink_to_fit h).2 v.size v.size [] := by
  -- a size above `N` is the size of a heap vector, below its four-byte capacity
  have hc32 : N < v.size → v.size < 2 ^ 32 := by
    intro hN
    have hd : ¬v.is_direct := fun hd => by
      rw [size_of_direct hd] at hN
      exact absurd hd (by simp only [is_direct]; omega)
    have := hv.size_le_capacity
    rw [capacity_of_not_direct hd] at this
    exact lt_of_le_of_lt this v.unionCapacity_lt
  exact ⟨wf_change_capacity h le_rfl hc32,
    (splice_refl v h).of_keep (size_change_capacity h le_rfl)
      (fun _ hi => item_change_capacity h le_rfl hi)⟩

lemma resize_spec (n : ℕ) (hv : v.Wf) (hn32 : n < 2 ^ 32) :
    (v.resize n h).1.Wf ∧ Splice v h (v.resize n h).1 (v.resize n h).2 (min v.size n) v.size
      (List.replicate (n - v.size) 0) := by
  unfold resize
  dsimp only
  rw [shrinkLoop_eq]
  have hk : v.size - n ≤ v.size := Nat.sub_le _ _
  set s := v.subSize (v.size - n)
  have hswf : s.Wf := hv.subSize hk
  have hssize : s.size = min v.size n := by
    rw [size_subSize hk]
    omega
  have hsp : Splice v h s h (min v.size n) v.size [] :=
    ⟨by simp [hssize], fun i hi => by rw [item_subSize h hk, if_pos (hssize ▸ hi)]⟩
  have hrsp := hsp.of_keep (size_reserve h hswf : (s.reserve n h).1.size = s.size)
    (fun _ hi => item_reserve h hswf hi)
  have hcap : n ≤ (s.reserve n h).1.capacity := by
    rw [capacity_reserve h hswf hn32]
    omega
  refine hrsp.fillLoop (hswf.reserve h hn32) hcap (by omega) _ _ (by simp; omega) ?_
  intro i hi
  simp only [List.length_replicate] at hi
  simp [List.getD_eq_getElem?_getD, hi]

lemma clear_spec (hv : v.Wf) :
    (v.clear h).1.Wf ∧ Splice v h (v.clear h).1 (v.clear h).2 0 v.size [] := by
  unfold clear
  simpa using resize_spec h 0 hv (by norm_num)

lemma assignN_spec (n : ℕ) (val : ℕ → UInt8) (mm : List UInt8) (hlen : mm.length = n)
    (hmm : ∀ i < n, mm.getD i 0 = val i) (hv : v.Wf) (hn32 : n < 2 ^ 32) :
    (v.assignN n val h).1.Wf ∧
      Splice v h (v.assignN n val h).1 (v.assignN n val h).2 0 v.size mm := by
  unfold assignN
  dsimp only
  obtain ⟨hcwf, hcsp⟩ := clear_spec h hv
  set c := v.clear h
  have hcsize : c.1.size = 0 := by simpa using hcsp.size_eq
  have hrsp := hcsp.of_keep (size_reserve c.2 hcwf : (c.1.reserve n c.2).1.size = c.1.size)
    (fun _ hi => item_reserve c.2 hcwf hi)
  have hcap : n ≤ (c.1.reserve n c.2).1.capacity := by
    rw [capacity_reserve c.2 hcwf hn32]
    omega
  exact hrsp.fillLoop (hcwf.reserve c.2 hn32) hcap (Nat.zero_le _) val mm (by omega)
    (fun i hi => by rw [hmm i (by omega), Nat.zero_add])

lemma operator_assign_spec (xs : List UInt8) (hv : v.Wf) (hxs : xs.length < 2 ^ 32) :
    (v.operator_assign xs h).1.Wf ∧
      Splice v h (v.operator_assign xs h).1 (v.operator_assign xs h).2 0 v.size xs := by
  unfold operator_assign
  dsimp only
  obtain ⟨hcwf, hcsp⟩ := resize_spec h 0 hv (by norm_num)
  set c := v.resize 0 h
  have hcsize : c.1.size = 0 := by simpa using hcsp.size_eq
  have hc0 : c.1.size ≤ xs.length := by omega
  have hrsp := hcsp.of_keep (size_change_capacity c.2 hc0)
    (fun _ hi => item_change_capacity c.2 hc0 hi)
  have hcap : xs.length ≤ (c.1.change_capacity xs.length c.2).1.capacity := by
    rw [capacity_change_capacity c.2 hc0 (fun _ => hxs)]
    omega
  simp only [Nat.min_zero, Nat.zero_sub, List.replicate_zero] at hrsp
  exact hrsp.fillLoop (wf_change_capacity c.2 hc0 (fun _ => hxs)) hcap (Nat.zero_le _) _ xs
    (by omega) (fun i _ => by rw [Nat.zero_add])

end members

/-- The copy constructor copies: from any bytes `u`, the new vector holds `xs`. -/
theorem copy_spec (xs : List UInt8) (u : ℕ → UInt8) (h : Heap) (hxs : xs.length < 2 ^ 32) :
    (copy xs u h : Prevector N × Heap).1.Wf ∧
      (copy xs u h : Prevector N × Heap).1.toList (copy xs u h : Prevector N × Heap).2 = xs := by
  set v : Prevector N := ⟨0, u⟩
  have hv0 : v.size = 0 := size_of_direct (Nat.zero_le N)
  have hc0 : v.size ≤ xs.length := by omega
  have hsize := size_change_capacity h hc0
  have hsp : Splice v h (v.change_capacity xs.length h).1 (v.change_capacity xs.length h).2
      0 v.size [] :=
    ⟨by rw [hsize, hv0]; rfl, fun i hi => by rw [hsize, hv0] at hi; omega⟩
  have hcap : xs.length ≤ (v.change_capacity xs.length h).1.capacity := by
    rw [capacity_change_capacity h hc0 (fun _ => hxs)]
    omega
  obtain ⟨hwf, hsp'⟩ := hsp.fillLoop (wf_change_capacity h hc0 (fun _ => hxs)) hcap
    (Nat.zero_le _) _ xs (by omega) (fun i _ => by rw [Nat.zero_add])
  refine ⟨hwf, ?_⟩
  rw [copy, toList_of_splice hsp' (Nat.zero_le _) le_rfl]
  simp [toList, hv0]

/-! ## Runs of operations -/

/-- The operations on one vector. -/
inductive Op where
  | push_back (value : UInt8)
  | pop_back
  | insert (pos : ℕ) (value : UInt8)
  | insert_count (pos count : ℕ) (value : UInt8)
  | insert_range (pos : ℕ) (xs : List UInt8)
  | erase (pos : ℕ)
  | erase_range (first last : ℕ)
  | resize (n : ℕ)
  | reserve (n : ℕ)
  | shrink_to_fit
  | clear
  | assign (n : ℕ) (value : UInt8)
  | assign_range (xs : List UInt8)
  | operator_assign (xs : List UInt8)
  deriving DecidableEq, Repr

namespace Op

/-- The model: the operation on the vector `v` over the heap `h`. -/
def step : Op → Prevector N → Heap → Prevector N × Heap
  | .push_back x, v, h => v.push_back x h
  | .pop_back, v, h => (v.pop_back, h)
  | .insert p x, v, h => v.insert p x h
  | .insert_count p c x, v, h => v.insert_count p c x h
  | .insert_range p xs, v, h => v.insert_range p xs h
  | .erase p, v, h => v.erase p h
  | .erase_range f t, v, h => v.erase_range f t h
  | .resize n, v, h => v.resize n h
  | .reserve n, v, h => v.reserve n h
  | .shrink_to_fit, v, h => v.shrink_to_fit h
  | .clear, v, h => v.clear h
  | .assign n x, v, h => v.assign n x h
  | .assign_range xs, v, h => v.assign_range xs h
  | .operator_assign xs, v, h => v.operator_assign xs h

/-- What the operation does to the elements of a `std::vector<unsigned char>`. -/
def vector : Op → List UInt8 → List UInt8
  | .push_back x, l => l ++ [x]
  | .pop_back, l => l.dropLast
  | .insert p x, l => l.take p ++ x :: l.drop p
  | .insert_count p c x, l => l.take p ++ List.replicate c x ++ l.drop p
  | .insert_range p xs, l => l.take p ++ xs ++ l.drop p
  | .erase p, l => l.take p ++ l.drop (p + 1)
  | .erase_range f t, l => l.take f ++ l.drop t
  | .resize n, l => l.take n ++ List.replicate (n - l.length) 0
  | .reserve _, l => l
  | .shrink_to_fit, l => l
  | .clear, _ => []
  | .assign n x, _ => List.replicate n x
  | .assign_range xs, _ => xs
  | .operator_assign xs, _ => xs

/-- The preconditions of the operation on the elements `l`: positions inside the vector, an
element to pop, and sizes whose growth by half stays below the four bytes of `capacity`. -/
def Valid : Op → List UInt8 → Prop
  | .push_back _, l => l.length + 1 < 2 ^ 31
  | .pop_back, l => l ≠ []
  | .insert p _, l => p ≤ l.length ∧ l.length + 1 < 2 ^ 31
  | .insert_count p c _, l => p ≤ l.length ∧ l.length + c < 2 ^ 31
  | .insert_range p xs, l => p ≤ l.length ∧ l.length + xs.length < 2 ^ 31
  | .erase p, l => p < l.length
  | .erase_range f t, l => f ≤ t ∧ t ≤ l.length
  | .resize n, _ => n < 2 ^ 32
  | .reserve n, _ => n < 2 ^ 32
  | .shrink_to_fit, _ => True
  | .clear, _ => True
  | .assign n _, _ => n < 2 ^ 32
  | .assign_range xs, _ => xs.length < 2 ^ 32
  | .operator_assign xs, _ => xs.length < 2 ^ 32

instance (o : Op) (l : List UInt8) : Decidable (o.Valid l) := by
  cases o <;> unfold Valid <;> infer_instance

/-- **One operation refines `std::vector`.** From a well-formed vector, a valid operation
leaves a well-formed vector whose elements are what `std::vector` holds after it. -/
theorem step_refines (o : Op) {v : Prevector N} {h : Heap} (hv : v.Wf)
    (ho : o.Valid (v.toList h)) :
    (o.step v h).1.Wf ∧ (o.step v h).1.toList (o.step v h).2 = o.vector (v.toList h) := by
  have hlen := length_toList h v
  cases o with
  | push_back x =>
    obtain ⟨hwf, hsp⟩ := push_back_spec h x hv (by simpa [Valid] using ho)
    refine ⟨hwf, ?_⟩
    rw [step, toList_of_splice hsp le_rfl le_rfl, vector, ← hlen, List.take_length,
      List.drop_length, List.append_nil]
  | pop_back =>
    have hp : 0 < v.size := by
      rw [← hlen]
      exact List.length_pos_of_ne_nil ho
    obtain ⟨hwf, hsp⟩ := pop_back_spec h hv hp
    refine ⟨hwf, ?_⟩
    rw [step, toList_of_splice hsp (Nat.sub_le _ _) le_rfl, vector, List.dropLast_eq_take,
      hlen, ← hlen, List.drop_length]
    simp
  | insert p x =>
    obtain ⟨hp, hb⟩ := ho
    obtain ⟨hwf, hsp⟩ := insert_spec h p x hv (by omega) (by omega)
    refine ⟨hwf, ?_⟩
    rw [step, toList_of_splice hsp le_rfl (by omega), vector]
    simp
  | insert_count p c x =>
    obtain ⟨hp, hb⟩ := ho
    have hspec := insertN_spec h p (fun _ => x) (List.replicate c x)
      (fun i hi => by simp at hi; simp [List.getD_eq_getElem?_getD, hi]) hv (by omega)
      (by simp; omega)
    rw [List.length_replicate] at hspec
    obtain ⟨hwf, hsp⟩ := hspec
    refine ⟨hwf, ?_⟩
    rw [step, Prevector.insert_count, toList_of_splice hsp le_rfl (by omega), vector]
  | insert_range p xs =>
    obtain ⟨hp, hb⟩ := ho
    obtain ⟨hwf, hsp⟩ := insertN_spec h p (fun i => xs.getD i 0) xs (fun _ _ => rfl) hv
      (by omega) (by omega)
    refine ⟨hwf, ?_⟩
    rw [step, Prevector.insert_range, toList_of_splice hsp le_rfl (by omega), vector]
  | erase p =>
    obtain ⟨hwf, hsp⟩ := erase_spec h p hv (by simp only [Valid] at ho; omega)
    refine ⟨hwf, ?_⟩
    rw [step, toList_of_splice hsp (Nat.le_succ p) (by simp only [Valid] at ho; omega), vector,
      List.append_nil]
  | erase_range f t =>
    obtain ⟨hft, ht⟩ := ho
    obtain ⟨hwf, hsp⟩ := erase_range_spec h f t hv hft (by omega)
    refine ⟨hwf, ?_⟩
    rw [step, toList_of_splice hsp hft (by omega), vector, List.append_nil]
  | resize n =>
    obtain ⟨hwf, hsp⟩ := resize_spec h n hv ho
    refine ⟨hwf, ?_⟩
    rw [step, toList_of_splice hsp (Nat.min_le_left _ _) le_rfl, vector, ← hlen,
      List.drop_length, List.append_nil, Nat.min_comm, ← List.take_take, List.take_length]
  | reserve n =>
    obtain ⟨hwf, hsp⟩ := reserve_spec h n hv ho
    refine ⟨hwf, ?_⟩
    rw [step, toList_of_splice hsp le_rfl le_rfl, vector, ← hlen, List.take_length,
      List.drop_length]
    simp
  | shrink_to_fit =>
    obtain ⟨hwf, hsp⟩ := shrink_to_fit_spec h hv
    refine ⟨hwf, ?_⟩
    rw [step, toList_of_splice hsp le_rfl le_rfl, vector, ← hlen, List.take_length,
      List.drop_length]
    simp
  | clear =>
    obtain ⟨hwf, hsp⟩ := clear_spec h hv
    refine ⟨hwf, ?_⟩
    rw [step, toList_of_splice hsp (Nat.zero_le _) le_rfl, vector, ← hlen, List.drop_length]
    simp
  | assign n x =>
    obtain ⟨hwf, hsp⟩ := assignN_spec h n (fun _ => x) (List.replicate n x) (by simp)
      (fun i hi => by simp [List.getD_eq_getElem?_getD, hi]) hv ho
    refine ⟨hwf, ?_⟩
    rw [step, Prevector.assign, toList_of_splice hsp (Nat.zero_le _) le_rfl, vector, ← hlen,
      List.drop_length]
    simp
  | assign_range xs =>
    obtain ⟨hwf, hsp⟩ := assignN_spec h xs.length (fun i => xs.getD i 0) xs rfl
      (fun _ _ => rfl) hv ho
    refine ⟨hwf, ?_⟩
    rw [step, Prevector.assign_range, toList_of_splice hsp (Nat.zero_le _) le_rfl, vector, ← hlen,
      List.drop_length]
    simp
  | operator_assign xs =>
    obtain ⟨hwf, hsp⟩ := operator_assign_spec h xs hv ho
    refine ⟨hwf, ?_⟩
    rw [step, toList_of_splice hsp (Nat.zero_le _) le_rfl, vector, ← hlen, List.drop_length]
    simp

end Op

/-- A run of operations on one vector. -/
def run : List Op → Prevector N → Heap → Prevector N × Heap
  | [], v, h => (v, h)
  | o :: os, v, h => run os (o.step v h).1 (o.step v h).2

/-- Each operation of the run is valid on what `std::vector` holds before it. -/
def ValidRun : List Op → List UInt8 → Prop
  | [], _ => True
  | o :: os, l => o.Valid l ∧ ValidRun os (o.vector l)

instance : ∀ (ops : List Op) (l : List UInt8), Decidable (ValidRun ops l)
  | [], _ => isTrue trivial
  | o :: os, l =>
    have := (inferInstance : Decidable (o.Valid l))
    have : Decidable (ValidRun os (o.vector l)) := instDecidableValidRun os (o.vector l)
    inferInstanceAs (Decidable (o.Valid l ∧ ValidRun os (o.vector l)))

/-- **Every run refines `std::vector`.** From a well-formed vector, a run of valid operations
keeps the invariant (so `size() <= capacity()`, and the vector is in place exactly when
`capacity() == N`) and ends with the elements `std::vector` ends with. -/
theorem run_refines (ops : List Op) {v : Prevector N} {h : Heap} (hv : v.Wf)
    (hops : ValidRun ops (v.toList h)) :
    (run ops v h).1.Wf ∧
      (run ops v h).1.toList (run ops v h).2 = ops.foldl (fun l o => o.vector l) (v.toList h) := by
  induction ops generalizing v h with
  | nil => exact ⟨hv, rfl⟩
  | cons o os ih =>
    obtain ⟨ho, hos⟩ := hops
    obtain ⟨hwf, hl⟩ := o.step_refines hv ho
    rw [run, List.foldl_cons, ← hl]
    exact ih hwf (hl ▸ hos)

/-! ## `swap` -/

/-- The test of `swap` is that both sizes are odd. -/
lemma and_and_one_ne_zero_iff (a b : ℕ) : a &&& b &&& 1 ≠ 0 ↔ a % 2 = 1 ∧ b % 2 = 1 := by
  have hbit : ∀ x : ℕ, x % 2 = 1 ↔ x.testBit 0 = true := by
    intro x
    simp [Nat.testBit_zero]
  rw [Nat.and_one_is_mod, Nat.mod_two_ne_zero, hbit, hbit, hbit, Nat.testBit_and,
    Bool.and_eq_true]

lemma readBytes_congr {u u' : ℕ → UInt8} {off w : ℕ}
    (hu : ∀ i < w, u (off + i) = u' (off + i)) :
    readBytes u off w = readBytes u' off w :=
  List.map_congr_left fun i hi => hu i (List.mem_range.1 hi)

/-- A heap vector over a union whose first twelve bytes are those of `v` reads as `v`: its
`capacity` and `indirect` are those of `v`. -/
lemma heap_reads_of_twelve {v w : Prevector N} (hs : w._size = v._size) (hd : ¬v.is_direct)
    (hu : ∀ i < 12, w._union i = v._union i) (h : Heap) :
    w.size = v.size ∧ w.capacity = v.capacity ∧ w.item h = v.item h ∧
      w.unionCapacity = v.unionCapacity := by
  have hd' : ¬w.is_direct := by simpa [is_direct, hs] using hd
  have hcap : w.unionCapacity = v.unionCapacity := by
    rw [unionCapacity, unionCapacity, readBytes_congr (fun i hi => hu _ (by omega))]
  have hind : w.unionIndirect = v.unionIndirect := by
    rw [unionIndirect, unionIndirect, readBytes_congr (fun i hi => hu _ (by omega))]
  refine ⟨?_, ?_, ?_, hcap⟩
  · rw [size_of_not_direct hd', size_of_not_direct hd, hs]
  · rw [capacity_of_not_direct hd', capacity_of_not_direct hd, hcap]
  · rw [item_of_not_direct _ hd', item_of_not_direct _ hd, hind]

/-- **`swap` when both sizes are odd and the first vector is in place.** The second vector
takes the first's size and its first twelve bytes, and keeps its own bytes after them. -/
theorem swap_odd_direct (h : Heap) (a b : Prevector N) (ha : a._size ≤ N)
    (hodd_a : a._size % 2 = 1) (hodd_b : b._size % 2 = 1) :
    (swap a b).2.toList h =
      (List.range a._size).map fun i => if i < 12 then a._union i else b._union i := by
  rw [swap, if_pos ((and_and_one_ne_zero_iff _ _).2 ⟨hodd_a, hodd_b⟩)]
  have hdirect : (⟨a._size, fun i => if i < 12 then a._union i else b._union i⟩ :
      Prevector N).is_direct := ha
  rw [toList, size_of_direct hdirect, item_of_direct h hdirect]

/-- **`swap` exchanges the elements** of two well-formed vectors unless both sizes are odd,
and also when both vectors are on the heap: then the twelve bytes it exchanges are all of
their `capacity` and `indirect`. -/
theorem swap_exchanges (h : Heap) {a b : Prevector N} (ha : a.Wf) (hb : b.Wf)
    (hcond : ¬(a._size % 2 = 1 ∧ b._size % 2 = 1) ∨ (¬a.is_direct ∧ ¬b.is_direct)) :
    (swap a b).1.Wf ∧ (swap a b).2.Wf ∧
      (swap a b).1.toList h = b.toList h ∧ (swap a b).2.toList h = a.toList h := by
  rw [swap]
  split_ifs with hodd
  · rw [and_and_one_ne_zero_iff] at hodd
    obtain ⟨hda, hdb⟩ := hcond.resolve_left (not_not.2 hodd)
    obtain ⟨hs1, hc1, hi1, hu1⟩ := heap_reads_of_twelve (v := b)
      (w := ⟨b._size, fun i => if i < 12 then b._union i else a._union i⟩) rfl hdb
      (fun i hi => if_pos hi) h
    obtain ⟨hs2, hc2, hi2, hu2⟩ := heap_reads_of_twelve (v := a)
      (w := ⟨a._size, fun i => if i < 12 then a._union i else b._union i⟩) rfl hda
      (fun i hi => if_pos hi) h
    refine ⟨⟨?_, fun _ => ?_⟩, ⟨?_, fun _ => ?_⟩, ?_, ?_⟩
    · rw [hs1, hc1]
      exact hb.size_le_capacity
    · rw [hu1]
      exact hb.capacity_gt hdb
    · rw [hs2, hc2]
      exact ha.size_le_capacity
    · rw [hu2]
      exact ha.capacity_gt hda
    · rw [toList, toList, hs1, hi1]
    · rw [toList, toList, hs2, hi2]
  · exact ⟨hb, ha, rfl, rfl⟩

/-- The heap of the examples below: every byte zero, nothing allocated. -/
def heap0 : Heap := ⟨fun _ _ => 0, 0⟩

/-- An empty script vector over zero bytes. -/
def emptyScript : Prevector 28 := ⟨0, fun _ => 0⟩

/-- A script vector holding thirteen bytes `1`, pushed one by one into an empty one. -/
def thirteenOnes : Prevector 28 := (run (List.replicate 13 (Op.push_back 1)) emptyScript heap0).1

/-- A script vector holding the one byte `2`. -/
def oneTwo : Prevector 28 := (run [Op.push_back 2] emptyScript heap0).1

set_option maxRecDepth 4000 in
/-- Swapping two scripts of thirteen and one bytes leaves the second with twelve of the first
one's bytes and a byte `0` that was never in it. -/
theorem swap_odd_direct_scripts :
    (swap thirteenOnes oneTwo).2.toList heap0 ≠ thirteenOnes.toList heap0 := by
  rw [swap_odd_direct heap0 thirteenOnes oneTwo (by decide) (by decide) (by decide)]
  decide

/-- Thirty bytes `5` inserted into an empty script vector, which moves it to the heap. -/
def thirtyFives : Prevector 28 × Heap := run [Op.insert_count 0 30 5] emptyScript heap0

/-- Thirty-two bytes `6` inserted into another, on the heap the first left. -/
def thirtyTwoSixes : Prevector 28 × Heap :=
  run [Op.insert_count 0 32 6] emptyScript thirtyFives.2

set_option maxRecDepth 4000 in
/-- Two heap scripts whose `_size` are both odd (`30 + 29` and `32 + 29`) are exchanged
whole: the twelve bytes `swap` exchanges are their `capacity` and `indirect`. -/
theorem swap_exchanges_heap_scripts :
    (swap thirtyFives.1 thirtyTwoSixes.1).1.Wf ∧ (swap thirtyFives.1 thirtyTwoSixes.1).2.Wf ∧
      (swap thirtyFives.1 thirtyTwoSixes.1).1.toList thirtyTwoSixes.2 =
        thirtyTwoSixes.1.toList thirtyTwoSixes.2 ∧
      (swap thirtyFives.1 thirtyTwoSixes.1).2.toList thirtyTwoSixes.2 =
        thirtyFives.1.toList thirtyTwoSixes.2 :=
  swap_exchanges thirtyTwoSixes.2 (by decide) (by decide) (Or.inr ⟨by decide, by decide⟩)

/-- A run that moves a script vector to the heap and back: thirty bytes `7` inserted, one
pushed, the first erased, the rest cut to twenty, and the capacity shrunk to fit. -/
def toHeapAndBack : List Op :=
  [Op.insert_count 0 30 7, Op.push_back 1, Op.erase 0, Op.resize 20, Op.shrink_to_fit]

theorem run_refines_to_heap_and_back :
    (run toHeapAndBack emptyScript heap0).1.Wf ∧
      (run toHeapAndBack emptyScript heap0).1.toList (run toHeapAndBack emptyScript heap0).2 =
        toHeapAndBack.foldl (fun l o => o.vector l) (emptyScript.toList heap0) :=
  run_refines _ (by decide) (by decide)

end Prevector

end MvfBu
