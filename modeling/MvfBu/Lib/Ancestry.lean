import Mathlib.Logic.Function.Basic
import Mathlib.Order.Basic

set_option autoImplicit false

/-!
# Ancestors along parent pointers

A forest given by a partial parent function `parent : ι → Option ι`, with a height on the
nodes that goes up by one from a parent to its child and is zero at a root. The `k`-th
ancestor of a node is what `k` steps along `parent` reach. In such a graded forest the
ancestors of a node are exactly one node at each height from its own down to zero, and a
node of height `h` is reached in exactly `h` steps from a descendant `h` levels up.

## Main definitions

* `Ancestry.ancestor parent b k` — the node `k` steps up from `b`, `none` past a root.
* `Ancestry.Graded parent height` — heights go up by one from parent to child.
* `Ancestry.IsAncestor parent a b` — `a` is reached from `b` in some number of steps.
* `Ancestry.IsLastCommonAncestor parent a b q` — the deepest ancestor `b` and `q` share.

## Main results

* `Ancestry.ancestor_add` — `j + k` steps are `j` steps and then `k`.
* `Ancestry.Graded.height_ancestor`, `Ancestry.Graded.exists_ancestor` — in a graded forest,
  `k` steps up from `b` reach a node exactly when `k ≤ height b`, and it has height
  `height b - k`.
* `Ancestry.Graded.isAncestor_iff` — an ancestor is the one at its height.
* `Ancestry.ancestor_update`, `Ancestry.Graded.update` — pointing a node nothing points to
  at a new parent changes no other node's ancestors and keeps the forest graded.
-/

namespace Ancestry

variable {ι : Type*}

/-- The ancestor `k` steps up from `b`: follow `parent` `k` times; `none` once past a root. -/
def ancestor (parent : ι → Option ι) (b : ι) : ℕ → Option ι
  | 0 => some b
  | k + 1 => (parent b).bind fun p => ancestor parent p k

/-- `a` is an ancestor of `b`, `b` itself included. -/
def IsAncestor (parent : ι → Option ι) (a b : ι) : Prop := ∃ k, ancestor parent b k = some a

/-- `a` is the last common ancestor of `b` and `q`: an ancestor of both, and every other common
ancestor is an ancestor of `a`. -/
def IsLastCommonAncestor (parent : ι → Option ι) (a b q : ι) : Prop :=
  IsAncestor parent a b ∧ IsAncestor parent a q ∧
    ∀ d, IsAncestor parent d b → IsAncestor parent d q → IsAncestor parent d a

/-- Heights along parent pointers: a child is one above its parent, a root is at zero. -/
structure Graded (parent : ι → Option ι) (height : ι → ℕ) : Prop where
  height_parent : ∀ {b p : ι}, parent b = some p → height b = height p + 1
  height_root : ∀ {b : ι}, parent b = none → height b = 0

section Steps

variable (parent : ι → Option ι)

@[simp] theorem ancestor_zero (b : ι) : ancestor parent b 0 = some b := rfl

theorem ancestor_succ (b : ι) (k : ℕ) :
    ancestor parent b (k + 1) = (parent b).bind fun p => ancestor parent p k := rfl

theorem ancestor_of_parent {b p : ι} (h : parent b = some p) (k : ℕ) :
    ancestor parent b (k + 1) = ancestor parent p k := by
  rw [ancestor_succ, h, Option.bind_some]

theorem ancestor_of_root {b : ι} (h : parent b = none) (k : ℕ) :
    ancestor parent b (k + 1) = none := by
  rw [ancestor_succ, h, Option.bind_none]

@[simp] theorem ancestor_one (b : ι) : ancestor parent b 1 = parent b := by
  cases h : parent b with
  | none => exact ancestor_of_root parent h 0
  | some p => rw [ancestor_of_parent parent h]; rfl

/-- `j + k` steps up are `j` steps and then `k` more. -/
theorem ancestor_add (b : ι) (j k : ℕ) :
    ancestor parent b (j + k) = (ancestor parent b j).bind fun a => ancestor parent a k := by
  induction j generalizing b with
  | zero => rw [Nat.zero_add, ancestor_zero, Option.bind_some]
  | succ j ih =>
    rw [Nat.succ_add]
    cases h : parent b with
    | none => rw [ancestor_of_root parent h, ancestor_of_root parent h, Option.bind_none]
    | some p => rw [ancestor_of_parent parent h, ancestor_of_parent parent h, ih]

/-- One more step is one step from the last node. -/
theorem ancestor_succ' (b : ι) (k : ℕ) :
    ancestor parent b (k + 1) = (ancestor parent b k).bind parent := by
  rw [ancestor_add, funext (ancestor_one parent)]

theorem ancestor_trans {a b c : ι} {j k : ℕ} (hab : ancestor parent b j = some a)
    (hbc : ancestor parent c k = some b) : ancestor parent c (k + j) = some a := by
  rw [ancestor_add, hbc, Option.bind_some, hab]

/-- Past an ancestor `a` found `j` steps up, the walk goes on from `a`. -/
theorem ancestor_add_of_eq {a b : ι} {j : ℕ} (h : ancestor parent b j = some a) (k : ℕ) :
    ancestor parent b (j + k) = ancestor parent a k := by
  rw [ancestor_add, h, Option.bind_some]

theorem IsAncestor.refl (b : ι) : IsAncestor parent b b := ⟨0, rfl⟩

end Steps

section Relation

variable {parent : ι → Option ι}

theorem IsAncestor.trans {a b c : ι} (hab : IsAncestor parent a b) (hbc : IsAncestor parent b c) :
    IsAncestor parent a c := by
  obtain ⟨j, hj⟩ := hab
  obtain ⟨k, hk⟩ := hbc
  exact ⟨k + j, ancestor_trans _ hj hk⟩

theorem isAncestor_of_parent {x y : ι} (h : parent x = some y) : IsAncestor parent y x :=
  ⟨1, by rw [ancestor_one, h]⟩

/-- An ancestor of `x` other than `x` is an ancestor of its parent. -/
theorem IsAncestor.of_parent {d x y : ι} (hd : IsAncestor parent d x) (h : parent x = some y)
    (hne : d ≠ x) : IsAncestor parent d y := by
  obtain ⟨k, hk⟩ := hd
  cases k with
  | zero => exact absurd (Option.some_inj.mp hk).symm hne
  | succ k =>
    rw [ancestor_of_parent parent h] at hk
    exact ⟨k, hk⟩

/-- A root is its only ancestor. -/
theorem IsAncestor.eq_of_root {d x : ι} (hd : IsAncestor parent d x) (h : parent x = none) :
    d = x := by
  obtain ⟨k, hk⟩ := hd
  cases k with
  | zero => exact (Option.some_inj.mp hk).symm
  | succ k =>
    rw [ancestor_of_root parent h] at hk
    cases hk

end Relation

namespace Graded

variable {parent : ι → Option ι} {height : ι → ℕ} (hg : Graded parent height)
include hg

/-- A node above height zero has a parent. -/
theorem exists_parent {b : ι} (hb : 0 < height b) : ∃ p, parent b = some p := by
  cases h : parent b with
  | none => exact absurd (hg.height_root h) (Nat.pos_iff_ne_zero.mp hb)
  | some p => exact ⟨p, rfl⟩

/-- `k` steps up from `b` lose `k` of height. -/
theorem height_ancestor {b a : ι} {k : ℕ} (h : ancestor parent b k = some a) :
    height a + k = height b := by
  induction k generalizing b with
  | zero =>
    rw [ancestor_zero, Option.some_inj] at h
    rw [h, Nat.add_zero]
  | succ k ih =>
    cases hp : parent b with
    | none => rw [ancestor_of_root parent hp] at h; cases h
    | some p =>
      rw [ancestor_of_parent parent hp] at h
      rw [hg.height_parent hp, ← ih h]
      omega

theorem ancestor_eq_none {b : ι} {k : ℕ} (hk : height b < k) : ancestor parent b k = none := by
  cases h : ancestor parent b k with
  | none => rfl
  | some a =>
    have := hg.height_ancestor h
    omega

/-- Up to the height of `b`, every number of steps reaches a node. -/
theorem exists_ancestor {b : ι} {k : ℕ} (hk : k ≤ height b) :
    ∃ a, ancestor parent b k = some a := by
  induction k generalizing b with
  | zero => exact ⟨b, rfl⟩
  | succ k ih =>
    obtain ⟨p, hp⟩ := hg.exists_parent (b := b) (by omega)
    rw [ancestor_of_parent parent hp]
    exact ih (by rw [hg.height_parent hp] at hk; omega)

/-- An ancestor of `b` is the one `height b - height a` steps up. -/
theorem isAncestor_iff {a b : ι} :
    IsAncestor parent a b ↔ height a ≤ height b ∧ ancestor parent b (height b - height a) = some a := by
  constructor
  · rintro ⟨k, hk⟩
    have hh := hg.height_ancestor hk
    have hk' : height b - height a = k := by omega
    exact ⟨by omega, hk' ▸ hk⟩
  · rintro ⟨-, h⟩
    exact ⟨_, h⟩

/-- Two ancestors of `b` at one height are one node. -/
theorem eq_of_isAncestor {a a' b : ι} (ha : IsAncestor parent a b) (ha' : IsAncestor parent a' b)
    (hh : height a = height a') : a = a' := by
  rw [hg.isAncestor_iff] at ha ha'
  rw [hh] at ha
  exact Option.some_inj.mp (ha.2.symm.trans ha'.2)

/-- The ancestors of `b` are ordered by height: the lower of two is an ancestor of the other. -/
theorem isAncestor_of_le {a a' b : ι} (ha : IsAncestor parent a b) (ha' : IsAncestor parent a' b)
    (hh : height a ≤ height a') : IsAncestor parent a a' := by
  rw [hg.isAncestor_iff] at ha ha'
  have hsplit : height b - height a = (height b - height a') + (height a' - height a) := by omega
  rw [hsplit, ancestor_add, ha'.2, Option.bind_some] at ha
  exact ⟨_, ha.2⟩

end Graded

section Update

variable [DecidableEq ι] {parent : ι → Option ι} {n : ι}

/-- A node that nothing points to can be given a new parent without changing the ancestors of
any other node. -/
theorem ancestor_update (hn : ∀ x, parent x ≠ some n) (v : Option ι) {b : ι} (hb : b ≠ n)
    (k : ℕ) : ancestor (Function.update parent n v) b k = ancestor parent b k := by
  induction k generalizing b with
  | zero => rfl
  | succ k ih =>
    rw [ancestor_succ, ancestor_succ, Function.update_of_ne hb]
    cases hp : parent b with
    | none => rfl
    | some p =>
      have hpn : p ≠ n := fun h => hn b (h ▸ hp)
      exact ih hpn

/-- The new parent's ancestors are those of the new node past one step. -/
theorem ancestor_update_self (hn : ∀ x, parent x ≠ some n) {p : ι} (hp : p ≠ n) (k : ℕ) :
    ancestor (Function.update parent n (some p)) n (k + 1) = ancestor parent p k := by
  rw [ancestor_of_parent _ (Function.update_self n (some p) parent), ancestor_update hn _ hp]

/-- A node that nothing points to, given a parent other than itself (or none), with the height
the parent gives it, keeps the forest graded. -/
theorem Graded.update {height : ι → ℕ} (hg : Graded parent height) (hn : ∀ x, parent x ≠ some n)
    (v : Option ι) (hv : v ≠ some n) :
    Graded (Function.update parent n v)
      (Function.update height n (match v with | some p => height p + 1 | none => 0)) := by
  constructor
  · intro b p hbp
    by_cases hb : b = n
    · subst hb
      rw [Function.update_self] at hbp
      subst hbp
      have hp : p ≠ b := fun h => hv (h ▸ rfl)
      rw [Function.update_self, Function.update_of_ne hp]
    · rw [Function.update_of_ne hb] at hbp ⊢
      have hp : p ≠ n := fun h => hn b (h ▸ hbp)
      rw [Function.update_of_ne hp, hg.height_parent hbp]
  · intro b hbp
    by_cases hb : b = n
    · subst hb
      rw [Function.update_self] at hbp
      subst hbp
      rw [Function.update_self]
    · rw [Function.update_of_ne hb] at hbp ⊢
      exact hg.height_root hbp

end Update

end Ancestry
