import Mathlib

set_option autoImplicit false

/-!
# What a worklist search reaches

A graph given by the finite set of successors of each node, `next : ι → Finset ι`, and a
finite set of roots. `Reach next roots a` says that `a` is reached from a root in any number
of steps, the root itself included; over a finite type the reached nodes form the finite set
`reachFinset next roots`.

A worklist search keeps the nodes it has finished and those it has still to visit. When the
roots are among the finished nodes and so are the successors of every finished node, every
node reached is finished (`Reach.mem_of_closed`); when moreover every finished node is
reached, the finished nodes are exactly the reached ones (`eq_reachFinset`). This is how a
search ends: with nothing left to visit, the invariant of the search says both.

## Main definitions

* `Reach next roots a` — `a` is reached from `roots` along `next`.
* `reachFinset next roots` — the reached nodes, over a finite type.

## Main results

* `Reach.mem_of_closed` — a set closed under `next` that holds the roots holds every node
  reached.
* `eq_reachFinset` — a closed set of reached nodes that holds the roots is the reached set.
-/

variable {ι : Type*} (next : ι → Finset ι)

/-- `a` is reached from one of `roots` in some number of steps along `next`. -/
def Reach (roots : Finset ι) (a : ι) : Prop :=
  ∃ r ∈ roots, Relation.ReflTransGen (fun x y => y ∈ next x) r a

namespace Reach

variable {next} {roots S : Finset ι} {a b : ι}

lemma of_mem (h : a ∈ roots) : Reach next roots a := ⟨a, h, .refl⟩

/-- A successor of a reached node is reached. -/
lemma tail (h : Reach next roots a) (hb : b ∈ next a) : Reach next roots b := by
  obtain ⟨r, hr, hra⟩ := h
  exact ⟨r, hr, hra.tail hb⟩

/-- **A closed set holds everything reached.** A set that holds the roots and the successors
of each of its nodes holds every node reached.

**Proof sketch.** Induction along the path from the root. -/
lemma mem_of_closed (hroots : roots ⊆ S) (hclosed : ∀ s ∈ S, next s ⊆ S)
    (h : Reach next roots a) : a ∈ S := by
  obtain ⟨r, hr, hra⟩ := h
  induction hra with
  | refl => exact hroots hr
  | tail _ hbc ih => exact hclosed _ ih hbc

end Reach

section Finite

variable [Fintype ι] {roots S : Finset ι} {a : ι}

/-- The nodes reached from `roots`. -/
noncomputable def reachFinset (roots : Finset ι) : Finset ι := by
  classical
  exact Finset.univ.filter (Reach next roots)

@[simp] lemma mem_reachFinset : a ∈ reachFinset next roots ↔ Reach next roots a := by
  simp [reachFinset]

lemma subset_reachFinset : roots ⊆ reachFinset next roots :=
  fun _ h => (mem_reachFinset next).2 (Reach.of_mem h)

/-- Nothing is reached from no root. -/
@[simp] lemma reachFinset_empty : reachFinset next (∅ : Finset ι) = ∅ :=
  Finset.eq_empty_of_forall_notMem fun _ ha => by
    obtain ⟨r, hr, -⟩ := (mem_reachFinset next).1 ha
    exact Finset.notMem_empty r hr

/-- The reached set is closed under `next`. -/
lemma next_subset_reachFinset (h : a ∈ reachFinset next roots) :
    next a ⊆ reachFinset next roots :=
  fun _ hb => (mem_reachFinset next).2 (((mem_reachFinset next).1 h).tail hb)

/-- **The end of a worklist search.** A set of reached nodes that holds the roots and is
closed under `next` is the reached set. -/
lemma eq_reachFinset (hsub : S ⊆ reachFinset next roots) (hroots : roots ⊆ S)
    (hclosed : ∀ s ∈ S, next s ⊆ S) : S = reachFinset next roots :=
  Finset.Subset.antisymm hsub fun _ ha =>
    Reach.mem_of_closed hroots hclosed ((mem_reachFinset next).1 ha)

end Finite
