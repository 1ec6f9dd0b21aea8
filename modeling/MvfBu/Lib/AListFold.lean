import Mathlib.Data.List.AList
import Mathlib.Algebra.GroupWithZero.Nat

set_option autoImplicit false

/-!
# Sums and folds over association lists

The sum of a function of an `AList`'s values and how `insert` and `erase` change it, and the
rule for a fold over an `AList` whose step at a key changes what is seen at that key only:
after the fold each key shows the step applied once to what it showed before, when the key is
in the list, and what it showed before otherwise. Maps of software keyed by hashes are
`AList`s here, their write-back loops such folds, and their memory counters such sums.

## Main definitions

* `AList.sumValues` — the sum of a function of the values.

## Main results

* `AList.sumValues_eq_erase_add`, `AList.sumValues_insert` — a key's share of the sum.
* `AList.foldl_observe` — a fold whose steps act key by key, seen at one key.
* `AList.foldl_invariant` — what every step preserves, the fold preserves.
-/

namespace AList

variable {α V : Type} [DecidableEq α]

section Sum

variable (f : V → ℕ)

/-- The sum of `f` over the values of `s`. -/
def sumValues (s : AList fun _ : α => V) : ℕ := (s.entries.map fun e => f e.2).sum

omit [DecidableEq α] in
@[simp] theorem sumValues_empty : sumValues f (∅ : AList fun _ : α => V) = 0 := rfl

/-- The first entry of a key is its share of a list's sum. -/
theorem sum_map_eq_kerase_add (a : α) : ∀ l : List (Σ _ : α, V),
    (l.map fun e => f e.2).sum =
      ((l.kerase a).map fun e => f e.2).sum + ((l.dlookup a).map f).getD 0
  | [] => by simp
  | ⟨a', b⟩ :: l => by
    by_cases h : a = a'
    · subst h
      have hk : (⟨a, b⟩ :: l : List (Σ _ : α, V)).kerase a = l := List.kerase_cons_eq rfl
      rw [hk, List.dlookup_cons_eq]
      simp [Nat.add_comm]
    · rw [List.kerase_cons_ne h, List.dlookup_cons_ne l _ h, List.map_cons, List.map_cons,
        List.sum_cons, List.sum_cons, sum_map_eq_kerase_add a l]
      omega

/-- **A key's share of the sum.** The sum is the sum without the key plus its value's. -/
theorem sumValues_eq_erase_add (s : AList fun _ : α => V) (a : α) :
    sumValues f s = sumValues f (s.erase a) + ((s.lookup a).map f).getD 0 :=
  sum_map_eq_kerase_add f a s.entries

theorem sumValues_insert (s : AList fun _ : α => V) (a : α) (b : V) :
    sumValues f (s.insert a b) = sumValues f (s.erase a) + f b := by
  rw [sumValues, entries_insert, List.map_cons, List.sum_cons, Nat.add_comm]
  rfl

/-- Erasing a key that is not there changes no sum. -/
theorem sumValues_erase_of_lookup_eq_none {s : AList fun _ : α => V} {a : α}
    (h : s.lookup a = none) : sumValues f (s.erase a) = sumValues f s := by
  rw [sumValues_eq_erase_add f s a, h]
  rfl

end Sum

section Fold

variable {σ γ : Type}

/-- **A fold acting key by key.** When each step at key `a` changes what `observe` shows at
`a` by `update a` and nothing else, after the fold a key of the list shows `update` of what it
showed before with its value, and any other key what it showed before.

**Proof sketch.** Induction on the entries: the keys are distinct, so the step at the head's
key is the only one that key meets. -/
theorem foldl_observe (observe : σ → α → γ) (step : σ → α → V → σ)
    (update : α → γ → V → γ)
    (hstep : ∀ x a b a', observe (step x a b) a' =
      if a' = a then update a (observe x a) b else observe x a')
    (s : AList fun _ : α => V) (x : σ) (a : α) :
    observe (s.foldl step x) a = (s.lookup a).elim (observe x a) (update a (observe x a)) := by
  obtain ⟨l, hl⟩ := s
  show observe (l.foldl (fun r e => step r e.1 e.2) x) a =
    (l.dlookup a).elim (observe x a) (update a (observe x a))
  induction l generalizing x with
  | nil => rfl
  | cons e l ih =>
    obtain ⟨a', b⟩ := e
    have hl' : l.NodupKeys := (List.nodupKeys_cons.1 hl).2
    rw [List.foldl_cons, ih _ hl']
    by_cases h : a = a'
    · -- the head's key is not met again
      subst h
      have hnone : l.dlookup a = none :=
        List.dlookup_eq_none.2 (List.nodupKeys_cons.1 hl).1
      rw [hnone, List.dlookup_cons_eq, hstep, if_pos rfl]
      rfl
    · rw [List.dlookup_cons_ne l _ h, hstep, if_neg h]

omit [DecidableEq α] in
/-- **Invariant rule for a fold.** What every step preserves, the fold preserves. -/
theorem foldl_invariant (P : σ → Prop) (step : σ → α → V → σ)
    (hstep : ∀ x a b, P x → P (step x a b)) (s : AList fun _ : α => V) {x : σ} (hx : P x) :
    P (s.foldl step x) := by
  obtain ⟨l, hl⟩ := s
  show P (l.foldl (fun r e => step r e.1 e.2) x)
  induction l generalizing x with
  | nil => exact hx
  | cons e l ih => exact ih (hstep x e.1 e.2 hx) (List.nodupKeys_cons.1 hl).2

end Fold

end AList
