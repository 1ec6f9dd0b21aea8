import Mathlib.Logic.Basic

set_option autoImplicit false

/-!
# Guarded runs of a state machine

A run of a machine is a `List.foldl` of its step over a list of operations. A guard says which
operation may be made in which state; a guarded run is one whose every operation passes the
guard in the state the run has reached when it is made. The rule here carries a relation
between a machine and an abstract one, stepped by the same operations, along every guarded run:
a forward simulation, one step at a time.

## Main definitions

* `List.GuardedRun` — every operation of a run passes the guard where it is made.

## Main results

* `List.foldl_simulation` — what one guarded step keeps, a guarded run keeps.
* `List.foldl_invariant`, `List.foldlM_invariant` — what every step keeps, every run keeps,
  also when a step can stop the run.
-/

namespace List

variable {σ τ α : Type}

/-- Every operation of the run from `s` passes `guard` in the state where it is made. -/
def GuardedRun (step : σ → α → σ) (guard : σ → α → Prop) : σ → List α → Prop
  | _, [] => True
  | s, a :: l => guard s a ∧ GuardedRun step guard (step s a) l

/-- **Simulation rule for guarded runs.** If a guarded step of `step` from a state related to
one of the abstract machine leads to a state related to the abstract step's, a guarded run
leads to a state related to the abstract run's.

**Proof sketch.** Induction on the operations, continuing from the related states the first
step reaches. -/
theorem foldl_simulation (R : σ → τ → Prop) {step : σ → α → σ} {apply : τ → α → τ}
    {guard : σ → α → Prop} (hstep : ∀ s t a, R s t → guard s a → R (step s a) (apply t a)) :
    ∀ (l : List α) {s : σ} {t : τ}, R s t → GuardedRun step guard s l →
      R (l.foldl step s) (l.foldl apply t)
  | [], _, _, hst, _ => hst
  | a :: l, s, t, hst, ⟨ha, hl⟩ => foldl_simulation R hstep l (hstep s t a hst ha) hl

/-- **Invariant rule for runs.** What every step preserves, a run preserves. -/
theorem foldl_invariant (P : σ → Prop) {step : σ → α → σ} (hstep : ∀ s a, P s → P (step s a)) :
    ∀ (l : List α) {s : σ}, P s → P (l.foldl step s)
  | [], _, hs => hs
  | a :: l, s, hs => foldl_invariant P hstep l (hstep s a hs)

/-- **Invariant rule for runs that can stop.** What every step that goes on preserves, a run
that comes to its end preserves. -/
theorem foldlM_invariant (P : σ → Prop) {step : σ → α → Option σ}
    (hstep : ∀ s a s', P s → step s a = some s' → P s') :
    ∀ (l : List α) {s s' : σ}, P s → l.foldlM step s = some s' → P s'
  | [], _, _, hs, h => by
    cases h
    exact hs
  | a :: l, s, s', hs, h => by
    rw [List.foldlM_cons] at h
    obtain ⟨t, ht, hrest⟩ := Option.bind_eq_some_iff.1 h
    exact foldlM_invariant P hstep l (hstep s a t hs ht) hrest

end List
