import Mathlib.Logic.Basic

set_option autoImplicit false

/-!
# Computing with `Except`

The equations that evaluate a bind, a `mapError` or a `throw` of the `Except` monad once
its first step is known, and the inversion of a bind that succeeded. Models of fallible
code are `do` blocks in `Except`; these lemmas let proofs step through them without
unfolding the monad instance.

## Main results

* `Except.ok_bind`, `Except.error_bind` — a bind after a known first step.
* `Except.bind_eq_ok` — a bind that succeeded succeeded in both steps.
* `Except.forM_eq_ok` — a `forM` of checks passed exactly when each check did.
* `Except.foldlM_invariant` — what every successful step preserves, a successful run of
  steps preserves.
* `Except.foldlM_simulation` — a run whose every step another run matches is matched.
* `Except.foldlM_progress` — a run whose every step succeeds from where the steps still to come
  leave it succeeds.
-/

namespace Except

variable {ε ε' α β : Type}

@[simp] lemma ok_bind (a : α) (f : α → Except ε β) : (Except.ok a >>= f) = f a := rfl

@[simp] lemma error_bind (e : ε) (f : α → Except ε β) :
    (Except.error e >>= f) = Except.error e := rfl

@[simp] lemma pure_eq_ok (a : α) : (pure a : Except ε α) = Except.ok a := rfl

@[simp] lemma throw_eq_error (e : ε) : (throw e : Except ε α) = Except.error e := rfl

@[simp] lemma mapError_ok (f : ε → ε') (a : α) :
    (Except.ok a : Except ε α).mapError f = Except.ok a := rfl

@[simp] lemma mapError_error (f : ε → ε') (e : ε) :
    (Except.error e : Except ε α).mapError f = Except.error (f e) := rfl

/-- **Inversion of a bind.** A bind that returned a value ran its first step to a value and
its continuation from there to the result. -/
lemma bind_eq_ok {x : Except ε α} {f : α → Except ε β} {b : β} :
    (x >>= f) = Except.ok b ↔ ∃ a, x = Except.ok a ∧ f a = Except.ok b := by
  cases x with
  | error e => simp
  | ok a => simp

/-- A `mapError` returned a value exactly when the computation under it did. -/
lemma mapError_eq_ok {f : ε → ε'} {x : Except ε α} {a : α} :
    x.mapError f = Except.ok a ↔ x = Except.ok a := by
  cases x <;> simp

/-- A property read off a result: `x.toOption.any p` holds exactly when `x` returned a value
with the property. It turns a statement about a run's result into one `decide` evaluates. -/
lemma toOption_any_eq_true {x : Except ε α} {p : α → Bool} :
    x.toOption.any p = true ↔ ∃ a, x = Except.ok a ∧ p a = true := by
  cases x <;> simp [Except.toOption]

/-- A `forM` of checks passed exactly when each check passed. -/
lemma forM_eq_ok {f : α → Except ε Unit} :
    ∀ l : List α, forM l f = Except.ok () ↔ ∀ a ∈ l, f a = Except.ok ()
  | [] => iff_of_true rfl fun _ h => absurd h List.not_mem_nil
  | a :: l => by
    rw [List.forM_cons, bind_eq_ok, List.forall_mem_cons, ← forM_eq_ok l]
    constructor
    · rintro ⟨⟨⟩, ha, hl⟩
      exact ⟨ha, hl⟩
    · rintro ⟨ha, hl⟩
      exact ⟨(), ha, hl⟩

/-- **Invariant rule for a run of steps.** A predicate that every successful step preserves
holds at the end of every successful `foldlM` of the steps from a state where it holds.

**Proof sketch.** Induction on the list of steps: the first step succeeded (`bind_eq_ok`)
into a state where the predicate holds, and the rest of the run starts there. -/
lemma foldlM_invariant {σ α : Type} {f : σ → α → Except ε σ} (P : σ → Prop)
    (hstep : ∀ s a s', P s → f s a = Except.ok s' → P s') :
    ∀ (l : List α) {s s' : σ}, P s → l.foldlM f s = Except.ok s' → P s'
  | [], s, s', hs, h => by
    have hss' : s = s' := by simpa using h
    exact hss' ▸ hs
  | a :: l, s, s', hs, h => by
    rw [List.foldlM_cons] at h
    obtain ⟨s₁, h₁, hrest⟩ := bind_eq_ok.1 h
    exact foldlM_invariant P hstep l (hstep s a s₁ hs h₁) hrest

/-- **Simulation rule for two runs of steps.** If every successful step of `f` from a state
related to one of `g` is matched by a successful step of `g` to a related state, every
successful run of `f` is matched by a successful run of `g` to a related state.

**Proof sketch.** Induction on the list of steps, matching the first step and continuing from
the related states it reaches. -/
lemma foldlM_simulation {σ τ α : Type} (R : σ → τ → Prop) {f : σ → α → Except ε σ}
    {g : τ → α → Except ε τ}
    (hstep : ∀ s t a s', R s t → f s a = Except.ok s' → ∃ t', g t a = Except.ok t' ∧ R s' t') :
    ∀ (l : List α) {s : σ} {t : τ} {s' : σ}, R s t → l.foldlM f s = Except.ok s' →
      ∃ t', l.foldlM g t = Except.ok t' ∧ R s' t'
  | [], s, t, s', hst, h => by
    have hss' : s = s' := by simpa using h
    exact ⟨t, rfl, hss' ▸ hst⟩
  | a :: l, s, t, s', hst, h => by
    rw [List.foldlM_cons] at h
    obtain ⟨s₁, h₁, hrest⟩ := bind_eq_ok.1 h
    obtain ⟨t₁, ht₁, hst₁⟩ := hstep s t a s₁ hst h₁
    obtain ⟨t', ht', hst'⟩ := foldlM_simulation R hstep l hst₁ hrest
    refine ⟨t', ?_, hst'⟩
    rw [List.foldlM_cons, ht₁, ok_bind]
    exact ht'

/-- **Progress rule for a run of steps.** If from every state where `P` holds of the steps still
to come the next step succeeds, into a state where `P` holds of the rest, the run succeeds, into
a state where `P` holds of no step.

**Proof sketch.** Induction on the steps still to come. -/
lemma foldlM_progress {σ α : Type} {f : σ → α → Except ε σ} (P : List α → σ → Prop)
    (hstep : ∀ a l s, P (a :: l) s → ∃ s', f s a = Except.ok s' ∧ P l s') :
    ∀ (l : List α) {s : σ}, P l s → ∃ s', l.foldlM f s = Except.ok s' ∧ P [] s'
  | [], s, hs => ⟨s, rfl, hs⟩
  | a :: l, s, hs => by
    obtain ⟨s₁, h₁, hs₁⟩ := hstep a l s hs
    obtain ⟨s', h', hs'⟩ := foldlM_progress P hstep l hs₁
    refine ⟨s', ?_, hs'⟩
    rw [List.foldlM_cons, h₁, ok_bind]
    exact h'

end Except
