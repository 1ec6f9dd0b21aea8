import MvfBu.Lib.ExceptLemmas

set_option autoImplicit false

/-!
# Where a fallible computation throws a given error

`x.ThrowsOnlyIf e Q` says that `x` throws `e` only when `Q` holds; every value and every other
error are allowed. It says that one error of a program is reached along one kind of path only:
`Q` is proved at the few places that throw `e`, and the rules below carry it through binds,
`if`s and loops of reads. The continuation of a bind is proved knowing the value of the first
step, which is where a check made earlier is used.

A run of steps that failed failed in one step, from a state the steps before it reached
(`Except.foldlM_eq_error`); so what one step throws only under a condition on its state, a
run throws only after reaching a state where the condition holds.

## Main definitions

* `Except.ThrowsOnlyIf`.

## Main results

* `Except.ThrowsOnlyIf.bind`, `Except.ThrowsOnlyIf.ite` — the rules for bind and `if`.
* `Except.ThrowsOnlyIf.mapM` — the rule for a loop of reads.
* `Except.foldlM_eq_error` — a failed run failed in one step.
-/

namespace Except

variable {ε α β σ : Type}

/-- **Inversion of a failed bind.** The first step failed, or it returned a value from which
the continuation failed. -/
lemma bind_eq_error {x : Except ε α} {f : α → Except ε β} {e : ε} :
    (x >>= f) = Except.error e ↔
      x = Except.error e ∨ ∃ a, x = Except.ok a ∧ f a = Except.error e := by
  cases x <;> simp

/-- **Where a run of steps failed.** A `foldlM` that failed ran the steps before one step to a
state from which that step failed.

**Proof sketch.** Induction on the list of steps: the first step failed, or the rest of the run
failed from the state it returned. -/
lemma foldlM_eq_error {f : σ → α → Except ε σ} {e : ε} :
    ∀ (l : List α) (s : σ), l.foldlM f s = Except.error e →
      ∃ pre a post s', l = pre ++ a :: post ∧ pre.foldlM f s = Except.ok s' ∧
        f s' a = Except.error e
  | [], s, h => by
    rw [List.foldlM_nil] at h
    cases h
  | a :: l, s, h => by
    rw [List.foldlM_cons] at h
    rcases bind_eq_error.1 h with h₁ | ⟨s₁, h₁, hrest⟩
    · exact ⟨[], a, l, s, rfl, rfl, h₁⟩
    · obtain ⟨pre, b, post, s', rfl, hpre, hb⟩ := foldlM_eq_error l s₁ hrest
      refine ⟨a :: pre, b, post, s', rfl, ?_, hb⟩
      rw [List.foldlM_cons, h₁, ok_bind]
      exact hpre

/-- `x` throws `e` only if `Q` holds. -/
def ThrowsOnlyIf (e : ε) (Q : Prop) (x : Except ε α) : Prop :=
  x = Except.error e → Q

namespace ThrowsOnlyIf

variable {e : ε} {Q : Prop}

lemma ok (a : α) : (Except.ok a : Except ε α).ThrowsOnlyIf e Q := by
  intro h
  cases h

lemma pure (a : α) : (Pure.pure a : Except ε α).ThrowsOnlyIf e Q := ok a

lemma of_eq_ok {x : Except ε α} {a : α} (h : x = Except.ok a) : x.ThrowsOnlyIf e Q := by
  rw [h]
  exact ok a

/-- Another error is allowed. -/
lemma error_ne {e' : ε} (h : e' ≠ e) : (Except.error e' : Except ε α).ThrowsOnlyIf e Q := by
  intro he
  cases he
  exact absurd rfl h

lemma throw_ne {e' : ε} (h : e' ≠ e) : (throw e' : Except ε α).ThrowsOnlyIf e Q := error_ne h

lemma of_holds (hQ : Q) (x : Except ε α) : x.ThrowsOnlyIf e Q := fun _ => hQ

lemma mono {Q' : Prop} {x : Except ε α} (hx : x.ThrowsOnlyIf e Q) (h : Q → Q') :
    x.ThrowsOnlyIf e Q' :=
  fun he => h (hx he)

/-- **The rule for bind.** The first step throws `e` only under `Q`, and so does the
continuation at each value the first step returns. -/
lemma bind {x : Except ε α} {f : α → Except ε β} (hx : x.ThrowsOnlyIf e Q)
    (hf : ∀ a, x = Except.ok a → (f a).ThrowsOnlyIf e Q) : (x >>= f).ThrowsOnlyIf e Q := by
  intro h
  rcases bind_eq_error.1 h with h₁ | ⟨a, h₁, h₂⟩
  · exact hx h₁
  · exact hf a h₁ h₂

/-- **The rule for `if`**, each branch under its own condition. -/
lemma ite {c : Prop} [Decidable c] {x y : Except ε α} (h₁ : c → x.ThrowsOnlyIf e Q)
    (h₂ : ¬ c → y.ThrowsOnlyIf e Q) : (if c then x else y).ThrowsOnlyIf e Q := by
  by_cases hc : c
  · rw [if_pos hc]
    exact h₁ hc
  · rw [if_neg hc]
    exact h₂ hc

/-- **The rule for a loop of reads.** Each read throws `e` only under `Q`. -/
lemma mapM {f : α → Except ε β} :
    ∀ l : List α, (∀ a ∈ l, (f a).ThrowsOnlyIf e Q) → (l.mapM f).ThrowsOnlyIf e Q
  | [], _ => pure []
  | a :: l, h => by
    rw [List.mapM_cons]
    exact bind (h a List.mem_cons_self) fun _ _ =>
      bind (mapM l fun b hb => h b (List.mem_cons_of_mem a hb)) fun _ _ => pure _

end ThrowsOnlyIf

end Except
