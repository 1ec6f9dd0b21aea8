import MvfBu.Lib.ExceptLemmas

set_option autoImplicit false

/-!
# One fallible computation restricting another

`x.Restricts y` says that `x` succeeds only where `y` succeeds, and then with the same value:
`y` may accept more, never something else. It is the relation between a computation with
more checks and the same computation with fewer, which is what a soft fork is. The relation
is a preorder, every error restricts everything, and it is a congruence for the monad's
bind, for `if` and for `foldlM`, so a restriction proved for the few places where two
programs differ carries to the whole programs.

## Main definitions

* `Except.Restricts`.

## Main results

* `Except.Restricts.bind` — congruence for bind.
* `Except.Restricts.foldlM`, `Except.Restricts.forM` — congruence for a run of steps and for a
  loop of checks.
* `Except.Restricts.guard_left`, `Except.Restricts.ite_error` — one more check on the left
  restricts.
-/

namespace Except

variable {ε α β σ : Type}

/-- `x` restricts `y`: whenever `x` returns a value, `y` returns the same value. -/
def Restricts (x y : Except ε α) : Prop :=
  ∀ a, x = Except.ok a → y = Except.ok a

namespace Restricts

@[refl] lemma refl (x : Except ε α) : x.Restricts x := fun _ h => h

lemma trans {x y z : Except ε α} (hxy : x.Restricts y) (hyz : y.Restricts z) :
    x.Restricts z :=
  fun a h => hyz a (hxy a h)

/-- An error restricts every computation. -/
lemma of_error (e : ε) (y : Except ε α) : (Except.error e : Except ε α).Restricts y := by
  intro a h
  cases h

/-- **Congruence for bind.** If the first steps restrict each other and so do the
continuations at every value, the binds do. -/
lemma bind {x y : Except ε α} {f g : α → Except ε β} (hxy : x.Restricts y)
    (hfg : ∀ a, (f a).Restricts (g a)) : (x >>= f).Restricts (y >>= g) := by
  intro b h
  obtain ⟨a, hx, hf⟩ := bind_eq_ok.1 h
  rw [hxy a hx]
  exact hfg a b hf

/-- **Congruence for `if`**, with each branch compared under its own condition. -/
lemma ite {c : Prop} [Decidable c] {x x' y y' : Except ε α} (h₁ : c → x.Restricts x')
    (h₂ : ¬ c → y.Restricts y') :
    (if c then x else y).Restricts (if c then x' else y') := by
  by_cases hc : c
  · simpa [hc] using h₁ hc
  · simpa [hc] using h₂ hc

/-- One more check on the left: a computation that first may throw restricts the same
computation without the check. -/
lemma guard_left {c : Prop} [Decidable c] (e : ε) {x y : Except ε α} (h : x.Restricts y) :
    (if c then Except.error e else x).Restricts y := by
  by_cases hc : c
  · simpa [hc] using of_error e y
  · simpa [hc] using h

/-- A check that throws under a weaker condition on the right throws on the left too. -/
lemma ite_error {c c' : Prop} [Decidable c] [Decidable c'] (hcc' : c' → c) (e : ε)
    {x y : Except ε α} (hxy : x.Restricts y) :
    (if c then Except.error e else x).Restricts (if c' then Except.error e else y) := by
  by_cases hc : c
  · simpa [hc] using of_error e _
  · have hc' : ¬ c' := fun h => hc (hcc' h)
    simpa [hc, hc'] using hxy

/-- Congruence for `mapError`. -/
lemma mapError {ε' : Type} {x y : Except ε α} (f : ε → ε') (hxy : x.Restricts y) :
    (x.mapError f).Restricts (y.mapError f) := by
  intro a h
  rw [mapError_eq_ok] at h ⊢
  exact hxy a h

/-- **Congruence for a run of steps.** If each step of one run restricts the same step of the
other from every state, the runs restrict each other from every state.

**Proof sketch.** Induction on the list of steps, with `bind` at each step. -/
lemma foldlM {f g : σ → α → Except ε σ} (h : ∀ s a, (f s a).Restricts (g s a)) :
    ∀ (l : List α) (s : σ), (l.foldlM f s).Restricts (l.foldlM g s)
  | [], s => refl _
  | a :: l, s => by
    simp only [List.foldlM_cons]
    exact bind (h s a) fun s' => foldlM h l s'

/-- **Congruence for a loop of checks.** If each check of one loop restricts the same check of
the other, the loops restrict each other. -/
lemma forM {f g : α → Except ε PUnit} (h : ∀ a, (f a).Restricts (g a)) :
    ∀ l : List α, (l.forM f).Restricts (l.forM g)
  | [] => refl _
  | a :: l => bind (h a) fun _ => forM h l

end Restricts

end Except
