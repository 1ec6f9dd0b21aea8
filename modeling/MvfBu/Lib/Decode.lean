import Mathlib.Data.List.Basic

set_option autoImplicit false

/-!
# Decoders and round trips

A decoder reads a value from the front of a stream of tokens and leaves the rest, or fails
with a message: a `StateT` over `Except String` whose state is what is left to read. An
encoder and a decoder make a round trip on the values of a predicate when the decoder reads
back each such value from its encoding followed by anything at all.

Decoders are proved against encoders one step at a time: a step that reads back its part of
the stream hands the rest to the next (`run_bind_of_run`), and a counted list of values reads
back element by element (`run_readN`).

## Main definitions

* `Decoder` — decoders of values of `α` from streams of `σ`.
* `Decoder.next`, `Decoder.readN` — one token, and a decoder run a given number of times.
* `Decoder.RoundTrip` — a decoder reads back what an encoder writes.

## Main results

* `Decoder.run_bind_of_run` — the rule for a sequence of two decoders.
* `Decoder.run_readN` — a counted list of encodings reads back as the list.
* `Decoder.run_readN_next` — as many tokens as a list has read back as the list.
* `Decoder.run_bind_eq_ok`, `Decoder.readN_next_eq_ok` — the converse rules: what a sequence
  that succeeded read at each step, and that a counted read of tokens consumed exactly them.
-/

/-- Decoders of `α` from streams of tokens of `σ`: the value read and what is left, or the
message of the failure. -/
abbrev Decoder (σ α : Type) := StateT (List σ) (Except String) α

namespace Decoder

variable {σ α β : Type}

/-- The next token, or a failure with `msg` at the end of the stream. -/
def next (msg : String) : Decoder σ σ := fun s =>
  match s with
  | [] => .error msg
  | b :: s => .ok (b, s)

/-- `d` run `n` times, the values in the order read. -/
def readN (d : Decoder σ α) : ℕ → Decoder σ (List α)
  | 0 => pure []
  | n + 1 => do
    let a ← d
    let as ← readN d n
    pure (a :: as)

/-- **Round trip.** `dec` reads back every value satisfying `P` from its encoding, leaving
whatever follows the encoding. -/
def RoundTrip (enc : α → List σ) (dec : Decoder σ α) (P : α → Prop) : Prop :=
  ∀ a, P a → ∀ rest, dec.run (enc a ++ rest) = .ok (a, rest)

@[simp] theorem run_pure (a : α) (s : List σ) : (pure a : Decoder σ α).run s = .ok (a, s) := rfl

@[simp] theorem run_throw (msg : String) (s : List σ) :
    (throw msg : Decoder σ α).run s = .error msg := rfl

@[simp] theorem run_next_cons (msg : String) (b : σ) (s : List σ) :
    (next msg).run (b :: s) = .ok (b, s) := rfl

/-- **Sequence rule.** When the first decoder reads `a` and leaves `s'`, the sequence goes on
from `s'` with the second decoder at `a`. -/
theorem run_bind_of_run {x : Decoder σ α} {f : α → Decoder σ β} {s s' : List σ} {a : α}
    (h : x.run s = .ok (a, s')) : (x >>= f).run s = (f a).run s' := by
  rw [StateT.run_bind, h]
  rfl

/-- **Counted lists.** `n` encodings in a row read back as the list of their values.

**Proof sketch.** Induction on the list: the first encoding reads back its value (the round
trip of one element), and the rest of the list is read from what follows it. -/
theorem run_readN {enc : α → List σ} {d : Decoder σ α} {P : α → Prop} (h : RoundTrip enc d P) :
    ∀ (l : List α), (∀ a ∈ l, P a) → ∀ rest,
      (readN d l.length).run ((l.map enc).flatten ++ rest) = .ok (l, rest)
  | [], _, rest => rfl
  | a :: l, hl, rest => by
    have hhead : d.run (enc a ++ ((l.map enc).flatten ++ rest)) = .ok (a, (l.map enc).flatten ++ rest) :=
      h a (hl a List.mem_cons_self) _
    have htail := run_readN h l (fun b hb => hl b (List.mem_cons_of_mem a hb)) rest
    rw [List.length_cons, readN, List.map_cons, List.flatten_cons, List.append_assoc,
      run_bind_of_run hhead, run_bind_of_run htail]
    rfl

/-- As many tokens as a list has read back as the list. -/
theorem run_readN_next (msg : String) : ∀ (l rest : List σ),
    (readN (next msg) l.length).run (l ++ rest) = .ok (l, rest)
  | [], rest => rfl
  | b :: l, rest => by
    rw [List.length_cons, readN, List.cons_append, run_bind_of_run (run_next_cons msg b (l ++ rest)),
      run_bind_of_run (run_readN_next msg l rest)]
    rfl

/-- **Inversion of a sequence.** A sequence that succeeded ran its first decoder to some value
and went on from where it stopped. -/
theorem run_bind_eq_ok {x : Decoder σ α} {f : α → Decoder σ β} {s s'' : List σ} {b : β}
    (h : (x >>= f).run s = .ok (b, s'')) :
    ∃ a s', x.run s = .ok (a, s') ∧ (f a).run s' = .ok (b, s'') := by
  rw [StateT.run_bind] at h
  cases hx : x.run s with
  | error e =>
    rw [hx] at h
    cases h
  | ok r =>
    rw [hx] at h
    exact ⟨r.1, r.2, rfl, h⟩

/-- A token read was the head of the stream. -/
theorem next_eq_ok {msg : String} {s s' : List σ} {b : σ} (h : (next msg).run s = .ok (b, s')) :
    s = b :: s' := by
  cases s with
  | nil => cases h
  | cons c s =>
    cases h
    rfl

/-- A counted read of tokens consumed exactly the tokens it returns, as many as counted. -/
theorem readN_next_eq_ok (msg : String) : ∀ (n : ℕ) {s s' : List σ} {l : List σ},
    (readN (next msg) n).run s = .ok (l, s') → s = l ++ s' ∧ l.length = n
  | 0, s, s', l, h => by
    cases h
    exact ⟨rfl, rfl⟩
  | n + 1, s, s', l, h => by
    obtain ⟨b, s₁, hb, h⟩ := run_bind_eq_ok h
    obtain ⟨l', s₂, hl', h⟩ := run_bind_eq_ok h
    cases h
    obtain ⟨rfl, hlen⟩ := readN_next_eq_ok msg n hl'
    exact ⟨by rw [next_eq_ok hb, List.cons_append], by rw [List.length_cons, hlen]⟩

end Decoder
