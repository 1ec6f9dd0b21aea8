import Mathlib.Data.Int.Init
import Mathlib.Tactic.Linarith
import Mathlib.Tactic.Ring
import Mathlib.Tactic.SplitIfs

set_option autoImplicit false

/-!
# Traffic shaping (`leakybucket.h`)

A `CLeakyBucket` holds a `level` of tokens up to `max`, refilled at `fill` tokens a second. The
refill is lazy: `fillIt` credits the time since the last refill, in steps of more than 100 ms,
whenever the bucket is asked for tokens. `try_leak` takes tokens only if there are enough,
`leak` takes them regardless, and `set` changes the limits, which `settrafficshaping` sets from
the burst and average rates a user gives in kilobytes per second.

The refill computes `fill * msElapsed` in `int64_t`. Nothing bounds `fill`: a rate of
`10 ^ 9` kB/s gives `fill = 1024 * 10 ^ 9`, and after less than three hours without a refill the
product leaves the range of `int64_t`; wrapped around, it drives the level far below zero.
While nothing overflows, the level stays at most `max`, `try_leak` never makes a non-negative
level negative, and what `try_leak` grants is bounded by the level and the time since the last
refill, which can lie before the start of the interval looked at.

## Main definitions

* `MvfBu.CLeakyBucket` and its methods `fillIt`, `set`, `available`, `try_leak`, `leak`.
* `MvfBu.CLeakyBucket.exec`, `MvfBu.CLeakyBucket.run` — calls one after another.
* `MvfBu.settrafficshaping` — the RPC call, after its arguments are read.

## Main results

* `MvfBu.CLeakyBucket.run_level_le_max` — no run makes the level exceed `max`.
* `MvfBu.CLeakyBucket.run_granted_le` — what `try_leak` grants over a run without `set`.
* `MvfBu.settrafficshaping_fillIt_overflow` — the overflow, from a user's rates.

## Implementation notes

Clock readings are integers of milliseconds. The `int64_t` arithmetic that can overflow is
modelled with two's complement wrap-around (`int64`), what the generated code does; in C++ it is
undefined. `try_leak` subtracts `amt` only from a level of at least `amt ≥ 0`, which cannot
overflow, and the model subtracts exactly there.
-/

namespace MvfBu

/-- `std::numeric_limits<long long>::max()`: the `fill` and `max` of a disabled bucket. -/
def INT64_MAX : ℤ := 2 ^ 63 - 1

/-- The value an `int64_t` keeps of an integer: two's complement wrap-around. -/
def int64 (x : ℤ) : ℤ := x.bmod (2 ^ 64)

/-- An integer that an `int64_t` holds. -/
def FitsInt64 (x : ℤ) : Prop := -2 ^ 63 ≤ x ∧ x ≤ INT64_MAX

theorem int64_of_fits {x : ℤ} (h : FitsInt64 x) : int64 x = x := by
  unfold FitsInt64 INT64_MAX at h
  exact Int.bmod_eq_of_le (by omega) (by omega)

structure CLeakyBucket where
  /-- Current level of the bucket -/
  level : ℤ
  /-- Maximum quantity allowed -/
  max : ℤ
  /-- Average rate per second -/
  fill : ℤ
  /-- The clock reading, in milliseconds, of the last refill -/
  lastFill : ℤ
deriving DecidableEq, Repr

namespace CLeakyBucket

/-- The constructor, at clock reading `now`: the level starts at `startLevel`, or at `max` if
that is less. -/
def new (maxp fillp startLevel now : ℤ) : CLeakyBucket :=
  ⟨if startLevel < maxp then startLevel else maxp, maxp, fillp, now⟩

/-- `fillIt` at clock reading `now`: credit the time since the last refill, if more than
100 ms have passed. -/
def fillIt (b : CLeakyBucket) (now : ℤ) : CLeakyBucket :=
  let msElapsed := now - b.lastFill
  if msElapsed > 100 then
    let level := int64 (b.level + (int64 (b.fill * msElapsed)).tdiv 1000)
    { b with lastFill := now, level := if level > b.max then b.max else level }
  else b

/-- `disable`. -/
def disable (b : CLeakyBucket) : CLeakyBucket :=
  { b with fill := INT64_MAX, max := INT64_MAX }

/-- `set` at clock reading `now`. -/
def set (b : CLeakyBucket) (maxp fillp now : ℤ) : CLeakyBucket :=
  { b with max := maxp, fill := fillp, level := if b.level > maxp then maxp else b.level,
           lastFill := now }

/-- `available(cutoff)` at clock reading `now`: the bucket after the call, and the result. -/
def available (b : CLeakyBucket) (cutoff now : ℤ) : CLeakyBucket × ℤ :=
  if b.fill = INT64_MAX then (b, INT64_MAX) -- shaping is off
  else
    let b := b.fillIt now
    (b, if b.level > cutoff then b.level else 0)

/-- `try_leak(amt)` at clock reading `now`: the bucket after the call, and the result; `none`
when `assert(amt >= 0)` fails. -/
def try_leak (b : CLeakyBucket) (amt now : ℤ) : Option (CLeakyBucket × Bool) :=
  if b.fill = INT64_MAX then some (b, true) -- leaky bucket is turned off
  else if amt < 0 then none
  else
    let b := b.fillIt now
    if b.level ≥ amt then some ({ b with level := b.level - amt }, true) else some (b, false)

/-- `leak(amt)` at clock reading `now`: the bucket after the call, and the result. -/
def leak (b : CLeakyBucket) (amt now : ℤ) : CLeakyBucket × Bool :=
  if b.fill = INT64_MAX then (b, true) -- leaky bucket is turned off
  else
    let b := b.fillIt now
    let level := int64 (b.level - amt)
    ({ b with level := level }, decide (level ≥ 0))

/-- A call on a bucket, with its clock reading. -/
inductive Op
  | available (cutoff now : ℤ)
  | try_leak (amt now : ℤ)
  | leak (amt now : ℤ)
  | set (maxp fillp now : ℤ)

/-- The clock reading of a call. -/
def Op.now : Op → ℤ
  | .available _ now | .try_leak _ now | .leak _ now | .set _ _ now => now

/-- One call: the bucket after it and the tokens it grants (what a successful `try_leak`
takes); `none` when an assertion fails. -/
def exec (b : CLeakyBucket) : Op → Option (CLeakyBucket × ℤ)
  | .available cutoff now => some ((b.available cutoff now).1, 0)
  | .try_leak amt now => (b.try_leak amt now).map fun r => (r.1, if r.2 then amt else 0)
  | .leak amt now => some ((b.leak amt now).1, 0)
  | .set maxp fillp now => some (b.set maxp fillp now, 0)

/-- Calls one after another: the bucket after them and the tokens granted in all. -/
def run (b : CLeakyBucket) : List Op → Option (CLeakyBucket × ℤ)
  | [] => some (b, 0)
  | op :: ops => do
    let (b', g) ← b.exec op
    let (b'', g') ← b'.run ops
    pure (b'', g + g')

end CLeakyBucket

/-- `settrafficshaping` after its arguments are read: `disable`, or the burst and average rates
in kilobytes per second, each read as a `uint64_t` and scaled by `1024` in `uint64_t` before it
goes to `set` as an `int64_t`. -/
def settrafficshaping (bucket : CLeakyBucket) (disable : Bool) (burst ave : ℕ) (now : ℤ) :
    Except String CLeakyBucket :=
  if disable then .ok bucket.disable
  else if burst < ave then
    .error ("Burst rate must be greater than the average rate" ++
      "\nsettrafficshaping \"send|receive\" \"burst\" \"average\"")
  else .ok (bucket.set (int64 (burst * 1024)) (int64 (ave * 1024)) now)

namespace CLeakyBucket

/-! ### The refill -/

@[simp] theorem fillIt_max (b : CLeakyBucket) (now : ℤ) : (b.fillIt now).max = b.max := by
  unfold fillIt
  dsimp only
  split_ifs <;> rfl

@[simp] theorem fillIt_fill (b : CLeakyBucket) (now : ℤ) : (b.fillIt now).fill = b.fill := by
  unfold fillIt
  dsimp only
  split_ifs <;> rfl

/-- The refill caps the level at `max`, whatever the arithmetic does. -/
theorem fillIt_level_le_max {b : CLeakyBucket} (h : b.level ≤ b.max) (now : ℤ) :
    (b.fillIt now).level ≤ b.max := by
  unfold fillIt
  dsimp only
  split_ifs with h1 h2
  · exact le_rfl
  · dsimp only
    omega
  · exact h

/-- The refill computes without overflow: the product and the new level fit in `int64_t`. -/
def fillFits (b : CLeakyBucket) (now : ℤ) : Prop :=
  100 < now - b.lastFill → FitsInt64 (b.fill * (now - b.lastFill)) ∧
    FitsInt64 (b.level + (b.fill * (now - b.lastFill)).tdiv 1000)

/-- **The refill, while nothing overflows**: either nothing changes, or more than 100 ms have
passed, the clock is taken and the level rises by the credit for that time, up to `max`. -/
theorem fillIt_cases {b : CLeakyBucket} {now : ℤ} (hfit : b.fillFits now) :
    b.fillIt now = b ∨ 100 < now - b.lastFill ∧ b.fillIt now =
      { b with lastFill := now,
               level := min (b.level + (b.fill * (now - b.lastFill)).tdiv 1000) b.max } := by
  unfold fillIt
  dsimp only
  by_cases h1 : now - b.lastFill > 100
  · obtain ⟨hp, hl⟩ := hfit h1
    rw [if_pos h1, int64_of_fits hp, int64_of_fits hl]
    refine .inr ⟨h1, ?_⟩
    congr 1
    split_ifs <;> omega
  · rw [if_neg h1]
    exact .inl rfl

/-- The credit for `Δ` milliseconds at `fill` tokens a second is at most `fill * Δ / 1000`, and
not negative. -/
theorem credit_bounds {fill Δ : ℤ} (hf : 0 ≤ fill) (hΔ : 0 ≤ Δ) :
    0 ≤ (fill * Δ).tdiv 1000 ∧ 1000 * (fill * Δ).tdiv 1000 ≤ fill * Δ := by
  have hp : 0 ≤ fill * Δ := Int.mul_nonneg hf hΔ
  rw [Int.tdiv_eq_ediv_of_nonneg hp]
  exact ⟨Int.ediv_nonneg hp (by norm_num), by
    have := Int.ediv_mul_le (fill * Δ) (b := 1000) (by norm_num)
    linarith⟩

/-- While nothing overflows and `fill ≥ 0`, the refill never lowers a level that is at most
`max`. -/
theorem le_fillIt_level {b : CLeakyBucket} {now : ℤ} (hfit : b.fillFits now) (hf : 0 ≤ b.fill)
    (h : b.level ≤ b.max) : b.level ≤ (b.fillIt now).level := by
  rcases fillIt_cases hfit with heq | ⟨hΔ, heq⟩
  · rw [heq]
  · have := (credit_bounds hf (by omega : (0 : ℤ) ≤ now - b.lastFill)).1
    rw [heq]
    exact le_min (by omega) h

/-! ### The calls -/

/-- The arithmetic of a call stays in `int64_t`: the refill, and the subtraction of `leak`,
which is given a non-negative amount, as its callers do. -/
def Op.Fits (b : CLeakyBucket) : Op → Prop
  | .available _ now | .try_leak _ now => b.fillFits now
  | .leak amt now => b.fillFits now ∧ 0 ≤ amt ∧ FitsInt64 ((b.fillIt now).level - amt)
  | .set _ _ _ => True

/-- Whether a call is `set`. -/
def Op.isSet : Op → Bool
  | .set _ _ _ => true
  | _ => false

/-- Every call of a run computes without overflow. -/
def RunFits (b : CLeakyBucket) : List Op → Prop
  | [] => True
  | op :: ops => op.Fits b ∧ ∀ r ∈ b.exec op, r.1.RunFits ops

theorem run_cons (b : CLeakyBucket) (op : Op) (ops : List Op) :
    b.run (op :: ops) =
      (b.exec op).bind fun p => (p.1.run ops).map fun q => (q.1, p.2 + q.2) := by
  simp only [run]
  rcases b.exec op with _ | ⟨b', g⟩
  · rfl
  · show (b'.run ops >>= fun q => pure (q.1, g + q.2)) = (b'.run ops).map fun q => (q.1, g + q.2)
    rcases b'.run ops with _ | ⟨b'', g'⟩ <;> rfl

/-- **What `try_leak` can do**: nothing on a disabled bucket; otherwise, with `amt ≥ 0`, refill
and then either take `amt` from a level of at least `amt`, or refuse. -/
theorem try_leak_eq_some {b b' : CLeakyBucket} {amt now : ℤ} {ok : Bool}
    (hr : b.try_leak amt now = some (b', ok)) :
    b.fill = INT64_MAX ∧ b' = b ∨
      b.fill ≠ INT64_MAX ∧ 0 ≤ amt ∧
        (amt ≤ (b.fillIt now).level ∧
            b' = { b.fillIt now with level := (b.fillIt now).level - amt } ∧
            ok = true ∨
          (b.fillIt now).level < amt ∧ b' = b.fillIt now ∧ ok = false) := by
  unfold try_leak at hr
  dsimp only at hr
  split_ifs at hr with hoff hneg hge <;> simp only [Option.some.injEq, Prod.mk.injEq] at hr
  · exact .inl ⟨hoff, hr.1.symm⟩
  · exact .inr ⟨hoff, by omega, .inl ⟨hge, hr.1.symm, hr.2.symm⟩⟩
  · exact .inr ⟨hoff, by omega, .inr ⟨by omega, hr.1.symm, hr.2.symm⟩⟩

/-- **A step keeps the level at most `max`.** -/
theorem exec_level_le_max {b : CLeakyBucket} {op : Op} (h : b.level ≤ b.max) (hfit : op.Fits b)
    {r : CLeakyBucket × ℤ} (hr : b.exec op = some r) : r.1.level ≤ r.1.max := by
  cases op with
  | available cutoff now =>
    simp only [exec, Option.some.injEq] at hr
    subst hr
    unfold available
    split_ifs
    · exact h
    · exact (fillIt_max b now).symm ▸ fillIt_level_le_max h now
  | try_leak amt now =>
    simp only [exec, Option.map_eq_some_iff] at hr
    obtain ⟨⟨b', ok⟩, hr, rfl⟩ := hr
    have := fillIt_level_le_max h now
    rcases try_leak_eq_some hr with ⟨-, rfl⟩ | ⟨-, hamt, ⟨-, rfl, -⟩ | ⟨-, rfl, -⟩⟩
    · exact h
    · simp only [fillIt_max]
      omega
    · simpa using this
  | leak amt now =>
    simp only [exec, Option.some.injEq] at hr
    subst hr
    unfold leak
    split_ifs
    · exact h
    · obtain ⟨-, hamt, hfits⟩ := hfit
      have := fillIt_level_le_max h now
      simp only [int64_of_fits hfits, fillIt_max]
      omega
  | set maxp fillp now =>
    simp only [exec, Option.some.injEq] at hr
    subst hr
    simp only [set]
    split_ifs <;> omega

/-- **No run makes the level exceed `max`**, as long as nothing overflows. -/
theorem run_level_le_max : ∀ (ops : List Op) (b : CLeakyBucket), b.level ≤ b.max →
    b.RunFits ops → ∀ r ∈ b.run ops, r.1.level ≤ r.1.max
  | [], b, h, _, r, hr => by
    simp only [run, Option.mem_def, Option.some.injEq] at hr
    subst hr
    exact h
  | op :: ops, b, h, ⟨hfit, hrest⟩, r, hr => by
    rw [Option.mem_def, run_cons, Option.bind_eq_some_iff] at hr
    obtain ⟨p, hp, hq⟩ := hr
    obtain ⟨q, hq', rfl⟩ := Option.map_eq_some_iff.1 hq
    exact run_level_le_max ops p.1 (exec_level_le_max h hfit hp) (hrest p hp) q hq'

/-- **`try_leak` never makes a non-negative level negative**, as long as the refill does not
overflow. -/
theorem try_leak_level_nonneg {b b' : CLeakyBucket} {amt now : ℤ} {ok : Bool}
    (h : b.level ≤ b.max) (h0 : 0 ≤ b.level) (hf : 0 ≤ b.fill) (hfit : b.fillFits now)
    (hr : b.try_leak amt now = some (b', ok)) : 0 ≤ b'.level := by
  have hle := le_fillIt_level hfit hf h
  rcases try_leak_eq_some hr with ⟨-, rfl⟩ | ⟨-, -, ⟨hge, rfl, -⟩ | ⟨-, rfl, -⟩⟩
  · exact h0
  · simp only
    omega
  · omega

/-! ### What `try_leak` grants -/

theorem fillIt_lastFill (b : CLeakyBucket) (now : ℤ) :
    (b.fillIt now).lastFill = b.lastFill ∨ (b.fillIt now).lastFill = now := by
  unfold fillIt
  dsimp only
  by_cases h : now - b.lastFill > 100
  · rw [if_pos h]
    exact .inr rfl
  · rw [if_neg h]
    exact .inl rfl

/-- A call other than `set` leaves the clock of the last refill, or takes its own reading. -/
theorem exec_lastFill {b : CLeakyBucket} {op : Op} (hset : op.isSet = false)
    {r : CLeakyBucket × ℤ} (hr : b.exec op = some r) :
    r.1.lastFill = b.lastFill ∨ r.1.lastFill = op.now := by
  cases op with
  | available cutoff now =>
    simp only [exec, Option.some.injEq] at hr
    subst hr
    unfold available
    split_ifs
    · exact .inl rfl
    · exact fillIt_lastFill b now
  | try_leak amt now =>
    simp only [exec, Option.map_eq_some_iff] at hr
    obtain ⟨⟨b', ok⟩, hr, rfl⟩ := hr
    rcases try_leak_eq_some hr with ⟨-, rfl⟩ | ⟨-, -, ⟨-, rfl, -⟩ | ⟨-, rfl, -⟩⟩
    · exact .inl rfl
    · exact fillIt_lastFill b now
    · exact fillIt_lastFill b now
  | leak amt now =>
    simp only [exec, Option.some.injEq] at hr
    subst hr
    unfold leak
    split_ifs
    · exact .inl rfl
    · exact fillIt_lastFill b now
  | set maxp fillp now => simp [Op.isSet] at hset

/-- The books of a run from `b₀` without `set`, given the tokens granted and those `leak` took
so far: the fill and the cap stay, the level stays at most `max` and covers what `leak` took,
and the level, the grants and the leaks together are at most the starting level and the
credit for the time up to the last refill. -/
structure Ledger (b₀ b : CLeakyBucket) (granted leaked : ℤ) : Prop where
  fill_eq : b.fill = b₀.fill
  max_eq : b.max = b₀.max
  level_le : b.level ≤ b.max
  lastFill_ge : b₀.lastFill ≤ b.lastFill
  leaked_nonneg : 0 ≤ leaked
  covered : 0 ≤ b.level + leaked
  bound : 1000 * (b.level + granted + leaked) ≤
    1000 * b₀.level + b₀.fill * (b.lastFill - b₀.lastFill)

theorem Ledger.init {b : CLeakyBucket} (h0 : 0 ≤ b.level) (h : b.level ≤ b.max) :
    Ledger b b 0 0 :=
  ⟨rfl, rfl, h, le_rfl, le_rfl, by omega, by simp⟩

/-- **The refill keeps the books**: it credits at most `fill * Δ / 1000` for the `Δ` ms it
moves the clock of the last refill by. -/
theorem Ledger.of_fillIt {b₀ b : CLeakyBucket} {g k now : ℤ} (hL : Ledger b₀ b g k)
    (hf : 0 ≤ b₀.fill) (hfit : b.fillFits now) : Ledger b₀ (b.fillIt now) g k := by
  rcases fillIt_cases hfit with heq | ⟨hΔ, heq⟩
  · rwa [heq]
  · rw [heq, hL.fill_eq]
    obtain ⟨hc0, hc1⟩ := credit_bounds hf (by omega : (0 : ℤ) ≤ now - b.lastFill)
    have hmin := min_le_left (b.level + (b₀.fill * (now - b.lastFill)).tdiv 1000) b.max
    have hsplit : b₀.fill * (now - b₀.lastFill) =
        b₀.fill * (now - b.lastFill) + b₀.fill * (b.lastFill - b₀.lastFill) := by ring
    have hL' := hL.bound
    refine ⟨rfl, hL.max_eq, min_le_right _ _, by have := hL.lastFill_ge; dsimp only; omega,
      hL.leaked_nonneg, ?_, ?_⟩
    · have := hL.covered
      have := hL.level_le
      dsimp only
      omega
    · dsimp only
      rw [hsplit]
      linarith

/-- **A call keeps the books**, with what it grants added to the grants. -/
theorem Ledger.of_exec {b₀ b : CLeakyBucket} {g k : ℤ} (hL : Ledger b₀ b g k)
    (hf : 0 ≤ b₀.fill) (hon : b₀.fill ≠ INT64_MAX) {op : Op} (hset : op.isSet = false)
    (hfit : op.Fits b)
    {r : CLeakyBucket × ℤ} (hr : b.exec op = some r) : ∃ k', Ledger b₀ r.1 (g + r.2) k' := by
  have hon' : b.fill ≠ INT64_MAX := hL.fill_eq ▸ hon
  cases op with
  | available cutoff now =>
    simp only [exec, Option.some.injEq] at hr
    subst hr
    refine ⟨k, ?_⟩
    simp only [available, if_neg hon', add_zero]
    exact hL.of_fillIt hf hfit
  | try_leak amt now =>
    simp only [exec, Option.map_eq_some_iff] at hr
    obtain ⟨⟨b', ok⟩, hr, rfl⟩ := hr
    have hL' := hL.of_fillIt hf hfit
    rcases try_leak_eq_some hr with
      ⟨hoff, -⟩ | ⟨-, hamt, ⟨hge, rfl, rfl⟩ | ⟨-, rfl, rfl⟩⟩
    · exact absurd hoff hon'
    · refine ⟨k, hL'.fill_eq, hL'.max_eq, by have := hL'.level_le; dsimp only; omega,
        hL'.lastFill_ge, hL'.leaked_nonneg, by have := hL'.leaked_nonneg; dsimp only; omega, ?_⟩
      have := hL'.bound
      simp only [if_true]
      linarith
    · exact ⟨k, by simpa using hL'⟩
  | leak amt now =>
    simp only [exec, Option.some.injEq] at hr
    subst hr
    obtain ⟨hfit, hamt, hsub⟩ := hfit
    have hL' := hL.of_fillIt hf hfit
    refine ⟨k + amt, ?_⟩
    simp only [leak, if_neg hon', int64_of_fits hsub, add_zero]
    refine ⟨hL'.fill_eq, hL'.max_eq, by have := hL'.level_le; dsimp only; omega,
      hL'.lastFill_ge, by have := hL'.leaked_nonneg; omega,
      by have := hL'.covered; dsimp only; omega,
      ?_⟩
    have := hL'.bound
    dsimp only
    linarith
  | set maxp fillp now => exact absurd hset (by simp [Op.isSet])

/-- **A run keeps the books**, and the clock of the last refill at most the last reading. -/
theorem Ledger.of_run {b₀ : CLeakyBucket} {t1 : ℤ} (hf : 0 ≤ b₀.fill)
    (hon : b₀.fill ≠ INT64_MAX) :
    ∀ (ops : List Op) (b : CLeakyBucket) (g k : ℤ), Ledger b₀ b g k → b.lastFill ≤ t1 →
      (∀ op ∈ ops, op.isSet = false) → (∀ op ∈ ops, op.now ≤ t1) → b.RunFits ops →
        ∀ r ∈ b.run ops, ∃ k', Ledger b₀ r.1 (g + r.2) k' ∧ r.1.lastFill ≤ t1
  | [], b, g, k, hL, ht, _, _, _, r, hr => by
    simp only [CLeakyBucket.run, Option.mem_def, Option.some.injEq] at hr
    subst hr
    exact ⟨k, by simpa using hL, ht⟩
  | op :: ops, b, g, k, hL, ht, hset, hnow, ⟨hfit, hrest⟩, r, hr => by
    rw [Option.mem_def, run_cons, Option.bind_eq_some_iff] at hr
    obtain ⟨p, hp, hq⟩ := hr
    obtain ⟨q, hq', rfl⟩ := Option.map_eq_some_iff.1 hq
    obtain ⟨k', hL'⟩ := hL.of_exec hf hon (hset op (by simp)) hfit hp
    -- the call moves the clock of the last refill at most to its own reading
    have hlast : p.1.lastFill ≤ t1 := by
      have := hnow op (by simp)
      rcases exec_lastFill (hset op (by simp)) hp with h | h <;> rw [h] <;> assumption
    obtain ⟨k'', hL'', ht''⟩ := Ledger.of_run hf hon ops p.1 (g + p.2) k' hL' hlast
      (fun o ho => hset o (by simp [ho])) (fun o ho => hnow o (by simp [ho])) (hrest p hp) q hq'
    exact ⟨k'', by simpa [add_assoc] using hL'', ht''⟩

/-- **What `try_leak` grants over a run without `set`** is at most the level at the start and
`fill` tokens a second from the last refill before the start to the last clock reading, as
long as nothing overflows. -/
theorem run_granted_le {b : CLeakyBucket} {ops : List Op} {t1 : ℤ} (h0 : 0 ≤ b.level)
    (h : b.level ≤ b.max) (hf : 0 ≤ b.fill) (hon : b.fill ≠ INT64_MAX)
    (hset : ∀ op ∈ ops, op.isSet = false) (hnow : ∀ op ∈ ops, op.now ≤ t1)
    (ht : b.lastFill ≤ t1) (hfits : b.RunFits ops) {r : CLeakyBucket × ℤ}
    (hr : b.run ops = some r) : 1000 * r.2 ≤ 1000 * b.level + b.fill * (t1 - b.lastFill) := by
  obtain ⟨k, hL, ht'⟩ :=
    Ledger.of_run hf hon ops b 0 0 (Ledger.init h0 h) ht hset hnow hfits r hr
  have hmono : b.fill * (r.1.lastFill - b.lastFill) ≤ b.fill * (t1 - b.lastFill) :=
    mul_le_mul_of_nonneg_left (by omega) hf
  have := hL.bound
  have := hL.covered
  simp only [zero_add] at *
  linarith

end CLeakyBucket

/-! ### The refill at two fixed inputs -/

/-- **The refill overflows.** The bucket as the node starts it (`DEFAULT_MAX_RECV_BURST`,
`DEFAULT_AVE_RECV`), set by `settrafficshaping receive 1000000000 1000000000`, and asked for one
token ten million milliseconds later, under three hours: `fill * msElapsed` leaves the range of
`int64_t`, the level wraps far below zero and the call is refused, where the exact arithmetic
fills the bucket to `max`. -/
theorem settrafficshaping_fillIt_overflow :
    settrafficshaping (CLeakyBucket.new INT64_MAX INT64_MAX INT64_MAX 0) false 1000000000
        1000000000 0 = .ok ⟨1024000000000, 1024000000000, 1024000000000, 0⟩ ∧
      ¬ FitsInt64 (1024000000000 * (10000000 - 0)) ∧
      (CLeakyBucket.mk 1024000000000 1024000000000 1024000000000 0).try_leak 1 10000000 =
        some (⟨-8205720073709551, 1024000000000, 1024000000000, 10000000⟩, false) := by
  refine ⟨rfl, ?_, rfl⟩
  unfold FitsInt64 INT64_MAX
  norm_num

/-- **The refill credits time before the interval.** A bucket filled at `1000` tokens a second
from level `0` at clock `0` still reports `0` tokens at `t0 = 100`, since no more than 100 ms
have passed; at `t1 = 101` it grants `101` tokens, more than the level at `t0` and the
`1000 * (t1 - t0) / 1000 = 1` token of the interval. -/
theorem try_leak_credits_before_interval :
    (CLeakyBucket.new 1000000 1000 0 0).available 0 100 = (CLeakyBucket.new 1000000 1000 0 0, 0) ∧
      (CLeakyBucket.new 1000000 1000 0 0).try_leak 101 101 =
        some (⟨0, 1000000, 1000, 101⟩, true) ∧
      0 + 1000 * (101 - 100) / 1000 < (101 : ℤ) := by
  refine ⟨rfl, rfl, by norm_num⟩

end MvfBu
