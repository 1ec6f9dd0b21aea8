import MvfBu.Lib.MerkleTree

set_option autoImplicit false

/-!
# The constant-space Merkle computation (`consensus/merkle.cpp`)

`MerkleComputation` reads the leaves once, keeping one pending subtree hash per level in
`inner[32]`, indexed by the bits of a running `uint32_t` counter; a final sweep pairs the hash
left alone on a level with itself and reduces the pending hashes to the root. Alongside it
records whether two equal hashes were combined (`mutated`) and collects the branch of one leaf.
`ComputeMerkleRoot`, `ComputeMerkleBranch` and `ComputeMerkleRootFromBranch` are the entry
points. The hash of two nodes is any function `H`, and `uint256()` is `zero`.

## Main definitions

* `MvfBu.Merkle.climb` — the loop that carries a hash up the levels while the counter's bits
  are zero, shared by the first loop and the sweep; `MvfBu.Merkle.Climb.step` is its body.
* `MvfBu.Merkle.processLeaf`, `MvfBu.Merkle.sweep`, `MvfBu.Merkle.finalSweep` — the first loop's
  pass, and the sweep.
* `MvfBu.Merkle.MerkleComputation`, `MvfBu.Merkle.ComputeMerkleRoot`,
  `MvfBu.Merkle.ComputeMerkleBranch`, `MvfBu.Merkle.ComputeMerkleRootFromBranch`.
* `MvfBu.Merkle.MerkleState.Inv` — what the first loop keeps of `matchlevel`, the branch and
  the counter.

## Main results

* `MvfBu.Merkle.climb_passed` — a climb passes clear bits of the counter, and gets on the
  branch's path when it passes `matchlevel`.
* `MvfBu.Merkle.processLeaf_inv`, `MvfBu.Merkle.foldlM_processLeaf_inv` — the first loop keeps
  its invariant and counts its leaves.

## Design

The counter has `bits` bits (32 in the source). A shift by the width is undefined in C++; the
model's loops stop at the width, and the computation then returns no result (`none`). The
counter is a natural number that reaches `2 ^ bits` only where the `uint32_t` would wrap to
`0`, and both send the next climb to the width; the sweep's `count += 1 << level`, which does
wrap before that, is taken modulo `2 ^ bits`. Keeping the width a parameter lets the
computation over a list be compared with the computation over the level above it, on one bit
less (`MvfBu.Consensus.MerkleLevels`).
-/

namespace MvfBu

namespace Merkle

open MerkleTree

variable {α : Type} [DecidableEq α] (H : α → α → α) (zero : α)

/-- The variables of `MerkleComputation` that live across its loops: the number of leaves
processed, the pending subtree hashes by level, the level whose hash depends on the leaf at
`branchpos`, whether two equal hashes were combined, and the branch so far. -/
structure MerkleState (α : Type) where
  count : ℕ
  inner : ℕ → α
  matchlevel : ℤ
  mutated : Bool
  branch : List α

/-- The variables of one climb: the level, the hash carried up, whether it depends on the leaf
at `branchpos`, `mutated`, and the branch so far. -/
structure Climb (α : Type) where
  level : ℕ
  h : α
  matchh : Bool
  mutated : Bool
  branch : List α

/-- One pass of the body of a climb: the pending hash at `level` is combined with the hash
carried up, on the left. On the branch's path the pending hash is the sibling; off it, the
carried hash is the sibling when `matchlevel` names this level, and the path joins the branch.
`check` says whether the pass tests for two equal hashes (the first loop does, the sweep does
not). -/
def Climb.step (check : Bool) (inner : ℕ → α) (matchlevel : ℤ) (c : Climb α) : Climb α where
  level := c.level + 1
  h := H (inner c.level) c.h
  matchh := c.matchh || decide (matchlevel = c.level)
  mutated := c.mutated || (check && inner c.level == c.h)
  branch := if c.matchh then c.branch ++ [inner c.level]
    else if matchlevel = c.level then c.branch ++ [c.h] else c.branch

@[simp] lemma Climb.step_level (check : Bool) (inner : ℕ → α) (matchlevel : ℤ) (c : Climb α) :
    (c.step H check inner matchlevel).level = c.level + 1 := rfl

@[simp] lemma Climb.step_matchh (check : Bool) (inner : ℕ → α) (matchlevel : ℤ) (c : Climb α) :
    (c.step H check inner matchlevel).matchh = (c.matchh || decide (matchlevel = c.level)) := rfl

/-- The loop that carries a hash up the levels of `inner` while the bits of `count` are zero:
`for (level = ...; !(count & (1 << level)); level++)` of the first loop of `MerkleComputation`,
and the loop of its sweep that propagates a hash upwards. `count` has `bits` bits (`uint32_t`);
a shift by `bits` or more is undefined, and the climb stops there for its caller to report. -/
def climb (bits : ℕ) (check : Bool) (count : ℕ) (inner : ℕ → α) (matchlevel : ℤ)
    (c : Climb α) : Climb α :=
  if bits ≤ c.level ∨ count.testBit c.level then c
  else climb bits check count inner matchlevel (c.step H check inner matchlevel)
termination_by bits - c.level
decreasing_by
  rename_i hstop
  rw [Climb.step_level]
  omega

/-- The climb ends no lower than it starts. -/
lemma le_climb_level (bits : ℕ) (check : Bool) (count : ℕ) (inner : ℕ → α) (matchlevel : ℤ)
    (c : Climb α) : c.level ≤ (climb H bits check count inner matchlevel c).level := by
  fun_induction climb H bits check count inner matchlevel c with
  | case1 c _ => exact le_rfl
  | case2 c _ ih => exact le_trans (Nat.le_succ _) ih

/-- The state before the first leaf: no leaf counted, no level matched (`matchlevel = -1`). -/
def MerkleState.init (zero : α) : MerkleState α := ⟨0, fun _ => zero, -1, false, []⟩

/-- One pass of the first loop of `MerkleComputation`: leaf number `count` is carried up from
level 0 and stored in `inner` at the level it reaches; `none` when the climb runs to the width
of the counter, which happens exactly when `count + 1` wraps to `0`. -/
def processLeaf (bits branchpos : ℕ) (s : MerkleState α) (leaf : α) : Option (MerkleState α) :=
  let c := climb H bits true (s.count + 1) s.inner s.matchlevel
    ⟨0, leaf, s.count == branchpos, s.mutated, s.branch⟩
  if bits ≤ c.level then none
  else
    some { count := s.count + 1
           inner := Function.update s.inner c.level c.h
           matchlevel := if c.matchh then c.level else s.matchlevel
           mutated := c.mutated
           branch := c.branch }

/-- `while (!(count & (1 << level))) level++;`: the lowest set bit of `count` from `level` on,
or the width of the counter when there is none. -/
def lowestLevel (bits count level : ℕ) : ℕ :=
  if bits ≤ level ∨ count.testBit level then level else lowestLevel bits count (level + 1)
termination_by bits - level

/-- The sweep of `MerkleComputation` from the head of `while (count != (1 << level))`: a hash
left alone on its level is hashed with itself (Bitcoin's rule for odd levels), `count` is
advanced as if its partner had been there (modulo `2 ^ bits`, as a `uint32_t`), and the result
is carried up as far as the bits of `count` allow. `none` when a shift by the width is
reached. -/
def sweep (bits : ℕ) (inner : ℕ → α) (matchlevel : ℤ) (count level : ℕ) (h : α) (matchh : Bool)
    (branch : List α) : Option (α × List α) :=
  if bits ≤ level then none
  else if count = 2 ^ level then some (h, branch)
  else
    let c := climb H bits false ((count + 2 ^ level) % 2 ^ bits) inner matchlevel
      ⟨level + 1, H h h, matchh, false, if matchh then branch ++ [h] else branch⟩
    sweep bits inner matchlevel ((count + 2 ^ level) % 2 ^ bits) c.level c.h c.matchh c.branch
termination_by bits - level
decreasing_by
  rename_i hbits _
  exact Nat.sub_lt_sub_left (Nat.lt_of_not_le hbits)
    (Nat.lt_of_lt_of_le (Nat.lt_succ_self level) (le_climb_level H bits false _ inner matchlevel ⟨level + 1, H h h, matchh, false, _⟩))


/-- What `MerkleComputation` does after its first loop: find the lowest level with a pending
hash (`while (!(count & (1 << level))) level++;`), take that hash and whether it is on the
branch's path, and sweep from there. -/
def finalSweep (bits : ℕ) (s : MerkleState α) : Option (α × List α) :=
  let level := lowestLevel bits s.count 0
  sweep H bits s.inner s.matchlevel s.count level (s.inner level) (decide (s.matchlevel = level))
    s.branch

/-- **`MerkleComputation(leaves, &root, &mutated, branchpos, &branch)`** on a counter of `bits`
bits (`uint32_t`, 32): the root, whether the first loop combined two equal hashes, and the
branch of the leaf at `branchpos`; `none` where the source shifts by the width of the counter,
which is undefined. `count` is a natural number here: it reaches `2 ^ bits` only where the
`uint32_t` wraps to `0`, and both send the next climb to the width. The entries of `inner` that
the source leaves uninitialized are `zero`; none is read before it is written. The source skips
the pushes onto the branch, and the matching of `matchh` in the climbs, when no branch is asked
for (`pbranch` null); the model always makes them, which changes neither the root nor
`mutated`. -/
def MerkleComputation (bits : ℕ) (leaves : List α) (branchpos : ℕ) :
    Option (α × Bool × List α) :=
  if leaves.isEmpty then some (zero, false, [])
  else do
    let s ← leaves.foldlM (processLeaf H bits branchpos) (MerkleState.init zero)
    let r ← finalSweep H bits s
    pure (r.1, s.mutated, r.2)

/-- `ComputeMerkleRoot(leaves, &mutated)`: `branchpos` is `-1` as a `uint32_t`. -/
def ComputeMerkleRoot (leaves : List α) : Option (α × Bool) :=
  (MerkleComputation H zero 32 leaves (2 ^ 32 - 1)).map fun r => (r.1, r.2.1)

/-- `ComputeMerkleBranch(leaves, position)`, for a `uint32_t` position. -/
def ComputeMerkleBranch (leaves : List α) (position : ℕ) : Option (List α) :=
  (MerkleComputation H zero 32 leaves position).map fun r => r.2.2

/-- `ComputeMerkleRootFromBranch(leaf, vMerkleBranch, nIndex)`: each branch hash is put on the
left when the low bit of `nIndex` is set, and `nIndex` is shifted right. -/
def ComputeMerkleRootFromBranch (leaf : α) (vMerkleBranch : List α) (nIndex : ℕ) : α :=
  (vMerkleBranch.foldl (fun (p : α × ℕ) it =>
    (if p.2 &&& 1 = 1 then H it p.1 else H p.1 it, p.2 >>> 1)) (leaf, nIndex)).1

/-! ## The climb -/

section Climb

variable (bits : ℕ) (check : Bool) (count : ℕ) (inner : ℕ → α) (matchlevel : ℤ)

lemma climb_of_stop {c : Climb α} (hstop : bits ≤ c.level ∨ count.testBit c.level) :
    climb H bits check count inner matchlevel c = c := by
  rw [climb, if_pos hstop]

/-- The climb stops at a set bit of `count`, or at the width. -/
lemma climb_stop (c : Climb α) :
    let c' := climb H bits check count inner matchlevel c
    bits ≤ c'.level ∨ count.testBit c'.level := by
  fun_induction climb H bits check count inner matchlevel c with
  | case1 c hstop => exact hstop
  | case2 c _ ih => exact ih

/-- A climb that starts on the branch's path stays on it. -/
lemma climb_matchh_of_matchh {c : Climb α} (hc : c.matchh = true) :
    (climb H bits check count inner matchlevel c).matchh = true := by
  fun_induction climb H bits check count inner matchlevel c with
  | case1 c _ => exact hc
  | case2 c _ ih => exact ih (by rw [Climb.step_matchh, hc, Bool.true_or])

/-- With no level to match (`matchlevel` is `-1`), a climb off the branch's path pushes
nothing. -/
lemma climb_of_not_matchh (hml : matchlevel < 0) {c : Climb α} (hc : c.matchh = false) :
    (climb H bits check count inner matchlevel c).matchh = false ∧
      (climb H bits check count inner matchlevel c).branch = c.branch := by
  fun_induction climb H bits check count inner matchlevel c with
  | case1 c _ => exact ⟨hc, rfl⟩
  | case2 c _ ih =>
    have hne : matchlevel ≠ (c.level : ℤ) := by omega
    have hstep : (c.step H check inner matchlevel).matchh = false := by
      rw [Climb.step_matchh, hc, decide_eq_false hne, Bool.or_false]
    obtain ⟨hm, hb⟩ := ih hstep
    refine ⟨hm, ?_⟩
    rw [hb, Climb.step, if_neg (by rw [hc]; decide), if_neg hne]

/-- The climb reads `count` only below the width. -/
lemma climb_mod_two_pow (c : Climb α) :
    climb H bits check (count % 2 ^ bits) inner matchlevel c =
      climb H bits check count inner matchlevel c := by
  fun_induction climb H bits check count inner matchlevel c with
  | case1 c hstop =>
    refine climb_of_stop H bits check _ inner matchlevel ?_
    rcases hstop with h | h
    · exact Or.inl h
    · by_cases hb : bits ≤ c.level
      · exact Or.inl hb
      · right
        rw [Nat.testBit_mod_two_pow, decide_eq_true (by omega), h, Bool.true_and]
  | case2 c hstop ih =>
    rw [climb, if_neg, ih]
    rw [Nat.testBit_mod_two_pow]
    simp only [not_or, Bool.and_eq_true, decide_eq_true_eq] at hstop ⊢
    exact ⟨hstop.1, fun h => hstop.2 h.2⟩

/-- The climb ends at `lowestLevel`. -/
lemma climb_level (c : Climb α) :
    (climb H bits check count inner matchlevel c).level = lowestLevel bits count c.level := by
  fun_induction climb H bits check count inner matchlevel c with
  | case1 c hstop => rw [lowestLevel, if_pos hstop]
  | case2 c hstop ih => rw [ih, Climb.step_level, lowestLevel.eq_def bits count c.level, if_neg hstop]

/-- The part of a climb's variables that `check` does not touch: all but `mutated`. -/
def Climb.path (c : Climb α) : ℕ × α × Bool × List α := (c.level, c.h, c.matchh, c.branch)

/-- Testing for mutation or not, climbs from the same level, hash and branch take the same
path. -/
lemma climb_path (check' : Bool) {c c' : Climb α} (hc : c.path = c'.path) :
    (climb H bits check count inner matchlevel c).path =
      (climb H bits check' count inner matchlevel c').path := by
  fun_induction climb H bits check count inner matchlevel c generalizing c' with
  | case1 c hstop =>
    have hl : c.level = c'.level := congrArg Prod.fst hc
    rw [climb_of_stop H bits check' count inner matchlevel (hl ▸ hstop)]
    exact hc
  | case2 c hstop ih =>
    simp only [Climb.path, Prod.mk.injEq] at hc
    obtain ⟨hl, hh, hm, hb⟩ := hc
    rw [climb.eq_def (c := c'), if_neg (by rwa [← hl])]
    apply ih
    simp only [Climb.path, Climb.step, hl, hh, hm, hb]

/-- The levels a climb passes are clear bits of `count`, and passing the level `matchlevel`
puts the climb on the branch's path. -/
lemma climb_passed (c : Climb α) (l : ℕ) (hl : c.level ≤ l)
    (hlt : l < (climb H bits check count inner matchlevel c).level) :
    count.testBit l = false ∧
      (matchlevel = l → (climb H bits check count inner matchlevel c).matchh = true) := by
  fun_induction climb H bits check count inner matchlevel c with
  | case1 c _ => omega
  | case2 c hstop ih =>
    rcases Nat.lt_or_eq_of_le hl with hl | rfl
    · exact ih (by rw [Climb.step_level]; omega) hlt
    · -- the first level passed is the start
      refine ⟨by simpa using (not_or.1 hstop).2, fun hm => ?_⟩
      apply climb_matchh_of_matchh
      simp [hm]

end Climb

/-! ## Bits of a counter one past a number -/

section Bits

/-- `n + 1` with lowest set bit `t` is `2 ^ t` above a multiple of `2 ^ (t + 1)`. -/
lemma succ_eq_of_lowest_bit {n t : ℕ} (hset : (n + 1).testBit t = true)
    (hclear : ∀ l < t, (n + 1).testBit l = false) : ∃ r, n + 1 = 2 ^ (t + 1) * r + 2 ^ t := by
  have hmod : (n + 1) % 2 ^ t = 0 := Nat.eq_of_testBit_eq fun l => by
    rw [Nat.testBit_mod_two_pow, Nat.zero_testBit]
    by_cases hl : l < t
    · rw [hclear l hl, Bool.and_false]
    · rw [decide_eq_false hl, Bool.false_and]
  have hodd : (n + 1) / 2 ^ t % 2 = 1 := by
    have hbit := Nat.testBit_div_two_pow (n + 1) 0 (n := t)
    rw [Nat.zero_add, hset, Nat.testBit_zero] at hbit
    simpa using hbit
  refine ⟨(n + 1) / 2 ^ t / 2, ?_⟩
  calc n + 1 = 2 ^ t * ((n + 1) / 2 ^ t) := (Nat.mul_div_cancel' (Nat.dvd_of_mod_eq_zero hmod)).symm
    _ = 2 ^ t * (2 * ((n + 1) / 2 ^ t / 2) + (n + 1) / 2 ^ t % 2) := by rw [Nat.div_add_mod]
    _ = 2 ^ (t + 1) * ((n + 1) / 2 ^ t / 2) + 2 ^ t := by
      rw [hodd, Nat.pow_succ, Nat.mul_add, Nat.mul_one, Nat.mul_assoc]

/-- Below the lowest set bit `t` of `n + 1`, the bits of `n` are set; bit `t` of `n` is
clear; above it `n` and `n + 1` agree. -/
lemma testBit_of_lowest_bit {n t : ℕ} (hset : (n + 1).testBit t = true)
    (hclear : ∀ l < t, (n + 1).testBit l = false) :
    n.testBit t = false ∧ ∀ l, t < l → (n + 1).testBit l = n.testBit l := by
  obtain ⟨r, hr⟩ := succ_eq_of_lowest_bit hset hclear
  have hn : n = 2 ^ (t + 1) * r + (2 ^ t - 1) := by
    have := Nat.one_le_two_pow (n := t)
    omega
  have hlow : 2 ^ t - 1 < 2 ^ (t + 1) := by
    have := Nat.pow_lt_pow_succ (a := 2) (n := t) Nat.one_lt_two
    omega
  have htop : 2 ^ t < 2 ^ (t + 1) := Nat.pow_lt_pow_succ Nat.one_lt_two
  constructor
  · rw [hn, Nat.testBit_two_pow_mul_add _ hlow, if_pos (by omega), Nat.testBit_two_pow_sub_one]
    simp
  · intro l hl
    rw [hr, hn, Nat.testBit_two_pow_mul_add _ hlow, Nat.testBit_two_pow_mul_add _ htop,
      if_neg (by omega), if_neg (by omega)]

end Bits

/-! ## The invariant of the first loop -/

section FirstLoop

variable (bits branchpos : ℕ)

/-- What the first loop keeps of `matchlevel`, the branch and the counter: before the leaf at
`branchpos` nothing is matched or pushed; `matchlevel` is `-1` or a set bit of `count` (the
level of the pending hash above that leaf); and the counter has not wrapped. -/
structure MerkleState.Inv (s : MerkleState α) : Prop where
  fresh : s.count ≤ branchpos → s.matchlevel = -1 ∧ s.branch = []
  matched : s.matchlevel = -1 ∨ (0 ≤ s.matchlevel ∧ s.count.testBit s.matchlevel.toNat)
  count_lt : s.count < 2 ^ bits

omit [DecidableEq α] in
lemma MerkleState.inv_init : (MerkleState.init zero).Inv bits branchpos :=
  ⟨fun _ => ⟨rfl, rfl⟩, Or.inl rfl, Nat.two_pow_pos bits⟩

/-- A leaf's climb that ends below the width off the branch's path leaves `matchlevel` at
`-1` or at a set bit of `count + 1` above the climb's stop.

**Proof sketch.** The climb stops at the lowest set bit `t` of `count + 1`. It did not pass
`matchlevel`, or it would be on the path; `matchlevel` is a set bit of `count`, so it is not
`t`, whose bit in `count` is clear; above `t`, `count` and `count + 1` agree. -/
lemma matchlevel_of_climb {s : MerkleState α} (hs : s.Inv bits branchpos) (check : Bool)
    {c0 : Climb α} (h0 : c0.level = 0)
    (hwidth : ¬ bits ≤ (climb H bits check (s.count + 1) s.inner s.matchlevel c0).level)
    (hm : (climb H bits check (s.count + 1) s.inner s.matchlevel c0).matchh = false) :
    s.matchlevel = -1 ∨
      ((climb H bits check (s.count + 1) s.inner s.matchlevel c0).level < s.matchlevel.toNat ∧
        0 ≤ s.matchlevel ∧ (s.count + 1).testBit s.matchlevel.toNat = true) := by
  set c := climb H bits check (s.count + 1) s.inner s.matchlevel c0 with hc
  have hset : (s.count + 1).testBit c.level = true :=
    (climb_stop H bits check (s.count + 1) s.inner s.matchlevel c0).resolve_left hwidth
  have hpassed := climb_passed H bits check (s.count + 1) s.inner s.matchlevel c0
  rw [← hc, h0] at hpassed
  rcases hs.matched with hml | ⟨hpos, hbit⟩
  · exact Or.inl hml
  · obtain ⟨hclear_t, hagree⟩ := testBit_of_lowest_bit hset
      (fun l hl => (hpassed l (Nat.zero_le l) hl).1)
    have hnot_below : ¬ s.matchlevel.toNat < c.level := fun hlt => by
      rw [(hpassed _ (Nat.zero_le _) hlt).2 (by omega)] at hm
      exact Bool.noConfusion hm
    have hne : s.matchlevel.toNat ≠ c.level := fun heq => by
      rw [heq, hclear_t] at hbit
      exact Bool.false_ne_true hbit
    refine Or.inr ⟨by omega, hpos, ?_⟩
    rw [hagree _ (by omega)]
    exact hbit

/-- A set bit of `count + 1` below the width: the counter has not wrapped. -/
lemma succ_lt_two_pow {count t : ℕ} (hlt : count < 2 ^ bits) (ht : t < bits)
    (hset : (count + 1).testBit t = true) : count + 1 < 2 ^ bits := by
  rcases Nat.lt_or_eq_of_le (show count + 1 ≤ 2 ^ bits by omega) with h' | h'
  · exact h'
  · rw [h', Nat.testBit_two_pow, decide_eq_true_eq] at hset
    omega

/-- **Step.** A leaf processed without reaching the width keeps the invariant and counts one
more leaf.

**Proof sketch.** The climb stops at a set bit of `count + 1` below the width, so the counter
has not wrapped. Before the leaf at `branchpos` the climb has no level to match and pushes
nothing. A new `matchlevel` is the climb's stop; an old one stays a set bit
(`matchlevel_of_climb`). -/
lemma processLeaf_inv {s s' : MerkleState α} {leaf : α} (hs : s.Inv bits branchpos)
    (h : processLeaf H bits branchpos s leaf = some s') :
    s'.Inv bits branchpos ∧ s'.count = s.count + 1 := by
  unfold processLeaf at h
  dsimp only at h
  set c := climb H bits true (s.count + 1) s.inner s.matchlevel
    ⟨0, leaf, s.count == branchpos, s.mutated, s.branch⟩ with hc
  by_cases hwidth : bits ≤ c.level
  · rw [if_pos hwidth] at h
    cases h
  rw [if_neg hwidth, Option.some.injEq] at h
  subst h
  have hset : (s.count + 1).testBit c.level = true :=
    (climb_stop H bits true (s.count + 1) s.inner s.matchlevel _).resolve_left hwidth
  refine ⟨⟨fun hle => ?_, ?_, ?_⟩, rfl⟩
  · -- before the leaf at `branchpos` nothing matches
    dsimp only at hle
    obtain ⟨hml, hbr⟩ := hs.fresh (by omega)
    have hoff := climb_of_not_matchh H bits true (s.count + 1) s.inner s.matchlevel
      (by omega) (c := ⟨0, leaf, s.count == branchpos, s.mutated, s.branch⟩)
      (by simp only [beq_eq_false_iff_ne]; omega)
    rw [← hc] at hoff
    simp only [hoff.1, Bool.false_eq_true, ↓reduceIte, hml, hoff.2, hbr, and_self]
  · by_cases hm : c.matchh = true
    · simp only [hm, ↓reduceIte, Int.toNat_natCast, hset]
      exact Or.inr ⟨by omega, trivial⟩
    · simp only [hm, Bool.false_eq_true, ↓reduceIte]
      rcases matchlevel_of_climb H bits branchpos hs true rfl hwidth (by simpa using hm) with
        hml | ⟨-, hpos, hbit⟩
      · exact Or.inl hml
      · exact Or.inr ⟨hpos, hbit⟩
  · exact succ_lt_two_pow bits hs.count_lt (by omega) hset

/-- **Run.** The first loop keeps the invariant and counts its leaves. -/
lemma foldlM_processLeaf_inv : ∀ (L : List α) {s s' : MerkleState α}, s.Inv bits branchpos →
    L.foldlM (processLeaf H bits branchpos) s = some s' →
      s'.Inv bits branchpos ∧ s'.count = s.count + L.length
  | [], s, s', hs, h => by
    cases h
    exact ⟨hs, rfl⟩
  | leaf :: L, s, s', hs, h => by
    rw [List.foldlM_cons] at h
    cases hstep : processLeaf H bits branchpos s leaf with
    | none => rw [hstep] at h; cases h
    | some s₁ =>
      rw [hstep] at h
      obtain ⟨hs₁, hc₁⟩ := processLeaf_inv H bits branchpos hs hstep
      obtain ⟨hs', hc'⟩ := foldlM_processLeaf_inv L hs₁ h
      exact ⟨hs', by rw [hc', hc₁, List.length_cons]; omega⟩

end FirstLoop

end Merkle

end MvfBu
