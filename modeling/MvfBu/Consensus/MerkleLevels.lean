import Mathlib.Data.Nat.Pairing
import MvfBu.Consensus.Merkle

set_option autoImplicit false

/-!
# The Merkle computation, level by level

Over the hashes of the pairs of a list, `MerkleComputation` runs as it does over the list from
level 1 up, with one bit of counter less: twice the count has the same bits one place higher,
the first loop over two leaves does what one leaf one level up does, and an odd last leaf,
hashed with itself by the sweep, is the last leaf of the level above. Induction on the width
then gives the whole run: the level-by-level root, the sibling path, and `mutated` exactly when
some level has a pair of equal whole subtrees.

## Main results

* `MvfBu.Merkle.MerkleComputation_succ` — the computation over a list is the computation over
  its level above, one bit less, with the leaf's sibling first on the branch.
* `MvfBu.Merkle.MerkleComputation_eq` — a whole run: root, `mutated` and branch of the levels
  for up to `2 ^ (bits - 1)` leaves, no result past that.
* `MvfBu.Merkle.computeMerkleRoot_levels` — for up to `2 ^ 31` leaves, `ComputeMerkleRoot` and
  `ComputeMerkleBranch` give the level-by-level root and path, and the path leads back to the
  root; `MvfBu.Merkle.computeMerkleRoot_undefined_past_two_pow_31` — past `2 ^ 31` leaves
  the sweep's counter wraps and the source shifts by 32.
* `MvfBu.Merkle.mutated_of_root_collision` — with a hash injective on pairs, two different
  non-empty lists of one depth with one root have `mutated` reported by one of them (the
  CVE-2012-2459 defence); `MvfBu.Merkle.computeMerkleRoot_empty_collision` — the empty list and
  the list of one `uint256()` collide unreported.
-/

namespace MvfBu

namespace Merkle

open MerkleTree

variable {α : Type} [DecidableEq α] (H : α → α → α) (zero : α)

/-! ## The computation one level up

Over the hashes of the pairs of a list, the computation runs as it does over the list from
level 1 up, with a counter of one bit less: twice the count has the same bits one place higher.
-/

section Lift

lemma testBit_two_mul_succ (n l : ℕ) : (2 * n).testBit (l + 1) = n.testBit l := by
  rw [Nat.testBit_succ, Nat.mul_div_cancel_left n Nat.two_pos]

/-- The wrap of a doubled counter on one bit more is the double of the wrap. -/
lemma two_mul_add_mod (bits count level : ℕ) :
    (2 * count + 2 ^ (level + 1)) % 2 ^ (bits + 1) = 2 * ((count + 2 ^ level) % 2 ^ bits) := by
  rw [Nat.pow_succ, Nat.pow_succ, Nat.mul_comm (2 ^ level) 2, Nat.mul_comm (2 ^ bits) 2,
    ← Nat.mul_add, Nat.mul_mod_mul_left]

/-- A climb seen one level up: the level is one higher, `mutated` also holds what was found
at level 0, and the branch starts with what level 0 put there. -/
def Climb.lift (m0 : Bool) (pre : List α) (c : Climb α) : Climb α :=
  ⟨c.level + 1, c.h, c.matchh, m0 || c.mutated, pre ++ c.branch⟩

/-- **A climb one level up.** On twice the count and one bit more, with `inner` and
`matchlevel` one level up, a climb from one level higher runs through the same hashes and
pushes the same branch.

**Proof sketch.** Induction along the climb: bit `l + 1` of `2 * count` is bit `l` of
`count`, and each step reads `inner` and compares `matchlevel` one level up; the comparison
matters only off the branch's path. -/
lemma climb_lift (bits : ℕ) (check : Bool) (count : ℕ) {inner inner' : ℕ → α} {ml ml' : ℤ}
    (m0 : Bool) (pre : List α) (c : Climb α) :
    (∀ l, c.level ≤ l → inner (l + 1) = inner' l) →
    (c.matchh = false → ∀ l : ℕ, c.level ≤ l → (ml = ((l + 1 : ℕ) : ℤ) ↔ ml' = l)) →
    climb H (bits + 1) check (2 * count) inner ml (c.lift m0 pre) =
      (climb H bits check count inner' ml' c).lift m0 pre := by
  fun_induction climb H bits check count inner' ml' c with
  | case1 c hstop =>
    intro _ _
    rw [climb_of_stop]
    simpa only [Climb.lift, testBit_two_mul_succ, Nat.add_le_add_iff_right] using hstop
  | case2 c hstop ih =>
    intro hinner hml
    rw [climb, if_neg (by simpa only [Climb.lift, testBit_two_mul_succ, Nat.add_le_add_iff_right] using hstop)]
    rw [← ih (fun l hl => hinner l (by simp at hl; omega))
      (fun hm l hl => hml (by simp at hm; exact hm.1) l (by simp at hl; omega))]
    -- one step up reads the same hash and makes the same comparison
    have hin : inner (c.level + 1) = inner' c.level := hinner c.level le_rfl
    congr 1
    cases hm : c.matchh
    · have hcmp : ml = (c.level : ℤ) + 1 ↔ ml' = c.level := by
        simpa using hml hm c.level le_rfl
      by_cases hl : ml' = c.level
      · simp [Climb.step, Climb.lift, hm, hl, hcmp.2 hl, hin, Bool.or_assoc]
      · simp [Climb.step, Climb.lift, hm, hl, mt hcmp.1 hl, hin, Bool.or_assoc]
    · simp [Climb.step, Climb.lift, hm, hin, Bool.or_assoc]

/-- **The sweep one level up**, as `climb_lift`: on twice the count and one bit more, with
`inner` and `matchlevel` one level up above the start, the sweep from one level higher gives
the same root and the same branch after what level 0 put there.

**Proof sketch.** Induction along the sweep: its test `count = 2 ^ level` and its wrap keep
their meaning on the doubled count (`two_mul_add_mod`), and each propagation is a climb one
level up. -/
lemma sweep_lift (bits : ℕ) {inner inner' : ℕ → α} {ml ml' : ℤ} (pre : List α)
    (count level : ℕ) (h : α) (matchh : Bool) (branch : List α) :
    (∀ l, level < l → inner (l + 1) = inner' l) →
    (matchh = false → ∀ l : ℕ, level < l → (ml = ((l + 1 : ℕ) : ℤ) ↔ ml' = l)) →
    sweep H (bits + 1) inner ml (2 * count) (level + 1) h matchh (pre ++ branch) =
      (sweep H bits inner' ml' count level h matchh branch).map fun r => (r.1, pre ++ r.2) := by
  fun_induction sweep H bits inner' ml' count level h matchh branch with
  | case1 count level h matchh branch hbits =>
    intro _ _
    rw [sweep, if_pos (by omega), Option.map_none]
  | case2 level h matchh branch hbits =>
    -- the count is already the power of two of the level
    intro _ _
    rw [sweep, if_neg (by omega), if_pos (by rw [Nat.pow_succ, Nat.mul_comm]), Option.map_some]
  | case3 count level h matchh branch hbits htop c ih =>
    intro hinner hml
    have hstart : (⟨level + 1 + 1, H h h, matchh, false,
        if matchh then pre ++ branch ++ [h] else pre ++ branch⟩ : Climb α) =
        Climb.lift false pre ⟨level + 1, H h h, matchh, false,
          if matchh then branch ++ [h] else branch⟩ := by
      cases matchh <;> simp [Climb.lift]
    have hclimb := climb_lift H bits false ((count + 2 ^ level) % 2 ^ bits) false pre
      ⟨level + 1, H h h, matchh, false, if matchh then branch ++ [h] else branch⟩
      (fun l hl => hinner l (by simp at hl; omega)) (fun hm l hl => hml hm l (by simp at hl; omega))
    rw [sweep, if_neg (by omega), if_neg (by rw [Nat.pow_succ, Nat.mul_comm _ 2]; omega),
      two_mul_add_mod, hstart, hclimb]
    -- the propagation ends above `level`, and stays on the branch's path once on it
    have hup : level + 1 ≤ c.level :=
      le_climb_level H bits false _ inner' ml' ⟨level + 1, H h h, matchh, false, _⟩
    have hoff : c.matchh = false → matchh = false := fun hc => by
      cases hm : matchh
      · rfl
      · rw [climb_matchh_of_matchh H bits false _ inner' ml' hm] at hc
        exact hc
    exact ih (fun l hl => hinner l (by omega)) (fun hc l hl => hml (hoff hc) l (by omega))

/-- `inner` one level up, with `a0` at level 0. -/
def consLevel (a0 : α) (inner : ℕ → α) : ℕ → α
  | 0 => a0
  | l + 1 => inner l

omit [DecidableEq α] in
lemma update_consLevel_succ (a0 : α) (inner : ℕ → α) (l : ℕ) (h : α) :
    Function.update (consLevel a0 inner) (l + 1) h = consLevel a0 (Function.update inner l h) := by
  funext j
  cases j with
  | zero => rfl
  | succ j => simp [consLevel, Function.update_apply]

omit [DecidableEq α] in
lemma update_consLevel_zero (a0 : α) (inner : ℕ → α) (a : α) :
    Function.update (consLevel a0 inner) 0 a = consLevel a inner := by
  funext j
  cases j with
  | zero => rfl
  | succ j => simp [consLevel]

/-- `matchlevel` one level up; `-1` stays. -/
def liftLevel (ml : ℤ) : ℤ := if ml < 0 then ml else ml + 1

lemma liftLevel_eq_succ_iff (ml : ℤ) (l : ℕ) : liftLevel ml = ((l + 1 : ℕ) : ℤ) ↔ ml = l := by
  unfold liftLevel
  split_ifs <;> omega

/-- Level 0 is never a level one up. -/
lemma liftLevel_ne_zero (ml : ℤ) : liftLevel ml ≠ 0 := by
  unfold liftLevel
  split_ifs <;> omega

/-- **A state one level up**: the computation over a list, after an even number of leaves,
seen from the computation over the hashes of its pairs. Level 0 holds `a0`, `mutated` also
holds `m0` (equal leaves in a pair), and the branch starts with `pre` (the leaf's sibling). -/
def MerkleState.lift (a0 : α) (m0 : Bool) (pre : List α) (s : MerkleState α) : MerkleState α :=
  ⟨2 * s.count, consLevel a0 s.inner, liftLevel s.matchlevel, m0 || s.mutated, pre ++ s.branch⟩


/-- The left leaf of a pair, processed from a lifted state: an odd count, so no climb; the leaf
is stored at level 0, and is matched there when it is the leaf at `branchpos`. -/
lemma processLeaf_lift_left (bits branchpos : ℕ) (a0 : α) (m0 : Bool) (pre : List α)
    (s : MerkleState α) (a : α) :
    processLeaf H (bits + 1) branchpos (s.lift a0 m0 pre) a =
      some ⟨2 * s.count + 1, consLevel a s.inner,
        if 2 * s.count = branchpos then 0 else liftLevel s.matchlevel, m0 || s.mutated,
        pre ++ s.branch⟩ := by
  unfold processLeaf MerkleState.lift
  dsimp only
  rw [climb_of_stop H (bits + 1) true (2 * s.count + 1) _ _ (Or.inr (by simp))]
  simp [update_consLevel_zero]


/-- **A pair of leaves one level up.** The right leaf of a pair, processed after the left one
from a lifted state, does what processing the hash of the pair does one level up: the first
step of its climb combines the pair, may find the two leaves equal, and pushes the sibling of
the leaf at `branchpos` when it is one of the two. `branchpos'` is the position one level up
(`branchpos / 2` for a leaf of the list); the branch is still empty when it is reached.

**Proof sketch.** The first step of the climb, at level 0, is the lift of the start of the
climb one level up (`hstep`); from there `climb_lift` carries the climb, and the stored state
is the lift of the state one level up. -/
lemma processLeaf_lift_right (bits branchpos branchpos' : ℕ) (m0 : Bool) (pre : List α)
    (s : MerkleState α) (a b : α)
    (hpos : (2 * s.count = branchpos ∨ 2 * s.count + 1 = branchpos) ↔ s.count = branchpos')
    (hfresh : s.count = branchpos' → s.branch = []) :
    processLeaf H (bits + 1) branchpos ⟨2 * s.count + 1, consLevel a s.inner,
        if 2 * s.count = branchpos then 0 else liftLevel s.matchlevel, m0 || s.mutated,
        pre ++ s.branch⟩ b =
      (processLeaf H bits branchpos' s (H a b)).map (MerkleState.lift a (m0 || a == b)
        (pre ++ if 2 * s.count = branchpos then [b]
          else if 2 * s.count + 1 = branchpos then [a] else [])) := by
  set ml1 : ℤ := if 2 * s.count = branchpos then 0 else liftLevel s.matchlevel with hml1
  set sib := if 2 * s.count = branchpos then [b]
    else if 2 * s.count + 1 = branchpos then [a] else [] with hsib
  have hml0 : ml1 = 0 ↔ 2 * s.count = branchpos := by
    rw [hml1]
    split_ifs with h
    · simp [h]
    · simp [h, liftLevel_ne_zero]
  -- the first step of the climb combines the pair
  have hstep : Climb.step H true (consLevel a s.inner) ml1
      ⟨0, b, 2 * s.count + 1 == branchpos, m0 || s.mutated, pre ++ s.branch⟩ =
      Climb.lift (m0 || a == b) (pre ++ sib) ⟨0, H a b, s.count == branchpos', s.mutated, s.branch⟩ := by
    simp only [Climb.step, Climb.lift, consLevel, Climb.mk.injEq, true_and]
    refine ⟨?_, ?_, ?_⟩
    · rw [Bool.eq_iff_iff]
      simp only [Bool.or_eq_true, beq_iff_eq, decide_eq_true_eq, Int.natCast_zero, hml0, ← hpos]
      exact or_comm
    · generalize (a == b) = e
      cases m0 <;> cases e <;> simp
    · by_cases h0 : 2 * s.count = branchpos
      · rw [hfresh (hpos.1 (Or.inl h0))]
        simp [hsib, h0, hml0.2 h0]
      · by_cases h1 : 2 * s.count + 1 = branchpos
        · rw [hfresh (hpos.1 (Or.inr h1))]
          simp [hsib, h0, h1]
        · simp [hsib, h0, h1, mt hml0.1 h0]
  have hclimb : climb H (bits + 1) true (2 * s.count + 1 + 1) (consLevel a s.inner) ml1
      ⟨0, b, 2 * s.count + 1 == branchpos, m0 || s.mutated, pre ++ s.branch⟩ =
      (climb H bits true (s.count + 1) s.inner s.matchlevel
        ⟨0, H a b, s.count == branchpos', s.mutated, s.branch⟩).lift (m0 || a == b) (pre ++ sib) := by
    rw [climb, if_neg (by simp; omega), hstep, show 2 * s.count + 1 + 1 = 2 * (s.count + 1) by omega]
    refine climb_lift H bits true (s.count + 1) _ _ _ (fun l _ => rfl) fun hm l _ => ?_
    -- off the branch's path, neither leaf of the pair is at `branchpos`
    have hoff : ¬ 2 * s.count = branchpos := fun h0 => by
      simp only [beq_eq_false_iff_ne] at hm
      exact hm (hpos.1 (Or.inl h0))
    rw [hml1, if_neg hoff, liftLevel_eq_succ_iff]
  unfold processLeaf
  dsimp only
  rw [hclimb]
  set c := climb H bits true (s.count + 1) s.inner s.matchlevel
    ⟨0, H a b, s.count == branchpos', s.mutated, s.branch⟩ with hc
  by_cases hw : bits ≤ c.level
  · rw [if_pos (by simp only [Climb.lift]; omega), if_pos hw, Option.map_none]
  rw [if_neg (by simp only [Climb.lift]; omega), if_neg hw, Option.map_some]
  simp only [Climb.lift, MerkleState.lift, Option.some.injEq, MerkleState.mk.injEq,
    update_consLevel_succ, and_true, true_and]
  refine ⟨by omega, ?_⟩
  by_cases hm : c.matchh = true
  · simp only [hm, ↓reduceIte, liftLevel]
    omega
  · -- off the path at the end, the climb did not start on it
    have hoff : ¬ 2 * s.count = branchpos := fun h0 =>
      hm (climb_matchh_of_matchh H bits true _ s.inner s.matchlevel
        (by simpa using hpos.1 (Or.inl h0)))
    simp only [hm, Bool.false_eq_true, ↓reduceIte, hml1, hoff]


/-- The left leaf of the last pair of a list, or `a0` when it has no pair: what level 0 holds
after the pairs of the list are processed. -/
def lastLeft (a0 : α) : List α → α
  | a :: _ :: l => lastLeft a l
  | _ => a0

/-- The sibling of leaf `branchpos` among the leaves `L` numbered from `2 * k`, as a branch of
one hash, or nothing when that leaf is not among them. -/
def levelSib (L : List α) (k branchpos : ℕ) : List α :=
  if 2 * k ≤ branchpos ∧ branchpos < 2 * k + L.length then [sibling zero L (branchpos - 2 * k)]
  else []

omit [DecidableEq α] in
lemma levelSib_cons_cons (a b : α) (L : List α) (k branchpos : ℕ) :
    levelSib zero (a :: b :: L) k branchpos =
      (if 2 * k = branchpos then [b] else if 2 * k + 1 = branchpos then [a] else []) ++
        levelSib zero L (k + 1) branchpos := by
  unfold levelSib
  simp only [List.length_cons]
  by_cases h0 : 2 * k = branchpos
  · subst h0
    simp [sibling]
  by_cases h1 : 2 * k + 1 = branchpos
  · subst h1
    simp [sibling]
    omega
  by_cases hlt : branchpos < 2 * k
  · simp [h0, h1, show ¬ 2 * k ≤ branchpos by omega, show ¬ 2 * (k + 1) ≤ branchpos by omega]
  -- further on, the sibling is the sibling in the rest of the list
  obtain ⟨j, rfl⟩ : ∃ j, branchpos = 2 * k + 2 + j := ⟨branchpos - (2 * k + 2), by omega⟩
  have hidx : 2 * k + 2 + j - 2 * k = j + 2 := by omega
  simp only [h0, h1, ↓reduceIte, List.nil_append, hidx, sibling_cons_cons,
    show 2 * k + 2 + j - 2 * (k + 1) = j by omega]
  congr 1
  simp only [eq_iff_iff]
  omega

/-- **The first loop one level up.** Over an even number of leaves from a lifted state, the
first loop runs as the first loop over the hashes of their pairs one level up, with one bit of
counter less: it ends in the lift of where that one ends, having found equal leaves in a pair
when `pairsEq` says so, with the sibling of the leaf at `branchpos` first on the branch.

**Proof sketch.** Induction on the pairs: the left leaf is stored at level 0
(`processLeaf_lift_left`), the right one climbs as their hash one level up
(`processLeaf_lift_right`); the invariant one level up gives the empty branch the pair lemma
asks for. -/
lemma foldlM_lift (bits branchpos branchpos' : ℕ) : ∀ (L : List α) (s : MerkleState α)
    (a0 : α) (m0 : Bool) (pre : List α), L.length % 2 = 0 → s.Inv bits branchpos' →
    (∀ c, s.count ≤ c → 2 * c < 2 * s.count + L.length →
      ((2 * c = branchpos ∨ 2 * c + 1 = branchpos) ↔ c = branchpos')) →
    L.foldlM (processLeaf H (bits + 1) branchpos) (s.lift a0 m0 pre) =
      ((pairUp H L).foldlM (processLeaf H bits branchpos') s).map
        (MerkleState.lift (lastLeft a0 L) (m0 || pairsEq L) (pre ++ levelSib zero L s.count branchpos))
  | [], s, a0, m0, pre, _, _, _ => by
    rw [levelSib, if_neg (by simp only [List.length_nil]; omega)]
    simp [pairUp, pairsEq, lastLeft]
  | [_], _, _, _, _, hL, _, _ => absurd hL (by simp)
  | a :: b :: L, s, a0, m0, pre, hL, hs, hpos => by
    have hpair := hpos s.count le_rfl (by simp only [List.length_cons]; omega)
    rw [List.foldlM_cons, processLeaf_lift_left]
    simp only [Option.bind_eq_bind, Option.bind_some]
    rw [List.foldlM_cons, processLeaf_lift_right H bits branchpos branchpos' m0 pre s a b hpair
      (fun h => (hs.fresh h.le).2), pairUp, List.foldlM_cons]
    simp only [Option.bind_eq_bind, Option.bind_map, Option.map_bind]
    cases hs₁ : processLeaf H bits branchpos' s (H a b) with
    | none => rfl
    | some s₁ =>
      obtain ⟨hinv₁, hcount₁⟩ := processLeaf_inv H bits branchpos' hs hs₁
      simp only [Option.bind_some, Function.comp_apply]
      rw [foldlM_lift bits branchpos branchpos' L s₁ a (m0 || a == b) _
        (by simp only [List.length_cons] at hL; omega) hinv₁
        (fun c hc hlt => hpos c (by omega) (by simp at hlt ⊢; omega))]
      simp only [lastLeft, pairsEq, levelSib_cons_cons, hcount₁, Bool.or_assoc, List.append_assoc]


/-- The lowest set bit of twice the count, from one level up, is one above. -/
lemma lowestLevel_two_mul_succ (bits count level : ℕ) :
    lowestLevel (bits + 1) (2 * count) (level + 1) = lowestLevel bits count level + 1 := by
  fun_induction lowestLevel bits count level with
  | case1 level hstop =>
    rw [lowestLevel, if_pos]
    simpa only [testBit_two_mul_succ, Nat.add_le_add_iff_right] using hstop
  | case2 level hstop ih =>
    rw [lowestLevel, if_neg, ih]
    simpa only [testBit_two_mul_succ, Nat.add_le_add_iff_right] using hstop

/-- Twice the count has no bit at level 0. -/
lemma lowestLevel_two_mul (bits count : ℕ) :
    lowestLevel (bits + 1) (2 * count) 0 = lowestLevel bits count 0 + 1 := by
  rw [lowestLevel, if_neg (by simp), lowestLevel_two_mul_succ]

omit [DecidableEq α] in
/-- The state before the first leaf is its own lift. -/
lemma init_eq_lift : MerkleState.init zero = (MerkleState.init zero).lift zero false [] := by
  unfold MerkleState.init MerkleState.lift
  congr 1
  funext l
  cases l <;> rfl

/-- **The final sweep one level up**, from the lift of a state. -/
lemma finalSweep_lift (bits : ℕ) (a0 : α) (m0 : Bool) (pre : List α) (s : MerkleState α) :
    finalSweep H (bits + 1) (s.lift a0 m0 pre) =
      (finalSweep H bits s).map fun r => (r.1, pre ++ r.2) := by
  unfold finalSweep MerkleState.lift
  dsimp only
  rw [lowestLevel_two_mul]
  have hmatch : decide (liftLevel s.matchlevel = ((lowestLevel bits s.count 0 + 1 : ℕ) : ℤ)) =
      decide (s.matchlevel = lowestLevel bits s.count 0) :=
    decide_eq_decide.2 (liftLevel_eq_succ_iff _ _)
  rw [hmatch]
  exact sweep_lift H bits pre _ _ _ _ _ (fun l _ => rfl)
    (fun _ l _ => liftLevel_eq_succ_iff _ _)


/-- **An odd last leaf one level up.** After the pairs, the last leaf of an odd list is stored
at level 0; the sweep hashes it with itself and carries the hash up without testing for
mutation. One level up, the hash of the leaf with itself is processed as a last leaf, tested
or not, and the sweep starts where its climb stopped. Both reach the same root and branch.

**Proof sketch.** The sweep's first pass is, from level 1 up, the lift of a climb one level
down (`climb_lift`), which takes the path of the processed leaf's climb (`climb_path`). The
sweeps then agree (`sweep_lift`); the pending hash of the processed leaf is where the sweep one
level up starts, and it is on the branch's path exactly when its climb was
(`matchlevel_of_climb`). -/
lemma finalSweep_odd (bits branchpos branchpos' : ℕ) (a0 : α) (m0 : Bool) (pre : List α)
    (s : MerkleState α) (x : α) (hs : s.Inv bits branchpos') (hk : 1 ≤ s.count)
    (hlast : 2 * s.count = branchpos ↔ s.count = branchpos') :
    (processLeaf H (bits + 1) branchpos (s.lift a0 m0 pre) x).bind (finalSweep H (bits + 1)) =
      (processLeaf H bits branchpos' s (H x x)).bind fun s₁ =>
        (finalSweep H bits s₁).map fun r =>
          (r.1, pre ++ (if 2 * s.count = branchpos then [x] else []) ++ r.2) := by
  rw [processLeaf_lift_left, Option.bind_some]
  unfold finalSweep processLeaf
  dsimp only
  rw [lowestLevel, if_pos (Or.inr (by simp)), sweep, if_neg (by omega),
    if_neg (by simp only [Nat.pow_zero]; omega)]
  set ml1 : ℤ := if 2 * s.count = branchpos then 0 else liftLevel s.matchlevel with hml1
  have hml0 : decide (ml1 = ((0 : ℕ) : ℤ)) = decide (2 * s.count = branchpos) := by
    rw [hml1]
    split_ifs with h
    · simp [h]
    · simp [h, liftLevel_ne_zero]
  have hcount : (2 * s.count + 1 + 2 ^ 0) % 2 ^ (bits + 1) = 2 * ((s.count + 1) % 2 ^ bits) := by
    rw [show 2 * s.count + 1 + 2 ^ 0 = 2 * s.count + 2 ^ (0 + 1) by rw [Nat.pow_zero, Nat.zero_add,
      Nat.pow_one], two_mul_add_mod, Nat.pow_zero]
  -- the doubled last leaf starts a climb one level up
  have hstart : (⟨0 + 1, H (consLevel x s.inner 0) (consLevel x s.inner 0),
      decide (ml1 = ((0 : ℕ) : ℤ)), false,
      if decide (ml1 = ((0 : ℕ) : ℤ)) = true then pre ++ s.branch ++ [consLevel x s.inner 0]
      else pre ++ s.branch⟩ : Climb α) =
      Climb.lift false (pre ++ if 2 * s.count = branchpos then [x] else [])
        ⟨0, H x x, decide (2 * s.count = branchpos), false, s.branch⟩ := by
    rw [hml0]
    by_cases h0 : 2 * s.count = branchpos
    · rw [(hs.fresh (hlast.1 h0).le).2]
      simp [Climb.lift, consLevel, h0]
    · simp [Climb.lift, consLevel, h0]
  rw [hcount, hstart, climb_lift H bits false _ false _ _
      (fun l _ => show consLevel x s.inner (l + 1) = s.inner l from rfl) (fun hm l _ => by
      rw [hml1, if_neg (by simpa using hm), liftLevel_eq_succ_iff]),
    climb_mod_two_pow]
  -- the unchecked climb takes the path of the processed leaf's climb
  set c := climb H bits false (s.count + 1) s.inner s.matchlevel
    ⟨0, H x x, decide (2 * s.count = branchpos), false, s.branch⟩ with hc
  set c' := climb H bits true (s.count + 1) s.inner s.matchlevel
    ⟨0, H x x, s.count == branchpos', s.mutated, s.branch⟩ with hc'
  have hpath : c.path = c'.path :=
    climb_path H bits false _ _ _ true (by
      simp only [Climb.path, Prod.mk.injEq, true_and, and_true, hlast]
      exact Bool.eq_iff_iff.2 (by simp))
  simp only [Climb.path, Prod.mk.injEq] at hpath
  obtain ⟨hl, hh, hm, hb⟩ := hpath
  have hoff : c'.matchh = false → ¬ 2 * s.count = branchpos := fun hm' h0 => by
    have hon := climb_matchh_of_matchh H bits false (s.count + 1) s.inner s.matchlevel
      (c := ⟨0, H x x, decide (2 * s.count = branchpos), false, s.branch⟩) (by simpa using h0)
    rw [← hc, hm, hm'] at hon
    exact Bool.noConfusion hon
  dsimp only
  simp only [Climb.lift, hl, hh, hm, hb]
  by_cases hw : bits ≤ c'.level
  · rw [if_pos hw, Option.bind_none, sweep, if_pos (by omega)]
  rw [if_neg hw, Option.bind_some]
  have hset := (climb_stop H bits true (s.count + 1) s.inner s.matchlevel _).resolve_left hw
  rw [← hc'] at hset
  rw [Nat.mod_eq_of_lt (succ_lt_two_pow bits hs.count_lt (by omega) hset)]
  -- the sweep one level down starts where the leaf's climb stopped
  have hlow : lowestLevel bits (s.count + 1) 0 = c'.level := by
    rw [hc', climb_level]
  have hmatch : decide ((if c'.matchh = true then (c'.level : ℤ) else s.matchlevel) = c'.level) =
      c'.matchh := by
    by_cases hm' : c'.matchh = true
    · simp [hm']
    · rcases matchlevel_of_climb H bits branchpos' hs true rfl hw (by simpa using hm') with
        hml | ⟨hlt, hpos, -⟩
      · simp [hm', hml]
      · rw [← hc'] at hlt
        simp only [hm', Bool.false_eq_true, ↓reduceIte, decide_eq_false_iff_not]
        omega
  dsimp only
  rw [hlow, Function.update_self, hmatch]
  exact sweep_lift H bits _ (s.count + 1) c'.level c'.h c'.matchh c'.branch
    (fun l hl => by rw [Function.update_of_ne (by omega)]; rfl)
    (fun hm' l _ => by
      rw [hm', if_neg (by decide), hml1, if_neg (hoff hm'), liftLevel_eq_succ_iff])


omit [DecidableEq α] in
/-- From the first leaf, the sibling is the sibling in the level, when the leaf is in it. -/
lemma levelSib_zero (L : List α) (branchpos : ℕ) :
    levelSib zero L 0 branchpos = if branchpos < L.length then [sibling zero L branchpos] else [] := by
  simp [levelSib]

omit [DecidableEq α] in
/-- The sibling of a leaf of an odd list: in the pairs, or the odd last leaf itself. -/
lemma levelSib_zero_append_singleton {E : List α} (hE : E.length % 2 = 0) (x : α)
    (branchpos : ℕ) :
    levelSib zero E 0 branchpos ++ (if 2 * (E.length / 2) = branchpos then [x] else []) =
      if branchpos < (E ++ [x]).length then [sibling zero (E ++ [x]) branchpos] else [] := by
  rw [levelSib_zero, List.length_append, List.length_singleton]
  by_cases hlt : branchpos < E.length
  · rw [if_pos hlt, if_neg (by omega), if_pos (by omega), sibling_append_of_lt zero hE _ hlt,
      List.append_nil]
  · by_cases heq : branchpos = E.length
    · subst heq
      rw [if_neg hlt, if_pos (by omega), if_pos (by omega), sibling_append_singleton zero hE,
        List.nil_append]
    · rw [if_neg hlt, if_neg (by omega), if_neg (by omega), List.nil_append]

/-- `MerkleComputation` on a non-empty list, without `mutated`: the first loop, then the final
sweep. -/
lemma MerkleComputation_map (bits : ℕ) (L : List α) (branchpos : ℕ) (hL : L ≠ [])
    (f : List α → List α) :
    (MerkleComputation H zero bits L branchpos).map (fun r => (r.1, f r.2.2)) =
      (L.foldlM (processLeaf H bits branchpos) (MerkleState.init zero)).bind fun s =>
        (finalSweep H bits s).map fun r => (r.1, f r.2) := by
  unfold MerkleComputation
  rw [if_neg (by simpa using hL)]
  simp only [Option.bind_eq_bind, Option.map_bind, Function.comp_def, Option.pure_def]
  congr 1
  funext s
  cases finalSweep H bits s <;> rfl


/-- **The computation one level up.** On a list of two leaves or more and a counter of one bit
more, `MerkleComputation` gives the root and the branch that it gives on the level above with
one bit less, the branch after the sibling of the leaf at `branchpos` (when it is a leaf of
the list, whose position one level up is `branchpos / 2`).

**Proof sketch.** The first loop over the pairs of the list is the first loop one level up
(`foldlM_lift`). On an even list the final sweep is the final sweep one level up
(`finalSweep_lift`); on an odd one the last leaf and the sweep's first pass are the last leaf of
the level above and its sweep (`finalSweep_odd`). -/
theorem MerkleComputation_succ (bits : ℕ) (L : List α) (hL : 2 ≤ L.length) (branchpos : ℕ) :
    (MerkleComputation H zero (bits + 1) L branchpos).map (fun r => (r.1, r.2.2)) =
      (MerkleComputation H zero bits (nextLevel H L)
        (if branchpos < L.length then branchpos / 2 else branchpos)).map
        fun r => (r.1, (if branchpos < L.length then [sibling zero L branchpos] else []) ++ r.2.2) := by
  set branchpos' := if branchpos < L.length then branchpos / 2 else branchpos with hbp'
  have hpos : ∀ c, 2 * c + 1 < L.length →
      ((2 * c = branchpos ∨ 2 * c + 1 = branchpos) ↔ c = branchpos') := by
    intro c hc
    rw [hbp']
    split_ifs <;> omega
  have hne : L ≠ [] := List.ne_nil_of_length_pos (by omega)
  have hne' : nextLevel H L ≠ [] := List.ne_nil_of_length_pos (by simp; omega)
  have hmap := MerkleComputation_map H zero (bits + 1) L branchpos hne id
  simp only [id] at hmap
  rw [hmap, MerkleComputation_map H zero bits _ branchpos' hne']
  by_cases hpar : L.length % 2 = 0
  · -- an even list: its level above is the hashes of its pairs
    conv_lhs => rw [init_eq_lift]
    rw [nextLevel_of_even H L hpar, foldlM_lift H zero bits branchpos branchpos' L _ zero false []
      hpar (MerkleState.inv_init zero bits branchpos') (fun c _ hc => hpos c (by simp [MerkleState.init] at hc; omega)),
      Option.bind_map]
    congr 1
    funext s'
    simp only [Function.comp_apply, finalSweep_lift, Option.map_map, Function.comp_def,
      List.nil_append, MerkleState.init, levelSib_zero]
  · -- an odd list: its pairs, then its last leaf
    obtain ⟨E, x, rfl⟩ : ∃ E x, L = E ++ [x] :=
      ⟨L.dropLast, L.getLast hne, (List.dropLast_append_getLast hne).symm⟩
    have hE : E.length % 2 = 0 := by simp at hpar; omega
    rw [nextLevel_append H E [x] hE, nextLevel_of_even H E hE]
    simp only [List.foldlM_append, List.foldlM_cons, List.foldlM_nil, Option.bind_eq_bind,
      Option.pure_def, Option.bind_some, Option.bind_assoc, nextLevel, Prod.eta, Option.map_id']
    conv_lhs => rw [init_eq_lift]
    rw [foldlM_lift H zero bits branchpos branchpos' E _ zero false [] hE
      (MerkleState.inv_init zero bits branchpos')
      (fun c _ hc => hpos c (by simp [MerkleState.init] at hc ⊢; omega)), Option.bind_map]
    refine Option.bind_congr fun s' hs' => ?_
    -- after the pairs, the state one level up has counted half of them
    obtain ⟨hinv, hcount⟩ := foldlM_processLeaf_inv H bits branchpos' (pairUp H E)
      (MerkleState.inv_init zero bits branchpos') hs'
    simp only [MerkleState.init, length_pairUp, Nat.zero_add] at hcount
    rw [Function.comp_apply, finalSweep_odd H bits branchpos branchpos' _ _ _ s' x hinv
      (by simp at hL; omega) (by rw [hbp', hcount]; simp; split_ifs <;> omega)]
    simp only [MerkleState.init, List.nil_append, hcount, levelSib_zero_append_singleton zero hE]


end Lift

/-! ## Whole runs -/

section Runs

/-- With no bit of counter, the first leaf's climb already stands at the width. -/
lemma processLeaf_zero (branchpos : ℕ) (s : MerkleState α) (leaf : α) :
    processLeaf H 0 branchpos s leaf = none := by
  unfold processLeaf
  dsimp only
  rw [if_pos (Nat.zero_le _)]

/-- One leaf is its own root, with an empty branch, given one bit of counter. -/
lemma MerkleComputation_singleton (bits branchpos : ℕ) (a : α) :
    MerkleComputation H zero (bits + 1) [a] branchpos = some (a, false, []) := by
  have hleaf := processLeaf_lift_left H bits branchpos zero false [] (MerkleState.init zero) a
  rw [← init_eq_lift] at hleaf
  unfold MerkleComputation
  simp only [List.isEmpty_cons, Bool.false_eq_true, ↓reduceIte, List.foldlM_cons,
    List.foldlM_nil, Option.bind_eq_bind, Option.pure_def]
  rw [hleaf, Option.bind_some, Option.bind_some]
  unfold finalSweep
  dsimp only
  rw [lowestLevel, if_pos (Or.inr (by simp [MerkleState.init])), sweep, if_neg (by omega),
    if_pos (by simp [MerkleState.init])]
  rfl

omit [DecidableEq α] in
/-- Putting a prefix on the branch after dropping `mutated`. -/
lemma map_branch_append (pre : List α) (x : Option (α × Bool × List α)) :
    x.map (fun r => (r.1, pre ++ r.2.2)) =
      (x.map fun r => (r.1, r.2.2)).map fun p => (p.1, pre ++ p.2) := by
  cases x <;> rfl

/-- **Root and branch of a whole run.** With a counter of `bits` bits, `MerkleComputation`
gives the level-by-level root and the sibling path of the leaf at `branchpos` for up to
`2 ^ (bits - 1)` leaves, and no result for more (a shift by the width).

**Proof sketch.** Induction on `bits`, with the list and the position generalized: a list of
two leaves or more has the root and branch of its level above with one bit less
(`MerkleComputation_succ`), and fits in half the counter exactly when that level does. -/
theorem MerkleComputation_rootBranch : ∀ (bits : ℕ) (L : List α) (branchpos : ℕ),
    (MerkleComputation H zero bits L branchpos).map (fun r => (r.1, r.2.2)) =
      if 2 * L.length ≤ 2 ^ bits then
        some (levelRoot H zero L, if branchpos < L.length then levelPath H zero L branchpos else [])
      else none
  | _, [], _ => by
    simp [MerkleComputation, levelRoot]
  | 0, a :: L, branchpos => by
    rw [if_neg (by simp only [List.length_cons, Nat.pow_zero]; omega)]
    simp [MerkleComputation, processLeaf_zero]
  | bits + 1, [a], branchpos => by
    have hpow := Nat.one_le_two_pow (n := bits)
    rw [MerkleComputation_singleton, if_pos (by simp only [List.length_singleton, Nat.pow_succ]; omega)]
    simp [levelRoot, levelPath]
  | bits + 1, a :: b :: L, branchpos => by
    have hlen : 2 ≤ (a :: b :: L).length := by simp
    rw [MerkleComputation_succ H zero bits _ hlen, map_branch_append, MerkleComputation_rootBranch bits]
    -- the level above fits in half the counter exactly when the list fits
    have hfit : 2 * (nextLevel H (a :: b :: L)).length ≤ 2 ^ bits ↔
        2 * (a :: b :: L).length ≤ 2 ^ (bits + 1) := by
      rw [length_nextLevel, Nat.pow_succ]
      rcases Nat.eq_zero_or_pos bits with rfl | hb
      · simp
        omega
      · obtain ⟨m, hm⟩ : ∃ m, 2 ^ bits = 2 * m := ⟨2 ^ (bits - 1), by
          rw [← Nat.pow_succ']; congr 1; omega⟩
        rw [hm]
        simp only [List.length_cons]
        omega
    by_cases hf : 2 * (a :: b :: L).length ≤ 2 ^ (bits + 1)
    · rw [if_pos (hfit.2 hf), if_pos hf, Option.map_some, ← levelRoot_of_two_le H zero hlen]
      by_cases hi : branchpos < (a :: b :: L).length
      · have hi' : branchpos / 2 < (nextLevel H (a :: b :: L)).length := by
          simp only [length_nextLevel, List.length_cons] at hi ⊢
          omega
        simp only [hi, hi', ↓reduceIte, levelPath_of_two_le H zero hlen, List.cons_append,
          List.nil_append]
      · have hi' : ¬ branchpos < (nextLevel H (a :: b :: L)).length := by
          simp only [length_nextLevel, List.length_cons] at hi ⊢
          omega
        simp only [hi, hi', ↓reduceIte, List.nil_append]
    · rw [if_neg (mt hfit.1 hf), if_neg hf, Option.map_none]
termination_by bits => bits

/-- **`mutated` of the first loop.** The first loop finds two equal hashes combined exactly when
some level has a pair of equal whole subtrees (`levelMutated`); the odd last leaf and the sweep
test nothing.

**Proof sketch.** Induction on `bits`: over the pairs of the list, the first loop is the first
loop over the whole pairs one level up (`foldlM_lift`), having compared the leaves of each
pair; an odd last leaf is only stored (`processLeaf_lift_left`). -/
theorem foldlM_processLeaf_mutated : ∀ (bits branchpos : ℕ) (L : List α) (s : MerkleState α),
    L.foldlM (processLeaf H bits branchpos) (MerkleState.init zero) = some s →
      s.mutated = levelMutated H L
  | _, _, [], s, h => by
    cases h
    simp [MerkleState.init, levelMutated]
  | 0, _, a :: L, s, h => by
    simp [processLeaf_zero] at h
  | bits + 1, branchpos, a :: L, s, h => by
    -- the first loop over the pairs, one level up, at half the position
    have hpos : ∀ c : ℕ, (2 * c = branchpos ∨ 2 * c + 1 = branchpos) ↔ c = branchpos / 2 := by
      intro c
      omega
    have hlift := fun (E : List α) (hE : E.length % 2 = 0) =>
      foldlM_lift H zero bits branchpos (branchpos / 2) E _ zero false [] hE
        (MerkleState.inv_init zero bits (branchpos / 2)) (fun c _ _ => hpos c)
    rw [← init_eq_lift] at hlift
    by_cases hpar : (a :: L).length % 2 = 0
    · rw [hlift _ hpar] at h
      obtain ⟨s', hs', rfl⟩ := Option.map_eq_some_iff.1 h
      have hlen : 2 ≤ (a :: L).length := by simp at hpar ⊢; omega
      rw [levelMutated_of_two_le H hlen, ← foldlM_processLeaf_mutated bits _ _ s' hs']
      simp [MerkleState.lift]
    · obtain ⟨E, x, hEx⟩ : ∃ E x, a :: L = E ++ [x] :=
        ⟨(a :: L).dropLast, (a :: L).getLast (List.cons_ne_nil a L),
          (List.dropLast_append_getLast _).symm⟩
      have hE : E.length % 2 = 0 := by
        have := congrArg List.length hEx
        simp at this hpar
        omega
      rw [hEx, List.foldlM_append, hlift E hE] at h
      simp only [List.foldlM_cons, List.foldlM_nil, Option.bind_eq_bind, Option.pure_def] at h
      obtain ⟨t, ht, h⟩ := Option.bind_eq_some_iff.1 h
      obtain ⟨s', hs', rfl⟩ := Option.map_eq_some_iff.1 ht
      rw [processLeaf_lift_left, Option.bind_some, Option.some.injEq] at h
      subst h
      -- the odd last leaf is in no pair
      have hpairs : pairsEq (E ++ [x]) = pairsEq E := by
        rw [pairsEq_append E [x] hE]
        simp [pairsEq]
      have hup : pairUp H (E ++ [x]) = pairUp H E := by
        rw [pairUp_append H E [x] hE]
        simp [pairUp]
      rcases Nat.lt_or_ge E.length 1 with hE0 | hE1
      · -- a single leaf
        obtain rfl : E = [] := List.length_eq_zero_iff.1 (by omega)
        cases hs'
        rw [hEx]
        simp [MerkleState.init, levelMutated, pairsEq]
      have hlen : 2 ≤ (E ++ [x]).length := by simp; omega
      rw [hEx, levelMutated_of_two_le H hlen, hpairs, hup,
        ← foldlM_processLeaf_mutated bits _ _ s' hs']
      simp
termination_by bits => bits

/-- A run that returns reports the `mutated` of its first loop. -/
lemma MerkleComputation_mutated {bits : ℕ} {L : List α} {branchpos : ℕ} {r : α × Bool × List α}
    (h : MerkleComputation H zero bits L branchpos = some r) : r.2.1 = levelMutated H L := by
  unfold MerkleComputation at h
  split_ifs at h with hL
  · cases h
    rw [List.isEmpty_iff.1 hL]
    simp [levelMutated]
  · simp only [Option.bind_eq_bind, Option.pure_def] at h
    obtain ⟨s, hs, h⟩ := Option.bind_eq_some_iff.1 h
    obtain ⟨r', -, hr⟩ := Option.bind_eq_some_iff.1 h
    cases hr
    exact foldlM_processLeaf_mutated H zero bits branchpos L s hs

/-- **A whole run of `MerkleComputation`.** With a counter of `bits` bits, up to
`2 ^ (bits - 1)` leaves give the level-by-level root, the `mutated` of the levels' pairs and
the sibling path of the leaf at `branchpos` (empty for a position past the leaves); more
leaves give no result, the source shifting by the width of the counter. -/
theorem MerkleComputation_eq (bits : ℕ) (L : List α) (branchpos : ℕ) :
    MerkleComputation H zero bits L branchpos =
      if 2 * L.length ≤ 2 ^ bits then
        some (levelRoot H zero L, levelMutated H L,
          if branchpos < L.length then levelPath H zero L branchpos else [])
      else none := by
  have hrb := MerkleComputation_rootBranch H zero bits L branchpos
  by_cases hfit : 2 * L.length ≤ 2 ^ bits
  · rw [if_pos hfit] at hrb ⊢
    obtain ⟨r, hr, hproj⟩ := Option.map_eq_some_iff.1 hrb
    rw [Prod.mk.injEq] at hproj
    rw [hr, ← hproj.1, ← hproj.2, ← MerkleComputation_mutated H zero hr]
  · rw [if_neg hfit] at hrb ⊢
    exact Option.map_eq_none_iff.1 hrb

end Runs

/-! ## The entry points -/

section EntryPoints

/-- `ComputeMerkleRoot` gives the level-by-level root and `mutated` for up to `2 ^ 31` leaves,
and no result past that. -/
lemma ComputeMerkleRoot_eq (L : List α) :
    ComputeMerkleRoot H zero L =
      if L.length ≤ 2 ^ 31 then some (levelRoot H zero L, levelMutated H L) else none := by
  unfold ComputeMerkleRoot
  rw [MerkleComputation_eq]
  by_cases hL : L.length ≤ 2 ^ 31
  · rw [if_pos (by omega), if_pos hL, Option.map_some]
  · rw [if_neg (by omega), if_neg hL, Option.map_none]

/-- `ComputeMerkleBranch` gives the sibling path for up to `2 ^ 31` leaves. -/
lemma ComputeMerkleBranch_eq (L : List α) (position : ℕ) :
    ComputeMerkleBranch H zero L position =
      if L.length ≤ 2 ^ 31 then
        some (if position < L.length then levelPath H zero L position else [])
      else none := by
  unfold ComputeMerkleBranch
  rw [MerkleComputation_eq]
  by_cases hL : L.length ≤ 2 ^ 31
  · rw [if_pos (by omega), if_pos hL, Option.map_some]
  · rw [if_neg (by omega), if_neg hL, Option.map_none]

omit [DecidableEq α] in
/-- `ComputeMerkleRootFromBranch` folds the path as `pathRoot` does: the low bit of `nIndex`
is its parity, and the shift halves it. -/
lemma ComputeMerkleRootFromBranch_eq_pathRoot : ∀ (leaf : α) (vMerkleBranch : List α)
    (nIndex : ℕ),
    ComputeMerkleRootFromBranch H leaf vMerkleBranch nIndex = pathRoot H leaf vMerkleBranch nIndex
  | _, [], _ => rfl
  | leaf, it :: vMerkleBranch, nIndex => by
    have hstep := ComputeMerkleRootFromBranch_eq_pathRoot
      (if nIndex % 2 = 1 then H it leaf else H leaf it) vMerkleBranch (nIndex / 2)
    rw [pathRoot, ← hstep]
    unfold ComputeMerkleRootFromBranch
    rw [List.foldl_cons, Nat.and_one_is_mod, Nat.shiftRight_one]

/-- **`ComputeMerkleRoot` and `ComputeMerkleBranch` against the levels.** For up to `2 ^ 31`
leaves, `ComputeMerkleRoot` returns the root of the tree built level by level (`uint256()`
for no leaf, the leaf itself for one), and `mutated` as `levelMutated`; `ComputeMerkleBranch`
returns the sibling path of each leaf; and `ComputeMerkleRootFromBranch` leads from the leaf
along its branch back to the root. -/
theorem computeMerkleRoot_levels (L : List α) (hL : L.length ≤ 2 ^ 31) :
    ComputeMerkleRoot H zero L = some (levelRoot H zero L, levelMutated H L) ∧
      ∀ i < L.length, ComputeMerkleBranch H zero L i = some (levelPath H zero L i) ∧
        (ComputeMerkleBranch H zero L i).map
            (fun branch => ComputeMerkleRootFromBranch H (L.getD i zero) branch i) =
          (ComputeMerkleRoot H zero L).map Prod.fst := by
  have hroot : ComputeMerkleRoot H zero L = some (levelRoot H zero L, levelMutated H L) := by
    rw [ComputeMerkleRoot_eq, if_pos hL]
  refine ⟨hroot, fun i hi => ?_⟩
  have hbranch : ComputeMerkleBranch H zero L i = some (levelPath H zero L i) := by
    rw [ComputeMerkleBranch_eq, if_pos hL, if_pos hi]
  refine ⟨hbranch, ?_⟩
  rw [hbranch, hroot, Option.map_some, Option.map_some, ComputeMerkleRootFromBranch_eq_pathRoot,
    pathRoot_levelPath H zero L i hi]

example :
    ComputeMerkleRoot Nat.pair 0 [1, 2, 3] =
        some (levelRoot Nat.pair 0 [1, 2, 3], levelMutated Nat.pair [1, 2, 3]) ∧
      ∀ i < ([1, 2, 3] : List ℕ).length,
        ComputeMerkleBranch Nat.pair 0 [1, 2, 3] i = some (levelPath Nat.pair 0 [1, 2, 3] i) ∧
          (ComputeMerkleBranch Nat.pair 0 [1, 2, 3] i).map
              (fun branch => ComputeMerkleRootFromBranch Nat.pair ([1, 2, 3].getD i 0) branch i) =
            (ComputeMerkleRoot Nat.pair 0 [1, 2, 3]).map Prod.fst :=
  computeMerkleRoot_levels Nat.pair 0 [1, 2, 3] (by decide)

/-- **Past `2 ^ 31` leaves there is no root and no branch.** The sweep's `uint32_t` counter
wraps to `0` on its way to `2 ^ 32`, the climb then runs to level 32 and shifts `1` by 32,
which is undefined, and reads `inner[32]`: every count of leaves from `2 ^ 31 + 1` on, below
the `2 ^ 32` the calculator is documented for, gets there. -/
theorem computeMerkleRoot_undefined_past_two_pow_31 (L : List α) (hL : 2 ^ 31 < L.length) :
    ComputeMerkleRoot H zero L = none ∧ ∀ position, ComputeMerkleBranch H zero L position = none :=
  ⟨by rw [ComputeMerkleRoot_eq, if_neg (by omega)],
    fun position => by rw [ComputeMerkleBranch_eq, if_neg (by omega)]⟩

/-- `2 ^ 31 + 1` leaves, fewer than `2 ^ 32`, already have no root. -/
theorem computeMerkleRoot_past_two_pow_31 :
    (2 ^ 31 < (List.replicate (2 ^ 31 + 1) 0).length ∧ 2 ^ 31 + 1 < 2 ^ 32) ∧
      (ComputeMerkleRoot Nat.pair 0 (List.replicate (2 ^ 31 + 1) 0) = none ∧
        ∀ position, ComputeMerkleBranch Nat.pair 0 (List.replicate (2 ^ 31 + 1) 0) position =
          none) :=
  ⟨⟨by rw [List.length_replicate]; decide, by decide⟩,
    computeMerkleRoot_undefined_past_two_pow_31 Nat.pair 0 _
      (by rw [List.length_replicate]; decide)⟩

/-- **Mutation detection (CVE-2012-2459).** With a hash injective on pairs, two different
non-empty lists of leaves whose trees have one depth and whose computations return one root
have two equal whole subtrees combined in one of them: one of the two calls reports
`mutated`.

**Proof sketch.** Both roots are roots at the common height (`levelRoot_eq_rootAt`), and
`mutated` is `mutAt` at that height (`levelMutated_eq_mutAt`); two different lists with one
root there have a pair of equal whole halves (`mutAt_of_rootAt_eq`). -/
theorem mutated_of_root_collision (hH : ∀ a b c d, H a b = H c d → a = c ∧ b = d)
    {L₁ L₂ : List α} (hne : L₁ ≠ L₂) (h₁ : L₁ ≠ []) (h₂ : L₂ ≠ [])
    (hdepth : Nat.clog 2 L₁.length = Nat.clog 2 L₂.length) {root : α} {mutated₁ mutated₂ : Bool}
    (hr₁ : ComputeMerkleRoot H zero L₁ = some (root, mutated₁))
    (hr₂ : ComputeMerkleRoot H zero L₂ = some (root, mutated₂)) :
    mutated₁ = true ∨ mutated₂ = true := by
  rw [ComputeMerkleRoot_eq] at hr₁ hr₂
  split_ifs at hr₁ hr₂
  obtain ⟨hroot₁, rfl⟩ := Prod.mk.inj (Option.some.inj hr₁)
  obtain ⟨hroot₂, rfl⟩ := Prod.mk.inj (Option.some.inj hr₂)
  have hlen₁ : 1 ≤ L₁.length := List.length_pos_of_ne_nil h₁
  have hlen₂ : 1 ≤ L₂.length := List.length_pos_of_ne_nil h₂
  -- one root at the common height
  have hroots : rootAt H zero (Nat.clog 2 L₁.length) L₁ = rootAt H zero (Nat.clog 2 L₁.length) L₂ := by
    rw [← levelRoot_eq_rootAt H zero L₁ hlen₁, hdepth, ← levelRoot_eq_rootAt H zero L₂ hlen₂,
      hroot₁, hroot₂]
  have hmut := mutAt_of_rootAt_eq H zero hH _ L₁ L₂ hlen₁ (Nat.le_pow_clog Nat.one_lt_two _) hlen₂
    (hdepth ▸ Nat.le_pow_clog Nat.one_lt_two _) hne hroots
  rw [levelMutated_eq_mutAt, levelMutated_eq_mutAt, ← hdepth]
  simpa only [Bool.or_eq_true] using hmut

/-- The lists of the comment in `merkle.cpp`, `[1, 2, 3, 4, 5, 6]` and `[1, 2, 3, 4, 5, 6, 5, 6]`,
have one root, over the injective pairing of natural numbers; the second reports `mutated`. -/
theorem mutated_of_root_collision_cve :
    ComputeMerkleRoot Nat.pair 0 [1, 2, 3, 4, 5, 6] =
        some (levelRoot Nat.pair 0 [1, 2, 3, 4, 5, 6], levelMutated Nat.pair [1, 2, 3, 4, 5, 6]) ∧
      ComputeMerkleRoot Nat.pair 0 [1, 2, 3, 4, 5, 6, 5, 6] =
        some (levelRoot Nat.pair 0 [1, 2, 3, 4, 5, 6],
          levelMutated Nat.pair [1, 2, 3, 4, 5, 6, 5, 6]) ∧
      (levelMutated Nat.pair [1, 2, 3, 4, 5, 6] = true ∨
        levelMutated Nat.pair [1, 2, 3, 4, 5, 6, 5, 6] = true) := by
  -- two levels up, the lists are the same
  have hlevels : nextLevel Nat.pair (nextLevel Nat.pair [1, 2, 3, 4, 5, 6, 5, 6]) =
      nextLevel Nat.pair (nextLevel Nat.pair [1, 2, 3, 4, 5, 6]) := by
    simp only [nextLevel]
  have hroot : levelRoot Nat.pair 0 [1, 2, 3, 4, 5, 6, 5, 6] =
      levelRoot Nat.pair 0 [1, 2, 3, 4, 5, 6] := by
    rw [levelRoot_of_two_le _ _ (by simp), levelRoot_of_two_le _ _ (by simp [nextLevel]), hlevels,
      ← levelRoot_of_two_le _ _ (by simp [nextLevel]), ← levelRoot_of_two_le _ _ (by simp)]
  have h₁ : ComputeMerkleRoot Nat.pair 0 [1, 2, 3, 4, 5, 6] =
      some (levelRoot Nat.pair 0 [1, 2, 3, 4, 5, 6], levelMutated Nat.pair [1, 2, 3, 4, 5, 6]) := by
    rw [ComputeMerkleRoot_eq, if_pos (by decide)]
  have h₂ : ComputeMerkleRoot Nat.pair 0 [1, 2, 3, 4, 5, 6, 5, 6] =
      some (levelRoot Nat.pair 0 [1, 2, 3, 4, 5, 6],
        levelMutated Nat.pair [1, 2, 3, 4, 5, 6, 5, 6]) := by
    rw [ComputeMerkleRoot_eq, if_pos (by decide), hroot]
  -- both trees have depth 3
  have hdepth : Nat.clog 2 ([1, 2, 3, 4, 5, 6] : List ℕ).length =
      Nat.clog 2 ([1, 2, 3, 4, 5, 6, 5, 6] : List ℕ).length := by
    show Nat.clog 2 6 = Nat.clog 2 (2 ^ 3)
    rw [Nat.clog_pow _ _ Nat.one_lt_two]
    exact le_antisymm (Nat.clog_le_of_le_pow (by decide))
      ((Nat.lt_clog_iff_pow_lt Nat.one_lt_two).2 (by decide))
  exact ⟨h₁, h₂, mutated_of_root_collision Nat.pair 0 (fun _ _ _ _ h => Nat.pair_eq_pair.1 h)
    (by decide) (by simp) (by simp) hdepth h₁ h₂⟩

/-- **The empty list collides unreported.** `ComputeMerkleRoot` of no leaf is `uint256()`, and
so is the root of the single leaf `uint256()`; neither reports `mutated`, although the hash is
injective and both depths are `⌈log₂ 0⌉ = ⌈log₂ 1⌉ = 0` as `Nat.clog` counts. -/
theorem computeMerkleRoot_empty_collision :
    (∀ a b c d : ℕ, Nat.pair a b = Nat.pair c d → a = c ∧ b = d) ∧ ([] : List ℕ) ≠ [0] ∧
      Nat.clog 2 ([] : List ℕ).length = Nat.clog 2 ([0] : List ℕ).length ∧
      ComputeMerkleRoot Nat.pair 0 [] = some (0, false) ∧
      ComputeMerkleRoot Nat.pair 0 [0] = some (0, false) := by
  refine ⟨fun _ _ _ _ h => Nat.pair_eq_pair.1 h, by simp, by simp, ?_, ?_⟩
  · rw [ComputeMerkleRoot_eq, if_pos (by simp)]
    simp [levelRoot, levelMutated]
  · rw [ComputeMerkleRoot_eq, if_pos (by simp)]
    simp [levelRoot, levelMutated]

end EntryPoints

end Merkle

end MvfBu
