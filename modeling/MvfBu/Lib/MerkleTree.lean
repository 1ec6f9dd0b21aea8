import Mathlib

set_option autoImplicit false

/-!
# Merkle trees that pair an odd last node with itself

A Merkle tree over a list of leaves hashes adjacent nodes in pairs, level after level, until
one node is left; a level of odd length has its last node hashed with itself. The hash is any
function `H` of two nodes, and the tree of no leaves has a given root `zero`.

Two readings of the tree are used. Level by level (`nextLevel`, `levelRoot`, `levelPath`) is
the definition a reader checks. By height (`rootAt`, `mutAt`) the tree of height `h` has below
its root the trees over the first `2 ^ (h - 1)` leaves and over the rest; this reading carries
the inductions on whole and partial subtrees. The two agree at height `⌈log₂ n⌉`.

A pair of equal nodes whose subtrees hold leaves only is what a list of leaves with a repeated
tail shows against the list without it: with a hash injective on pairs, two different lists
with one root and one height always have such a pair in one of their trees.

## Main definitions

* `MerkleTree.nextLevel`, `MerkleTree.levelRoot` — the level above, and the root.
* `MerkleTree.sibling`, `MerkleTree.levelPath`, `MerkleTree.pathRoot` — the sibling path of a
  leaf, and the root a path leads to.
* `MerkleTree.pairUp`, `MerkleTree.pairsEq`, `MerkleTree.levelMutated` — pairs of equal whole
  subtrees, level by level.
* `MerkleTree.rootAt`, `MerkleTree.mutAt` — the same by height.

## Main results

* `MerkleTree.pathRoot_levelPath` — a leaf's sibling path leads to the root.
* `MerkleTree.levelRoot_eq_rootAt`, `MerkleTree.levelMutated_eq_mutAt` — the two readings agree.
* `MerkleTree.mutAt_of_rootAt_eq` — different lists with one root at one height have a pair of
  equal whole halves, for a hash injective on pairs.
-/

namespace MerkleTree

variable {α : Type} (H : α → α → α)

/-! ## Trees built level by level -/

/-- The level above: adjacent nodes hashed in pairs, an odd last node hashed with itself. -/
def nextLevel : List α → List α
  | [] => []
  | [a] => [H a a]
  | a :: b :: l => H a b :: nextLevel l

/-- The pairs of the level above whose two halves are both nodes of the level: an odd last
node is left out. -/
def pairUp : List α → List α
  | a :: b :: l => H a b :: pairUp l
  | _ => []

@[simp] lemma length_nextLevel : ∀ l : List α, (nextLevel H l).length = (l.length + 1) / 2
  | [] => by simp [nextLevel]
  | [_] => by simp [nextLevel]
  | _ :: _ :: l => by
    simp only [nextLevel, List.length_cons, length_nextLevel l]
    omega

@[simp] lemma length_pairUp : ∀ l : List α, (pairUp H l).length = l.length / 2
  | [] => by simp [pairUp]
  | [_] => by simp [pairUp]
  | _ :: _ :: l => by
    simp only [pairUp, List.length_cons, length_pairUp l]
    omega

/-- A level of even length has no odd last node: both constructions agree. -/
lemma nextLevel_of_even : ∀ l : List α, l.length % 2 = 0 → nextLevel H l = pairUp H l
  | [], _ => rfl
  | [_], h => by simp at h
  | _ :: _ :: l, h => by
    simp only [List.length_cons] at h
    rw [nextLevel, pairUp, nextLevel_of_even l (by omega)]

/-- Building the level above splits at an even position. -/
lemma nextLevel_append : ∀ (A B : List α), A.length % 2 = 0 →
    nextLevel H (A ++ B) = nextLevel H A ++ nextLevel H B
  | [], _, _ => rfl
  | [_], _, h => by simp at h
  | a :: b :: A, B, h => by
    simp only [List.length_cons] at h
    rw [List.cons_append, List.cons_append, nextLevel, nextLevel, nextLevel_append A B (by omega),
      List.cons_append]

lemma pairUp_append : ∀ (A B : List α), A.length % 2 = 0 →
    pairUp H (A ++ B) = pairUp H A ++ pairUp H B
  | [], _, _ => rfl
  | [_], _, h => by simp at h
  | a :: b :: A, B, h => by
    simp only [List.length_cons] at h
    rw [List.cons_append, List.cons_append, pairUp, pairUp, pairUp_append A B (by omega),
      List.cons_append]

variable (zero : α)

/-- **The root, level by level.** Levels are built until a single node is left; the tree of no
leaves has root `zero`. -/
def levelRoot : List α → α
  | [] => zero
  | [a] => a
  | a :: b :: l => levelRoot (nextLevel H (a :: b :: l))
termination_by l => l.length
decreasing_by simp only [length_nextLevel, List.length_cons]; omega

/-- A level of two nodes or more has the root of the level above. -/
lemma levelRoot_of_two_le {l : List α} (hl : 2 ≤ l.length) :
    levelRoot H zero l = levelRoot H zero (nextLevel H l) := by
  match l, hl with
  | a :: b :: l, _ => rw [levelRoot]


/-- The partner of node `i` in its pair: the next node for an even index (the node itself when
it is the odd last one), the previous node for an odd index. -/
def sibling (l : List α) (i : ℕ) : α :=
  if i % 2 = 0 then l.getD (i + 1) (l.getD i zero) else l.getD (i - 1) zero

/-- **The sibling path, level by level**: the partner of the node above leaf `i` on each level,
lowest level first. -/
def levelPath : List α → ℕ → List α
  | [], _ => []
  | [_], _ => []
  | a :: b :: l, i => sibling zero (a :: b :: l) i :: levelPath (nextLevel H (a :: b :: l)) (i / 2)
termination_by l => l.length
decreasing_by simp only [length_nextLevel, List.length_cons]; omega

/-- A level of two nodes or more starts its path with the sibling. -/
lemma levelPath_of_two_le {l : List α} (hl : 2 ≤ l.length) (i : ℕ) :
    levelPath H zero l i = sibling zero l i :: levelPath H zero (nextLevel H l) (i / 2) := by
  match l, hl with
  | a :: b :: l, _ => rw [levelPath]

/-- The root a path leads to from a leaf: at each level the low bit of the index says whether
the node reached so far is the right one or the left one of its pair. -/
def pathRoot : α → List α → ℕ → α
  | leaf, [], _ => leaf
  | leaf, s :: path, i => pathRoot (if i % 2 = 1 then H s leaf else H leaf s) path (i / 2)

/-- Two nodes further on, the partner is the partner in the rest of the level. -/
lemma sibling_cons_cons (a b : α) (l : List α) (i : ℕ) :
    sibling zero (a :: b :: l) (i + 2) = sibling zero l i := by
  unfold sibling
  by_cases hi2 : i % 2 = 0
  · rw [if_pos (by omega), if_pos hi2]
    simp
  · -- an odd index has a predecessor in the tail as well
    obtain ⟨j, rfl⟩ : ∃ j, i = j + 1 := ⟨i - 1, by omega⟩
    rw [if_neg (by omega), if_neg hi2]
    simp

/-- Below an even prefix, a node's partner does not see what follows the prefix. -/
lemma sibling_append_of_lt {A : List α} (hA : A.length % 2 = 0) (B : List α) {i : ℕ}
    (hi : i < A.length) : sibling zero (A ++ B) i = sibling zero A i := by
  unfold sibling
  split_ifs with h2
  · rw [List.getD_append _ _ _ _ (by omega), List.getD_append _ _ _ _ hi]
  · rw [List.getD_append _ _ _ _ (by omega)]

/-- The odd last node is its own partner. -/
lemma sibling_append_singleton {A : List α} (hA : A.length % 2 = 0) (x : α) :
    sibling zero (A ++ [x]) A.length = x := by
  unfold sibling
  rw [if_pos hA, List.getD_eq_default _ _ (by simp), List.getD_append_right _ _ _ _ le_rfl]
  simp

/-- The node above node `i` is the hash of the node and its sibling, in the order of the pair. -/
lemma getD_nextLevel : ∀ (l : List α) (i : ℕ), i < l.length →
    (nextLevel H l).getD (i / 2) zero =
      if i % 2 = 1 then H (sibling zero l i) (l.getD i zero) else H (l.getD i zero) (sibling zero l i)
  | [a], 0, _ => by simp [nextLevel, sibling]
  | a :: b :: l, 0, _ => by simp [nextLevel, sibling]
  | a :: b :: l, 1, _ => by simp [nextLevel, sibling]
  | a :: b :: l, i + 2, hi => by
    have hrec := getD_nextLevel l i (by simp only [List.length_cons] at hi; omega)
    simp only [nextLevel, show (i + 2) / 2 = i / 2 + 1 by omega, List.getD_cons_succ,
      sibling_cons_cons, Nat.add_mod_right, hrec]

/-- **Paths lead to the root.** Folding the sibling path of leaf `i` from the leaf gives the
root of the tree.

**Proof sketch.** Induction along the levels: the first step of the fold reaches the node
above the leaf (`getD_nextLevel`), whose path in the level above is the rest. -/
theorem pathRoot_levelPath : ∀ (l : List α) (i : ℕ), i < l.length →
    pathRoot H (l.getD i zero) (levelPath H zero l i) i = levelRoot H zero l
  | [a], 0, _ => by simp [levelPath, pathRoot, levelRoot]
  | a :: b :: l, i, hi => by
    have hnext : i / 2 < (nextLevel H (a :: b :: l)).length := by
      simp only [length_nextLevel, List.length_cons] at hi ⊢
      omega
    rw [levelPath, pathRoot, ← getD_nextLevel H zero _ i hi, levelRoot_of_two_le H zero (by simp)]
    exact pathRoot_levelPath _ (i / 2) hnext
termination_by l => l.length
decreasing_by simp only [length_nextLevel, List.length_cons]; omega


/-! ## Trees of a given height -/

/-- **The root of a tree of height `h`** over at most `2 ^ h` leaves. Below the root are the
trees of height `h - 1` over the first `2 ^ (h - 1)` leaves and over the rest; a tree with
nothing right of its first half has that half on both sides. -/
def rootAt : ℕ → List α → α
  | 0, l => l.headD zero
  | h + 1, l =>
    if l.length ≤ 2 ^ h then H (rootAt h l) (rootAt h l)
    else H (rootAt h (l.take (2 ^ h))) (rootAt h (l.drop (2 ^ h)))

/-- A tree one level higher is the tree over the level above the leaves. -/
lemma rootAt_succ : ∀ (h : ℕ) (l : List α), 1 ≤ l.length → l.length ≤ 2 ^ (h + 1) →
    rootAt H zero (h + 1) l = rootAt H zero h (nextLevel H l)
  | 0, [a], _, _ => by simp [rootAt, nextLevel]
  | 0, [a, b], _, _ => rfl
  | 0, _ :: _ :: _ :: _, _, h2 => by simp at h2
  | h + 1, l, h1, h2 => by
    have hnext : (nextLevel H l).length = (l.length + 1) / 2 := length_nextLevel H l
    have hp1 : 2 ^ (h + 1) = 2 * 2 ^ h := by rw [Nat.pow_succ]; omega
    have hp2 : 2 ^ (h + 1 + 1) = 2 * 2 ^ (h + 1) := by rw [Nat.pow_succ]; omega
    by_cases hshort : l.length ≤ 2 ^ (h + 1)
    · -- a short list has its first half twice, and so has the level above
      rw [rootAt, if_pos hshort, rootAt_succ h l h1 hshort, rootAt, if_pos (by omega)]
    · -- a long list splits at an even position, and so does the level above
      have htake_len : (l.take (2 ^ (h + 1))).length = 2 ^ (h + 1) := by
        rw [List.length_take]
        omega
      have hdrop_len : (l.drop (2 ^ (h + 1))).length = l.length - 2 ^ (h + 1) := List.length_drop
      have hsplit : nextLevel H l =
          nextLevel H (l.take (2 ^ (h + 1))) ++ nextLevel H (l.drop (2 ^ (h + 1))) := by
        conv_lhs => rw [← List.take_append_drop (2 ^ (h + 1)) l]
        exact nextLevel_append H _ _ (by omega)
      have htake : (nextLevel H (l.take (2 ^ (h + 1)))).length = 2 ^ h := by
        rw [length_nextLevel, htake_len]
        omega
      rw [rootAt, if_neg hshort, rootAt_succ h _ (by omega) (by omega),
        rootAt_succ h _ (by omega) (by omega), rootAt, if_neg (by omega), hsplit,
        List.take_left' htake, List.drop_left' htake]


/-- **Both constructions give one root.** The root built level by level is the root of the tree
of height `⌈log₂ n⌉` over the `n ≥ 1` leaves.

**Proof sketch.** Induction along the levels: a level of `n ≥ 2` nodes has the root of the
level above, of `⌈n / 2⌉` nodes and height one less (`rootAt_succ`). -/
theorem levelRoot_eq_rootAt : ∀ (l : List α), 1 ≤ l.length →
    levelRoot H zero l = rootAt H zero (Nat.clog 2 l.length) l
  | [a], _ => by simp [levelRoot, rootAt]
  | a :: b :: l, _ => by
    have hn : 2 ≤ (a :: b :: l).length := by simp
    have hclog : Nat.clog 2 (a :: b :: l).length =
        Nat.clog 2 (nextLevel H (a :: b :: l)).length + 1 := by
      rw [length_nextLevel, Nat.clog_of_two_le Nat.one_lt_two hn,
        show (a :: b :: l).length + 2 - 1 = (a :: b :: l).length + 1 by omega]
    rw [levelRoot_of_two_le H zero hn, levelRoot_eq_rootAt _ (by rw [length_nextLevel]; omega),
      hclog, rootAt_succ H zero _ _ (by omega)]
    rw [← hclog]
    exact Nat.le_pow_clog Nat.one_lt_two _
termination_by l => l.length
decreasing_by simp only [length_nextLevel, List.length_cons]; omega


/-! ## Pairs of equal halves -/

section Mutation

variable [DecidableEq α]

/-- Some pair of the level has two equal nodes; an odd last node is in no pair. -/
def pairsEq : List α → Bool
  | a :: b :: l => a == b || pairsEq l
  | _ => false

/-- **Equal halves, level by level.** Some level has a pair of equal nodes whose subtrees hold
leaves only: the pairs of such whole subtrees are, level after level, those of the level below
without its odd last node. -/
def levelMutated : List α → Bool
  | a :: b :: l => pairsEq (a :: b :: l) || levelMutated (pairUp H (a :: b :: l))
  | _ => false
termination_by l => l.length
decreasing_by simp only [length_pairUp, List.length_cons]; omega

/-- A level of two nodes or more: its pairs, then the level of whole pairs above. -/
lemma levelMutated_of_two_le {l : List α} (hl : 2 ≤ l.length) :
    levelMutated H l = (pairsEq l || levelMutated H (pairUp H l)) := by
  match l, hl with
  | a :: b :: l, _ => rw [levelMutated]

/-- **Equal halves in a tree of height `h`**: in one of the two subtrees, or the two subtrees
themselves when both are whole. -/
def mutAt : ℕ → List α → Bool
  | 0, _ => false
  | h + 1, l =>
    if l.length ≤ 2 ^ h then mutAt h l
    else mutAt h (l.take (2 ^ h)) || mutAt h (l.drop (2 ^ h)) ||
      (l.length == 2 ^ (h + 1) &&
        rootAt H zero h (l.take (2 ^ h)) == rootAt H zero h (l.drop (2 ^ h)))

lemma mutAt_succ_def (h : ℕ) (l : List α) :
    mutAt H zero (h + 1) l =
      if l.length ≤ 2 ^ h then mutAt H zero h l
      else mutAt H zero h (l.take (2 ^ h)) || mutAt H zero h (l.drop (2 ^ h)) ||
        (l.length == 2 ^ (h + 1) &&
          rootAt H zero h (l.take (2 ^ h)) == rootAt H zero h (l.drop (2 ^ h))) := rfl

lemma pairsEq_append : ∀ (A B : List α), A.length % 2 = 0 →
    pairsEq (A ++ B) = (pairsEq A || pairsEq B)
  | [], _, _ => rfl
  | [_], _, h => by simp at h
  | a :: b :: A, B, h => by
    simp only [List.length_cons] at h
    rw [List.cons_append, List.cons_append, pairsEq, pairsEq, pairsEq_append A B (by omega),
      Bool.or_assoc]

/-- A tree higher than it needs to be has no more pairs: only its first half is filled. -/
lemma mutAt_of_le : ∀ {h h' : ℕ} (l : List α), l.length ≤ 2 ^ h → h ≤ h' →
    mutAt H zero h' l = mutAt H zero h l
  | h, 0, l, _, hh => by rw [show h = 0 by omega]
  | h, h' + 1, l, hl, hh => by
    by_cases heq : h = h' + 1
    · rw [heq]
    · have hle : l.length ≤ 2 ^ h' :=
        le_trans hl (Nat.pow_le_pow_right (by decide) (by omega))
      rw [mutAt, if_pos hle, mutAt_of_le l hl (by omega)]

omit [DecidableEq α] in
/-- A whole tree of height `h + 1` is the tree over the pairs of its leaves. -/
lemma rootAt_succ_of_length_eq {h : ℕ} {l : List α} (hl : l.length = 2 ^ (h + 1)) :
    rootAt H zero (h + 1) l = rootAt H zero h (pairUp H l) := by
  have hp : 2 ^ (h + 1) = 2 * 2 ^ h := by rw [Nat.pow_succ]; omega
  have := Nat.two_pow_pos h
  rw [rootAt_succ H zero h l (by omega) hl.le, nextLevel_of_even H l (by omega)]

@[simp] lemma mutAt_nil : ∀ h : ℕ, mutAt H zero h ([] : List α) = false
  | 0 => rfl
  | h + 1 => by rw [mutAt_succ_def, if_pos (by simp), mutAt_nil h]

/-- A tree whose first half is whole: the equal halves of either half, or the halves themselves
when the second is whole too. -/
lemma mutAt_succ_append {h : ℕ} {A B : List α} (hA : A.length = 2 ^ h) (hB : B.length ≤ 2 ^ h) :
    mutAt H zero (h + 1) (A ++ B) =
      (mutAt H zero h A || mutAt H zero h B ||
        (B.length == 2 ^ h && rootAt H zero h A == rootAt H zero h B)) := by
  have hp : 2 ^ (h + 1) = 2 * 2 ^ h := by rw [Nat.pow_succ]; omega
  by_cases hne : B = []
  · -- nothing right of the first half
    subst hne
    have := Nat.two_pow_pos h
    rw [List.append_nil, mutAt_succ_def, if_pos hA.le, mutAt_nil, List.length_nil,
      beq_false_of_ne (by omega), Bool.false_and, Bool.or_false, Bool.or_false]
  · have hlen : (A ++ B).length = 2 ^ h + B.length := by rw [List.length_append, hA]
    have hBpos : 0 < B.length := List.length_pos_of_ne_nil hne
    rw [mutAt_succ_def, if_neg (by omega), List.take_left' hA, List.drop_left' hA, hlen]
    -- the whole tree is full exactly when its second half is
    have hfull : (2 ^ h + B.length == 2 ^ (h + 1)) = (B.length == 2 ^ h) := by
      by_cases hBh : B.length = 2 ^ h
      · rw [hBh, beq_self_eq_true, show 2 ^ h + 2 ^ h = 2 ^ (h + 1) by omega, beq_self_eq_true]
      · rw [beq_false_of_ne hBh, beq_false_of_ne (by omega)]
    rw [hfull]

/-- A tree one level higher has the equal pairs of its leaves and those of the tree over the
whole pairs above them. -/
lemma mutAt_succ : ∀ (h : ℕ) (l : List α), l.length ≤ 2 ^ (h + 1) →
    mutAt H zero (h + 1) l = (pairsEq l || mutAt H zero h (pairUp H l))
  | 0, [], _ => by simp [mutAt, pairsEq]
  | 0, [a], _ => by simp [mutAt, pairsEq]
  | 0, [a, b], _ => by simp [mutAt, pairsEq, rootAt, List.take]
  | 0, _ :: _ :: _ :: _, h2 => by simp at h2
  | h + 1, l, h2 => by
    have hp1 : 2 ^ (h + 1) = 2 * 2 ^ h := by rw [Nat.pow_succ]; omega
    have hp2 : 2 ^ (h + 1 + 1) = 2 * 2 ^ (h + 1) := by rw [Nat.pow_succ]; omega
    by_cases hshort : l.length ≤ 2 ^ (h + 1)
    · -- a short list: both trees have their first half only
      rw [mutAt_succ_def, if_pos hshort, mutAt_succ h l hshort, mutAt_succ_def H zero h (pairUp H l),
        if_pos (by rw [length_pairUp]; omega)]
    · -- a long list: its first half is whole, and the pairs above split at the middle
      obtain ⟨A, B, rfl, hAlen, hBlen⟩ : ∃ A B, l = A ++ B ∧ A.length = 2 ^ (h + 1) ∧
          B.length ≤ 2 ^ (h + 1) :=
        ⟨l.take (2 ^ (h + 1)), l.drop (2 ^ (h + 1)), (List.take_append_drop _ l).symm,
          by rw [List.length_take]; omega, by rw [List.length_drop]; omega⟩
      have hpA : (pairUp H A).length = 2 ^ h := by rw [length_pairUp]; omega
      have hpB : (pairUp H B).length ≤ 2 ^ h := by rw [length_pairUp]; omega
      -- the halves are compared exactly when the second is whole, in both readings
      have hwhole : (B.length == 2 ^ (h + 1) && rootAt H zero (h + 1) A == rootAt H zero (h + 1) B) =
          ((pairUp H B).length == 2 ^ h &&
            rootAt H zero h (pairUp H A) == rootAt H zero h (pairUp H B)) := by
        by_cases hfull : B.length = 2 ^ (h + 1)
        · rw [rootAt_succ_of_length_eq H zero hAlen, rootAt_succ_of_length_eq H zero hfull,
            length_pairUp, hfull, beq_self_eq_true, show 2 ^ (h + 1) / 2 = 2 ^ h by omega,
            beq_self_eq_true]
        · rw [length_pairUp, beq_false_of_ne hfull,
            beq_false_of_ne (show B.length / 2 ≠ 2 ^ h by omega), Bool.false_and, Bool.false_and]
      rw [mutAt_succ_append H zero hAlen hBlen, mutAt_succ h A hAlen.le, mutAt_succ h B hBlen,
        hwhole, pairsEq_append A B (by omega), pairUp_append H A B (by omega),
        mutAt_succ_append H zero hpA hpB]
      ac_rfl

/-- **Both readings of equal halves agree.** Some level has a pair of equal whole subtrees
exactly when the tree of height `⌈log₂ n⌉` over the `n` leaves has equal halves somewhere.

**Proof sketch.** Induction along the levels with `mutAt_succ`; the whole pairs above `n`
leaves are `⌊n / 2⌋` nodes, whose tree is no higher than `⌈log₂ n⌉ - 1` (`mutAt_of_le`). -/
theorem levelMutated_eq_mutAt : ∀ l : List α,
    levelMutated H l = mutAt H zero (Nat.clog 2 l.length) l
  | [] => by simp [levelMutated]
  | [a] => by simp [levelMutated, mutAt]
  | a :: b :: l => by
    have hn : 2 ≤ (a :: b :: l).length := by simp
    set n := (a :: b :: l).length with hndef
    have hclog : Nat.clog 2 n = Nat.clog 2 ((n + 1) / 2) + 1 := by
      rw [Nat.clog_of_two_le Nat.one_lt_two hn, show n + 2 - 1 = n + 1 by omega]
    -- the whole pairs above fit the tree one level lower
    have hpairs : (pairUp H (a :: b :: l)).length ≤ 2 ^ Nat.clog 2 ((n + 1) / 2) := by
      rw [length_pairUp]
      exact le_trans (by omega) (Nat.le_pow_clog Nat.one_lt_two _)
    rw [levelMutated, levelMutated_eq_mutAt (pairUp H (a :: b :: l)), hclog,
      mutAt_succ H zero _ _ (by rw [← hclog]; exact Nat.le_pow_clog Nat.one_lt_two _),
      mutAt_of_le H zero _ (Nat.le_pow_clog Nat.one_lt_two _)
        (Nat.clog_mono_right 2 ((length_pairUp H _).trans_le (Nat.div_le_div_right (Nat.le_succ n))))]
termination_by l => l.length
decreasing_by simp only [length_pairUp, List.length_cons]; omega

/-- **Equal roots show equal halves.** With a hash injective on pairs, two different lists of
leaves whose trees of one height have one root have, in one of the two trees, two equal
halves that are whole.

**Proof sketch.** Induction on the height; equal roots have equal children. Two short lists are
two trees one level lower. A long list against a short one has equal halves: both whole, or
one whole and the other not, hence different, and the induction applies to them. Two long
lists differ in one half, whose roots are equal. -/
theorem mutAt_of_rootAt_eq (hH : ∀ a b c d, H a b = H c d → a = c ∧ b = d) :
    ∀ (h : ℕ) (A B : List α), 1 ≤ A.length → A.length ≤ 2 ^ h → 1 ≤ B.length →
      B.length ≤ 2 ^ h → A ≠ B → rootAt H zero h A = rootAt H zero h B →
        (mutAt H zero h A || mutAt H zero h B) = true := by
  intro h
  induction h with
  | zero =>
    -- trees of height zero are single leaves, equal when their roots are
    intro A B hA1 hA2 hB1 hB2 hne hroot
    match A, B, hA1, hA2, hB1, hB2 with
    | [a], [b], _, _, _, _ =>
      simp only [rootAt, List.headD_cons] at hroot
      exact absurd (by rw [hroot]) hne
  | succ h ih =>
    intro A B hA1 hA2 hB1 hB2 hne hroot
    have hp : 2 ^ (h + 1) = 2 * 2 ^ h := by rw [Nat.pow_succ]; omega
    -- a long list whose halves have one root has equal whole halves
    have hlong : ∀ L : List α, 2 ^ h < L.length → L.length ≤ 2 ^ (h + 1) →
        rootAt H zero h (L.take (2 ^ h)) = rootAt H zero h (L.drop (2 ^ h)) →
          mutAt H zero (h + 1) L = true := by
      intro L hL1 hL2 hhalves
      have htake : (L.take (2 ^ h)).length = 2 ^ h := by rw [List.length_take]; omega
      have hdrop : (L.drop (2 ^ h)).length = L.length - 2 ^ h := List.length_drop
      rw [mutAt_succ_def, if_neg (by omega)]
      by_cases hfull : L.length = 2 ^ (h + 1)
      · simp [hfull, hhalves]
      · -- the second half is shorter, so the halves differ
        have hdiff : L.take (2 ^ h) ≠ L.drop (2 ^ h) := fun heq => by
          have := congrArg List.length heq
          omega
        have := ih _ _ (by omega) htake.le (by omega) (by omega) hdiff hhalves
        simp only [Bool.or_eq_true] at this ⊢
        tauto
    by_cases hA : A.length ≤ 2 ^ h <;> by_cases hB : B.length ≤ 2 ^ h
    · -- two short lists: trees one level lower, with one root
      rw [rootAt, if_pos hA, rootAt, if_pos hB] at hroot
      rw [mutAt_succ_def, if_pos hA, mutAt_succ_def, if_pos hB]
      exact ih A B hA1 hA hB1 hB hne (hH _ _ _ _ hroot).1
    · -- the long list has both halves equal to the short list's root
      rw [rootAt, if_pos hA, rootAt, if_neg hB] at hroot
      obtain ⟨h1, h2⟩ := hH _ _ _ _ hroot
      rw [hlong B (by omega) hB2 (h1.symm.trans h2), Bool.or_true]
    · rw [rootAt, if_neg hA, rootAt, if_pos hB] at hroot
      obtain ⟨h1, h2⟩ := hH _ _ _ _ hroot
      rw [hlong A (by omega) hA2 (h1.trans h2.symm), Bool.true_or]
    · -- two long lists differ in one half, and their roots there are equal
      rw [rootAt, if_neg hA, rootAt, if_neg hB] at hroot
      obtain ⟨h1, h2⟩ := hH _ _ _ _ hroot
      rw [mutAt_succ_def, if_neg hA, mutAt_succ_def, if_neg hB]
      have hlen : ∀ L : List α, 2 ^ h < L.length → (L.take (2 ^ h)).length = 2 ^ h := fun L hL => by
        rw [List.length_take]; omega
      by_cases htake : A.take (2 ^ h) = B.take (2 ^ h)
      · have hdrop : A.drop (2 ^ h) ≠ B.drop (2 ^ h) := fun hd =>
          hne (by rw [← List.take_append_drop (2 ^ h) A, htake, hd, List.take_append_drop])
        have := ih _ _ (by rw [List.length_drop]; omega) (by rw [List.length_drop]; omega)
          (by rw [List.length_drop]; omega) (by rw [List.length_drop]; omega) hdrop h2
        simp only [Bool.or_eq_true] at this ⊢
        tauto
      · have := ih _ _ (by rw [hlen A (by omega)]; omega) (hlen A (by omega)).le
          (by rw [hlen B (by omega)]; omega) (hlen B (by omega)).le htake h1
        simp only [Bool.or_eq_true] at this ⊢
        tauto

end Mutation

end MerkleTree
