import Mathlib
import MvfBu.Consensus.MerkleLevels
import MvfBu.Serialize
import MvfBu.Lib.ByteBits
import MvfBu.Net.Bloom
import MvfBu.Node.Handlers

set_option autoImplicit false

/-!
# Partial Merkle trees of filtered blocks (`merkleblock.cpp`, `merkleblock.h`)

A node serving a light client sends a block as its header and a `CPartialMerkleTree`: the
transactions the client's filter matches, with just enough of the block's Merkle tree to
recompute the root. `TraverseAndBuild` walks the tree depth first from the root. At each node it
stores a bit, whether a matched transaction lies below; at a leaf, or where nothing below is
matched, it stores the node's hash (`CalcHash`) and goes no further down. `ExtractMatches` makes
the same walk, reading the bits and the hashes back in the order they were stored, collects the
matched leaves with their positions, and recomputes the root. On the wire the bits are packed
eight to a byte, least significant first, so the receiver reads them padded with zeros to a
whole byte.

## Main definitions

* `MvfBu.CPartialMerkleTree` with `CalcTreeWidth`, `CalcHash`, `TraverseAndBuild`,
  `TraverseAndExtract`, `ExtractMatches`, the constructor `CPartialMerkleTree.new`, and the
  serialization `ser`, `unser` with the bit packing `packBits`, `unpackBits`.
* `MvfBu.CMerkleBlock` — a header, the partial tree, and the matched transactions with their
  positions; built from a block with a filter or with a set of transaction ids.

## Main results

* `MvfBu.CPartialMerkleTree.CalcHash_eq_level` — `CalcHash` reads the node of the tree built
  level by level, and at the tree's height the root.
* `MvfBu.CPartialMerkleTree.TraverseAndExtract_build` — the walk that extracts reads back what
  the walk that builds stored: the node's hash and the matched leaves below it.
* `MvfBu.CPartialMerkleTree.ExtractMatches_new` — extraction inverts construction, when no two
  sibling subtrees have one hash: the root of the whole tree, the matched leaves, their positions.
* `MvfBu.CPartialMerkleTree.unser_ser` — the wire round trip, with the bits padded to a byte.
* `MvfBu.CMerkleBlock.ExtractMatches_received` — what a client extracts from the partial tree
  it receives is the block's Merkle root and the transactions the server recorded as matched.

## Implementation notes

The hash type is any `α`, with the hash of two nodes `H` and `uint256()` as `zero`. Counters
are natural numbers. `CalcTreeWidth` keeps the `unsigned int` wrap of its sum, which a tree
read from the wire with a huge `nTransactions` reaches; `1 << height` is `2 ^ height`, its
value at the heights below 32 that the loops reach. An index past the end of a vector, which
the walks never make on the trees they build, reads `zero` or `false`.
-/

namespace MvfBu

/-- `CPartialMerkleTree`: the number of transactions of the block, the flag bits and the hashes
in depth-first order, and `fBad`, set when the walk meets invalid data. -/
structure CPartialMerkleTree (α : Type) where
  nTransactions : ℕ
  vBits : List Bool
  vHash : List α
  fBad : Bool
  deriving DecidableEq, Repr

namespace CPartialMerkleTree

variable {α : Type} (H : α → α → α) (zero : α)

/-! ## The members -/

/-- `CalcTreeWidth(height)`: the number of nodes at `height`, `⌈nTransactions / 2 ^ height⌉`
computed in 32 bits. -/
def CalcTreeWidth (nTransactions height : ℕ) : ℕ :=
  ((nTransactions + 2 ^ height - 1) % 2 ^ 32) >>> height

/-- The loop `while (CalcTreeWidth(nHeight) > 1) nHeight++` from `nHeight`, for at most `fuel`
rounds. -/
def heightLoop (nTransactions : ℕ) : ℕ → ℕ → ℕ
  | 0, nHeight => nHeight
  | fuel + 1, nHeight =>
    if CalcTreeWidth nTransactions nHeight > 1 then heightLoop nTransactions fuel (nHeight + 1)
    else nHeight

/-- The height of the tree as the constructor and `ExtractMatches` compute it. From height 32
on the width is `0`, so 33 rounds always end the loop. -/
def treeHeight (nTransactions : ℕ) : ℕ := heightLoop nTransactions 33 0

/-- `CalcHash(height, pos, vTxid)`: the hash of the node at `height` and `pos`; a right child
past the end of its level is the left one again. -/
def CalcHash (nTransactions : ℕ) (vTxid : List α) : ℕ → ℕ → α
  | 0, pos => vTxid.getD pos zero
  | height + 1, pos =>
    let left := CalcHash nTransactions vTxid height (pos * 2)
    let right := if pos * 2 + 1 < CalcTreeWidth nTransactions height then
      CalcHash nTransactions vTxid height (pos * 2 + 1) else left
    H left right

/-- The positions the loop of `TraverseAndBuild` visits for the node at `height` and `pos`: `p`
from `pos << height` while below `(pos + 1) << height` and below `nTransactions`. -/
def leavesBelow (nTransactions height pos : ℕ) : List ℕ :=
  List.range' (pos <<< height) (min ((pos + 1) <<< height) nTransactions - pos <<< height)

/-- The flag of `TraverseAndBuild`: the `vMatch` flags of the leaves below the node, or-ed. -/
def parentOfMatch (nTransactions : ℕ) (vMatch : List Bool) (height pos : ℕ) : Bool :=
  (leavesBelow nTransactions height pos).foldl
    (fun fParentOfMatch p => fParentOfMatch || vMatch.getD p false) false

/-- `vBits.push_back(b)`. -/
def pushBit (t : CPartialMerkleTree α) (b : Bool) : CPartialMerkleTree α :=
  ⟨t.nTransactions, t.vBits ++ [b], t.vHash, t.fBad⟩

/-- `vHash.push_back(hash)`. -/
def pushHash (t : CPartialMerkleTree α) (hash : α) : CPartialMerkleTree α :=
  ⟨t.nTransactions, t.vBits, t.vHash ++ [hash], t.fBad⟩

/-- `TraverseAndBuild(height, pos, vTxid, vMatch)`: store the node's flag; at a leaf or over no
match store the node's hash, otherwise go down to the left child and to the right one when it
exists. -/
def TraverseAndBuild (vTxid : List α) (vMatch : List Bool) :
    ℕ → ℕ → CPartialMerkleTree α → CPartialMerkleTree α
  | 0, pos, t =>
    -- at height 0 the hash is stored whatever the flag
    let t := pushBit t (parentOfMatch t.nTransactions vMatch 0 pos)
    pushHash t (CalcHash H zero t.nTransactions vTxid 0 pos)
  | height + 1, pos, t =>
    let fParentOfMatch := parentOfMatch t.nTransactions vMatch (height + 1) pos
    let t := pushBit t fParentOfMatch
    if !fParentOfMatch then pushHash t (CalcHash H zero t.nTransactions vTxid (height + 1) pos)
    else
      let t := TraverseAndBuild vTxid vMatch height (pos * 2) t
      if pos * 2 + 1 < CalcTreeWidth t.nTransactions height then
        TraverseAndBuild vTxid vMatch height (pos * 2 + 1) t
      else t

/-- `CPartialMerkleTree(vTxid, vMatch)`: the walk from the root of a tree of
`vTxid.size()` transactions, counted in an `unsigned int`. -/
def new (vTxid : List α) (vMatch : List Bool) : CPartialMerkleTree α :=
  TraverseAndBuild H zero vTxid vMatch (treeHeight (vTxid.length % 2 ^ 32)) 0
    ⟨vTxid.length % 2 ^ 32, [], [], false⟩

/-- What `TraverseAndExtract` passes by reference: the bits and the hashes used so far, the
matched hashes and their positions, and the tree's `fBad`. -/
structure ExtractState (α : Type) where
  nBitsUsed : ℕ
  nHashUsed : ℕ
  vMatch : List α
  vnIndex : List ℕ
  fBad : Bool
  deriving DecidableEq, Repr

/-- The branch of `TraverseAndExtract` at a leaf or over no match: the next stored hash, a
matched transaction when the node is a leaf with its flag set. -/
def useHash (t : CPartialMerkleTree α) (height pos : ℕ) (fParentOfMatch : Bool)
    (s : ExtractState α) : α × ExtractState α :=
  if t.vHash.length ≤ s.nHashUsed then (zero, { s with fBad := true })
  else
    let hash := t.vHash.getD s.nHashUsed zero
    let s := { s with nHashUsed := s.nHashUsed + 1 }
    if height = 0 ∧ fParentOfMatch = true then
      (hash, { s with vMatch := s.vMatch ++ [hash], vnIndex := s.vnIndex ++ [pos] })
    else (hash, s)

variable [DecidableEq α]

/-- `TraverseAndExtract(height, pos, nBitsUsed, nHashUsed, vMatch, vnIndex)`: the hash of the
node, read back from the bits and the hashes in the order `TraverseAndBuild` stores them; two
equal children set `fBad`. -/
def TraverseAndExtract (t : CPartialMerkleTree α) :
    ℕ → ℕ → ExtractState α → α × ExtractState α
  | 0, pos, s =>
    if t.vBits.length ≤ s.nBitsUsed then (zero, { s with fBad := true })
    else
      useHash zero t 0 pos (t.vBits.getD s.nBitsUsed false)
        { s with nBitsUsed := s.nBitsUsed + 1 }
  | height + 1, pos, s =>
    if t.vBits.length ≤ s.nBitsUsed then (zero, { s with fBad := true })
    else
      let fParentOfMatch := t.vBits.getD s.nBitsUsed false
      let s := { s with nBitsUsed := s.nBitsUsed + 1 }
      if !fParentOfMatch then useHash zero t (height + 1) pos fParentOfMatch s
      else
        let l := TraverseAndExtract t height (pos * 2) s
        if pos * 2 + 1 < CalcTreeWidth t.nTransactions height then
          let r := TraverseAndExtract t height (pos * 2 + 1) l.2
          (H l.1 r.1, if r.1 = l.1 then { r.2 with fBad := true } else r.2)
        else (H l.1 l.1, l.2)

/-- `ExtractMatches(vMatch, vnIndex)`: the root, the matched hashes in `vMatch` (cleared first)
and their positions appended to `vnIndex` (which is not cleared); `uint256()` for a tree of no
transactions, with more hashes than transactions or fewer bits than hashes, and when the walk
fails, leaves a further byte of bits or leaves hashes unused. The state returned carries the
tree's `fBad` after the call. -/
def ExtractMatches (t : CPartialMerkleTree α) (vnIndex : List ℕ) : α × ExtractState α :=
  let s : ExtractState α := ⟨0, 0, [], vnIndex, t.fBad⟩
  if t.nTransactions = 0 then (zero, s)
  else if t.nTransactions < t.vHash.length then (zero, s)
  else if t.vBits.length < t.vHash.length then (zero, s)
  else
    let r := TraverseAndExtract H zero t (treeHeight t.nTransactions) 0 s
    if r.2.fBad then (zero, r.2)
    else if (r.2.nBitsUsed + 7) / 8 ≠ (t.vBits.length + 7) / 8 then (zero, r.2)
    else if r.2.nHashUsed ≠ t.vHash.length then (zero, r.2)
    else r

/-! ## Widths and levels -/

section Levels

omit [DecidableEq α]

/-- Below `2 ^ 32` the sum does not wrap: the width is `⌈nTransactions / 2 ^ height⌉`. -/
lemma CalcTreeWidth_of_le {n height : ℕ} (hw : n + 2 ^ height ≤ 2 ^ 32) :
    CalcTreeWidth n height = (n + 2 ^ height - 1) / 2 ^ height := by
  rw [CalcTreeWidth, Nat.mod_eq_of_lt (by omega), Nat.shiftRight_eq_div_pow]

lemma two_pow_le_two_pow_succ (k : ℕ) : 2 ^ k ≤ 2 ^ (k + 1) :=
  Nat.pow_le_pow_right (by norm_num) (Nat.le_succ k)

/-- Rounding up `n / 2a` is rounding up `n / a`, then half of it. -/
lemma ceil_div_two_mul (n a : ℕ) (ha : 0 < a) :
    (n + 2 * a - 1) / (2 * a) = ((n + a - 1) / a + 1) / 2 := by
  have hsucc : (n + a - 1) / a + 1 = (n + 2 * a - 1) / a := by
    rw [← Nat.add_div_right _ ha]
    congr 1
    omega
  rw [hsucc, Nat.div_div_eq_div_mul, Nat.mul_comm]

/-- The width one level up is half the width, rounded up. -/
lemma CalcTreeWidth_succ {n height : ℕ} (hw : n + 2 ^ (height + 1) ≤ 2 ^ 32) :
    CalcTreeWidth n (height + 1) = (CalcTreeWidth n height + 1) / 2 := by
  have hw' : n + 2 ^ height ≤ 2 ^ 32 := le_trans (by have := two_pow_le_two_pow_succ height; omega) hw
  rw [CalcTreeWidth_of_le hw, CalcTreeWidth_of_le hw', Nat.pow_succ, Nat.mul_comm,
    ceil_div_two_mul n _ (Nat.two_pow_pos height)]

/-- The level `k` steps above the leaves has the width of the tree at height `k`. -/
lemma length_level (L : List α) : ∀ k, L.length + 2 ^ k ≤ 2 ^ 32 →
    ((MerkleTree.nextLevel H)^[k] L).length = CalcTreeWidth L.length k
  | 0, hw => by
    rw [CalcTreeWidth_of_le hw]
    simp
  | k + 1, hw => by
    have hw' : L.length + 2 ^ k ≤ 2 ^ 32 := by
      have := two_pow_le_two_pow_succ k
      omega
    rw [Function.iterate_succ_apply', MerkleTree.length_nextLevel, length_level L k hw',
      CalcTreeWidth_succ hw]

/-- Inside a list the default of `getD` does not matter. -/
lemma getD_of_lt {l : List α} {i : ℕ} (hi : i < l.length) (d d' : α) : l.getD i d = l.getD i d' := by
  simp [List.getD_eq_getElem?_getD, List.getElem?_eq_getElem hi]

/-- **`CalcHash` reads the tree built level by level.** The node at `height` and `pos` of a
tree over `L` is node `pos` of the level `height` steps above the leaves.

**Proof sketch.** Induction on the height: the node above is the hash of the node at `2 pos`
and of its sibling, which is the node at `2 pos + 1` or, past the end of the level, the node
itself (`MerkleTree.getD_nextLevel`). -/
theorem CalcHash_eq_level (L : List α) : ∀ height pos, L.length + 2 ^ height ≤ 2 ^ 32 →
    pos < CalcTreeWidth L.length height →
    CalcHash H zero L.length L height pos = ((MerkleTree.nextLevel H)^[height] L).getD pos zero
  | 0, pos, _, _ => rfl
  | height + 1, pos, hw, hpos => by
    have hw' : L.length + 2 ^ height ≤ 2 ^ 32 := by
      have := two_pow_le_two_pow_succ height
      omega
    have hlen := length_level H L height hw'
    set l := (MerkleTree.nextLevel H)^[height] L
    have hleft : pos * 2 < l.length := by
      rw [CalcTreeWidth_succ hw] at hpos
      omega
    have hnext := MerkleTree.getD_nextLevel H zero l (pos * 2) hleft
    rw [Nat.mul_div_cancel pos (by norm_num : 0 < 2), if_neg (by omega)] at hnext
    rw [Function.iterate_succ_apply', hnext, MerkleTree.sibling, if_pos (by omega), CalcHash,
      CalcHash_eq_level L height (pos * 2) hw' (hlen ▸ hleft)]
    split_ifs with hright
    · rw [CalcHash_eq_level L height (pos * 2 + 1) hw' hright]
      exact congrArg _ (getD_of_lt (hlen ▸ hright) _ _)
    · rw [List.getD_eq_default l _ (show l.length ≤ pos * 2 + 1 by omega)]

/-- The loop of the height from `k`: it stops at a width of at most one or when out of fuel,
past widths above one. -/
lemma heightLoop_spec (n : ℕ) : ∀ fuel k,
    k ≤ heightLoop n fuel k ∧
      (CalcTreeWidth n (heightLoop n fuel k) ≤ 1 ∨ heightLoop n fuel k = k + fuel) ∧
      ∀ j, k ≤ j → j < heightLoop n fuel k → 1 < CalcTreeWidth n j
  | 0, k => ⟨le_rfl, Or.inr rfl, fun j hk hj => absurd hj (by simp [heightLoop]; omega)⟩
  | fuel + 1, k => by
    unfold heightLoop
    split_ifs with hwide
    · obtain ⟨hle, hstop, habove⟩ := heightLoop_spec n fuel (k + 1)
      refine ⟨by omega, by omega, fun j hk hj => ?_⟩
      rcases Nat.eq_or_lt_of_le hk with rfl | hk'
      · exact hwide
      · exact habove j hk' hj
    · exact ⟨le_rfl, Or.inl (by omega), fun j hk hj => absurd hj (by omega)⟩

/-- From height 32 on nothing is left of the 32-bit sum. -/
lemma CalcTreeWidth_eq_zero_of_le {n height : ℕ} (hh : ¬height < 32) : CalcTreeWidth n height = 0 := by
  rw [CalcTreeWidth, Nat.shiftRight_eq_div_pow]
  apply Nat.div_eq_of_lt
  calc _ < 2 ^ 32 := Nat.mod_lt _ (by norm_num)
    _ ≤ 2 ^ height := Nat.pow_le_pow_right (by norm_num) (by omega)

/-- **The tree's height.** The loop stops at the first height of width at most one. -/
lemma treeHeight_spec (n : ℕ) :
    CalcTreeWidth n (treeHeight n) ≤ 1 ∧ ∀ j < treeHeight n, 1 < CalcTreeWidth n j := by
  obtain ⟨-, hstop, habove⟩ := heightLoop_spec n 33 0
  refine ⟨?_, fun j hj => habove j (Nat.zero_le j) hj⟩
  rcases hstop with h | h
  · exact h
  · have := habove 32 (by omega) (by rw [h]; omega)
    rw [CalcTreeWidth_eq_zero_of_le (by omega)] at this
    omega

/-- A tree of at most `2 ^ 31` transactions is at most 31 high. -/
lemma treeHeight_le {n : ℕ} (hn : n ≤ 2 ^ 31) : treeHeight n ≤ 31 := by
  by_contra hlt
  have hwide := (treeHeight_spec n).2 31 (by omega)
  rw [CalcTreeWidth_of_le (by omega)] at hwide
  have : (n + 2 ^ 31 - 1) / 2 ^ 31 < 2 := by
    rw [Nat.div_lt_iff_lt_mul (by norm_num)]
    omega
  omega

/-- Levels of two nodes or more up to the level of one node: the root is that node. -/
lemma levelRoot_eq_getD_iterate : ∀ (k : ℕ) (L : List α),
    (∀ j < k, 2 ≤ ((MerkleTree.nextLevel H)^[j] L).length) →
    ((MerkleTree.nextLevel H)^[k] L).length = 1 →
    MerkleTree.levelRoot H zero L = ((MerkleTree.nextLevel H)^[k] L).getD 0 zero
  | 0, L, _, h1 => by
    obtain ⟨a, rfl⟩ := List.length_eq_one_iff.1 h1
    simp [MerkleTree.levelRoot]
  | k + 1, L, h2, h1 => by
    have hL : 2 ≤ L.length := h2 0 (Nat.succ_pos k)
    rw [MerkleTree.levelRoot_of_two_le H zero hL, Function.iterate_succ_apply]
    apply levelRoot_eq_getD_iterate k
    · intro j hj
      rw [← Function.iterate_succ_apply]
      exact h2 (j + 1) (by omega)
    · rwa [← Function.iterate_succ_apply]

/-- Up to `2 ^ 31` transactions no sum of the widths up to the tree's height wraps. -/
lemma add_two_pow_treeHeight_le {n : ℕ} (h31 : n ≤ 2 ^ 31) : n + 2 ^ treeHeight n ≤ 2 ^ 32 := by
  have hpow : 2 ^ treeHeight n ≤ 2 ^ 31 := Nat.pow_le_pow_right (by norm_num) (treeHeight_le h31)
  omega

/-- For one to `2 ^ 31` transactions the top of the tree is one node wide. -/
lemma CalcTreeWidth_treeHeight {n : ℕ} (h1 : n ≠ 0) (h31 : n ≤ 2 ^ 31) :
    CalcTreeWidth n (treeHeight n) = 1 := by
  have hw := add_two_pow_treeHeight_le h31
  have : 1 ≤ CalcTreeWidth n (treeHeight n) := by
    rw [CalcTreeWidth_of_le hw, Nat.one_le_div_iff (Nat.two_pow_pos _)]
    omega
  have := (treeHeight_spec n).1
  omega

/-- The tree's height leaves room for every transaction. -/
lemma le_two_pow_treeHeight {n : ℕ} (h31 : n ≤ 2 ^ 31) : n ≤ 2 ^ treeHeight n := by
  have hstop := (treeHeight_spec n).1
  rw [CalcTreeWidth_of_le (add_two_pow_treeHeight_le h31)] at hstop
  have hlt : n + 2 ^ treeHeight n - 1 < 2 * 2 ^ treeHeight n :=
    (Nat.div_lt_iff_lt_mul (Nat.two_pow_pos _)).1 (by omega)
  omega

/-- **The root at the tree's height.** For one to `2 ^ 31` transactions, the node at the top
of the tree is the root built level by level. -/
theorem CalcHash_treeHeight (L : List α) (h1 : L ≠ []) (h31 : L.length ≤ 2 ^ 31) :
    CalcHash H zero L.length L (treeHeight L.length) 0 = MerkleTree.levelRoot H zero L := by
  obtain ⟨hstop, habove⟩ := treeHeight_spec L.length
  have hlen1 : L.length ≠ 0 := by simpa using h1
  have hw := add_two_pow_treeHeight_le h31
  -- the top level is one node wide, every level below it two or more
  have htop := CalcTreeWidth_treeHeight hlen1 h31
  rw [CalcHash_eq_level H zero L _ 0 hw (by omega)]
  symm
  apply levelRoot_eq_getD_iterate H zero
  · intro j hj
    have hpj : 2 ^ j ≤ 2 ^ treeHeight L.length := Nat.pow_le_pow_right (by norm_num) hj.le
    rw [length_level H L j (by omega)]
    exact habove j hj
  · rw [length_level H L _ hw, htop]

end Levels

/-! ## The leaves below a node -/

section Leaves

omit [DecidableEq α]

/-- **The matched leaves below a node**: the positions below it whose `vMatch` flag is set. -/
def matchedBelow (nTransactions : ℕ) (vMatch : List Bool) (height pos : ℕ) : List ℕ :=
  (leavesBelow nTransactions height pos).filter (vMatch.getD · false)

lemma foldl_or_eq_any (g : ℕ → Bool) :
    ∀ (l : List ℕ) (b : Bool), l.foldl (fun f p => f || g p) b = (b || l.any g)
  | [], b => by simp
  | p :: l, b => by
    rw [List.foldl_cons, foldl_or_eq_any g l, List.any_cons, Bool.or_assoc]

/-- The flag of a node is set exactly when a leaf below it is matched. -/
lemma parentOfMatch_eq_false_iff (n : ℕ) (vMatch : List Bool) (height pos : ℕ) :
    parentOfMatch n vMatch height pos = false ↔ matchedBelow n vMatch height pos = [] := by
  rw [parentOfMatch, foldl_or_eq_any, Bool.false_or, matchedBelow, List.any_eq_false,
    List.filter_eq_nil_iff]

/-- A leaf inside the tree is the one position below itself. -/
lemma leavesBelow_zero {n pos : ℕ} (hpos : pos < n) : leavesBelow n 0 pos = [pos] := by
  rw [leavesBelow, Nat.shiftLeft_zero, Nat.shiftLeft_zero, show min (pos + 1) n - pos = 1 by omega]
  rfl

lemma matchedBelow_zero {n pos : ℕ} (vMatch : List Bool) (hpos : pos < n) :
    matchedBelow n vMatch 0 pos = if vMatch.getD pos false then [pos] else [] := by
  rw [matchedBelow, leavesBelow_zero hpos, List.filter_singleton]
  cases vMatch.getD pos false <;> rfl

lemma parentOfMatch_zero {n pos : ℕ} (vMatch : List Bool) (hpos : pos < n) :
    parentOfMatch n vMatch 0 pos = vMatch.getD pos false := by
  rw [parentOfMatch, leavesBelow_zero hpos]
  simp

/-- The positions below a node are those below its left child, then those below its right
child. -/
lemma leavesBelow_succ (n height pos : ℕ) :
    leavesBelow n (height + 1) pos =
      leavesBelow n height (pos * 2) ++ leavesBelow n height (pos * 2 + 1) := by
  simp only [leavesBelow, Nat.shiftLeft_eq]
  -- the node's first position, its right child's, and the next node's, `P` apart
  have e1 : pos * 2 ^ (height + 1) = pos * 2 * 2 ^ height := by ring
  have e2 : (pos + 1) * 2 ^ (height + 1) = pos * 2 * 2 ^ height + 2 * 2 ^ height := by ring
  have e3 : (pos * 2 + 1) * 2 ^ height = pos * 2 * 2 ^ height + 2 ^ height := by ring
  have e4 : (pos * 2 + 1 + 1) * 2 ^ height = pos * 2 * 2 ^ height + 2 * 2 ^ height := by ring
  rw [e1, e2, e3, e4]
  generalize pos * 2 * 2 ^ height = a
  generalize 2 ^ height = P
  by_cases hm : a + P ≤ n
  · have happ := @List.range'_append_1 a (min (a + P) n - a) (min (a + 2 * P) n - (a + P))
    rw [show a + (min (a + P) n - a) = a + P by omega] at happ
    rw [happ]
    congr 1
    omega
  · rw [show min (a + 2 * P) n - (a + P) = 0 by omega, List.range'_zero, List.append_nil]
    congr 1
    omega

lemma matchedBelow_succ (n : ℕ) (vMatch : List Bool) (height pos : ℕ) :
    matchedBelow n vMatch (height + 1) pos =
      matchedBelow n vMatch height (pos * 2) ++ matchedBelow n vMatch height (pos * 2 + 1) := by
  rw [matchedBelow, leavesBelow_succ, List.filter_append]
  rfl

/-- Past the width of its level a node has no position below it. -/
lemma leavesBelow_eq_nil {n height p : ℕ} (hw : n + 2 ^ height ≤ 2 ^ 32)
    (hp : CalcTreeWidth n height ≤ p) : leavesBelow n height p = [] := by
  rw [CalcTreeWidth_of_le hw] at hp
  have hlt : n + 2 ^ height - 1 < (p + 1) * 2 ^ height :=
    (Nat.div_lt_iff_lt_mul (Nat.two_pow_pos height)).1 (by omega)
  rw [leavesBelow, Nat.shiftLeft_eq, Nat.shiftLeft_eq, List.range'_eq_nil_iff]
  have : (p + 1) * 2 ^ height = p * 2 ^ height + 2 ^ height := by ring
  omega

/-- Inside the width of its level a node has positions below it. -/
lemma length_leavesBelow_pos {n height p : ℕ} (hw : n + 2 ^ height ≤ 2 ^ 32)
    (hp : p < CalcTreeWidth n height) : 0 < (leavesBelow n height p).length := by
  rw [CalcTreeWidth_of_le hw, Nat.lt_iff_add_one_le,
    Nat.le_div_iff_mul_le (Nat.two_pow_pos height)] at hp
  rw [leavesBelow, List.length_range', Nat.shiftLeft_eq, Nat.shiftLeft_eq]
  have e : (p + 1) * 2 ^ height = p * 2 ^ height + 2 ^ height := by ring
  have hP := Nat.two_pow_pos height
  rw [e] at hp ⊢
  generalize p * 2 ^ height = a at hp ⊢
  generalize 2 ^ height = P at hp hP ⊢
  omega

/-- The root of a tree no wider than `2 ^ height` has every position below it. -/
lemma leavesBelow_root {n height : ℕ} (hn : n ≤ 2 ^ height) :
    leavesBelow n height 0 = List.range n := by
  rw [leavesBelow, Nat.shiftLeft_eq, Nat.shiftLeft_eq, Nat.zero_mul, Nat.zero_add, Nat.one_mul,
    Nat.sub_zero, min_eq_right hn, List.range_eq_range']

end Leaves

/-! ## Building, then extracting -/

section Walks

omit [DecidableEq α] in
@[simp] lemma pushBit_nTransactions (t : CPartialMerkleTree α) (b : Bool) :
    (pushBit t b).nTransactions = t.nTransactions := rfl

omit [DecidableEq α] in
@[simp] lemma pushBit_vBits (t : CPartialMerkleTree α) (b : Bool) :
    (pushBit t b).vBits = t.vBits ++ [b] := rfl

omit [DecidableEq α] in
@[simp] lemma pushBit_vHash (t : CPartialMerkleTree α) (b : Bool) :
    (pushBit t b).vHash = t.vHash := rfl

omit [DecidableEq α] in
@[simp] lemma pushBit_fBad (t : CPartialMerkleTree α) (b : Bool) :
    (pushBit t b).fBad = t.fBad := rfl

variable (vTxid : List α) (vMatch : List Bool)

omit [DecidableEq α] in
/-- `TraverseAndBuild` at a node above the leaves with no match below: the flag and the hash. -/
lemma TraverseAndBuild_succ_of_false {height pos : ℕ} {t : CPartialMerkleTree α}
    (hf : parentOfMatch t.nTransactions vMatch (height + 1) pos = false) :
    TraverseAndBuild H zero vTxid vMatch (height + 1) pos t =
      pushHash (pushBit t false) (CalcHash H zero t.nTransactions vTxid (height + 1) pos) := by
  simp only [TraverseAndBuild, hf]
  rfl

omit [DecidableEq α] in
/-- The build keeps the count of transactions. -/
@[simp] lemma TraverseAndBuild_nTransactions :
    ∀ (height pos : ℕ) (t : CPartialMerkleTree α),
      (TraverseAndBuild H zero vTxid vMatch height pos t).nTransactions = t.nTransactions
  | 0, _, _ => rfl
  | height + 1, pos, t => by
    simp only [TraverseAndBuild]
    split_ifs <;> simp [TraverseAndBuild_nTransactions height, pushHash]

omit [DecidableEq α] in
/-- `TraverseAndBuild` at a node above the leaves with a match below: the flag, then the left
subtree, then the right one if it exists. -/
lemma TraverseAndBuild_succ_of_true {height pos : ℕ} {t : CPartialMerkleTree α}
    (hf : parentOfMatch t.nTransactions vMatch (height + 1) pos = true) :
    TraverseAndBuild H zero vTxid vMatch (height + 1) pos t =
      if pos * 2 + 1 < CalcTreeWidth t.nTransactions height then
        TraverseAndBuild H zero vTxid vMatch height (pos * 2 + 1)
          (TraverseAndBuild H zero vTxid vMatch height (pos * 2) (pushBit t true))
      else TraverseAndBuild H zero vTxid vMatch height (pos * 2) (pushBit t true) := by
  simp only [TraverseAndBuild, hf, TraverseAndBuild_nTransactions, pushBit_nTransactions]
  rfl

omit [DecidableEq α] in
/-- **What the build appends.** `TraverseAndBuild` keeps the count and `fBad` and appends flags
and hashes: at least one flag for each hash, no more hashes than positions below the node, and
no more flags than the nodes of a full tree of its height. -/
lemma TraverseAndBuild_spec : ∀ (height pos : ℕ) (t : CPartialMerkleTree α),
    t.nTransactions + 2 ^ height ≤ 2 ^ 32 → pos < CalcTreeWidth t.nTransactions height →
    ∃ X Y, TraverseAndBuild H zero vTxid vMatch height pos t =
        ⟨t.nTransactions, t.vBits ++ X, t.vHash ++ Y, t.fBad⟩ ∧
      Y.length ≤ X.length ∧ Y.length ≤ (leavesBelow t.nTransactions height pos).length ∧
      X.length < 2 ^ (height + 1)
  | 0, pos, t, hw, hpos =>
    ⟨_, _, rfl, le_rfl, length_leavesBelow_pos hw hpos, by simp⟩
  | height + 1, pos, t, hw, hpos => by
    have hw' : t.nTransactions + 2 ^ height ≤ 2 ^ 32 := by
      have := two_pow_le_two_pow_succ height
      omega
    have hleft : pos * 2 < CalcTreeWidth t.nTransactions height := by
      rw [CalcTreeWidth_succ hw] at hpos
      omega
    cases hf : parentOfMatch t.nTransactions vMatch (height + 1) pos with
    | false =>
      rw [TraverseAndBuild_succ_of_false H zero vTxid vMatch hf]
      exact ⟨_, _, rfl, le_rfl, length_leavesBelow_pos hw hpos, by simp⟩
    | true =>
      rw [TraverseAndBuild_succ_of_true H zero vTxid vMatch hf]
      obtain ⟨XL, YL, hL, hYXL, hYL, hXL⟩ :=
        TraverseAndBuild_spec height (pos * 2) (pushBit t true) hw' hleft
      simp only [pushBit_nTransactions, pushBit_vBits, pushBit_vHash, pushBit_fBad] at hL hYL
      have hsplit := congrArg List.length (leavesBelow_succ t.nTransactions height pos)
      rw [List.length_append] at hsplit
      have hpow : 2 ^ (height + 1 + 1) = 2 * 2 ^ (height + 1) := by ring
      simp only [hL]
      split_ifs with hright
      · obtain ⟨XR, YR, hR, hYXR, hYR, hXR⟩ := TraverseAndBuild_spec height (pos * 2 + 1)
          ⟨t.nTransactions, t.vBits ++ [true] ++ XL, t.vHash ++ YL, t.fBad⟩ hw' hright
        dsimp only at hR hYR
        rw [hR]
        refine ⟨[true] ++ XL ++ XR, YL ++ YR, by simp, ?_, ?_, ?_⟩
        · simp only [List.length_append, List.length_singleton]
          omega
        · rw [List.length_append]
          omega
        · simp only [List.length_append, List.length_singleton]
          omega
      · refine ⟨[true] ++ XL, YL, by simp, ?_, ?_, ?_⟩
        · simp only [List.length_append, List.length_singleton]
          omega
        · omega
        · simp only [List.length_append, List.length_singleton]
          omega

/-- A prefix ending in `b` has `b` where it ends. -/
lemma getD_of_prefix {β : Type} {l T : List β} {b : β} (h : l ++ [b] <+: T) (d : β) :
    l.length < T.length ∧ T.getD l.length d = b := by
  obtain ⟨r, rfl⟩ := h
  simp

omit [DecidableEq α] in
/-- `useHash` with a hash left to read. -/
lemma useHash_of_lt (T : CPartialMerkleTree α) (height pos : ℕ) (f : Bool) (s : ExtractState α)
    (hlt : s.nHashUsed < T.vHash.length) :
    useHash zero T height pos f s =
      (T.vHash.getD s.nHashUsed zero,
        if height = 0 ∧ f = true then
          ⟨s.nBitsUsed, s.nHashUsed + 1, s.vMatch ++ [T.vHash.getD s.nHashUsed zero],
            s.vnIndex ++ [pos], s.fBad⟩
        else ⟨s.nBitsUsed, s.nHashUsed + 1, s.vMatch, s.vnIndex, s.fBad⟩) := by
  rw [useHash, if_neg (by omega)]
  split_ifs <;> rfl

/-- `TraverseAndExtract` at a leaf with a flag left to read. -/
lemma TraverseAndExtract_zero (T : CPartialMerkleTree α) (pos : ℕ) (s : ExtractState α)
    (hlt : s.nBitsUsed < T.vBits.length) :
    TraverseAndExtract H zero T 0 pos s =
      useHash zero T 0 pos (T.vBits.getD s.nBitsUsed false)
        ⟨s.nBitsUsed + 1, s.nHashUsed, s.vMatch, s.vnIndex, s.fBad⟩ := by
  rw [TraverseAndExtract, if_neg (by omega)]

/-- `TraverseAndExtract` above the leaves reading a clear flag: the stored hash. -/
lemma TraverseAndExtract_succ_of_false (T : CPartialMerkleTree α) (height pos : ℕ)
    (s : ExtractState α) (hlt : s.nBitsUsed < T.vBits.length)
    (hb : T.vBits.getD s.nBitsUsed false = false) :
    TraverseAndExtract H zero T (height + 1) pos s =
      useHash zero T (height + 1) pos false
        ⟨s.nBitsUsed + 1, s.nHashUsed, s.vMatch, s.vnIndex, s.fBad⟩ := by
  rw [TraverseAndExtract, if_neg (by omega)]
  simp only [hb]
  rfl

/-- `TraverseAndExtract` above the leaves reading a set flag: both subtrees, combined. -/
lemma TraverseAndExtract_succ_of_true (T : CPartialMerkleTree α) (height pos : ℕ)
    (s : ExtractState α) (hlt : s.nBitsUsed < T.vBits.length)
    (hb : T.vBits.getD s.nBitsUsed false = true) :
    TraverseAndExtract H zero T (height + 1) pos s =
      let l := TraverseAndExtract H zero T height (pos * 2)
        ⟨s.nBitsUsed + 1, s.nHashUsed, s.vMatch, s.vnIndex, s.fBad⟩
      if pos * 2 + 1 < CalcTreeWidth T.nTransactions height then
        let r := TraverseAndExtract H zero T height (pos * 2 + 1) l.2
        (H l.1 r.1, if r.1 = l.1 then { r.2 with fBad := true } else r.2)
      else (H l.1 l.1, l.2) := by
  rw [TraverseAndExtract, if_neg (by omega)]
  simp only [hb]
  rfl

/-- No two sibling nodes of the tree over `vTxid` have one hash, as `TraverseAndExtract`
requires of the children it combines. -/
def SiblingsDiffer : Prop :=
  ∀ height pos, pos * 2 + 1 < CalcTreeWidth vTxid.length height →
    CalcHash H zero vTxid.length vTxid height (pos * 2) ≠
      CalcHash H zero vTxid.length vTxid height (pos * 2 + 1)

omit [DecidableEq α] in
@[simp] lemma pushHash_vBits (t : CPartialMerkleTree α) (hash : α) :
    (pushHash t hash).vBits = t.vBits := rfl

omit [DecidableEq α] in
@[simp] lemma pushHash_vHash (t : CPartialMerkleTree α) (hash : α) :
    (pushHash t hash).vHash = t.vHash ++ [hash] := rfl

/-- **Extracting reads back what building stored.** Over a tree `T` whose flags and hashes
begin with what `TraverseAndBuild` wrote for the node at `height` and `pos` after those of
`t`, `TraverseAndExtract` from where `t` ends returns the node's hash, uses exactly the flags
and hashes written for the node, appends the matched leaves below it with their positions,
and leaves `fBad` alone, when no two siblings have one hash.

**Proof sketch.** Induction on the height. A leaf, or a node with no match below, was stored
as its flag and its hash, which are read back. A node with a match below was stored as a set
flag and then its subtrees: the walk reads the flag, then each subtree by the induction
hypothesis, each one ending where the next begins; the two children differ, so `fBad` stays. -/
theorem TraverseAndExtract_build (hsib : SiblingsDiffer H zero vTxid) :
    ∀ (height pos : ℕ) (t T : CPartialMerkleTree α) (s : ExtractState α),
      vTxid.length + 2 ^ height ≤ 2 ^ 32 → pos < CalcTreeWidth vTxid.length height →
      t.nTransactions = vTxid.length → T.nTransactions = vTxid.length →
      (TraverseAndBuild H zero vTxid vMatch height pos t).vBits <+: T.vBits →
      (TraverseAndBuild H zero vTxid vMatch height pos t).vHash <+: T.vHash →
      s.nBitsUsed = t.vBits.length → s.nHashUsed = t.vHash.length →
      TraverseAndExtract H zero T height pos s =
        (CalcHash H zero vTxid.length vTxid height pos,
          ⟨(TraverseAndBuild H zero vTxid vMatch height pos t).vBits.length,
            (TraverseAndBuild H zero vTxid vMatch height pos t).vHash.length,
            s.vMatch ++ (matchedBelow vTxid.length vMatch height pos).map (vTxid.getD · zero),
            s.vnIndex ++ matchedBelow vTxid.length vMatch height pos, s.fBad⟩)
  | 0, pos, t, T, s, hw, hpos, ht, hT, hB, hH, hsB, hsH => by
    have hn : pos < vTxid.length := by
      rwa [CalcTreeWidth_of_le hw, pow_zero, Nat.add_sub_cancel, Nat.div_one] at hpos
    -- a leaf is stored as its flag and its hash
    have hbuild : TraverseAndBuild H zero vTxid vMatch 0 pos t =
        ⟨t.nTransactions, t.vBits ++ [vMatch.getD pos false], t.vHash ++ [vTxid.getD pos zero],
          t.fBad⟩ := by
      simp only [TraverseAndBuild, ht, parentOfMatch_zero vMatch hn,
        pushHash, pushBit, CalcHash]
    rw [hbuild] at hB hH ⊢
    obtain ⟨hBlt, hBget⟩ := getD_of_prefix hB false
    obtain ⟨hHlt, hHget⟩ := getD_of_prefix hH zero
    rw [TraverseAndExtract_zero H zero T pos s (by omega),
      useHash_of_lt zero T 0 pos _ _ (by dsimp only; omega), matchedBelow_zero vMatch hn]
    cases hm : vMatch.getD pos false <;> simp_all [CalcHash]
  | height + 1, pos, t, T, s, hw, hpos, ht, hT, hB, hH, hsB, hsH => by
    have hw' : vTxid.length + 2 ^ height ≤ 2 ^ 32 := by
      have := two_pow_le_two_pow_succ height
      omega
    have hleft : pos * 2 < CalcTreeWidth vTxid.length height := by
      rw [CalcTreeWidth_succ hw] at hpos
      omega
    cases hf : parentOfMatch vTxid.length vMatch (height + 1) pos with
    | false =>
      -- nothing matched below: the flag and the node's hash were stored
      rw [TraverseAndBuild_succ_of_false H zero vTxid vMatch (by rw [ht]; exact hf)] at hB hH ⊢
      simp only [pushHash_vBits, pushHash_vHash, pushBit_vBits, pushBit_vHash, ht] at hB hH ⊢
      obtain ⟨hBlt, hBget⟩ := getD_of_prefix hB false
      obtain ⟨hHlt, hHget⟩ := getD_of_prefix hH zero
      have hnil := (parentOfMatch_eq_false_iff _ _ _ _).1 hf
      rw [TraverseAndExtract_succ_of_false H zero T height pos s (by omega) (by rw [hsB]; exact hBget),
        useHash_of_lt zero T _ pos _ _ (by dsimp only; omega)]
      dsimp only
      rw [hsH, hHget]
      simp [hnil, hsB]
    | true =>
      -- a match below: the flag, then the left subtree, then the right one if it exists
      obtain ⟨XL, YL, hL, -, -⟩ := TraverseAndBuild_spec H zero vTxid vMatch height (pos * 2)
        (pushBit t true) (by simpa [ht] using hw') (by simpa [ht] using hleft)
      simp only [pushBit_nTransactions, pushBit_vBits, pushBit_vHash, pushBit_fBad] at hL
      rw [TraverseAndBuild_succ_of_true H zero vTxid vMatch (by rw [ht]; exact hf), ht] at hB hH ⊢
      rw [hL] at hB hH ⊢
      -- what the left subtree wrote ends before all that follows
      have hpre : (t.vBits ++ [true] ++ XL) <+: T.vBits ∧ (t.vHash ++ YL) <+: T.vHash := by
        split_ifs at hB hH with hright
        · obtain ⟨XR, YR, hR, -, -⟩ := TraverseAndBuild_spec H zero vTxid vMatch height
            (pos * 2 + 1) ⟨t.nTransactions, t.vBits ++ [true] ++ XL, t.vHash ++ YL, t.fBad⟩
            (by simpa [ht] using hw') (by simpa [ht] using hright)
          rw [hR] at hB hH
          exact ⟨(List.prefix_append _ _).trans hB, (List.prefix_append _ _).trans hH⟩
        · exact ⟨hB, hH⟩
      obtain ⟨hBlt, hBget⟩ := getD_of_prefix ((List.prefix_append _ _).trans hpre.1) false
      rw [TraverseAndExtract_succ_of_true H zero T height pos s (by omega) (by rw [hsB]; exact hBget),
        hT]
      have hl := TraverseAndExtract_build hsib height (pos * 2) (pushBit t true) T
        ⟨s.nBitsUsed + 1, s.nHashUsed, s.vMatch, s.vnIndex, s.fBad⟩ hw' hleft (by simp [ht]) hT
        (by rw [hL]; exact hpre.1) (by rw [hL]; exact hpre.2) (by simp [hsB]) (by simp [hsH])
      rw [hL] at hl
      dsimp only
      rw [hl]
      dsimp only
      by_cases hright : pos * 2 + 1 < CalcTreeWidth vTxid.length height
      · have hr := TraverseAndExtract_build hsib height (pos * 2 + 1)
          ⟨t.nTransactions, t.vBits ++ [true] ++ XL, t.vHash ++ YL, t.fBad⟩ T
          ⟨(t.vBits ++ [true] ++ XL).length, (t.vHash ++ YL).length,
            s.vMatch ++ (matchedBelow vTxid.length vMatch height (pos * 2)).map (vTxid.getD · zero),
            s.vnIndex ++ matchedBelow vTxid.length vMatch height (pos * 2), s.fBad⟩
          hw' hright ht hT (by rw [if_pos hright] at hB; exact hB)
          (by rw [if_pos hright] at hH; exact hH) rfl rfl
        rw [if_pos hright, if_pos hright, hr, if_neg (hsib height pos hright).symm]
        simp [CalcHash, hright, matchedBelow_succ]
      · have hnil : matchedBelow vTxid.length vMatch height (pos * 2 + 1) = [] := by
          rw [matchedBelow, leavesBelow_eq_nil hw' (not_lt.1 hright), List.filter_nil]
        rw [if_neg hright, if_neg hright]
        simp [CalcHash, hright, matchedBelow_succ, hnil]

end Walks

/-! ## Extracting the matches of a built tree -/

section Extract

variable (vTxid : List α) (vMatch : List Bool)

/-- **The matches** of `vTxid` under `vMatch`: the positions whose flag is set, in order. -/
def matchedPositions : List ℕ := (List.range vTxid.length).filter (vMatch.getD · false)

/-- **`ExtractMatches` inverts construction**, on any tree that holds the hashes of the built
one and its flags followed by at most a byte's padding. For one to `2 ^ 31` transactions with
no two siblings of one hash, it returns the root of the whole tree, having used all flags and
hashes of the built tree; the matched transactions; their positions after those already in
`vnIndex`; and a clear `fBad`. -/
theorem ExtractMatches_of_build (vnIndex : List ℕ) (T : CPartialMerkleTree α)
    (h1 : vTxid ≠ []) (h31 : vTxid.length ≤ 2 ^ 31) (hsib : SiblingsDiffer H zero vTxid)
    (hTn : T.nTransactions = vTxid.length) (hbad : T.fBad = false)
    (hB : (new H zero vTxid vMatch).vBits <+: T.vBits)
    (hH : T.vHash = (new H zero vTxid vMatch).vHash)
    (hpad : (T.vBits.length + 7) / 8 = ((new H zero vTxid vMatch).vBits.length + 7) / 8) :
    ExtractMatches H zero T vnIndex =
      (MerkleTree.levelRoot H zero vTxid,
        ⟨(new H zero vTxid vMatch).vBits.length, (new H zero vTxid vMatch).vHash.length,
          (matchedPositions vTxid vMatch).map (vTxid.getD · zero),
          vnIndex ++ matchedPositions vTxid vMatch, false⟩) := by
  have hlen1 : vTxid.length ≠ 0 := by simpa using h1
  have hmod : vTxid.length % 2 ^ 32 = vTxid.length := Nat.mod_eq_of_lt (by omega)
  have hw := add_two_pow_treeHeight_le h31
  have hpos : 0 < CalcTreeWidth vTxid.length (treeHeight vTxid.length) := by
    rw [CalcTreeWidth_treeHeight hlen1 h31]
    exact Nat.one_pos
  have hroot := leavesBelow_root (le_two_pow_treeHeight h31)
  -- what the constructor built: no more hashes than flags or than transactions
  obtain ⟨X, Y, hnew, hYX, hYn, -⟩ := TraverseAndBuild_spec H zero vTxid vMatch
    (treeHeight vTxid.length) 0 ⟨vTxid.length, [], [], false⟩ hw hpos
  rw [hroot, List.length_range] at hYn
  have hnew' : new H zero vTxid vMatch = ⟨vTxid.length, X, Y, false⟩ := by
    rw [new, hmod, hnew]
    rfl
  rw [hnew'] at hB hH hpad ⊢
  have hXT : X.length ≤ T.vBits.length := hB.length_le
  -- the walk reads back the whole tree
  have hwalk := TraverseAndExtract_build H zero vTxid vMatch hsib (treeHeight vTxid.length) 0
    ⟨vTxid.length, [], [], false⟩ T ⟨0, 0, [], vnIndex, false⟩ hw hpos rfl hTn
    (by rw [hnew]; exact hB) (by rw [hnew, hH]; exact List.prefix_refl _) rfl rfl
  rw [hnew] at hwalk
  dsimp only at hwalk hB hH hpad ⊢
  rw [ExtractMatches, hTn, hbad, if_neg hlen1, hH, if_neg (by omega), if_neg (by omega)]
  dsimp only
  rw [hwalk]
  simp only [List.nil_append, Bool.false_eq_true, ↓reduceIte, hpad, ne_eq, not_true_eq_false,
    CalcHash_treeHeight H zero vTxid h1 h31, matchedBelow, hroot, matchedPositions]

/-- A tree of one to `2 ^ 31` transactions is at most twice as wide as it has transactions. -/
lemma two_pow_treeHeight_le {n : ℕ} (h1 : n ≠ 0) (h31 : n ≤ 2 ^ 31) :
    2 ^ treeHeight n ≤ 2 * n := by
  obtain ⟨-, habove⟩ := treeHeight_spec n
  rcases Nat.eq_zero_or_pos (treeHeight n) with h0 | hpos
  · rw [h0]
    omega
  · obtain ⟨k, hk⟩ : ∃ k, treeHeight n = k + 1 := ⟨treeHeight n - 1, by omega⟩
    have hwide := habove k (by omega)
    have hk31 : 2 ^ k ≤ 2 ^ 31 := Nat.pow_le_pow_right (by norm_num) (by have := treeHeight_le h31; omega)
    rw [CalcTreeWidth_of_le (by omega)] at hwide
    -- the level below the top is two nodes wide or more
    have h2 := (Nat.le_div_iff_mul_le (Nat.two_pow_pos k)).1 (Nat.succ_le_of_lt hwide)
    rw [hk, Nat.pow_succ]
    omega

omit [DecidableEq α] in
/-- **The tree `CPartialMerkleTree(vTxid, vMatch)`** of one to `2 ^ 31` transactions counts
them, has `fBad` clear, no more hashes than transactions and at most a byte of flags for each
transaction. -/
lemma new_sizes (h1 : vTxid ≠ []) (h31 : vTxid.length ≤ 2 ^ 31) :
    (new H zero vTxid vMatch).nTransactions = vTxid.length ∧
      (new H zero vTxid vMatch).fBad = false ∧
      (new H zero vTxid vMatch).vHash.length ≤ vTxid.length ∧
      ((new H zero vTxid vMatch).vBits.length + 7) / 8 ≤ vTxid.length := by
  have hlen1 : vTxid.length ≠ 0 := by simpa using h1
  have hmod : vTxid.length % 2 ^ 32 = vTxid.length := Nat.mod_eq_of_lt (by omega)
  obtain ⟨X, Y, hnew, -, hYn, hXn⟩ := TraverseAndBuild_spec H zero vTxid vMatch
    (treeHeight vTxid.length) 0 ⟨vTxid.length, [], [], false⟩ (add_two_pow_treeHeight_le h31)
    (by rw [CalcTreeWidth_treeHeight hlen1 h31]; exact Nat.one_pos)
  rw [leavesBelow_root (le_two_pow_treeHeight h31), List.length_range] at hYn
  have hpow : 2 ^ (treeHeight vTxid.length + 1) ≤ 4 * vTxid.length := by
    rw [Nat.pow_succ]
    have := two_pow_treeHeight_le hlen1 h31
    omega
  rw [new, hmod, hnew]
  dsimp only
  refine ⟨rfl, rfl, by simpa using hYn, ?_⟩
  rw [List.nil_append]
  omega

/-- **Extraction inverts construction** on the tree `CPartialMerkleTree(vTxid, vMatch)` itself:
the root, the matched transactions and their positions. -/
theorem ExtractMatches_new (vnIndex : List ℕ) (h1 : vTxid ≠ []) (h31 : vTxid.length ≤ 2 ^ 31)
    (hsib : SiblingsDiffer H zero vTxid) :
    (ExtractMatches H zero (new H zero vTxid vMatch) vnIndex).1 =
        MerkleTree.levelRoot H zero vTxid ∧
      (ExtractMatches H zero (new H zero vTxid vMatch) vnIndex).2.vMatch =
        (matchedPositions vTxid vMatch).map (vTxid.getD · zero) ∧
      (ExtractMatches H zero (new H zero vTxid vMatch) vnIndex).2.vnIndex =
        vnIndex ++ matchedPositions vTxid vMatch ∧
      (ExtractMatches H zero (new H zero vTxid vMatch) vnIndex).2.fBad = false := by
  obtain ⟨hn, hbad, -⟩ := new_sizes H zero vTxid vMatch h1 h31
  rw [ExtractMatches_of_build H zero vTxid vMatch vnIndex _ h1 h31 hsib hn hbad
    (List.prefix_refl _) rfl rfl]
  exact ⟨rfl, rfl, rfl, rfl⟩

omit [DecidableEq α] in
/-- Under a hash injective on pairs, two different nodes of one level of a tree over distinct
transaction ids have different hashes: down the levels they would have two equal leaves. -/
lemma CalcHash_injOn (hH : ∀ a b c d, H a b = H c d → a = c ∧ b = d) (hnd : vTxid.Nodup) :
    ∀ height i j, vTxid.length + 2 ^ height ≤ 2 ^ 32 →
      i < CalcTreeWidth vTxid.length height → j < CalcTreeWidth vTxid.length height →
      CalcHash H zero vTxid.length vTxid height i = CalcHash H zero vTxid.length vTxid height j →
      i = j
  | 0, i, j, hw, hi, hj, heq => by
    rw [CalcTreeWidth_of_le hw, pow_zero, Nat.add_sub_cancel, Nat.div_one] at hi hj
    simp only [CalcHash, List.getD_eq_getElem _ _ hi, List.getD_eq_getElem _ _ hj] at heq
    exact (hnd.getElem_inj_iff).1 heq
  | height + 1, i, j, hw, hi, hj, heq => by
    have hw' : vTxid.length + 2 ^ height ≤ 2 ^ 32 := by
      have := two_pow_le_two_pow_succ height
      omega
    rw [CalcTreeWidth_succ hw] at hi hj
    -- the left children are equal, and two nodes apart at the level below
    have hleft := (hH _ _ _ _ heq).1
    have := CalcHash_injOn hH hnd height (i * 2) (j * 2) hw' (by omega) (by omega) hleft
    omega

omit [DecidableEq α] in
/-- **Siblings differ** under a hash injective on pairs, for distinct transaction ids. -/
lemma siblingsDiffer_of_injective (hH : ∀ a b c d, H a b = H c d → a = c ∧ b = d)
    (hnd : vTxid.Nodup) (h31 : vTxid.length ≤ 2 ^ 31) : SiblingsDiffer H zero vTxid := by
  intro height pos hpos heq
  by_cases hh : height < 32
  · have hpow : 2 ^ height ≤ 2 ^ 31 := Nat.pow_le_pow_right (by norm_num) (by omega)
    have := CalcHash_injOn H zero vTxid hH hnd height _ _ (by omega) (by omega) hpos heq
    omega
  · rw [CalcTreeWidth_eq_zero_of_le hh] at hpos
    omega

/-- The tree over `1`, `2`, `3` with the middle one matched: `Nat.pair` is injective on pairs. -/
theorem ExtractMatches_new_pair :
    (ExtractMatches Nat.pair 0 (new Nat.pair 0 [1, 2, 3] [false, true, false]) []).1 =
        MerkleTree.levelRoot Nat.pair 0 [1, 2, 3] ∧
      (ExtractMatches Nat.pair 0 (new Nat.pair 0 [1, 2, 3] [false, true, false]) []).2.vMatch =
        (matchedPositions [1, 2, 3] [false, true, false]).map ([1, 2, 3].getD · 0) ∧
      (ExtractMatches Nat.pair 0 (new Nat.pair 0 [1, 2, 3] [false, true, false]) []).2.vnIndex =
        [] ++ matchedPositions [1, 2, 3] [false, true, false] ∧
      (ExtractMatches Nat.pair 0 (new Nat.pair 0 [1, 2, 3] [false, true, false]) []).2.fBad =
        false :=
  ExtractMatches_new Nat.pair 0 [1, 2, 3] [false, true, false] [] (by decide) (by decide)
    (siblingsDiffer_of_injective Nat.pair 0 [1, 2, 3] (fun _ _ _ _ h => Nat.pair_eq_pair.1 h)
      (by decide) (by decide))

end Extract

/-! ## On the wire -/

section Wire

/-- The flag bits packed eight to a byte, least significant first, as `SerializationOp` writes
them: `vBytes[p / 8] |= vBits[p] << (p % 8)` over `(vBits.size() + 7) / 8` zero bytes. -/
def packBits (vBits : List Bool) : List UInt8 :=
  (List.range vBits.length).foldl
    (fun vBytes p => vBytes.modify (p / 8)
      (· ||| (if vBits.getD p false then 1 else 0 : UInt8) <<< (p % 8).toUInt8))
    (List.replicate ((vBits.length + 7) / 8) 0)

/-- The flag bits `SerializationOp` reads back: `vBits[p] = (vBytes[p / 8] & (1 << (p % 8))) != 0`
for the `vBytes.size() * 8` bits of the bytes. -/
def unpackBits (vBytes : List UInt8) : List Bool :=
  (List.range (vBytes.length * 8)).map fun p =>
    (vBytes.getD (p / 8) 0 &&& (1 : UInt8) <<< (p % 8).toUInt8) != 0

lemma div_eight_eq_shiftRight (p : ℕ) : p / 8 = p >>> 3 := by
  rw [Nat.shiftRight_eq_div_pow]

lemma shiftLeft_mod_eight_eq_mask (p : ℕ) : (1 : UInt8) <<< (p % 8).toUInt8 = ByteBits.mask p := by
  rw [ByteBits.mask, Nat.land_comm, show (7 : ℕ) = 2 ^ 3 - 1 from rfl,
    Nat.and_two_pow_sub_one_eq_mod]

/-- Packing sets the bits of the set flags in zero bytes. -/
lemma packBits_eq_foldl_setBit (vBits : List Bool) :
    packBits vBits = ((List.range vBits.length).filter (vBits.getD · false)).foldl ByteBits.setBit
      (List.replicate ((vBits.length + 7) / 8) 0) := by
  rw [packBits, List.foldl_filter]
  congr 1
  funext vBytes p
  cases vBits.getD p false
  · simp only [Bool.false_eq_true, ↓reduceIte, UInt8.zero_shiftLeft, UInt8.or_zero]
    exact List.modify_id (p / 8) vBytes
  · simp [ByteBits.setBit, div_eight_eq_shiftRight, shiftLeft_mod_eight_eq_mask]

/-- Unpacking reads every bit of the bytes. -/
lemma unpackBits_eq_map_testBit (vBytes : List UInt8) :
    unpackBits vBytes = (List.range (vBytes.length * 8)).map (ByteBits.testBit vBytes) := by
  rw [unpackBits]
  congr 1
  funext p
  rw [ByteBits.testBit, div_eight_eq_shiftRight, shiftLeft_mod_eight_eq_mask]

lemma length_packBits (vBits : List Bool) : (packBits vBits).length = (vBits.length + 7) / 8 := by
  rw [packBits_eq_foldl_setBit, ByteBits.length_foldl_setBit, List.length_replicate]

/-- **Packing round trip.** The flags come back followed by zeros up to a whole byte. -/
theorem unpackBits_packBits (vBits : List Bool) :
    unpackBits (packBits vBits) =
      vBits ++ List.replicate ((vBits.length + 7) / 8 * 8 - vBits.length) false := by
  have hbyte : vBits.length ≤ (vBits.length + 7) / 8 * 8 := by omega
  apply List.ext_getElem
  · rw [unpackBits, List.length_map, List.length_range, length_packBits, List.length_append,
      List.length_replicate]
    omega
  · intro p hp _
    simp only [unpackBits_eq_map_testBit, List.getElem_map, List.getElem_range]
    rw [packBits_eq_foldl_setBit, ByteBits.testBit_foldl_setBit _ _ ?_,
      ByteBits.testBit_replicate_zero, Bool.false_or]
    · simp only [List.mem_filter, List.mem_range, List.getElem_append]
      split_ifs with hlt
      · simp [hlt]
      · simp [hlt]
    · intro j hj
      rw [List.mem_filter, List.mem_range] at hj
      rw [List.length_replicate, ← div_eight_eq_shiftRight]
      omega

/-- A tree whose flags are padded to a whole byte reads its matches back as the tree itself:
the walk uses the flags that were written, and the padding stays within the last byte. -/
theorem ExtractMatches_padded (vTxid : List α) (vMatch : List Bool) (vnIndex : List ℕ)
    (h1 : vTxid ≠ []) (h31 : vTxid.length ≤ 2 ^ 31) (hsib : SiblingsDiffer H zero vTxid) :
    ExtractMatches H zero ⟨(new H zero vTxid vMatch).nTransactions,
        unpackBits (packBits (new H zero vTxid vMatch).vBits), (new H zero vTxid vMatch).vHash,
        false⟩ vnIndex =
      ExtractMatches H zero (new H zero vTxid vMatch) vnIndex := by
  obtain ⟨hn, hbad, -⟩ := new_sizes H zero vTxid vMatch h1 h31
  rw [ExtractMatches_of_build H zero vTxid vMatch vnIndex
      ⟨(new H zero vTxid vMatch).nTransactions, unpackBits (packBits (new H zero vTxid vMatch).vBits),
        (new H zero vTxid vMatch).vHash, false⟩ h1 h31 hsib hn rfl
      (by rw [unpackBits_packBits]; exact List.prefix_append _ _) rfl
      (by rw [unpackBits_packBits, List.length_append, List.length_replicate]; omega),
    ExtractMatches_of_build H zero vTxid vMatch vnIndex _ h1 h31 hsib hn hbad
      (List.prefix_refl _) rfl rfl]

variable (encHash : α → List UInt8) (decHash : Decoder UInt8 α)

/-- `CPartialMerkleTree::SerializationOp` writing: `nTransactions` as a `uint32`, the hashes
behind their `CompactSize` count, and the packed flag bytes behind theirs. -/
def ser (t : CPartialMerkleTree α) : List UInt8 :=
  writeLE 4 t.nTransactions ++ WriteCompactSize t.vHash.length ++ (t.vHash.map encHash).flatten ++
    serBytes (packBits t.vBits)

/-- `CPartialMerkleTree::SerializationOp` reading: the fields in order, the flag bits unpacked
from the bytes, and `fBad` cleared. -/
def unser : Decoder UInt8 (CPartialMerkleTree α) := do
  let nTransactions ← readLEData 4
  let nHash ← ReadCompactSize
  let vHash ← Decoder.readN decHash nHash
  let nBytes ← ReadCompactSize
  let vBytes ← Decoder.readN ser_readdata8 nBytes
  pure ⟨nTransactions, unpackBits vBytes, vHash, false⟩

omit [DecidableEq α] in
/-- **The wire round trip.** With a hash that reads back, a tree of fewer than `2 ^ 32`
transactions and vectors within `MAX_SIZE` reads back with its flags padded to a whole byte and
`fBad` cleared, leaving what follows it. -/
theorem unser_ser (hdec : Decoder.RoundTrip encHash decHash fun _ => True)
    (t : CPartialMerkleTree α) (hn : t.nTransactions < 2 ^ 32) (hH : t.vHash.length ≤ MAX_SIZE)
    (hB : (t.vBits.length + 7) / 8 ≤ MAX_SIZE) (rest : List UInt8) :
    (unser decHash).run (ser encHash t ++ rest) =
      .ok (⟨t.nTransactions, unpackBits (packBits t.vBits), t.vHash, false⟩, rest) := by
  have hn' : t.nTransactions % 256 ^ 4 = t.nTransactions := Nat.mod_eq_of_lt (by omega)
  have hbytes : (Decoder.readN ser_readdata8 (packBits t.vBits).length).run
      (packBits t.vBits ++ rest) = .ok (packBits t.vBits, rest) :=
    Decoder.run_readN_next endOfFile _ _
  simp only [ser, serBytes, List.append_assoc, unser]
  rw [Decoder.run_bind_of_run (run_readLEData 4 _ _), hn',
    Decoder.run_bind_of_run (run_ReadCompactSize _ hH _),
    Decoder.run_bind_of_run (Decoder.run_readN hdec _ (fun _ _ => trivial) _),
    Decoder.run_bind_of_run (run_ReadCompactSize _ (by rwa [length_packBits]) _),
    Decoder.run_bind_of_run hbytes]
  rfl

end Wire

/-! ## When siblings differ -/

section Siblings

omit [DecidableEq α]

variable (vTxid : List α)

/-- From height 32 on no level has a node, so `SiblingsDiffer` is a check of the pairs of the
heights below, which can be decided. -/
lemma siblingsDiffer_of_lt
    (h : ∀ height < 32, ∀ pos < CalcTreeWidth vTxid.length height / 2,
      CalcHash H zero vTxid.length vTxid height (pos * 2) ≠
        CalcHash H zero vTxid.length vTxid height (pos * 2 + 1)) :
    SiblingsDiffer H zero vTxid := by
  intro height pos hlt
  by_cases hh : height < 32
  · exact h height hh pos (by omega)
  · rw [CalcTreeWidth_eq_zero_of_le hh] at hlt
    omega

end Siblings

end CPartialMerkleTree

/-! ## Merkle blocks -/

/-- `uint256` read back: its 32 bytes, little-endian, as they were written. -/
def unserUint256 : Decoder UInt8 uint256 := do
  let n ← readLEData 32
  pure (BitVec.ofNat 256 n)

lemma unserUint256_roundTrip : Decoder.RoundTrip serUint256 unserUint256 fun _ => True := by
  intro h _ rest
  rw [serUint256, unserUint256, Decoder.run_bind_of_run (run_readLEData 32 _ rest)]
  have hlt : h.toNat < 256 ^ 32 := h.isLt
  rw [Nat.mod_eq_of_lt hlt, BitVec.ofNat_toNat, BitVec.setWidth_eq]
  rfl

/-- `CMerkleBlock`: a block's header, the partial tree of its transactions, and the matched
transactions with their positions (`vMatchedTxn`, which is not sent). -/
structure CMerkleBlock where
  header : CBlockHeader
  txn : CPartialMerkleTree uint256
  vMatchedTxn : List (ℕ × uint256)

namespace CMerkleBlock

variable (H : uint256 → uint256 → uint256) (GetHash : CTransaction → uint256)

/-- The loop of both constructors from position `i`: the state the test of relevance keeps,
each transaction's flag, the matched positions with their hashes, and all the hashes. -/
def matchLoop {F : Type} (relevant : F → CTransaction → F × Bool) :
    List CTransaction → ℕ → F → F × List Bool × List (ℕ × uint256) × List uint256
  | [], _, f => (f, [], [], [])
  | tx :: vtx, i, f =>
    let hash := GetHash tx
    let r := relevant f tx
    let rest := matchLoop relevant vtx (i + 1) r.1
    (rest.1, r.2 :: rest.2.1, (if r.2 then [(i, hash)] else []) ++ rest.2.2.1, hash :: rest.2.2.2)

/-- Both constructors, for a test of relevance that keeps a state `F`: the header, the partial
tree of the hashes under the flags, and the matched transactions. -/
def build {F : Type} (relevant : F → CTransaction → F × Bool) (block : CBlock) (f : F) :
    CMerkleBlock × F :=
  let r := matchLoop GetHash relevant block.vtx 0 f
  (⟨block.header, CPartialMerkleTree.new H 0 r.2.2.2 r.2.1, r.2.2.1⟩, r.1)

/-- `CMerkleBlock(block, filter)`: the transactions `IsRelevantAndUpdate` finds relevant, with
the filter as the calls leave it. -/
def ofFilter (MurmurHash3 : UInt32 → List UInt8 → UInt32) (isPayToPubKey : CScript → Bool)
    (block : CBlock) (filter : CBloomFilter) : CMerkleBlock × CBloomFilter :=
  build H GetHash (CBloomFilter.IsRelevantAndUpdate MurmurHash3 isPayToPubKey GetHash) block filter

/-- `CMerkleBlock(block, txids)`: the transactions whose hash is in `txids`. -/
def ofTxids (block : CBlock) (txids : Finset uint256) : CMerkleBlock :=
  (build H GetHash (fun u tx => (u, decide (GetHash tx ∈ txids))) block ()).1

/-- The loop's results: one flag for each transaction, all the hashes, and the positions with
a set flag, counted from `i`, with their hashes. -/
lemma matchLoop_spec {F : Type} (relevant : F → CTransaction → F × Bool) :
    ∀ (vtx : List CTransaction) (i : ℕ) (f : F),
      (matchLoop GetHash relevant vtx i f).2.1.length = vtx.length ∧
      (matchLoop GetHash relevant vtx i f).2.2.2 = vtx.map GetHash ∧
      (matchLoop GetHash relevant vtx i f).2.2.1 =
        ((List.range vtx.length).filter
          ((matchLoop GetHash relevant vtx i f).2.1.getD · false)).map
          fun p => (i + p, (vtx.map GetHash).getD p 0)
  | [], _, _ => ⟨rfl, rfl, rfl⟩
  | tx :: vtx, i, f => by
    obtain ⟨hlen, hhash, hmatch⟩ := matchLoop_spec relevant vtx (i + 1) (relevant f tx).1
    simp only [matchLoop, List.length_cons, hlen, hhash, List.map_cons, true_and]
    rw [hmatch, List.range_succ_eq_map, List.filter_cons, List.filter_map]
    cases (relevant f tx).2 <;> simp [Function.comp_def, Nat.add_assoc, Nat.add_comm 1]

/-- **A light client extracts what the server matched.** For a block of one to `MAX_SIZE`
transactions whose header holds their Merkle root, with no two sibling nodes of one hash, the
partial tree of a `CMerkleBlock` built from the block with any test of relevance, sent and read
back, gives under `ExtractMatches` the header's Merkle root, the hashes the server recorded in
`vMatchedTxn`, and their positions after those already in `vnIndex`. -/
theorem ExtractMatches_received {F : Type} (relevant : F → CTransaction → F × Bool)
    (block : CBlock) (f : F) (vnIndex : List ℕ) (rest : List UInt8)
    (h1 : block.vtx ≠ []) (hmax : block.vtx.length ≤ MAX_SIZE)
    (hsib : CPartialMerkleTree.SiblingsDiffer H 0 (block.vtx.map GetHash))
    (hroot : (Merkle.ComputeMerkleRoot H 0 (block.vtx.map GetHash)).map Prod.fst =
      some block.header.hashMerkleRoot) :
    ∃ t, (CPartialMerkleTree.unser unserUint256).run
        (CPartialMerkleTree.ser serUint256 (build H GetHash relevant block f).1.txn ++ rest) =
          .ok (t, rest) ∧
      (CPartialMerkleTree.ExtractMatches H 0 t vnIndex).1 = block.header.hashMerkleRoot ∧
      (CPartialMerkleTree.ExtractMatches H 0 t vnIndex).2.vMatch =
        (build H GetHash relevant block f).1.vMatchedTxn.map Prod.snd ∧
      (CPartialMerkleTree.ExtractMatches H 0 t vnIndex).2.vnIndex =
        vnIndex ++ (build H GetHash relevant block f).1.vMatchedTxn.map Prod.fst := by
  obtain ⟨hlen, hhash, hmatch⟩ := matchLoop_spec GetHash relevant block.vtx 0 f
  have hmax' : MAX_SIZE = 268435456 := rfl
  have hh1 : block.vtx.map GetHash ≠ [] := by simpa using h1
  have hh31 : (block.vtx.map GetHash).length ≤ 2 ^ 31 := by
    rw [List.length_map]
    omega
  -- the server's tree is the tree of the block's hashes under the loop's flags
  have hbuild : (build H GetHash relevant block f).1 =
      ⟨block.header, CPartialMerkleTree.new H 0 (block.vtx.map GetHash)
        (matchLoop GetHash relevant block.vtx 0 f).2.1,
        (matchLoop GetHash relevant block.vtx 0 f).2.2.1⟩ := by
    rw [build, hhash]
  obtain ⟨hn, hbad, hH, hB⟩ := CPartialMerkleTree.new_sizes H 0 (block.vtx.map GetHash)
    (matchLoop GetHash relevant block.vtx 0 f).2.1 hh1 hh31
  rw [List.length_map] at hn hH hB
  rw [hbuild]
  refine ⟨_, CPartialMerkleTree.unser_ser serUint256 unserUint256 unserUint256_roundTrip _
    (by dsimp only; omega) (by dsimp only; omega) (by dsimp only; omega) rest, ?_⟩
  -- what the client reads is the server's tree with its flags padded to a byte
  rw [CPartialMerkleTree.ExtractMatches_padded H 0 _ _ vnIndex hh1 hh31 hsib,
    CPartialMerkleTree.ExtractMatches_of_build H 0 _ _ vnIndex _ hh1 hh31 hsib
      (by rw [hn, List.length_map]) hbad (List.prefix_refl _) rfl rfl]
  rw [Merkle.ComputeMerkleRoot_eq, if_pos hh31, Option.map_some, Option.some.injEq] at hroot
  refine ⟨hroot, ?_, ?_⟩
  · rw [hmatch, List.map_map]
    simp [CPartialMerkleTree.matchedPositions, Function.comp_def]
  · rw [hmatch, List.map_map]
    simp [CPartialMerkleTree.matchedPositions, Function.comp_def]

/-- Three transactions told apart by their lock times, as their hashes. -/
def lockTimeTxs : List CTransaction := [⟨1, [], [], 1⟩, ⟨1, [], [], 2⟩, ⟨1, [], [], 3⟩]

/-- A block of `lockTimeTxs` under the hash `3 a + b` of two nodes: its root is
`3 (3 * 1 + 2) + (3 * 3 + 3)`. -/
def lockTimeBlock : CBlock := ⟨⟨0, 27⟩, lockTimeTxs⟩

/-- A client asking for the second transaction of `lockTimeBlock` gets it back, at position 1,
with the block's root. -/
theorem ExtractMatches_received_lockTimeBlock :
    ∃ t, (CPartialMerkleTree.unser unserUint256).run
        (CPartialMerkleTree.ser serUint256 (build (fun a b => 3 * a + b)
          (fun tx => BitVec.ofNat 256 tx.nLockTime.toNat)
          (fun u tx => (u, decide (tx.nLockTime = 2))) lockTimeBlock ()).1.txn ++ []) =
          .ok (t, []) ∧
      (CPartialMerkleTree.ExtractMatches (fun a b => 3 * a + b) 0 t []).1 =
        lockTimeBlock.header.hashMerkleRoot ∧
      (CPartialMerkleTree.ExtractMatches (fun a b => 3 * a + b) 0 t []).2.vMatch =
        (build (fun a b => 3 * a + b) (fun tx => BitVec.ofNat 256 tx.nLockTime.toNat)
          (fun u tx => (u, decide (tx.nLockTime = 2))) lockTimeBlock ()).1.vMatchedTxn.map
          Prod.snd ∧
      (CPartialMerkleTree.ExtractMatches (fun a b => 3 * a + b) 0 t []).2.vnIndex =
        [] ++ (build (fun a b => 3 * a + b) (fun tx => BitVec.ofNat 256 tx.nLockTime.toNat)
          (fun u tx => (u, decide (tx.nLockTime = 2))) lockTimeBlock ()).1.vMatchedTxn.map
          Prod.fst :=
  ExtractMatches_received (fun a b => 3 * a + b) (fun tx => BitVec.ofNat 256 tx.nLockTime.toNat)
    (fun u tx => (u, decide (tx.nLockTime = 2))) lockTimeBlock () [] [] (by decide) (by decide)
    (CPartialMerkleTree.siblingsDiffer_of_lt _ _ _ (by decide))
    (by
      rw [Merkle.ComputeMerkleRoot_eq, if_pos (by decide)]
      simp [MerkleTree.levelRoot, MerkleTree.nextLevel, lockTimeBlock, lockTimeTxs])

end CMerkleBlock

end MvfBu
