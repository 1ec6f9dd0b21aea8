import Mathlib.Data.List.Sort

set_option autoImplicit false

/-!
# Medians of lists

The median of a list is its middle element once sorted, the upper of the two middle ones
when the length is even. Where the median of a sliding window of times is compared against
new times, the fact that matters is that the median does not fall when the window moves on
by an element above it: a time above the median of the window, joined to the window with its
oldest element dropped, gives a median at least as large.

The proof goes through counting: the `k`-th element of a sorted list is at least `m` exactly
when at most `k` elements lie below `m`.

## Main definitions

* `List.median` — the middle element of the sorted list.

## Main results

* `List.countP_lt_getElem_le`, `List.le_getElem_of_countP_lt_le` — the order statistics of a
  sorted list by counting.
* `List.median_le_median_cons` — an element above the median, joined to a window that lost at
  most one element, does not lower the median.
-/

namespace List

variable {α : Type} [LinearOrder α]

/-- The median of `l`: the element at index `length / 2` of `l` sorted, `d` for the empty
list. -/
def median (d : α) (l : List α) : α := (l.insertionSort (· ≤ ·)).getD (l.length / 2) d

section Sorted

variable {s : List α}

/-- Every element from index `k` of a sorted list on is at least the `k`-th. -/
theorem getElem_le_of_mem_drop (hs : s.Pairwise (· ≤ ·)) {k : ℕ} (hk : k < s.length) {x : α}
    (hx : x ∈ s.drop k) : s[k] ≤ x := by
  have hd : (s[k] :: s.drop (k + 1)).Pairwise (· ≤ ·) := by
    rw [← drop_eq_getElem_cons hk]
    exact hs.sublist (drop_sublist k s)
  rw [drop_eq_getElem_cons hk] at hx
  rcases mem_cons.1 hx with rfl | hx
  · exact le_refl _
  · exact rel_of_pairwise_cons hd hx

/-- Every element before index `k` of a sorted list is at most the `k`-th. -/
theorem le_getElem_of_mem_take (hs : s.Pairwise (· ≤ ·)) {k : ℕ} (hk : k < s.length) {x : α}
    (hx : x ∈ s.take k) : x ≤ s[k] := by
  have hsplit : (s.take k ++ s.drop k).Pairwise (· ≤ ·) := by rwa [take_append_drop]
  have hmem : s[k] ∈ s.drop k := by
    rw [drop_eq_getElem_cons hk]
    exact mem_cons_self
  exact (pairwise_append.1 hsplit).2.2 x hx s[k] hmem

/-- **Order statistics by counting, one way.** At most `k` elements of a sorted list lie below
its `k`-th. -/
theorem countP_lt_getElem_le (hs : s.Pairwise (· ≤ ·)) {k : ℕ} (hk : k < s.length) :
    s.countP (fun x => x < s[k]) ≤ k := by
  have hdrop : (s.drop k).countP (fun x => x < s[k]) = 0 := by
    rw [countP_eq_zero]
    intro x hx
    simpa using getElem_le_of_mem_drop hs hk hx
  have htake : (s.take k).countP (fun x => x < s[k]) ≤ k :=
    countP_le_length.trans (length_take_le k s)
  calc s.countP (fun x => x < s[k])
      = (s.take k).countP (fun x => x < s[k]) + (s.drop k).countP (fun x => x < s[k]) := by
        rw [← countP_append, take_append_drop]
    _ ≤ k := by omega

/-- **Order statistics by counting, the other way.** When at most `k` elements of a sorted list
lie below `m`, its `k`-th element is at least `m`. -/
theorem le_getElem_of_countP_lt_le (hs : s.Pairwise (· ≤ ·)) {k : ℕ} (hk : k < s.length)
    {m : α} (h : s.countP (fun x => x < m) ≤ k) : m ≤ s[k] := by
  by_contra hlt
  rw [not_le] at hlt
  -- then the first `k + 1` elements all lie below `m`
  have hall : (s.take (k + 1)).countP (fun x => x < m) = (s.take (k + 1)).length := by
    refine countP_eq_length.2 fun x hx => ?_
    rw [take_add_one, mem_append] at hx
    rcases hx with hx | hx
    · simpa using lt_of_le_of_lt (le_getElem_of_mem_take hs hk hx) hlt
    · simp only [getElem?_eq_getElem hk, Option.toList_some, mem_singleton] at hx
      simpa [hx] using hlt
  have hlen : (s.take (k + 1)).length = k + 1 := by
    rw [length_take]
    omega
  have hle := (take_sublist (k + 1) s).countP_le (p := fun x => decide (x < m))
  omega

end Sorted

/-- **A new element above the median.** Joining an element above the median of `l` to a
sublist of `l` that lost at most one element gives a median at least as large. -/
theorem median_le_median_cons (d : α) {l l' : List α} (hl : l ≠ []) (hsub : l' <+ l)
    (hlen : l.length ≤ l'.length + 1) {x : α} (hx : median d l < x) :
    median d l ≤ median d (x :: l') := by
  set s := l.insertionSort (· ≤ ·) with hs_def
  set s' := (x :: l').insertionSort (· ≤ ·) with hs'_def
  have hperm : s.Perm l := perm_insertionSort _ l
  have hperm' : s'.Perm (x :: l') := perm_insertionSort _ (x :: l')
  have hsorted : s.Pairwise (· ≤ ·) := pairwise_insertionSort _ l
  have hsorted' : s'.Pairwise (· ≤ ·) := pairwise_insertionSort _ (x :: l')
  have hk : l.length / 2 < s.length := by
    rw [hperm.length_eq]
    exact Nat.div_lt_self (length_pos_iff.2 hl) (by decide)
  have hk' : (x :: l').length / 2 < s'.length := by
    rw [hperm'.length_eq, length_cons]
    omega
  have hmed : median d l = s[l.length / 2] := by
    rw [median, getD_eq_getElem?_getD, ← hs_def, getElem?_eq_getElem hk, Option.getD_some]
  have hmed' : median d (x :: l') = s'[(x :: l').length / 2] := by
    rw [median, getD_eq_getElem?_getD, ← hs'_def, getElem?_eq_getElem hk', Option.getD_some]
  rw [hmed'] at *
  rw [hmed] at hx ⊢
  apply le_getElem_of_countP_lt_le hsorted' hk'
  -- the elements below the old median: none is `x`, and all were in the old window
  calc s'.countP (fun y => y < s[l.length / 2])
      = (x :: l').countP (fun y => y < s[l.length / 2]) := hperm'.countP_eq _
    _ = l'.countP (fun y => y < s[l.length / 2]) := by simp [not_lt.2 hx.le]
    _ ≤ l.countP (fun y => y < s[l.length / 2]) := hsub.countP_le
    _ = s.countP (fun y => y < s[l.length / 2]) := (hperm.countP_eq _).symm
    _ ≤ l.length / 2 := countP_lt_getElem_le hsorted hk
    _ ≤ (x :: l').length / 2 := by
      rw [length_cons]
      omega

end List
