import Mathlib.Data.List.Basic
import Mathlib.Data.Int.Notation

set_option autoImplicit false

/-!
# Lists with back-pointers

A container that lists its keys in an array, each key recording where it stands, keeps the
array and the recorded places inverse to each other: `PosIndex v pos` says that `v` holds
each key of `pos` at the place `pos` gives and nothing else. Exchanging two places, appending
a new key, and dropping the last key (after exchanging the key to remove into the last
place) keep it, each with the one update of `pos` it needs.

## Main definitions

* `List.PosIndex` — `v` and `pos` are inverse to each other.

## Main results

* `List.PosIndex.swap` — exchanging two places, with their keys' places exchanged.
* `List.PosIndex.append` — a new key at the end.
* `List.PosIndex.dropLast` — the last key removed.
-/

namespace List

variable {κ : Type}

/-- `v` holds each key of `pos` at the place `pos` records for it, and no other key. -/
structure PosIndex (v : List κ) (pos : κ → Option ℤ) : Prop where
  get_of_pos : ∀ n z, pos n = some z → 0 ≤ z ∧ v[z.toNat]? = some n
  pos_of_get : ∀ (i : ℕ) n, v[i]? = some n → pos n = some (i : ℤ)

namespace PosIndex

variable {v : List κ} {pos : κ → Option ℤ}

/-- A key stands at one place only. -/
theorem eq_of_get (hv : PosIndex v pos) {i j : ℕ} {n : κ} (hi : v[i]? = some n)
    (hj : v[j]? = some n) : i = j := by
  have hpi := hv.pos_of_get i n hi
  rw [hv.pos_of_get j n hj, Option.some.injEq] at hpi
  omega

variable [DecidableEq κ]

/-- **Exchanging two places.** The keys at places `i` and `j` record each other's place. -/
theorem swap (hv : PosIndex v pos) {i j : ℕ} (hi : i < v.length) (hj : j < v.length)
    (hij : i ≠ j) :
    PosIndex ((v.set i v[j]).set j v[i])
      (Function.update (Function.update pos v[i] (some (j : ℤ))) v[j] (some (i : ℤ))) := by
  have hgi : v[i]? = some v[i] := getElem?_eq_getElem hi
  have hgj : v[j]? = some v[j] := getElem?_eq_getElem hj
  have hne : v[i] ≠ v[j] := fun he => hij (hv.eq_of_get hgi (he ▸ hgj))
  -- the exchanged list, place by place
  have hget : ∀ k, ((v.set i v[j]).set j v[i])[k]? =
      if k = j then some v[i] else if k = i then some v[j] else v[k]? := by
    intro k
    rw [getElem?_set, getElem?_set, length_set]
    by_cases hkj : k = j
    · simp [hkj, hj]
    · by_cases hki : k = i
      · simp [hki, hi, hij, Ne.symm hij]
      · simp [Ne.symm hkj, Ne.symm hki, hkj, hki]
  constructor
  · intro n z hn
    by_cases hnj : n = v[j]
    · subst hnj
      rw [Function.update_self, Option.some.injEq] at hn
      subst hn
      simp [hget, hij]
    · rw [Function.update_of_ne hnj] at hn
      by_cases hni : n = v[i]
      · subst hni
        rw [Function.update_self, Option.some.injEq] at hn
        subst hn
        simp [hget]
      · rw [Function.update_of_ne hni] at hn
        obtain ⟨hz, hzn⟩ := hv.get_of_pos n z hn
        have hzi : z.toNat ≠ i := fun he => hni (Option.some.inj (hzn.symm.trans (he ▸ hgi)))
        have hzj : z.toNat ≠ j := fun he => hnj (Option.some.inj (hzn.symm.trans (he ▸ hgj)))
        rw [hget, if_neg hzj, if_neg hzi]
        exact ⟨hz, hzn⟩
  · intro k n hk
    rw [hget] at hk
    split_ifs at hk with hkj hki
    · cases hk
      rw [Function.update_of_ne hne, Function.update_self, hkj]
    · cases hk
      rw [Function.update_self, hki]
    · have hnj : n ≠ v[j] := fun he => hkj (hv.eq_of_get hk (he ▸ hgj))
      have hni : n ≠ v[i] := fun he => hki (hv.eq_of_get hk (he ▸ hgi))
      rw [Function.update_of_ne hnj, Function.update_of_ne hni]
      exact hv.pos_of_get k n hk

/-- **Appending a new key** at the end, where it records its place. -/
theorem append (hv : PosIndex v pos) {n : κ} (hn : pos n = none) :
    PosIndex (v ++ [n]) (Function.update pos n (some (v.length : ℤ))) := by
  constructor
  · intro m z hm
    by_cases hmn : m = n
    · subst hmn
      rw [Function.update_self, Option.some.injEq] at hm
      subst hm
      simp
    · rw [Function.update_of_ne hmn] at hm
      obtain ⟨hz, hzm⟩ := hv.get_of_pos m z hm
      have hlt : z.toNat < v.length := (getElem?_eq_some_iff.1 hzm).1
      rw [getElem?_append_left hlt]
      exact ⟨hz, hzm⟩
  · intro k m hk
    by_cases hlt : k < v.length
    · rw [getElem?_append_left hlt] at hk
      have hpm := hv.pos_of_get k m hk
      have hmn : m ≠ n := fun he => by rw [he, hn] at hpm; cases hpm
      rw [Function.update_of_ne hmn]
      exact hpm
    · rw [getElem?_append_right (Nat.le_of_not_lt hlt)] at hk
      have hk0 : k - v.length = 0 := by
        by_contra hne
        rw [getElem?_singleton, if_neg hne] at hk
        cases hk
      rw [hk0, getElem?_singleton, if_pos rfl, Option.some.injEq] at hk
      subst hk
      rw [Function.update_self]
      congr 2
      omega

/-- **Dropping the last key**, which then has no place. -/
theorem dropLast (hv : PosIndex v pos) {n : κ} (hn : v.getLast? = some n) :
    PosIndex v.dropLast (Function.update pos n none) := by
  rw [getLast?_eq_getElem?] at hn
  constructor
  · intro m z hm
    have hmn : m ≠ n := fun he => by rw [he, Function.update_self] at hm; cases hm
    rw [Function.update_of_ne hmn] at hm
    obtain ⟨hz, hzm⟩ := hv.get_of_pos m z hm
    have hlt : z.toNat < v.length := (getElem?_eq_some_iff.1 hzm).1
    have hne : z.toNat ≠ v.length - 1 :=
      fun he => hmn (Option.some.inj (hzm.symm.trans (he ▸ hn)))
    rw [getElem?_dropLast, if_pos (by omega)]
    exact ⟨hz, hzm⟩
  · intro k m hk
    rw [getElem?_dropLast] at hk
    split_ifs at hk with hlt
    have hmn : m ≠ n := fun he => by
      have := hv.eq_of_get hk (he ▸ hn)
      omega
    rw [Function.update_of_ne hmn]
    exact hv.pos_of_get k m hk

end PosIndex

end List
