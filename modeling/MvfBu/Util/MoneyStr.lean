import Mathlib.Data.List.TakeWhile
import MvfBu.Lib.Decimal
import MvfBu.Primitives.Transaction

set_option autoImplicit false

/-!
# Formatting and parsing amounts (`utilmoneystr.cpp`)

`FormatMoney` writes an amount as its whole coins, a point and eight decimals, then trims the
trailing zeros of the decimals as long as two decimals are left. `ParseMoney` reads spaces, at
most ten digits of whole coins, a point with at most eight decimals, and trailing spaces. On
every amount from `0` to below `10 ^ 10` coins the two are inverse, and `ParseMoney` returns
nothing outside that range.

## Main definitions

* `MvfBu.isspace` — the C `isspace` in the "C" locale.
* `MvfBu.FormatMoney`, `MvfBu.ParseMoney`, `MvfBu.atoi64`.

## Main results

* `MvfBu.ParseMoney_FormatMoney` — the round trip.
* `MvfBu.ParseMoney_range` — what `ParseMoney` returns is in `[0, 10 ^ 10 * COIN)`.
* `MvfBu.FormatMoney_neg` — a negative amount is written as its absolute value after a `'-'`.

## Implementation notes

Strings are lists of characters, and `ParseMoney` reads its argument as a C string, up to the
first NUL. Amounts are integers: `-n` is exact here, as it is in `int64_t` for every amount but
the least one, which no statement below reaches. The trimming loop of `FormatMoney` reads
`str[i - 2]`, which for `i < 2` would lie before the string; the `'.'` always stops the loop
before that, and the model stops it there.
-/

namespace MvfBu

open Decimal

/-- `isspace` in the "C" locale: space, `\t`, `\n`, `\v`, `\f` and `\r`. -/
def isspace (c : Char) : Bool :=
  c == ' ' || c == '\t' || c == '\n' || c == '\x0b' || c == '\x0c' || c == '\r'

/-- `printf("%d")` of an integer. -/
def formatInt (v : ℤ) : List Char :=
  if v < 0 then '-' :: decimalChars v.natAbs else decimalChars v.natAbs

/-- `printf("%0*d", w, v)` of an integer: the sign, then the digits padded with zeros to `w`
characters in all. -/
def formatIntZeroPadded (w : ℕ) (v : ℤ) : List Char :=
  if v < 0 then '-' :: zeroPadded (w - 1) v.natAbs else zeroPadded w v.natAbs

/-- The count of the trimming loop of `FormatMoney` started at position `i - 1`: the loop goes
down while the character is a `'0'` with a digit two places to its left. -/
def trimFrom (str : List Char) : ℕ → ℕ
  | 0 => 0
  | i + 1 =>
    if str.getD i ' ' = '0' ∧ 2 ≤ i ∧ isdigit (str.getD (i - 2) ' ') = true then
      trimFrom str i + 1
    else 0

/-- `FormatMoney`: `"%d.%08d"` of the whole coins and the satoshis of `|n|`, without the
trailing zeros past two decimals, after a `'-'` if `n < 0`. -/
def FormatMoney (n : ℤ) : List Char :=
  let n_abs := if n > 0 then n else -n
  let quotient := n_abs.tdiv COIN
  let remainder := n_abs.tmod COIN
  let str := formatInt quotient ++ '.' :: formatIntZeroPadded 8 remainder
  let nTrim := trimFrom str str.length
  let str := str.take (str.length - nTrim)
  if n < 0 then '-' :: str else str

/-- `atoi64`, that is `strtoll(str, NULL, 10)`: spaces, a sign, then the digits up to the first
other character, clamped to the range of `int64_t`. -/
def atoi64 (str : List Char) : ℤ :=
  let v : ℤ :=
    match str.dropWhile isspace with
    | '-' :: s => -(digitsValue (s.takeWhile isdigit) : ℤ)
    | '+' :: s => digitsValue (s.takeWhile isdigit)
    | s => digitsValue (s.takeWhile isdigit)
  max (-2 ^ 63) (min v (2 ^ 63 - 1))

/-- The loop of `ParseMoney` over the decimals, `nUnits += nMult * (*p++ - '0'); nMult /= 10`
while there is a digit and `nMult > 0`: the units read and what is left. -/
def parseFraction : List Char → ℤ → ℤ → ℤ × List Char
  | [], _, nUnits => (nUnits, [])
  | c :: cs, nMult, nUnits =>
    if isdigit c = true ∧ nMult > 0 then
      parseFraction cs (nMult / 10) (nUnits + nMult * digitVal c)
    else (nUnits, c :: cs)

/-- The first loop of `ParseMoney`: digits go to `strWhole`, a `'.'` reads the decimals and ends
the loop, a space ends it, anything else fails. `strWhole`, `nUnits` and what is left. -/
def parseWhole : List Char → List Char → Option (List Char × ℤ × List Char)
  | [], strWhole => some (strWhole, 0, [])
  | c :: cs, strWhole =>
    if c = '.' then
      let r := parseFraction cs (CENT * 10) 0
      some (strWhole, r.1, r.2)
    else if isspace c = true then some (strWhole, 0, c :: cs)
    else if isdigit c = false then none
    else parseWhole cs (strWhole ++ [c])

/-- `ParseMoney`: the amount, or `none` where it returns `false`. -/
def ParseMoney (str : List Char) : Option ℤ :=
  match parseWhole ((str.takeWhile (· != '\x00')).dropWhile isspace) [] with
  | none => none
  | some (strWhole, nUnits, rest) =>
    if rest.any (fun c => !isspace c) then none
    -- guard against 63 bit overflow
    else if strWhole.length > 10 then none
    else if nUnits < 0 ∨ nUnits > COIN then none
    else some (atoi64 strWhole * COIN + nUnits)

/-! ### Characters -/

theorem ne_point_of_isdigit {c : Char} (hc : isdigit c = true) : c ≠ '.' := by
  rintro rfl
  exact absurd hc (by decide)

theorem ne_nul_of_isdigit {c : Char} (hc : isdigit c = true) : c ≠ '\x00' := by
  rintro rfl
  exact absurd hc (by decide)

theorem isspace_eq_false_of_isdigit {c : Char} (hc : isdigit c = true) : isspace c = false := by
  cases hs : isspace c with
  | false => rfl
  | true =>
    simp only [isspace, Bool.or_eq_true, beq_iff_eq] at hs
    rcases hs with ((((rfl | rfl) | rfl) | rfl) | rfl) | rfl <;> exact absurd hc (by decide)

/-! ### `FormatMoney` -/

/-- Every step the trimming loop counts is a `'0'` with a digit two places to its left. -/
theorem lt_trimFrom (str : List Char) : ∀ {k j : ℕ}, j < trimFrom str k →
    j < k ∧ str.getD (k - 1 - j) ' ' = '0' ∧ 2 ≤ k - 1 - j ∧
      isdigit (str.getD (k - 1 - j - 2) ' ') = true
  | 0, j, h => absurd h (Nat.not_lt_zero j)
  | i + 1, j, h => by
    unfold trimFrom at h
    split_ifs at h with hc
    · rcases j with _ | j
      · simpa using hc
      · have hj : j < trimFrom str i := by omega
        obtain ⟨hj, h1, h2, h3⟩ := lt_trimFrom str hj
        have hidx : i + 1 - 1 - (j + 1) = i - 1 - j := by omega
        exact ⟨by omega, hidx ▸ h1, hidx ▸ h2, hidx ▸ h3⟩
    · exact absurd h (Nat.not_lt_zero j)

section Decimals

variable {D R : List Char}

theorem getD_point : (D ++ '.' :: R).getD D.length ' ' = '.' := by
  simp

theorem getD_decimal (j : ℕ) : (D ++ '.' :: R).getD (D.length + 1 + j) ' ' = R.getD j ' ' := by
  rw [List.getD_append_right _ _ _ _ (by omega), show D.length + 1 + j - D.length = j + 1 by omega]
  rfl

/-- **The trimming of `FormatMoney`.** Of eight decimals after a point, the loop removes `t ≤ 6`
trailing zeros. -/
theorem trim_decimals (hR : R.length = 8) :
    ∃ t ≤ 6, (D ++ '.' :: R).take ((D ++ '.' :: R).length -
        trimFrom (D ++ '.' :: R) (D ++ '.' :: R).length) = D ++ '.' :: R.take (8 - t) ∧
      R = R.take (8 - t) ++ List.replicate t '0' := by
  have hlen : (D ++ '.' :: R).length = D.length + 1 + 8 := by simp [hR]
  -- the point two places to the left of the second decimal stops the loop
  have ht : trimFrom (D ++ '.' :: R) (D ++ '.' :: R).length ≤ 6 := by
    by_contra h7
    have h6 : 6 < trimFrom (D ++ '.' :: R) (D ++ '.' :: R).length := by omega
    obtain ⟨-, -, -, hd⟩ := lt_trimFrom _ h6
    rw [hlen, show D.length + 1 + 8 - 1 - 6 - 2 = D.length by omega, getD_point] at hd
    exact absurd hd (by decide)
  -- every decimal the loop counts is a zero
  have hz : ∀ j < trimFrom (D ++ '.' :: R) (D ++ '.' :: R).length, R.getD (7 - j) ' ' = '0' := by
    intro j hj
    obtain ⟨-, h1, -, -⟩ := lt_trimFrom _ hj
    rw [hlen, show D.length + 1 + 8 - 1 - j = D.length + 1 + (7 - j) by omega,
      getD_decimal] at h1
    exact h1
  generalize trimFrom (D ++ '.' :: R) (D ++ '.' :: R).length = t at ht hz ⊢
  refine ⟨t, ht, ?_, ?_⟩
  · rw [hlen, show D.length + 1 + 8 - t = D.length + (8 - t + 1) by omega,
      List.take_length_add_append, List.take_succ_cons]
  · have hdrop : R.drop (8 - t) = List.replicate t '0' := by
      refine List.eq_replicate_iff.2 ⟨by rw [List.length_drop, hR]; omega, fun b hb => ?_⟩
      obtain ⟨i, hi, rfl⟩ := List.getElem_of_mem hb
      rw [List.length_drop, hR] at hi
      have hzi := hz (t - 1 - i) (by omega)
      rw [show 7 - (t - 1 - i) = 8 - t + i by omega,
        List.getD_eq_getElem _ _ (by rw [hR]; omega)] at hzi
      rw [List.getElem_drop]
      exact hzi
    rw [← hdrop, List.take_append_drop]

end Decimals

/-! ### `ParseMoney` -/

theorem parseFraction_zero (cs : List Char) (u : ℤ) : parseFraction cs 0 u = (u, cs) := by
  cases cs with
  | nil => rfl
  | cons c cs => simp [parseFraction]

theorem pow_succ_div_ten (j : ℕ) : (10 : ℤ) ^ (j + 1) / 10 = 10 ^ j := by
  rw [pow_succ, Int.mul_ediv_cancel _ (by norm_num)]

/-- **The decimals read.** From `nMult = 10 ^ j`, at most `j + 1` digits up to the end add their
value, scaled to `j + 1` places. -/
theorem parseFraction_digits {F : List Char} (hF : ∀ c ∈ F, isdigit c = true) :
    ∀ {j : ℕ} (u : ℤ), F.length ≤ j + 1 →
      parseFraction F (10 ^ j) u = (u + digitsValue F * 10 ^ (j + 1 - F.length), []) := by
  induction F with
  | nil =>
    intro j u _
    simp [parseFraction]
  | cons c F ih =>
    intro j u hj
    have hc := hF c List.mem_cons_self
    rw [List.length_cons] at hj
    rw [parseFraction, if_pos ⟨hc, by positivity⟩]
    rcases j with _ | j
    · -- the digit was the last place
      obtain rfl : F = [] := List.eq_nil_of_length_eq_zero (by omega)
      simp [parseFraction, digitsValue]
    · rw [pow_succ_div_ten, ih (fun d hd => hF d (List.mem_cons_of_mem c hd)) _ (by omega),
        digitsValue_cons]
      obtain ⟨k, hk⟩ : ∃ k, j + 1 = F.length + k := ⟨j + 1 - F.length, by omega⟩
      rw [List.length_cons, show j + 1 + 1 - (F.length + 1) = k by omega,
        show j + 1 - F.length = k by omega, hk, pow_add]
      congr 1
      push_cast
      ring

/-- The decimals read from `nMult = 10 ^ j` add less than `10 ^ (j + 1)`. -/
theorem parseFraction_bounds : ∀ (cs : List Char) (j : ℕ) (u : ℤ),
    u ≤ (parseFraction cs (10 ^ j) u).1 ∧ (parseFraction cs (10 ^ j) u).1 < u + 10 ^ (j + 1)
  | [], j, u => ⟨le_rfl, by
      simp only [parseFraction]
      linarith [pow_pos (by norm_num : (0 : ℤ) < 10) (j + 1)]⟩
  | c :: cs, j, u => by
    rw [parseFraction]
    split_ifs with hc
    · have hd : (digitVal c : ℤ) ≤ 9 := by exact_mod_cast Nat.le_of_lt_succ (digitVal_lt hc.1)
      have hd0 : (0 : ℤ) ≤ digitVal c := Int.natCast_nonneg _
      rcases j with _ | j
      · rw [show (10 : ℤ) ^ 0 / 10 = 0 by norm_num, parseFraction_zero]
        constructor <;> simp only [pow_zero, one_mul] <;> omega
      · rw [pow_succ_div_ten]
        obtain ⟨h1, h2⟩ := parseFraction_bounds cs j (u + 10 ^ (j + 1) * digitVal c)
        have hP : (0 : ℤ) < 10 ^ (j + 1) := by positivity
        constructor
        · nlinarith
        · rw [pow_succ (10 : ℤ) (j + 1)]
          nlinarith
    · exact ⟨le_rfl, by linarith [pow_pos (by norm_num : (0 : ℤ) < 10) (j + 1)]⟩

/-- Digits go to `strWhole` one by one. -/
theorem parseWhole_digits {D : List Char} (hD : ∀ c ∈ D, isdigit c = true) :
    ∀ (rest acc : List Char), parseWhole (D ++ rest) acc = parseWhole rest (acc ++ D) := by
  induction D with
  | nil =>
    intro rest acc
    simp
  | cons c D ih =>
    intro rest acc
    have hc := hD c List.mem_cons_self
    rw [List.cons_append, parseWhole, if_neg (ne_point_of_isdigit hc),
      if_neg (by rw [isspace_eq_false_of_isdigit hc]; decide), if_neg (by rw [hc]; decide),
      ih (fun d hd => hD d (List.mem_cons_of_mem c hd)), List.append_assoc, List.singleton_append]

/-- What the first loop of `ParseMoney` returns: `strWhole` is made of digits, and the units are
in `[0, 10 ^ 8)`. -/
theorem parseWhole_spec : ∀ {p acc w rest : List Char} {u : ℤ},
    (∀ c ∈ acc, isdigit c = true) → parseWhole p acc = some (w, u, rest) →
      (∀ c ∈ w, isdigit c = true) ∧ 0 ≤ u ∧ u < 10 ^ 8
  | [], acc, w, rest, u, hacc, h => by
    simp only [parseWhole, Option.some.injEq, Prod.mk.injEq] at h
    obtain ⟨rfl, rfl, -⟩ := h
    exact ⟨hacc, le_rfl, by norm_num⟩
  | c :: cs, acc, w, rest, u, hacc, h => by
    rw [parseWhole] at h
    split_ifs at h with h1 h2 h3
    · -- the decimals
      rw [show CENT * 10 = (10 : ℤ) ^ 7 by norm_num [CENT]] at h
      simp only [Option.some.injEq, Prod.mk.injEq] at h
      obtain ⟨rfl, rfl, -⟩ := h
      have := parseFraction_bounds cs 7 0
      exact ⟨hacc, by omega, by omega⟩
    · simp only [Option.some.injEq, Prod.mk.injEq] at h
      obtain ⟨rfl, rfl, -⟩ := h
      exact ⟨hacc, le_rfl, by norm_num⟩
    · exact parseWhole_spec (fun d hd => (List.mem_append.1 hd).elim (hacc d) fun hd => by
        rw [List.mem_singleton.1 hd]
        simpa using h3) h

/-- `atoi64` of at most eighteen digits is their value. -/
theorem atoi64_of_digits {D : List Char} (hD : ∀ c ∈ D, isdigit c = true)
    (hlen : D.length ≤ 18) : atoi64 D = digitsValue D := by
  have hlt : digitsValue D < 10 ^ 18 :=
    lt_of_lt_of_le (digitsValue_lt hD) (Nat.pow_le_pow_right (by norm_num) hlen)
  have hs : D.dropWhile isspace = D := by
    cases D with
    | nil => rfl
    | cons c D =>
      rw [List.dropWhile_cons_of_neg]
      rw [isspace_eq_false_of_isdigit (hD c List.mem_cons_self)]
      decide
  unfold atoi64
  rw [hs]
  split
  · exact absurd (hD '-' (by simp_all)) (by decide)
  · exact absurd (hD '+' (by simp_all)) (by decide)
  · rw [List.takeWhile_eq_self_iff.2 hD]
    dsimp only
    omega

/-- **`ParseMoney` of a decimal text**: up to ten digits, a point and up to eight decimals are read
as the amount they write. -/
theorem ParseMoney_decimals {D F : List Char} (hD : D ≠ []) (hDd : ∀ c ∈ D, isdigit c = true)
    (hD10 : D.length ≤ 10) (hFd : ∀ c ∈ F, isdigit c = true) (hF8 : F.length ≤ 8) :
    ParseMoney (D ++ '.' :: F) =
      some (digitsValue D * COIN + digitsValue F * 10 ^ (8 - F.length)) := by
  have hnul : (D ++ '.' :: F).takeWhile (· != '\x00') = D ++ '.' :: F := by
    refine List.takeWhile_eq_self_iff.2 fun c hc => ?_
    rcases List.mem_append.1 hc with hc | hc | ⟨_, hc⟩
    · exact bne_iff_ne.2 (ne_nul_of_isdigit (hDd c hc))
    · rfl
    · exact bne_iff_ne.2 (ne_nul_of_isdigit (hFd c hc))
  obtain ⟨c, D', rfl⟩ := List.exists_cons_of_ne_nil hD
  have hsp : (c :: D' ++ '.' :: F).dropWhile isspace = c :: D' ++ '.' :: F := by
    rw [List.cons_append, List.dropWhile_cons_of_neg]
    rw [isspace_eq_false_of_isdigit (hDd c List.mem_cons_self)]
    decide
  have hu := digitsValue_lt hFd
  have hunits : (digitsValue F : ℤ) * 10 ^ (8 - F.length) < 10 ^ 8 := by
    have : digitsValue F * 10 ^ (8 - F.length) < 10 ^ 8 :=
      calc _ < 10 ^ F.length * 10 ^ (8 - F.length) :=
            Nat.mul_lt_mul_of_pos_right hu (by positivity)
        _ = 10 ^ 8 := by rw [← pow_add, Nat.add_sub_cancel' hF8]
    exact_mod_cast this
  have hunits0 : (0 : ℤ) ≤ digitsValue F * 10 ^ (8 - F.length) := by positivity
  unfold ParseMoney
  rw [hnul, hsp, parseWhole_digits hDd, List.nil_append, parseWhole, if_pos rfl,
    show CENT * 10 = (10 : ℤ) ^ 7 by norm_num [CENT], parseFraction_digits hFd 0 (by omega),
    show 7 + 1 - F.length = 8 - F.length by omega]
  dsimp only
  rw [if_neg (by simp), if_neg (by omega), if_neg (by unfold COIN; omega),
    atoi64_of_digits hDd (by omega)]
  simp

/-- **Formatting then parsing** gives the amount back, for every amount from zero up to the ten
digits of whole coins that `ParseMoney` accepts. -/
theorem ParseMoney_FormatMoney {n : ℤ} (h0 : 0 ≤ n) (hn : n < 10 ^ 10 * COIN) :
    ParseMoney (FormatMoney n) = some n := by
  have hC : (0 : ℤ) < COIN := by norm_num [COIN]
  have hq0 : 0 ≤ n / COIN := Int.ediv_nonneg h0 hC.le
  have hr0 : 0 ≤ n % COIN := Int.emod_nonneg n hC.ne'
  have hq : n / COIN < 10 ^ 10 := Int.ediv_lt_of_lt_mul hC hn
  have hr : n % COIN < 10 ^ 8 := by simpa [COIN] using Int.emod_lt_of_pos n hC
  set D := decimalChars (n / COIN).natAbs
  set R := zeroPadded 8 (n % COIN).natAbs
  have hR : R.length = 8 := length_zeroPadded (by norm_num) (by omega)
  have hFmt : FormatMoney n = (D ++ '.' :: R).take
      ((D ++ '.' :: R).length - trimFrom (D ++ '.' :: R) (D ++ '.' :: R).length) := by
    have hpos : (if n > 0 then n else -n) = n := by split_ifs <;> omega
    simp only [FormatMoney, hpos, Int.tdiv_eq_ediv_of_nonneg h0, Int.tmod_eq_emod_of_nonneg h0,
      formatInt, formatIntZeroPadded, if_neg (not_lt.2 hq0), if_neg (not_lt.2 hr0),
      if_neg (not_lt.2 h0), D, R]
  obtain ⟨t, ht, htake, hzeros⟩ := trim_decimals (D := D) hR
  have hF : (R.take (8 - t)).length = 8 - t := by
    rw [List.length_take, hR]
    omega
  have hD10 : D.length ≤ 10 := length_decimalChars_le (by norm_num) (by omega)
  have hvD : (digitsValue D : ℤ) = n / COIN := by
    rw [digitsValue_decimalChars, Int.natAbs_of_nonneg hq0]
  have hvR : digitsValue (R.take (8 - t)) * 10 ^ t = (n % COIN).natAbs := by
    rw [← digitsValue_append_zeros, ← hzeros, digitsValue_zeroPadded]
  rw [hFmt, htake, ParseMoney_decimals (decimalChars_ne_nil _)
    (fun c hc => isdigit_of_mem_decimalChars hc) hD10
    (fun c hc => isdigit_of_mem_zeroPadded (List.mem_of_mem_take hc)) (by rw [hF]; omega),
    hF, show 8 - (8 - t) = t by omega]
  congr 1
  calc (digitsValue D : ℤ) * COIN + ((digitsValue (R.take (8 - t)) * 10 ^ t : ℕ) : ℤ)
      = n / COIN * COIN + n % COIN := by rw [hvD, hvR, Int.natAbs_of_nonneg hr0]
    _ = n := Int.ediv_mul_add_emod n COIN

/-- What `ParseMoney` accepts is an amount from zero up to ten digits of whole coins. -/
theorem ParseMoney_range {str : List Char} {v : ℤ} (h : ParseMoney str = some v) :
    0 ≤ v ∧ v < 10 ^ 10 * COIN := by
  unfold ParseMoney at h
  split at h
  · exact absurd h (by simp)
  · rename_i w u rest hw
    obtain ⟨hwd, -, hu⟩ := parseWhole_spec (by simp) hw
    split_ifs at h with h1 h2 h3
    have hv := atoi64_of_digits hwd (by omega)
    have hlt := digitsValue_lt hwd
    have hpow : 10 ^ w.length ≤ 10 ^ 10 := Nat.pow_le_pow_right (by norm_num) (by omega)
    simp only [Option.some.injEq] at h
    subst h
    rw [hv]
    norm_num [COIN] at h3 ⊢
    omega

/-- A negative amount is printed as its absolute value with a `-` in front. -/
theorem FormatMoney_neg {n : ℤ} (hn : n < 0) : FormatMoney n = '-' :: FormatMoney (-n) := by
  have h1 : ¬ n > 0 := by omega
  have h2 : -n > 0 := by omega
  have h3 : ¬ -n < 0 := by omega
  simp only [FormatMoney, if_neg h1, if_pos h2, if_pos hn, if_neg h3]

theorem money_format_round_trip :
    (∀ n : ℤ, 0 ≤ n → n < 10 ^ 10 * COIN → ParseMoney (FormatMoney n) = some n) ∧
    (∀ (str : List Char) (v : ℤ), ParseMoney str = some v →
      0 ≤ v ∧ v < 10 ^ 10 * COIN) ∧
    ∀ n : ℤ, -(10 ^ 10 * COIN) < n → n < 0 → FormatMoney n = '-' :: FormatMoney (-n) :=
  ⟨fun _ h0 hn => ParseMoney_FormatMoney h0 hn, fun _ _ h => ParseMoney_range h,
    fun _ _ hn => FormatMoney_neg hn⟩

end MvfBu
