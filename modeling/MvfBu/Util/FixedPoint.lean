import Mathlib.Algebra.Field.Rat
import Mathlib.Algebra.Order.Ring.Abs
import Mathlib.Data.Rat.Cast.CharZero
import Mathlib.Data.List.TakeWhile
import Mathlib.Tactic.Ring
import MvfBu.Lib.Decimal

set_option autoImplicit false

/-!
# Reading JSON numbers as fixed point (`ParseFixedPoint`)

`ParseFixedPoint(val, decimals, &out)` reads a number in JSON's grammar
`-?(0|[1-9][0-9]*)(\.[0-9]+)?([eE][+-]?[0-9]+)?` and returns its value times `10 ^ decimals`
as an integer of magnitude at most `UPPER_BOUND = 10 ^ 18 - 1`. The mantissa is read digit by
digit with its trailing zeros counted, not multiplied in (`mantissa_tzeros`), so that a text
such as `1.10000000000000000` does not overflow; the point's offset, the exponent and the
counted zeros then make one exponent, by which the mantissa is scaled.

A number other than zero is accepted exactly when its value times `10 ^ decimals` is an
integer of magnitude at most `UPPER_BOUND`, and that integer is returned. Zero is not: no
counted zero cancels its exponent, so `0e18` and `0e-1` are refused although their value is
`0`; zero is accepted exactly when its written exponent plus `decimals` is in `[0, 18)`.

## Main definitions

* `MvfBu.ProcessMantissaDigit`, `MvfBu.ParseFixedPoint` — the parser, a definition a stage.
* `MvfBu.JsonNumber` — a number in JSON's grammar by its parts, with its text `render` and
  its exact `value`.

## Main results

* `MvfBu.ParseFixedPoint_render` — what the parser computes on the text of a number.
* `MvfBu.exists_render_of_ParseFixedPoint` — every text it accepts is the text of a number.
* `MvfBu.ParseFixedPoint_iff` — which texts it accepts, and what it returns for them.
* `MvfBu.ParseFixedPoint_refuses_zero_outside_exponent_range` — zero is refused when its
  written exponent plus `decimals` is outside `[0, 18)`, although the header promises every
  number whose result is in range.

## Implementation notes

The string is a list of characters. The positions `ptr`, `end`, `point_ofs` and
`mantissa_tzeros` are `int` in the source, so the statements are about strings of fewer than
`2 ^ 31` characters. The mantissa and the exponent are integers: every check comes before the
multiplication it guards, so no `int64_t` value the source computes overflows.
-/

namespace MvfBu

open Decimal

/-! ### The parser -/

/-- `UPPER_BOUND`, `10 ^ 18 - 1`: the largest magnitude of a result. -/
def UPPER_BOUND : ℤ := 1000000000000000000 - 1

/-- The loop of `ProcessMantissaDigit` run `k` times: multiply by ten, failing first when the
mantissa is above `UPPER_BOUND / 10`. -/
def mulTenChecked (mantissa : ℤ) : ℕ → Option ℤ
  | 0 => some mantissa
  | k + 1 => if mantissa > UPPER_BOUND / 10 then none else mulTenChecked (mantissa * 10) k

/-- `ProcessMantissaDigit`: a `'0'` is only counted in `mantissa_tzeros`; another digit first
multiplies the counted zeros in, then is added. `none` is an overflow. -/
def ProcessMantissaDigit (ch : Char) (mantissa : ℤ) (mantissa_tzeros : ℕ) : Option (ℤ × ℕ) :=
  if ch = '0' then some (mantissa, mantissa_tzeros + 1)
  else (mulTenChecked mantissa (mantissa_tzeros + 1)).map fun m => (m + digitVal ch, 0)

/-- `ptr < end && val[ptr] >= '0' && val[ptr] <= '9'`. -/
def startsWithDigit : List Char → Bool
  | c :: _ => isdigit c
  | [] => false

/-- A loop `while (ptr < end && val[ptr] >= '0' && val[ptr] <= '9')` over digits of the
mantissa, each through `ProcessMantissaDigit`: the mantissa, its counted zeros, the number of
digits read (`point_ofs` in the fraction) and the rest of the string. -/
def mantissaLoop : List Char → ℤ → ℕ → ℕ → Option (ℤ × ℕ × ℕ × List Char)
  | [], mantissa, mantissa_tzeros, n => some (mantissa, mantissa_tzeros, n, [])
  | c :: s, mantissa, mantissa_tzeros, n =>
    if isdigit c then
      match ProcessMantissaDigit c mantissa mantissa_tzeros with
      | some st => mantissaLoop s st.1 st.2 (n + 1)
      | none => none
    else some (mantissa, mantissa_tzeros, n, c :: s)

/-- The loop over the exponent's digits, `exponent = exponent * 10 + val[ptr] - '0'`, failing
first when the exponent is above `UPPER_BOUND / 10`. -/
def exponentLoop : List Char → ℤ → Option (ℤ × List Char)
  | [], exponent => some (exponent, [])
  | c :: s, exponent =>
    if isdigit c then
      if exponent > UPPER_BOUND / 10 then none
      else exponentLoop s (exponent * 10 + digitVal c)
    else some (exponent, c :: s)

/-- The final loop `for (int i=0; i < exponent; ++i)`: multiply by ten, failing first when the
mantissa is outside `[-(UPPER_BOUND / 10), UPPER_BOUND / 10]`. -/
def scaleChecked (mantissa : ℤ) : ℕ → Option ℤ
  | 0 => some mantissa
  | k + 1 =>
    if mantissa > UPPER_BOUND / 10 ∨ mantissa < -(UPPER_BOUND / 10) then none
    else scaleChecked (mantissa * 10) k

/-- The sign of the mantissa: a leading `'-'`. -/
def readSign : List Char → Bool × List Char
  | '-' :: s => (true, s)
  | s => (false, s)

/-- The integer part: a single `'0'` is passed, a digit `'1'` to `'9'` starts a run of digits
through `ProcessMantissaDigit`; anything else, or nothing, is refused. -/
def readInteger : List Char → Option (ℤ × ℕ × List Char)
  | c :: s =>
    if c = '0' then some (0, 0, s)
    else if '1' ≤ c ∧ c ≤ '9' then
      (mantissaLoop (c :: s) 0 0 0).map fun r => (r.1, r.2.1, r.2.2.2)
    else none
  | [] => none

/-- The fraction: after a `'.'`, at least one digit, each through `ProcessMantissaDigit` and
counted in `point_ofs`. -/
def readFraction (s : List Char) (mantissa : ℤ) (mantissa_tzeros : ℕ) :
    Option (ℤ × ℕ × ℕ × List Char) :=
  match s with
  | '.' :: s => if startsWithDigit s then mantissaLoop s mantissa mantissa_tzeros 0 else none
  | s => some (mantissa, mantissa_tzeros, 0, s)

/-- The sign of the exponent: `'+'` or `'-'`, or none. -/
def readExponentSign : List Char → Bool × List Char
  | '+' :: s => (false, s)
  | '-' :: s => (true, s)
  | s => (false, s)

/-- The exponent: after `'e'` or `'E'`, a sign and at least one digit. -/
def readExponent : List Char → Option (Bool × ℤ × List Char)
  | c :: s =>
    if c = 'e' ∨ c = 'E' then
      match readExponentSign s with
      | (exponent_sign, s) =>
        if startsWithDigit s then (exponentLoop s 0).map fun r => (exponent_sign, r.1, r.2)
        else none
    else some (false, 0, c :: s)
  | [] => some (false, 0, [])

/-- The end of `ParseFixedPoint`: the exponent is finalized from the point's offset and the
counted zeros, `decimals` is added, and the mantissa is scaled by it and checked. -/
def convertFixedPoint (mantissa_sign : Bool) (mantissa : ℤ) (mantissa_tzeros point_ofs : ℕ)
    (exponent_sign : Bool) (exponent decimals : ℤ) : Option ℤ :=
  let exponent := (if exponent_sign then -exponent else exponent) - point_ofs + mantissa_tzeros
  let mantissa := if mantissa_sign then -mantissa else mantissa
  let exponent := exponent + decimals
  if exponent < 0 then none
  else if exponent ≥ 18 then none
  else (scaleChecked mantissa exponent.toNat).bind fun mantissa =>
    if mantissa > UPPER_BOUND ∨ mantissa < -UPPER_BOUND then none else some mantissa

/-- `ParseFixedPoint(val, decimals, &amount_out)`: `none` where the source returns `false`. -/
def ParseFixedPoint (val : List Char) (decimals : ℤ) : Option ℤ := do
  let (mantissa_sign, s) := readSign val
  let (mantissa, mantissa_tzeros, s) ← readInteger s
  let (mantissa, mantissa_tzeros, point_ofs, s) ← readFraction s mantissa mantissa_tzeros
  let (exponent_sign, exponent, s) ← readExponent s
  -- trailing garbage
  if s = [] then
    convertFixedPoint mantissa_sign mantissa mantissa_tzeros point_ofs exponent_sign exponent
      decimals
  else none

/-! ### Numbers in JSON's grammar -/

/-- A nonempty string of digits, `[0-9]+`. -/
def IsDigits (l : List Char) : Prop := l ≠ [] ∧ ∀ c ∈ l, isdigit c = true

/-- An exponent `[eE][+-]?[0-9]+` by its parts. -/
structure JsonExponent where
  letter : Char
  sign : List Char
  digits : List Char
  letter_wf : letter = 'e' ∨ letter = 'E'
  sign_wf : sign = [] ∨ sign = ['+'] ∨ sign = ['-']
  digits_wf : IsDigits digits

/-- A number in JSON's grammar `-?(0|[1-9][0-9]*)(\.[0-9]+)?([eE][+-]?[0-9]+)?` by its parts:
the sign, the integer's digits, the fraction's digits when there is a point, and the
exponent. -/
structure JsonNumber where
  neg : Bool
  int : List Char
  frac : Option (List Char)
  exp : Option JsonExponent
  int_wf : int = ['0'] ∨ (IsDigits int ∧ int.head? ≠ some '0')
  frac_wf : ∀ F ∈ frac, IsDigits F

/-- The text of a fraction: a point and its digits. -/
def fracText : Option (List Char) → List Char
  | some F => '.' :: F
  | none => []

/-- The text of an exponent: its letter, sign and digits. -/
def expText : Option JsonExponent → List Char
  | some x => x.letter :: (x.sign ++ x.digits)
  | none => []

/-- The digits of an exponent. -/
def expDigits : Option JsonExponent → List Char
  | some x => x.digits
  | none => []

/-- Whether an exponent is negative. -/
def expNeg : Option JsonExponent → Bool
  | some x => decide (x.sign = ['-'])
  | none => false

/-- The text of a number. -/
def JsonNumber.render (n : JsonNumber) : List Char :=
  (if n.neg then ['-'] else []) ++ (n.int ++ (fracText n.frac ++ expText n.exp))

/-- The value of the exponent: `0` when there is none. -/
def JsonNumber.expValue (n : JsonNumber) : ℤ :=
  if expNeg n.exp then -(digitsValue (expDigits n.exp) : ℤ) else digitsValue (expDigits n.exp)

/-- The exact value of a number: its digits, point and exponent read as a rational. -/
def JsonNumber.value (n : JsonNumber) : ℚ :=
  (if n.neg then -1 else 1) * (digitsValue (n.int ++ n.frac.getD []) : ℚ) *
    10 ^ (n.expValue - (n.frac.getD []).length)

/-! ### The mantissa without its overflow checks -/

/-- One digit of the mantissa as `ProcessMantissaDigit` computes it when nothing overflows. -/
def processDigit (st : ℤ × ℕ) (c : Char) : ℤ × ℕ :=
  if c = '0' then (st.1, st.2 + 1) else (st.1 * 10 ^ (st.2 + 1) + digitVal c, 0)

/-- A block of digits of the mantissa, from the mantissa `m` with `t` zeros counted. -/
def processDigits (P : List Char) (m : ℤ) (t : ℕ) : ℤ × ℕ := P.foldl processDigit (m, t)

/-- The integer's digits that reach `ProcessMantissaDigit`: none for a single `'0'`. -/
def JsonNumber.intDigits (n : JsonNumber) : List Char := if n.int = ['0'] then [] else n.int

/-- The digits that reach `ProcessMantissaDigit`: the integer's and the fraction's. -/
def JsonNumber.mantissaDigits (n : JsonNumber) : List Char := n.intDigits ++ n.frac.getD []

@[simp] theorem processDigits_nil (m : ℤ) (t : ℕ) : processDigits [] m t = (m, t) := rfl

theorem processDigits_cons (c : Char) (P : List Char) (m : ℤ) (t : ℕ) :
    processDigits (c :: P) m t =
      processDigits P (processDigit (m, t) c).1 (processDigit (m, t) c).2 := rfl

theorem processDigits_append (A B : List Char) (m : ℤ) (t : ℕ) :
    processDigits (A ++ B) m t =
      processDigits B (processDigits A m t).1 (processDigits A m t).2 := by
  simp [processDigits, List.foldl_append]

theorem digitVal_zero : digitVal '0' = 0 := rfl

theorem digitVal_pos {c : Char} (hc : isdigit c = true) (h0 : c ≠ '0') : 0 < digitVal c := by
  have hne : c.toNat ≠ 48 := fun h => h0 (Char.toNat_inj.1 h)
  rw [isdigit_iff] at hc
  simp only [digitVal]
  omega

theorem le_processDigit {m : ℤ} (hm : 0 ≤ m) (t : ℕ) (c : Char) :
    m ≤ (processDigit (m, t) c).1 := by
  unfold processDigit
  split_ifs
  · exact le_rfl
  · have : m ≤ m * 10 ^ (t + 1) := le_mul_of_one_le_right hm (one_le_pow₀ (by norm_num))
    simp only
    omega

/-- The mantissa never decreases along the digits. -/
theorem le_processDigits {m : ℤ} (hm : 0 ≤ m) (P : List Char) (t : ℕ) :
    m ≤ (processDigits P m t).1 := by
  induction P generalizing m t with
  | nil => exact le_rfl
  | cons c P ih =>
    have h := le_processDigit hm t c
    rw [processDigits_cons]
    exact h.trans (ih (hm.trans h) _)

/-- **The counted zeros complete the mantissa** to the value of the digits read. -/
theorem processDigits_value {P : List Char} (hP : ∀ c ∈ P, isdigit c = true) (m : ℤ) (t : ℕ) :
    (processDigits P m t).1 * 10 ^ (processDigits P m t).2 =
      m * 10 ^ (t + P.length) + digitsValue P := by
  induction P generalizing m t with
  | nil => simp
  | cons c P ih =>
    rw [processDigits_cons, ih (fun d hd => hP d (List.mem_cons_of_mem c hd)), digitsValue_cons,
      List.length_cons]
    unfold processDigit
    split_ifs with h0
    · rw [h0, digitVal_zero]
      push_cast
      ring
    · push_cast
      ring

/-- A mantissa that is not zero does not end in a zero: the zeros after its last other digit
are counted, not multiplied in. -/
theorem processDigits_mod {P : List Char} (hP : ∀ c ∈ P, isdigit c = true) {m : ℤ} (t : ℕ)
    (hm : m = 0 ∨ m % 10 ≠ 0) :
    (processDigits P m t).1 = 0 ∨ (processDigits P m t).1 % 10 ≠ 0 := by
  induction P generalizing m t with
  | nil => exact hm
  | cons c P ih =>
    have hc := hP c List.mem_cons_self
    rw [processDigits_cons]
    refine ih (fun d hd => hP d (List.mem_cons_of_mem c hd)) _ ?_
    unfold processDigit
    split_ifs with h0
    · exact hm
    · have hd := digitVal_pos hc h0
      have hd' := digitVal_lt hc
      have hp : m * 10 ^ (t + 1) = m * 10 ^ t * 10 := by ring
      simp only [hp]
      generalize m * 10 ^ t = x
      omega

theorem processDigits_snd_le (P : List Char) (m : ℤ) (t : ℕ) :
    (processDigits P m t).2 ≤ t + P.length := by
  induction P generalizing m t with
  | nil => simp
  | cons c P ih =>
    rw [processDigits_cons, List.length_cons]
    refine (ih _ _).trans ?_
    unfold processDigit
    split_ifs <;> simp only <;> omega

/-- A mantissa that stays zero has counted every digit as a zero. -/
theorem processDigits_snd_of_fst_eq_zero {P : List Char} (hP : ∀ c ∈ P, isdigit c = true)
    {m : ℤ} (hm : 0 ≤ m) (t : ℕ) (h : (processDigits P m t).1 = 0) :
    (processDigits P m t).2 = t + P.length := by
  induction P generalizing m t with
  | nil => simp
  | cons c P ih =>
    have hc := hP c List.mem_cons_self
    have hP' : ∀ d ∈ P, isdigit d = true := fun d hd => hP d (List.mem_cons_of_mem c hd)
    have hm' := hm.trans (le_processDigit hm t c)
    rw [processDigits_cons] at h ⊢
    rw [ih hP' hm' _ h, List.length_cons]
    unfold processDigit at h ⊢
    split_ifs at h ⊢ with h0
    · simp only
      omega
    · -- a digit other than `'0'` makes the mantissa positive for good
      have hd := digitVal_pos hc h0
      have hle := le_processDigits hm' P 0
      have : 0 ≤ m * 10 ^ (t + 1) := mul_nonneg hm (by positivity)
      simp only [processDigit, if_neg h0] at hle h
      omega

/-! ### The loops -/

theorem mulTenChecked_succ {m : ℤ} (hm : 0 ≤ m) (k : ℕ) :
    mulTenChecked m (k + 1) =
      if m * 10 ^ k ≤ UPPER_BOUND / 10 then some (m * 10 ^ (k + 1)) else none := by
  induction k generalizing m with
  | zero =>
    simp only [mulTenChecked, pow_zero, mul_one, zero_add, pow_one]
    by_cases h : m > UPPER_BOUND / 10
    · rw [if_pos h, if_neg (not_le.2 h)]
    · rw [if_neg h, if_pos (le_of_not_gt h)]
  | succ k ih =>
    rw [mulTenChecked, ih (by omega)]
    have hp : m * 10 * 10 ^ k = m * 10 ^ (k + 1) := by ring
    have hp' : m * 10 * 10 ^ (k + 1) = m * 10 ^ (k + 1 + 1) := by ring
    rw [hp, hp']
    by_cases h : m > UPPER_BOUND / 10
    · have : m ≤ m * 10 ^ (k + 1) := le_mul_of_one_le_right hm (one_le_pow₀ (by norm_num))
      rw [if_pos h, if_neg (by omega)]
    · rw [if_neg h]

/-- `ProcessMantissaDigit` is the digit without its check, refused exactly when the new
mantissa would be above `UPPER_BOUND`. -/
theorem ProcessMantissaDigit_eq {c : Char} (hc : isdigit c = true) {m : ℤ} (hm : 0 ≤ m)
    (hmU : m ≤ UPPER_BOUND) (t : ℕ) :
    ProcessMantissaDigit c m t =
      if (processDigit (m, t) c).1 ≤ UPPER_BOUND then some (processDigit (m, t) c) else none := by
  unfold ProcessMantissaDigit processDigit
  by_cases h0 : c = '0'
  · simp only [if_pos h0]
    rw [if_pos hmU]
  · simp only [if_neg h0]
    rw [mulTenChecked_succ hm]
    have hd := digitVal_pos hc h0
    have hd' := digitVal_lt hc
    -- the check before the last multiplication is the bound on the digit's result
    have key : m * 10 ^ t ≤ UPPER_BOUND / 10 ↔ m * 10 ^ (t + 1) + digitVal c ≤ UPPER_BOUND := by
      have hp : m * 10 ^ (t + 1) = m * 10 ^ t * 10 := by ring
      rw [hp, UPPER_BOUND]
      generalize m * 10 ^ t = x
      omega
    by_cases hk : m * 10 ^ t ≤ UPPER_BOUND / 10
    · rw [if_pos hk, if_pos (key.1 hk)]
      rfl
    · rw [if_neg hk, if_neg (mt key.2 hk)]
      rfl

theorem startsWithDigit_dropWhile (s : List Char) :
    startsWithDigit (s.dropWhile isdigit) = false := by
  induction s with
  | nil => rfl
  | cons c s ih =>
    by_cases hc : isdigit c = true
    · rwa [List.dropWhile_cons_of_pos hc]
    · rw [List.dropWhile_cons_of_neg hc]
      simpa [startsWithDigit] using hc

theorem takeWhile_ne_nil {s : List Char} (h : startsWithDigit s = true) :
    s.takeWhile isdigit ≠ [] := by
  cases s with
  | nil => simp [startsWithDigit] at h
  | cons c s =>
    simp only [startsWithDigit] at h
    simp [List.takeWhile_cons_of_pos h]

/-- **The mantissa loop over a block of digits**: the digits without their checks, refused
exactly when the mantissa they make is above `UPPER_BOUND`. -/
theorem mantissaLoop_append {P : List Char} (hP : ∀ c ∈ P, isdigit c = true) {rest : List Char}
    (hr : startsWithDigit rest = false) {m : ℤ} (hm : 0 ≤ m) (hmU : m ≤ UPPER_BOUND) (t n : ℕ) :
    mantissaLoop (P ++ rest) m t n =
      if (processDigits P m t).1 ≤ UPPER_BOUND then
        some ((processDigits P m t).1, (processDigits P m t).2, n + P.length, rest)
      else none := by
  induction P generalizing m t n with
  | nil =>
    rw [processDigits_nil, if_pos hmU]
    cases rest with
    | nil => rfl
    | cons c r =>
      simp only [startsWithDigit] at hr
      simp [mantissaLoop, hr]
  | cons c P ih =>
    have hc := hP c List.mem_cons_self
    have hP' : ∀ d ∈ P, isdigit d = true := fun d hd => hP d (List.mem_cons_of_mem c hd)
    have hm' := hm.trans (le_processDigit hm t c)
    rw [List.cons_append, mantissaLoop, if_pos hc, ProcessMantissaDigit_eq hc hm hmU,
      processDigits_cons]
    by_cases h : (processDigit (m, t) c).1 ≤ UPPER_BOUND
    · rw [if_pos h]
      simp only
      rw [ih hP' hm' h, List.length_cons, Nat.add_right_comm, Nat.add_assoc]
    · -- the mantissa only grows, so the refused digit leaves it above the bound
      have := le_processDigits hm' P (processDigit (m, t) c).2
      rw [if_neg h, if_neg (by omega)]

/-- **The exponent loop over a block of digits**: the value of the digits, refused exactly
when it is above `UPPER_BOUND`. -/
theorem exponentLoop_append {X : List Char} (hX : ∀ c ∈ X, isdigit c = true) {rest : List Char}
    (hr : startsWithDigit rest = false) {e : ℤ} (he : 0 ≤ e) (heU : e ≤ UPPER_BOUND) :
    exponentLoop (X ++ rest) e =
      if e * 10 ^ X.length + digitsValue X ≤ UPPER_BOUND then
        some (e * 10 ^ X.length + digitsValue X, rest)
      else none := by
  induction X generalizing e with
  | nil =>
    simp only [List.length_nil, pow_zero, mul_one, digitsValue_nil, Nat.cast_zero, add_zero,
      if_pos heU, List.nil_append]
    cases rest with
    | nil => rfl
    | cons c r =>
      simp only [startsWithDigit] at hr
      simp [exponentLoop, hr]
  | cons c X ih =>
    have hc := hX c List.mem_cons_self
    have hd := digitVal_lt hc
    have hX' : ∀ d ∈ X, isdigit d = true := fun d hd => hX d (List.mem_cons_of_mem c hd)
    have hval : e * 10 ^ (X.length + 1) + ((digitsValue (c :: X) : ℕ) : ℤ) =
        (e * 10 + digitVal c) * 10 ^ X.length + digitsValue X := by
      rw [digitsValue_cons]
      push_cast
      ring
    rw [List.cons_append, exponentLoop, if_pos hc, List.length_cons, hval]
    by_cases h : e > UPPER_BOUND / 10
    · have hpos : (1 : ℤ) ≤ 10 ^ X.length := one_le_pow₀ (by norm_num)
      have hle : (e * 10 + digitVal c) ≤ (e * 10 + digitVal c) * 10 ^ X.length :=
        le_mul_of_one_le_right (by omega) hpos
      rw [if_pos h, if_neg (by unfold UPPER_BOUND at h ⊢; omega)]
    · rw [if_neg h, ih hX' (by omega) (by unfold UPPER_BOUND at h ⊢; omega)]

theorem scaleChecked_succ (m : ℤ) (k : ℕ) :
    scaleChecked m (k + 1) =
      if |m| * 10 ^ k ≤ UPPER_BOUND / 10 then some (m * 10 ^ (k + 1)) else none := by
  induction k generalizing m with
  | zero =>
    simp only [scaleChecked, pow_zero, mul_one, zero_add, pow_one]
    by_cases h : m > UPPER_BOUND / 10 ∨ m < -(UPPER_BOUND / 10)
    · rw [if_pos h, if_neg (by rw [abs_le]; omega)]
    · rw [if_neg h, if_pos (by rw [abs_le]; omega)]
  | succ k ih =>
    rw [scaleChecked, ih, abs_mul, abs_of_pos (by norm_num : (0 : ℤ) < 10)]
    have hp : |m| * 10 * 10 ^ k = |m| * 10 ^ (k + 1) := by ring
    have hp' : m * 10 * 10 ^ (k + 1) = m * 10 ^ (k + 1 + 1) := by ring
    rw [hp, hp']
    by_cases h : m > UPPER_BOUND / 10 ∨ m < -(UPPER_BOUND / 10)
    · have : |m| ≤ |m| * 10 ^ (k + 1) :=
        le_mul_of_one_le_right (abs_nonneg m) (one_le_pow₀ (by norm_num))
      have habs : ¬|m| ≤ UPPER_BOUND / 10 := by rw [abs_le]; omega
      rw [if_pos h, if_neg (by omega)]
    · rw [if_neg h]

/-- **The final loop and the bound check after it**: the mantissa scaled by `10 ^ k`, when
that is within `UPPER_BOUND`. -/
theorem scaleChecked_bind (m : ℤ) (k : ℕ) :
    ((scaleChecked m k).bind fun m =>
        if m > UPPER_BOUND ∨ m < -UPPER_BOUND then none else some m) =
      if |m| * 10 ^ k ≤ UPPER_BOUND then some (m * 10 ^ k) else none := by
  cases k with
  | zero =>
    simp only [scaleChecked, Option.bind_some, pow_zero, mul_one]
    by_cases h : |m| ≤ UPPER_BOUND
    · rw [if_pos h, if_neg (by rw [abs_le] at h; omega)]
    · rw [if_neg h, if_pos (by rw [abs_le] at h; omega)]
  | succ k =>
    have habs : |m * 10 ^ (k + 1)| = |m| * 10 ^ k * 10 := by
      rw [abs_mul, abs_pow, abs_of_pos (by norm_num : (0 : ℤ) < 10)]
      ring
    have hp : |m| * 10 ^ (k + 1) = |m| * 10 ^ k * 10 := by ring
    have hb := abs_le (a := m * 10 ^ (k + 1)) (b := UPPER_BOUND)
    rw [scaleChecked_succ, hp]
    rw [habs] at hb
    by_cases h : |m| * 10 ^ k ≤ UPPER_BOUND / 10
    · rw [if_pos h, Option.bind_some, if_neg (by unfold UPPER_BOUND at h hb ⊢; omega),
        if_pos (by unfold UPPER_BOUND at h ⊢; omega)]
    · rw [if_neg h, Option.bind_none, if_neg (by unfold UPPER_BOUND at h ⊢; omega)]

/-- **The end of `ParseFixedPoint`**: the signed mantissa scaled by the final exponent `e`,
when `e` is in `[0, 18)` and the result within `UPPER_BOUND`. -/
theorem convertFixedPoint_eq (mantissa_sign : Bool) (mantissa : ℤ)
    (mantissa_tzeros point_ofs : ℕ) (exponent_sign : Bool) (exponent decimals e : ℤ)
    (he : (if exponent_sign then -exponent else exponent) - point_ofs + mantissa_tzeros +
      decimals = e) :
    convertFixedPoint mantissa_sign mantissa mantissa_tzeros point_ofs exponent_sign exponent
        decimals =
      if 0 ≤ e ∧ e < 18 ∧ |mantissa| * 10 ^ e.toNat ≤ UPPER_BOUND then
        some ((if mantissa_sign then -mantissa else mantissa) * 10 ^ e.toNat)
      else none := by
  have habs : |(if mantissa_sign then -mantissa else mantissa)| = |mantissa| := by
    split_ifs
    · exact abs_neg mantissa
    · rfl
  unfold convertFixedPoint
  simp only [he]
  rw [scaleChecked_bind, habs]
  by_cases h0 : e < 0
  · rw [if_pos h0, if_neg (by omega)]
  · rw [if_neg h0]
    by_cases h18 : e ≥ 18
    · rw [if_pos h18, if_neg (by omega)]
    · rw [if_neg h18]
      by_cases hb : |mantissa| * 10 ^ e.toNat ≤ UPPER_BOUND
      · have hc : 0 ≤ e ∧ e < 18 ∧ |mantissa| * 10 ^ e.toNat ≤ UPPER_BOUND :=
          ⟨by omega, by omega, hb⟩
        rw [if_pos hb, if_pos hc]
      · rw [if_neg hb, if_neg (fun h => hb h.2.2)]

/-! ### The stages on the text of a number -/

theorem exists_cons_of_int (n : JsonNumber) : ∃ c r, n.int = c :: r ∧ isdigit c = true := by
  rcases n.int_wf with h | ⟨⟨hne, hd⟩, -⟩
  · exact ⟨'0', [], h, rfl⟩
  · obtain ⟨c, r, hcr⟩ := List.exists_cons_of_ne_nil hne
    exact ⟨c, r, hcr, hd c (by rw [hcr]; exact List.mem_cons_self)⟩

theorem startsWithDigit_expText (x : Option JsonExponent) :
    startsWithDigit (expText x) = false := by
  cases x with
  | none => rfl
  | some x => rcases x.letter_wf with h | h <;> simp [expText, startsWithDigit, h] <;> decide

theorem startsWithDigit_fracText (F : Option (List Char)) (x : Option JsonExponent) :
    startsWithDigit (fracText F ++ expText x) = false := by
  cases F with
  | none => exact startsWithDigit_expText x
  | some F => rfl

theorem head?_expText_ne (x : Option JsonExponent) : (expText x).head? ≠ some '.' := by
  cases x with
  | none => simp [expText]
  | some x => rcases x.letter_wf with h | h <;> simp [expText, h]

theorem readSign_render (n : JsonNumber) :
    readSign n.render = (n.neg, n.int ++ (fracText n.frac ++ expText n.exp)) := by
  obtain ⟨c, r, hcr, hc⟩ := exists_cons_of_int n
  have hne : c ≠ '-' := by
    rintro rfl
    exact absurd hc (by decide)
  unfold JsonNumber.render
  rw [hcr]
  cases n.neg
  · simp [readSign, hne]
  · rfl

theorem digit_one_le {c : Char} (hc : isdigit c = true) (h0 : c ≠ '0') : '1' ≤ c ∧ c ≤ '9' := by
  have hne : c.toNat ≠ 48 := fun h => h0 (Char.toNat_inj.1 h)
  have hiff : ('1' ≤ c ∧ c ≤ '9') ↔ 49 ≤ c.toNat ∧ c.toNat ≤ 57 := by
    simp only [Char.le_def]
    rfl
  rw [isdigit_iff] at hc
  rw [hiff]
  omega

/-- The integer part of a number, before a rest that does not start with a digit. -/
theorem readInteger_int (n : JsonNumber) {rest : List Char}
    (hr : startsWithDigit rest = false) :
    readInteger (n.int ++ rest) =
      if (processDigits n.intDigits 0 0).1 ≤ UPPER_BOUND then
        some ((processDigits n.intDigits 0 0).1, (processDigits n.intDigits 0 0).2, rest)
      else none := by
  unfold JsonNumber.intDigits
  rcases n.int_wf with h0 | ⟨⟨hne, hd⟩, hh⟩
  · rw [h0, if_pos rfl, processDigits_nil, if_pos (by decide)]
    rfl
  · obtain ⟨c, r, hcr⟩ := List.exists_cons_of_ne_nil hne
    have hc0 : c ≠ '0' := by
      rintro rfl
      exact hh (by rw [hcr]; rfl)
    have hint : n.int ≠ ['0'] := by
      rw [hcr]
      simp [hc0]
    rw [if_neg hint, hcr, List.cons_append, readInteger, if_neg hc0,
      if_pos (digit_one_le (hd c (by rw [hcr]; exact List.mem_cons_self)) hc0),
      ← List.cons_append, mantissaLoop_append (hcr ▸ hd) hr le_rfl (by decide)]
    split_ifs <;> rfl

/-- The fraction of a number, if any, before a rest that starts with no digit and no point. -/
theorem readFraction_frac {F : Option (List Char)} (hF : ∀ F' ∈ F, IsDigits F')
    {rest : List Char} (hr : startsWithDigit rest = false) (hp : rest.head? ≠ some '.')
    {m : ℤ} (hm : 0 ≤ m) (hmU : m ≤ UPPER_BOUND) (t : ℕ) :
    readFraction (fracText F ++ rest) m t =
      if (processDigits (F.getD []) m t).1 ≤ UPPER_BOUND then
        some ((processDigits (F.getD []) m t).1, (processDigits (F.getD []) m t).2,
          (F.getD []).length, rest)
      else none := by
  cases F with
  | none =>
    rw [if_pos (show (processDigits ((none : Option (List Char)).getD []) m t).1 ≤ UPPER_BOUND
      from hmU)]
    simp only [fracText, List.nil_append, Option.getD_none, processDigits_nil, List.length_nil]
    cases rest with
    | nil => rfl
    | cons c r =>
      have hc : c ≠ '.' := by simpa using hp
      simp [readFraction, hc]
  | some F =>
    obtain ⟨hne, hd⟩ := hF F rfl
    obtain ⟨c, r, rfl⟩ := List.exists_cons_of_ne_nil hne
    have hs : startsWithDigit ((c :: r) ++ rest) = true := hd c List.mem_cons_self
    simp only [fracText, List.cons_append, Option.getD_some]
    rw [readFraction, ← List.cons_append, if_pos hs, mantissaLoop_append hd hr hm hmU,
      Nat.zero_add]

theorem readExponentSign_sign (x : JsonExponent) :
    readExponentSign (x.sign ++ x.digits) = (decide (x.sign = ['-']), x.digits) := by
  obtain ⟨hne, hd⟩ := x.digits_wf
  obtain ⟨c, r, hcr⟩ := List.exists_cons_of_ne_nil hne
  have hc := hd c (by rw [hcr]; exact List.mem_cons_self)
  have hplus : c ≠ '+' := by
    rintro rfl
    exact absurd hc (by decide)
  have hminus : c ≠ '-' := by
    rintro rfl
    exact absurd hc (by decide)
  rcases x.sign_wf with h | h | h <;> rw [h]
  · rw [hcr]
    simp [readExponentSign, hplus, hminus]
  · rfl
  · rfl

/-- The exponent of a number, if any, at the end of its text. -/
theorem readExponent_exp (x : Option JsonExponent) :
    readExponent (expText x) =
      if (digitsValue (expDigits x) : ℤ) ≤ UPPER_BOUND then
        some (expNeg x, (digitsValue (expDigits x) : ℤ), [])
      else none := by
  cases x with
  | none =>
    rw [if_pos (by decide)]
    rfl
  | some x =>
    obtain ⟨hne, hd⟩ := x.digits_wf
    obtain ⟨c, r, hcr⟩ := List.exists_cons_of_ne_nil hne
    have hs : startsWithDigit x.digits = true := by
      rw [hcr]
      exact hd c (by rw [hcr]; exact List.mem_cons_self)
    have hloop := exponentLoop_append hd (show startsWithDigit [] = false from rfl) le_rfl
      (by decide)
    rw [List.append_nil, zero_mul, zero_add] at hloop
    by_cases hU : (digitsValue x.digits : ℤ) ≤ UPPER_BOUND
    · rw [if_pos (show (digitsValue (expDigits (some x)) : ℤ) ≤ UPPER_BOUND from hU)]
      rw [if_pos hU] at hloop
      simp only [expText, readExponent, if_pos x.letter_wf, readExponentSign_sign, if_pos hs,
        hloop]
      rfl
    · rw [if_neg (show ¬(digitsValue (expDigits (some x)) : ℤ) ≤ UPPER_BOUND from hU)]
      rw [if_neg hU] at hloop
      simp only [expText, readExponent, if_pos x.letter_wf, readExponentSign_sign, if_pos hs,
        hloop]
      rfl

/-- **What the parser computes on the text of a number**: the digits of the mantissa and of
the exponent, each refused above `UPPER_BOUND`, then `convertFixedPoint`. -/
theorem ParseFixedPoint_render (n : JsonNumber) (decimals : ℤ) :
    ParseFixedPoint n.render decimals =
      if (processDigits n.mantissaDigits 0 0).1 ≤ UPPER_BOUND ∧
          (digitsValue (expDigits n.exp) : ℤ) ≤ UPPER_BOUND then
        convertFixedPoint n.neg (processDigits n.mantissaDigits 0 0).1
          (processDigits n.mantissaDigits 0 0).2 (n.frac.getD []).length (expNeg n.exp)
          (digitsValue (expDigits n.exp)) decimals
      else none := by
  have hI0 : 0 ≤ (processDigits n.intDigits 0 0).1 := le_processDigits le_rfl _ _
  have hsplit := processDigits_append n.intDigits (n.frac.getD []) 0 0
  rw [← JsonNumber.mantissaDigits] at hsplit
  unfold ParseFixedPoint
  rw [readSign_render]
  simp only [Option.bind_eq_bind]
  rw [readInteger_int n (startsWithDigit_fracText n.frac n.exp)]
  by_cases h1 : (processDigits n.intDigits 0 0).1 ≤ UPPER_BOUND
  · rw [if_pos h1, Option.bind_some]
    simp only
    rw [readFraction_frac n.frac_wf (startsWithDigit_expText n.exp) (head?_expText_ne n.exp) hI0
      h1, ← hsplit]
    by_cases h2 : (processDigits n.mantissaDigits 0 0).1 ≤ UPPER_BOUND
    · rw [if_pos h2, Option.bind_some]
      simp only
      rw [readExponent_exp]
      by_cases h3 : (digitsValue (expDigits n.exp) : ℤ) ≤ UPPER_BOUND
      · rw [if_pos h3, Option.bind_some, if_pos (And.intro h2 h3)]
        rfl
      · rw [if_neg h3, Option.bind_none, if_neg (fun h => h3 h.2)]
    · rw [if_neg h2, Option.bind_none, if_neg (fun h => h2 h.1)]
  · -- the mantissa only grows, so the fraction's digits cannot bring it back under the bound
    have hle := le_processDigits (m := (processDigits n.intDigits 0 0).1) hI0 (n.frac.getD [])
      (processDigits n.intDigits 0 0).2
    rw [← hsplit] at hle
    rw [if_neg h1, Option.bind_none, if_neg (fun h => by omega)]

/-! ### What the parser accepts is the text of a number -/

theorem readSign_spec (s : List Char) :
    (if (readSign s).1 then ['-'] else []) ++ (readSign s).2 = s := by
  unfold readSign
  split <;> rfl

theorem mantissaLoop_some {s : List Char} {m : ℤ} (hm : 0 ≤ m) (hmU : m ≤ UPPER_BOUND) {t n : ℕ}
    {r : ℤ × ℕ × ℕ × List Char} (h : mantissaLoop s m t n = some r) :
    s = s.takeWhile isdigit ++ r.2.2.2 ∧ 0 ≤ r.1 ∧ r.1 ≤ UPPER_BOUND := by
  have hs := List.takeWhile_append_dropWhile (p := isdigit) (l := s)
  rw [← hs, mantissaLoop_append (fun c hc => List.mem_takeWhile_imp hc)
    (startsWithDigit_dropWhile s) hm hmU] at h
  split_ifs at h with hU
  cases h
  exact ⟨hs.symm, hm.trans (le_processDigits hm _ _), hU⟩

theorem exponentLoop_rest {s : List Char} {r : ℤ × List Char} (h : exponentLoop s 0 = some r) :
    s = s.takeWhile isdigit ++ r.2 := by
  have hs := List.takeWhile_append_dropWhile (p := isdigit) (l := s)
  rw [← hs, exponentLoop_append (fun c hc => List.mem_takeWhile_imp hc)
    (startsWithDigit_dropWhile s) le_rfl (by decide)] at h
  split_ifs at h
  cases h
  exact hs.symm

theorem isDigits_takeWhile {s : List Char} (h : startsWithDigit s = true) :
    IsDigits (s.takeWhile isdigit) := by
  refine ⟨?_, fun c hc => List.mem_takeWhile_imp hc⟩
  cases s with
  | nil => simp [startsWithDigit] at h
  | cons c s =>
    simp only [startsWithDigit] at h
    simp [List.takeWhile_cons_of_pos h]

theorem readInteger_some {s : List Char} {r : ℤ × ℕ × List Char}
    (h : readInteger s = some r) :
    ∃ I : List Char, (I = ['0'] ∨ (IsDigits I ∧ I.head? ≠ some '0')) ∧ s = I ++ r.2.2 ∧
      0 ≤ r.1 ∧ r.1 ≤ UPPER_BOUND := by
  cases s with
  | nil => simp [readInteger] at h
  | cons c s =>
    rw [readInteger] at h
    split_ifs at h with h0 h19
    · cases h
      exact ⟨['0'], Or.inl rfl, by rw [h0]; rfl, le_rfl,
        show (0 : ℤ) ≤ UPPER_BOUND by decide⟩
    · obtain ⟨r', hr', rfl⟩ := Option.map_eq_some_iff.1 h
      obtain ⟨hs, hr0, hrU⟩ := mantissaLoop_some le_rfl (by decide) hr'
      have hc : isdigit c = true := by
        rw [isdigit_iff]
        have hiff : ('1' ≤ c ∧ c ≤ '9') ↔ 49 ≤ c.toNat ∧ c.toNat ≤ 57 := by
          simp only [Char.le_def]
          rfl
        have := hiff.1 h19
        omega
      refine ⟨(c :: s).takeWhile isdigit, Or.inr ⟨isDigits_takeWhile hc, ?_⟩, hs, hr0, hrU⟩
      simp [List.takeWhile_cons_of_pos hc, h0]

theorem readFraction_some {s : List Char} {m : ℤ} (hm : 0 ≤ m) (hmU : m ≤ UPPER_BOUND) {t : ℕ}
    {r : ℤ × ℕ × ℕ × List Char} (h : readFraction s m t = some r) :
    ∃ F : Option (List Char), (∀ F' ∈ F, IsDigits F') ∧ s = fracText F ++ r.2.2.2 := by
  unfold readFraction at h
  split at h
  · rename_i s
    split_ifs at h with hs
    obtain ⟨hsr, -⟩ := mantissaLoop_some hm hmU h
    refine ⟨some (s.takeWhile isdigit), fun F' hF' => ?_, by rw [fracText, List.cons_append, ← hsr]⟩
    cases hF'
    exact isDigits_takeWhile hs
  · cases h
    exact ⟨none, fun F' hF' => by simp at hF', rfl⟩

theorem readExponentSign_spec (s : List Char) :
    ∃ sg : List Char, (sg = [] ∨ sg = ['+'] ∨ sg = ['-']) ∧ s = sg ++ (readExponentSign s).2 ∧
      (readExponentSign s).1 = decide (sg = ['-']) := by
  unfold readExponentSign
  split
  · exact ⟨['+'], Or.inr (Or.inl rfl), rfl, rfl⟩
  · exact ⟨['-'], Or.inr (Or.inr rfl), rfl, rfl⟩
  · exact ⟨[], Or.inl rfl, rfl, rfl⟩

theorem readExponent_some {s : List Char} {r : Bool × ℤ × List Char}
    (h : readExponent s = some r) : ∃ x : Option JsonExponent, s = expText x ++ r.2.2 := by
  cases s with
  | nil =>
    cases h
    exact ⟨none, rfl⟩
  | cons c s =>
    rw [readExponent] at h
    split_ifs at h with hl
    · obtain ⟨sg, hsg, hs, -⟩ := readExponentSign_spec s
      split at h
      rename_i es s' hes
      split_ifs at h with hd
      obtain ⟨r', hr', rfl⟩ := Option.map_eq_some_iff.1 h
      have hrest := exponentLoop_rest hr'
      rw [hes] at hs
      refine ⟨some ⟨c, sg, s'.takeWhile isdigit, hl, hsg, isDigits_takeWhile hd⟩, ?_⟩
      simp only [expText, List.cons_append, List.append_assoc]
      rw [← hrest, ← hs]
    · cases h
      exact ⟨none, rfl⟩

/-- **Every text the parser accepts is the text of a number** in JSON's grammar. -/
theorem exists_render_of_ParseFixedPoint {val : List Char} {decimals out : ℤ}
    (h : ParseFixedPoint val decimals = some out) : ∃ n : JsonNumber, n.render = val := by
  have hsign := readSign_spec val
  unfold ParseFixedPoint at h
  simp only [Option.bind_eq_bind, Option.bind_eq_some_iff] at h
  obtain ⟨⟨m, t, s2⟩, h2, ⟨m', t', p, s3⟩, h3, ⟨es, e, s4⟩, h4, h⟩ := h
  obtain ⟨I, hI, hs1, hm, hmU⟩ := readInteger_some h2
  obtain ⟨F, hF, hs2⟩ := readFraction_some hm hmU h3
  obtain ⟨x, hs3⟩ := readExponent_some h4
  split_ifs at h with hs4
  subst hs4
  simp only at hs1 hs2 hs3
  refine ⟨⟨(readSign val).1, I, F, x, hI, hF⟩, ?_⟩
  conv_rhs => rw [← hsign]
  rw [hs1, hs2, hs3, List.append_nil]
  rfl

/-! ### The value of a number -/

theorem mantissaDigits_isdigit (n : JsonNumber) : ∀ c ∈ n.mantissaDigits, isdigit c = true := by
  intro c hc
  rcases List.mem_append.1 hc with hc | hc
  · unfold JsonNumber.intDigits at hc
    split_ifs at hc
    · simp at hc
    · rcases n.int_wf with h | ⟨⟨-, hd⟩, -⟩
      · rw [h] at hc
        rw [List.mem_singleton.1 hc]
        rfl
      · exact hd c hc
  · cases hF : n.frac with
    | none => simp [hF] at hc
    | some F =>
      rw [hF, Option.getD_some] at hc
      exact (n.frac_wf F hF).2 c hc

theorem digitsValue_int_frac (n : JsonNumber) :
    digitsValue (n.int ++ n.frac.getD []) = digitsValue n.mantissaDigits := by
  unfold JsonNumber.mantissaDigits JsonNumber.intDigits
  split_ifs with h
  · rw [h, List.nil_append, List.singleton_append, digitsValue_cons, digitVal_zero, zero_mul,
      zero_add]
  · rfl

/-- The value of a number times `10 ^ d`, from the mantissa and its counted zeros. -/
theorem value_mul_zpow (n : JsonNumber) (d : ℤ) :
    n.value * 10 ^ d =
      ((if n.neg then -(processDigits n.mantissaDigits 0 0).1
          else (processDigits n.mantissaDigits 0 0).1 : ℤ) : ℚ) *
        10 ^ (n.expValue - (n.frac.getD []).length + (processDigits n.mantissaDigits 0 0).2 +
          d) := by
  have hv := processDigits_value (mantissaDigits_isdigit n) 0 0
  rw [zero_mul, zero_add] at hv
  have hq : (digitsValue (n.int ++ n.frac.getD []) : ℚ) =
      ((processDigits n.mantissaDigits 0 0).1 : ℚ) *
        10 ^ (processDigits n.mantissaDigits 0 0).2 := by
    rw [digitsValue_int_frac]
    exact_mod_cast hv.symm
  unfold JsonNumber.value
  rw [hq, zpow_add₀ (by norm_num), zpow_add₀ (by norm_num), zpow_natCast]
  split_ifs <;> push_cast <;> ring

theorem length_mantissaDigits_le (n : JsonNumber) :
    (n.frac.getD []).length ≤ n.mantissaDigits.length ∧
      n.mantissaDigits.length ≤ n.render.length := by
  have hint : n.intDigits.length ≤ n.int.length := by
    unfold JsonNumber.intDigits
    split_ifs <;> simp
  have hfrac : (n.frac.getD []).length ≤ (fracText n.frac).length := by
    cases n.frac <;> simp [fracText]
  unfold JsonNumber.mantissaDigits JsonNumber.render
  simp only [List.length_append]
  omega

/-- A number is zero exactly when its text has no digit but zeros, in which case every digit of
the fraction was counted as a zero and the integer is a single `'0'`. -/
theorem snd_processDigits_of_fst_eq_zero (n : JsonNumber)
    (h : (processDigits n.mantissaDigits 0 0).1 = 0) :
    (processDigits n.mantissaDigits 0 0).2 = (n.frac.getD []).length := by
  rw [processDigits_snd_of_fst_eq_zero (mantissaDigits_isdigit n) le_rfl 0 h, Nat.zero_add]
  have hv := processDigits_value (mantissaDigits_isdigit n) 0 0
  rw [h, zero_mul, zero_mul, zero_add] at hv
  unfold JsonNumber.mantissaDigits JsonNumber.intDigits at hv ⊢
  split_ifs with h0
  · rfl
  · -- an integer part other than `0` starts with a digit `1` to `9`
    exfalso
    rcases n.int_wf with h' | ⟨⟨hne, hd⟩, hh⟩
    · exact h0 h'
    obtain ⟨c, r, hcr⟩ := List.exists_cons_of_ne_nil hne
    have hc0 : c ≠ '0' := by
      rintro rfl
      exact hh (by rw [hcr]; rfl)
    have hpos := digitVal_pos (hd c (by rw [hcr]; exact List.mem_cons_self)) hc0
    rw [if_neg h0, hcr, List.cons_append, digitsValue_cons] at hv
    have : 0 < digitVal c * 10 ^ (r ++ n.frac.getD []).length := by positivity
    omega

theorem value_eq_zero_iff (n : JsonNumber) :
    n.value = 0 ↔ (processDigits n.mantissaDigits 0 0).1 = 0 := by
  have h := value_mul_zpow n 0
  rw [zpow_zero, mul_one] at h
  rw [h, mul_eq_zero, or_iff_left (zpow_ne_zero _ (by norm_num))]
  split_ifs <;> simp

/-- A mantissa that does not end in a zero, times a negative power of ten, is no integer. -/
theorem nonneg_of_mul_zpow_eq {m : ℤ} (hm : m % 10 ≠ 0) {e z : ℤ}
    (h : (m : ℚ) * 10 ^ e = z) : 0 ≤ e := by
  by_contra he
  obtain ⟨j, hj⟩ : ∃ j : ℕ, e = -((j + 1 : ℕ) : ℤ) := ⟨(-e - 1).toNat, by omega⟩
  rw [hj, zpow_neg, zpow_natCast] at h
  have hq : (m : ℚ) = z * 10 ^ (j + 1) := by
    rw [← h, mul_assoc, inv_mul_cancel₀ (pow_ne_zero _ (by norm_num)), mul_one]
  have hz : m = z * 10 ^ j * 10 := by
    rw [mul_assoc, ← pow_succ]
    exact_mod_cast hq
  rw [hz, Int.mul_emod_left] at hm
  exact hm rfl

/-! ### What the parser accepts -/

/-- **Zero**: accepted exactly when its written exponent plus `decimals` is in `[0, 18)`,
whatever its digits. -/
theorem ParseFixedPoint_render_zero (n : JsonNumber)
    (hM : (processDigits n.mantissaDigits 0 0).1 = 0) {decimals : ℤ} (hd0 : 0 ≤ decimals)
    (hd : decimals ≤ 17) (out : ℤ) :
    ParseFixedPoint n.render decimals = some out ↔
      out = 0 ∧ 0 ≤ n.expValue + decimals ∧ n.expValue + decimals < 18 := by
  have hT := snd_processDigits_of_fst_eq_zero n hM
  have hU0 : (0 : ℤ) ≤ UPPER_BOUND := by decide
  -- no counted zero cancels the exponent: the point's offset is the number of zeros counted
  have he : (if expNeg n.exp then -(digitsValue (expDigits n.exp) : ℤ)
      else digitsValue (expDigits n.exp)) - ((n.frac.getD []).length : ℤ) +
      (((processDigits n.mantissaDigits 0 0).2 : ℕ) : ℤ) + decimals = n.expValue + decimals := by
    rw [hT, JsonNumber.expValue]
    ring
  rw [ParseFixedPoint_render, convertFixedPoint_eq _ _ _ _ _ _ _ _ he, hM]
  simp only [abs_zero, zero_mul, neg_zero, ite_self]
  constructor
  · intro h
    split_ifs at h with h1 h2
    exact ⟨(Option.some.inj h).symm, h2.1, h2.2.1⟩
  · rintro ⟨rfl, h0, h18⟩
    have hEU : (digitsValue (expDigits n.exp) : ℤ) ≤ UPPER_BOUND := by
      unfold JsonNumber.expValue at h0 h18
      unfold UPPER_BOUND
      split_ifs at h0 h18 <;> omega
    rw [if_pos (And.intro hU0 hEU), if_pos (And.intro h0 (And.intro h18 hU0))]

/-- **A number other than zero**: accepted exactly when its value times `10 ^ decimals` is an
integer within `UPPER_BOUND`, which is returned. The mantissa ends in a digit other than zero,
so the final exponent cannot be negative; the text's length keeps the written exponent within
the check of its digits. -/
theorem ParseFixedPoint_render_ne_zero (n : JsonNumber) (hlen : n.render.length < 2 ^ 31)
    (hM : (processDigits n.mantissaDigits 0 0).1 ≠ 0) {decimals : ℤ} (hd0 : 0 ≤ decimals)
    (hd : decimals ≤ 17) (out : ℤ) :
    ParseFixedPoint n.render decimals = some out ↔
      n.value * 10 ^ decimals = out ∧ |out| ≤ UPPER_BOUND := by
  obtain ⟨hF, hP⟩ := length_mantissaDigits_le n
  have hTle := processDigits_snd_le n.mantissaDigits 0 0
  have hM0 : 0 ≤ (processDigits n.mantissaDigits 0 0).1 := le_processDigits le_rfl _ _
  have hmod := (processDigits_mod (mantissaDigits_isdigit n) 0 (Or.inl rfl)).resolve_left hM
  have hval := value_mul_zpow n decimals
  have hE0 : (0 : ℤ) ≤ digitsValue (expDigits n.exp) := Nat.cast_nonneg _
  rw [ParseFixedPoint_render, convertFixedPoint_eq _ _ _ _ _ _ _ _ rfl, hval]
  unfold JsonNumber.expValue
  -- from here on only the mantissa, the counted zeros and the exponent matter
  generalize (processDigits n.mantissaDigits 0 0).1 = M at *
  generalize (processDigits n.mantissaDigits 0 0).2 = T at *
  generalize (digitsValue (expDigits n.exp) : ℤ) = E at *
  generalize (n.frac.getD []).length = f at *
  generalize he : (if expNeg n.exp then -E else E) - (f : ℤ) + (T : ℤ) + decimals = e
  have hSabs : |(if n.neg then -M else M)| = M := by
    split_ifs
    · rw [abs_neg, abs_of_nonneg hM0]
    · exact abs_of_nonneg hM0
  have hSmod : (if n.neg then -M else M) % 10 ≠ 0 := by
    split_ifs <;> omega
  generalize (if n.neg then -M else M) = S at hSabs hSmod ⊢
  rw [abs_of_nonneg hM0]
  constructor
  · intro h
    split_ifs at h with h1 h2
    obtain rfl := Option.some.inj h
    obtain ⟨k, rfl⟩ : ∃ k : ℕ, e = k := ⟨e.toNat, by omega⟩
    rw [Int.toNat_natCast] at h2 ⊢
    refine ⟨by rw [zpow_natCast]; push_cast; ring, ?_⟩
    rw [abs_mul, hSabs, abs_pow, abs_of_pos (by norm_num : (0 : ℤ) < 10)]
    exact h2.2.2
  · rintro ⟨hq, hout⟩
    obtain ⟨k, rfl⟩ : ∃ k : ℕ, e = k := ⟨e.toNat, by have := nonneg_of_mul_zpow_eq hSmod hq; omega⟩
    rw [zpow_natCast] at hq
    have hSk : S * 10 ^ k = out := by exact_mod_cast hq
    have hMk : M * 10 ^ k ≤ UPPER_BOUND := by
      rw [← hSk, abs_mul, hSabs, abs_pow, abs_of_pos (by norm_num : (0 : ℤ) < 10)] at hout
      exact hout
    have hpow : (1 : ℤ) ≤ 10 ^ k := one_le_pow₀ (by norm_num)
    have hMU : M ≤ UPPER_BOUND := (le_mul_of_one_le_right hM0 hpow).trans hMk
    -- the scaled mantissa is below `10 ^ 18`, so the final exponent is below `18`
    have hk : k < 18 := by
      by_contra hk
      have h18 : (10 : ℤ) ^ 18 ≤ 10 ^ k := pow_le_pow_right₀ (by norm_num) (by omega)
      have hM1 : 10 ^ k ≤ M * 10 ^ k := le_mul_of_one_le_left (by positivity) (by omega)
      unfold UPPER_BOUND at hMk
      omega
    have hEU : E ≤ UPPER_BOUND := by
      unfold UPPER_BOUND
      split_ifs at he <;> omega
    rw [Int.toNat_natCast, if_pos (And.intro hMU hEU),
      if_pos (And.intro (Int.natCast_nonneg k) (And.intro (by omega) hMk)), hSk]

/-- The parser on the text of a number: a number other than zero gives its value times
`10 ^ decimals` when that is an integer within `UPPER_BOUND`, and zero gives `0` when its
exponent plus `decimals` is in `[0, 18)`. -/
theorem ParseFixedPoint_render_eq_some_iff (n : JsonNumber) (hlen : n.render.length < 2 ^ 31)
    {decimals : ℤ} (hd0 : 0 ≤ decimals) (hd : decimals ≤ 17) (out : ℤ) :
    ParseFixedPoint n.render decimals = some out ↔
      (n.value ≠ 0 → n.value * 10 ^ decimals = out ∧ |out| ≤ UPPER_BOUND) ∧
      (n.value = 0 → out = 0 ∧ 0 ≤ n.expValue + decimals ∧ n.expValue + decimals < 18) := by
  by_cases hM : (processDigits n.mantissaDigits 0 0).1 = 0
  · have hv := (value_eq_zero_iff n).2 hM
    rw [ParseFixedPoint_render_zero n hM hd0 hd]
    simp [hv]
  · have hv : n.value ≠ 0 := fun h => hM ((value_eq_zero_iff n).1 h)
    rw [ParseFixedPoint_render_ne_zero n hlen hM hd0 hd]
    simp [hv]

/-- **`ParseFixedPoint` accepts exactly the representable JSON numbers, but for zero**: for
every string of fewer than `2 ^ 31` characters and `decimals` in `[0, 17]`, it returns `out`
exactly when the string is the text of a number in JSON's grammar whose value times
`10 ^ decimals` is `out`, an integer within `UPPER_BOUND`, if the value is not zero; and whose
exponent plus `decimals` is in `[0, 18)`, with `out = 0`, if it is. -/
theorem ParseFixedPoint_iff (val : List Char) (hlen : val.length < 2 ^ 31) (decimals : ℤ)
    (hd0 : 0 ≤ decimals) (hd : decimals ≤ 17) (out : ℤ) :
    ParseFixedPoint val decimals = some out ↔
      ∃ n : JsonNumber, n.render = val ∧
        (n.value ≠ 0 → n.value * 10 ^ decimals = out ∧ |out| ≤ UPPER_BOUND) ∧
        (n.value = 0 → out = 0 ∧ 0 ≤ n.expValue + decimals ∧ n.expValue + decimals < 18) := by
  constructor
  · intro h
    obtain ⟨n, rfl⟩ := exists_render_of_ParseFixedPoint h
    exact ⟨n, rfl, (ParseFixedPoint_render_eq_some_iff n hlen hd0 hd out).1 h⟩
  · rintro ⟨n, rfl, hn⟩
    exact (ParseFixedPoint_render_eq_some_iff n hlen hd0 hd out).2 hn

/-- `"1.1"` with eight decimals, the source's own test: `110000000`. -/
example :
    ParseFixedPoint "1.1".toList 8 = some 110000000 ↔
      ∃ n : JsonNumber, n.render = "1.1".toList ∧
        (n.value ≠ 0 → n.value * 10 ^ (8 : ℤ) = (110000000 : ℤ) ∧
          |(110000000 : ℤ)| ≤ UPPER_BOUND) ∧
        (n.value = 0 → (110000000 : ℤ) = 0 ∧ 0 ≤ n.expValue + 8 ∧ n.expValue + 8 < 18) :=
  ParseFixedPoint_iff _ (by decide) 8 (by decide) (by decide) _

/-- **Zero written with another exponent is refused.** The text of the number zero whose
written exponent plus `decimals` is outside `[0, 18)` is refused, although its value `0` is
representable: the mantissa has no counted trailing zero to cancel the exponent, and the
range checks of the exponent run on it alone. -/
theorem ParseFixedPoint_refuses_zero_outside_exponent_range (n : JsonNumber)
    (hlen : n.render.length < 2 ^ 31) {decimals : ℤ} (hd0 : 0 ≤ decimals) (hd : decimals ≤ 17)
    (hzero : n.value = 0) (hexp : n.expValue + decimals < 0 ∨ 18 ≤ n.expValue + decimals) :
    ParseFixedPoint n.render decimals = none := by
  apply Option.eq_none_iff_forall_ne_some.2
  intro out hout
  have hacc := ((ParseFixedPoint_render_eq_some_iff n hlen hd0 hd out).1 hout).2 hzero
  omega

/-- The text `0e18` of the number zero. -/
def zeroE18 : JsonNumber where
  neg := false
  int := ['0']
  frac := none
  exp := some ⟨'e', [], ['1', '8'], Or.inl rfl, Or.inl rfl, ⟨by simp, by simp [isdigit]⟩⟩
  int_wf := Or.inl rfl
  frac_wf := fun F hF => by simp at hF

/-- `0e18` with no decimals: the number zero, refused. -/
theorem ParseFixedPoint_refuses_zero_exponent :
    zeroE18.render = "0e18".toList ∧
      (zeroE18.render.length < 2 ^ 31 ∧ (0 : ℤ) ≤ 0 ∧ (0 : ℤ) ≤ 17 ∧ zeroE18.value = 0 ∧
        (zeroE18.expValue + 0 < 0 ∨ 18 ≤ zeroE18.expValue + 0)) ∧
      ParseFixedPoint zeroE18.render 0 = none := by
  have hzero : zeroE18.value = 0 := by
    simp [JsonNumber.value, zeroE18, digitsValue, digitVal]
  have hexp : zeroE18.expValue + 0 < 0 ∨ 18 ≤ zeroE18.expValue + 0 := Or.inr (by decide)
  exact ⟨rfl, ⟨by decide, le_rfl, by decide, hzero, hexp⟩,
    ParseFixedPoint_refuses_zero_outside_exponent_range zeroE18 (by decide) le_rfl (by decide)
      hzero hexp⟩

end MvfBu
