import Mathlib.Data.Nat.Digits.Lemmas

set_option autoImplicit false

/-!
# Decimal digit strings

The text a `printf("%d")` writes for a natural number, and the value a loop that reads decimal
digits one at a time, most significant first, gives a string of digits. The value of a string
is a left fold; printing is `Nat.digits 10` read backwards, so that the round trip
`digitsValue (decimalChars n) = n` is `Nat.ofDigits_digits`.

## Main definitions

* `Decimal.isdigit` — `'0'` to `'9'`, as the C `isdigit` in the "C" locale.
* `Decimal.digitChar`, `Decimal.digitVal` — a digit and its character.
* `Decimal.digitsValue` — the value of a string of digits.
* `Decimal.decimalChars` — `printf("%d")` of a natural number.
* `Decimal.zeroPadded` — `printf("%0*d")` of a natural number.

## Main results

* `Decimal.digitsValue_append` — the value of a concatenation.
* `Decimal.digitsValue_decimalChars`, `Decimal.digitsValue_zeroPadded` — printing then reading
  gives the number back.
* `Decimal.length_decimalChars_le`, `Decimal.length_zeroPadded` — how long the texts are.
-/

namespace Decimal

/-- `isdigit` in the "C" locale. -/
def isdigit (c : Char) : Bool := decide ('0' ≤ c ∧ c ≤ '9')

/-- The character of the digit `d`. -/
def digitChar (d : ℕ) : Char := Char.ofNat (48 + d)

/-- The digit a character stands for: `c - '0'`. -/
def digitVal (c : Char) : ℕ := c.toNat - 48

/-- The value of a string of digits read most significant first: `v = 10 * v + (c - '0')`. -/
def digitsValue (l : List Char) : ℕ := l.foldl (fun v c => 10 * v + digitVal c) 0

/-- `printf("%d")` of a natural number: its digits, most significant first, and `"0"` for
zero. -/
def decimalChars (n : ℕ) : List Char :=
  if n = 0 then ['0'] else ((Nat.digits 10 n).reverse.map digitChar)

/-- `printf("%0*d", w, n)`: the digits of `n` padded on the left with zeros to `w`
characters. -/
def zeroPadded (w n : ℕ) : List Char :=
  List.replicate (w - (decimalChars n).length) '0' ++ decimalChars n

theorem isdigit_iff (c : Char) : isdigit c = true ↔ 48 ≤ c.toNat ∧ c.toNat ≤ 57 := by
  simp only [isdigit, decide_eq_true_eq, Char.le_def]
  rfl

theorem digitChar_toNat {d : ℕ} (hd : d < 10) : (digitChar d).toNat = 48 + d := by
  revert d
  decide

@[simp] theorem digitVal_digitChar {d : ℕ} (hd : d < 10) : digitVal (digitChar d) = d := by
  simp only [digitVal, digitChar_toNat hd]
  omega

theorem isdigit_digitChar {d : ℕ} (hd : d < 10) : isdigit (digitChar d) = true := by
  rw [isdigit_iff, digitChar_toNat hd]
  omega

theorem digitVal_lt {c : Char} (hc : isdigit c = true) : digitVal c < 10 := by
  rw [isdigit_iff] at hc
  simp only [digitVal]
  omega

/-- A digit is the character of its value. -/
theorem digitChar_digitVal {c : Char} (hc : isdigit c = true) : digitChar (digitVal c) = c := by
  have hlt := digitVal_lt hc
  rw [isdigit_iff] at hc
  apply Char.toNat_inj.1
  rw [digitChar_toNat hlt]
  simp only [digitVal]
  omega

/-! ### The value of a string of digits -/

@[simp] theorem digitsValue_nil : digitsValue [] = 0 := rfl

theorem digitsValue_append_singleton (l : List Char) (c : Char) :
    digitsValue (l ++ [c]) = 10 * digitsValue l + digitVal c := by
  simp [digitsValue, List.foldl_append]

/-- **The value of a concatenation**: the first part, shifted by the length of the second. -/
theorem digitsValue_append (l : List Char) : ∀ l' : List Char,
    digitsValue (l ++ l') = digitsValue l * 10 ^ l'.length + digitsValue l' := by
  intro l'
  induction l' using List.reverseRecOn with
  | nil => simp
  | append_singleton l' c ih =>
    rw [← List.append_assoc, digitsValue_append_singleton, ih, digitsValue_append_singleton,
      List.length_append, List.length_singleton, pow_succ]
    ring

theorem digitsValue_cons (c : Char) (l : List Char) :
    digitsValue (c :: l) = digitVal c * 10 ^ l.length + digitsValue l := by
  rw [← List.singleton_append, digitsValue_append]
  simp [digitsValue]

@[simp] theorem digitsValue_replicate_zero (k : ℕ) : digitsValue (List.replicate k '0') = 0 := by
  induction k with
  | zero => rfl
  | succ k ih =>
    rw [List.replicate_succ', digitsValue_append_singleton, ih]
    rfl

/-- Zeros after a string of digits multiply its value. -/
theorem digitsValue_append_zeros (l : List Char) (k : ℕ) :
    digitsValue (l ++ List.replicate k '0') = digitsValue l * 10 ^ k := by
  rw [digitsValue_append, digitsValue_replicate_zero, List.length_replicate, Nat.add_zero]

/-- A string of `k` digits has a value below `10 ^ k`. -/
theorem digitsValue_lt {l : List Char} (hl : ∀ c ∈ l, isdigit c = true) :
    digitsValue l < 10 ^ l.length := by
  induction l using List.reverseRecOn with
  | nil => simp
  | append_singleton l c ih =>
    have hc := digitVal_lt (hl c (by simp))
    have := ih fun d hd => hl d (by simp [hd])
    rw [digitsValue_append_singleton, List.length_append, List.length_singleton, pow_succ]
    omega

/-- The digits of a number, least significant first, read back. -/
theorem digitsValue_map_reverse {L : List ℕ} (hL : ∀ d ∈ L, d < 10) :
    digitsValue (L.reverse.map digitChar) = Nat.ofDigits 10 L := by
  induction L with
  | nil => rfl
  | cons d L ih =>
    rw [List.reverse_cons, List.map_append, List.map_singleton, digitsValue_append_singleton,
      ih fun e he => hL e (List.mem_cons_of_mem d he), digitVal_digitChar (hL d List.mem_cons_self),
      Nat.ofDigits_cons]
    ring

/-! ### Printing -/

/-- **Printing then reading** a number gives it back. -/
theorem digitsValue_decimalChars (n : ℕ) : digitsValue (decimalChars n) = n := by
  unfold decimalChars
  split_ifs with hn
  · rw [hn]
    rfl
  · rw [digitsValue_map_reverse fun d hd => Nat.digits_lt_base (by norm_num) hd,
      Nat.ofDigits_digits]

theorem isdigit_of_mem_decimalChars {n : ℕ} {c : Char} (hc : c ∈ decimalChars n) :
    isdigit c = true := by
  unfold decimalChars at hc
  split_ifs at hc
  · rw [List.mem_singleton.1 hc]
    rfl
  · obtain ⟨d, hd, rfl⟩ := List.mem_map.1 hc
    exact isdigit_digitChar (Nat.digits_lt_base (by norm_num) (List.mem_reverse.1 hd))

/-- A number below `10 ^ k` has at most `k` digits, for `k ≥ 1`. -/
theorem length_decimalChars_le {n k : ℕ} (hk : 1 ≤ k) (hn : n < 10 ^ k) :
    (decimalChars n).length ≤ k := by
  unfold decimalChars
  split_ifs
  · exact hk
  · rw [List.length_map, List.length_reverse]
    exact (Nat.digits_length_le_iff (by norm_num) n).2 hn

theorem decimalChars_ne_nil (n : ℕ) : decimalChars n ≠ [] := by
  unfold decimalChars
  split_ifs with hn
  · simp
  · simpa [Nat.digits_eq_nil_iff_eq_zero] using hn

theorem isdigit_of_mem_zeroPadded {w n : ℕ} {c : Char} (hc : c ∈ zeroPadded w n) :
    isdigit c = true := by
  rcases List.mem_append.1 hc with hc | hc
  · rw [List.eq_of_mem_replicate hc]
    rfl
  · exact isdigit_of_mem_decimalChars hc

theorem digitsValue_zeroPadded (w n : ℕ) : digitsValue (zeroPadded w n) = n := by
  rw [zeroPadded, digitsValue_append, digitsValue_replicate_zero, digitsValue_decimalChars,
    Nat.zero_mul, Nat.zero_add]

/-- A number below `10 ^ w` padded to `w` characters has exactly `w`. -/
theorem length_zeroPadded {w n : ℕ} (hw : 1 ≤ w) (hn : n < 10 ^ w) :
    (zeroPadded w n).length = w := by
  have := length_decimalChars_le hw hn
  rw [zeroPadded, List.length_append, List.length_replicate]
  omega

end Decimal
