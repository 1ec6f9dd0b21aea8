import Mathlib.Data.Nat.Digits.Lemmas
import MvfBu.Arith.Compact
import MvfBu.Script.Script

set_option autoImplicit false

/-!
# Script numbers as minimal encodings (`CScriptNum` in `script.h`)

A script number is a little-endian magnitude whose last byte carries the sign in its top bit.
`serialize` writes the magnitude's bytes, and moves the sign into an extra `0x00` or `0x80`
byte when the magnitude already uses that bit. The constructor `CScriptNum(vch, true, k)`
refuses more than `k` bytes and, with `fRequireMinimal`, a last byte that is only a sign,
unless the byte before it needs its top bit.

The two are inverse on minimal encodings: every value of magnitude below `2 ^ (8k - 1)`
serializes to at most `k` bytes that the constructor accepts and decodes back, and every
encoding the constructor accepts is the serialization of its value. So `k` bytes hold exactly
the magnitudes below `2 ^ (8k - 1)`.

## Main results

* `MvfBu.CScriptNum.ofVch_serialize` — a value serializes to a minimal encoding that decodes
  back.
* `MvfBu.CScriptNum.serialize_ofVch` — a minimal encoding is the serialization of its value.
* `MvfBu.CScriptNum.natAbs_ofVch_lt` — `k` bytes decode to a magnitude below `2 ^ (8k - 1)`.

## Implementation notes

The bytes of a magnitude are its base-256 digits (`Nat.digits`), and `readLE` is
`Nat.ofDigits 256`; the uniqueness of digits without a trailing zero is what makes the
encoding minimal. `set_vch` works over `int64_t` in the source: up to eight bytes its value is
the integer of the model, the sign bit being cleared before the value is negated.
-/

namespace MvfBu

namespace CScriptNum

/-! ## The bytes of a magnitude -/

lemma readLE_eq_ofDigits : ∀ l : List UInt8, readLE l = Nat.ofDigits 256 (l.map UInt8.toNat)
  | [] => rfl
  | b :: bs => by
    rw [readLE, List.map_cons, Nat.ofDigits_cons, readLE_eq_ofDigits bs]

lemma readLE_append_singleton (l : List UInt8) (b : UInt8) :
    readLE (l ++ [b]) = readLE l + 256 ^ l.length * b.toNat := by
  rw [readLE_eq_ofDigits, readLE_eq_ofDigits, List.map_append, Nat.ofDigits_append,
    List.length_map, List.map_singleton, Nat.ofDigits_singleton]

/-- The loop of `serialize` writes the base-256 digits of the magnitude. -/
lemma absBytes_eq_digits : ∀ (fuel n : ℕ), n ≤ fuel →
    absBytes fuel n = (Nat.digits 256 n).map UInt8.ofNat
  | 0, n, h => by
    rw [Nat.le_zero.1 h]
    rfl
  | fuel + 1, n, h => by
    rcases Nat.eq_zero_or_pos n with rfl | hn
    · rfl
    · rw [absBytes, if_neg (Nat.pos_iff_ne_zero.1 hn), Nat.digits_def' (by norm_num) hn,
        List.map_cons, absBytes_eq_digits fuel (n / 256) (by omega)]

lemma map_toNat_digits (n : ℕ) :
    ((Nat.digits 256 n).map UInt8.ofNat).map UInt8.toNat = Nat.digits 256 n := by
  rw [List.map_map]
  conv_rhs => rw [← List.map_id (Nat.digits 256 n)]
  apply List.map_congr_left
  intro d hd
  exact UInt8.toNat_ofNat_of_lt (Nat.digits_lt_base (by norm_num) hd)

lemma readLE_absBytes (n : ℕ) : readLE (absBytes n n) = n := by
  rw [absBytes_eq_digits n n le_rfl, readLE_eq_ofDigits, map_toNat_digits, Nat.ofDigits_digits]

/-- Bytes without a trailing zero are the bytes of their value. -/
lemma absBytes_readLE (l : List UInt8) (hl : ∀ h : l ≠ [], l.getLast h ≠ 0) :
    absBytes (readLE l) (readLE l) = l := by
  rw [absBytes_eq_digits _ _ le_rfl, readLE_eq_ofDigits, Nat.digits_ofDigits _ (by norm_num)]
  · rw [List.map_map]
    conv_rhs => rw [← List.map_id l]
    exact List.map_congr_left fun b _ => UInt8.ofNat_toNat
  · intro d hd
    obtain ⟨b, -, rfl⟩ := List.mem_map.1 hd
    exact b.toNat_lt
  · intro h
    rw [List.getLast_map]
    intro h0
    exact hl _ (UInt8.toNat_inj.1 h0)

/-- The bytes of a nonzero magnitude end in a nonzero byte, whose place bounds the magnitude
from below. -/
lemma absBytes_eq_append {n : ℕ} (hn : n ≠ 0) :
    ∃ init b, absBytes n n = init ++ [b] ∧ b ≠ 0 ∧
      n = readLE init + 256 ^ init.length * b.toNat := by
  have hne : absBytes n n ≠ [] := by
    intro h
    have := readLE_absBytes n
    rw [h] at this
    exact hn this.symm
  refine ⟨(absBytes n n).dropLast, (absBytes n n).getLast hne,
    (List.dropLast_append_getLast hne).symm, ?_, ?_⟩
  · have hd : Nat.digits 256 n ≠ [] := Nat.digits_ne_nil_iff_ne_zero.2 hn
    have hlast := Nat.getLast_digit_ne_zero 256 hn
    simp only [absBytes_eq_digits n n le_rfl, List.getLast_map]
    intro h0
    apply hlast
    have h1 : (UInt8.ofNat ((Nat.digits 256 n).getLast hd)).toNat = (Nat.digits 256 n).getLast hd :=
      UInt8.toNat_ofNat_of_lt (Nat.digits_lt_base (by norm_num) (List.getLast_mem hd))
    rw [h0] at h1
    exact h1.symm
  · conv_lhs => rw [← readLE_absBytes n, ← List.dropLast_append_getLast hne]
    rw [readLE_append_singleton]

/-! ## The sign byte -/

lemma and_0x80_ne_zero_iff (b : UInt8) : b &&& 0x80 ≠ 0 ↔ 128 ≤ b.toNat := by
  rw [← (byte_bits b).2, Ne, ← UInt8.toNat_inj, UInt8.toNat_and]
  rfl

lemma and_0x7f_eq_zero_iff (b : UInt8) : b &&& 0x7f = 0 ↔ b.toNat % 128 = 0 := by
  rw [← (byte_bits b).1, ← UInt8.toNat_inj, UInt8.toNat_and]
  rfl

lemma toNat_or_0x80 {b : UInt8} (h : b.toNat < 128) : (b ||| 0x80).toNat = b.toNat + 128 := by
  rw [UInt8.toNat_or]
  exact Nat.or_two_pow_eq_add_of_lt (n := 7) h

/-- `set_vch` on its last byte: a set top bit is the sign of the rest. -/
lemma set_vch_append (init : List UInt8) (b : UInt8) :
    set_vch (init ++ [b]) = if 128 ≤ b.toNat then
      -((readLE init + 256 ^ init.length * (b.toNat - 128) : ℕ) : ℤ)
    else ((readLE init + 256 ^ init.length * b.toNat : ℕ) : ℤ) := by
  unfold set_vch
  rw [if_neg (List.append_ne_nil_of_right_ne_nil init (List.cons_ne_nil b [])),
    List.getLastD_eq_getLast?, List.getLast?_append, List.getLast?_singleton, Option.some_or,
    Option.getD_some, readLE_append_singleton, List.length_append, List.length_singleton,
    Nat.add_sub_cancel]
  by_cases hb : 128 ≤ b.toNat
  · rw [if_pos ((and_0x80_ne_zero_iff b).2 hb), if_pos hb]
    have h : 256 ^ init.length * b.toNat =
        256 ^ init.length * (b.toNat - 128) + 0x80 * 256 ^ init.length := by
      rw [Nat.mul_comm 0x80, ← Nat.mul_add]
      congr 1
      omega
    rw [h]
    push_cast
    ring
  · rw [if_neg (fun h => hb ((and_0x80_ne_zero_iff b).1 h)), if_neg hb]

/-- What the constructor accepts has at most `k` bytes, and its value is what `set_vch`
reads. -/
lemma length_le_of_ofVch {vch : List UInt8} {fRequireMinimal : Bool} {k : ℕ} {v : ℤ}
    (h : ofVch vch fRequireMinimal k = .ok v) : vch.length ≤ k ∧ set_vch vch = v := by
  unfold ofVch at h
  split_ifs at h with hk
  cases h
  exact ⟨by omega, rfl⟩

/-- What the constructor with `fRequireMinimal` accepts: at most `k` bytes, not ending in a bare
sign byte unless the byte before needs its top bit. -/
lemma ofVch_true_eq_ok {vch : List UInt8} {k : ℕ} {v : ℤ} :
    ofVch vch true k = .ok v ↔ vch.length ≤ k ∧
      ¬(vch.length > 0 ∧ vch.getLastD 0 &&& 0x7f = 0 ∧
        (vch.length ≤ 1 ∨ vch.getD (vch.length - 2) 0 &&& 0x80 = 0)) ∧ set_vch vch = v := by
  unfold ofVch
  by_cases hk : vch.length > k
  · rw [if_pos hk]
    constructor
    · intro h
      cases h
    · rintro ⟨h, -⟩
      omega
  · rw [if_neg hk]
    by_cases hm : vch.length > 0 ∧ vch.getLastD 0 &&& 0x7f = 0 ∧
        (vch.length ≤ 1 ∨ vch.getD (vch.length - 2) 0 &&& 0x80 = 0)
    · rw [if_pos (by simpa [Bool.and_eq_true, decide_eq_true_eq, and_assoc] using hm)]
      constructor
      · intro h
        cases h
      · rintro ⟨-, h, -⟩
        exact absurd hm h
    · rw [if_neg (by simpa [Bool.and_eq_true, decide_eq_true_eq, and_assoc] using hm)]
      constructor
      · intro h
        cases h
        exact ⟨by omega, hm, rfl⟩
      · rintro ⟨-, -, rfl⟩
        rfl

/-- The minimality test on `init ++ [b]` fails when the last byte is only a sign and the byte
before it, if any, does not need its top bit. -/
lemma nonMinimal_append_iff (init : List UInt8) (b : UInt8) :
    ((init ++ [b]).length > 0 ∧ (init ++ [b]).getLastD 0 &&& 0x7f = 0 ∧
      ((init ++ [b]).length ≤ 1 ∨
        (init ++ [b]).getD ((init ++ [b]).length - 2) 0 &&& 0x80 = 0)) ↔
    b.toNat % 128 = 0 ∧ (init = [] ∨ (init.getLastD 0).toNat < 128) := by
  have hlast : (init ++ [b]).getLastD 0 = b := by
    rw [List.getLastD_eq_getLast?, List.getLast?_append, List.getLast?_singleton, Option.some_or,
      Option.getD_some]
  have hprev : init ≠ [] → (init ++ [b]).getD (init.length + 1 - 2) 0 = init.getLastD 0 := by
    intro hne
    have hlen : 0 < init.length := List.length_pos_iff.2 hne
    rw [List.getD_append _ _ _ _ (by omega),
      List.getLastD_eq_getLast?, List.getLast?_eq_getElem?, List.getD_eq_getElem?_getD]
    congr 2
  rw [hlast, and_0x7f_eq_zero_iff, List.length_append, List.length_singleton]
  constructor
  · rintro ⟨-, hb, hinit⟩
    refine ⟨hb, ?_⟩
    rcases eq_or_ne init [] with hnil | hne
    · exact Or.inl hnil
    · rw [hprev hne] at hinit
      have hlen : 0 < init.length := List.length_pos_iff.2 hne
      rcases hinit with h | h
      · omega
      · exact Or.inr (by
          by_contra hge
          exact (and_0x80_ne_zero_iff _).2 (by omega) h)
  · rintro ⟨hb, hinit⟩
    refine ⟨by omega, hb, ?_⟩
    rcases hinit with rfl | hlt
    · exact Or.inl (by simp)
    · rcases eq_or_ne init [] with rfl | hne
      · exact Or.inl (by simp)
      · rw [hprev hne]
        exact Or.inr (by
          by_contra h
          exact absurd ((and_0x80_ne_zero_iff _).1 h) (by omega))

/-- `serialize` of a nonzero value, from the bytes of its magnitude: an extra sign byte after a
last byte that uses its top bit, or the sign in that bit. -/
lemma serialize_of_absBytes {n : ℤ} (hn : n ≠ 0) {init : List UInt8} {b : UInt8}
    (habs : absBytes n.natAbs n.natAbs = init ++ [b]) :
    serialize n = if 128 ≤ b.toNat then init ++ [b] ++ [if n < 0 then 0x80 else 0]
      else if n < 0 then init ++ [b ||| 0x80] else init ++ [b] := by
  unfold serialize
  rw [if_neg hn]
  dsimp only
  rw [habs, List.getLastD_eq_getLast?, List.getLast?_append, List.getLast?_singleton,
    Option.some_or, Option.getD_some, List.dropLast_concat]
  by_cases hb : 128 ≤ b.toNat
  · rw [if_pos ((and_0x80_ne_zero_iff b).2 hb), if_pos hb]
  · rw [if_neg (fun h => hb ((and_0x80_ne_zero_iff b).1 h)), if_neg hb]

/-! ## Serializing and decoding -/

/-- **A value serializes to a minimal encoding that decodes back**: below `2 ^ (8k - 1)` in
magnitude, at most `k` bytes. -/
theorem ofVch_serialize {k : ℕ} {n : ℤ} (hn : n.natAbs < 2 ^ (8 * k - 1)) :
    ofVch (serialize n) true k = .ok n := by
  rcases eq_or_ne n 0 with rfl | hn₀
  · rfl
  obtain ⟨init, b, habs, hb₀, hm⟩ := absBytes_eq_append (Int.natAbs_ne_zero.2 hn₀)
  rw [serialize_of_absBytes hn₀ habs]
  have hbpos : 0 < b.toNat := Nat.pos_of_ne_zero fun h => hb₀ (UInt8.toNat_inj.1 h)
  -- the last byte's place bounds the magnitude from below, and so the length from above
  have hplace : 2 ^ (8 * init.length) * b.toNat ≤ n.natAbs := by
    rw [pow_mul, show (2 : ℕ) ^ 8 = 256 from rfl]
    omega
  have hpow : ∀ e, 2 ^ e < 2 ^ (8 * k - 1) → e < 8 * k - 1 := fun e h =>
    (Nat.pow_lt_pow_iff_right (by norm_num)).1 h
  by_cases hb : 128 ≤ b.toNat
  · rw [if_pos hb]
    have hlen : init.length + 2 ≤ k := by
      have : 2 ^ (8 * init.length + 7) < 2 ^ (8 * k - 1) := by
        calc 2 ^ (8 * init.length + 7) = 2 ^ (8 * init.length) * 128 := by rw [pow_add]; norm_num
          _ ≤ 2 ^ (8 * init.length) * b.toNat := Nat.mul_le_mul_left _ hb
          _ < 2 ^ (8 * k - 1) := by omega
      have := hpow _ this
      omega
    refine ofVch_true_eq_ok.2 ⟨by simp only [List.length_append, List.length_singleton]; omega,
      ?_, ?_⟩
    · -- a sign byte after a last byte that needs its top bit
      rw [nonMinimal_append_iff]
      rintro ⟨-, hinit | hinit⟩
      · exact absurd hinit (List.append_ne_nil_of_right_ne_nil init (List.cons_ne_nil b []))
      · rw [List.getLastD_eq_getLast?, List.getLast?_append, List.getLast?_singleton,
          Option.some_or, Option.getD_some] at hinit
        omega
    · rw [set_vch_append, readLE_append_singleton, ← hm]
      by_cases hneg : n < 0
      · rw [if_pos hneg, if_pos (by decide), show (0x80 : UInt8).toNat - 128 = 0 from rfl]
        omega
      · rw [if_neg hneg, if_neg (by decide), show (0 : UInt8).toNat = 0 from rfl]
        omega
  · rw [if_neg hb]
    have hlen : init.length + 1 ≤ k := by
      have : 2 ^ (8 * init.length) < 2 ^ (8 * k - 1) := by
        calc 2 ^ (8 * init.length) ≤ 2 ^ (8 * init.length) * b.toNat :=
              Nat.le_mul_of_pos_right _ hbpos
          _ < 2 ^ (8 * k - 1) := by omega
      have := hpow _ this
      omega
    by_cases hneg : n < 0
    · -- the sign goes in the top bit of the last byte
      rw [if_pos hneg]
      have hor := toNat_or_0x80 (b := b) (by omega)
      refine ofVch_true_eq_ok.2 ⟨by simp only [List.length_append, List.length_singleton]; omega,
        ?_, ?_⟩
      · rw [nonMinimal_append_iff, hor]
        rintro ⟨h, -⟩
        omega
      · rw [set_vch_append, if_pos (by omega), hor, Nat.add_sub_cancel, ← hm]
        omega
    · rw [if_neg hneg]
      refine ofVch_true_eq_ok.2 ⟨by simp only [List.length_append, List.length_singleton]; omega,
        ?_, ?_⟩
      · rw [nonMinimal_append_iff]
        rintro ⟨h, -⟩
        omega
      · rw [set_vch_append, if_neg hb, ← hm]
        omega

/-- The last byte of an accepted encoding read alone: `0x00` or `0x80` only after a byte that
needs its top bit. -/
lemma getLast_of_minimal {init : List UInt8} {b : UInt8}
    (hmin : ¬(b.toNat % 128 = 0 ∧ (init = [] ∨ (init.getLastD 0).toNat < 128)))
    (hb : b.toNat % 128 = 0) : ∃ init' a, init = init' ++ [a] ∧ 128 ≤ a.toNat := by
  rcases List.eq_nil_or_concat init with rfl | ⟨init', a, rfl⟩
  · exact absurd ⟨hb, Or.inl rfl⟩ hmin
  · refine ⟨init', a, List.concat_eq_append .., ?_⟩
    by_contra ha
    apply hmin
    refine ⟨hb, Or.inr ?_⟩
    rw [List.concat_eq_append, List.getLastD_eq_getLast?, List.getLast?_append,
      List.getLast?_singleton, Option.some_or, Option.getD_some]
    omega

lemma ne_zero_of_le_toNat {a : UInt8} (ha : 128 ≤ a.toNat) : a ≠ 0 := by
  rintro rfl
  exact absurd ha (by decide)

lemma readLE_lt (l : List UInt8) : readLE l < 256 ^ l.length := by
  rw [readLE_eq_ofDigits, ← List.length_map UInt8.toNat]
  exact Nat.ofDigits_lt_base_pow_length (by norm_num) fun d hd => by
    obtain ⟨b, -, rfl⟩ := List.mem_map.1 hd
    exact b.toNat_lt

lemma readLE_append_pos {init : List UInt8} {c : UInt8} (hc : c ≠ 0) :
    0 < readLE (init ++ [c]) := by
  rw [readLE_append_singleton]
  have : 0 < 256 ^ init.length * c.toNat :=
    Nat.mul_pos (Nat.pow_pos (by norm_num)) (Nat.pos_of_ne_zero fun h => hc (UInt8.toNat_inj.1 h))
  omega

lemma absBytes_readLE_append {init : List UInt8} {c : UInt8} (hc : c ≠ 0) :
    absBytes (readLE (init ++ [c])) (readLE (init ++ [c])) = init ++ [c] :=
  absBytes_readLE _ fun _ => by
    rw [List.getLast_append_singleton]
    exact hc

/-- `serialize` of the magnitude read from bytes with a nonzero last byte. -/
lemma serialize_readLE {init : List UInt8} {c : UInt8} (hc : c ≠ 0) :
    serialize (readLE (init ++ [c]) : ℤ) =
      if 128 ≤ c.toNat then init ++ [c] ++ [0] else init ++ [c] := by
  have hpos : 0 < readLE (init ++ [c]) := readLE_append_pos hc
  have hnn : ¬((readLE (init ++ [c]) : ℕ) : ℤ) < 0 := by omega
  rw [serialize_of_absBytes (by omega)
    (by rw [Int.natAbs_natCast]; exact absBytes_readLE_append hc)]
  simp only [if_neg hnn]

/-- `serialize` of the negated magnitude read from bytes with a nonzero last byte. -/
lemma serialize_neg_readLE {init : List UInt8} {c : UInt8} (hc : c ≠ 0) :
    serialize (-(readLE (init ++ [c]) : ℤ)) =
      if 128 ≤ c.toNat then init ++ [c] ++ [0x80] else init ++ [c ||| 0x80] := by
  have hpos : 0 < readLE (init ++ [c]) := readLE_append_pos hc
  have hneg : -((readLE (init ++ [c]) : ℕ) : ℤ) < 0 := by omega
  rw [serialize_of_absBytes (by omega)
    (by rw [Int.natAbs_neg, Int.natAbs_natCast]; exact absBytes_readLE_append hc)]
  simp only [if_pos hneg]

/-- **A minimal encoding is the serialization of its value.** -/
theorem serialize_ofVch {vch : List UInt8} {k : ℕ} {v : ℤ} (h : ofVch vch true k = .ok v) :
    serialize v = vch := by
  obtain ⟨-, hmin, rfl⟩ := ofVch_true_eq_ok.1 h
  rcases List.eq_nil_or_concat vch with rfl | ⟨init, b, rfl⟩
  · rfl
  rw [List.concat_eq_append] at hmin ⊢
  rw [nonMinimal_append_iff] at hmin
  have hb256 : b.toNat < 256 := b.toNat_lt
  rw [set_vch_append]
  by_cases hb : 128 ≤ b.toNat
  · rw [if_pos hb]
    by_cases hc : b.toNat = 128
    · -- a bare sign byte: the magnitude is what comes before it
      obtain ⟨init', a, rfl, ha⟩ := getLast_of_minimal hmin (by omega)
      have hX : readLE (init' ++ [a]) + 256 ^ (init' ++ [a]).length * (b.toNat - 128) =
          readLE (init' ++ [a]) := by
        rw [hc, Nat.sub_self, Nat.mul_zero, Nat.add_zero]
      have hb' : b = 0x80 := UInt8.toNat_inj.1 (by rw [hc]; rfl)
      rw [hX, serialize_neg_readLE (ne_zero_of_le_toNat ha), if_pos ha, hb']
    · -- the magnitude ends in the last byte without its sign bit
      have hc' : (UInt8.ofNat (b.toNat - 128)).toNat = b.toNat - 128 :=
        UInt8.toNat_ofNat_of_lt (lt_of_le_of_lt (Nat.sub_le _ _) b.toNat_lt)
      have hX : readLE init + 256 ^ init.length * (b.toNat - 128) =
          readLE (init ++ [UInt8.ofNat (b.toNat - 128)]) := by
        rw [readLE_append_singleton, hc']
      have hc₀ : UInt8.ofNat (b.toNat - 128) ≠ 0 := fun h0 => by
        rw [h0] at hc'
        exact hc (by change 0 = b.toNat - 128 at hc'; omega)
      have hb' : UInt8.ofNat (b.toNat - 128) ||| 0x80 = b :=
        UInt8.toNat_inj.1 (by rw [toNat_or_0x80 (by omega), hc']; omega)
      rw [hX, serialize_neg_readLE hc₀, if_neg (by omega), hb']
  · rw [if_neg hb]
    by_cases hb₀ : b.toNat = 0
    · -- a bare zero byte: the magnitude is what comes before it
      obtain ⟨init', a, rfl, ha⟩ := getLast_of_minimal hmin (by omega)
      have hX : readLE (init' ++ [a]) + 256 ^ (init' ++ [a]).length * b.toNat =
          readLE (init' ++ [a]) := by
        rw [hb₀, Nat.mul_zero, Nat.add_zero]
      have hb' : b = 0 := UInt8.toNat_inj.1 hb₀
      rw [hX, serialize_readLE (ne_zero_of_le_toNat ha), if_pos ha, hb']
    · -- the magnitude ends in the last byte
      rw [← readLE_append_singleton, serialize_readLE (fun h => hb₀ (by rw [h]; rfl)),
        if_neg hb]

/-- **`k` bytes hold magnitudes below `2 ^ (8k - 1)`**, the top bit of the last byte being the
sign. -/
theorem natAbs_ofVch_lt {vch : List UInt8} {fRequireMinimal : Bool} {k : ℕ} {v : ℤ}
    (h : ofVch vch fRequireMinimal k = .ok v) : v.natAbs < 2 ^ (8 * k - 1) := by
  obtain ⟨hk, rfl⟩ := length_le_of_ofVch h
  rcases List.eq_nil_or_concat vch with rfl | ⟨init, b, rfl⟩
  · exact Nat.pow_pos (by norm_num)
  rw [List.concat_eq_append] at hk ⊢
  rw [List.length_append, List.length_singleton] at hk
  have hb256 : b.toNat < 256 := b.toNat_lt
  -- below the place of the last byte the rest, and the last byte without its sign below `128`
  have hbound : ∀ c, c < 128 → readLE init + 256 ^ init.length * c < 2 ^ (8 * k - 1) := by
    intro c hc
    have hinit := readLE_lt init
    calc readLE init + 256 ^ init.length * c < 256 ^ init.length * 128 := by
          have := Nat.mul_le_mul_left (256 ^ init.length) (show c ≤ 127 by omega)
          omega
      _ = 2 ^ (8 * init.length + 7) := by rw [pow_add, pow_mul]; norm_num
      _ ≤ 2 ^ (8 * k - 1) := Nat.pow_le_pow_right (by norm_num) (by omega)
  rw [set_vch_append]
  split_ifs with hs
  · rw [Int.natAbs_neg, Int.natAbs_natCast]
    exact hbound _ (by omega)
  · rw [Int.natAbs_natCast]
    exact hbound _ (by omega)

/-- **Script numbers are a bijection onto their minimal encodings.** Every `int64_t` but the
least serializes to an encoding that `CScriptNum(vch, true, 8)` accepts and decodes back; every
encoding of at most eight bytes it accepts is the serialization of its value; and four bytes
hold exactly the values of magnitude below `2 ^ 31`. -/
theorem scriptNum_minimal_bijection :
    (∀ n : ℤ, -2 ^ 63 < n → n < 2 ^ 63 → ofVch (serialize n) true 8 = .ok n) ∧
    (∀ (vch : List UInt8) (v : ℤ), vch.length ≤ 8 → ofVch vch true 8 = .ok v →
      serialize v = vch) ∧
    ∀ v : ℤ, (∃ vch, ofVch vch true 4 = .ok v) ↔
      -(2 ^ 31 - 1) ≤ v ∧ v ≤ 2 ^ 31 - 1 := by
  refine ⟨fun n h₁ h₂ => ofVch_serialize (by omega), fun vch v _ h => serialize_ofVch h,
    fun v => ⟨?_, fun hv => ⟨serialize v, ofVch_serialize (by omega)⟩⟩⟩
  rintro ⟨vch, h⟩
  have := natAbs_ofVch_lt h
  omega

/-! ## The arithmetic operators and their asserts -/

/-- `std::numeric_limits<int64_t>::max()`. -/
def int64Max : ℤ := 2 ^ 63 - 1

/-- `std::numeric_limits<int64_t>::min()`. -/
def int64Min : ℤ := -2 ^ 63

/-- `CScriptNum::operator+=(const int64_t&)`, which asserts that the sum fits in `int64_t`. -/
def addAssign (m_value rhs : ℤ) : Except AssertionFailed ℤ :=
  if rhs = 0 ∨ (rhs > 0 ∧ m_value ≤ int64Max - rhs) ∨
      (rhs < 0 ∧ m_value ≥ int64Min - rhs) then
    pure (m_value + rhs)
  else
    throw ⟨"rhs == 0 || (rhs > 0 && m_value <= std::numeric_limits<int64_t>::max() - rhs) " ++
      "|| (rhs < 0 && m_value >= std::numeric_limits<int64_t>::min() - rhs)"⟩

/-- `CScriptNum::operator-=(const int64_t&)`, which asserts that the difference fits in
`int64_t`. -/
def subAssign (m_value rhs : ℤ) : Except AssertionFailed ℤ :=
  if rhs = 0 ∨ (rhs > 0 ∧ m_value ≥ int64Min + rhs) ∨
      (rhs < 0 ∧ m_value ≤ int64Max + rhs) then
    pure (m_value - rhs)
  else
    throw ⟨"rhs == 0 || (rhs > 0 && m_value >= std::numeric_limits<int64_t>::min() + rhs) " ++
      "|| (rhs < 0 && m_value <= std::numeric_limits<int64_t>::max() + rhs)"⟩

/-- The unary `CScriptNum::operator-`, which asserts that the value is not the least
`int64_t`. -/
def neg (m_value : ℤ) : Except AssertionFailed ℤ :=
  if m_value ≠ int64Min then pure (-m_value)
  else throw ⟨"m_value != std::numeric_limits<int64_t>::min()"⟩

section Operators

variable {m_value rhs : ℤ}

/-- Below `2 ^ 62` in magnitude, `+=` cannot overflow. -/
lemma addAssign_of_natAbs_lt (hm : m_value.natAbs < 2 ^ 62) (hr : rhs.natAbs < 2 ^ 62) :
    addAssign m_value rhs = .ok (m_value + rhs) := by
  unfold addAssign int64Max int64Min
  rw [if_pos (by omega)]
  rfl

/-- Below `2 ^ 62` in magnitude, `-=` cannot overflow. -/
lemma subAssign_of_natAbs_lt (hm : m_value.natAbs < 2 ^ 62) (hr : rhs.natAbs < 2 ^ 62) :
    subAssign m_value rhs = .ok (m_value - rhs) := by
  unfold subAssign int64Max int64Min
  rw [if_pos (by omega)]
  rfl

/-- Below `2 ^ 63` in magnitude, a value is not the least `int64_t`. -/
lemma neg_of_natAbs_lt (hm : m_value.natAbs < 2 ^ 63) : neg m_value = .ok (-m_value) := by
  unfold neg int64Min
  rw [if_pos (by omega)]
  rfl

end Operators

end CScriptNum

end MvfBu
