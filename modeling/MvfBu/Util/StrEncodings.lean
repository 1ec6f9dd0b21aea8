import MvfBu.Lib.BitFields

set_option autoImplicit false

/-!
# Base64 and Base32 (`utilstrencodings.cpp`)

`EncodeBase64` and `EncodeBase32` run a state machine over the bytes that carries the bits not
yet written in `left`, and pad the last group with `'='`. `DecodeBase64` and `DecodeBase32` run
the converse machine over the characters up to the first one outside the alphabet, then check
that the padding the state calls for follows and that the leftover bits are zero.

Both codecs are inverse on every byte string. A text the decoder accepts is not always one the
encoder writes: after a complete group the decoder looks at nothing, and after a partial one it
looks only at the padding it requires and at the character after it, so surplus `'='` pass. The
encoder gives back exactly the texts with the right number of pads.

## Main definitions

* `MvfBu.EncodeBase64`, `MvfBu.DecodeBase64`, `MvfBu.EncodeBase32`, `MvfBu.DecodeBase32`.
* `MvfBu.decodeLoop` — the `while (1)` loop both decoders share.
* `MvfBu.sextets`, `MvfBu.quintets` — the groups of six and five bits of a byte string: what
  the codecs are for.

## Main results

* `MvfBu.EncodeBase64_eq`, `MvfBu.EncodeBase32_eq` — the encoders write the groups of bits,
  then the padding.
* `MvfBu.DecodeBase64_EncodeBase64`, `MvfBu.DecodeBase32_EncodeBase32` — the round trips.
* `MvfBu.EncodeBase64_DecodeBase64`, `MvfBu.EncodeBase32_DecodeBase32` — a valid text with the
  right padding is what the encoder writes (in lower case for base32).

## Implementation notes

Bytes are `UInt8` and the `int` variables of the source are natural numbers: every value they
take is a small non-negative one. Texts are lists of characters read as C strings: `charAt p i`
is `p[i]`, and `'\x00'` past the end. A character outside ASCII maps to `-1` in the tables, as
each byte of its UTF-8 form does.
-/

namespace MvfBu

open BitFields

/-- `p[i]` of a C string: the `i`-th character, and the terminating NUL past the end. -/
def charAt (p : List Char) (i : ℕ) : Char := p.getD i '\x00'

/-- The state of the loop of the encoders: `mode`, `left` and `strRet`. -/
structure EncState where
  mode : ℕ
  left : ℕ
  strRet : List Char

/-- The state of the loop of the decoders: `mode`, `left` and `vchRet`. -/
structure DecState where
  mode : ℕ
  left : ℕ
  vchRet : List UInt8

/-- The `while (1)` loop of `DecodeBase64` and `DecodeBase32`: the value of each character in
`table` goes through `step` up to the first character the table maps to `-1`, the terminating
NUL among them. It returns the state and the text from that character on. -/
def decodeLoop {σ : Type} (table : Char → ℤ) (step : σ → ℕ → σ) :
    List Char → σ → σ × List Char
  | [], st => (st, [])
  | c :: p, st =>
    let dec := table c
    if dec = -1 then (st, c :: p) else decodeLoop table step p (step st dec.toNat)

/-- The check of the padding in the decoders: `p[0]` to `p[k-1]` are `'='` and `p[k]` is not a
character of the alphabet. -/
def padOk (table : Char → ℤ) (p : List Char) (k : ℕ) : Bool :=
  (List.range k).all (fun i => charAt p i == '=') && table (charAt p k) == -1

/-! ### Base64 -/

/-- `pbase64`. -/
def pbase64 : List Char := "ABCDEFGHIJKLMNOPQRSTUVWXYZabcdefghijklmnopqrstuvwxyz0123456789+/".toList

/-- One byte through the loop of `EncodeBase64`. -/
def encodeBase64Step (st : EncState) (c : UInt8) : EncState :=
  let enc := c.toNat
  match st.mode with
  | 0 => -- we have no bits
    ⟨1, (enc &&& 3) <<< 4, st.strRet ++ [charAt pbase64 (enc >>> 2)]⟩
  | 1 => -- we have two bits
    ⟨2, (enc &&& 15) <<< 2, st.strRet ++ [charAt pbase64 (st.left ||| (enc >>> 4))]⟩
  | 2 => -- we have four bits
    ⟨0, st.left,
      st.strRet ++ [charAt pbase64 (st.left ||| (enc >>> 6)), charAt pbase64 (enc &&& 63)]⟩
  | _ => st

/-- The end of `EncodeBase64`: the leftover bits and the padding. -/
def encodeBase64Tail (st : EncState) : List Char :=
  if st.mode ≠ 0 then
    st.strRet ++ [charAt pbase64 st.left, '='] ++ (if st.mode = 1 then ['='] else [])
  else st.strRet

/-- `EncodeBase64`. -/
def EncodeBase64 (b : List UInt8) : List Char :=
  encodeBase64Tail (b.foldl encodeBase64Step ⟨0, 0, []⟩)

/-- `decode64_table`: the value of a base64 character, `-1` for every other one. -/
def decode64_table (c : Char) : ℤ :=
  if 'A' ≤ c ∧ c ≤ 'Z' then (c.toNat : ℤ) - 65
  else if 'a' ≤ c ∧ c ≤ 'z' then (c.toNat : ℤ) - 97 + 26
  else if '0' ≤ c ∧ c ≤ '9' then (c.toNat : ℤ) - 48 + 52
  else if c = '+' then 62
  else if c = '/' then 63
  else -1

/-- One character's value through the loop of `DecodeBase64`. -/
def decodeBase64Step (st : DecState) (dec : ℕ) : DecState :=
  match st.mode with
  | 0 => -- we have no bits and get 6
    ⟨1, dec, st.vchRet⟩
  | 1 => -- we have 6 bits and keep 4
    ⟨2, dec &&& 15, st.vchRet ++ [UInt8.ofNat ((st.left <<< 2) ||| (dec >>> 4))]⟩
  | 2 => -- we have 4 bits and get 6, we keep 2
    ⟨3, dec &&& 3, st.vchRet ++ [UInt8.ofNat ((st.left <<< 4) ||| (dec >>> 2))]⟩
  | 3 => -- we have 2 bits and get 6
    ⟨0, st.left, st.vchRet ++ [UInt8.ofNat ((st.left <<< 6) ||| dec)]⟩
  | _ => st

/-- `DecodeBase64`, with `*pfInvalid` as the second component. -/
def DecodeBase64 (p : List Char) : List UInt8 × Bool :=
  let r := decodeLoop decode64_table decodeBase64Step p ⟨0, 0, []⟩
  let fInvalid := match r.1.mode with
    | 1 => true -- 4n+1 base64 character processed: impossible
    | 2 => r.1.left != 0 || !padOk decode64_table r.2 2 -- 4n+2: require '=='
    | 3 => r.1.left != 0 || !padOk decode64_table r.2 1 -- 4n+3: require '='
    | _ => false
  (r.1.vchRet, fInvalid)

/-! ### Base32 -/

/-- `pbase32`. -/
def pbase32 : List Char := "abcdefghijklmnopqrstuvwxyz234567".toList

/-- One byte through the loop of `EncodeBase32`. -/
def encodeBase32Step (st : EncState) (c : UInt8) : EncState :=
  let enc := c.toNat
  match st.mode with
  | 0 => -- we have no bits
    ⟨1, (enc &&& 7) <<< 2, st.strRet ++ [charAt pbase32 (enc >>> 3)]⟩
  | 1 => -- we have three bits
    ⟨2, (enc &&& 1) <<< 4, st.strRet ++
      [charAt pbase32 (st.left ||| (enc >>> 6)), charAt pbase32 ((enc >>> 1) &&& 31)]⟩
  | 2 => -- we have one bit
    ⟨3, (enc &&& 15) <<< 1, st.strRet ++ [charAt pbase32 (st.left ||| (enc >>> 4))]⟩
  | 3 => -- we have four bits
    ⟨4, (enc &&& 3) <<< 3, st.strRet ++
      [charAt pbase32 (st.left ||| (enc >>> 7)), charAt pbase32 ((enc >>> 2) &&& 31)]⟩
  | 4 => -- we have two bits
    ⟨0, st.left, st.strRet ++
      [charAt pbase32 (st.left ||| (enc >>> 5)), charAt pbase32 (enc &&& 31)]⟩
  | _ => st

/-- `nPadding`. -/
def nPadding : List ℕ := [0, 6, 4, 3, 1]

/-- The end of `EncodeBase32`: the leftover bits and the padding. -/
def encodeBase32Tail (st : EncState) : List Char :=
  if st.mode ≠ 0 then
    st.strRet ++ charAt pbase32 st.left :: List.replicate (nPadding.getD st.mode 0) '='
  else st.strRet

/-- `EncodeBase32`. -/
def EncodeBase32 (b : List UInt8) : List Char :=
  encodeBase32Tail (b.foldl encodeBase32Step ⟨0, 0, []⟩)

/-- `decode32_table`: the value of a base32 character of either case, `-1` for every other
one. -/
def decode32_table (c : Char) : ℤ :=
  if 'A' ≤ c ∧ c ≤ 'Z' then (c.toNat : ℤ) - 65
  else if 'a' ≤ c ∧ c ≤ 'z' then (c.toNat : ℤ) - 97
  else if '2' ≤ c ∧ c ≤ '7' then (c.toNat : ℤ) - 50 + 26
  else -1

/-- One character's value through the loop of `DecodeBase32`. -/
def decodeBase32Step (st : DecState) (dec : ℕ) : DecState :=
  match st.mode with
  | 0 => -- we have no bits and get 5
    ⟨1, dec, st.vchRet⟩
  | 1 => -- we have 5 bits and keep 2
    ⟨2, dec &&& 3, st.vchRet ++ [UInt8.ofNat ((st.left <<< 3) ||| (dec >>> 2))]⟩
  | 2 => -- we have 2 bits and keep 7
    ⟨3, st.left <<< 5 ||| dec, st.vchRet⟩
  | 3 => -- we have 7 bits and keep 4
    ⟨4, dec &&& 15, st.vchRet ++ [UInt8.ofNat ((st.left <<< 1) ||| (dec >>> 4))]⟩
  | 4 => -- we have 4 bits, and keep 1
    ⟨5, dec &&& 1, st.vchRet ++ [UInt8.ofNat ((st.left <<< 4) ||| (dec >>> 1))]⟩
  | 5 => -- we have 1 bit, and keep 6
    ⟨6, st.left <<< 5 ||| dec, st.vchRet⟩
  | 6 => -- we have 6 bits, and keep 3
    ⟨7, dec &&& 7, st.vchRet ++ [UInt8.ofNat ((st.left <<< 2) ||| (dec >>> 3))]⟩
  | 7 => -- we have 3 bits, and keep 0
    ⟨0, st.left, st.vchRet ++ [UInt8.ofNat ((st.left <<< 5) ||| dec)]⟩
  | _ => st

/-- `DecodeBase32`, with `*pfInvalid` as the second component. -/
def DecodeBase32 (p : List Char) : List UInt8 × Bool :=
  let r := decodeLoop decode32_table decodeBase32Step p ⟨0, 0, []⟩
  let fInvalid := match r.1.mode with
    | 1 | 3 | 6 => true -- 8n+1, 8n+3 and 8n+6 base32 characters processed: impossible
    | 2 => r.1.left != 0 || !padOk decode32_table r.2 6 -- 8n+2: require '======'
    | 4 => r.1.left != 0 || !padOk decode32_table r.2 4 -- 8n+4: require '===='
    | 5 => r.1.left != 0 || !padOk decode32_table r.2 3 -- 8n+5: require '==='
    | 7 => r.1.left != 0 || !padOk decode32_table r.2 1 -- 8n+7: require '='
    | _ => false
  (r.1.vchRet, fInvalid)

/-! ### The decoding loop -/

section DecodeLoop

variable {σ : Type} (table : Char → ℤ) (step : σ → ℕ → σ)

/-- Characters of the alphabet go through the step one after the other. -/
theorem decodeLoop_append {A : List Char} (hA : ∀ c ∈ A, table c ≠ -1) (T : List Char)
    (st : σ) : decodeLoop table step (A ++ T) st =
      decodeLoop table step T (A.foldl (fun st c => step st (table c).toNat) st) := by
  induction A generalizing st with
  | nil => rfl
  | cons c A ih =>
    rw [List.cons_append, decodeLoop, if_neg (hA c List.mem_cons_self), List.foldl_cons]
    exact ih (fun d hd => hA d (List.mem_cons_of_mem c hd)) _

/-- The loop stops at a character outside the alphabet, or at the end. -/
theorem decodeLoop_stop {T : List Char} (hT : table (charAt T 0) = -1) (st : σ) :
    decodeLoop table step T st = (st, T) := by
  cases T with
  | nil => rfl
  | cons c T => exact if_pos hT

/-- The loop over characters of the alphabet followed by one that is not: a fold over their
values, stopped before the rest. -/
theorem decodeLoop_append_stop {A T : List Char} (hA : ∀ c ∈ A, table c ≠ -1)
    (hT : table (charAt T 0) = -1) (st : σ) : decodeLoop table step (A ++ T) st =
      ((A.map fun c => (table c).toNat).foldl step st, T) := by
  rw [decodeLoop_append table step hA, decodeLoop_stop table step hT, List.foldl_map]

/-- **The mode counts characters**: a step that advances the mode by one, modulo `k`, leaves
it at the number of characters read, modulo `k`. -/
theorem foldl_mode (mode : σ → ℕ) {k : ℕ}
    (hstep : ∀ st d, mode st < k → mode (step st d) = (mode st + 1) % k) :
    ∀ (V : List ℕ) (st : σ), mode st < k → mode (V.foldl step st) = (mode st + V.length) % k
  | [], st, h => by simp [Nat.mod_eq_of_lt h]
  | d :: V, st, h => by
    have hk : 0 < k := by omega
    rw [List.foldl_cons, foldl_mode mode hstep V _ (by rw [hstep st d h]; exact Nat.mod_lt _ hk),
      hstep st d h, List.length_cons, Nat.mod_add_mod]
    congr 1
    omega

end DecodeLoop

theorem charAt_replicate_pad (k i : ℕ) :
    charAt (List.replicate k '=') i = '=' ∨ charAt (List.replicate k '=') i = '\x00' := by
  by_cases hi : i < k
  · exact .inl (List.getD_replicate _ hi)
  · exact .inr (List.getD_eq_default _ _ (by simpa using hi))

/-- A byte is the byte of its value. -/
theorem uint8_ofNat_eq {n : ℕ} {b : UInt8} (h : n = b.toNat) : UInt8.ofNat n = b := by
  rw [h, UInt8.ofNat_toNat]

theorem toNat_uint8_ofNat {n : ℕ} (h : n < 256) : (UInt8.ofNat n).toNat = n := by
  rw [UInt8.toNat_ofNat']
  exact Nat.mod_eq_of_lt h

/-! ### Base64: what it writes -/

/-- The groups of six bits of a byte string, most significant first, with zero bits after the
last byte: what base64 writes. -/
def sextets : List UInt8 → List ℕ
  | b1 :: b2 :: b3 :: bs =>
    [b1.toNat / 4, b1.toNat % 4 * 16 + b2.toNat / 16, b2.toNat % 16 * 4 + b3.toNat / 64,
      b3.toNat % 64] ++ sextets bs
  | [b1, b2] => [b1.toNat / 4, b1.toNat % 4 * 16 + b2.toNat / 16, b2.toNat % 16 * 4]
  | [b1] => [b1.toNat / 4, b1.toNat % 4 * 16]
  | [] => []

theorem sextets_lt : ∀ (b : List UInt8), ∀ v ∈ sextets b, v < 64
  | b1 :: b2 :: b3 :: bs, v, hv => by
    have := b1.toNat_lt
    have := b2.toNat_lt
    have := b3.toNat_lt
    simp only [sextets, List.cons_append, List.mem_cons] at hv
    rcases hv with rfl | rfl | rfl | rfl | hv
    iterate 4 omega
    exact sextets_lt bs v hv
  | [b1, b2], v, hv => by
    have := b1.toNat_lt
    have := b2.toNat_lt
    simp only [sextets, List.mem_cons, List.not_mem_nil, or_false] at hv
    rcases hv with rfl | rfl | rfl <;> omega
  | [b1], v, hv => by
    have := b1.toNat_lt
    simp only [sextets, List.mem_cons, List.not_mem_nil, or_false] at hv
    rcases hv with rfl | rfl <;> omega
  | [], v, hv => by simp [sextets] at hv

/-- A byte string never leaves a lone sextet. -/
theorem length_sextets_mod : ∀ (b : List UInt8), (sextets b).length % 4 ≠ 1
  | _ :: _ :: _ :: bs => by
    have := length_sextets_mod bs
    simp only [sextets, List.length_append, List.length_cons, List.length_nil]
    omega
  | [_, _] => by simp [sextets]
  | [_] => by simp [sextets]
  | [] => by simp [sextets]

/-! ### Base64: the encoder -/

theorem foldl_encodeBase64Step_cons₃ (b1 b2 b3 : UInt8) (bs : List UInt8) (l : ℕ)
    (s : List Char) : (b1 :: b2 :: b3 :: bs).foldl encodeBase64Step ⟨0, l, s⟩ =
      bs.foldl encodeBase64Step
        ⟨0, (b2.toNat &&& 15) <<< 2, s ++ (sextets [b1, b2, b3]).map (charAt pbase64)⟩ := by
  have := b2.toNat_lt
  have := b3.toNat_lt
  simp (disch := omega) only [List.foldl_cons, encodeBase64Step, sextets, List.append_nil,
    List.map_cons, List.map_nil, List.append_assoc, List.cons_append, List.nil_append,
    shiftLeft_or_of_lt, Nat.shiftRight_eq_div_pow, and_three, and_fifteen, and_sixtythree,
    Nat.reducePow]

/-- **What `EncodeBase64` writes**, from any state between two groups: the characters of the
sextets, then a `'='` for each sextet missing from the last group of four. -/
theorem encodeBase64Tail_foldl : ∀ (b : List UInt8) (l : ℕ) (s : List Char),
    encodeBase64Tail (b.foldl encodeBase64Step ⟨0, l, s⟩) =
      s ++ (sextets b).map (charAt pbase64) ++
        List.replicate ((4 - (sextets b).length % 4) % 4) '='
  | b1 :: b2 :: b3 :: bs, l, s => by
    have hpad : (4 - (sextets (b1 :: b2 :: b3 :: bs)).length % 4) % 4 =
        (4 - (sextets bs).length % 4) % 4 := by
      simp only [sextets, List.length_append, List.length_cons, List.length_nil]
      omega
    rw [foldl_encodeBase64Step_cons₃, encodeBase64Tail_foldl bs, hpad]
    simp [sextets]
  | [b1, b2], l, s => by
    have := b2.toNat_lt
    simp (disch := omega) only [List.foldl_cons, List.foldl_nil, encodeBase64Step,
      shiftLeft_or_of_lt, Nat.shiftRight_eq_div_pow, and_three, and_fifteen]
    simp [encodeBase64Tail, sextets, Nat.shiftLeft_eq]
  | [b1], l, s => by
    simp [encodeBase64Tail, encodeBase64Step, sextets, Nat.shiftRight_eq_div_pow, and_three,
      Nat.shiftLeft_eq]
  | [], l, s => by simp [encodeBase64Tail, sextets]

theorem EncodeBase64_eq (b : List UInt8) :
    EncodeBase64 b = (sextets b).map (charAt pbase64) ++
      List.replicate ((4 - (sextets b).length % 4) % 4) '=' := by
  rw [EncodeBase64, encodeBase64Tail_foldl, List.nil_append]

/-! ### Base64: the alphabet -/

theorem decode64_table_charAt : ∀ v < 64, decode64_table (charAt pbase64 v) = v := by
  set_option maxRecDepth 8000 in decide

theorem decode64_table_pad : decode64_table '=' = -1 := by decide

theorem decode64_table_nul : decode64_table '\x00' = -1 := by decide

/-- Only ASCII characters are in the alphabet. -/
theorem lt_128_of_decode64_table {c : Char} (hc : decode64_table c ≠ -1) : c.toNat < 128 := by
  unfold decode64_table at hc
  split_ifs at hc with h1 h2 h3 h4 h5
  · exact lt_of_le_of_lt h1.2 (by decide)
  · exact lt_of_le_of_lt h2.2 (by decide)
  · exact lt_of_le_of_lt h3.2 (by decide)
  · rw [h4]
    decide
  · rw [h5]
    decide
  · exact absurd rfl hc

/-- A character of the alphabet is the character of its value. -/
theorem charAt_decode64_table {c : Char} (hc : decode64_table c ≠ -1) :
    charAt pbase64 (decode64_table c).toNat = c := by
  have key : ∀ n < 128, decode64_table (Char.ofNat n) ≠ -1 →
      charAt pbase64 (decode64_table (Char.ofNat n)).toNat = Char.ofNat n := by
    set_option maxRecDepth 8000 in decide
  have := key c.toNat (lt_128_of_decode64_table hc) (by rwa [Char.ofNat_toNat])
  rwa [Char.ofNat_toNat] at this

/-! ### Base64: the decoder -/

theorem decodeBase64Step_mode (st : DecState) (d : ℕ) (h : st.mode < 4) :
    (decodeBase64Step st d).mode = (st.mode + 1) % 4 := by
  obtain ⟨m, l, o⟩ := st
  obtain rfl | rfl | rfl | rfl : m = 0 ∨ m = 1 ∨ m = 2 ∨ m = 3 := by
    simp only at h
    omega
  all_goals simp [decodeBase64Step]

theorem foldl_decodeBase64Step_cons₄ (v1 v2 v3 v4 : ℕ) (vs : List ℕ) (l : ℕ)
    (out : List UInt8) (h2 : v2 < 64) (h3 : v3 < 64) (h4 : v4 < 64) :
    (v1 :: v2 :: v3 :: v4 :: vs).foldl decodeBase64Step ⟨0, l, out⟩ =
      vs.foldl decodeBase64Step ⟨0, v3 &&& 3, out ++ [UInt8.ofNat (v1 * 4 + v2 / 16),
        UInt8.ofNat (v2 % 16 * 16 + v3 / 4), UInt8.ofNat (v3 % 4 * 64 + v4)]⟩ := by
  simp (disch := omega) only [List.foldl_cons, decodeBase64Step, shiftLeft_or_of_lt,
    Nat.shiftRight_eq_div_pow, and_three, and_fifteen, Nat.reducePow, List.append_assoc,
    List.cons_append, List.nil_append]

/-- **Decoding the sextets of a byte string** appends the bytes; a partial last group leaves no
bits over. -/
theorem foldl_decodeBase64Step_sextets : ∀ (b : List UInt8) (l : ℕ) (out : List UInt8),
    ((sextets b).foldl decodeBase64Step ⟨0, l, out⟩).vchRet = out ++ b ∧
      ((sextets b).length % 4 ≠ 0 →
        ((sextets b).foldl decodeBase64Step ⟨0, l, out⟩).left = 0)
  | b1 :: b2 :: b3 :: bs, l, out => by
    have := b1.toNat_lt
    have := b2.toNat_lt
    have := b3.toNat_lt
    have hbytes : [UInt8.ofNat (b1.toNat / 4 * 4 + (b1.toNat % 4 * 16 + b2.toNat / 16) / 16),
        UInt8.ofNat ((b1.toNat % 4 * 16 + b2.toNat / 16) % 16 * 16 +
          (b2.toNat % 16 * 4 + b3.toNat / 64) / 4),
        UInt8.ofNat ((b2.toNat % 16 * 4 + b3.toNat / 64) % 4 * 64 + b3.toNat % 64)] =
        [b1, b2, b3] := by
      simp only [List.cons.injEq, and_true]
      exact ⟨uint8_ofNat_eq (by omega), uint8_ofNat_eq (by omega), uint8_ofNat_eq (by omega)⟩
    obtain ⟨ih1, ih2⟩ := foldl_decodeBase64Step_sextets bs
      ((b2.toNat % 16 * 4 + b3.toNat / 64) &&& 3) (out ++ [b1, b2, b3])
    rw [sextets, List.cons_append, List.cons_append, List.cons_append, List.cons_append,
      List.nil_append,
      foldl_decodeBase64Step_cons₄ _ _ _ _ _ _ _ (by omega) (by omega) (by omega), hbytes]
    refine ⟨by rw [ih1, List.append_assoc]; rfl, fun h => ih2 ?_⟩
    simp only [List.length_cons] at h
    omega
  | [b1, b2], l, out => by
    have := b1.toNat_lt
    have := b2.toNat_lt
    simp (disch := omega) only [sextets, List.foldl_cons, List.foldl_nil, decodeBase64Step,
      shiftLeft_or_of_lt, Nat.shiftRight_eq_div_pow, and_three, and_fifteen, Nat.reducePow]
    refine ⟨?_, fun _ => by omega⟩
    simp only [List.append_assoc, List.cons_append, List.nil_append]
    rw [uint8_ofNat_eq (b := b1) (by omega), uint8_ofNat_eq (b := b2) (by omega)]
  | [b1], l, out => by
    have := b1.toNat_lt
    simp (disch := omega) only [sextets, List.foldl_cons, List.foldl_nil, decodeBase64Step,
      shiftLeft_or_of_lt, Nat.shiftRight_eq_div_pow, and_fifteen, Nat.reducePow]
    exact ⟨by rw [uint8_ofNat_eq (b := b1) (by omega)], fun _ => by omega⟩
  | [], l, out => by simp [sextets]

/-- **A decoded text with no bits over is the sextets of the bytes**: decoding values below
`64` with no lone value at the end and no bits left over gives a byte string whose sextets are
those values. -/
theorem sextets_foldl_decodeBase64Step : ∀ (V : List ℕ) (l : ℕ) (out : List UInt8),
    (∀ v ∈ V, v < 64) → V.length % 4 ≠ 1 →
      (V.length % 4 ≠ 0 → (V.foldl decodeBase64Step ⟨0, l, out⟩).left = 0) →
        ∃ out', (V.foldl decodeBase64Step ⟨0, l, out⟩).vchRet = out ++ out' ∧
          sextets out' = V
  | v1 :: v2 :: v3 :: v4 :: V, l, out, hV, h1, h0 => by
    have h1' := hV v1 (by simp)
    have h2' := hV v2 (by simp)
    have h3' := hV v3 (by simp)
    have h4' := hV v4 (by simp)
    simp only [List.length_cons] at h1 h0
    rw [foldl_decodeBase64Step_cons₄ _ _ _ _ _ _ _ h2' h3' h4'] at h0 ⊢
    obtain ⟨out', hout, hs⟩ := sextets_foldl_decodeBase64Step V _ _
      (fun v hv => hV v (by simp [hv])) (by omega) (fun h => h0 (by omega))
    refine ⟨_ :: _ :: _ :: out', by rw [hout, List.append_assoc]; rfl, ?_⟩
    rw [sextets, hs, toNat_uint8_ofNat (by omega), toNat_uint8_ofNat (by omega),
      toNat_uint8_ofNat (by omega)]
    simp only [List.cons_append, List.nil_append, List.cons.injEq, and_true]
    exact ⟨by omega, by omega, by omega, by omega⟩
  | [v1, v2, v3], l, out, hV, _, h0 => by
    have h1' := hV v1 (by simp)
    have h2' := hV v2 (by simp)
    have h3' := hV v3 (by simp)
    have hl := h0 (by simp)
    simp (disch := omega) only [List.foldl_cons, List.foldl_nil, decodeBase64Step,
      shiftLeft_or_of_lt, Nat.shiftRight_eq_div_pow, and_three, and_fifteen,
      Nat.reducePow] at hl ⊢
    refine ⟨_, by rw [List.append_assoc], ?_⟩
    simp only [List.cons_append, List.nil_append, sextets]
    rw [toNat_uint8_ofNat (by omega), toNat_uint8_ofNat (by omega)]
    simp only [List.cons.injEq, and_true]
    exact ⟨by omega, by omega, by omega⟩
  | [v1, v2], l, out, hV, _, h0 => by
    have h1' := hV v1 (by simp)
    have h2' := hV v2 (by simp)
    have hl := h0 (by simp)
    simp (disch := omega) only [List.foldl_cons, List.foldl_nil, decodeBase64Step,
      shiftLeft_or_of_lt, Nat.shiftRight_eq_div_pow, and_fifteen, Nat.reducePow] at hl ⊢
    refine ⟨_, rfl, ?_⟩
    rw [sextets.eq_3, toNat_uint8_ofNat (by omega)]
    simp only [List.cons.injEq, and_true]
    exact ⟨by omega, by omega⟩
  | [_], _, _, _, h1, _ => absurd rfl h1
  | [], l, out, _, _, _ => ⟨[], by simp, rfl⟩

theorem decode64_table_lt (c : Char) : decode64_table c < 64 := by
  by_cases hc : decode64_table c = -1
  · rw [hc]
    decide
  · have key : ∀ n < 128, decode64_table (Char.ofNat n) < 64 := by decide
    simpa [Char.ofNat_toNat] using key c.toNat (lt_128_of_decode64_table hc)

theorem decode64_table_pad_at (k i : ℕ) :
    decode64_table (charAt (List.replicate k '=') i) = -1 := by
  rcases charAt_replicate_pad k i with h | h <;> rw [h] <;> decide

theorem map_decode64_table_charAt {V : List ℕ} (hV : ∀ v ∈ V, v < 64) :
    (V.map (charAt pbase64)).map (fun c => (decode64_table c).toNat) = V := by
  rw [List.map_map]
  exact (List.map_congr_left fun v hv => by simp [decode64_table_charAt v (hV v hv)]).trans
    (List.map_id V)

/-! ### Base64: the two round trips -/

/-- **Decoding what `EncodeBase64` writes** gives the bytes back, and the text is valid. -/
theorem DecodeBase64_EncodeBase64 (b : List UInt8) :
    DecodeBase64 (EncodeBase64 b) = (b, false) := by
  have hV := sextets_lt b
  have hA : ∀ c ∈ (sextets b).map (charAt pbase64), decode64_table c ≠ -1 := by
    intro c hc
    obtain ⟨v, hv, rfl⟩ := List.mem_map.1 hc
    rw [decode64_table_charAt v (hV v hv)]
    omega
  obtain ⟨hout, hleft⟩ := foldl_decodeBase64Step_sextets b 0 []
  have hmode := foldl_mode decodeBase64Step DecState.mode (decodeBase64Step_mode · ·)
    (sextets b) ⟨0, 0, []⟩ (by decide)
  have h1 := length_sextets_mod b
  unfold DecodeBase64
  rw [EncodeBase64_eq, decodeLoop_append_stop _ _ hA (decode64_table_pad_at _ 0),
    map_decode64_table_charAt hV]
  simp only [hout, List.nil_append, Prod.mk.injEq, true_and]
  simp only [Nat.zero_add] at hmode
  rw [hmode]
  obtain h | h | h : (sextets b).length % 4 = 0 ∨ (sextets b).length % 4 = 2 ∨
      (sextets b).length % 4 = 3 := by omega
  · rw [h]
    rfl
  · rw [h, hleft (by omega)]
    decide
  · rw [h, hleft (by omega)]
    decide

/-- **A valid text with the right padding is what `EncodeBase64` writes**: characters of the
alphabet followed by as many `'='` as the last group of four lacks, on which `DecodeBase64`
reports no error, are the encoding of the bytes it returns. -/
theorem EncodeBase64_DecodeBase64 {A : List Char} (hA : ∀ c ∈ A, decode64_table c ≠ -1)
    (hvalid : (DecodeBase64 (A ++ List.replicate ((4 - A.length % 4) % 4) '=')).2 = false) :
    EncodeBase64 (DecodeBase64 (A ++ List.replicate ((4 - A.length % 4) % 4) '=')).1 =
      A ++ List.replicate ((4 - A.length % 4) % 4) '=' := by
  set V := A.map fun c => (decode64_table c).toNat with hVdef
  have hV : ∀ v ∈ V, v < 64 := by
    intro v hv
    obtain ⟨c, -, rfl⟩ := List.mem_map.1 hv
    have := decode64_table_lt c
    omega
  have hlen : V.length = A.length := List.length_map _
  have hmode := foldl_mode decodeBase64Step DecState.mode (decodeBase64Step_mode · ·)
    V ⟨0, 0, []⟩ (by decide)
  simp only [Nat.zero_add] at hmode
  unfold DecodeBase64 at hvalid ⊢
  rw [decodeLoop_append_stop _ _ hA (decode64_table_pad_at _ 0)] at hvalid ⊢
  simp only [← hVdef] at hvalid ⊢
  rw [hmode] at hvalid
  -- the validity check: no lone character, and no bits left over
  have h1 : V.length % 4 ≠ 1 := fun h => by rw [h] at hvalid; simp at hvalid
  have h0 : V.length % 4 ≠ 0 → (V.foldl decodeBase64Step ⟨0, 0, []⟩).left = 0 := by
    intro h0
    obtain h | h : V.length % 4 = 2 ∨ V.length % 4 = 3 := by omega
    · rw [h] at hvalid
      simp at hvalid
      exact hvalid.1
    · rw [h] at hvalid
      simp at hvalid
      exact hvalid.1
  obtain ⟨out', hout, hs⟩ := sextets_foldl_decodeBase64Step V 0 [] hV h1 h0
  rw [hout, List.nil_append, EncodeBase64_eq, hs, hlen]
  congr 1
  rw [hVdef, List.map_map]
  exact (List.map_congr_left fun c hc => charAt_decode64_table (hA c hc)).trans (List.map_id A)

/-- A surplus `'='` after a complete group is accepted, and the encoder does not write it back:
`"QUJD="` decodes without error to `"ABC"`, which encodes to `"QUJD"`. -/
theorem DecodeBase64_accepts_surplus_pad :
    (DecodeBase64 "QUJD=".toList).2 = false ∧
      EncodeBase64 (DecodeBase64 "QUJD=".toList).1 ≠ "QUJD=".toList := by
  set_option maxRecDepth 8000 in decide

/-! ### Base32: what it writes -/

/-- The groups of five bits of a byte string, most significant first, with zero bits after the
last byte: what base32 writes. -/
def quintets : List UInt8 → List ℕ
  | b1 :: b2 :: b3 :: b4 :: b5 :: bs =>
    [b1.toNat / 8, b1.toNat % 8 * 4 + b2.toNat / 64, b2.toNat / 2 % 32,
      b2.toNat % 2 * 16 + b3.toNat / 16, b3.toNat % 16 * 2 + b4.toNat / 128, b4.toNat / 4 % 32,
      b4.toNat % 4 * 8 + b5.toNat / 32, b5.toNat % 32] ++ quintets bs
  | [b1, b2, b3, b4] =>
    [b1.toNat / 8, b1.toNat % 8 * 4 + b2.toNat / 64, b2.toNat / 2 % 32,
      b2.toNat % 2 * 16 + b3.toNat / 16, b3.toNat % 16 * 2 + b4.toNat / 128, b4.toNat / 4 % 32,
      b4.toNat % 4 * 8]
  | [b1, b2, b3] =>
    [b1.toNat / 8, b1.toNat % 8 * 4 + b2.toNat / 64, b2.toNat / 2 % 32,
      b2.toNat % 2 * 16 + b3.toNat / 16, b3.toNat % 16 * 2]
  | [b1, b2] =>
    [b1.toNat / 8, b1.toNat % 8 * 4 + b2.toNat / 64, b2.toNat / 2 % 32, b2.toNat % 2 * 16]
  | [b1] => [b1.toNat / 8, b1.toNat % 8 * 4]
  | [] => []

theorem quintets_lt : ∀ (b : List UInt8), ∀ v ∈ quintets b, v < 32
  | b1 :: b2 :: b3 :: b4 :: b5 :: bs, v, hv => by
    have := b1.toNat_lt
    have := b2.toNat_lt
    have := b3.toNat_lt
    have := b4.toNat_lt
    have := b5.toNat_lt
    simp only [quintets, List.cons_append, List.nil_append, List.mem_cons] at hv
    rcases hv with rfl | rfl | rfl | rfl | rfl | rfl | rfl | rfl | hv
    iterate 8 omega
    exact quintets_lt bs v hv
  | [b1, b2, b3, b4], v, hv => by
    have := b1.toNat_lt
    have := b2.toNat_lt
    have := b3.toNat_lt
    have := b4.toNat_lt
    simp only [quintets, List.mem_cons, List.not_mem_nil, or_false] at hv
    rcases hv with rfl | rfl | rfl | rfl | rfl | rfl | rfl <;> omega
  | [b1, b2, b3], v, hv => by
    have := b1.toNat_lt
    have := b2.toNat_lt
    have := b3.toNat_lt
    simp only [quintets, List.mem_cons, List.not_mem_nil, or_false] at hv
    rcases hv with rfl | rfl | rfl | rfl | rfl <;> omega
  | [b1, b2], v, hv => by
    have := b1.toNat_lt
    have := b2.toNat_lt
    simp only [quintets, List.mem_cons, List.not_mem_nil, or_false] at hv
    rcases hv with rfl | rfl | rfl | rfl <;> omega
  | [b1], v, hv => by
    have := b1.toNat_lt
    simp only [quintets, List.mem_cons, List.not_mem_nil, or_false] at hv
    rcases hv with rfl | rfl <;> omega
  | [], v, hv => by simp [quintets] at hv

/-- A byte string leaves one, three or six quintets in no last group. -/
theorem length_quintets_mod : ∀ (b : List UInt8), (quintets b).length % 8 ≠ 1 ∧
    (quintets b).length % 8 ≠ 3 ∧ (quintets b).length % 8 ≠ 6
  | _ :: _ :: _ :: _ :: _ :: bs => by
    have := length_quintets_mod bs
    simp only [quintets, List.length_append, List.length_cons, List.length_nil]
    omega
  | [_, _, _, _] => by simp [quintets]
  | [_, _, _] => by simp [quintets]
  | [_, _] => by simp [quintets]
  | [_] => by simp [quintets]
  | [] => by simp [quintets]

/-! ### Base32: the encoder -/

theorem foldl_encodeBase32Step_cons₅ (b1 b2 b3 b4 b5 : UInt8) (bs : List UInt8) (l : ℕ)
    (s : List Char) : (b1 :: b2 :: b3 :: b4 :: b5 :: bs).foldl encodeBase32Step ⟨0, l, s⟩ =
      bs.foldl encodeBase32Step ⟨0, (b4.toNat &&& 3) <<< 3,
        s ++ (quintets [b1, b2, b3, b4, b5]).map (charAt pbase32)⟩ := by
  have := b2.toNat_lt
  have := b3.toNat_lt
  have := b4.toNat_lt
  have := b5.toNat_lt
  simp (disch := omega) only [List.foldl_cons, encodeBase32Step, quintets, List.append_nil,
    List.map_cons, List.map_nil, List.append_assoc, List.cons_append, List.nil_append,
    shiftLeft_or_of_lt, Nat.shiftRight_eq_div_pow, Nat.and_one_is_mod, and_three, and_seven,
    and_fifteen, and_thirtyone, Nat.reducePow]

/-- **What `EncodeBase32` writes**, from any state between two groups: the characters of the
quintets, then a `'='` for each quintet missing from the last group of eight. -/
theorem encodeBase32Tail_foldl : ∀ (b : List UInt8) (l : ℕ) (s : List Char),
    encodeBase32Tail (b.foldl encodeBase32Step ⟨0, l, s⟩) =
      s ++ (quintets b).map (charAt pbase32) ++
        List.replicate ((8 - (quintets b).length % 8) % 8) '='
  | b1 :: b2 :: b3 :: b4 :: b5 :: bs, l, s => by
    have hpad : (8 - (quintets (b1 :: b2 :: b3 :: b4 :: b5 :: bs)).length % 8) % 8 =
        (8 - (quintets bs).length % 8) % 8 := by
      simp only [quintets, List.length_append, List.length_cons, List.length_nil]
      omega
    rw [foldl_encodeBase32Step_cons₅, encodeBase32Tail_foldl bs, hpad]
    simp [quintets]
  | [b1, b2, b3, b4], l, s => by
    have := b2.toNat_lt
    have := b3.toNat_lt
    have := b4.toNat_lt
    simp (disch := omega) only [List.foldl_cons, List.foldl_nil, encodeBase32Step,
      shiftLeft_or_of_lt, Nat.shiftRight_eq_div_pow, Nat.and_one_is_mod, and_three, and_seven,
      and_fifteen, and_thirtyone, Nat.reducePow]
    simp [encodeBase32Tail, nPadding, quintets, Nat.shiftLeft_eq]
  | [b1, b2, b3], l, s => by
    have := b2.toNat_lt
    have := b3.toNat_lt
    simp (disch := omega) only [List.foldl_cons, List.foldl_nil, encodeBase32Step,
      shiftLeft_or_of_lt, Nat.shiftRight_eq_div_pow, Nat.and_one_is_mod, and_seven,
      and_fifteen, and_thirtyone, Nat.reducePow]
    simp [encodeBase32Tail, nPadding, quintets, Nat.shiftLeft_eq]
  | [b1, b2], l, s => by
    have := b2.toNat_lt
    simp (disch := omega) only [List.foldl_cons, List.foldl_nil, encodeBase32Step,
      shiftLeft_or_of_lt, Nat.shiftRight_eq_div_pow, Nat.and_one_is_mod, and_seven,
      and_thirtyone, Nat.reducePow]
    simp [encodeBase32Tail, nPadding, quintets, Nat.shiftLeft_eq]
  | [b1], l, s => by
    simp [encodeBase32Tail, encodeBase32Step, nPadding, quintets, Nat.shiftRight_eq_div_pow,
      and_seven, Nat.shiftLeft_eq]
  | [], l, s => by simp [encodeBase32Tail, quintets]

theorem EncodeBase32_eq (b : List UInt8) :
    EncodeBase32 b = (quintets b).map (charAt pbase32) ++
      List.replicate ((8 - (quintets b).length % 8) % 8) '=' := by
  rw [EncodeBase32, encodeBase32Tail_foldl, List.nil_append]

/-! ### Base32: the alphabet -/

theorem decode32_table_charAt : ∀ v < 32, decode32_table (charAt pbase32 v) = v := by
  set_option maxRecDepth 8000 in decide

theorem decode32_table_nul : decode32_table '\x00' = -1 := by decide

/-- Only ASCII characters are in the alphabet. -/
theorem lt_128_of_decode32_table {c : Char} (hc : decode32_table c ≠ -1) : c.toNat < 128 := by
  unfold decode32_table at hc
  split_ifs at hc with h1 h2 h3
  · exact lt_of_le_of_lt h1.2 (by decide)
  · exact lt_of_le_of_lt h2.2 (by decide)
  · exact lt_of_le_of_lt h3.2 (by decide)
  · exact absurd rfl hc

/-- A character of the alphabet, in either case, is the lower-case character of its value. -/
theorem charAt_decode32_table {c : Char} (hc : decode32_table c ≠ -1) :
    charAt pbase32 (decode32_table c).toNat = c.toLower := by
  have key : ∀ n < 128, decode32_table (Char.ofNat n) ≠ -1 →
      charAt pbase32 (decode32_table (Char.ofNat n)).toNat = (Char.ofNat n).toLower := by
    set_option maxRecDepth 8000 in decide
  have := key c.toNat (lt_128_of_decode32_table hc) (by rwa [Char.ofNat_toNat])
  rwa [Char.ofNat_toNat] at this

theorem decode32_table_lt (c : Char) : decode32_table c < 32 := by
  by_cases hc : decode32_table c = -1
  · rw [hc]
    decide
  · have key : ∀ n < 128, decode32_table (Char.ofNat n) < 32 := by decide
    simpa [Char.ofNat_toNat] using key c.toNat (lt_128_of_decode32_table hc)

theorem decode32_table_pad_at (k i : ℕ) :
    decode32_table (charAt (List.replicate k '=') i) = -1 := by
  rcases charAt_replicate_pad k i with h | h <;> rw [h] <;> decide

theorem map_decode32_table_charAt {V : List ℕ} (hV : ∀ v ∈ V, v < 32) :
    (V.map (charAt pbase32)).map (fun c => (decode32_table c).toNat) = V := by
  rw [List.map_map]
  exact (List.map_congr_left fun v hv => by simp [decode32_table_charAt v (hV v hv)]).trans
    (List.map_id V)

/-! ### Base32: the decoder -/

theorem decodeBase32Step_mode (st : DecState) (d : ℕ) (h : st.mode < 8) :
    (decodeBase32Step st d).mode = (st.mode + 1) % 8 := by
  obtain ⟨m, l, o⟩ := st
  obtain rfl | rfl | rfl | rfl | rfl | rfl | rfl | rfl :
      m = 0 ∨ m = 1 ∨ m = 2 ∨ m = 3 ∨ m = 4 ∨ m = 5 ∨ m = 6 ∨ m = 7 := by
    simp only at h
    omega
  all_goals simp [decodeBase32Step]

theorem foldl_decodeBase32Step_cons₈ (v1 v2 v3 v4 v5 v6 v7 v8 : ℕ) (vs : List ℕ) (l : ℕ)
    (out : List UInt8) (h2 : v2 < 32) (h3 : v3 < 32) (h4 : v4 < 32) (h5 : v5 < 32)
    (h6 : v6 < 32) (h7 : v7 < 32) (h8 : v8 < 32) :
    (v1 :: v2 :: v3 :: v4 :: v5 :: v6 :: v7 :: v8 :: vs).foldl decodeBase32Step ⟨0, l, out⟩ =
      vs.foldl decodeBase32Step ⟨0, v7 &&& 7, out ++ [UInt8.ofNat (v1 * 8 + v2 / 4),
        UInt8.ofNat ((v2 % 4 * 32 + v3) * 2 + v4 / 16), UInt8.ofNat (v4 % 16 * 16 + v5 / 2),
        UInt8.ofNat ((v5 % 2 * 32 + v6) * 4 + v7 / 8), UInt8.ofNat (v7 % 8 * 32 + v8)]⟩ := by
  simp (disch := omega) only [List.foldl_cons, decodeBase32Step, shiftLeft_or_of_lt,
    Nat.shiftRight_eq_div_pow, Nat.and_one_is_mod, and_three, and_seven, and_fifteen,
    Nat.reducePow, List.append_assoc, List.cons_append, List.nil_append]

/-- The eight quintets of five bytes decode to the five bytes. -/
theorem foldl_decodeBase32Step_quintets₅ (b1 b2 b3 b4 b5 : UInt8) (vs : List ℕ) (l : ℕ)
    (out : List UInt8) :
    (quintets [b1, b2, b3, b4, b5] ++ vs).foldl decodeBase32Step ⟨0, l, out⟩ =
      vs.foldl decodeBase32Step
        ⟨0, (b4.toNat % 4 * 8 + b5.toNat / 32) &&& 7, out ++ [b1, b2, b3, b4, b5]⟩ := by
  have := b1.toNat_lt
  have := b2.toNat_lt
  have := b3.toNat_lt
  have := b4.toNat_lt
  have := b5.toNat_lt
  simp only [quintets, List.append_nil, List.cons_append, List.nil_append]
  rw [foldl_decodeBase32Step_cons₈ _ _ _ _ _ _ _ _ _ _ _ (by omega) (by omega) (by omega)
    (by omega) (by omega) (by omega) (by omega)]
  congr 3
  simp only [List.cons.injEq, and_true]
  exact ⟨uint8_ofNat_eq (by omega), uint8_ofNat_eq (by omega), uint8_ofNat_eq (by omega),
    uint8_ofNat_eq (by omega), uint8_ofNat_eq (by omega)⟩

/-- **Decoding the quintets of a byte string** appends the bytes; a partial last group leaves
no bits over. -/
theorem foldl_decodeBase32Step_quintets : ∀ (b : List UInt8) (l : ℕ) (out : List UInt8),
    ((quintets b).foldl decodeBase32Step ⟨0, l, out⟩).vchRet = out ++ b ∧
      ((quintets b).length % 8 ≠ 0 →
        ((quintets b).foldl decodeBase32Step ⟨0, l, out⟩).left = 0)
  | b1 :: b2 :: b3 :: b4 :: b5 :: bs, l, out => by
    obtain ⟨ih1, ih2⟩ := foldl_decodeBase32Step_quintets bs
      ((b4.toNat % 4 * 8 + b5.toNat / 32) &&& 7) (out ++ [b1, b2, b3, b4, b5])
    have hq : quintets (b1 :: b2 :: b3 :: b4 :: b5 :: bs) =
        quintets [b1, b2, b3, b4, b5] ++ quintets bs := by
      simp [quintets]
    rw [hq, foldl_decodeBase32Step_quintets₅]
    refine ⟨by rw [ih1, List.append_assoc]; rfl, fun h => ih2 ?_⟩
    simp only [quintets, List.length_append, List.length_cons, List.length_nil] at h
    omega
  | [b1, b2, b3, b4], l, out => by
    have := b1.toNat_lt
    have := b2.toNat_lt
    have := b3.toNat_lt
    have := b4.toNat_lt
    simp (disch := omega) only [quintets, List.foldl_cons, List.foldl_nil, decodeBase32Step,
      shiftLeft_or_of_lt, Nat.shiftRight_eq_div_pow, Nat.and_one_is_mod, and_three, and_seven,
      and_fifteen, Nat.reducePow]
    refine ⟨?_, fun _ => by omega⟩
    simp only [List.append_assoc, List.cons_append, List.nil_append]
    rw [uint8_ofNat_eq (b := b1) (by omega), uint8_ofNat_eq (b := b2) (by omega),
      uint8_ofNat_eq (b := b3) (by omega), uint8_ofNat_eq (b := b4) (by omega)]
  | [b1, b2, b3], l, out => by
    have := b1.toNat_lt
    have := b2.toNat_lt
    have := b3.toNat_lt
    simp (disch := omega) only [quintets, List.foldl_cons, List.foldl_nil, decodeBase32Step,
      shiftLeft_or_of_lt, Nat.shiftRight_eq_div_pow, Nat.and_one_is_mod, and_three,
      and_fifteen, Nat.reducePow]
    refine ⟨?_, fun _ => by omega⟩
    simp only [List.append_assoc, List.cons_append, List.nil_append]
    rw [uint8_ofNat_eq (b := b1) (by omega), uint8_ofNat_eq (b := b2) (by omega),
      uint8_ofNat_eq (b := b3) (by omega)]
  | [b1, b2], l, out => by
    have := b1.toNat_lt
    have := b2.toNat_lt
    simp (disch := omega) only [quintets, List.foldl_cons, List.foldl_nil, decodeBase32Step,
      shiftLeft_or_of_lt, Nat.shiftRight_eq_div_pow, and_three, and_fifteen, Nat.reducePow]
    refine ⟨?_, fun _ => by omega⟩
    simp only [List.append_assoc, List.cons_append, List.nil_append]
    rw [uint8_ofNat_eq (b := b1) (by omega), uint8_ofNat_eq (b := b2) (by omega)]
  | [b1], l, out => by
    have := b1.toNat_lt
    simp (disch := omega) only [quintets, List.foldl_cons, List.foldl_nil, decodeBase32Step,
      shiftLeft_or_of_lt, Nat.shiftRight_eq_div_pow, and_three, Nat.reducePow]
    exact ⟨by rw [uint8_ofNat_eq (b := b1) (by omega)], fun _ => by omega⟩
  | [], l, out => by simp [quintets]

/-- **A decoded text with no bits over is the quintets of the bytes**: decoding values below
`32`, of a count that ends no group in one, three or six, with no bits left over, gives a byte
string whose quintets are those values. -/
theorem quintets_foldl_decodeBase32Step : ∀ (V : List ℕ) (l : ℕ) (out : List UInt8),
    (∀ v ∈ V, v < 32) → V.length % 8 ≠ 1 → V.length % 8 ≠ 3 → V.length % 8 ≠ 6 →
      (V.length % 8 ≠ 0 → (V.foldl decodeBase32Step ⟨0, l, out⟩).left = 0) →
        ∃ out', (V.foldl decodeBase32Step ⟨0, l, out⟩).vchRet = out ++ out' ∧
          quintets out' = V
  | v1 :: v2 :: v3 :: v4 :: v5 :: v6 :: v7 :: v8 :: V, l, out, hV, h1, h3, h6, h0 => by
    have := hV v1 (by simp)
    have := hV v2 (by simp)
    have := hV v3 (by simp)
    have := hV v4 (by simp)
    have := hV v5 (by simp)
    have := hV v6 (by simp)
    have := hV v7 (by simp)
    have := hV v8 (by simp)
    simp only [List.length_cons] at h1 h3 h6 h0
    rw [foldl_decodeBase32Step_cons₈ _ _ _ _ _ _ _ _ _ _ _ (by omega) (by omega) (by omega)
      (by omega) (by omega) (by omega) (by omega)] at h0 ⊢
    obtain ⟨out', hout, hs⟩ := quintets_foldl_decodeBase32Step V _ _
      (fun v hv => hV v (by simp [hv])) (by omega) (by omega) (by omega) (fun h => h0 (by omega))
    refine ⟨_ :: _ :: _ :: _ :: _ :: out', by rw [hout, List.append_assoc]; rfl, ?_⟩
    rw [quintets, hs, toNat_uint8_ofNat (by omega), toNat_uint8_ofNat (by omega),
      toNat_uint8_ofNat (by omega), toNat_uint8_ofNat (by omega), toNat_uint8_ofNat (by omega)]
    simp only [List.cons_append, List.nil_append, List.cons.injEq, and_true]
    exact ⟨by omega, by omega, by omega, by omega, by omega, by omega, by omega, by omega⟩
  | [v1, v2, v3, v4, v5, v6, v7], l, out, hV, _, _, _, h0 => by
    have := hV v1 (by simp)
    have := hV v2 (by simp)
    have := hV v3 (by simp)
    have := hV v4 (by simp)
    have := hV v5 (by simp)
    have := hV v6 (by simp)
    have := hV v7 (by simp)
    have hl := h0 (by simp)
    simp (disch := omega) only [List.foldl_cons, List.foldl_nil, decodeBase32Step,
      shiftLeft_or_of_lt, Nat.shiftRight_eq_div_pow, Nat.and_one_is_mod, and_three, and_seven,
      and_fifteen, Nat.reducePow] at hl ⊢
    simp only [List.append_assoc, List.cons_append, List.nil_append, List.append_cancel_left_eq,
      exists_eq_left', quintets]
    rw [toNat_uint8_ofNat (by omega), toNat_uint8_ofNat (by omega), toNat_uint8_ofNat (by omega),
      toNat_uint8_ofNat (by omega)]
    simp only [List.cons.injEq, and_true]
    exact ⟨by omega, by omega, by omega, by omega, by omega, by omega, by omega⟩
  | [_, _, _, _, _, _], _, _, _, _, _, h6, _ => absurd rfl h6
  | [v1, v2, v3, v4, v5], l, out, hV, _, _, _, h0 => by
    have := hV v1 (by simp)
    have := hV v2 (by simp)
    have := hV v3 (by simp)
    have := hV v4 (by simp)
    have := hV v5 (by simp)
    have hl := h0 (by simp)
    simp (disch := omega) only [List.foldl_cons, List.foldl_nil, decodeBase32Step,
      shiftLeft_or_of_lt, Nat.shiftRight_eq_div_pow, Nat.and_one_is_mod, and_three,
      and_fifteen, Nat.reducePow] at hl ⊢
    simp only [List.append_assoc, List.cons_append, List.nil_append, List.append_cancel_left_eq,
      exists_eq_left', quintets]
    rw [toNat_uint8_ofNat (by omega), toNat_uint8_ofNat (by omega), toNat_uint8_ofNat (by omega)]
    simp only [List.cons.injEq, and_true]
    exact ⟨by omega, by omega, by omega, by omega, by omega⟩
  | [v1, v2, v3, v4], l, out, hV, _, _, _, h0 => by
    have := hV v1 (by simp)
    have := hV v2 (by simp)
    have := hV v3 (by simp)
    have := hV v4 (by simp)
    have hl := h0 (by simp)
    simp (disch := omega) only [List.foldl_cons, List.foldl_nil, decodeBase32Step,
      shiftLeft_or_of_lt, Nat.shiftRight_eq_div_pow, and_three, and_fifteen,
      Nat.reducePow] at hl ⊢
    simp only [List.append_assoc, List.cons_append, List.nil_append, List.append_cancel_left_eq,
      exists_eq_left', quintets]
    rw [toNat_uint8_ofNat (by omega), toNat_uint8_ofNat (by omega)]
    simp only [List.cons.injEq, and_true]
    exact ⟨by omega, by omega, by omega, by omega⟩
  | [_, _, _], _, _, _, _, h3, _, _ => absurd rfl h3
  | [v1, v2], l, out, hV, _, _, _, h0 => by
    have := hV v1 (by simp)
    have := hV v2 (by simp)
    have hl := h0 (by simp)
    simp (disch := omega) only [List.foldl_cons, List.foldl_nil, decodeBase32Step,
      shiftLeft_or_of_lt, Nat.shiftRight_eq_div_pow, and_three, Nat.reducePow] at hl ⊢
    refine ⟨_, rfl, ?_⟩
    simp only [quintets]
    rw [toNat_uint8_ofNat (by omega)]
    simp only [List.cons.injEq, and_true]
    exact ⟨by omega, by omega⟩
  | [_], _, _, _, h1, _, _, _ => absurd rfl h1
  | [], l, out, _, _, _, _, _ => ⟨[], by simp, rfl⟩

/-! ### Base32: the two round trips -/

/-- **Decoding what `EncodeBase32` writes** gives the bytes back, and the text is valid. -/
theorem DecodeBase32_EncodeBase32 (b : List UInt8) :
    DecodeBase32 (EncodeBase32 b) = (b, false) := by
  have hV := quintets_lt b
  have hA : ∀ c ∈ (quintets b).map (charAt pbase32), decode32_table c ≠ -1 := by
    intro c hc
    obtain ⟨v, hv, rfl⟩ := List.mem_map.1 hc
    rw [decode32_table_charAt v (hV v hv)]
    omega
  obtain ⟨hout, hleft⟩ := foldl_decodeBase32Step_quintets b 0 []
  have hmode := foldl_mode decodeBase32Step DecState.mode (decodeBase32Step_mode · ·)
    (quintets b) ⟨0, 0, []⟩ (by decide)
  obtain ⟨h1, h3, h6⟩ := length_quintets_mod b
  unfold DecodeBase32
  rw [EncodeBase32_eq, decodeLoop_append_stop _ _ hA (decode32_table_pad_at _ 0),
    map_decode32_table_charAt hV]
  simp only [hout, List.nil_append, Prod.mk.injEq, true_and]
  simp only [Nat.zero_add] at hmode
  rw [hmode]
  obtain h | h | h | h | h : (quintets b).length % 8 = 0 ∨ (quintets b).length % 8 = 2 ∨
      (quintets b).length % 8 = 4 ∨ (quintets b).length % 8 = 5 ∨
      (quintets b).length % 8 = 7 := by omega
  · rw [h]
    rfl
  all_goals
    rw [h, hleft (by omega)]
    decide

/-- **A valid text with the right padding is what `EncodeBase32` writes, in lower case**:
characters of the alphabet in either case followed by as many `'='` as the last group of eight
lacks, on which `DecodeBase32` reports no error, are the encoding of the bytes it returns with
every letter in lower case. -/
theorem EncodeBase32_DecodeBase32 {A : List Char} (hA : ∀ c ∈ A, decode32_table c ≠ -1)
    (hvalid : (DecodeBase32 (A ++ List.replicate ((8 - A.length % 8) % 8) '=')).2 = false) :
    EncodeBase32 (DecodeBase32 (A ++ List.replicate ((8 - A.length % 8) % 8) '=')).1 =
      A.map Char.toLower ++ List.replicate ((8 - A.length % 8) % 8) '=' := by
  set V := A.map fun c => (decode32_table c).toNat with hVdef
  have hV : ∀ v ∈ V, v < 32 := by
    intro v hv
    obtain ⟨c, -, rfl⟩ := List.mem_map.1 hv
    have := decode32_table_lt c
    omega
  have hlen : V.length = A.length := List.length_map _
  have hmode := foldl_mode decodeBase32Step DecState.mode (decodeBase32Step_mode · ·)
    V ⟨0, 0, []⟩ (by decide)
  simp only [Nat.zero_add] at hmode
  unfold DecodeBase32 at hvalid ⊢
  rw [decodeLoop_append_stop _ _ hA (decode32_table_pad_at _ 0)] at hvalid ⊢
  simp only [← hVdef] at hvalid ⊢
  rw [hmode] at hvalid
  -- the validity check: no group ended in one, three or six characters, and no bits left over
  have hbad : ∀ k, k = 1 ∨ k = 3 ∨ k = 6 → V.length % 8 ≠ k := by
    rintro k (rfl | rfl | rfl) h <;> rw [h] at hvalid <;> simp at hvalid
  have h0 : V.length % 8 ≠ 0 → (V.foldl decodeBase32Step ⟨0, 0, []⟩).left = 0 := by
    intro h0
    obtain h | h | h | h : V.length % 8 = 2 ∨ V.length % 8 = 4 ∨ V.length % 8 = 5 ∨
        V.length % 8 = 7 := by
      have := hbad 1 (by simp)
      have := hbad 3 (by simp)
      have := hbad 6 (by simp)
      omega
    all_goals
      rw [h] at hvalid
      simp at hvalid
      exact hvalid.1
  obtain ⟨out', hout, hs⟩ := quintets_foldl_decodeBase32Step V 0 [] hV (hbad 1 (by simp))
    (hbad 3 (by simp)) (hbad 6 (by simp)) h0
  rw [hout, List.nil_append, EncodeBase32_eq, hs, hlen]
  congr 1
  rw [hVdef, List.map_map]
  exact List.map_congr_left fun c hc => charAt_decode32_table (hA c hc)

theorem base64_base32_round_trip :
    (∀ b : List UInt8, DecodeBase64 (EncodeBase64 b) = (b, false)) ∧
    (∀ b : List UInt8, DecodeBase32 (EncodeBase32 b) = (b, false)) ∧
    (∀ A : List Char, (∀ c ∈ A, decode64_table c ≠ -1) →
      (DecodeBase64 (A ++ List.replicate ((4 - A.length % 4) % 4) '=')).2 = false →
      EncodeBase64 (DecodeBase64 (A ++ List.replicate ((4 - A.length % 4) % 4) '=')).1 =
        A ++ List.replicate ((4 - A.length % 4) % 4) '=') ∧
    ∀ A : List Char, (∀ c ∈ A, decode32_table c ≠ -1) →
      (DecodeBase32 (A ++ List.replicate ((8 - A.length % 8) % 8) '=')).2 = false →
      EncodeBase32 (DecodeBase32 (A ++ List.replicate ((8 - A.length % 8) % 8) '=')).1 =
        A.map Char.toLower ++ List.replicate ((8 - A.length % 8) % 8) '=' :=
  ⟨DecodeBase64_EncodeBase64, DecodeBase32_EncodeBase32,
    fun _ hA hv => EncodeBase64_DecodeBase64 hA hv,
    fun _ hA hv => EncodeBase32_DecodeBase32 hA hv⟩

/-- The round trips at `"QUI="`, the base64 text of `"AB"` with one pad, and at `"IFBA===="`,
its base32 text with four pads. -/
theorem base64_base32_round_trip_padded :
    ((∀ c ∈ ['Q', 'U', 'I'], decode64_table c ≠ -1) ∧
        (DecodeBase64 (['Q', 'U', 'I'] ++
          List.replicate ((4 - ['Q', 'U', 'I'].length % 4) % 4) '=')).2 = false) ∧
      EncodeBase64 (DecodeBase64 (['Q', 'U', 'I'] ++
          List.replicate ((4 - ['Q', 'U', 'I'].length % 4) % 4) '=')).1 =
        ['Q', 'U', 'I'] ++ List.replicate ((4 - ['Q', 'U', 'I'].length % 4) % 4) '=' ∧
      ((∀ c ∈ ['I', 'F', 'B', 'A'], decode32_table c ≠ -1) ∧
        (DecodeBase32 (['I', 'F', 'B', 'A'] ++
          List.replicate ((8 - ['I', 'F', 'B', 'A'].length % 8) % 8) '=')).2 = false) ∧
      EncodeBase32 (DecodeBase32 (['I', 'F', 'B', 'A'] ++
          List.replicate ((8 - ['I', 'F', 'B', 'A'].length % 8) % 8) '=')).1 =
        ['I', 'F', 'B', 'A'].map Char.toLower ++
          List.replicate ((8 - ['I', 'F', 'B', 'A'].length % 8) % 8) '=' := by
  have hA64 : ∀ c ∈ ['Q', 'U', 'I'], decode64_table c ≠ -1 := by
    intro c hc
    simp only [List.mem_cons, List.not_mem_nil, or_false] at hc
    rcases hc with rfl | rfl | rfl <;> decide
  have hA32 : ∀ c ∈ ['I', 'F', 'B', 'A'], decode32_table c ≠ -1 := by
    intro c hc
    simp only [List.mem_cons, List.not_mem_nil, or_false] at hc
    rcases hc with rfl | rfl | rfl | rfl <;> decide
  have hv64 : (DecodeBase64 (['Q', 'U', 'I'] ++
      List.replicate ((4 - ['Q', 'U', 'I'].length % 4) % 4) '=')).2 = false := by decide
  have hv32 : (DecodeBase32 (['I', 'F', 'B', 'A'] ++
      List.replicate ((8 - ['I', 'F', 'B', 'A'].length % 8) % 8) '=')).2 = false := by decide
  exact ⟨⟨hA64, hv64⟩, base64_base32_round_trip.2.2.1 _ hA64 hv64, ⟨hA32, hv32⟩,
    base64_base32_round_trip.2.2.2 _ hA32 hv32⟩

end MvfBu
