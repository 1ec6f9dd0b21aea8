import MvfBu.Primitives.Transaction

set_option autoImplicit false

/-!
# Compressed outputs (`compressor.h`, `compressor.cpp`)

Undo data keeps the outputs it restores compressed. `CTxOutCompressor` writes the amount as the
`VARINT` of `CompressAmount`, which strips trailing decimal zeros, and the script through
`CScriptCompressor`: the three standard forms (pay to a key hash, to a script hash, to a public
key) as a type byte and 20 or 32 bytes, and any other script as the `VARINT` of its length
plus six, then its bytes.

## Main definitions

* `MvfBu.CompressAmount`, `MvfBu.DecompressAmount`.
* `MvfBu.PubKeyCodec` — the two secp256k1 operations the script compressor calls.
* `MvfBu.CScriptCompressor.Compress`, `MvfBu.CScriptCompressor.Decompress`,
  `MvfBu.CScriptCompressor.Serialize`, `MvfBu.CScriptCompressor.Unserialize`.
* `MvfBu.CTxOutCompressor.Serialize`, `MvfBu.CTxOutCompressor.Unserialize`, and the
  `GetSerializeSize` of both compressors.
* `MvfBu.decompressAmountNat` — the amount `DecompressAmount` computes, without the wrap.

## Main results

* `MvfBu.DecompressAmount_CompressAmount` — amounts below `2 ^ 60` come back.
* `MvfBu.CompressAmount_DecompressAmount` — compressed amounts come back when their
  decompression does not wrap; `MvfBu.DecompressAmount_wraps_to_zero` — one that does.
* `MvfBu.CScriptCompressor.run_Unserialize` — scripts come back, when the key codec
  inverts the compression of fully valid keys and the length prefix does not wrap;
  `MvfBu.CScriptCompressor.run_Unserialize_of_length_wraps` — what a script does whose
  prefix wraps.
* `MvfBu.CTxOutCompressor.run_Unserialize` — outputs with an amount in `MoneyRange` come
  back; `MvfBu.txOutCompressor_round_trip` gathers the laws.

## Implementation notes

`CPubKey::IsFullyValid` and `CPubKey::Decompress` are libsecp256k1's; they are the fields of a
`PubKeyCodec`, and the round trip assumes of them only that decompressing the compressed form
of a fully valid key gives the key back (`PubKeyCodec.Sound`).
-/

namespace MvfBu

/-! ## Amounts -/

/-- The loop of `CompressAmount`: while the last digit of `n` is zero and `e < 9`, drop the
digit and count it in `e`; `k` is how many more may be dropped. -/
def compressAmountLoop (n e : ℕ) : ℕ → ℕ × ℕ
  | 0 => (n, e)
  | k + 1 => if n % 10 = 0 then compressAmountLoop (n / 10) (e + 1) k else (n, e)

/-- `CTxOutCompressor::CompressAmount` on `uint64_t`: `0` for `0`; after dropping `e < 9`
trailing zeros, `1 + (9 * n + d - 1) * 10 + e`, with `d` the last digit and `n` the digits
before it; after dropping nine, `1 + (n - 1) * 10 + 9`. Modulo `2 ^ 64`, as the arithmetic
is. -/
def CompressAmount (n : ℕ) : ℕ :=
  if n = 0 then 0
  else
    let r := compressAmountLoop n 0 9
    if r.2 < 9 then
      let d := r.1 % 10
      (1 + (r.1 / 10 * 9 + d - 1) * 10 + r.2) % 2 ^ 64
    else (1 + (r.1 - 1) * 10 + 9) % 2 ^ 64

/-- `CTxOutCompressor::DecompressAmount` on `uint64_t`: the exponent, the last digit and the
digits before it back from `x - 1`; the closing loop `while (e) { n *= 10; e--; }` multiplies
by `10 ^ e`, modulo `2 ^ 64`. -/
def DecompressAmount (x : ℕ) : ℕ :=
  if x = 0 then 0
  else
    let x := x - 1
    let e := x % 10
    let x := x / 10
    let n := if e < 9 then (x / 9 * 10 + (x % 9 + 1)) % 2 ^ 64 else (x + 1) % 2 ^ 64
    n * 10 ^ e % 2 ^ 64

/-- The loop drops `j ≤ k` trailing zeros, and stops before `k` only at a nonzero last
digit. -/
lemma compressAmountLoop_spec : ∀ (k n e : ℕ), ∃ j ≤ k,
    compressAmountLoop n e k = (n / 10 ^ j, e + j) ∧ 10 ^ j ∣ n ∧ (j < k → n / 10 ^ j % 10 ≠ 0)
  | 0, n, e => ⟨0, le_refl _, by simp [compressAmountLoop], by simp, fun h => absurd h (by omega)⟩
  | k + 1, n, e => by
    by_cases h : n % 10 = 0
    · -- a zero dropped, then the loop goes on from `n / 10`
      obtain ⟨j, hj, hloop, hdvd, hstop⟩ := compressAmountLoop_spec k (n / 10) (e + 1)
      have hdiv : n / 10 / 10 ^ j = n / 10 ^ (j + 1) := by
        rw [Nat.div_div_eq_div_mul, ← pow_succ']
      refine ⟨j + 1, by omega, ?_, ?_, ?_⟩
      · rw [compressAmountLoop, if_pos h, hloop, hdiv, Nat.add_right_comm, Nat.add_assoc]
      · have h10 : 10 * (n / 10) = n := Nat.mul_div_cancel' (Nat.dvd_of_mod_eq_zero h)
        rw [pow_succ', ← h10]
        exact Nat.mul_dvd_mul_left 10 hdvd
      · intro hlt
        rw [← hdiv]
        exact hstop (by omega)
    · exact ⟨0, Nat.zero_le _, by rw [compressAmountLoop, if_neg h]; simp, by simp,
        fun _ => by simpa using h⟩

/-- **Amount round trip.** An amount below `2 ^ 60` comes back from its compression, which
fits in 64 bits.

**Proof sketch.** The loop writes `n = q * 10 ^ j`. With fewer than nine zeros dropped, `q`
ends in a digit `d ≠ 0`, and `x - 1 = (9 * (q / 10) + d - 1) * 10 + j` gives back `j`, then
`d` and `q / 10`, by division with remainder; with nine, `x - 1 = (q - 1) * 10 + 9`. Nothing
wraps: the compression is at most `9 * n + 89`. -/
theorem DecompressAmount_CompressAmount {n : ℕ} (hn : n < 2 ^ 60) :
    CompressAmount n < 2 ^ 64 ∧ DecompressAmount (CompressAmount n) = n := by
  have h60 : (2 : ℕ) ^ 60 = 1152921504606846976 := by norm_num
  have h64 : (2 : ℕ) ^ 64 = 18446744073709551616 := by norm_num
  by_cases h0 : n = 0
  · subst h0
    exact ⟨by rw [CompressAmount, if_pos rfl]; omega, rfl⟩
  obtain ⟨j, hj, hloop, hdvd, hstop⟩ := compressAmountLoop_spec 9 n 0
  rw [Nat.zero_add] at hloop
  -- `n` is `q` followed by `j` zeros
  have hqn : n / 10 ^ j * 10 ^ j = n := Nat.div_mul_cancel hdvd
  have hq0 : 0 < n / 10 ^ j := by
    rcases Nat.eq_zero_or_pos (n / 10 ^ j) with hq | hq
    · rw [hq, Nat.zero_mul] at hqn
      omega
    · exact hq
  have hqle : n / 10 ^ j ≤ n := Nat.div_le_self n _
  unfold CompressAmount DecompressAmount
  rw [if_neg h0, hloop]
  dsimp only
  generalize n / 10 ^ j = q at hqn hq0 hqle hstop ⊢
  by_cases hj9 : j < 9
  · have hd : q % 10 ≠ 0 := hstop hj9
    have hx : 1 + (q / 10 * 9 + q % 10 - 1) * 10 + j < 2 ^ 64 := by omega
    rw [if_pos hj9, Nat.mod_eq_of_lt hx, if_neg (by omega)]
    refine ⟨hx, ?_⟩
    have he : (1 + (q / 10 * 9 + q % 10 - 1) * 10 + j - 1) % 10 = j := by omega
    have hy : (1 + (q / 10 * 9 + q % 10 - 1) * 10 + j - 1) / 10 = q / 10 * 9 + q % 10 - 1 := by
      omega
    have hdigit : (q / 10 * 9 + q % 10 - 1) % 9 + 1 = q % 10 := by omega
    have hhead : (q / 10 * 9 + q % 10 - 1) / 9 = q / 10 := by omega
    rw [he, hy, if_pos hj9, hdigit, hhead, Nat.div_add_mod' q 10,
      Nat.mod_eq_of_lt (show q < 2 ^ 64 by omega), hqn, Nat.mod_eq_of_lt (show n < 2 ^ 64 by omega)]
  · -- nine zeros dropped
    have hj9' : j = 9 := by omega
    have hx : 1 + (q - 1) * 10 + 9 < 2 ^ 64 := by omega
    rw [if_neg hj9, Nat.mod_eq_of_lt hx, if_neg (by omega)]
    refine ⟨hx, ?_⟩
    have he : (1 + (q - 1) * 10 + 9 - 1) % 10 = 9 := by omega
    have hy : (1 + (q - 1) * 10 + 9 - 1) / 10 + 1 = q := by omega
    rw [he, if_neg (by omega), hy, Nat.mod_eq_of_lt (show q < 2 ^ 64 by omega), ← hj9', hqn,
      Nat.mod_eq_of_lt (show n < 2 ^ 64 by omega)]

/-- The amount `DecompressAmount` computes, over the unbounded numbers: what it returns when
nothing wraps. -/
def decompressAmountNat (x : ℕ) : ℕ :=
  if x = 0 then 0
  else
    let x := x - 1
    let e := x % 10
    let x := x / 10
    let n := if e < 9 then x / 9 * 10 + (x % 9 + 1) else x + 1
    n * 10 ^ e

/-- `DecompressAmount` is the unbounded amount modulo `2 ^ 64`. -/
lemma DecompressAmount_eq_mod (x : ℕ) : DecompressAmount x = decompressAmountNat x % 2 ^ 64 := by
  unfold DecompressAmount decompressAmountNat
  split_ifs with h0
  · rfl
  · dsimp only
    split_ifs <;> rw [Nat.mod_mul_mod]

/-- The loop drops exactly the `e` zeros appended to `q`, when it may drop `e` and, if it may
drop more, `q` does not end in a zero. -/
lemma compressAmountLoop_mul_pow : ∀ (e k q e0 : ℕ), e ≤ k → (e < k → q % 10 ≠ 0) →
    compressAmountLoop (q * 10 ^ e) e0 k = (q, e0 + e)
  | 0, 0, q, e0, _, _ => by simp [compressAmountLoop]
  | 0, k + 1, q, e0, _, hq => by
    rw [pow_zero, Nat.mul_one, compressAmountLoop, if_neg (hq (Nat.succ_pos k)), Nat.add_zero]
  | e + 1, 0, _, _, hle, _ => absurd hle (by omega)
  | e + 1, k + 1, q, e0, hle, hq => by
    have hmod : q * 10 ^ (e + 1) % 10 = 0 := by
      rw [pow_succ, ← Nat.mul_assoc]
      exact Nat.mul_mod_left _ _
    have hdiv : q * 10 ^ (e + 1) / 10 = q * 10 ^ e := by
      rw [pow_succ, ← Nat.mul_assoc]
      exact Nat.mul_div_cancel _ (by norm_num)
    rw [compressAmountLoop, if_pos hmod, hdiv,
      compressAmountLoop_mul_pow e k q (e0 + 1) (by omega) (fun h => hq (by omega)),
      Nat.add_assoc, Nat.add_comm 1 e]

/-- **Amount round trip from the compressed side.** A compressed amount comes back from
compressing its decompression, when that, computed without wrapping, is below `2 ^ 60`.

**Proof sketch.** The decompression is `q * 10 ^ e` with `e = (x - 1) % 10`: for `e < 9`
the digit `q % 10` is `(x - 1) / 10 % 9 + 1 ≠ 0`, so the loop drops exactly `e` zeros; for
`e = 9` it drops nine, its limit (`compressAmountLoop_mul_pow`). The compression then rebuilds
`x - 1 = 10 * ((x - 1) / 10) + e`. -/
theorem CompressAmount_decompressAmountNat {x : ℕ} (hx : decompressAmountNat x < 2 ^ 60) :
    CompressAmount (decompressAmountNat x) = x := by
  by_cases h0 : x = 0
  · subst h0
    rfl
  have h60 : (2 : ℕ) ^ 60 = 1152921504606846976 := by norm_num
  have h64 : (2 : ℕ) ^ 64 = 18446744073709551616 := by norm_num
  unfold decompressAmountNat at hx ⊢
  rw [if_neg h0] at hx ⊢
  dsimp only at hx ⊢
  -- the decompression is `q * 10 ^ e`, and at least `q`
  generalize he : (x - 1) % 10 = e at hx ⊢
  generalize hy : (x - 1) / 10 = y at hx ⊢
  have hpow : 1 ≤ 10 ^ e := Nat.one_le_pow _ _ (by norm_num)
  by_cases he9 : e < 9
  · rw [if_pos he9] at hx ⊢
    generalize hq : y / 9 * 10 + (y % 9 + 1) = q at hx ⊢
    have hq10 : q % 10 ≠ 0 := by omega
    have hqv : q ≤ q * 10 ^ e := Nat.le_mul_of_pos_right _ hpow
    rw [CompressAmount, if_neg (by omega),
      compressAmountLoop_mul_pow e 9 q 0 (by omega) (fun _ => hq10), Nat.zero_add]
    dsimp only
    rw [if_pos he9]
    have hdigits : q / 10 * 9 + q % 10 - 1 = y := by omega
    rw [hdigits, Nat.mod_eq_of_lt (by omega)]
    omega
  · have he9' : e = 9 := by omega
    rw [if_neg he9] at hx ⊢
    have hqv : y + 1 ≤ (y + 1) * 10 ^ e := Nat.le_mul_of_pos_right _ hpow
    rw [CompressAmount, if_neg (by omega),
      compressAmountLoop_mul_pow e 9 (y + 1) 0 (by omega) (fun h => absurd h (by omega)),
      Nat.zero_add]
    dsimp only
    rw [if_neg he9, Nat.mod_eq_of_lt (by omega)]
    omega

/-- Compressing a decompressed amount gives back the compressed one when the amount did not
wrap. -/
lemma CompressAmount_DecompressAmount {x : ℕ} (hx : decompressAmountNat x < 2 ^ 60) :
    CompressAmount (DecompressAmount x) = x := by
  rw [DecompressAmount_eq_mod, Nat.mod_eq_of_lt (by omega), CompressAmount_decompressAmountNat hx]

/-- A compressed amount whose decompression wraps: `10 * 2 ^ 55` decompresses to
`2 ^ 55 * 10 ^ 9`, a multiple of `2 ^ 64`, so to `0`, which compresses to `0`. -/
theorem DecompressAmount_wraps_to_zero :
    DecompressAmount (10 * 2 ^ 55) = 0 ∧ CompressAmount (DecompressAmount (10 * 2 ^ 55)) ≠ 10 * 2 ^ 55 := by
  decide

/-! ## Scripts -/

/-- The two operations of libsecp256k1 the script compressor calls: `CPubKey::IsFullyValid`
(the bytes are a point of the curve) and `CPubKey::Decompress` (the 65-byte key from a
33-byte compressed one, if it is a point). -/
structure PubKeyCodec where
  IsFullyValid : List UInt8 → Bool
  Decompress : List UInt8 → Option (List UInt8)

/-- What the round trip assumes of the codec: the 65-byte uncompressed key `0x04 x y`, when
fully valid, comes back from its compressed form, `0x02` or `0x03` by the parity of `y`, then
`x`. -/
def PubKeyCodec.Sound (codec : PubKeyCodec) : Prop :=
  ∀ key : List UInt8, key.length = 65 → key.take 1 = [0x04] → codec.IsFullyValid key = true →
    codec.Decompress ((0x02 ||| (key.getD 64 0 &&& 0x01)) :: (key.drop 1).take 32) = some key

namespace CScriptCompressor

variable (codec : PubKeyCodec)

/-- `nSpecialScripts`: the type bytes `0` to `5` of the compressed forms. -/
def nSpecialScripts : ℕ := 6

/-- `IsToKeyID`: the 25-byte script `OP_DUP OP_HASH160 20 <20 bytes> OP_EQUALVERIFY
OP_CHECKSIG` (bytes 0, 1, 2, 23 and 24 checked), and its 20 bytes. -/
def IsToKeyID (script : CScript) : Option (List UInt8) :=
  if script.length = 25 ∧ script.take 3 = [OP_DUP, OP_HASH160, 20] ∧
      script.drop 23 = [OP_EQUALVERIFY, OP_CHECKSIG] then
    some ((script.drop 3).take 20)
  else none

/-- `IsToScriptID`: the 23-byte script `OP_HASH160 20 <20 bytes> OP_EQUAL`, and its 20
bytes. -/
def IsToScriptID (script : CScript) : Option (List UInt8) :=
  if script.length = 23 ∧ script.take 2 = [OP_HASH160, 20] ∧ script.drop 22 = [OP_EQUAL] then
    some ((script.drop 2).take 20)
  else none

/-- `IsToPubKey`: the 35-byte script `33 <compressed key> OP_CHECKSIG`, its key starting with
`0x02` or `0x03`, or the 67-byte script `65 <uncompressed key> OP_CHECKSIG`, its key starting
with `0x04` and fully valid; and the key. -/
def IsToPubKey (script : CScript) : Option (List UInt8) :=
  if script.length = 35 ∧ script.take 1 = [33] ∧ script.drop 34 = [OP_CHECKSIG] ∧
      (script.getD 1 0 = 0x02 ∨ script.getD 1 0 = 0x03) then
    some ((script.drop 1).take 33)
  else if script.length = 67 ∧ script.take 1 = [65] ∧ script.drop 66 = [OP_CHECKSIG] ∧
      script.getD 1 0 = 0x04 then
    -- "if not fully valid, a case that would not be compressible"
    if codec.IsFullyValid ((script.drop 1).take 65) then some ((script.drop 1).take 65) else none
  else none

/-- `Compress`: the type byte and the 20 bytes of a hash, or the first byte of a compressed key
(for an uncompressed one `0x04` or `0x05` by the parity of `y`) and the 32 bytes of `x`. -/
def Compress (script : CScript) : Option (List UInt8) :=
  match IsToKeyID script with
  | some hash => some (0x00 :: hash)
  | none =>
    match IsToScriptID script with
    | some hash => some (0x01 :: hash)
    | none =>
      match IsToPubKey codec script with
      | some pubkey =>
        if pubkey.getD 0 0 = 0x02 ∨ pubkey.getD 0 0 = 0x03 then
          some (pubkey.getD 0 0 :: (pubkey.drop 1).take 32)
        else if pubkey.getD 0 0 = 0x04 then
          some ((0x04 ||| (pubkey.getD 64 0 &&& 0x01)) :: (pubkey.drop 1).take 32)
        else none
      | none => none

/-- `GetSpecialSize`: how many bytes follow the type byte of a compressed form. -/
def GetSpecialSize (nSize : ℕ) : ℕ :=
  if nSize = 0 ∨ nSize = 1 then 20
  else if nSize = 2 ∨ nSize = 3 ∨ nSize = 4 ∨ nSize = 5 then 32
  else 0

/-- `Decompress(nSize, in)`: the script of a compressed form; for an uncompressed key, `none`
(the `false` returned) when the key does not decompress. -/
def Decompress (nSize : ℕ) (bytes : List UInt8) : Option CScript :=
  if nSize = 0x00 then some ([OP_DUP, OP_HASH160, 20] ++ bytes ++ [OP_EQUALVERIFY, OP_CHECKSIG])
  else if nSize = 0x01 then some ([OP_HASH160, 20] ++ bytes ++ [OP_EQUAL])
  else if nSize = 0x02 ∨ nSize = 0x03 then some ([33, UInt8.ofNat nSize] ++ bytes ++ [OP_CHECKSIG])
  else if nSize = 0x04 ∨ nSize = 0x05 then
    match codec.Decompress (UInt8.ofNat (nSize - 2) :: bytes) with
    | some pubkey => some ([65] ++ pubkey ++ [OP_CHECKSIG])
    | none => none
  else none

/-- `Serialize`: the compressed form as it is, or the `VARINT` of the length plus
`nSpecialScripts` (an `unsigned int`) and the bytes. -/
def Serialize (script : CScript) : List UInt8 :=
  match Compress codec script with
  | some compr => compr
  | none => WriteVarInt ((script.length + nSpecialScripts) % 2 ^ 32) ++ script

/-- `Unserialize` into the script `script` (what the output held before, empty for a new one):
after a type byte, its bytes and the decompressed script, `script` itself if it does not
decompress; else as many bytes as the length says. -/
def Unserialize (script : CScript) : Decoder UInt8 CScript := do
  let nSize ← ReadVarInt 32
  if nSize < nSpecialScripts then
    let vch ← Decoder.readN ser_readdata8 (GetSpecialSize nSize)
    pure ((Decompress codec nSize vch).getD script)
  else
    Decoder.readN ser_readdata8 (nSize - nSpecialScripts)

/-! ### Round trip -/

/-- A list split at `a` and, after it, at `b`. -/
lemma eq_take_slice_drop {α : Type} (l : List α) (a b : ℕ) :
    l = l.take a ++ (l.drop a).take b ++ l.drop (a + b) := by
  rw [List.append_assoc, ← List.drop_drop, List.take_append_drop, List.take_append_drop]

/-- The first byte of a list, taken as a list of one. -/
lemma getD_zero_of_take_one {l : List UInt8} {t : UInt8} (h : l.take 1 = [t]) : l.getD 0 0 = t := by
  cases l with
  | nil => cases h
  | cons a l =>
    rw [List.take_succ_cons, List.take_zero, List.cons.injEq] at h
    exact h.1

/-- The byte at index one, taken as a list of one. -/
lemma take_one_drop_one {l : List UInt8} (h : 2 ≤ l.length) : (l.drop 1).take 1 = [l.getD 1 0] := by
  match l, h with
  | _ :: _ :: _, _ => rfl

/-- The low bit of a byte is `0` or `1`. -/
lemma and_one_cases (b : UInt8) : b &&& 0x01 = 0 ∨ b &&& 0x01 = 1 := by
  have hlt : (b &&& 0x01).toNat < 2 := by
    rw [UInt8.toNat_and]
    exact lt_of_le_of_lt Nat.and_le_right (by decide)
  rcases Nat.lt_succ_iff.1 hlt |>.lt_or_eq with h | h
  · exact .inl (UInt8.toNat_inj.1 (by rw [UInt8.toNat_zero]; omega))
  · exact .inr (UInt8.toNat_inj.1 h)

/-- The uncompressed form's type byte is `4` or `5`, and less two it is the compressed key's
first byte. -/
lemma uncompressed_type (b : UInt8) :
    ((0x04 ||| (b &&& 0x01)).toNat = 4 ∨ (0x04 ||| (b &&& 0x01)).toNat = 5) ∧
      UInt8.ofNat ((0x04 ||| (b &&& 0x01)).toNat - 2) = 0x02 ||| (b &&& 0x01) := by
  rcases and_one_cases b with h | h <;> rw [h] <;> decide

/-- The pay-to-key-hash script is rebuilt from its 20 bytes. -/
lemma IsToKeyID_eq_some {script hash : List UInt8} (h : IsToKeyID script = some hash) :
    hash.length = 20 ∧ [OP_DUP, OP_HASH160, 20] ++ hash ++ [OP_EQUALVERIFY, OP_CHECKSIG] = script := by
  unfold IsToKeyID at h
  split_ifs at h with hform
  obtain ⟨hlen, hpre, hpost⟩ := hform
  rw [Option.some.injEq] at h
  subst h
  refine ⟨by simp [hlen], ?_⟩
  rw [← hpre, ← hpost]
  exact (eq_take_slice_drop script 3 20).symm

/-- The pay-to-script-hash script is rebuilt from its 20 bytes. -/
lemma IsToScriptID_eq_some {script hash : List UInt8} (h : IsToScriptID script = some hash) :
    hash.length = 20 ∧ [OP_HASH160, 20] ++ hash ++ [OP_EQUAL] = script := by
  unfold IsToScriptID at h
  split_ifs at h with hform
  obtain ⟨hlen, hpre, hpost⟩ := hform
  rw [Option.some.injEq] at h
  subst h
  refine ⟨by simp [hlen], ?_⟩
  rw [← hpre, ← hpost]
  exact (eq_take_slice_drop script 2 20).symm

/-- The pay-to-public-key script is rebuilt from its key: a compressed one, starting with
`0x02` or `0x03`, or a fully valid uncompressed one, starting with `0x04`. -/
lemma IsToPubKey_eq_some {script key : List UInt8} (h : IsToPubKey codec script = some key) :
    (key.length = 33 ∧ (key.take 1 = [0x02] ∨ key.take 1 = [0x03]) ∧
        [33] ++ key ++ [OP_CHECKSIG] = script) ∨
      (key.length = 65 ∧ key.take 1 = [0x04] ∧ codec.IsFullyValid key = true ∧
        [65] ++ key ++ [OP_CHECKSIG] = script) := by
  unfold IsToPubKey at h
  split_ifs at h with hc hu hvalid
  · obtain ⟨hlen, hpre, hpost, hfirst⟩ := hc
    rw [Option.some.injEq] at h
    subst h
    rw [List.take_take, Nat.min_eq_left (by norm_num), take_one_drop_one (by omega)]
    refine .inl ⟨by simp [hlen], ?_, ?_⟩
    · rcases hfirst with h2 | h3
      · exact .inl (by rw [h2])
      · exact .inr (by rw [h3])
    · rw [← hpre, ← hpost]
      exact (eq_take_slice_drop script 1 33).symm
  · obtain ⟨hlen, hpre, hpost, hfirst⟩ := hu
    rw [Option.some.injEq] at h
    subst h
    refine .inr ⟨by simp [hlen], ?_, hvalid, ?_⟩
    · rw [List.take_take, Nat.min_eq_left (by norm_num), take_one_drop_one (by omega), hfirst]
    · rw [← hpre, ← hpost]
      exact (eq_take_slice_drop script 1 65).symm

/-- A key is its first byte and the rest. -/
lemma eq_cons_of_take_one {key : List UInt8} {t : UInt8} (h : key.take 1 = [t]) :
    key = t :: key.drop 1 := by
  cases key with
  | nil => cases h
  | cons a key =>
    rw [List.take_succ_cons, List.take_zero, List.cons.injEq] at h
    rw [h.1, List.drop_one, List.tail_cons]

/-- **Compressed forms decompress.** A compressed form is a type byte `nSize` below
`nSpecialScripts` and `GetSpecialSize nSize` bytes, which decompress to the script, for a
sound codec.

**Proof sketch.** One case per form, each script rebuilt from the bytes kept
(`IsToKeyID_eq_some`, `IsToScriptID_eq_some`, `IsToPubKey_eq_some`); for an uncompressed key,
the codec's soundness gives the key back from its compressed form. -/
theorem Decompress_Compress (hcodec : codec.Sound) {script compr : List UInt8}
    (h : Compress codec script = some compr) :
    ∃ nSize body, compr = UInt8.ofNat nSize :: body ∧ nSize < nSpecialScripts ∧
      body.length = GetSpecialSize nSize ∧ Decompress codec nSize body = some script := by
  unfold Compress at h
  cases hkey : IsToKeyID script with
  | some hash =>
    -- pay to a key hash
    rw [hkey, Option.some.injEq] at h
    obtain ⟨hlen, hscript⟩ := IsToKeyID_eq_some hkey
    exact ⟨0, hash, h.symm, by decide, hlen, by rw [Decompress, if_pos rfl, hscript]⟩
  | none =>
    rw [hkey] at h
    cases hsh : IsToScriptID script with
    | some hash =>
      -- pay to a script hash
      rw [hsh, Option.some.injEq] at h
      obtain ⟨hlen, hscript⟩ := IsToScriptID_eq_some hsh
      exact ⟨1, hash, h.symm, by decide, hlen, by
        rw [Decompress, if_neg (by decide), if_pos rfl, hscript]⟩
    | none =>
      rw [hsh] at h
      cases hpk : IsToPubKey codec script with
      | none => rw [hpk] at h; cases h
      | some key =>
        rw [hpk] at h
        dsimp only at h
        rcases IsToPubKey_eq_some codec hpk with ⟨hlen, hfirst, hscript⟩ | ⟨hlen, hfirst, hvalid, hscript⟩
        · -- a compressed key: its first byte is the type
          obtain ⟨t, ht, ht23⟩ : ∃ t : UInt8, key.take 1 = [t] ∧ (t = 0x02 ∨ t = 0x03) := by
            rcases hfirst with h2 | h3
            · exact ⟨0x02, h2, .inl rfl⟩
            · exact ⟨0x03, h3, .inr rfl⟩
          have htype : t.toNat = 2 ∨ t.toNat = 3 := by
            rcases ht23 with rfl | rfl
            · exact .inl rfl
            · exact .inr rfl
          have hbody : (key.drop 1).take 32 = key.drop 1 := List.take_of_length_le (by simp [hlen])
          rw [getD_zero_of_take_one ht, if_pos ht23, Option.some.injEq, hbody] at h
          refine ⟨t.toNat, key.drop 1, by rw [UInt8.ofNat_toNat]; exact h.symm,
            by unfold nSpecialScripts; omega, ?_, ?_⟩
          · rw [GetSpecialSize, if_neg (by omega), if_pos (by omega)]
            simp [hlen]
          · rw [Decompress, if_neg (by omega), if_neg (by omega), if_pos htype, UInt8.ofNat_toNat,
              ← hscript, eq_cons_of_take_one ht]
            rfl
        · -- an uncompressed key: `0x04` or `0x05` by the parity of `y`, and the codec
          have h4 : key.getD 0 0 = 0x04 := getD_zero_of_take_one hfirst
          rw [h4, if_neg (by decide), if_pos rfl, Option.some.injEq] at h
          obtain ⟨htype, hsub⟩ := uncompressed_type (key.getD 64 0)
          refine ⟨(0x04 ||| (key.getD 64 0 &&& 0x01)).toNat, (key.drop 1).take 32,
            by rw [UInt8.ofNat_toNat]; exact h.symm, by unfold nSpecialScripts; omega, ?_, ?_⟩
          · rw [GetSpecialSize, if_neg (by omega), if_pos (by omega)]
            simp [hlen]
          · rw [Decompress, if_neg (by omega), if_neg (by omega), if_neg (by omega),
              if_pos htype, hsub, hcodec key hlen hfirst hvalid, ← hscript]

/-- `GetSerializeSize`, an `unsigned int`: the compressed form's length, or the script's
length and that of the `VARINT` of its length plus `nSpecialScripts`. -/
def GetSerializeSize (script : CScript) : ℕ :=
  match Compress codec script with
  | some compr => compr.length % 2 ^ 32
  | none => (script.length + GetSizeOfVarInt ((script.length + nSpecialScripts) % 2 ^ 32)) % 2 ^ 32

/-- `GetSerializeSize` is the number of bytes `Serialize` writes, as an `unsigned int`. -/
lemma GetSerializeSize_eq (script : CScript) :
    GetSerializeSize codec script = (Serialize codec script).length % 2 ^ 32 := by
  unfold Serialize GetSerializeSize
  cases Compress codec script with
  | some compr => rfl
  | none => rw [List.length_append, length_WriteVarInt, Nat.add_comm]

/-- **Script round trip.** Every script whose length plus `nSpecialScripts` fits an
`unsigned int` comes back, whatever the script read into held, for a sound codec.

**Proof sketch.** A compressed form is its type byte, a one-byte `VARINT` below
`nSpecialScripts`, and `GetSpecialSize` bytes, which decompress to the script
(`Decompress_Compress`); any other script is read back as the length says. -/
theorem run_Unserialize (hcodec : codec.Sound) (script0 : CScript) {script : CScript}
    (hlen : script.length + nSpecialScripts < 2 ^ 32) (rest : List UInt8) :
    (Unserialize codec script0).run (Serialize codec script ++ rest) = .ok (script, rest) := by
  unfold Serialize
  cases hc : Compress codec script with
  | some compr =>
    -- a compressed form: its type byte, then its bytes
    obtain ⟨nSize, body, rfl, hlt, hbody, hdec⟩ := Decompress_Compress codec hcodec hc
    have htype : WriteVarInt nSize = [UInt8.ofNat nSize] :=
      WriteVarInt_of_le (by unfold nSpecialScripts at hlt; omega)
    have hread : (ReadVarInt 32).run (UInt8.ofNat nSize :: (body ++ rest)) = .ok (nSize, body ++ rest) := by
      have := run_ReadVarInt (show nSize < 2 ^ 32 by unfold nSpecialScripts at hlt; omega) (body ++ rest)
      rwa [htype, List.singleton_append] at this
    have hbytes : (Decoder.readN ser_readdata8 body.length).run (body ++ rest) = .ok (body, rest) :=
      Decoder.run_readN_next endOfFile body rest
    rw [hbody] at hbytes
    rw [List.cons_append, Unserialize, Decoder.run_bind_of_run hread, if_pos hlt]
    rw [Decoder.run_bind_of_run hbytes, hdec]
    rfl
  | none =>
    -- the length plus `nSpecialScripts`, then the script
    have hread := run_ReadVarInt (show (script.length + nSpecialScripts) % 2 ^ 32 < 2 ^ 32 from
      Nat.mod_lt _ (by norm_num)) (script ++ rest)
    have hbytes : (Decoder.readN ser_readdata8 script.length).run (script ++ rest) =
        .ok (script, rest) := Decoder.run_readN_next endOfFile script rest
    rw [List.append_assoc, Unserialize, Decoder.run_bind_of_run hread, Nat.mod_eq_of_lt hlen,
      if_neg (by omega), Nat.add_sub_cancel]
    exact hbytes

/-- No compressed form has `2 ^ 32 - nSpecialScripts` bytes. -/
lemma Compress_of_length_wraps {script : CScript} (hlen : script.length = 2 ^ 32 - nSpecialScripts) :
    Compress codec script = none := by
  have h6 : nSpecialScripts = 6 := rfl
  have hkey : IsToKeyID script = none := by
    rw [IsToKeyID, if_neg (by omega)]
  have hsh : IsToScriptID script = none := by
    rw [IsToScriptID, if_neg (by omega)]
  have hpk : IsToPubKey codec script = none := by
    rw [IsToPubKey, if_neg (by omega), if_neg (by omega)]
  rw [Compress, hkey, hsh, hpk]

/-- **Scripts too long for the length prefix.** A script of `2 ^ 32 - nSpecialScripts` bytes
is written behind the `VARINT` of `0`, the wrapped `unsigned int` of its length plus
`nSpecialScripts`, and read back as the pay-to-key-hash script of its first 20 bytes. -/
lemma run_Unserialize_of_length_wraps {script : CScript}
    (hlen : script.length = 2 ^ 32 - nSpecialScripts) (script0 : CScript) (rest : List UInt8) :
    (Unserialize codec script0).run (Serialize codec script ++ rest) =
      .ok ([OP_DUP, OP_HASH160, 20] ++ script.take 20 ++ [OP_EQUALVERIFY, OP_CHECKSIG],
        script.drop 20 ++ rest) := by
  have h6 : nSpecialScripts = 6 := rfl
  have hzero : (script.length + nSpecialScripts) % 2 ^ 32 = 0 := by
    rw [hlen, h6]
    rfl
  have hread := run_ReadVarInt (show 0 < 2 ^ 32 by norm_num) (script ++ rest)
  have hbytes : (Decoder.readN ser_readdata8 (script.take 20).length).run
      (script.take 20 ++ (script.drop 20 ++ rest)) = .ok (script.take 20, script.drop 20 ++ rest) :=
    Decoder.run_readN_next endOfFile _ _
  rw [← List.append_assoc, List.take_append_drop, List.length_take,
    Nat.min_eq_left (by omega)] at hbytes
  have hspecial : GetSpecialSize 0 = 20 := rfl
  rw [Serialize, Compress_of_length_wraps codec hlen, hzero, List.append_assoc, Unserialize,
    Decoder.run_bind_of_run hread, if_pos (by rw [h6]; norm_num)]
  rw [hspecial, Decoder.run_bind_of_run hbytes]
  rfl

end CScriptCompressor

/-! ## Outputs -/

namespace CTxOutCompressor

variable (codec : PubKeyCodec)

/-- `SerializationOp` writing: the `VARINT` of `CompressAmount` of the amount taken as a
`uint64_t`, then the script through `CScriptCompressor`. -/
def Serialize (txout : CTxOut) : List UInt8 :=
  WriteVarInt (CompressAmount txout.nValue.toUInt64.toNat) ++
    CScriptCompressor.Serialize codec txout.scriptPubKey

/-- `SerializationOp` reading into `txout`: a `uint64_t` `VARINT`, decompressed and assigned to
the `int64_t` amount, then the script, read into the output's script. -/
def Unserialize (txout : CTxOut) : Decoder UInt8 CTxOut := do
  let nVal ← ReadVarInt 64
  let scriptPubKey ← CScriptCompressor.Unserialize codec txout.scriptPubKey
  pure ⟨(UInt64.ofNat (DecompressAmount nVal)).toInt64, scriptPubKey⟩

/-- The `GetSerializeSize` of `ADD_SERIALIZE_METHODS`, a `size_t`: the `CSizeComputer` counts
what `SerializationOp` writes, the `VARINT` of the compressed amount and the bytes
`CScriptCompressor::Serialize` writes. -/
def GetSerializeSize (txout : CTxOut) : ℕ :=
  GetSizeOfVarInt (CompressAmount txout.nValue.toUInt64.toNat) +
    (CScriptCompressor.Serialize codec txout.scriptPubKey).length

/-- `Serialize` writes as many bytes as `GetSerializeSize` says. -/
lemma length_Serialize (txout : CTxOut) :
    (Serialize codec txout).length = GetSerializeSize codec txout := by
  rw [Serialize, GetSerializeSize, List.length_append, length_WriteVarInt]

/-- An amount in `MoneyRange`, taken as a `uint64_t`, is itself, and below `2 ^ 60`. -/
lemma toUInt64_toNat_of_moneyRange {nValue : CAmount} (hv : MoneyRange nValue.toInt = true) :
    (nValue.toUInt64.toNat : ℤ) = nValue.toInt ∧ nValue.toUInt64.toNat < 2 ^ 60 := by
  have hMAX : MAX_MONEY = 2100000000000000 := rfl
  simp only [MoneyRange, Bool.and_eq_true, decide_eq_true_eq] at hv
  have hpos : 0 ≤ nValue := Int64.le_iff_toInt_le.2 (by simpa using hv.1)
  have heq : (nValue.toUInt64.toNat : ℤ) = nValue.toInt := by
    rw [Int64.toNat_toUInt64_of_le hpos, Int64.toInt_eq_toNatClampNeg hpos]
  exact ⟨heq, by omega⟩

/-- **Output round trip.** An output with an amount in `MoneyRange` and a script whose length
plus `nSpecialScripts` fits an `unsigned int` comes back, whatever the output read into held,
for a sound codec.

**Proof sketch.** The amount is below `2 ^ 60`, so its compression fits a `uint64_t` and
decompresses to it (`DecompressAmount_CompressAmount`); the script comes back
(`CScriptCompressor.run_Unserialize`). -/
theorem run_Unserialize (hcodec : codec.Sound) (txout0 : CTxOut) {txout : CTxOut}
    (hv : MoneyRange txout.nValue.toInt = true)
    (hs : txout.scriptPubKey.length + CScriptCompressor.nSpecialScripts < 2 ^ 32)
    (rest : List UInt8) :
    (Unserialize codec txout0).run (Serialize codec txout ++ rest) = .ok (txout, rest) := by
  obtain ⟨-, hlt⟩ := toUInt64_toNat_of_moneyRange hv
  obtain ⟨hfit, hback⟩ := DecompressAmount_CompressAmount hlt
  rw [Serialize, List.append_assoc, Unserialize, Decoder.run_bind_of_run (run_ReadVarInt hfit _),
    Decoder.run_bind_of_run (CScriptCompressor.run_Unserialize codec hcodec _ hs rest),
    Decoder.run_pure, hback, UInt64.ofNat_toNat, Int64.toInt64_toUInt64]

end CTxOutCompressor

/-- A codec that takes no uncompressed key for fully valid: sound, since it has nothing to
give back. -/
def PubKeyCodec.rejectAll : PubKeyCodec := ⟨fun _ => false, fun _ => none⟩

lemma PubKeyCodec.rejectAll_sound : PubKeyCodec.rejectAll.Sound := by
  intro key _ _ hvalid
  cases hvalid

/-- **Compressed outputs round trip.** For a sound codec: an output with an amount in
`MoneyRange` and a script whose length plus `nSpecialScripts` fits an `unsigned int` reads
back from the bytes `CTxOutCompressor` writes, which consume exactly `GetSerializeSize` bytes;
amounts up to `MAX_MONEY` come back from their compression; a compressed amount whose
decompression, without wrapping, is at most `MAX_MONEY` comes back from compressing it; and
every such script comes back through `CScriptCompressor`. -/
theorem txOutCompressor_round_trip {codec : PubKeyCodec} (hcodec : codec.Sound) :
    (∀ (txout0 txout : CTxOut) (rest : List UInt8), MoneyRange txout.nValue.toInt = true →
      txout.scriptPubKey.length + CScriptCompressor.nSpecialScripts < 2 ^ 32 →
        (CTxOutCompressor.Unserialize codec txout0).run
            (CTxOutCompressor.Serialize codec txout ++ rest) = .ok (txout, rest) ∧
          (CTxOutCompressor.Serialize codec txout).length =
            CTxOutCompressor.GetSerializeSize codec txout) ∧
    (∀ n : ℕ, (n : ℤ) ≤ MAX_MONEY → DecompressAmount (CompressAmount n) = n) ∧
    (∀ x : ℕ, (decompressAmountNat x : ℤ) ≤ MAX_MONEY → CompressAmount (DecompressAmount x) = x) ∧
    (∀ (script0 script : CScript) (rest : List UInt8),
      script.length + CScriptCompressor.nSpecialScripts < 2 ^ 32 →
        (CScriptCompressor.Unserialize codec script0).run
          (CScriptCompressor.Serialize codec script ++ rest) = .ok (script, rest)) := by
  have hMAX : MAX_MONEY = 2100000000000000 := rfl
  refine ⟨fun txout0 txout rest hv hs => ?_, fun n hn => ?_, fun x hx => ?_,
    fun script0 script rest hs => CScriptCompressor.run_Unserialize codec hcodec script0 hs rest⟩
  · exact ⟨CTxOutCompressor.run_Unserialize codec hcodec txout0 hv hs rest,
      CTxOutCompressor.length_Serialize codec txout⟩
  · exact (DecompressAmount_CompressAmount (by omega)).2
  · exact CompressAmount_DecompressAmount (by omega)

/-- The round trip at the codec that takes no uncompressed key. -/
theorem txOutCompressor_round_trip_rejectAll :
    PubKeyCodec.rejectAll.Sound ∧
      (CTxOutCompressor.Unserialize PubKeyCodec.rejectAll ⟨0, []⟩).run
        (CTxOutCompressor.Serialize PubKeyCodec.rejectAll ⟨5000000000, [OP_DUP]⟩) =
          .ok (⟨5000000000, [OP_DUP]⟩, []) :=
  ⟨PubKeyCodec.rejectAll_sound,
    by simpa using ((txOutCompressor_round_trip PubKeyCodec.rejectAll_sound).1 ⟨0, []⟩
      ⟨5000000000, [OP_DUP]⟩ [] (by decide) (by decide)).1⟩

end MvfBu
