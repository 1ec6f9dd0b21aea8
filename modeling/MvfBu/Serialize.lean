import Mathlib.Tactic.Ring
import Mathlib.Data.List.Basic
import Mathlib.Data.Nat.Bitwise
import MvfBu.Lib.Decode
import MvfBu.Lib.IntConv

set_option autoImplicit false

/-!
# Serialization primitives (`serialize.h`)

The byte strings the serializer writes: fixed-width integers little-endian
(`ser_writedata8/16/32/64`), the variable-length `CompactSize` prefix, byte vectors as
their `CompactSize` length followed by the bytes, and the `VARINT` encoding, MSB-first base
128 with one subtracted from every digit but the last so that each number has one encoding.
A stream is a `List UInt8`; reading back is a `Decoder`.

## Main definitions

* `MvfBu.writeLE`, `MvfBu.readLE` — `w` little-endian bytes of a number, and back.
* `MvfBu.WriteCompactSize`, `MvfBu.GetSizeOfCompactSize`, `MvfBu.ReadCompactSize`.
* `MvfBu.serUInt32`, `MvfBu.serInt32`, `MvfBu.serInt64`, `MvfBu.serBytes`.
* `MvfBu.WriteVarInt`, `MvfBu.ReadVarInt`, `MvfBu.GetSizeOfVarInt` — `VARINT` of an unsigned
  type of `w` bits, and `MvfBu.WriteVarIntSigned`, `MvfBu.ReadVarIntSigned` for an `int`.
* `MvfBu.readVarIntNat` — the format over the unbounded numbers, as its comment states it.

## Main results

* `MvfBu.readLE_writeLE` — reading back `w` written bytes gives the number modulo `256 ^ w`.
* `MvfBu.writeLE_injOn` — numbers below `256 ^ w` have distinct encodings.
* `MvfBu.run_ReadCompactSize` — a size up to `MAX_SIZE` reads back.
* `MvfBu.ReadCompactSize_eq_ok`, `MvfBu.compactSize_canonical` — whatever `ReadCompactSize`
  accepts is the `CompactSize` of the size it returns.
* `MvfBu.run_ReadVarInt`, `MvfBu.run_ReadVarIntSigned` — `VARINT` round trips, for values
  that fit the type and, for an `int`, are not negative.
* `MvfBu.ReadVarIntLoop_eq_readVarIntNat` — the reader of a `w`-bit type computes the
  format's value modulo `2 ^ w`.
* `MvfBu.eq_WriteVarInt_of_readVarIntNat`, `MvfBu.ReadVarInt_consumed` — over the unbounded
  numbers each number has one encoding; a fixed-width reader consumes the encoding of a
  number congruent to what it returns.
* `MvfBu.ReadVarInt_accepts_wrapped_encoding` — and that number need not be what it returns:
  the encoding of `2 ^ w` reads as `0`.
-/

namespace MvfBu

/-- `w` bytes of `n`, least significant first (`ser_writedata8/16/32/64` for `w = 1, 2, 4, 8`). -/
def writeLE : ℕ → ℕ → List UInt8
  | 0, _ => []
  | w + 1, n => UInt8.ofNat (n % 256) :: writeLE w (n / 256)

/-- The number a little-endian byte string denotes (`ser_readdata16/32/64`). -/
def readLE : List UInt8 → ℕ
  | [] => 0
  | b :: bs => b.toNat + 256 * readLE bs

@[simp] lemma length_writeLE (w n : ℕ) : (writeLE w n).length = w := by
  induction w generalizing n with
  | zero => rfl
  | succ w ih => simp [writeLE, ih]

/-- **Little-endian round trip.** Reading back the `w` bytes written for `n` gives `n`
modulo `256 ^ w`.

**Proof sketch.** Induction on `w`: the first byte is `n % 256` and the rest encodes
`n / 256`, and `n % 256 + 256 * (n / 256 % 256 ^ w) = n % 256 ^ (w + 1)`. -/
lemma readLE_writeLE : ∀ (w n : ℕ), readLE (writeLE w n) = n % 256 ^ w
  | 0, n => by simp [writeLE, readLE, Nat.mod_one]
  | w + 1, n => by
    have ih := readLE_writeLE w (n / 256)
    have hbyte : (UInt8.ofNat (n % 256)).toNat = n % 256 := by simp
    simp only [writeLE, readLE, ih, hbyte]
    rw [pow_succ, Nat.mul_comm (256 ^ w) 256, Nat.mod_mul]

/-- Numbers below `256 ^ w` have distinct `w`-byte encodings. -/
lemma writeLE_injOn {w m n : ℕ} (hm : m < 256 ^ w) (hn : n < 256 ^ w)
    (h : writeLE w m = writeLE w n) : m = n := by
  have := congrArg readLE h
  rwa [readLE_writeLE, readLE_writeLE, Nat.mod_eq_of_lt hm, Nat.mod_eq_of_lt hn] at this

/-- `GetSizeOfCompactSize`. -/
def GetSizeOfCompactSize (nSize : ℕ) : ℕ :=
  if nSize < 253 then 1
  else if nSize ≤ 0xffff then 3
  else if nSize ≤ 0xffffffff then 5
  else 9

/-- `WriteCompactSize`: one byte below 253, else a marker byte and 2, 4 or 8 bytes. -/
def WriteCompactSize (nSize : ℕ) : List UInt8 :=
  if nSize < 253 then writeLE 1 nSize
  else if nSize ≤ 0xffff then 253 :: writeLE 2 nSize
  else if nSize ≤ 0xffffffff then 254 :: writeLE 4 nSize
  else 255 :: writeLE 8 nSize

/-- `CompactSize` writes as many bytes as `GetSizeOfCompactSize` says. -/
lemma length_WriteCompactSize (nSize : ℕ) :
    (WriteCompactSize nSize).length = GetSizeOfCompactSize nSize := by
  unfold WriteCompactSize GetSizeOfCompactSize
  split_ifs <;> simp

/-- A `uint32_t`, four bytes. -/
def serUInt32 (x : UInt32) : List UInt8 := writeLE 4 x.toNat

/-- An `int32_t`, the four bytes of its two's complement. -/
def serInt32 (x : Int32) : List UInt8 := writeLE 4 x.toUInt32.toNat

/-- An `int64_t`, the eight bytes of its two's complement. -/
def serInt64 (x : Int64) : List UInt8 := writeLE 8 x.toUInt64.toNat

/-- A `std::vector<unsigned char>` or `prevector` of bytes: its `CompactSize` length, then
the bytes. -/
def serBytes (v : List UInt8) : List UInt8 := WriteCompactSize v.length ++ v

@[simp] lemma length_serUInt32 (x : UInt32) : (serUInt32 x).length = 4 := by simp [serUInt32]

/-- Distinct 32-bit words serialize differently. -/
lemma serUInt32_injective : Function.Injective serUInt32 := by
  intro x y h
  apply UInt32.toNat_inj.1
  exact writeLE_injOn (by simpa using x.toNat_lt) (by simpa using y.toNat_lt) h

/-! ## Reading back -/

/-- What a read past the end of a `CAutoFile` throws (undo data is read from one). -/
def endOfFile : String := "CAutoFile::read: end of file"

/-- `ser_readdata8`: one byte. -/
def ser_readdata8 : Decoder UInt8 UInt8 := Decoder.next endOfFile

/-- `ser_readdata16/32/64`: a number from `w` bytes, little-endian. -/
def readLEData (w : ℕ) : Decoder UInt8 ℕ := do
  let bytes ← Decoder.readN ser_readdata8 w
  pure (readLE bytes)

/-- `w` bytes written read back as the number modulo `256 ^ w`. -/
lemma run_readLEData (w n : ℕ) (rest : List UInt8) :
    (readLEData w).run (writeLE w n ++ rest) = .ok (n % 256 ^ w, rest) := by
  have hbytes : (Decoder.readN ser_readdata8 (writeLE w n).length).run (writeLE w n ++ rest) =
      .ok (writeLE w n, rest) := Decoder.run_readN_next endOfFile _ _
  rw [length_writeLE] at hbytes
  rw [readLEData, Decoder.run_bind_of_run hbytes, Decoder.run_pure, readLE_writeLE]

/-- `MAX_SIZE`: the largest size `ReadCompactSize` accepts. -/
def MAX_SIZE : ℕ := 0x02000000 * 8

/-- The size `ReadCompactSize` reads after its first byte `chSize`: the byte itself below
253, else two, four or eight bytes, rejected when they would fit in fewer. -/
def compactSizeRet (chSize : UInt8) : Decoder UInt8 ℕ :=
  if chSize.toNat < 253 then pure chSize.toNat
  else if chSize.toNat = 253 then do
    let n ← readLEData 2
    if n < 253 then throw "non-canonical ReadCompactSize()" else pure n
  else if chSize.toNat = 254 then do
    let n ← readLEData 4
    if n < 0x10000 then throw "non-canonical ReadCompactSize()" else pure n
  else do
    let n ← readLEData 8
    if n < 0x100000000 then throw "non-canonical ReadCompactSize()" else pure n

/-- `ReadCompactSize`: a size, rejected above `MAX_SIZE`. -/
def ReadCompactSize : Decoder UInt8 ℕ := do
  let chSize ← ser_readdata8
  let nSizeRet ← compactSizeRet chSize
  if nSizeRet > MAX_SIZE then throw "ReadCompactSize(): size too large" else pure nSizeRet

@[simp] lemma run_ser_readdata8 (b : UInt8) (s : List UInt8) :
    ser_readdata8.run (b :: s) = .ok (b, s) := rfl

/-- A size written in the fewest bytes is read back after its first byte. -/
lemma run_compactSizeRet (n : ℕ) (hn : n ≤ 0xffffffff) (rest : List UInt8) :
    ∃ b tail, WriteCompactSize n = b :: tail ∧ (compactSizeRet b).run (tail ++ rest) = .ok (n, rest) := by
  unfold WriteCompactSize
  by_cases h1 : n < 253
  · -- one byte
    refine ⟨UInt8.ofNat (n % 256), [], by rw [if_pos h1]; rfl, ?_⟩
    have hbyte : (UInt8.ofNat (n % 256)).toNat = n := by
      rw [UInt8.toNat_ofNat', Nat.mod_mod_of_dvd _ (by norm_num)]
      omega
    rw [compactSizeRet, hbyte, if_pos h1]
    rfl
  · have h253 : (253 : UInt8).toNat = 253 := rfl
    have h254 : (254 : UInt8).toNat = 254 := rfl
    by_cases h2 : n ≤ 0xffff
    · -- the marker 253 and two bytes
      refine ⟨253, writeLE 2 n, by rw [if_neg h1, if_pos h2], ?_⟩
      have hread := run_readLEData 2 n rest
      rw [Nat.mod_eq_of_lt (by omega)] at hread
      rw [compactSizeRet, h253, if_neg (by omega), if_pos rfl, Decoder.run_bind_of_run hread]
      rw [if_neg (by omega)]
      rfl
    · -- the marker 254 and four bytes
      refine ⟨254, writeLE 4 n, by rw [if_neg h1, if_neg h2, if_pos hn], ?_⟩
      have hread := run_readLEData 4 n rest
      rw [Nat.mod_eq_of_lt (by omega)] at hread
      rw [compactSizeRet, h254, if_neg (by omega), if_neg (by omega), if_pos rfl,
        Decoder.run_bind_of_run hread]
      rw [if_neg (by omega)]
      rfl

/-- **`CompactSize` round trip.** A size up to `MAX_SIZE` reads back.

**Proof sketch.** A size up to `MAX_SIZE` is below `2 ^ 32`, so it is written in one, three
or five bytes, which read back the size (`run_compactSizeRet`); it passes the last check. -/
lemma run_ReadCompactSize (n : ℕ) (hn : n ≤ MAX_SIZE) (rest : List UInt8) :
    ReadCompactSize.run (WriteCompactSize n ++ rest) = .ok (n, rest) := by
  have hmax : MAX_SIZE = 268435456 := rfl
  obtain ⟨b, tail, hwrite, hret⟩ := run_compactSizeRet n (by omega) rest
  rw [hwrite, List.cons_append, ReadCompactSize, Decoder.run_bind_of_run (run_ser_readdata8 _ _),
    Decoder.run_bind_of_run hret, if_neg (by omega)]
  rfl

/-! ## `VARINT` -/

/-- The loop of `WriteVarInt`. Each round fills `tmp[len]` with the low seven bits of `n`, the
high bit set except in `tmp[0]`, and goes on with `(n >> 7) - 1` while `n` is above `0x7F`;
the bytes are then written from `tmp[len]` down to `tmp[0]`. `acc` holds the bytes filled so
far, the last filled first, so it is what is written; `fuel` bounds the rounds. -/
def WriteVarIntLoop : ℕ → ℕ → List UInt8 → List UInt8
  | 0, _, acc => acc
  | fuel + 1, n, acc =>
    let tmp := UInt8.ofNat ((n &&& 0x7F) ||| if acc.isEmpty then 0x00 else 0x80)
    if n ≤ 0x7F then tmp :: acc else WriteVarIntLoop fuel ((n >>> 7) - 1) (tmp :: acc)

/-- `WriteVarInt(n)` for an unsigned `n` (each round at least halves `n`, so `n + 1` rounds
are enough). -/
def WriteVarInt (n : ℕ) : List UInt8 := WriteVarIntLoop (n + 1) n []

/-- `WriteVarInt(n)` for an `int`: a negative `n` stops the loop at once, leaving its low
seven bits (two's complement); otherwise as for an unsigned value. -/
def WriteVarIntSigned (n : ℤ) : List UInt8 :=
  if n < 0 then [UInt8.ofNat (n % 128).toNat] else WriteVarInt n.toNat

/-- The loop of `ReadVarInt` for an unsigned type of `w` bits, `n` the value so far: shift in
the low seven bits of a byte, and after a byte with the high bit set add one and read on. -/
def ReadVarIntLoop (w n : ℕ) : List UInt8 → Except String (ℕ × List UInt8)
  | [] => .error endOfFile
  | chData :: s =>
    let n := ((n <<< 7) ||| (chData.toNat &&& 0x7F)) % 2 ^ w
    if chData.toNat &&& 0x80 ≠ 0 then ReadVarIntLoop w ((n + 1) % 2 ^ w) s else .ok (n, s)

/-- `ReadVarInt` for an unsigned type of `w` bits. -/
def ReadVarInt (w : ℕ) : Decoder UInt8 ℕ := fun s => ReadVarIntLoop w 0 s

/-- `ReadVarInt` for an `int`: the same shifts and additions, whose bits are those of the
reading as a 32-bit unsigned value, taken as two's complement. -/
def ReadVarIntSigned : Decoder UInt8 ℤ := do
  let n ← ReadVarInt 32
  pure (IntConv.toSigned 32 n)

/-- A byte the loop fills holds the low seven bits of `n`, and the high bit exactly when it is
not the first byte filled. -/
lemma varIntByte_bits (n : ℕ) (first : Bool) :
    (UInt8.ofNat ((n &&& 0x7F) ||| if first then 0x00 else 0x80)).toNat &&& 0x7F = n % 128 ∧
      ((UInt8.ofNat ((n &&& 0x7F) ||| if first then 0x00 else 0x80)).toNat &&& 0x80 ≠ 0 ↔
        first = false) := by
  have hlow : n &&& 0x7F = n % 128 := Nat.and_two_pow_sub_one_eq_mod n 7
  have hlt : n % 128 < 128 := Nat.mod_lt _ (by norm_num)
  rw [hlow]
  -- a check over the 128 values of the low bits and both flags
  have hbits : ∀ x < 128, ∀ first : Bool,
      (UInt8.ofNat (x ||| if first then 0x00 else 0x80)).toNat &&& 0x7F = x ∧
        ((UInt8.ofNat (x ||| if first then 0x00 else 0x80)).toNat &&& 0x80 ≠ 0 ↔
          first = false) := by
    decide
  exact hbits _ hlt first

/-- Shifting in seven bits is multiplying by `128` and adding them. -/
lemma shiftLeft_seven_or {a b : ℕ} (hb : b < 128) : (a <<< 7) ||| b = a * 128 + b := by
  rw [Nat.shiftLeft_eq, show (2 : ℕ) ^ 7 = 128 from rfl, Nat.mul_comm a 128,
    ← Nat.two_pow_add_eq_or_of_lt (i := 7) hb]

/-- The two tests the reader makes on a byte, as arithmetic: its low seven bits are its
remainder modulo `128`, and its high bit is set exactly from `128` on. -/
lemma byte_bits (b : UInt8) :
    b.toNat &&& 0x7F = b.toNat % 128 ∧ (b.toNat &&& 0x80 ≠ 0 ↔ 128 ≤ b.toNat) := by
  refine ⟨Nat.and_two_pow_sub_one_eq_mod _ 7, ?_⟩
  have hlt : b.toNat < 256 := b.toNat_lt
  -- the high bit is bit 7, the quotient by `128`
  have hand : b.toNat &&& 2 ^ 7 = (b.toNat.testBit 7).toNat * 2 ^ 7 := Nat.and_two_pow _ 7
  rw [show (0x80 : ℕ) = 2 ^ 7 from rfl, hand, Nat.testBit_eq_decide_div_mod_eq]
  by_cases h : 128 ≤ b.toNat
  · have hbit : b.toNat / 2 ^ 7 % 2 = 1 := by omega
    simp only [hbit, decide_true, Bool.toNat_true]
    omega
  · have hbit : b.toNat / 2 ^ 7 % 2 = 0 := by omega
    simp only [hbit, zero_ne_one, decide_false, Bool.toNat_false]
    omega

/-! ### The format over the unbounded numbers

The format comment gives bytes whose high bit is set on all but the last the value
`(a[len-1] & 0x7F) + Σ 128^i * ((a[len-i-1] & 0x7F) + 1)`. `readVarIntNat` reads that value
with no fixed width; the reader of a `w`-bit type computes it modulo `2 ^ w`
(`ReadVarIntLoop_eq_readVarIntNat`). -/

/-- The format read over the unbounded numbers, `n` the value so far: the loop of `ReadVarInt`
without the wrap of a fixed-width type. -/
def readVarIntNat (n : ℕ) : List UInt8 → Except String (ℕ × List UInt8)
  | [] => .error endOfFile
  | chData :: s =>
    if chData.toNat &&& 0x80 ≠ 0 then readVarIntNat (n * 128 + (chData.toNat &&& 0x7F) + 1) s
    else .ok (n * 128 + (chData.toNat &&& 0x7F), s)

/-- **The reader refines the format.** From a value congruent to `n`, the reader of a `w`-bit
type stops where the unbounded reading stops, with its value modulo `2 ^ w`.

**Proof sketch.** Induction on the bytes: shifting in seven bits and adding one commute with
taking the remainder modulo `2 ^ w`. -/
lemma ReadVarIntLoop_eq_readVarIntNat (w : ℕ) : ∀ (n : ℕ) (s : List UInt8),
    ReadVarIntLoop w (n % 2 ^ w) s = (readVarIntNat n s).map (fun r => (r.1 % 2 ^ w, r.2))
  | _, [] => rfl
  | n, chData :: s => by
    have hlow : chData.toNat &&& 0x7F < 128 := by
      rw [(byte_bits chData).1]
      exact Nat.mod_lt _ (by norm_num)
    have hshift : ((n % 2 ^ w) <<< 7 ||| (chData.toNat &&& 0x7F)) % 2 ^ w =
        (n * 128 + (chData.toNat &&& 0x7F)) % 2 ^ w := by
      rw [shiftLeft_seven_or hlow, Nat.add_mod, Nat.mod_mul_mod, ← Nat.add_mod]
    simp only [ReadVarIntLoop, readVarIntNat, hshift]
    split_ifs
    · rw [Nat.mod_add_mod, ReadVarIntLoop_eq_readVarIntNat w _ s]
    · rfl

/-- **Reading back the loop's bytes after the first one filled.** The bytes the loop writes for
`m` ahead of bytes already filled read, from zero, as `m + 1` carried into those bytes.

**Proof sketch.** Induction on the rounds. The byte filled for `m` has the high bit; when `m`
is above `0x7F` the bytes ahead of it read as `m / 128`, and shifting in `m % 128` gives `m`. -/
lemma readVarIntNat_WriteVarIntLoop : ∀ (fuel m : ℕ) (acc rest : List UInt8),
    acc ≠ [] → m < fuel →
      readVarIntNat 0 (WriteVarIntLoop fuel m acc ++ rest) = readVarIntNat (m + 1) (acc ++ rest)
  | 0, _, _, _, _, hfuel => absurd hfuel (Nat.not_lt_zero _)
  | fuel + 1, m, acc, rest, hacc, hfuel => by
    have hcont : acc.isEmpty = false := List.isEmpty_eq_false_iff.2 hacc
    obtain ⟨hlow, hhigh⟩ := varIntByte_bits m false
    rw [WriteVarIntLoop, hcont]
    by_cases hm : m ≤ 0x7F
    · rw [if_pos hm, List.cons_append, readVarIntNat, hlow, if_pos (hhigh.2 rfl),
        Nat.mod_eq_of_lt (show m < 128 by omega), Nat.zero_mul, Nat.zero_add]
    · rw [if_neg hm]
      have hm' : m >>> 7 - 1 < fuel := by
        rw [Nat.shiftRight_eq_div_pow]
        omega
      have hdiv : m >>> 7 - 1 + 1 = m / 128 := by
        rw [Nat.shiftRight_eq_div_pow]
        omega
      rw [readVarIntNat_WriteVarIntLoop fuel _ _ rest (List.cons_ne_nil _ _) hm', hdiv,
        List.cons_append, readVarIntNat, hlow, if_pos (hhigh.2 rfl), Nat.mul_comm,
        Nat.div_add_mod]

/-- **`VARINT` round trip over the unbounded numbers.** Every number reads back.

**Proof sketch.** A value up to `0x7F` is one byte without the high bit. Above, the bytes
ahead of the first one filled read as `n / 128` (`readVarIntNat_WriteVarIntLoop`), and the
first one shifts in `n % 128` and ends the reading. -/
lemma readVarIntNat_WriteVarInt (n : ℕ) (rest : List UInt8) :
    readVarIntNat 0 (WriteVarInt n ++ rest) = .ok (n, rest) := by
  -- the first byte filled, the last read, has no high bit
  obtain ⟨hlow, hhigh⟩ := varIntByte_bits n true
  have hlast : ¬ ((UInt8.ofNat ((n &&& 0x7F) ||| if true then 0x00 else 0x80)).toNat &&& 0x80 ≠ 0) :=
    fun h => Bool.noConfusion (hhigh.1 h)
  rw [WriteVarInt, WriteVarIntLoop, List.isEmpty_nil]
  by_cases hn7 : n ≤ 0x7F
  · rw [if_pos hn7, List.cons_append, readVarIntNat, hlow, if_neg hlast,
      Nat.mod_eq_of_lt (show n < 128 by omega), List.nil_append, Nat.zero_mul, Nat.zero_add]
  · rw [if_neg hn7]
    have hm : n >>> 7 - 1 < n := by
      rw [Nat.shiftRight_eq_div_pow]
      omega
    have hdiv : n >>> 7 - 1 + 1 = n / 128 := by
      rw [Nat.shiftRight_eq_div_pow]
      omega
    rw [readVarIntNat_WriteVarIntLoop n _ _ rest (List.cons_ne_nil _ _) hm, hdiv,
      List.cons_append, readVarIntNat, hlow, if_neg hlast, Nat.mul_comm, Nat.div_add_mod,
      List.nil_append]

/-- Distinct numbers have distinct `VARINT` encodings. -/
lemma WriteVarInt_injective : Function.Injective WriteVarInt := by
  intro m n h
  have hread := readVarIntNat_WriteVarInt m []
  rw [h, readVarIntNat_WriteVarInt n [], Except.ok.injEq, Prod.mk.injEq] at hread
  exact hread.1.symm

/-- **`VARINT` read at a fixed width.** A `w`-bit reader reads the encoding of any number as
its remainder modulo `2 ^ w`, consuming the whole encoding. -/
lemma run_ReadVarInt_mod (w n : ℕ) (rest : List UInt8) :
    (ReadVarInt w).run (WriteVarInt n ++ rest) = .ok (n % 2 ^ w, rest) := by
  have hread := ReadVarIntLoop_eq_readVarIntNat w 0 (WriteVarInt n ++ rest)
  rw [Nat.zero_mod, readVarIntNat_WriteVarInt] at hread
  exact hread

/-- **`VARINT` round trip.** A value that fits a `w`-bit unsigned type reads back. -/
lemma run_ReadVarInt {w n : ℕ} (hn : n < 2 ^ w) (rest : List UInt8) :
    (ReadVarInt w).run (WriteVarInt n ++ rest) = .ok (n, rest) := by
  rw [run_ReadVarInt_mod, Nat.mod_eq_of_lt hn]

/-- A value up to `0x7F` is written as the one byte it is. -/
lemma WriteVarInt_of_le {n : ℕ} (hn : n ≤ 0x7F) : WriteVarInt n = [UInt8.ofNat n] := by
  rw [WriteVarInt, WriteVarIntLoop, if_pos hn, List.isEmpty_nil, if_pos rfl, Nat.or_zero,
    Nat.and_two_pow_sub_one_eq_mod n 7, Nat.mod_eq_of_lt (by omega)]

/-- **`VARINT` round trip of an `int`**, for a value that is not negative. -/
lemma run_ReadVarIntSigned {n : ℤ} (h0 : 0 ≤ n) (h1 : n < 2 ^ 31) (rest : List UInt8) :
    ReadVarIntSigned.run (WriteVarIntSigned n ++ rest) = .ok (n, rest) := by
  have hnat : n.toNat < 2 ^ 32 := by omega
  rw [WriteVarIntSigned, if_neg (by omega), ReadVarIntSigned,
    Decoder.run_bind_of_run (run_ReadVarInt hnat rest), Decoder.run_pure, Int.toNat_of_nonneg h0,
    IntConv.toSigned_of_mem (by norm_num) (by omega) h1]

/-! ### Sizes, and the uniqueness of encodings -/

/-- The loop of `GetSizeOfVarInt`: count a byte, and go on with `(n >> 7) - 1` while `n` is
above `0x7F`; `fuel` bounds the rounds. -/
def GetSizeOfVarIntLoop : ℕ → ℕ → ℕ → ℕ
  | 0, _, nRet => nRet
  | fuel + 1, n, nRet =>
    if n ≤ 0x7F then nRet + 1 else GetSizeOfVarIntLoop fuel ((n >>> 7) - 1) (nRet + 1)

/-- `GetSizeOfVarInt(n)` for an unsigned `n`. -/
def GetSizeOfVarInt (n : ℕ) : ℕ := GetSizeOfVarIntLoop (n + 1) n 0

/-- The writer's loop and the size's loop take the same rounds, one byte each. -/
lemma length_WriteVarIntLoop : ∀ (fuel n : ℕ) (acc : List UInt8),
    (WriteVarIntLoop fuel n acc).length = GetSizeOfVarIntLoop fuel n acc.length
  | 0, _, _ => rfl
  | fuel + 1, n, acc => by
    rw [WriteVarIntLoop, GetSizeOfVarIntLoop]
    by_cases hn : n ≤ 0x7F
    · rw [if_pos hn, if_pos hn, List.length_cons]
    · rw [if_neg hn, if_neg hn, length_WriteVarIntLoop fuel, List.length_cons]

/-- `WriteVarInt` writes as many bytes as `GetSizeOfVarInt` says. -/
lemma length_WriteVarInt (n : ℕ) : (WriteVarInt n).length = GetSizeOfVarInt n :=
  length_WriteVarIntLoop (n + 1) n []

/-- `GetSizeOfVarInt(n)` for an `int`: one byte for a negative `n`, whose loop stops at once. -/
def GetSizeOfVarIntSigned (n : ℤ) : ℕ := if n < 0 then 1 else GetSizeOfVarInt n.toNat

/-- `WriteVarInt` of an `int` writes as many bytes as `GetSizeOfVarInt` says. -/
lemma length_WriteVarIntSigned (n : ℤ) :
    (WriteVarIntSigned n).length = GetSizeOfVarIntSigned n := by
  unfold WriteVarIntSigned GetSizeOfVarIntSigned
  split_ifs
  · rfl
  · exact length_WriteVarInt _

/-- The value of continuing bytes `p` read after the value `n`: each shifts in its low seven
bits and adds one. -/
def varIntPrefix (n : ℕ) (p : List UInt8) : ℕ :=
  p.foldl (fun n b => n * 128 + (b.toNat &&& 0x7F) + 1) n

@[simp] lemma varIntPrefix_nil (n : ℕ) : varIntPrefix n [] = n := rfl

lemma varIntPrefix_cons (n : ℕ) (b : UInt8) (p : List UInt8) :
    varIntPrefix n (b :: p) = varIntPrefix (n * 128 + (b.toNat &&& 0x7F) + 1) p := rfl

lemma varIntPrefix_append_singleton (n : ℕ) (p : List UInt8) (b : UInt8) :
    varIntPrefix n (p ++ [b]) = varIntPrefix n p * 128 + (b.toNat &&& 0x7F) + 1 := by
  simp [varIntPrefix, List.foldl_append]

/-- **What the unbounded reading consumes:** bytes with the high bit, then one without; the
value read is that of the first ones with the low bits of the last shifted in. -/
lemma readVarIntNat_eq_ok : ∀ {n : ℕ} {s rest : List UInt8} {v : ℕ},
    readVarIntNat n s = .ok (v, rest) →
      ∃ p x, s = p ++ x :: rest ∧ (∀ b ∈ p, 128 ≤ b.toNat) ∧ x.toNat < 128 ∧
        v = varIntPrefix n p * 128 + x.toNat
  | _, [], _, _, h => by cases h
  | n, c :: s, rest, v, h => by
    obtain ⟨hlow, hhigh⟩ := byte_bits c
    rw [readVarIntNat] at h
    split_ifs at h with hc
    · -- a continuing byte joins the prefix
      obtain ⟨p, x, rfl, hp, hx, hv⟩ := readVarIntNat_eq_ok h
      refine ⟨c :: p, x, rfl, ?_, hx, by rw [hv, varIntPrefix_cons]⟩
      intro b hb
      rcases List.mem_cons.1 hb with rfl | hb
      · exact hhigh.1 hc
      · exact hp b hb
    · -- the last byte
      cases h
      have hc' : c.toNat < 128 := Nat.lt_of_not_le fun h' => hc (hhigh.2 h')
      refine ⟨[], c, rfl, by simp, hc', ?_⟩
      rw [hlow, Nat.mod_eq_of_lt hc', varIntPrefix_nil]

/-- Continuing bytes are determined by their value read from zero.

**Proof sketch.** Induction on the bytes from the end: the last one adds its low bits plus one
to `128` times the value of those before it, so both are determined by the sum; a continuing
byte is determined by its low bits. -/
lemma varIntPrefix_injective {p q : List UInt8} (hp : ∀ b ∈ p, 128 ≤ b.toNat)
    (hq : ∀ b ∈ q, 128 ≤ b.toNat) (h : varIntPrefix 0 p = varIntPrefix 0 q) : p = q := by
  induction p using List.reverseRecOn generalizing q with
  | nil =>
    cases q using List.reverseRecOn with
    | nil => rfl
    | append_singleton q c =>
      rw [varIntPrefix_nil, varIntPrefix_append_singleton] at h
      omega
  | append_singleton p b ih =>
    cases q using List.reverseRecOn with
    | nil =>
      rw [varIntPrefix_nil, varIntPrefix_append_singleton] at h
      omega
    | append_singleton q c =>
      rw [varIntPrefix_append_singleton, varIntPrefix_append_singleton] at h
      have hb := hp b (by simp)
      have hc := hq c (by simp)
      have hlb := (byte_bits b).1
      have hlc := (byte_bits c).1
      have hb256 : b.toNat < 256 := b.toNat_lt
      have hc256 : c.toNat < 256 := c.toNat_lt
      have hsplit : b.toNat = c.toNat ∧ varIntPrefix 0 p = varIntPrefix 0 q := by omega
      rw [ih (fun x hx => hp x (by simp [hx])) (fun x hx => hq x (by simp [hx])) hsplit.2,
        UInt8.toNat_inj.1 hsplit.1]

/-- **Every number has exactly one encoding** over the unbounded numbers: bytes read as `v`
are `WriteVarInt v`.

**Proof sketch.** Both the bytes read and `WriteVarInt v` are continuing bytes and a last one
(`readVarIntNat_eq_ok`, the second by the round trip); equal values give equal last bytes and
equal prefixes (`varIntPrefix_injective`). -/
lemma eq_WriteVarInt_of_readVarIntNat {s rest : List UInt8} {v : ℕ}
    (h : readVarIntNat 0 s = .ok (v, rest)) : s = WriteVarInt v ++ rest := by
  obtain ⟨p, x, rfl, hp, hx, hv⟩ := readVarIntNat_eq_ok h
  obtain ⟨q, y, hwrite, hq, hy, hv'⟩ := readVarIntNat_eq_ok (readVarIntNat_WriteVarInt v [])
  rw [List.append_nil] at hwrite
  have hsplit : x.toNat = y.toNat ∧ varIntPrefix 0 p = varIntPrefix 0 q := by omega
  rw [hwrite, varIntPrefix_injective hp hq hsplit.2, UInt8.toNat_inj.1 hsplit.1]
  simp

/-- **What `ReadVarInt` consumes.** The bytes a `w`-bit reader consumes are the encoding of a
number whose remainder modulo `2 ^ w` is the value it returns. -/
lemma ReadVarInt_consumed {w n : ℕ} {s rest : List UInt8}
    (h : (ReadVarInt w).run s = .ok (n, rest)) : ∃ v, n = v % 2 ^ w ∧ s = WriteVarInt v ++ rest := by
  have hread := ReadVarIntLoop_eq_readVarIntNat w 0 s
  rw [Nat.zero_mod] at hread
  change ReadVarIntLoop w 0 s = _ at h
  rw [h] at hread
  cases hv : readVarIntNat 0 s with
  | error e =>
    rw [hv] at hread
    cases hread
  | ok r =>
    obtain ⟨v, r⟩ := r
    rw [hv] at hread
    simp only [Except.map, Except.ok.injEq, Prod.mk.injEq] at hread
    obtain ⟨rfl, rfl⟩ := hread
    exact ⟨v, rfl, eq_WriteVarInt_of_readVarIntNat hv⟩

/-- **The fixed-width reader accepts a second encoding of zero.** At every width `w` the
encoding of `2 ^ w` reads as `0`, consuming all of it, though `0` is written `[0x00]`: nothing
checks that the value read fits the type, so an encoding is unique only over the unbounded
numbers. -/
theorem ReadVarInt_accepts_wrapped_encoding (w : ℕ) :
    (ReadVarInt w).run (WriteVarInt (2 ^ w)) = .ok (0, []) ∧
      WriteVarInt (2 ^ w) ≠ WriteVarInt 0 := by
  have hread := run_ReadVarInt_mod w (2 ^ w) []
  rw [List.append_nil, Nat.mod_self] at hread
  exact ⟨hread, fun h => (Nat.two_pow_pos w).ne' (WriteVarInt_injective h)⟩

/-- The encoding of `2 ^ 32` the format comment lists, which a `uint32_t` reads as `0`. -/
example : WriteVarInt (2 ^ 32) = [0x8E, 0xFE, 0xFE, 0xFF, 0x00] := by decide

/-! ### `CompactSize` read back to its bytes -/

/-- A number read little-endian is below `256` to the number of bytes. -/
lemma readLE_lt : ∀ bytes : List UInt8, readLE bytes < 256 ^ bytes.length
  | [] => by simp [readLE]
  | b :: bs => by
    have hb : b.toNat < 256 := b.toNat_lt
    have ih := readLE_lt bs
    rw [readLE, List.length_cons, pow_succ]
    omega

/-- Writing back a number read little-endian gives the bytes read. -/
lemma writeLE_readLE : ∀ bytes : List UInt8, writeLE bytes.length (readLE bytes) = bytes
  | [] => rfl
  | b :: bs => by
    have hb : b.toNat < 256 := b.toNat_lt
    have hmod : (b.toNat + 256 * readLE bs) % 256 = b.toNat := by omega
    have hdiv : (b.toNat + 256 * readLE bs) / 256 = readLE bs := by omega
    rw [List.length_cons, readLE, writeLE, hmod, hdiv, writeLE_readLE bs, UInt8.ofNat_toNat]

/-- What `readLEData w` consumed is the `w` bytes of the number it returns. -/
lemma readLEData_eq_ok {w n : ℕ} {s rest : List UInt8}
    (h : (readLEData w).run s = .ok (n, rest)) : s = writeLE w n ++ rest ∧ n < 256 ^ w := by
  obtain ⟨bytes, s', hbytes, h⟩ := Decoder.run_bind_eq_ok h
  cases h
  obtain ⟨rfl, hlen⟩ := Decoder.readN_next_eq_ok endOfFile w hbytes
  subst hlen
  exact ⟨by rw [writeLE_readLE], readLE_lt bytes⟩

/-- The marker byte and the bytes after it that `compactSizeRet` accepts for a size up to
`MAX_SIZE` are the size's `CompactSize`. The eight-byte form cannot hold such a size. -/
lemma compactSizeRet_eq_ok {b : UInt8} {s rest : List UInt8} {n : ℕ}
    (h : (compactSizeRet b).run s = .ok (n, rest)) (hmax : n ≤ MAX_SIZE) :
    b :: s = WriteCompactSize n ++ rest := by
  have hMAX : MAX_SIZE = 268435456 := rfl
  have hb256 : b.toNat < 256 := b.toNat_lt
  unfold compactSizeRet at h
  split_ifs at h with h1 h2 h3
  · -- one byte
    cases h
    rw [WriteCompactSize, if_pos h1, writeLE, writeLE, Nat.mod_eq_of_lt hb256, UInt8.ofNat_toNat]
    rfl
  · -- the marker 253 and two bytes
    obtain ⟨k, s', hk, hret⟩ := Decoder.run_bind_eq_ok h
    split_ifs at hret with hk253
    · rw [Decoder.run_throw] at hret
      cases hret
    rw [Decoder.run_pure, Except.ok.injEq, Prod.mk.injEq] at hret
    obtain ⟨rfl, rfl⟩ := hret
    obtain ⟨rfl, hlt⟩ := readLEData_eq_ok hk
    have hb : b = 253 := UInt8.toNat_inj.1 h2
    rw [WriteCompactSize, if_neg hk253, if_pos (by omega), hb]
    rfl
  · -- the marker 254 and four bytes
    obtain ⟨k, s', hk, hret⟩ := Decoder.run_bind_eq_ok h
    split_ifs at hret with hk16
    · rw [Decoder.run_throw] at hret
      cases hret
    rw [Decoder.run_pure, Except.ok.injEq, Prod.mk.injEq] at hret
    obtain ⟨rfl, rfl⟩ := hret
    obtain ⟨rfl, hlt⟩ := readLEData_eq_ok hk
    have hb : b = 254 := UInt8.toNat_inj.1 h3
    rw [WriteCompactSize, if_neg (by omega), if_neg (by omega), if_pos (by omega), hb]
    rfl
  · -- eight bytes hold at least `2 ^ 32`, above `MAX_SIZE`
    obtain ⟨k, s', hk, hret⟩ := Decoder.run_bind_eq_ok h
    split_ifs at hret with hk32
    · rw [Decoder.run_throw] at hret
      cases hret
    rw [Decoder.run_pure, Except.ok.injEq, Prod.mk.injEq] at hret
    omega

/-- **`CompactSize` is canonical.** The bytes `ReadCompactSize` consumes are the
`CompactSize` of the size it returns, which is at most `MAX_SIZE`. -/
lemma ReadCompactSize_eq_ok {s rest : List UInt8} {n : ℕ}
    (h : ReadCompactSize.run s = .ok (n, rest)) : s = WriteCompactSize n ++ rest ∧ n ≤ MAX_SIZE := by
  obtain ⟨b, s', hb, hsize⟩ := Decoder.run_bind_eq_ok h
  obtain ⟨m, s'', hm, hret⟩ := Decoder.run_bind_eq_ok hsize
  split_ifs at hret with hgt
  · rw [Decoder.run_throw] at hret
    cases hret
  rw [Decoder.run_pure, Except.ok.injEq, Prod.mk.injEq] at hret
  obtain ⟨rfl, rfl⟩ := hret
  have hle : m ≤ MAX_SIZE := Nat.le_of_not_lt hgt
  rw [Decoder.next_eq_ok hb]
  exact ⟨compactSizeRet_eq_ok hm hle, hle⟩

/-- **`CompactSize` is canonical and invertible.** Every size up to `MAX_SIZE` reads back
from its `CompactSize`, which is `GetSizeOfCompactSize` bytes long; and whatever
`ReadCompactSize` accepts is the `CompactSize` of the size it returns, which is at most
`MAX_SIZE`. -/
theorem compactSize_canonical :
    (∀ n, n ≤ MAX_SIZE → ∀ rest, ReadCompactSize.run (WriteCompactSize n ++ rest) = .ok (n, rest) ∧
        (WriteCompactSize n).length = GetSizeOfCompactSize n) ∧
      ∀ s n rest, ReadCompactSize.run s = .ok (n, rest) →
        s = WriteCompactSize n ++ rest ∧ n ≤ MAX_SIZE :=
  ⟨fun n hn rest => ⟨run_ReadCompactSize n hn rest, length_WriteCompactSize n⟩,
    fun _ _ _ h => ReadCompactSize_eq_ok h⟩

end MvfBu
