import MvfBu.Primitives.Transaction

set_option autoImplicit false

/-!
# The signature hash (`script/interpreter.cpp`, `SignatureHash`)

`SignatureHash` serializes the spending transaction as `CTransactionSignatureSerializer`
does for the hash type (inputs other than the one signed with blanked scripts, outputs
dropped or nulled for `SIGHASH_NONE` and `SIGHASH_SINGLE`, a single input for
`SIGHASH_ANYONECANPAY`), appends the 32-bit word `(nChainId << 1) | nHashType`, and hashes
the bytes with `CHashWriter`. The MVF fork signs with `nChainId = FinalForkId`; the legacy
chain with `nChainId = 0`. An input index out of range, or `SIGHASH_SINGLE` without a
matching output, returns the constant `one` without hashing.

The double SHA-256 of `CHashWriter` is a parameter `Hash` with an arbitrary codomain, so
that collision resistance can be assumed as injectivity.

## Main definitions

* `MvfBu.SigHashSerializer.serializeScriptCode`, `serializeInput`, `serializeOutput`,
  `serialize` — `CTransactionSignatureSerializer`.
* `MvfBu.SignatureHash`.

## Main results

* `MvfBu.signatureHash_eq_one_of_le` — out of range, the hash is `one` for every fork id.
* `MvfBu.signatureHash_separates_words` — in range, distinct words `(F << 1) | h` give
  distinct hashes.
* `MvfBu.signatureHash_forkid_low_bit_collides` — the words do not keep fork ids apart: under
  `SIGHASH_NONE` or `SIGHASH_SINGLE`, `F` and `F | 1` give one hash.
-/

namespace MvfBu

/-- `SIGHASH_ALL`. -/
def SIGHASH_ALL : UInt32 := 1
/-- `SIGHASH_NONE`. -/
def SIGHASH_NONE : UInt32 := 2
/-- `SIGHASH_SINGLE`. -/
def SIGHASH_SINGLE : UInt32 := 3
/-- `SIGHASH_ANYONECANPAY`. -/
def SIGHASH_ANYONECANPAY : UInt32 := 0x80

/-- `HARDFORK_SIGHASH_ID`, the default fork id. -/
def HARDFORK_SIGHASH_ID : UInt32 := 0x777000

namespace SigHashSerializer

/-- `SerializeScriptCode`: the `CompactSize` of the script length less its code separators,
then the bytes between the separators. The separators counted and cut are those the
`GetOp` loops read; after the last one the bytes up to where the loop stopped are
written. -/
def serializeScriptCode (scriptCode : CScript) : List UInt8 :=
  let d := CScript.decode scriptCode
  let nCodeSeparators := (d.ops.filter fun op => op.opcode == OP_CODESEPARATOR).length
  let (out, itBegin) := d.ops.foldl (fun (acc : List UInt8 × ℕ) op =>
      if op.opcode = OP_CODESEPARATOR then
        (acc.1 ++ (scriptCode.drop acc.2).take (op.pcNext - acc.2 - 1), op.pcNext)
      else acc) ([], 0)
  WriteCompactSize (scriptCode.length - nCodeSeparators) ++ out ++
    (if itBegin ≠ scriptCode.length then (scriptCode.drop itBegin).take (d.pcEnd - itBegin)
     else [])

variable (txTo : CTransaction) (scriptCode : CScript) (nIn : ℕ) (nHashType : UInt32)

/-- `fAnyoneCanPay`. -/
def fAnyoneCanPay : Bool := nHashType &&& SIGHASH_ANYONECANPAY != 0
/-- `fHashSingle`. -/
def fHashSingle : Bool := nHashType &&& 0x1f == SIGHASH_SINGLE
/-- `fHashNone`. -/
def fHashNone : Bool := nHashType &&& 0x1f == SIGHASH_NONE

/-- `SerializeInput`: the outpoint, the script code for the input signed and an empty
script for the others, and the sequence, zeroed for the others under `SINGLE` or
`NONE`. -/
def serializeInput (nInput : ℕ) : List UInt8 :=
  let nInput := if fAnyoneCanPay nHashType then nIn else nInput
  let txin := txTo.vin.getD nInput default
  txin.prevout.serialize ++
    (if nInput ≠ nIn then serBytes [] else serializeScriptCode scriptCode) ++
    (if nInput ≠ nIn ∧ (fHashSingle nHashType || fHashNone nHashType) then serInt32 0
     else serUInt32 txin.nSequence)

/-- `SerializeOutput`: under `SINGLE` the outputs other than the one at the signed index
are null outputs. -/
def serializeOutput (nOutput : ℕ) : List UInt8 :=
  if fHashSingle nHashType ∧ nOutput ≠ nIn then CTxOut.null.serialize
  else (txTo.vout.getD nOutput default).serialize

/-- `CTransactionSignatureSerializer::Serialize`. -/
def serialize : List UInt8 :=
  let nInputs := if fAnyoneCanPay nHashType then 1 else txTo.vin.length
  let nOutputs := if fHashNone nHashType then 0
    else if fHashSingle nHashType then nIn + 1 else txTo.vout.length
  serInt32 txTo.nVersion ++
    WriteCompactSize nInputs ++
      ((List.range nInputs).map (serializeInput txTo scriptCode nIn nHashType)).flatten ++
    WriteCompactSize nOutputs ++
      ((List.range nOutputs).map (serializeOutput txTo nIn nHashType)).flatten ++
    serUInt32 txTo.nLockTime

end SigHashSerializer

section SignatureHash

variable {H : Type} (Hash : List UInt8 → H) (one : H)

/-- The bytes `SignatureHash` hashes: the serialized transaction, then the word
`(nChainId << 1) | nHashType`. -/
def sigHashPreimage (scriptCode : CScript) (txTo : CTransaction) (nIn : ℕ)
    (nHashType nChainId : UInt32) : List UInt8 :=
  SigHashSerializer.serialize txTo scriptCode nIn nHashType ++
    serUInt32 ((nChainId <<< 1) ||| nHashType)

/-- `SignatureHash(scriptCode, txTo, nIn, nHashType, nHashedOut, nChainId)`. -/
def SignatureHash (scriptCode : CScript) (txTo : CTransaction) (nIn : ℕ)
    (nHashType nChainId : UInt32) : H :=
  if nIn ≥ txTo.vin.length then one
  else if nHashType &&& 0x1f = SIGHASH_SINGLE ∧ nIn ≥ txTo.vout.length then one
  else Hash (sigHashPreimage scriptCode txTo nIn nHashType nChainId)

/-- Out of range, `SignatureHash` returns `one` whatever the fork id. -/
lemma signatureHash_eq_one_of_le (scriptCode : CScript) (txTo : CTransaction) (nIn : ℕ)
    (nHashType nChainId : UInt32) (h : txTo.vin.length ≤ nIn) :
    SignatureHash Hash one scriptCode txTo nIn nHashType nChainId = one := by
  simp [SignatureHash, h]

/-- In range, `SignatureHash` hashes the preimage. -/
lemma signatureHash_eq_hash (scriptCode : CScript) (txTo : CTransaction) (nIn : ℕ)
    (nHashType nChainId : UInt32) (hIn : nIn < txTo.vin.length)
    (hSingle : nHashType &&& 0x1f = SIGHASH_SINGLE → nIn < txTo.vout.length) :
    SignatureHash Hash one scriptCode txTo nIn nHashType nChainId =
      Hash (sigHashPreimage scriptCode txTo nIn nHashType nChainId) := by
  have h1 : ¬ nIn ≥ txTo.vin.length := by omega
  have h2 : ¬ (nHashType &&& 0x1f = SIGHASH_SINGLE ∧ nIn ≥ txTo.vout.length) := by
    rintro ⟨hs, hge⟩
    have := hSingle hs
    omega
  simp only [SignatureHash, h1, h2, ↓reduceIte]

/-- Two preimages whose appended words differ are different byte strings: the word is their
last four bytes. -/
lemma sigHashPreimage_ne_of_word_ne (scriptCode : CScript) (txTo : CTransaction) (nIn : ℕ)
    {h₁ h₂ F₁ F₂ : UInt32} (hword : (F₁ <<< 1) ||| h₁ ≠ (F₂ <<< 1) ||| h₂) :
    sigHashPreimage scriptCode txTo nIn h₁ F₁ ≠ sigHashPreimage scriptCode txTo nIn h₂ F₂ := by
  intro heq
  have hlast := congrArg (fun l : List UInt8 => l.drop (l.length - 4)) heq
  simp only [sigHashPreimage, List.length_append, length_serUInt32] at hlast
  rw [List.drop_left' (by omega), List.drop_left' (by omega)] at hlast
  exact hword (serUInt32_injective hlast)

/-- **Distinct fork words give distinct signature hashes.** With `CHashWriter`'s hash
injective, for an input index in range (with a matching output under `SIGHASH_SINGLE`),
two hash types and fork ids whose words `(F << 1) | h` differ give different
`SignatureHash` values. -/
theorem signatureHash_separates_words (hinj : Function.Injective Hash) (scriptCode : CScript)
    (txTo : CTransaction) (nIn : ℕ) (h₁ h₂ F₁ F₂ : UInt32) (hIn : nIn < txTo.vin.length)
    (hSingle₁ : h₁ &&& 0x1f = SIGHASH_SINGLE → nIn < txTo.vout.length)
    (hSingle₂ : h₂ &&& 0x1f = SIGHASH_SINGLE → nIn < txTo.vout.length)
    (hword : (F₁ <<< 1) ||| h₁ ≠ (F₂ <<< 1) ||| h₂) :
    SignatureHash Hash one scriptCode txTo nIn h₁ F₁ ≠
      SignatureHash Hash one scriptCode txTo nIn h₂ F₂ := by
  rw [signatureHash_eq_hash Hash one _ _ _ _ _ hIn hSingle₁,
    signatureHash_eq_hash Hash one _ _ _ _ _ hIn hSingle₂]
  exact fun h => sigHashPreimage_ne_of_word_ne scriptCode txTo nIn hword (hinj h)

/-- The fork id's lowest bit lands on bit `1` of the word, where every hash type with that bit
set (`SIGHASH_NONE`, `SIGHASH_SINGLE`) has a one already. -/
lemma forkWord_or_one (F nHashType : UInt32) (hbit : nHashType &&& 2 = 2) :
    ((F ||| 1) <<< 1) ||| nHashType = (F <<< 1) ||| nHashType := by
  apply UInt32.toBitVec_inj.mp
  apply BitVec.eq_of_getLsbD_eq
  intro i hi
  have hbit1 : nHashType.toBitVec.getLsbD 1 = true := by
    have := congrArg (fun x : UInt32 => x.toBitVec.getLsbD 1) hbit
    simpa using this
  simp only [UInt32.toBitVec_or, UInt32.toBitVec_shiftLeft, BitVec.getLsbD_or]
  rcases Nat.lt_or_ge i 2 with h2 | h2
  · obtain rfl | rfl : i = 0 ∨ i = 1 := by omega
    · simp
    · simp_all
  · have hi1 : i - 1 ≠ 0 := by omega
    simp [hi1]

/-- **Fork ids that differ in their lowest bit share every `SIGHASH_NONE` and `SIGHASH_SINGLE`
hash.** The fork id is shifted by one bit, not the eight of `HARDFORK_SIGHASH_ID`'s comment, so
for a hash type with bit `1` set the words of `F` and `F | 1` are equal, and so are the
preimages, for every transaction, script code and input: fork id `1` replays the legacy
chain's signatures, and `0x777001` those of the default fork. -/
theorem signatureHash_forkid_low_bit_collides (scriptCode : CScript) (txTo : CTransaction)
    (nIn : ℕ) (nHashType F : UInt32) (hbit : nHashType &&& 2 = 2) :
    SignatureHash Hash one scriptCode txTo nIn nHashType (F ||| 1) =
      SignatureHash Hash one scriptCode txTo nIn nHashType F := by
  simp only [SignatureHash, sigHashPreimage, forkWord_or_one F nHashType hbit]

end SignatureHash

/-- A transaction with one default input and one null output. -/
def sigHashExampleTx : CTransaction := ⟨1, [default], [CTxOut.null], 0⟩

/-- Signing input `0` of `sigHashExampleTx` under `SIGHASH_NONE` gives one hash for the legacy
chain and for fork id `1`. -/
theorem signatureHash_forkid_one_replays_legacy :
    SIGHASH_NONE &&& 2 = 2 ∧
      SignatureHash (id : List UInt8 → List UInt8) [] [] sigHashExampleTx 0 SIGHASH_NONE 1 =
        SignatureHash (id : List UInt8 → List UInt8) [] [] sigHashExampleTx 0 SIGHASH_NONE 0 :=
  ⟨by decide,
    signatureHash_forkid_low_bit_collides id [] [] sigHashExampleTx 0 SIGHASH_NONE 0 (by decide)⟩

/-- The legacy chain and the default fork id `0x777000` sign input `0` of
`sigHashExampleTx` under `SIGHASH_ALL` with different hashes. -/
example :
    SignatureHash (id : List UInt8 → List UInt8) [] [] sigHashExampleTx 0 SIGHASH_ALL 0 ≠
      SignatureHash (id : List UInt8 → List UInt8) [] [] sigHashExampleTx 0 SIGHASH_ALL
        HARDFORK_SIGHASH_ID :=
  signatureHash_separates_words id [] Function.injective_id [] sigHashExampleTx 0 _ _ _ _
    (by decide) (by decide) (by decide) (by decide)

end MvfBu
