import MvfBu.Script.SigHash
import MvfBu.Script.Interpreter
import MvfBu.Primitives.Coins
import MvfBu.Script.SoftFork

set_option autoImplicit false

/-!
# Checking a transaction's inputs (`main.cpp` `CheckInputs`, `script/interpreter.cpp`
`TransactionSignatureChecker`)

`CheckInputs` first runs `Consensus::CheckTxInputs` (the spent outputs exist, coinbases are
mature, the amounts are in range and cover the outputs) and then, for each input, `VerifyScript`
of its unlocking script against the locking script it spends, with a
`TransactionSignatureChecker` for the input. The MVF fork enters here: `CheckSig` verifies the
signature against `SignatureHash` with the fork id `FinalForkId` when the global
`isMVFHardForkActive` is set, and with the legacy fork id `0` otherwise.

## Main definitions

* `MvfBu.SigCrypto` — the hash of `CHashWriter` and `CPubKey::Verify`.
* `MvfBu.TransactionSignatureChecker`.
* `MvfBu.CheckTxInputs`, `MvfBu.ScriptCheck`, `MvfBu.CheckInputs`.

## Main results

* `MvfBu.CheckSig_active_of_legacy` — after the fork, a signature that verifies only for the
  legacy hash is rejected.
* `MvfBu.checkScripts_restricts` — scripts that pass under flags `G` pass under every `F` that
  `G` restricts.

## Implementation notes

The signature cache of `CachingTransactionSignatureChecker` holds only triples that verified,
so it does not change what `VerifySignature` returns, and is left out, with the counters of
hashed bytes and signature operations.
-/

namespace MvfBu

open Except

/-- `LOCKTIME_THRESHOLD`: lock times below are heights, above are times. -/
def LOCKTIME_THRESHOLD : ℤ := 500000000

/-- `COINBASE_MATURITY`. -/
def COINBASE_MATURITY : ℤ := 100

/-- `CTxIn::SEQUENCE_LOCKTIME_TYPE_FLAG`. -/
def SEQUENCE_LOCKTIME_TYPE_FLAG : ℕ := 1 <<< 22

/-- `CTxIn::SEQUENCE_LOCKTIME_MASK`. -/
def SEQUENCE_LOCKTIME_MASK : ℕ := 0x0000ffff

/-- `MANDATORY_SCRIPT_VERIFY_FLAGS`. -/
def MANDATORY_SCRIPT_VERIFY_FLAGS : UInt32 := SCRIPT_VERIFY_P2SH

/-- `STANDARD_SCRIPT_VERIFY_FLAGS`. -/
def STANDARD_SCRIPT_VERIFY_FLAGS : UInt32 :=
  MANDATORY_SCRIPT_VERIFY_FLAGS ||| SCRIPT_VERIFY_DERSIG ||| SCRIPT_VERIFY_STRICTENC |||
    SCRIPT_VERIFY_MINIMALDATA ||| SCRIPT_VERIFY_NULLDUMMY |||
    SCRIPT_VERIFY_DISCOURAGE_UPGRADABLE_NOPS ||| SCRIPT_VERIFY_CLEANSTACK |||
    SCRIPT_VERIFY_CHECKLOCKTIMEVERIFY ||| SCRIPT_VERIFY_CHECKSEQUENCEVERIFY ||| SCRIPT_VERIFY_LOW_S

/-- `STANDARD_NOT_MANDATORY_VERIFY_FLAGS`. -/
def STANDARD_NOT_MANDATORY_VERIFY_FLAGS : UInt32 :=
  STANDARD_SCRIPT_VERIFY_FLAGS &&& ~~~MANDATORY_SCRIPT_VERIFY_FLAGS

/-! ## Public keys and the signature checker -/

/-- `CPubKey::GetLen`: the length a public key's first byte announces. -/
def CPubKey.GetLen (chHeader : UInt8) : ℕ :=
  if chHeader = 2 ∨ chHeader = 3 then 33
  else if chHeader = 4 ∨ chHeader = 6 ∨ chHeader = 7 then 65
  else 0

/-- `CPubKey(vch).IsValid()`: the constructor keeps the bytes only when their length is the
non-zero one the first byte announces. -/
def CPubKey.IsValid (vch : valtype) : Bool :=
  match vch with
  | [] => false
  | b :: _ => CPubKey.GetLen b ≠ 0 && CPubKey.GetLen b == vch.length

/-- The cryptography of signature checks over a hash type `H`: `CHashWriter`'s hash of the
serialized preimage, the constant `one` that `SignatureHash` returns out of range, and
`CPubKey::Verify` of a signature (without its hash type byte) for the public key's bytes. -/
structure SigCrypto (H : Type) where
  Hash : List UInt8 → H
  one : H
  VerifySignature : valtype → valtype → H → Bool

section Checker

variable {H : Type} (crypto : SigCrypto H) (isMVFHardForkActive : Bool) (FinalForkId : UInt32)
  (txTo : CTransaction) (nIn : ℕ)

/-- The hash a signature of hash type `nHashType` signs: with `FinalForkId` once the fork is
active, with the legacy fork id `0` before. -/
def forkSighash (scriptCode : CScript) (nHashType : UInt32) : H :=
  if isMVFHardForkActive then
    SignatureHash crypto.Hash crypto.one scriptCode txTo nIn nHashType FinalForkId
  else SignatureHash crypto.Hash crypto.one scriptCode txTo nIn nHashType 0

/-- `TransactionSignatureChecker::CheckSig`: a valid public key, a non-empty signature whose
last byte is the hash type, and `VerifySignature` against the hash of the active fork. -/
def TransactionSignatureChecker.CheckSig (vchSigIn vchPubKey : valtype) (scriptCode : CScript) :
    Bool :=
  if !CPubKey.IsValid vchPubKey then false
  else if vchSigIn.isEmpty then false
  else
    let nHashType : UInt32 := (vchSigIn.getLastD 0).toUInt32
    crypto.VerifySignature vchSigIn.dropLast vchPubKey
      (forkSighash crypto isMVFHardForkActive FinalForkId txTo nIn scriptCode nHashType)

/-- `TransactionSignatureChecker::CheckLockTime`: the same kind of lock time as the
transaction's, not after it, and the input not final. -/
def TransactionSignatureChecker.CheckLockTime (nLockTime : ℤ) : Bool :=
  let txLockTime : ℤ := txTo.nLockTime.toNat
  if !((txLockTime < LOCKTIME_THRESHOLD && nLockTime < LOCKTIME_THRESHOLD) ||
      (txLockTime ≥ LOCKTIME_THRESHOLD && nLockTime ≥ LOCKTIME_THRESHOLD)) then false
  else if nLockTime > txLockTime then false
  else if SEQUENCE_FINAL = (txTo.vin.getD nIn default).nSequence then false
  else true

/-- `TransactionSignatureChecker::CheckSequence`: BIP 68 relative lock times, compared on the
masked type flag and value. -/
def TransactionSignatureChecker.CheckSequence (nSequence : ℤ) : Bool :=
  let txToSequence : ℕ := (txTo.vin.getD nIn default).nSequence.toNat
  let nLockTimeMask : ℕ := SEQUENCE_LOCKTIME_TYPE_FLAG ||| SEQUENCE_LOCKTIME_MASK
  let txToSequenceMasked := txToSequence &&& nLockTimeMask
  -- `&` of an `int64_t` with a non-negative mask, on its two's complement bits
  let nSequenceMasked := (nSequence % 2 ^ 64).toNat &&& nLockTimeMask
  if txTo.nVersion.toUInt32 < 2 then false
  else if txToSequence &&& SEQUENCE_LOCKTIME_DISABLE_FLAG ≠ 0 then false
  else if !((txToSequenceMasked < SEQUENCE_LOCKTIME_TYPE_FLAG &&
        nSequenceMasked < SEQUENCE_LOCKTIME_TYPE_FLAG) ||
      (txToSequenceMasked ≥ SEQUENCE_LOCKTIME_TYPE_FLAG &&
        nSequenceMasked ≥ SEQUENCE_LOCKTIME_TYPE_FLAG)) then false
  else if nSequenceMasked > txToSequenceMasked then false
  else true

/-- `TransactionSignatureChecker(txTo, nIn)`. -/
def TransactionSignatureChecker : BaseSignatureChecker where
  CheckSig := TransactionSignatureChecker.CheckSig crypto isMVFHardForkActive FinalForkId txTo nIn
  CheckLockTime := TransactionSignatureChecker.CheckLockTime txTo nIn
  CheckSequence := TransactionSignatureChecker.CheckSequence txTo nIn

/-- **After the fork a legacy signature is rejected.** With `CHashWriter`'s hash injective and
each signature verifying for at most one hash, a signature of hash type `SIGHASH_ALL` on an
input in range that verifies against the legacy hash fails `CheckSig` once the fork is active
with a fork id other than `0`. -/
theorem CheckSig_active_of_legacy (hinj : Function.Injective crypto.Hash)
    (hbind : ∀ sig pk h₁ h₂, crypto.VerifySignature sig pk h₁ = true →
      crypto.VerifySignature sig pk h₂ = true → h₁ = h₂)
    (hF : FinalForkId <<< 1 ||| SIGHASH_ALL ≠ (0 : UInt32) <<< 1 ||| SIGHASH_ALL)
    (hIn : nIn < txTo.vin.length) (sig vchPubKey : valtype) (scriptCode : CScript)
    (hlegacy : TransactionSignatureChecker.CheckSig crypto false FinalForkId txTo nIn
      (sig ++ [SIGHASH_ALL.toUInt8]) vchPubKey scriptCode = true) :
    TransactionSignatureChecker.CheckSig crypto true FinalForkId txTo nIn
      (sig ++ [SIGHASH_ALL.toUInt8]) vchPubKey scriptCode = false := by
  have hall : (SIGHASH_ALL.toUInt8).toUInt32 = SIGHASH_ALL := by decide
  have hsingle : SIGHASH_ALL &&& 0x1f = SIGHASH_SINGLE → nIn < txTo.vout.length := by
    intro h; exact absurd h (by decide)
  have hsig : (sig ++ [SIGHASH_ALL.toUInt8]).isEmpty = false := by simp
  unfold TransactionSignatureChecker.CheckSig at hlegacy ⊢
  by_cases hpk : CPubKey.IsValid vchPubKey = true
  · simp only [hpk, hsig, Bool.not_true, Bool.false_eq_true, ↓reduceIte, List.getLastD_concat,
      hall, List.dropLast_concat] at hlegacy ⊢
    simp only [forkSighash, Bool.false_eq_true, ↓reduceIte] at hlegacy ⊢
    rw [signatureHash_eq_hash _ _ _ _ _ _ _ hIn hsingle] at hlegacy ⊢
    -- the two preimages end in different words, so their hashes differ
    have hne := sigHashPreimage_ne_of_word_ne scriptCode txTo nIn hF
    cases hv : crypto.VerifySignature sig vchPubKey
        (crypto.Hash (sigHashPreimage scriptCode txTo nIn SIGHASH_ALL FinalForkId))
    · rfl
    · exact absurd (hinj (hbind _ _ _ _ hv hlegacy)) hne
  · simp [hpk]

end Checker

/-! ## `CheckTxInputs` and `CheckInputs` -/

/-- `CTransaction::GetValueOut`, which throws once an output or the running sum leaves the
money range. -/
def GetValueOut (tx : CTransaction) : Except String ℤ :=
  tx.vout.foldlM (fun nValueOut out =>
    let nValueOut := nValueOut + out.nValue.toInt
    if !MoneyRange out.nValue.toInt || !MoneyRange nValueOut then
      throw "CTransaction::GetValueOut(): value out of range"
    else pure nValueOut) 0

/-- How `CheckInputs` fails: a rejection of `CheckTxInputs` (its reject reason, or the
message `"Inputs unavailable"`), a `runtime_error` of `GetValueOut`, a script failure that only
a non-mandatory flag causes (`REJECT_NONSTANDARD`), any other script failure (`REJECT_INVALID`,
DoS 100), or a failed `assert`. -/
inductive CheckInputsError
  | invalid (reason : String)
  | runtimeError (what : String)
  | nonMandatoryScript (e : VerifyError)
  | mandatoryScript (e : VerifyError)
  | assertion (expr : String)
  deriving DecidableEq, Repr

/-- `Consensus::CheckTxInputs(tx, state, inputs, nSpendHeight)`. -/
def CheckTxInputs (tx : CTransaction) (inputs : CoinsView) (nSpendHeight : ℤ) :
    Except CheckInputsError Unit := do
  if !inputs.HaveInputs tx then throw (.invalid "Inputs unavailable")
  let nValueIn ← tx.vin.foldlM (fun nValueIn txin => do
      match inputs txin.prevout.hash with
      | none => throw (.assertion "coins")
      | some coins =>
        if coins.IsCoinBase && nSpendHeight - coins.nHeight < COINBASE_MATURITY then
          throw (.invalid "bad-txns-premature-spend-of-coinbase")
        else
          let nValue := (coins.vout.getD txin.prevout.n.toNat CTxOut.null).nValue.toInt
          let nValueIn := nValueIn + nValue
          if !MoneyRange nValue || !MoneyRange nValueIn then
            throw (.invalid "bad-txns-inputvalues-outofrange")
          else pure nValueIn) 0
  let nValueOut ← (GetValueOut tx).mapError .runtimeError
  if nValueIn < nValueOut then throw (.invalid "bad-txns-in-belowout")
  let nTxFee := nValueIn - nValueOut
  if nTxFee < 0 then throw (.invalid "bad-txns-fee-negative")
  if !MoneyRange nTxFee then throw (.invalid "bad-txns-fee-outofrange")
  pure ()

section CheckInputs

variable {H : Type} (sigCrypto : SigCrypto H) (scriptCrypto : ScriptCrypto)
  (isMVFHardForkActive : Bool) (FinalForkId : UInt32)

/-- `CScriptCheck::operator()` for input `nIn` spending `scriptPubKey`. -/
def ScriptCheck (scriptPubKey : CScript) (tx : CTransaction) (nIn : ℕ) (flags : UInt32) :
    Except VerifyError Unit :=
  VerifyScript flags scriptCrypto
    (TransactionSignatureChecker sigCrypto isMVFHardForkActive FinalForkId tx nIn)
    (tx.vin.getD nIn default).scriptSig scriptPubKey

/-- The check of input `i` in the script loop of `CheckInputs`: on a failure, a second check
without the non-mandatory flags tells a non-standard input from an invalid one. -/
def checkInputScript (tx : CTransaction) (inputs : CoinsView) (flags : UInt32) (i : ℕ) :
    Except CheckInputsError Unit :=
  let prevout := (tx.vin.getD i default).prevout
  match inputs prevout.hash with
  | none => throw (.assertion "coins")
  | some coins =>
    let scriptPubKey := (coins.vout.getD prevout.n.toNat CTxOut.null).scriptPubKey
    match ScriptCheck sigCrypto scriptCrypto isMVFHardForkActive FinalForkId scriptPubKey tx i
        flags with
    | .ok () => pure ()
    | .error e =>
      if hasFlag flags STANDARD_NOT_MANDATORY_VERIFY_FLAGS &&
          (ScriptCheck sigCrypto scriptCrypto isMVFHardForkActive FinalForkId scriptPubKey tx i
            (flags &&& ~~~STANDARD_NOT_MANDATORY_VERIFY_FLAGS)).toBool then
        throw (.nonMandatoryScript e)
      else throw (.mandatoryScript e)

/-- The script loop of `CheckInputs`, over the inputs in order. -/
def checkScripts (tx : CTransaction) (inputs : CoinsView) (flags : UInt32) :
    Except CheckInputsError Unit :=
  (List.range tx.vin.length).forM
    (checkInputScript sigCrypto scriptCrypto isMVFHardForkActive FinalForkId tx inputs flags)

/-- `CheckInputs(tx, state, inputs, fScriptChecks, flags, ...)` at spend height
`nSpendHeight`, run without deferred checks. -/
def CheckInputs (tx : CTransaction) (inputs : CoinsView) (nSpendHeight : ℤ)
    (fScriptChecks : Bool) (flags : UInt32) : Except CheckInputsError Unit :=
  if tx.IsCoinBase then pure ()
  else do
    CheckTxInputs tx inputs nSpendHeight
    if fScriptChecks then
      checkScripts sigCrypto scriptCrypto isMVFHardForkActive FinalForkId tx inputs flags
    else pure ()

/-- An input passes the script loop exactly when its coins are there and its script check
passes. -/
lemma checkInputScript_eq_ok {tx : CTransaction} {inputs : CoinsView} {flags : UInt32}
    {i : ℕ} :
    checkInputScript sigCrypto scriptCrypto isMVFHardForkActive FinalForkId tx inputs flags i =
        .ok () ↔
      ∃ coins, inputs (tx.vin.getD i default).prevout.hash = some coins ∧
        ScriptCheck sigCrypto scriptCrypto isMVFHardForkActive FinalForkId
          (coins.vout.getD (tx.vin.getD i default).prevout.n.toNat CTxOut.null).scriptPubKey tx i
          flags = .ok () := by
  unfold checkInputScript
  dsimp only
  split
  · rename_i hnone
    simp only [hnone, reduceCtorEq, false_and, exists_false]
  · rename_i coins hsome
    simp only [hsome, Option.some.injEq, exists_eq_left']
    split
    · rename_i hok
      exact ⟨fun _ => hok, fun _ => rfl⟩
    · rename_i e herr
      rw [herr]
      split <;> simp [throw, throwThe, MonadExceptOf.throw]

/-- **Standard scripts pass under the consensus flags.** Scripts that pass under flags `G`
pass under every `F` that `G` restricts (`SoftForkFlags F G`), with the same fork flag. -/
lemma checkScripts_restricts {F G : UInt32} (h : SoftForkFlags F G) (tx : CTransaction)
    (inputs : CoinsView) :
    (checkScripts sigCrypto scriptCrypto isMVFHardForkActive FinalForkId tx inputs G).Restricts
      (checkScripts sigCrypto scriptCrypto isMVFHardForkActive FinalForkId tx inputs F) := by
  refine Restricts.forM (fun i => ?_) _
  rintro ⟨⟩ hG
  obtain ⟨coins, hcoins, hcheck⟩ := checkInputScript_eq_ok sigCrypto scriptCrypto _ _ |>.1 hG
  exact checkInputScript_eq_ok sigCrypto scriptCrypto _ _ |>.2
    ⟨coins, hcoins, VerifyScript_restricts h _ _ _ _ _ hcheck⟩

end CheckInputs

end MvfBu
