import MvfBu.Script.Script
import MvfBu.Lib.ExceptLemmas

set_option autoImplicit false

/-!
# The script interpreter (`script/interpreter.cpp`)

`EvalScript` runs a script on a stack: it reads the instructions one after another with
`GetOp`, checks the push size, the operation count and the disabled opcodes, pushes data, and
runs the `switch` over the opcode inside the branches that `OP_IF`/`OP_NOTIF`/`OP_ELSE`/
`OP_ENDIF` select. `VerifyScript` runs the unlocking script, then the locking script on the
stack it leaves, checks the top of the stack, re-runs a pay-to-script-hash redeem script,
and checks that the stack is clean. The verification flags switch extra checks on: minimal
pushes and numbers, signature and public key encodings, the upgradable no-ops, the lock-time
opcodes, the dummy element of `CHECKMULTISIG`, push-only unlocking scripts and clean stacks.

## Main definitions

* `MvfBu.ScriptError` — the errors `EvalScript` and `VerifyScript` set.
* `MvfBu.CheckSignatureEncoding`, `MvfBu.CheckPubKeyEncoding`, `MvfBu.CheckMinimalPush`.
* `MvfBu.BaseSignatureChecker` — the signature and lock-time checks a caller provides.
* `MvfBu.OpcodeCase`, `MvfBu.classifyOpcode` — the case groups of the opcode `switch`.
* `MvfBu.ExecOpcode`, `MvfBu.EvalStep`, `MvfBu.EvalScript`, `MvfBu.VerifyScript`.

## Implementation notes

Stacks are lists with the top first: `stacktop(-i)` is the element at index `i - 1`. The
iterator `pbegincodehash` is a position in the script. Instructions come from
`CScript.decode`, which reads them with `GetOp2` exactly as the loop does; when a read fails
the loop returns `SCRIPT_ERR_BAD_OPCODE` after the instructions before it. A
`scriptnum_error` or an out-of-range stack access throws inside the `try` block, whose
`catch (...)` returns `SCRIPT_ERR_UNKNOWN_ERROR`. The hash functions of the crypto opcodes
and `CPubKey::CheckLowS` are parameters (`ScriptCrypto`).
-/

namespace MvfBu

/-! ## Flags and errors -/

/-- `SCRIPT_VERIFY_P2SH`. -/
def SCRIPT_VERIFY_P2SH : UInt32 := (1 : UInt32) <<< 0
/-- `SCRIPT_VERIFY_STRICTENC`. -/
def SCRIPT_VERIFY_STRICTENC : UInt32 := (1 : UInt32) <<< 1
/-- `SCRIPT_VERIFY_DERSIG`. -/
def SCRIPT_VERIFY_DERSIG : UInt32 := (1 : UInt32) <<< 2
/-- `SCRIPT_VERIFY_LOW_S`. -/
def SCRIPT_VERIFY_LOW_S : UInt32 := (1 : UInt32) <<< 3
/-- `SCRIPT_VERIFY_NULLDUMMY`. -/
def SCRIPT_VERIFY_NULLDUMMY : UInt32 := (1 : UInt32) <<< 4
/-- `SCRIPT_VERIFY_SIGPUSHONLY`. -/
def SCRIPT_VERIFY_SIGPUSHONLY : UInt32 := (1 : UInt32) <<< 5
/-- `SCRIPT_VERIFY_MINIMALDATA`. -/
def SCRIPT_VERIFY_MINIMALDATA : UInt32 := (1 : UInt32) <<< 6
/-- `SCRIPT_VERIFY_DISCOURAGE_UPGRADABLE_NOPS`. -/
def SCRIPT_VERIFY_DISCOURAGE_UPGRADABLE_NOPS : UInt32 := (1 : UInt32) <<< 7
/-- `SCRIPT_VERIFY_CLEANSTACK`. -/
def SCRIPT_VERIFY_CLEANSTACK : UInt32 := (1 : UInt32) <<< 8
/-- `SCRIPT_VERIFY_CHECKLOCKTIMEVERIFY`. -/
def SCRIPT_VERIFY_CHECKLOCKTIMEVERIFY : UInt32 := (1 : UInt32) <<< 9
/-- `SCRIPT_VERIFY_CHECKSEQUENCEVERIFY`. -/
def SCRIPT_VERIFY_CHECKSEQUENCEVERIFY : UInt32 := (1 : UInt32) <<< 10

/-- `(flags & f) != 0`. -/
def hasFlag (flags f : UInt32) : Bool := flags &&& f != 0

/-- `fRequireMinimal`. -/
def fRequireMinimal (flags : UInt32) : Bool := hasFlag flags SCRIPT_VERIFY_MINIMALDATA

/-- `ScriptError_t`, the errors set on failure. -/
inductive ScriptError
  | SCRIPT_ERR_UNKNOWN_ERROR
  | SCRIPT_ERR_EVAL_FALSE
  | SCRIPT_ERR_OP_RETURN
  | SCRIPT_ERR_SCRIPT_SIZE
  | SCRIPT_ERR_PUSH_SIZE
  | SCRIPT_ERR_OP_COUNT
  | SCRIPT_ERR_STACK_SIZE
  | SCRIPT_ERR_SIG_COUNT
  | SCRIPT_ERR_PUBKEY_COUNT
  | SCRIPT_ERR_VERIFY
  | SCRIPT_ERR_EQUALVERIFY
  | SCRIPT_ERR_CHECKMULTISIGVERIFY
  | SCRIPT_ERR_CHECKSIGVERIFY
  | SCRIPT_ERR_NUMEQUALVERIFY
  | SCRIPT_ERR_BAD_OPCODE
  | SCRIPT_ERR_DISABLED_OPCODE
  | SCRIPT_ERR_INVALID_STACK_OPERATION
  | SCRIPT_ERR_INVALID_ALTSTACK_OPERATION
  | SCRIPT_ERR_UNBALANCED_CONDITIONAL
  | SCRIPT_ERR_NEGATIVE_LOCKTIME
  | SCRIPT_ERR_UNSATISFIED_LOCKTIME
  | SCRIPT_ERR_SIG_HASHTYPE
  | SCRIPT_ERR_SIG_DER
  | SCRIPT_ERR_MINIMALDATA
  | SCRIPT_ERR_SIG_PUSHONLY
  | SCRIPT_ERR_SIG_HIGH_S
  | SCRIPT_ERR_SIG_NULLDUMMY
  | SCRIPT_ERR_PUBKEYTYPE
  | SCRIPT_ERR_CLEANSTACK
  | SCRIPT_ERR_DISCOURAGE_UPGRADABLE_NOPS
  deriving DecidableEq, Repr

open ScriptError

/-! ## Stack elements -/

/-- `CastToBool`: false for the empty element and for any number of zero bytes, possibly
ending in the negative zero `0x80`; true otherwise. -/
def CastToBool : valtype → Bool
  | [] => false
  | [b] => b != 0 && b != 0x80
  | b :: rest => b != 0 || CastToBool rest

/-- `vchTrue`. -/
def vchTrue : valtype := [1]

/-- `vchFalse`. -/
def vchFalse : valtype := []

/-- `stacktop(-i)`, read with `std::vector::at`, which throws out of range. -/
def stacktop (stack : List valtype) (i : ℕ) : Except ScriptError valtype :=
  match stack[i - 1]? with
  | some v => pure v
  | none => throw SCRIPT_ERR_UNKNOWN_ERROR

/-- `popstack`, which throws on an empty stack. -/
def popstack : List valtype → Except ScriptError (List valtype)
  | [] => throw SCRIPT_ERR_UNKNOWN_ERROR
  | _ :: rest => pure rest

/-- `CScriptNum(vch, fRequireMinimal, nMaxNumSize)` inside `EvalScript`'s `try` block: a
`scriptnum_error` ends the script with `SCRIPT_ERR_UNKNOWN_ERROR`. -/
def scriptNum (vch : valtype) (fRequireMinimal : Bool) (nMaxNumSize : ℕ) :
    Except ScriptError ℤ :=
  (CScriptNum.ofVch vch fRequireMinimal nMaxNumSize).mapError fun _ => SCRIPT_ERR_UNKNOWN_ERROR

/-- The number `stacktop(-i)` denotes, with the default size limit. -/
def numAt (flags : UInt32) (stack : List valtype) (i : ℕ) : Except ScriptError ℤ := do
  let vch ← stacktop stack i
  scriptNum vch (fRequireMinimal flags) CScriptNum.nDefaultMaxNumSize

/-- A `CScriptNum` made from a `bool`. -/
def boolNum (b : Bool) : ℤ := if b then 1 else 0

/-! ## Encodings -/

/-- `IsCompressedOrUncompressedPubKey`. -/
def IsCompressedOrUncompressedPubKey (vchPubKey : valtype) : Bool :=
  if vchPubKey.length < 33 then false
  else if vchPubKey.getD 0 0 = 0x04 then vchPubKey.length = 65
  else if vchPubKey.getD 0 0 = 0x02 ∨ vchPubKey.getD 0 0 = 0x03 then vchPubKey.length = 33
  else false

/-- `IsValidSignatureEncoding`: strict DER, `0x30 [total-length] 0x02 [R-length] [R] 0x02
[S-length] [S] [sighash]`, with `R` and `S` non-negative and not padded. -/
def IsValidSignatureEncoding (sig : valtype) : Bool :=
  let b := fun i => (sig.getD i 0).toNat
  let lenR := b 3
  let lenS := b (5 + lenR)
  if sig.length < 9 then false
  else if sig.length > 73 then false
  else if b 0 ≠ 0x30 then false
  else if b 1 ≠ sig.length - 3 then false
  else if 5 + lenR ≥ sig.length then false
  else if lenR + lenS + 7 ≠ sig.length then false
  else if b 2 ≠ 0x02 then false
  else if lenR = 0 then false
  else if b 4 &&& 0x80 ≠ 0 then false
  else if lenR > 1 ∧ b 4 = 0 ∧ b 5 &&& 0x80 = 0 then false
  else if b (lenR + 4) ≠ 0x02 then false
  else if lenS = 0 then false
  else if b (lenR + 6) &&& 0x80 ≠ 0 then false
  else if lenS > 1 ∧ b (lenR + 6) = 0 ∧ b (lenR + 7) &&& 0x80 = 0 then false
  else true

/-- `IsDefinedHashtypeSignature`: the last byte without `SIGHASH_ANYONECANPAY` is one of
`SIGHASH_ALL`, `SIGHASH_NONE`, `SIGHASH_SINGLE`. -/
def IsDefinedHashtypeSignature (vchSig : valtype) : Bool :=
  if vchSig.length = 0 then false
  else
    let nHashType := vchSig.getLastD 0 &&& 0x7f
    !(nHashType < 1 || nHashType > 3)

/-- The cryptography the interpreter calls: the hashes of the crypto opcodes, and
`CPubKey::CheckLowS` on a DER signature. -/
structure ScriptCrypto where
  RIPEMD160 : valtype → valtype
  SHA1 : valtype → valtype
  SHA256 : valtype → valtype
  Hash160 : valtype → valtype
  Hash256 : valtype → valtype
  CheckLowS : valtype → Bool

section Encodings

variable (crypto : ScriptCrypto)

/-- `IsLowDERSignature`. -/
def IsLowDERSignature (vchSig : valtype) : Except ScriptError Unit :=
  if !IsValidSignatureEncoding vchSig then throw SCRIPT_ERR_SIG_DER
  else if !crypto.CheckLowS vchSig.dropLast then throw SCRIPT_ERR_SIG_HIGH_S
  else pure ()

/-- `CheckSignatureEncoding`: the empty signature passes; otherwise each of `DERSIG`,
`LOW_S` and `STRICTENC` adds its check. -/
def CheckSignatureEncoding (vchSig : valtype) (flags : UInt32) : Except ScriptError Unit :=
  if vchSig.length = 0 then pure ()
  else if hasFlag flags (SCRIPT_VERIFY_DERSIG ||| SCRIPT_VERIFY_LOW_S ||| SCRIPT_VERIFY_STRICTENC) &&
      !IsValidSignatureEncoding vchSig then throw SCRIPT_ERR_SIG_DER
  else
    -- a signature that passes the low-S check goes on to the hash type check
    (if hasFlag flags SCRIPT_VERIFY_LOW_S then IsLowDERSignature crypto vchSig else pure ()) >>=
      fun _ =>
        if hasFlag flags SCRIPT_VERIFY_STRICTENC && !IsDefinedHashtypeSignature vchSig then
          throw SCRIPT_ERR_SIG_HASHTYPE
        else pure ()

end Encodings

/-- `CheckPubKeyEncoding`. -/
def CheckPubKeyEncoding (vchPubKey : valtype) (flags : UInt32) : Except ScriptError Unit :=
  if hasFlag flags SCRIPT_VERIFY_STRICTENC && !IsCompressedOrUncompressedPubKey vchPubKey then
    throw SCRIPT_ERR_PUBKEYTYPE
  else pure ()

/-- `CheckMinimalPush`: the data could not have been pushed by a shorter instruction. -/
def CheckMinimalPush (data : valtype) (opcode : UInt8) : Bool :=
  if data.length = 0 then opcode = OP_0
  else if data.length = 1 ∧ 1 ≤ data.getD 0 0 ∧ data.getD 0 0 ≤ 16 then
    opcode.toNat = OP_1.toNat + ((data.getD 0 0).toNat - 1)
  else if data.length = 1 ∧ data.getD 0 0 = 0x81 then opcode = OP_1NEGATE
  else if data.length ≤ 75 then opcode.toNat = data.length
  else if data.length ≤ 255 then opcode = OP_PUSHDATA1
  else if data.length ≤ 65535 then opcode = OP_PUSHDATA2
  else true

/-! ## Checkers -/

/-- `BaseSignatureChecker`: the checks `EvalScript` delegates to its caller. -/
structure BaseSignatureChecker where
  CheckSig : valtype → valtype → CScript → Bool
  CheckLockTime : ℤ → Bool
  CheckSequence : ℤ → Bool

/-- `CTxIn::SEQUENCE_LOCKTIME_DISABLE_FLAG`. -/
def SEQUENCE_LOCKTIME_DISABLE_FLAG : ℕ := 1 <<< 31

/-! ## The opcode `switch` -/

/-- The numeric opcodes with one operand. -/
inductive UnaryNumOp
  | OP_1ADD | OP_1SUB | OP_NEGATE | OP_ABS | OP_NOT | OP_0NOTEQUAL
  deriving DecidableEq, Repr

/-- The inner `switch` of the one-operand numeric opcodes. -/
def UnaryNumOp.apply : UnaryNumOp → ℤ → ℤ
  | OP_1ADD, bn => bn + 1
  | OP_1SUB, bn => bn - 1
  | OP_NEGATE, bn => -bn
  | OP_ABS, bn => if bn < 0 then -bn else bn
  | OP_NOT, bn => boolNum (bn == 0)
  | OP_0NOTEQUAL, bn => boolNum (bn != 0)

/-- The numeric opcodes with two operands. -/
inductive BinaryNumOp
  | OP_ADD | OP_SUB | OP_BOOLAND | OP_BOOLOR | OP_NUMEQUAL | OP_NUMEQUALVERIFY
  | OP_NUMNOTEQUAL | OP_LESSTHAN | OP_GREATERTHAN | OP_LESSTHANOREQUAL
  | OP_GREATERTHANOREQUAL | OP_MIN | OP_MAX
  deriving DecidableEq, Repr

/-- The inner `switch` of the two-operand numeric opcodes. -/
def BinaryNumOp.apply : BinaryNumOp → ℤ → ℤ → ℤ
  | OP_ADD, bn1, bn2 => bn1 + bn2
  | OP_SUB, bn1, bn2 => bn1 - bn2
  | OP_BOOLAND, bn1, bn2 => boolNum (bn1 != 0 && bn2 != 0)
  | OP_BOOLOR, bn1, bn2 => boolNum (bn1 != 0 || bn2 != 0)
  | OP_NUMEQUAL, bn1, bn2 => boolNum (bn1 == bn2)
  | OP_NUMEQUALVERIFY, bn1, bn2 => boolNum (bn1 == bn2)
  | OP_NUMNOTEQUAL, bn1, bn2 => boolNum (bn1 != bn2)
  | OP_LESSTHAN, bn1, bn2 => boolNum (decide (bn1 < bn2))
  | OP_GREATERTHAN, bn1, bn2 => boolNum (decide (bn1 > bn2))
  | OP_LESSTHANOREQUAL, bn1, bn2 => boolNum (decide (bn1 ≤ bn2))
  | OP_GREATERTHANOREQUAL, bn1, bn2 => boolNum (decide (bn1 ≥ bn2))
  | OP_MIN, bn1, bn2 => if bn1 < bn2 then bn1 else bn2
  | OP_MAX, bn1, bn2 => if bn1 > bn2 then bn1 else bn2

/-- The hashing opcodes. -/
inductive HashOp
  | OP_RIPEMD160 | OP_SHA1 | OP_SHA256 | OP_HASH160 | OP_HASH256
  deriving DecidableEq, Repr

/-- The hash a hashing opcode computes. -/
def HashOp.apply (crypto : ScriptCrypto) : HashOp → valtype → valtype
  | OP_RIPEMD160 => crypto.RIPEMD160
  | OP_SHA1 => crypto.SHA1
  | OP_SHA256 => crypto.SHA256
  | OP_HASH160 => crypto.Hash160
  | OP_HASH256 => crypto.Hash256

/-- The groups of `case` labels of `EvalScript`'s `switch`, one constructor per block of
code. -/
inductive OpcodeCase
  /-- `OP_1NEGATE`, `OP_1` … `OP_16`. -/
  | smallInteger
  | nop
  | checkLockTimeVerify
  | checkSequenceVerify
  /-- `OP_NOP1`, `OP_NOP4` … `OP_NOP10`. -/
  | upgradableNop
  /-- `OP_IF`, and `OP_NOTIF` when `notIf`. -/
  | ifOrNotIf (notIf : Bool)
  | opElse
  | endIf
  | verify
  | opReturn
  | toAltStack
  | fromAltStack
  | drop2
  | dup2
  | dup3
  | over2
  | rot2
  | swap2
  | ifDup
  | depth
  | drop
  | dup
  | nip
  | over
  /-- `OP_PICK`, and `OP_ROLL` when `roll`. -/
  | pickOrRoll (roll : Bool)
  | rot
  | swap
  | tuck
  | size
  /-- `OP_EQUAL`, and `OP_EQUALVERIFY` when `isVerify`. -/
  | equal (isVerify : Bool)
  | unaryNum (op : UnaryNumOp)
  | binaryNum (op : BinaryNumOp)
  | within
  | hash (op : HashOp)
  | codeSeparator
  /-- `OP_CHECKSIG`, and `OP_CHECKSIGVERIFY` when `isVerify`. -/
  | checkSig (isVerify : Bool)
  /-- `OP_CHECKMULTISIG`, and `OP_CHECKMULTISIGVERIFY` when `isVerify`. -/
  | checkMultiSig (isVerify : Bool)
  /-- The `default` label: `SCRIPT_ERR_BAD_OPCODE`. -/
  | bad
  deriving DecidableEq, Repr

/-- The `case` an opcode reaches (the values of `script.h`'s `opcodetype`). -/
def classifyOpcode (opcode : UInt8) : OpcodeCase :=
  match opcode.toNat with
  | 0x4f | 0x51 | 0x52 | 0x53 | 0x54 | 0x55 | 0x56 | 0x57 | 0x58 | 0x59 | 0x5a | 0x5b | 0x5c
  | 0x5d | 0x5e | 0x5f | 0x60 => .smallInteger
  | 0x61 => .nop                                   -- OP_NOP
  | 0x63 => .ifOrNotIf false                       -- OP_IF
  | 0x64 => .ifOrNotIf true                        -- OP_NOTIF
  | 0x67 => .opElse                                -- OP_ELSE
  | 0x68 => .endIf                                 -- OP_ENDIF
  | 0x69 => .verify                                -- OP_VERIFY
  | 0x6a => .opReturn                              -- OP_RETURN
  | 0x6b => .toAltStack                            -- OP_TOALTSTACK
  | 0x6c => .fromAltStack                          -- OP_FROMALTSTACK
  | 0x6d => .drop2                                 -- OP_2DROP
  | 0x6e => .dup2                                  -- OP_2DUP
  | 0x6f => .dup3                                  -- OP_3DUP
  | 0x70 => .over2                                 -- OP_2OVER
  | 0x71 => .rot2                                  -- OP_2ROT
  | 0x72 => .swap2                                 -- OP_2SWAP
  | 0x73 => .ifDup                                 -- OP_IFDUP
  | 0x74 => .depth                                 -- OP_DEPTH
  | 0x75 => .drop                                  -- OP_DROP
  | 0x76 => .dup                                   -- OP_DUP
  | 0x77 => .nip                                   -- OP_NIP
  | 0x78 => .over                                  -- OP_OVER
  | 0x79 => .pickOrRoll false                      -- OP_PICK
  | 0x7a => .pickOrRoll true                       -- OP_ROLL
  | 0x7b => .rot                                   -- OP_ROT
  | 0x7c => .swap                                  -- OP_SWAP
  | 0x7d => .tuck                                  -- OP_TUCK
  | 0x82 => .size                                  -- OP_SIZE
  | 0x87 => .equal false                           -- OP_EQUAL
  | 0x88 => .equal true                            -- OP_EQUALVERIFY
  | 0x8b => .unaryNum .OP_1ADD
  | 0x8c => .unaryNum .OP_1SUB
  | 0x8f => .unaryNum .OP_NEGATE
  | 0x90 => .unaryNum .OP_ABS
  | 0x91 => .unaryNum .OP_NOT
  | 0x92 => .unaryNum .OP_0NOTEQUAL
  | 0x93 => .binaryNum .OP_ADD
  | 0x94 => .binaryNum .OP_SUB
  | 0x9a => .binaryNum .OP_BOOLAND
  | 0x9b => .binaryNum .OP_BOOLOR
  | 0x9c => .binaryNum .OP_NUMEQUAL
  | 0x9d => .binaryNum .OP_NUMEQUALVERIFY
  | 0x9e => .binaryNum .OP_NUMNOTEQUAL
  | 0x9f => .binaryNum .OP_LESSTHAN
  | 0xa0 => .binaryNum .OP_GREATERTHAN
  | 0xa1 => .binaryNum .OP_LESSTHANOREQUAL
  | 0xa2 => .binaryNum .OP_GREATERTHANOREQUAL
  | 0xa3 => .binaryNum .OP_MIN
  | 0xa4 => .binaryNum .OP_MAX
  | 0xa5 => .within                               -- OP_WITHIN
  | 0xa6 => .hash .OP_RIPEMD160
  | 0xa7 => .hash .OP_SHA1
  | 0xa8 => .hash .OP_SHA256
  | 0xa9 => .hash .OP_HASH160
  | 0xaa => .hash .OP_HASH256
  | 0xab => .codeSeparator                         -- OP_CODESEPARATOR
  | 0xac => .checkSig false                        -- OP_CHECKSIG
  | 0xad => .checkSig true                         -- OP_CHECKSIGVERIFY
  | 0xae => .checkMultiSig false                   -- OP_CHECKMULTISIG
  | 0xaf => .checkMultiSig true                    -- OP_CHECKMULTISIGVERIFY
  | 0xb0 | 0xb3 | 0xb4 | 0xb5 | 0xb6 | 0xb7 | 0xb8 | 0xb9 => .upgradableNop
  | 0xb1 => .checkLockTimeVerify                   -- OP_CHECKLOCKTIMEVERIFY
  | 0xb2 => .checkSequenceVerify                   -- OP_CHECKSEQUENCEVERIFY
  | _ => .bad

/-- The disabled opcodes: `OP_CAT`, `OP_SUBSTR`, `OP_LEFT`, `OP_RIGHT`, `OP_INVERT`, `OP_AND`,
`OP_OR`, `OP_XOR`, `OP_2MUL`, `OP_2DIV`, `OP_MUL`, `OP_DIV`, `OP_MOD`, `OP_LSHIFT`,
`OP_RSHIFT`. -/
def isDisabledOpcode (opcode : UInt8) : Bool :=
  opcode.toNat ∈ [0x7e, 0x7f, 0x80, 0x81, 0x83, 0x84, 0x85, 0x86, 0x8d, 0x8e, 0x95, 0x96,
    0x97, 0x98, 0x99]

/-- The state `EvalScript`'s loop carries: the main stack, the alternate stack, the
condition stack `vfExec` (innermost first), the start of the code hashed by the signature
opcodes, and the operation count. -/
structure EvalState where
  stack : List valtype
  altstack : List valtype
  vfExec : List Bool
  pbegincodehash : ℕ
  nOpCount : ℕ
  deriving DecidableEq, Repr

section Eval

variable (flags : UInt32) (crypto : ScriptCrypto) (checker : BaseSignatureChecker)
  (script : CScript)

/-- The lock-time opcodes once enabled: the operand is a number of at most five bytes, not
negative, that the checker accepts. `CHECKSEQUENCEVERIFY` passes an operand with the disable
flag set. -/
def checkLockTimeOperand (isSequence : Bool) (s : EvalState) : Except ScriptError EvalState :=
  if s.stack.length < 1 then throw SCRIPT_ERR_INVALID_STACK_OPERATION
  else do
    let top ← stacktop s.stack 1
    let n ← scriptNum top (fRequireMinimal flags) 5
    if n < 0 then throw SCRIPT_ERR_NEGATIVE_LOCKTIME
    else if isSequence && n.toNat &&& SEQUENCE_LOCKTIME_DISABLE_FLAG ≠ 0 then pure s
    else if !(if isSequence then checker.CheckSequence n else checker.CheckLockTime n) then
      throw SCRIPT_ERR_UNSATISFIED_LOCKTIME
    else pure s

/-- `CHECKLOCKTIMEVERIFY` and `CHECKSEQUENCEVERIFY`: a no-op (`NOP2`, `NOP3`) while their
flag is off, which `DISCOURAGE_UPGRADABLE_NOPS` turns into an error. -/
def lockTimeVerify (enableFlag : UInt32) (isSequence : Bool) (s : EvalState) :
    Except ScriptError EvalState :=
  if !hasFlag flags enableFlag then
    if hasFlag flags SCRIPT_VERIFY_DISCOURAGE_UPGRADABLE_NOPS then
      throw SCRIPT_ERR_DISCOURAGE_UPGRADABLE_NOPS
    else pure s
  else checkLockTimeOperand flags checker isSequence s

/-- The script code the signature opcodes hash: from the last code separator to the end, with
every push of each given signature deleted. -/
def scriptCodeWithout (pbegincodehash : ℕ) (sigs : List valtype) : CScript :=
  sigs.foldl (fun scriptCode vchSig => (CScript.FindAndDelete scriptCode (CScript.pushData vchSig)).1)
    (script.drop pbegincodehash)

/-- The signature loop of `CHECKMULTISIG`, from the signature at `stacktop(-isig)` and the key
at `stacktop(-ikey)` with `nSigsCount` signatures and `nKeysCount` keys left: each key is tried
against the current signature, which moves on when it matches; the loop fails as soon as more
signatures than keys are left. -/
def multisigLoop (stack : List valtype) (scriptCode : CScript) :
    ℕ → ℕ → ℕ → ℕ → Except ScriptError Bool
  | _, _, 0, _ => pure true
  -- unreachable: the loop is entered with no more signatures than keys, and stops as soon as
  -- there are more
  | _, _, _ + 1, 0 => pure false
  | isig, ikey, nSigsCount + 1, nKeysCount + 1 => do
    let vchSig ← stacktop stack isig
    let vchPubKey ← stacktop stack ikey
    CheckSignatureEncoding crypto vchSig flags
    CheckPubKeyEncoding vchPubKey flags
    let fOk := checker.CheckSig vchSig vchPubKey scriptCode
    let isig' := if fOk then isig + 1 else isig
    let nSigsCount' := if fOk then nSigsCount else nSigsCount + 1
    if nSigsCount' > nKeysCount then pure false
    else multisigLoop stack scriptCode isig' (ikey + 1) nSigsCount' nKeysCount

/-- The end of `OP_EQUAL`, `OP_CHECKSIG` and `OP_CHECKMULTISIG` and their `VERIFY` forms:
push the result as `vchTrue` or `vchFalse`; the `VERIFY` form pops it again, or fails with its
own error when it is false. -/
def pushBoolVerify (isVerify fValue : Bool) (err : ScriptError) (s : EvalState)
    (stack : List valtype) : Except ScriptError EvalState :=
  let stack := (if fValue then vchTrue else vchFalse) :: stack
  if isVerify then
    if fValue then do
      let stack ← popstack stack
      pure { s with stack }
    else throw err
  else pure { s with stack }

/-- `OP_CHECKMULTISIG` once both counts are read and checked, with `nKeys` keys at
`stacktop(-2)` … and `nSigs` signatures below them: the signature loop, then the arguments and
one extra element popped (`while (i-- > 1) popstack(stack)`, then the dummy), and the
operation count raised by the number of keys. -/
def checkMultiSigWith (isVerify : Bool) (s : EvalState) (nKeys nSigs : ℕ) :
    Except ScriptError EvalState :=
  let ikey := 2
  let isig := ikey + nKeys + 1
  let i := isig + nSigs
  if s.stack.length < i then throw SCRIPT_ERR_INVALID_STACK_OPERATION
  else do
    let sigs ← (List.range nSigs).mapM fun k => stacktop s.stack (isig + k)
    let scriptCode := scriptCodeWithout script s.pbegincodehash sigs
    let fSuccess ← multisigLoop flags crypto checker s.stack scriptCode isig ikey nSigs nKeys
    let stack := s.stack.drop (i - 1)
    if stack.length < 1 then throw SCRIPT_ERR_INVALID_STACK_OPERATION
    else do
      let dummy ← stacktop stack 1
      if hasFlag flags SCRIPT_VERIFY_NULLDUMMY && dummy.length ≠ 0 then
        throw SCRIPT_ERR_SIG_NULLDUMMY
      else do
        let stack ← popstack stack
        pushBoolVerify isVerify fSuccess SCRIPT_ERR_CHECKMULTISIGVERIFY
          { s with nOpCount := s.nOpCount + nKeys } stack

/-- `OP_CHECKMULTISIG` and `OP_CHECKMULTISIGVERIFY`: `[sig ...] nSigs [pubkey ...] nKeys`, the
key count at most `MAX_PUBKEYS_PER_MULTISIG` and within the operation limit, the signature
count at most the key count. -/
def checkMultiSig (isVerify : Bool) (s : EvalState) : Except ScriptError EvalState :=
  if s.stack.length < 1 then throw SCRIPT_ERR_INVALID_STACK_OPERATION
  else do
    let nKeysCount := CScriptNum.getint (← numAt flags s.stack 1)
    if nKeysCount < 0 ∨ nKeysCount > MAX_PUBKEYS_PER_MULTISIG then throw SCRIPT_ERR_PUBKEY_COUNT
    else if s.nOpCount + nKeysCount.toNat > MAX_OPS_PER_SCRIPT then throw SCRIPT_ERR_OP_COUNT
    else if s.stack.length < 2 + nKeysCount.toNat then throw SCRIPT_ERR_INVALID_STACK_OPERATION
    else do
      let nSigsCount := CScriptNum.getint (← numAt flags s.stack (2 + nKeysCount.toNat))
      if nSigsCount < 0 ∨ nSigsCount > nKeysCount then throw SCRIPT_ERR_SIG_COUNT
      else
        checkMultiSigWith flags crypto checker script isVerify s nKeysCount.toNat nSigsCount.toNat

/-- `OP_CHECKSIG` and `OP_CHECKSIGVERIFY`: `sig pubkey -- bool`. -/
def checkSig (isVerify : Bool) (s : EvalState) : Except ScriptError EvalState :=
  if s.stack.length < 2 then throw SCRIPT_ERR_INVALID_STACK_OPERATION
  else do
    let vchSig ← stacktop s.stack 2
    let vchPubKey ← stacktop s.stack 1
    let scriptCode := scriptCodeWithout script s.pbegincodehash [vchSig]
    CheckSignatureEncoding crypto vchSig flags
    CheckPubKeyEncoding vchPubKey flags
    let fSuccess := checker.CheckSig vchSig vchPubKey scriptCode
    let stack ← popstack s.stack
    let stack ← popstack stack
    pushBoolVerify isVerify fSuccess SCRIPT_ERR_CHECKSIGVERIFY s stack

/-- The stack-manipulation cases, which read no flags: each checks the stack depth it needs
and rearranges the top of the stack. -/
def stackOp : OpcodeCase → List valtype → Except ScriptError (List valtype)
  | .drop2, stack =>
    if stack.length < 2 then throw SCRIPT_ERR_INVALID_STACK_OPERATION
    else do popstack (← popstack stack)
  | .dup2, stack =>
    if stack.length < 2 then throw SCRIPT_ERR_INVALID_STACK_OPERATION
    else do
      let vch1 ← stacktop stack 2
      let vch2 ← stacktop stack 1
      pure (vch2 :: vch1 :: stack)
  | .dup3, stack =>
    if stack.length < 3 then throw SCRIPT_ERR_INVALID_STACK_OPERATION
    else do
      let vch1 ← stacktop stack 3
      let vch2 ← stacktop stack 2
      let vch3 ← stacktop stack 1
      pure (vch3 :: vch2 :: vch1 :: stack)
  | .over2, stack =>
    if stack.length < 4 then throw SCRIPT_ERR_INVALID_STACK_OPERATION
    else do
      let vch1 ← stacktop stack 4
      let vch2 ← stacktop stack 3
      pure (vch2 :: vch1 :: stack)
  | .rot2, stack =>
    if stack.length < 6 then throw SCRIPT_ERR_INVALID_STACK_OPERATION
    else do
      let vch1 ← stacktop stack 6
      let vch2 ← stacktop stack 5
      -- `stack.erase(stack.end()-6, stack.end()-4)`
      pure (vch2 :: vch1 :: (stack.take 4 ++ stack.drop 6))
  | .swap2, stack =>
    match stack with
    | x1 :: x2 :: x3 :: x4 :: rest => pure (x3 :: x4 :: x1 :: x2 :: rest)
    | _ => throw SCRIPT_ERR_INVALID_STACK_OPERATION
  | .ifDup, stack =>
    if stack.length < 1 then throw SCRIPT_ERR_INVALID_STACK_OPERATION
    else do
      let vch ← stacktop stack 1
      pure (if CastToBool vch then vch :: stack else stack)
  | .depth, stack => pure (CScriptNum.serialize stack.length :: stack)
  | .drop, stack =>
    if stack.length < 1 then throw SCRIPT_ERR_INVALID_STACK_OPERATION
    else popstack stack
  | .dup, stack =>
    if stack.length < 1 then throw SCRIPT_ERR_INVALID_STACK_OPERATION
    else do
      let vch ← stacktop stack 1
      pure (vch :: stack)
  | .nip, stack =>
    match stack with
    | x1 :: _ :: rest => pure (x1 :: rest)
    | _ => throw SCRIPT_ERR_INVALID_STACK_OPERATION
  | .over, stack =>
    if stack.length < 2 then throw SCRIPT_ERR_INVALID_STACK_OPERATION
    else do
      let vch ← stacktop stack 2
      pure (vch :: stack)
  | .rot, stack =>
    match stack with
    | x1 :: x2 :: x3 :: rest => pure (x3 :: x1 :: x2 :: rest)
    | _ => throw SCRIPT_ERR_INVALID_STACK_OPERATION
  | .swap, stack =>
    match stack with
    | x1 :: x2 :: rest => pure (x2 :: x1 :: rest)
    | _ => throw SCRIPT_ERR_INVALID_STACK_OPERATION
  | .tuck, stack =>
    match stack with
    | x1 :: x2 :: rest => pure (x1 :: x2 :: x1 :: rest)
    | _ => throw SCRIPT_ERR_INVALID_STACK_OPERATION
  | .size, stack =>
    if stack.length < 1 then throw SCRIPT_ERR_INVALID_STACK_OPERATION
    else do
      let vch ← stacktop stack 1
      pure (CScriptNum.serialize vch.length :: stack)
  | _, _ => throw SCRIPT_ERR_BAD_OPCODE

/-- One `case` of the `switch`, on an instruction read at `op` with the condition `fExec`. -/
def ExecOpcode (fExec : Bool) (op : CScript.ScriptOp) (s : EvalState) :
    OpcodeCase → Except ScriptError EvalState
  | .smallInteger =>
    pure { s with stack := CScriptNum.serialize ((op.opcode.toNat : ℤ) - (OP_1.toNat - 1)) :: s.stack }
  | .nop => pure s
  | .checkLockTimeVerify => lockTimeVerify flags checker SCRIPT_VERIFY_CHECKLOCKTIMEVERIFY false s
  | .checkSequenceVerify => lockTimeVerify flags checker SCRIPT_VERIFY_CHECKSEQUENCEVERIFY true s
  | .upgradableNop =>
    if hasFlag flags SCRIPT_VERIFY_DISCOURAGE_UPGRADABLE_NOPS then
      throw SCRIPT_ERR_DISCOURAGE_UPGRADABLE_NOPS
    else pure s
  | .ifOrNotIf notIf =>
    if fExec then
      if s.stack.length < 1 then throw SCRIPT_ERR_UNBALANCED_CONDITIONAL
      else do
        let vch ← stacktop s.stack 1
        let fValue := if notIf then !CastToBool vch else CastToBool vch
        let stack ← popstack s.stack
        pure { s with stack, vfExec := fValue :: s.vfExec }
    -- a branch that is not executed only records that its body is skipped
    else pure { s with vfExec := false :: s.vfExec }
  | .opElse =>
    match s.vfExec with
    | [] => throw SCRIPT_ERR_UNBALANCED_CONDITIONAL
    | b :: rest => pure { s with vfExec := (!b) :: rest }
  | .endIf =>
    match s.vfExec with
    | [] => throw SCRIPT_ERR_UNBALANCED_CONDITIONAL
    | _ :: rest => pure { s with vfExec := rest }
  | .verify =>
    if s.stack.length < 1 then throw SCRIPT_ERR_INVALID_STACK_OPERATION
    else do
      let vch ← stacktop s.stack 1
      if CastToBool vch then
        let stack ← popstack s.stack
        pure { s with stack }
      else throw SCRIPT_ERR_VERIFY
  | .opReturn => throw SCRIPT_ERR_OP_RETURN
  | .toAltStack =>
    if s.stack.length < 1 then throw SCRIPT_ERR_INVALID_STACK_OPERATION
    else do
      let vch ← stacktop s.stack 1
      let stack ← popstack s.stack
      pure { s with stack, altstack := vch :: s.altstack }
  | .fromAltStack =>
    match s.altstack with
    | [] => throw SCRIPT_ERR_INVALID_ALTSTACK_OPERATION
    | vch :: rest => pure { s with stack := vch :: s.stack, altstack := rest }
  | .pickOrRoll roll =>
    if s.stack.length < 2 then throw SCRIPT_ERR_INVALID_STACK_OPERATION
    else do
      let n := CScriptNum.getint (← numAt flags s.stack 1)
      let stack ← popstack s.stack
      if n < 0 ∨ n ≥ stack.length then throw SCRIPT_ERR_INVALID_STACK_OPERATION
      else do
        let vch ← stacktop stack (n.toNat + 1)
        let stack := if roll then stack.eraseIdx n.toNat else stack
        pure { s with stack := vch :: stack }
  | .equal isVerify =>
    if s.stack.length < 2 then throw SCRIPT_ERR_INVALID_STACK_OPERATION
    else do
      let vch1 ← stacktop s.stack 2
      let vch2 ← stacktop s.stack 1
      let fEqual := vch1 == vch2
      let stack ← popstack s.stack
      let stack ← popstack stack
      pushBoolVerify isVerify fEqual SCRIPT_ERR_EQUALVERIFY s stack
  | .unaryNum f =>
    if s.stack.length < 1 then throw SCRIPT_ERR_INVALID_STACK_OPERATION
    else do
      let bn ← numAt flags s.stack 1
      let stack ← popstack s.stack
      pure { s with stack := CScriptNum.serialize (f.apply bn) :: stack }
  | .binaryNum f =>
    if s.stack.length < 2 then throw SCRIPT_ERR_INVALID_STACK_OPERATION
    else do
      let bn1 ← numAt flags s.stack 2
      let bn2 ← numAt flags s.stack 1
      let stack ← popstack s.stack
      let stack ← popstack stack
      let stack := CScriptNum.serialize (f.apply bn1 bn2) :: stack
      if f = .OP_NUMEQUALVERIFY then
        if CastToBool (CScriptNum.serialize (f.apply bn1 bn2)) then
          let stack ← popstack stack
          pure { s with stack }
        else throw SCRIPT_ERR_NUMEQUALVERIFY
      else pure { s with stack }
  | .within =>
    if s.stack.length < 3 then throw SCRIPT_ERR_INVALID_STACK_OPERATION
    else do
      let bn1 ← numAt flags s.stack 3
      let bn2 ← numAt flags s.stack 2
      let bn3 ← numAt flags s.stack 1
      let fValue := decide (bn2 ≤ bn1 ∧ bn1 < bn3)
      pure { s with stack := (if fValue then vchTrue else vchFalse) :: s.stack.drop 3 }
  | .hash h =>
    if s.stack.length < 1 then throw SCRIPT_ERR_INVALID_STACK_OPERATION
    else do
      let vch ← stacktop s.stack 1
      let stack ← popstack s.stack
      pure { s with stack := h.apply crypto vch :: stack }
  | .codeSeparator => pure { s with pbegincodehash := op.pcNext }
  | .checkSig isVerify => checkSig flags crypto checker script isVerify s
  | .checkMultiSig isVerify => checkMultiSig flags crypto checker script isVerify s
  | .bad => throw SCRIPT_ERR_BAD_OPCODE
  | c => do
    let stack ← stackOp c s.stack
    pure { s with stack }

/-- The checks every instruction read goes through before it runs: the push size, the
operation count of the opcodes above `OP_16`, and the disabled opcodes. -/
def readChecks (op : CScript.ScriptOp) (s : EvalState) : Except ScriptError EvalState :=
  if op.vch.length > MAX_SCRIPT_ELEMENT_SIZE then throw SCRIPT_ERR_PUSH_SIZE
  else if op.opcode > OP_16 ∧ s.nOpCount + 1 > MAX_OPS_PER_SCRIPT then
    throw SCRIPT_ERR_OP_COUNT
  else if isDisabledOpcode op.opcode then throw SCRIPT_ERR_DISABLED_OPCODE
  else pure { s with nOpCount := if op.opcode > OP_16 then s.nOpCount + 1 else s.nOpCount }

/-- What an instruction does after its checks: an executed push pushes its data (minimal
under `MINIMALDATA`); an executed opcode, or a conditional one in a skipped branch, runs its
`case`; anything else in a skipped branch does nothing. -/
def execute (op : CScript.ScriptOp) (s : EvalState) : Except ScriptError EvalState :=
  let fExec := !s.vfExec.contains false
  if fExec && op.opcode ≤ OP_PUSHDATA4 then
    if fRequireMinimal flags && !CheckMinimalPush op.vch op.opcode then
      throw SCRIPT_ERR_MINIMALDATA
    else pure { s with stack := op.vch :: s.stack }
  else if fExec || (OP_IF ≤ op.opcode && op.opcode ≤ OP_ENDIF) then
    ExecOpcode flags crypto checker script fExec op s (classifyOpcode op.opcode)
  else pure s

/-- The size limit checked after every instruction. -/
def checkStackSize (s : EvalState) : Except ScriptError EvalState :=
  if s.stack.length + s.altstack.length > 1000 then throw SCRIPT_ERR_STACK_SIZE
  else pure s

/-- One iteration of `EvalScript`'s loop. -/
def EvalStep (s : EvalState) (op : CScript.ScriptOp) : Except ScriptError EvalState := do
  let s ← readChecks op s
  let s ← execute flags crypto checker script op s
  checkStackSize s

end Eval

/-- `EvalScript(stack, script, flags, checker)`: the stack it leaves. -/
def EvalScript (flags : UInt32) (crypto : ScriptCrypto) (checker : BaseSignatureChecker)
    (stack : List valtype) (script : CScript) : Except ScriptError (List valtype) :=
  if script.length > 10000 then throw SCRIPT_ERR_SCRIPT_SIZE
  else do
    let d := CScript.decode script
    let s ← d.ops.foldlM (EvalStep flags crypto checker script) ⟨stack, [], [], 0, 0⟩
    -- a read that failed ends the loop after the instructions before it
    if d.failed then throw SCRIPT_ERR_BAD_OPCODE
    else if !s.vfExec.isEmpty then throw SCRIPT_ERR_UNBALANCED_CONDITIONAL
    else pure s.stack

/-! ## `VerifyScript` -/

/-- How `VerifyScript` fails: with a script error, or on one of its `assert`s. -/
inductive VerifyError
  | scriptError (e : ScriptError)
  | assertion (expr : String)
  deriving DecidableEq, Repr

/-- The checks of a finished evaluation: a non-empty stack whose top is true. -/
def checkEvalTrue (stack : List valtype) : Except ScriptError Unit :=
  match stack with
  | [] => throw SCRIPT_ERR_EVAL_FALSE
  | top :: _ => if CastToBool top then pure () else throw SCRIPT_ERR_EVAL_FALSE

section Verify

variable (flags : UInt32) (crypto : ScriptCrypto) (checker : BaseSignatureChecker)

/-- The pay-to-script-hash evaluation: the unlocking script must be push-only, and the
serialized script on top of the stack it left runs on the rest of that stack. -/
def evalRedeemScript (scriptSig : CScript) (stackCopy : List valtype) :
    Except VerifyError (List valtype) :=
  if !scriptSig.IsPushOnly then throw (.scriptError SCRIPT_ERR_SIG_PUSHONLY)
  else
    match stackCopy with
    | [] => throw (.assertion "!stack.empty()")
    | pubKeySerialized :: stack => do
      let stack ← (EvalScript flags crypto checker stack pubKeySerialized).mapError .scriptError
      (checkEvalTrue stack).mapError .scriptError
      pure stack

/-- The `CLEANSTACK` check, which asserts `P2SH`. -/
def checkCleanStack (stack : List valtype) : Except VerifyError Unit :=
  if hasFlag flags SCRIPT_VERIFY_CLEANSTACK then
    if !hasFlag flags SCRIPT_VERIFY_P2SH then
      throw (.assertion "(flags & SCRIPT_VERIFY_P2SH) != 0")
    else if stack.length ≠ 1 then throw (.scriptError SCRIPT_ERR_CLEANSTACK)
    else pure ()
  else pure ()

/-- `VerifyScript(scriptSig, scriptPubKey, flags, checker)`. -/
def VerifyScript (scriptSig scriptPubKey : CScript) : Except VerifyError Unit :=
  if hasFlag flags SCRIPT_VERIFY_SIGPUSHONLY && !scriptSig.IsPushOnly then
    throw (.scriptError SCRIPT_ERR_SIG_PUSHONLY)
  else do
    let stack ← (EvalScript flags crypto checker [] scriptSig).mapError .scriptError
    let stackCopy := stack
    let stack ← (EvalScript flags crypto checker stack scriptPubKey).mapError .scriptError
    (checkEvalTrue stack).mapError .scriptError
    let stack ← (if hasFlag flags SCRIPT_VERIFY_P2SH && scriptPubKey.IsPayToScriptHash then
        evalRedeemScript flags crypto checker scriptSig stackCopy
      else pure stack)
    checkCleanStack flags stack

end Verify

end MvfBu
