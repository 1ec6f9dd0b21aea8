import MvfBu.Script.ScriptNum
import MvfBu.Script.Interpreter
import MvfBu.Lib.ThrowsOnlyIf

set_option autoImplicit false

/-!
# The stack accesses and number asserts of `EvalScript`

`EvalScript` reads its stacks with `stacktop(i)`, which is `std::vector::at`, and `popstack`;
both throw on a stack that is too short, and so does a `CScriptNum` built from bytes it
refuses. The `catch (...)` around the loop turns all of these into `SCRIPT_ERR_UNKNOWN_ERROR`.
Every case of the `switch` checks the depth it needs before it reads, `CHECKMULTISIG` through a
loop whose indices stay below the depth it checked, so of these throws only the number
decoding is ever reached: `EvalScript` fails with `SCRIPT_ERR_UNKNOWN_ERROR` only at an
instruction that decodes one of its operands, an element of the stack at a depth it has
checked, from bytes `CScriptNum` refuses.

The one-operand numeric opcodes call `CScriptNum::operator+=`, `operator-=` and the unary
`operator-`, which assert that the result fits in `int64_t`. Their operands are decoded from at
most four bytes, far inside those bounds, so the asserts hold and the source's inner `switch`
computes what `UnaryNumOp.apply` does.

## Main definitions

* `MvfBu.RefusedAt` — the element `stacktop(-i)` is bytes `CScriptNum` refuses.
* `MvfBu.numOperands`, `MvfBu.NumOperandRefused` — the elements each `case` of the `switch`
  decodes as numbers, and one of them refused.
* `MvfBu.UnaryNumOp.applyAsserting` — the inner `switch` of the one-operand numeric opcodes
  with the asserts of the operators it calls.

## Main results

* `MvfBu.EvalStep_throwsOnlyIf` — one instruction throws the catch-all error only if one of the
  operands it decodes is refused.
* `MvfBu.EvalScript_catch_all_only_scriptnum_error` — the same for a whole script, and the
  asserts of the numeric operators hold on every operand read from a stack.
-/

namespace MvfBu

open ScriptError Except

/-- The element `stacktop(-i)` of the stack is bytes that `CScriptNum` refuses at the size
limit `nMaxNumSize`: decoding it raises a `scriptnum_error`. -/
def RefusedAt (flags : UInt32) (stack : List valtype) (i nMaxNumSize : ℕ) : Prop :=
  ∃ vch e, stack[i - 1]? = some vch ∧
    CScriptNum.ofVch vch (fRequireMinimal flags) nMaxNumSize = .error e

/-- The operands a `case` of the `switch` decodes as numbers, each as the depth `i` of
`stacktop(-i)` and the size limit: the top for `PICK`, `ROLL` and the one-operand opcodes, and
at five bytes for the lock-time opcodes; the two or three top elements for the two-operand
opcodes and `WITHIN`; for `CHECKMULTISIG` the key count at the top and, once it is read, the
signature count below the keys it gives. -/
def numOperands (flags : UInt32) (c : OpcodeCase) (stack : List valtype) : List (ℕ × ℕ) :=
  match c with
  | .checkLockTimeVerify | .checkSequenceVerify => [(1, 5)]
  | .pickOrRoll _ | .unaryNum _ => [(1, CScriptNum.nDefaultMaxNumSize)]
  | .binaryNum _ => [(2, CScriptNum.nDefaultMaxNumSize), (1, CScriptNum.nDefaultMaxNumSize)]
  | .within =>
    [(3, CScriptNum.nDefaultMaxNumSize), (2, CScriptNum.nDefaultMaxNumSize),
      (1, CScriptNum.nDefaultMaxNumSize)]
  | .checkMultiSig _ =>
    (1, CScriptNum.nDefaultMaxNumSize) ::
      match numAt flags stack 1 with
      | .ok n => [(2 + (CScriptNum.getint n).toNat, CScriptNum.nDefaultMaxNumSize)]
      | .error _ => []
  | _ => []

/-- An instruction of `case` `c` decodes one of its operands from bytes `CScriptNum` refuses. -/
def NumOperandRefused (flags : UInt32) (c : OpcodeCase) (stack : List valtype) : Prop :=
  ∃ p ∈ numOperands flags c stack, RefusedAt flags stack p.1 p.2

/-! ## Reading the stack -/

section Reads

variable {stack : List valtype} {e : ScriptError} {Q : Prop}

lemma stacktop_throwsOnlyIf {i : ℕ} (h₁ : 1 ≤ i) (h₂ : i ≤ stack.length) :
    (stacktop stack i).ThrowsOnlyIf e Q := by
  unfold stacktop
  rw [List.getElem?_eq_getElem (by omega)]
  exact ThrowsOnlyIf.pure _

lemma getElem?_of_stacktop {i : ℕ} {v : valtype} (h : stacktop stack i = .ok v) :
    stack[i - 1]? = some v := by
  unfold stacktop at h
  split at h
  · rename_i hv
    cases h
    exact hv
  · cases h

lemma popstack_throwsOnlyIf (h : 1 ≤ stack.length) : (popstack stack).ThrowsOnlyIf e Q := by
  cases stack with
  | nil => exact absurd h (by simp)
  | cons x rest => exact ThrowsOnlyIf.pure _

lemma length_of_popstack {rest : List valtype} (h : popstack stack = .ok rest) :
    rest.length + 1 = stack.length := by
  cases stack with
  | nil => cases h
  | cons x rest' =>
    cases h
    rfl

variable (flags : UInt32)

/-- A number decoded from `stacktop(-i)` throws only a `scriptnum_error`. -/
lemma scriptNum_throwsOnlyIf {vch : valtype} {i : ℕ} (hvch : stack[i - 1]? = some vch) (n : ℕ) :
    (scriptNum vch (fRequireMinimal flags) n).ThrowsOnlyIf SCRIPT_ERR_UNKNOWN_ERROR
      (RefusedAt flags stack i n) := by
  intro h
  unfold scriptNum at h
  cases hv : CScriptNum.ofVch vch (fRequireMinimal flags) n with
  | error e' => exact ⟨vch, e', hvch, hv⟩
  | ok v =>
    rw [hv] at h
    cases h

lemma numAt_throwsOnlyIf {i : ℕ} (h₁ : 1 ≤ i) (h₂ : i ≤ stack.length) :
    (numAt flags stack i).ThrowsOnlyIf SCRIPT_ERR_UNKNOWN_ERROR
      (RefusedAt flags stack i CScriptNum.nDefaultMaxNumSize) := by
  unfold numAt
  exact ThrowsOnlyIf.bind (stacktop_throwsOnlyIf h₁ h₂) fun _ hv =>
    scriptNum_throwsOnlyIf flags (getElem?_of_stacktop hv) _

/-- A number an instruction reads at a depth it has checked throws only when that operand of
its `case` is refused. -/
lemma numAt_throwsOnlyIf_operand {c : OpcodeCase} {i : ℕ} (h₁ : 1 ≤ i) (h₂ : i ≤ stack.length)
    (hmem : (i, CScriptNum.nDefaultMaxNumSize) ∈ numOperands flags c stack) :
    (numAt flags stack i).ThrowsOnlyIf SCRIPT_ERR_UNKNOWN_ERROR (NumOperandRefused flags c stack) :=
  (numAt_throwsOnlyIf flags h₁ h₂).mono fun h => ⟨_, hmem, h⟩

end Reads

/-! ## The cases of the `switch` -/

section Cases

variable (flags : UInt32) (crypto : ScriptCrypto) (checker : BaseSignatureChecker)
  (script : CScript) {Q : Prop}

lemma CheckSignatureEncoding_throwsOnlyIf (vchSig : valtype) :
    (CheckSignatureEncoding crypto vchSig flags).ThrowsOnlyIf SCRIPT_ERR_UNKNOWN_ERROR Q := by
  unfold CheckSignatureEncoding IsLowDERSignature
  refine ThrowsOnlyIf.ite (fun _ => ThrowsOnlyIf.pure _) fun _ =>
    ThrowsOnlyIf.ite (fun _ => ThrowsOnlyIf.throw_ne (by decide)) fun _ =>
      ThrowsOnlyIf.bind ?_ fun _ _ =>
        ThrowsOnlyIf.ite (fun _ => ThrowsOnlyIf.throw_ne (by decide)) fun _ => ThrowsOnlyIf.pure _
  -- the low-S check
  exact ThrowsOnlyIf.ite (fun _ =>
    ThrowsOnlyIf.ite (fun _ => ThrowsOnlyIf.throw_ne (by decide)) fun _ =>
      ThrowsOnlyIf.ite (fun _ => ThrowsOnlyIf.throw_ne (by decide)) fun _ => ThrowsOnlyIf.pure _)
    fun _ => ThrowsOnlyIf.pure _

lemma CheckPubKeyEncoding_throwsOnlyIf (vchPubKey : valtype) :
    (CheckPubKeyEncoding vchPubKey flags).ThrowsOnlyIf SCRIPT_ERR_UNKNOWN_ERROR Q :=
  ThrowsOnlyIf.ite (fun _ => ThrowsOnlyIf.throw_ne (by decide)) fun _ => ThrowsOnlyIf.pure _

lemma pushBoolVerify_throwsOnlyIf {isVerify fValue : Bool} {err : ScriptError}
    (herr : err ≠ SCRIPT_ERR_UNKNOWN_ERROR) (s : EvalState) (stack : List valtype) :
    (pushBoolVerify isVerify fValue err s stack).ThrowsOnlyIf SCRIPT_ERR_UNKNOWN_ERROR Q := by
  unfold pushBoolVerify
  -- the `VERIFY` form pops the element it has just pushed
  exact ThrowsOnlyIf.ite
    (fun _ => ThrowsOnlyIf.ite
      (fun _ => ThrowsOnlyIf.bind (ThrowsOnlyIf.of_eq_ok rfl) fun _ _ => ThrowsOnlyIf.pure _)
      fun _ => ThrowsOnlyIf.throw_ne herr)
    fun _ => ThrowsOnlyIf.pure _

lemma lockTimeVerify_throwsOnlyIf (enableFlag : UInt32) (isSequence : Bool) (s : EvalState) :
    (lockTimeVerify flags checker enableFlag isSequence s).ThrowsOnlyIf SCRIPT_ERR_UNKNOWN_ERROR
      (RefusedAt flags s.stack 1 5) := by
  unfold lockTimeVerify checkLockTimeOperand
  refine ThrowsOnlyIf.ite (fun _ =>
    ThrowsOnlyIf.ite (fun _ => ThrowsOnlyIf.throw_ne (by decide)) fun _ => ThrowsOnlyIf.pure _)
    fun _ => ThrowsOnlyIf.ite (fun _ => ThrowsOnlyIf.throw_ne (by decide)) fun hlen => ?_
  -- the operand is the top of the stack, decoded from at most five bytes
  refine ThrowsOnlyIf.bind (stacktop_throwsOnlyIf le_rfl (by omega)) fun top htop =>
    ThrowsOnlyIf.bind (scriptNum_throwsOnlyIf flags (getElem?_of_stacktop htop) 5) fun _ _ => ?_
  exact ThrowsOnlyIf.ite (fun _ => ThrowsOnlyIf.throw_ne (by decide)) fun _ =>
    ThrowsOnlyIf.ite (fun _ => ThrowsOnlyIf.pure _) fun _ =>
      ThrowsOnlyIf.ite (fun _ => ThrowsOnlyIf.throw_ne (by decide)) fun _ => ThrowsOnlyIf.pure _

/-- **The signature loop of `CHECKMULTISIG`** reads inside the stack: the signature it matches
at `isig` and the key at `ikey` are followed by as many signatures and keys as are left, all
within the `stack.length` elements.

**Proof sketch.** Induction along the loop. Each iteration moves `ikey` on by one with one key
fewer left, and `isig` on by one exactly when a signature fewer is left, so both sums stay. -/
lemma multisigLoop_throwsOnlyIf (stack : List valtype) (scriptCode : CScript) :
    ∀ isig ikey nSigsCount nKeysCount, 1 ≤ isig → 1 ≤ ikey →
      isig + nSigsCount ≤ stack.length + 1 → ikey + nKeysCount ≤ stack.length + 1 →
      (multisigLoop flags crypto checker stack scriptCode isig ikey nSigsCount
        nKeysCount).ThrowsOnlyIf SCRIPT_ERR_UNKNOWN_ERROR Q
  | _, _, 0, _, _, _, _, _ => by
    simp only [multisigLoop]
    exact ThrowsOnlyIf.pure _
  | _, _, _ + 1, 0, _, _, _, _ => by
    simp only [multisigLoop]
    exact ThrowsOnlyIf.pure _
  | isig, ikey, nSigsCount + 1, nKeysCount + 1, h₁, h₂, hsig, hkey => by
    simp only [multisigLoop]
    refine ThrowsOnlyIf.bind (stacktop_throwsOnlyIf h₁ (by omega)) fun vchSig _ =>
      ThrowsOnlyIf.bind (stacktop_throwsOnlyIf h₂ (by omega)) fun vchPubKey _ =>
        ThrowsOnlyIf.bind (CheckSignatureEncoding_throwsOnlyIf flags crypto vchSig) fun _ _ =>
          ThrowsOnlyIf.bind (CheckPubKeyEncoding_throwsOnlyIf flags vchPubKey) fun _ _ => ?_
    refine ThrowsOnlyIf.ite (fun _ => ThrowsOnlyIf.pure _) fun _ => ?_
    by_cases hOk : checker.CheckSig vchSig vchPubKey scriptCode = true
    · rw [if_pos hOk, if_pos hOk]
      exact multisigLoop_throwsOnlyIf stack scriptCode _ _ _ _ (by omega) (by omega) (by omega)
        (by omega)
    · rw [if_neg hOk, if_neg hOk]
      exact multisigLoop_throwsOnlyIf stack scriptCode _ _ _ _ h₁ (by omega) (by omega)
        (by omega)

lemma checkMultiSigWith_throwsOnlyIf (isVerify : Bool) (s : EvalState) (nKeys nSigs : ℕ) :
    (checkMultiSigWith flags crypto checker script isVerify s nKeys nSigs).ThrowsOnlyIf
      SCRIPT_ERR_UNKNOWN_ERROR Q := by
  unfold checkMultiSigWith
  dsimp only
  refine ThrowsOnlyIf.ite (fun _ => ThrowsOnlyIf.throw_ne (by decide)) fun hlen => ?_
  -- the signatures sit below the keys and the key count, within the depth checked
  refine ThrowsOnlyIf.bind (ThrowsOnlyIf.mapM _ fun k hk => stacktop_throwsOnlyIf (by omega)
    (by rw [List.mem_range] at hk; omega)) fun sigs _ => ?_
  refine ThrowsOnlyIf.bind (multisigLoop_throwsOnlyIf flags crypto checker _ _ _ _ _ _
    (by omega) (by omega) (by omega) (by omega)) fun fSuccess _ => ?_
  refine ThrowsOnlyIf.ite (fun _ => ThrowsOnlyIf.throw_ne (by decide)) fun hdummy => ?_
  refine ThrowsOnlyIf.bind (stacktop_throwsOnlyIf le_rfl (by omega)) fun _ _ => ?_
  exact ThrowsOnlyIf.ite (fun _ => ThrowsOnlyIf.throw_ne (by decide)) fun _ =>
    ThrowsOnlyIf.bind (popstack_throwsOnlyIf (by omega)) fun _ _ =>
      pushBoolVerify_throwsOnlyIf (by decide) _ _

lemma checkMultiSig_throwsOnlyIf (isVerify : Bool) (s : EvalState) :
    (checkMultiSig flags crypto checker script isVerify s).ThrowsOnlyIf SCRIPT_ERR_UNKNOWN_ERROR
      (NumOperandRefused flags (.checkMultiSig isVerify) s.stack) := by
  unfold checkMultiSig
  refine ThrowsOnlyIf.ite (fun _ => ThrowsOnlyIf.throw_ne (by decide)) fun hlen => ?_
  refine ThrowsOnlyIf.bind (numAt_throwsOnlyIf_operand flags le_rfl (by omega)
    (by simp [numOperands])) fun n hn => ?_
  refine ThrowsOnlyIf.ite (fun _ => ThrowsOnlyIf.throw_ne (by decide)) fun _ =>
    ThrowsOnlyIf.ite (fun _ => ThrowsOnlyIf.throw_ne (by decide)) fun _ =>
      ThrowsOnlyIf.ite (fun _ => ThrowsOnlyIf.throw_ne (by decide)) fun hkeys => ?_
  -- the signature count sits below the keys, within the depth just checked
  refine ThrowsOnlyIf.bind (numAt_throwsOnlyIf_operand flags (by omega) (by omega)
    (by simp [numOperands, hn])) fun _ _ => ?_
  exact ThrowsOnlyIf.ite (fun _ => ThrowsOnlyIf.throw_ne (by decide)) fun _ =>
    checkMultiSigWith_throwsOnlyIf flags crypto checker script isVerify s _ _

lemma checkSig_throwsOnlyIf (isVerify : Bool) (s : EvalState) :
    (checkSig flags crypto checker script isVerify s).ThrowsOnlyIf SCRIPT_ERR_UNKNOWN_ERROR Q := by
  unfold checkSig
  refine ThrowsOnlyIf.ite (fun _ => ThrowsOnlyIf.throw_ne (by decide)) fun hlen => ?_
  refine ThrowsOnlyIf.bind (stacktop_throwsOnlyIf (by omega) (by omega)) fun vchSig _ =>
    ThrowsOnlyIf.bind (stacktop_throwsOnlyIf le_rfl (by omega)) fun vchPubKey _ =>
      ThrowsOnlyIf.bind (CheckSignatureEncoding_throwsOnlyIf flags crypto vchSig) fun _ _ =>
        ThrowsOnlyIf.bind (CheckPubKeyEncoding_throwsOnlyIf flags vchPubKey) fun _ _ => ?_
  exact ThrowsOnlyIf.bind (popstack_throwsOnlyIf (by omega)) fun _ h₁ =>
    ThrowsOnlyIf.bind (popstack_throwsOnlyIf (by have := length_of_popstack h₁; omega))
      fun _ _ => pushBoolVerify_throwsOnlyIf (by decide) _ _

/-- The stack-manipulation cases never throw the catch-all error: each checks the depth it
reads, or matches the elements it moves. -/
lemma stackOp_throwsOnlyIf (c : OpcodeCase) (stack : List valtype) :
    (stackOp c stack).ThrowsOnlyIf SCRIPT_ERR_UNKNOWN_ERROR Q := by
  cases c with
  | drop2 =>
    exact ThrowsOnlyIf.ite (fun _ => ThrowsOnlyIf.throw_ne (by decide)) fun hlen =>
      ThrowsOnlyIf.bind (popstack_throwsOnlyIf (by omega)) fun _ h₁ =>
        popstack_throwsOnlyIf (by have := length_of_popstack h₁; omega)
  | dup2 =>
    exact ThrowsOnlyIf.ite (fun _ => ThrowsOnlyIf.throw_ne (by decide)) fun hlen =>
      ThrowsOnlyIf.bind (stacktop_throwsOnlyIf (by omega) (by omega)) fun _ _ =>
        ThrowsOnlyIf.bind (stacktop_throwsOnlyIf le_rfl (by omega)) fun _ _ => ThrowsOnlyIf.pure _
  | dup3 =>
    exact ThrowsOnlyIf.ite (fun _ => ThrowsOnlyIf.throw_ne (by decide)) fun hlen =>
      ThrowsOnlyIf.bind (stacktop_throwsOnlyIf (by omega) (by omega)) fun _ _ =>
        ThrowsOnlyIf.bind (stacktop_throwsOnlyIf (by omega) (by omega)) fun _ _ =>
          ThrowsOnlyIf.bind (stacktop_throwsOnlyIf le_rfl (by omega)) fun _ _ =>
            ThrowsOnlyIf.pure _
  | over2 =>
    exact ThrowsOnlyIf.ite (fun _ => ThrowsOnlyIf.throw_ne (by decide)) fun hlen =>
      ThrowsOnlyIf.bind (stacktop_throwsOnlyIf (by omega) (by omega)) fun _ _ =>
        ThrowsOnlyIf.bind (stacktop_throwsOnlyIf (by omega) (by omega)) fun _ _ =>
          ThrowsOnlyIf.pure _
  | rot2 =>
    exact ThrowsOnlyIf.ite (fun _ => ThrowsOnlyIf.throw_ne (by decide)) fun hlen =>
      ThrowsOnlyIf.bind (stacktop_throwsOnlyIf (by omega) (by omega)) fun _ _ =>
        ThrowsOnlyIf.bind (stacktop_throwsOnlyIf (by omega) (by omega)) fun _ _ =>
          ThrowsOnlyIf.pure _
  | ifDup | dup | size =>
    exact ThrowsOnlyIf.ite (fun _ => ThrowsOnlyIf.throw_ne (by decide)) fun hlen =>
      ThrowsOnlyIf.bind (stacktop_throwsOnlyIf le_rfl (by omega)) fun _ _ => ThrowsOnlyIf.pure _
  | «over» =>
    exact ThrowsOnlyIf.ite (fun _ => ThrowsOnlyIf.throw_ne (by decide)) fun hlen =>
      ThrowsOnlyIf.bind (stacktop_throwsOnlyIf (by omega) (by omega)) fun _ _ =>
        ThrowsOnlyIf.pure _
  | drop =>
    exact ThrowsOnlyIf.ite (fun _ => ThrowsOnlyIf.throw_ne (by decide)) fun hlen =>
      popstack_throwsOnlyIf (by omega)
  | depth => exact ThrowsOnlyIf.pure _
  -- the cases that match the elements they move
  | swap2 | nip | rot | swap | tuck =>
    simp only [stackOp]
    split
    · exact ThrowsOnlyIf.pure _
    · exact ThrowsOnlyIf.throw_ne (by decide)
  | _ => exact ThrowsOnlyIf.throw_ne (by decide)

/-- **Every case of the `switch`** throws the catch-all error only through a number it
decodes from the stack.

**Proof sketch.** Case analysis on the opcode's case, in the order of the `switch`: every read
comes after the check of the depth it needs. -/
lemma ExecOpcode_throwsOnlyIf (fExec : Bool) (op : CScript.ScriptOp) (s : EvalState)
    (c : OpcodeCase) :
    (ExecOpcode flags crypto checker script fExec op s c).ThrowsOnlyIf SCRIPT_ERR_UNKNOWN_ERROR
      (NumOperandRefused flags c s.stack) := by
  cases c with
  | smallInteger | nop | codeSeparator => exact ThrowsOnlyIf.pure _
  | checkLockTimeVerify =>
    exact (lockTimeVerify_throwsOnlyIf flags checker _ false s).mono fun h =>
      ⟨(1, 5), List.mem_singleton_self _, h⟩
  | checkSequenceVerify =>
    exact (lockTimeVerify_throwsOnlyIf flags checker _ true s).mono fun h =>
      ⟨(1, 5), List.mem_singleton_self _, h⟩
  | upgradableNop =>
    exact ThrowsOnlyIf.ite (fun _ => ThrowsOnlyIf.throw_ne (by decide)) fun _ =>
      ThrowsOnlyIf.pure _
  | ifOrNotIf notIf =>
    exact ThrowsOnlyIf.ite (fun _ =>
      ThrowsOnlyIf.ite (fun _ => ThrowsOnlyIf.throw_ne (by decide)) fun hlen =>
        ThrowsOnlyIf.bind (stacktop_throwsOnlyIf le_rfl (by omega)) fun _ _ =>
          ThrowsOnlyIf.bind (popstack_throwsOnlyIf (by omega)) fun _ _ => ThrowsOnlyIf.pure _)
      fun _ => ThrowsOnlyIf.pure _
  | opElse | endIf | fromAltStack =>
    simp only [ExecOpcode]
    split
    · exact ThrowsOnlyIf.throw_ne (by decide)
    · exact ThrowsOnlyIf.pure _
  | verify =>
    exact ThrowsOnlyIf.ite (fun _ => ThrowsOnlyIf.throw_ne (by decide)) fun hlen =>
      ThrowsOnlyIf.bind (stacktop_throwsOnlyIf le_rfl (by omega)) fun _ _ =>
        ThrowsOnlyIf.ite (fun _ => ThrowsOnlyIf.bind (popstack_throwsOnlyIf (by omega)) fun _ _ =>
          ThrowsOnlyIf.pure _) fun _ => ThrowsOnlyIf.throw_ne (by decide)
  | opReturn | bad => exact ThrowsOnlyIf.throw_ne (by decide)
  | toAltStack | hash _ =>
    exact ThrowsOnlyIf.ite (fun _ => ThrowsOnlyIf.throw_ne (by decide)) fun hlen =>
      ThrowsOnlyIf.bind (stacktop_throwsOnlyIf le_rfl (by omega)) fun _ _ =>
        ThrowsOnlyIf.bind (popstack_throwsOnlyIf (by omega)) fun _ _ => ThrowsOnlyIf.pure _
  | pickOrRoll roll =>
    -- the depth read is checked against the stack without the top
    exact ThrowsOnlyIf.ite (fun _ => ThrowsOnlyIf.throw_ne (by decide)) fun hlen =>
      ThrowsOnlyIf.bind (numAt_throwsOnlyIf_operand flags le_rfl (by omega)
        (by simp [numOperands])) fun _ _ =>
        ThrowsOnlyIf.bind (popstack_throwsOnlyIf (by omega)) fun _ _ =>
          ThrowsOnlyIf.ite (fun _ => ThrowsOnlyIf.throw_ne (by decide)) fun hn =>
            ThrowsOnlyIf.bind (stacktop_throwsOnlyIf (by omega) (by omega)) fun _ _ =>
              ThrowsOnlyIf.pure _
  | equal isVerify =>
    exact ThrowsOnlyIf.ite (fun _ => ThrowsOnlyIf.throw_ne (by decide)) fun hlen =>
      ThrowsOnlyIf.bind (stacktop_throwsOnlyIf (by omega) (by omega)) fun _ _ =>
        ThrowsOnlyIf.bind (stacktop_throwsOnlyIf le_rfl (by omega)) fun _ _ =>
          ThrowsOnlyIf.bind (popstack_throwsOnlyIf (by omega)) fun _ h₁ =>
            ThrowsOnlyIf.bind (popstack_throwsOnlyIf (by have := length_of_popstack h₁; omega))
              fun _ _ => pushBoolVerify_throwsOnlyIf (by decide) _ _
  | unaryNum f =>
    exact ThrowsOnlyIf.ite (fun _ => ThrowsOnlyIf.throw_ne (by decide)) fun hlen =>
      ThrowsOnlyIf.bind (numAt_throwsOnlyIf_operand flags le_rfl (by omega)
        (by simp [numOperands])) fun _ _ =>
        ThrowsOnlyIf.bind (popstack_throwsOnlyIf (by omega)) fun _ _ => ThrowsOnlyIf.pure _
  | binaryNum f =>
    refine ThrowsOnlyIf.ite (fun _ => ThrowsOnlyIf.throw_ne (by decide)) fun hlen =>
      ThrowsOnlyIf.bind (numAt_throwsOnlyIf_operand flags (by omega) (by omega)
        (by simp [numOperands])) fun _ _ =>
        ThrowsOnlyIf.bind (numAt_throwsOnlyIf_operand flags le_rfl (by omega)
          (by simp [numOperands])) fun _ _ =>
          ThrowsOnlyIf.bind (popstack_throwsOnlyIf (by omega)) fun _ h₁ =>
            ThrowsOnlyIf.bind (popstack_throwsOnlyIf (by have := length_of_popstack h₁; omega))
              fun _ _ => ?_
    -- `NUMEQUALVERIFY` pops the result it has just pushed
    exact ThrowsOnlyIf.ite (fun _ => ThrowsOnlyIf.ite
      (fun _ => ThrowsOnlyIf.bind (ThrowsOnlyIf.of_eq_ok rfl) fun _ _ => ThrowsOnlyIf.pure _)
      fun _ => ThrowsOnlyIf.throw_ne (by decide)) fun _ => ThrowsOnlyIf.pure _
  | within =>
    exact ThrowsOnlyIf.ite (fun _ => ThrowsOnlyIf.throw_ne (by decide)) fun hlen =>
      ThrowsOnlyIf.bind (numAt_throwsOnlyIf_operand flags (by omega) (by omega)
        (by simp [numOperands])) fun _ _ =>
        ThrowsOnlyIf.bind (numAt_throwsOnlyIf_operand flags (by omega) (by omega)
          (by simp [numOperands])) fun _ _ =>
          ThrowsOnlyIf.bind (numAt_throwsOnlyIf_operand flags le_rfl (by omega)
            (by simp [numOperands])) fun _ _ => ThrowsOnlyIf.pure _
  | checkSig isVerify => exact checkSig_throwsOnlyIf flags crypto checker script isVerify s
  | checkMultiSig isVerify =>
    exact checkMultiSig_throwsOnlyIf flags crypto checker script isVerify s
  -- the stack-manipulation cases
  | _ => exact ThrowsOnlyIf.bind (stackOp_throwsOnlyIf _ _) fun _ _ => ThrowsOnlyIf.pure _

end Cases

/-! ## Instructions and scripts -/

section Steps

variable (flags : UInt32) (crypto : ScriptCrypto) (checker : BaseSignatureChecker)
  (script : CScript)

/-- The checks before an instruction leave the stack alone and throw their own errors. -/
lemma readChecks_stack {op : CScript.ScriptOp} {s s' : EvalState}
    (h : readChecks op s = .ok s') : s'.stack = s.stack := by
  unfold readChecks at h
  split_ifs at h <;> cases h <;> rfl

lemma readChecks_throwsOnlyIf {Q : Prop} (op : CScript.ScriptOp) (s : EvalState) :
    (readChecks op s).ThrowsOnlyIf SCRIPT_ERR_UNKNOWN_ERROR Q :=
  ThrowsOnlyIf.ite (fun _ => ThrowsOnlyIf.throw_ne (by decide)) fun _ =>
    ThrowsOnlyIf.ite (fun _ => ThrowsOnlyIf.throw_ne (by decide)) fun _ =>
      ThrowsOnlyIf.ite (fun _ => ThrowsOnlyIf.throw_ne (by decide)) fun _ => ThrowsOnlyIf.pure _

lemma execute_throwsOnlyIf (op : CScript.ScriptOp) (s : EvalState) :
    (execute flags crypto checker script op s).ThrowsOnlyIf SCRIPT_ERR_UNKNOWN_ERROR
      (NumOperandRefused flags (classifyOpcode op.opcode) s.stack) :=
  ThrowsOnlyIf.ite
    (fun _ => ThrowsOnlyIf.ite (fun _ => ThrowsOnlyIf.throw_ne (by decide)) fun _ =>
      ThrowsOnlyIf.pure _)
    fun _ => ThrowsOnlyIf.ite
      (fun _ => ExecOpcode_throwsOnlyIf flags crypto checker script _ op s _)
      fun _ => ThrowsOnlyIf.pure _

/-- **Step lemma.** One instruction throws the catch-all error only if its opcode's `case`
decodes an operand from bytes `CScriptNum` refuses. -/
theorem EvalStep_throwsOnlyIf (s : EvalState) (op : CScript.ScriptOp) :
    (EvalStep flags crypto checker script s op).ThrowsOnlyIf SCRIPT_ERR_UNKNOWN_ERROR
      (NumOperandRefused flags (classifyOpcode op.opcode) s.stack) := by
  unfold EvalStep
  refine ThrowsOnlyIf.bind (readChecks_throwsOnlyIf op s) fun s₁ h₁ => ?_
  refine ThrowsOnlyIf.bind ?_ fun s₂ _ =>
    ThrowsOnlyIf.ite (fun _ => ThrowsOnlyIf.throw_ne (by decide)) fun _ => ThrowsOnlyIf.pure _
  -- the checks before the instruction leave its stack as it was
  rw [← readChecks_stack h₁]
  exact execute_throwsOnlyIf flags crypto checker script op s₁

end Steps

/-! ## The asserts of the numeric operators -/

/-- The inner `switch` of the one-operand numeric opcodes as the source writes it, through the
`CScriptNum` operators and their asserts: `bn += bnOne`, `bn -= bnOne` and `bn = -bn`. -/
def UnaryNumOp.applyAsserting : UnaryNumOp → ℤ → Except AssertionFailed ℤ
  | .OP_1ADD, bn => CScriptNum.addAssign bn 1
  | .OP_1SUB, bn => CScriptNum.subAssign bn 1
  | .OP_NEGATE, bn => CScriptNum.neg bn
  | .OP_ABS, bn => if bn < 0 then CScriptNum.neg bn else pure bn
  | .OP_NOT, bn => pure (boolNum (bn == 0))
  | .OP_0NOTEQUAL, bn => pure (boolNum (bn != 0))

/-- Below `2 ^ 62` in magnitude the asserts hold, and the operators compute `apply`. -/
lemma UnaryNumOp.applyAsserting_of_natAbs_lt {bn : ℤ} (h : bn.natAbs < 2 ^ 62) :
    ∀ f : UnaryNumOp, f.applyAsserting bn = .ok (f.apply bn)
  | .OP_1ADD => CScriptNum.addAssign_of_natAbs_lt h (by decide)
  | .OP_1SUB => CScriptNum.subAssign_of_natAbs_lt h (by decide)
  | .OP_NEGATE => CScriptNum.neg_of_natAbs_lt (by omega)
  | .OP_ABS => by
    simp only [applyAsserting, apply]
    split_ifs
    · exact CScriptNum.neg_of_natAbs_lt (by omega)
    · rfl
  | .OP_NOT | .OP_0NOTEQUAL => rfl

/-- A number read off the stack by a numeric opcode has at most four bytes. -/
lemma natAbs_of_numAt {flags : UInt32} {stack : List valtype} {i : ℕ} {bn : ℤ}
    (h : numAt flags stack i = .ok bn) : bn.natAbs < 2 ^ 31 := by
  unfold numAt at h
  obtain ⟨vch, -, hbn⟩ := bind_eq_ok.1 h
  unfold scriptNum at hbn
  exact CScriptNum.natAbs_ofVch_lt (mapError_eq_ok.1 hbn)

/-- **`EvalScript`'s catch-all is reached only through a `scriptnum_error`**, and the numeric
operators' asserts hold. A script that fails with `SCRIPT_ERR_UNKNOWN_ERROR` ran its
instructions up to one that failed there, and that instruction's `case` decodes an operand,
`stacktop(-i)` at a depth within the stack, from bytes `CScriptNum` refuses: no read of the
stacks is ever out of range, and no other throw reaches the `catch`. Every operand a numeric opcode reads
has at most four bytes, so the source's `+=`, `-=` and unary `-` never trip their asserts and
compute what the model does. -/
theorem EvalScript_catch_all_only_scriptnum_error (flags : UInt32) (crypto : ScriptCrypto)
    (checker : BaseSignatureChecker) :
    (∀ (stack : List valtype) (script : CScript),
      EvalScript flags crypto checker stack script = .error SCRIPT_ERR_UNKNOWN_ERROR →
        ∃ pre op post s, (CScript.decode script).ops = pre ++ op :: post ∧
          pre.foldlM (EvalStep flags crypto checker script) ⟨stack, [], [], 0, 0⟩ = .ok s ∧
          EvalStep flags crypto checker script s op = .error SCRIPT_ERR_UNKNOWN_ERROR ∧
          ∃ p ∈ numOperands flags (classifyOpcode op.opcode) s.stack,
            RefusedAt flags s.stack p.1 p.2) ∧
    ∀ (stack : List valtype) (i : ℕ) (bn : ℤ), numAt flags stack i = .ok bn →
      ∀ f : UnaryNumOp, f.applyAsserting bn = .ok (f.apply bn) := by
  refine ⟨fun stack script h => ?_, fun stack i bn h =>
    UnaryNumOp.applyAsserting_of_natAbs_lt (by have := natAbs_of_numAt h; omega)⟩
  unfold EvalScript at h
  split_ifs at h with hsize
  · cases h
  dsimp only at h
  rcases bind_eq_error.1 h with hrun | ⟨s, -, hend⟩
  · -- the run failed in one instruction, from a state it reached
    obtain ⟨pre, op, post, s, hops, hpre, hop⟩ := foldlM_eq_error _ _ hrun
    exact ⟨pre, op, post, s, hops, hpre, hop,
      EvalStep_throwsOnlyIf flags crypto checker script s op hop⟩
  · -- the checks after the loop throw their own errors
    have hcheck : (if (CScript.decode script).failed then throw SCRIPT_ERR_BAD_OPCODE
        else if !s.vfExec.isEmpty then throw SCRIPT_ERR_UNBALANCED_CONDITIONAL
        else pure s.stack : Except ScriptError (List valtype)).ThrowsOnlyIf
          SCRIPT_ERR_UNKNOWN_ERROR False :=
      ThrowsOnlyIf.ite (fun _ => ThrowsOnlyIf.throw_ne (by decide)) fun _ =>
        ThrowsOnlyIf.ite (fun _ => ThrowsOnlyIf.throw_ne (by decide)) fun _ => ThrowsOnlyIf.pure _
    exact (hcheck hend).elim

end MvfBu
