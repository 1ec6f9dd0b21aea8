import MvfBu.Script.Interpreter
import MvfBu.Lib.Restricts

set_option autoImplicit false

/-!
# Verification flags as soft forks

Every verification flag only adds ways for a script to fail, with one exception: the
lock-time opcodes. Without `SCRIPT_VERIFY_CHECKLOCKTIMEVERIFY`, `OP_CHECKLOCKTIMEVERIFY` is the
upgradable no-op `OP_NOP2`, which `SCRIPT_VERIFY_DISCOURAGE_UPGRADABLE_NOPS` rejects; with the
flag it is a check that can pass. So adding `CHECKLOCKTIMEVERIFY` (or `CHECKSEQUENCEVERIFY`) to a
set of flags that discourages the no-ops can turn a failure into a success.

`SoftForkFlags F G` collects what makes `G` a restriction of `F`: `F ⊆ G`, the lock-time
opcodes that `G` enables already enabled in `F` when `F` discourages the no-ops, and `P2SH` in
`F` whenever `CLEANSTACK` is. Under it every instruction under `G` either fails or does what it
does under `F` (`EvalStep_restricts`), and `VerifyScript` under `G` succeeds only if it
succeeds under `F` (`verifyScript_of_softFork`).

## Main definitions

* `MvfBu.SoftForkFlags`.

## Main results

* `MvfBu.EvalScript_restricts` — `EvalScript` under `G` restricts it under `F`.
* `MvfBu.verifyScript_of_softFork` — `VerifyScript` under `G` implies it under `F`.
* `MvfBu.verifyScript_discourage_cltv` — a script that passes under
  `DISCOURAGE_UPGRADABLE_NOPS | CHECKLOCKTIMEVERIFY` and fails under
  `DISCOURAGE_UPGRADABLE_NOPS` alone.
-/

namespace MvfBu

open ScriptError Except

/-- A flag of `F` is a flag of every `G ⊇ F` (as bit sets, `F &&& G = F`). -/
lemma hasFlag_of_and_eq {F G : UInt32} (h : F &&& G = F) {b : UInt32}
    (hb : hasFlag F b = true) : hasFlag G b = true := by
  simp only [hasFlag, bne_iff_ne, ne_eq] at hb ⊢
  intro hg
  apply hb
  rw [← h, UInt32.and_assoc, hg, UInt32.and_zero]

/-- The conditions under which the flags `G` restrict the flags `F`. -/
structure SoftForkFlags (F G : UInt32) : Prop where
  /-- Every flag of `F` is a flag of `G`. -/
  subset : F &&& G = F
  /-- `CHECKLOCKTIMEVERIFY` is not new in `G` when `F` discourages the upgradable no-ops. -/
  lockTime : hasFlag F SCRIPT_VERIFY_DISCOURAGE_UPGRADABLE_NOPS = true →
    hasFlag G SCRIPT_VERIFY_CHECKLOCKTIMEVERIFY = true →
    hasFlag F SCRIPT_VERIFY_CHECKLOCKTIMEVERIFY = true
  /-- `CHECKSEQUENCEVERIFY` is not new in `G` when `F` discourages the upgradable no-ops. -/
  sequence : hasFlag F SCRIPT_VERIFY_DISCOURAGE_UPGRADABLE_NOPS = true →
    hasFlag G SCRIPT_VERIFY_CHECKSEQUENCEVERIFY = true →
    hasFlag F SCRIPT_VERIFY_CHECKSEQUENCEVERIFY = true
  /-- `CLEANSTACK` comes with `P2SH` in `F`. -/
  cleanStack : hasFlag F SCRIPT_VERIFY_CLEANSTACK = true → hasFlag F SCRIPT_VERIFY_P2SH = true

namespace SoftForkFlags

variable {F G : UInt32}

lemma mono (h : SoftForkFlags F G) {b : UInt32} (hb : hasFlag F b = true) :
    hasFlag G b = true :=
  hasFlag_of_and_eq h.subset hb

lemma fRequireMinimal_mono (h : SoftForkFlags F G) (hF : fRequireMinimal F = true) :
    fRequireMinimal G = true :=
  h.mono hF

end SoftForkFlags

/-! ## The primitives that read the flags -/

section Primitives

/-- Minimal decoding only adds a failure: a number decoded minimally decodes the same way
without the requirement. -/
lemma scriptNum_restricts {fF fG : Bool} (hm : fF = true → fG = true) (vch : valtype)
    (nMaxNumSize : ℕ) :
    (scriptNum vch fG nMaxNumSize).Restricts (scriptNum vch fF nMaxNumSize) := by
  cases fF with
  | true =>
    rw [hm rfl]
  | false =>
    intro a ha
    simp only [scriptNum, CScriptNum.ofVch, Bool.false_and, Bool.false_eq_true,
      ↓reduceIte] at ha ⊢
    split_ifs at ha with hover hmin
    · simp at ha
    · simp at ha
    · simpa [hover] using ha

/-- `CheckSignatureEncoding` passes exactly when the signature is empty or passes each check
its flags switch on. -/
lemma CheckSignatureEncoding_eq_ok_iff (crypto : ScriptCrypto) (vchSig : valtype)
    (flags : UInt32) :
    CheckSignatureEncoding crypto vchSig flags = .ok () ↔
      vchSig.length = 0 ∨
        ((hasFlag flags (SCRIPT_VERIFY_DERSIG ||| SCRIPT_VERIFY_LOW_S ||| SCRIPT_VERIFY_STRICTENC) =
            true → IsValidSignatureEncoding vchSig = true) ∧
          (hasFlag flags SCRIPT_VERIFY_LOW_S = true → IsLowDERSignature crypto vchSig = .ok ()) ∧
          (hasFlag flags SCRIPT_VERIFY_STRICTENC = true →
            IsDefinedHashtypeSignature vchSig = true)) := by
  unfold CheckSignatureEncoding
  by_cases h0 : vchSig.length = 0
  · simp [h0]
  · simp only [h0, false_or, ↓reduceIte]
    by_cases hder : hasFlag flags (SCRIPT_VERIFY_DERSIG ||| SCRIPT_VERIFY_LOW_S ||| SCRIPT_VERIFY_STRICTENC) = true <;>
      by_cases hvalid : IsValidSignatureEncoding vchSig = true <;>
      by_cases hlow : hasFlag flags SCRIPT_VERIFY_LOW_S = true <;>
      by_cases hstrict : hasFlag flags SCRIPT_VERIFY_STRICTENC = true <;>
      cases hlowDER : IsLowDERSignature crypto vchSig <;>
      cases hdef : IsDefinedHashtypeSignature vchSig <;>
      simp_all

variable {F G : UInt32} (h : SoftForkFlags F G)
include h

lemma numAt_restricts (stack : List valtype) (i : ℕ) :
    (numAt G stack i).Restricts (numAt F stack i) :=
  Restricts.bind (Restricts.refl _) fun vch =>
    scriptNum_restricts h.fRequireMinimal_mono vch _

lemma CheckSignatureEncoding_restricts (crypto : ScriptCrypto) (vchSig : valtype) :
    (CheckSignatureEncoding crypto vchSig G).Restricts (CheckSignatureEncoding crypto vchSig F) := by
  rintro ⟨⟩ hG
  rw [CheckSignatureEncoding_eq_ok_iff] at hG ⊢
  rcases hG with h0 | ⟨hder, hlow, hstrict⟩
  · exact .inl h0
  · exact .inr ⟨fun hf => hder (h.mono hf), fun hf => hlow (h.mono hf),
      fun hf => hstrict (h.mono hf)⟩

lemma CheckPubKeyEncoding_restricts (vchPubKey : valtype) :
    (CheckPubKeyEncoding vchPubKey G).Restricts (CheckPubKeyEncoding vchPubKey F) := by
  unfold CheckPubKeyEncoding
  refine Restricts.ite_error (fun hF => ?_) _ (Restricts.refl _)
  simp only [Bool.and_eq_true] at hF ⊢
  exact ⟨h.mono hF.1, hF.2⟩

end Primitives

/-! ## Opcodes -/

section Opcodes

variable {F G : UInt32} (h : SoftForkFlags F G) (crypto : ScriptCrypto)
  (checker : BaseSignatureChecker) (script : CScript)

/-- The enabled lock-time opcodes leave the state as it was. -/
lemma checkLockTimeOperand_eq_ok {flags : UInt32} {isSequence : Bool} {s s' : EvalState}
    (hok : checkLockTimeOperand flags checker isSequence s = .ok s') : s' = s := by
  unfold checkLockTimeOperand at hok
  by_cases hlen : s.stack.length < 1
  · simp [hlen] at hok
  · rw [if_neg hlen] at hok
    obtain ⟨top, -, hrest⟩ := bind_eq_ok.1 hok
    obtain ⟨n, -, hn⟩ := bind_eq_ok.1 hrest
    split_ifs at hn <;> cases hn <;> rfl

include h

lemma checkLockTimeOperand_restricts (isSequence : Bool) (s : EvalState) :
    (checkLockTimeOperand G checker isSequence s).Restricts
      (checkLockTimeOperand F checker isSequence s) := by
  unfold checkLockTimeOperand
  exact Restricts.ite (fun _ => Restricts.refl _) fun _ =>
    Restricts.bind (Restricts.refl _) fun top =>
      Restricts.bind (scriptNum_restricts h.fRequireMinimal_mono top 5) fun _ =>
        Restricts.refl _

/-- **The lock-time opcodes.** Under `G` an opcode that `G` enables and `F` does not is a
check that leaves the state alone, and `F` treats it as a no-op, which it does not
discourage. -/
lemma lockTimeVerify_restricts {enableFlag : UInt32} {isSequence : Bool}
    (hnew : hasFlag F SCRIPT_VERIFY_DISCOURAGE_UPGRADABLE_NOPS = true →
      hasFlag G enableFlag = true → hasFlag F enableFlag = true)
    (s : EvalState) :
    (lockTimeVerify G checker enableFlag isSequence s).Restricts
      (lockTimeVerify F checker enableFlag isSequence s) := by
  unfold lockTimeVerify
  cases hG : hasFlag G enableFlag with
  | false =>
    -- neither enables it: both treat it as a no-op, discouraged at least under `G`
    have hF : hasFlag F enableFlag = false := by
      cases hF : hasFlag F enableFlag
      · rfl
      · rw [h.mono hF] at hG; cases hG
    simp only [hF, Bool.not_false, ↓reduceIte]
    exact Restricts.ite_error (fun hd => h.mono hd) _ (Restricts.refl _)
  | true =>
    cases hF : hasFlag F enableFlag with
    | true => exact checkLockTimeOperand_restricts h checker isSequence s
    | false =>
      -- `G` checks the operand and changes nothing; `F` must not discourage the no-op
      have hnd : hasFlag F SCRIPT_VERIFY_DISCOURAGE_UPGRADABLE_NOPS = false := by
        cases hd : hasFlag F SCRIPT_VERIFY_DISCOURAGE_UPGRADABLE_NOPS
        · rfl
        · rw [hnew hd hG] at hF; cases hF
      intro s' hs'
      simp only [Bool.not_true, Bool.not_false, hnd, ↓reduceIte] at hs' ⊢
      rw [checkLockTimeOperand_eq_ok checker hs']
      rfl

/-- **The signature loop of `CHECKMULTISIG`.**

**Proof sketch.** Induction along the loop: each iteration checks two encodings, which
`G` restricts, and the rest does not read the flags. -/
lemma multisigLoop_restricts (stack : List valtype) (scriptCode : CScript) :
    ∀ isig ikey nSigs nKeys,
      (multisigLoop G crypto checker stack scriptCode isig ikey nSigs nKeys).Restricts
        (multisigLoop F crypto checker stack scriptCode isig ikey nSigs nKeys)
  | _, _, 0, _ => by simp only [multisigLoop]; exact Restricts.refl _
  | _, _, _ + 1, 0 => by simp only [multisigLoop]; exact Restricts.refl _
  | isig, ikey, nSigs + 1, nKeys + 1 => by
    simp only [multisigLoop]
    refine Restricts.bind (Restricts.refl _) fun vchSig =>
      Restricts.bind (Restricts.refl _) fun vchPubKey =>
        Restricts.bind (CheckSignatureEncoding_restricts h crypto vchSig) fun _ =>
          Restricts.bind (CheckPubKeyEncoding_restricts h vchPubKey) fun _ => ?_
    exact Restricts.ite (fun _ => Restricts.refl _) fun _ =>
      multisigLoop_restricts stack scriptCode _ _ _ _

lemma checkSig_restricts (isVerify : Bool) (s : EvalState) :
    (checkSig G crypto checker script isVerify s).Restricts
      (checkSig F crypto checker script isVerify s) := by
  unfold checkSig
  exact Restricts.ite (fun _ => Restricts.refl _) fun _ =>
    Restricts.bind (Restricts.refl _) fun vchSig =>
      Restricts.bind (Restricts.refl _) fun vchPubKey =>
        Restricts.bind (CheckSignatureEncoding_restricts h crypto vchSig) fun _ =>
          Restricts.bind (CheckPubKeyEncoding_restricts h vchPubKey) fun _ => Restricts.refl _

lemma checkMultiSigWith_restricts (isVerify : Bool) (s : EvalState) (nKeys nSigs : ℕ) :
    (checkMultiSigWith G crypto checker script isVerify s nKeys nSigs).Restricts
      (checkMultiSigWith F crypto checker script isVerify s nKeys nSigs) := by
  unfold checkMultiSigWith
  refine Restricts.ite (fun _ => Restricts.refl _) fun _ =>
    Restricts.bind (Restricts.refl _) fun sigs =>
      Restricts.bind (multisigLoop_restricts h crypto checker _ _ _ _ _ _) fun fSuccess =>
        Restricts.ite (fun _ => Restricts.refl _) fun _ =>
          Restricts.bind (Restricts.refl _) fun dummy => ?_
  -- `NULLDUMMY` only adds a failure
  refine Restricts.ite_error (fun hF => ?_) _ (Restricts.refl _)
  simp only [Bool.and_eq_true] at hF ⊢
  exact ⟨h.mono hF.1, hF.2⟩

lemma checkMultiSig_restricts (isVerify : Bool) (s : EvalState) :
    (checkMultiSig G crypto checker script isVerify s).Restricts
      (checkMultiSig F crypto checker script isVerify s) := by
  unfold checkMultiSig
  exact Restricts.ite (fun _ => Restricts.refl _) fun _ =>
    Restricts.bind (numAt_restricts h _ _) fun _ =>
      Restricts.ite (fun _ => Restricts.refl _) fun _ =>
        Restricts.ite (fun _ => Restricts.refl _) fun _ =>
          Restricts.ite (fun _ => Restricts.refl _) fun _ =>
            Restricts.bind (numAt_restricts h _ _) fun _ =>
              Restricts.ite (fun _ => Restricts.refl _) fun _ =>
                checkMultiSigWith_restricts h crypto checker script isVerify s _ _

/-- **Every case of the `switch`.** The cases that read no flags run the same under `F` and
`G`; the others read the flags only through the primitives above.

**Proof sketch.** Case analysis on the opcode's case, in the order of the `switch`. -/
lemma ExecOpcode_restricts (fExec : Bool) (op : CScript.ScriptOp) (s : EvalState)
    (c : OpcodeCase) :
    (ExecOpcode G crypto checker script fExec op s c).Restricts
      (ExecOpcode F crypto checker script fExec op s c) := by
  cases c with
  | checkLockTimeVerify => exact lockTimeVerify_restricts h checker h.lockTime s
  | checkSequenceVerify => exact lockTimeVerify_restricts h checker h.sequence s
  | upgradableNop =>
    simp only [ExecOpcode]
    exact Restricts.ite_error (fun hd => h.mono hd) _ (Restricts.refl _)
  | pickOrRoll roll =>
    simp only [ExecOpcode]
    exact Restricts.ite (fun _ => Restricts.refl _) fun _ =>
      Restricts.bind (numAt_restricts h _ _) fun _ => Restricts.refl _
  | unaryNum f =>
    simp only [ExecOpcode]
    exact Restricts.ite (fun _ => Restricts.refl _) fun _ =>
      Restricts.bind (numAt_restricts h _ _) fun _ => Restricts.refl _
  | binaryNum f =>
    simp only [ExecOpcode]
    exact Restricts.ite (fun _ => Restricts.refl _) fun _ =>
      Restricts.bind (numAt_restricts h _ _) fun _ =>
        Restricts.bind (numAt_restricts h _ _) fun _ => Restricts.refl _
  | within =>
    simp only [ExecOpcode]
    exact Restricts.ite (fun _ => Restricts.refl _) fun _ =>
      Restricts.bind (numAt_restricts h _ _) fun _ =>
        Restricts.bind (numAt_restricts h _ _) fun _ =>
          Restricts.bind (numAt_restricts h _ _) fun _ => Restricts.refl _
  | checkSig isVerify => exact checkSig_restricts h crypto checker script isVerify s
  | checkMultiSig isVerify => exact checkMultiSig_restricts h crypto checker script isVerify s
  -- the remaining cases read no flag
  | _ => exact Restricts.refl _

/-- **Step lemma.** Under `SoftForkFlags F G`, one instruction under `G` fails or leaves the
state it leaves under `F`. -/
theorem EvalStep_restricts (s : EvalState) (op : CScript.ScriptOp) :
    (EvalStep G crypto checker script s op).Restricts (EvalStep F crypto checker script s op) := by
  unfold EvalStep execute
  refine Restricts.bind (Restricts.refl _) fun s₁ => Restricts.bind ?_ fun _ => Restricts.refl _
  refine Restricts.ite (fun _ => ?_) fun _ =>
    Restricts.ite (fun _ => ExecOpcode_restricts h crypto checker script _ _ _ _) fun _ =>
      Restricts.refl _
  -- an executed push: `MINIMALDATA` only adds a failure
  refine Restricts.ite_error (fun hF => ?_) _ (Restricts.refl _)
  simp only [Bool.and_eq_true] at hF ⊢
  exact ⟨h.fRequireMinimal_mono hF.1, hF.2⟩

end Opcodes

/-! ## Scripts -/

section Scripts

variable {F G : UInt32} (h : SoftForkFlags F G) (crypto : ScriptCrypto)
  (checker : BaseSignatureChecker)
include h

/-- **Run lemma.** Under `SoftForkFlags F G`, `EvalScript` under `G` fails or leaves the stack
it leaves under `F`. -/
theorem EvalScript_restricts (stack : List valtype) (script : CScript) :
    (EvalScript G crypto checker stack script).Restricts
      (EvalScript F crypto checker stack script) := by
  unfold EvalScript
  exact Restricts.ite (fun _ => Restricts.refl _) fun _ =>
    Restricts.bind
      (Restricts.foldlM (EvalStep_restricts h crypto checker script) _ _) fun _ =>
        Restricts.refl _

lemma evalRedeemScript_restricts (scriptSig : CScript) (stackCopy : List valtype) :
    (evalRedeemScript G crypto checker scriptSig stackCopy).Restricts
      (evalRedeemScript F crypto checker scriptSig stackCopy) := by
  unfold evalRedeemScript
  refine Restricts.ite (fun _ => Restricts.refl _) fun _ => ?_
  cases stackCopy with
  | nil => exact Restricts.refl _
  | cons pubKeySerialized stack =>
    exact Restricts.bind
      (Restricts.mapError _ (EvalScript_restricts h crypto checker stack pubKeySerialized))
      fun _ => Restricts.refl _

/-- The `CLEANSTACK` check under `G` implies it under `F`, where it cannot hit its
assertion. -/
lemma checkCleanStack_restricts (stack : List valtype) :
    (checkCleanStack G stack).Restricts (checkCleanStack F stack) := by
  rintro ⟨⟩ hG
  unfold checkCleanStack at hG ⊢
  by_cases hc : hasFlag F SCRIPT_VERIFY_CLEANSTACK = true
  · have hp := h.cleanStack hc
    have hcG := h.mono hc
    simp only [hcG, hc, hp, h.mono hp, Bool.not_true, Bool.false_eq_true, ↓reduceIte] at hG ⊢
    exact hG
  · simp [hc]

/-- `VerifyScript` under `G` restricts `VerifyScript` under `F`.

**Proof sketch.** `SIGPUSHONLY` under `F` is one under `G`. Both evaluations restrict
(`EvalScript_restricts`), so the stacks are the same. If `F` has `P2SH`, so has `G`, and the
redeem script evaluations restrict; otherwise `F` skips it and, by `SoftForkFlags`, has no
`CLEANSTACK` either. -/
lemma VerifyScript_restricts (scriptSig scriptPubKey : CScript) :
    (VerifyScript G crypto checker scriptSig scriptPubKey).Restricts
      (VerifyScript F crypto checker scriptSig scriptPubKey) := by
  rintro ⟨⟩ hG
  unfold VerifyScript at hG ⊢
  by_cases hpush : (hasFlag G SCRIPT_VERIFY_SIGPUSHONLY && !scriptSig.IsPushOnly) = true
  · simp only [hpush, ↓reduceIte] at hG
    cases hG
  have hpushF : (hasFlag F SCRIPT_VERIFY_SIGPUSHONLY && !scriptSig.IsPushOnly) = false := by
    cases hF : hasFlag F SCRIPT_VERIFY_SIGPUSHONLY
    · rfl
    · simp only [h.mono hF, Bool.true_and] at hpush
      simpa using hpush
  simp only [hpush, hpushF, Bool.false_eq_true, ↓reduceIte] at hG ⊢
  -- the two evaluations, and the check of their result, are the same under `F`
  obtain ⟨stack₁, h₁, hG⟩ := bind_eq_ok.1 hG
  obtain ⟨stack₂, h₂, hG⟩ := bind_eq_ok.1 hG
  obtain ⟨u, h₃, hG⟩ := bind_eq_ok.1 hG
  obtain ⟨stack₄, h₄, h₅⟩ := bind_eq_ok.1 hG
  rw [Restricts.mapError _ (EvalScript_restricts h crypto checker [] scriptSig) _ h₁,
    Except.ok_bind, Restricts.mapError _ (EvalScript_restricts h crypto checker _ scriptPubKey) _ h₂,
    Except.ok_bind, h₃, Except.ok_bind]
  by_cases hp : hasFlag F SCRIPT_VERIFY_P2SH = true
  · -- both run the redeem script
    have hpG := h.mono hp
    simp only [hpG, hp, Bool.true_and] at h₄ ⊢
    rw [Restricts.ite (fun _ => evalRedeemScript_restricts h crypto checker scriptSig _)
      (fun _ => Restricts.refl _) _ h₄, Except.ok_bind]
    exact checkCleanStack_restricts h _ _ h₅
  · -- `F` stops here, and has no `CLEANSTACK`
    have hc : hasFlag F SCRIPT_VERIFY_CLEANSTACK = false := by
      cases hc : hasFlag F SCRIPT_VERIFY_CLEANSTACK
      · rfl
      · exact absurd (h.cleanStack hc) hp
    simp [hp, checkCleanStack, hc]

/-- **Verification flags are soft forks.** Under `SoftForkFlags F G`, whenever
`VerifyScript(scriptSig, scriptPubKey, G, checker)` succeeds,
`VerifyScript(scriptSig, scriptPubKey, F, checker)` succeeds. -/
theorem verifyScript_of_softFork (scriptSig scriptPubKey : CScript)
    (hG : VerifyScript G crypto checker scriptSig scriptPubKey = .ok ()) :
    VerifyScript F crypto checker scriptSig scriptPubKey = .ok () :=
  VerifyScript_restricts h crypto checker scriptSig scriptPubKey () hG

end Scripts

/-! ## The lock-time exception -/

/-- A checker that accepts every lock time and no signature. -/
def lockTimeChecker : BaseSignatureChecker := ⟨fun _ _ _ => false, fun _ => true, fun _ => true⟩

/-- Hashes that return their input, and a low-S check that passes. -/
def identityCrypto : ScriptCrypto := ⟨id, id, id, id, id, fun _ => true⟩

/-- **Adding `CHECKLOCKTIMEVERIFY` is not a restriction under `DISCOURAGE_UPGRADABLE_NOPS`.**
The locking script `OP_1 OP_CHECKLOCKTIMEVERIFY` with an empty unlocking script passes under
`DISCOURAGE_UPGRADABLE_NOPS | CHECKLOCKTIMEVERIFY` (the lock time `1` is accepted and stays on
the stack as true) and fails under `DISCOURAGE_UPGRADABLE_NOPS`, where the opcode is the
discouraged `OP_NOP2`. -/
theorem verifyScript_discourage_cltv :
    VerifyScript (SCRIPT_VERIFY_DISCOURAGE_UPGRADABLE_NOPS ||| SCRIPT_VERIFY_CHECKLOCKTIMEVERIFY)
        identityCrypto lockTimeChecker [] [OP_1, OP_CHECKLOCKTIMEVERIFY] = .ok () ∧
      VerifyScript SCRIPT_VERIFY_DISCOURAGE_UPGRADABLE_NOPS identityCrypto lockTimeChecker []
        [OP_1, OP_CHECKLOCKTIMEVERIFY] =
        .error (.scriptError SCRIPT_ERR_DISCOURAGE_UPGRADABLE_NOPS) := by
  decide +kernel

/-- The consensus flags `P2SH` restrict nothing more than `P2SH | STRICTENC | NULLDUMMY`:
the locking script `OP_1` passes under both. -/
theorem verifyScript_of_softFork_p2sh_strictenc :
    SoftForkFlags SCRIPT_VERIFY_P2SH
        (SCRIPT_VERIFY_P2SH ||| SCRIPT_VERIFY_STRICTENC ||| SCRIPT_VERIFY_NULLDUMMY) ∧
      VerifyScript (SCRIPT_VERIFY_P2SH ||| SCRIPT_VERIFY_STRICTENC ||| SCRIPT_VERIFY_NULLDUMMY)
        identityCrypto lockTimeChecker [] [OP_1] = .ok () ∧
      VerifyScript SCRIPT_VERIFY_P2SH identityCrypto lockTimeChecker [] [OP_1] = .ok () :=
  have hflags : SoftForkFlags SCRIPT_VERIFY_P2SH
      (SCRIPT_VERIFY_P2SH ||| SCRIPT_VERIFY_STRICTENC ||| SCRIPT_VERIFY_NULLDUMMY) :=
    ⟨by decide, by decide, by decide, by decide⟩
  have hG : VerifyScript (SCRIPT_VERIFY_P2SH ||| SCRIPT_VERIFY_STRICTENC ||| SCRIPT_VERIFY_NULLDUMMY)
      identityCrypto lockTimeChecker [] [OP_1] = .ok () := by decide +kernel
  ⟨hflags, hG, verifyScript_of_softFork hflags identityCrypto lockTimeChecker [] [OP_1] hG⟩

end MvfBu
