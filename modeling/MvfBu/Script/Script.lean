import Mathlib.Tactic.Ring
import MvfBu.Serialize

set_option autoImplicit false

/-!
# Scripts (`script/script.h`, `script/script.cpp`)

A `CScript` is a byte string. `GetOp2` reads one instruction at an iterator: an opcode
byte, and for the push opcodes the data that follows it. `CScriptNum` is the numeric view of
a stack element: little-endian magnitude with a sign bit, at most four bytes by default,
optionally required to be minimal.

## Main definitions

* `MvfBu.CScript`, `MvfBu.valtype` — scripts and stack elements (byte strings).
* `MvfBu.CScript.GetOp2` — one instruction read, with the iterator where it stops.
* `MvfBu.CScript.decode` — the instructions the interpreter's loop reads.
* `MvfBu.CScript.FindAndDelete`, `MvfBu.CScript.IsPushOnly`, `MvfBu.CScript.IsPayToScriptHash`.
* `MvfBu.CScriptNum.set_vch`, `MvfBu.CScriptNum.serialize`, `MvfBu.CScriptNum.ofVch`.

## Main results

* `MvfBu.CScript.GetOp2_pc_lt` — a successful read moves the iterator forward.
-/

namespace MvfBu

/-- A stack element, `std::vector<unsigned char>`. -/
abbrev valtype := List UInt8

/-- A script, `prevector<28, unsigned char>`. -/
abbrev CScript := List UInt8

/-! ## Opcodes used by name -/

def OP_0 : UInt8 := 0x00
def OP_PUSHDATA1 : UInt8 := 0x4c
def OP_PUSHDATA2 : UInt8 := 0x4d
def OP_PUSHDATA4 : UInt8 := 0x4e
def OP_1NEGATE : UInt8 := 0x4f
def OP_1 : UInt8 := 0x51
def OP_16 : UInt8 := 0x60
def OP_IF : UInt8 := 0x63
def OP_NOTIF : UInt8 := 0x64
def OP_ENDIF : UInt8 := 0x68
def OP_DUP : UInt8 := 0x76
def OP_RETURN : UInt8 := 0x6a
def OP_EQUAL : UInt8 := 0x87
def OP_EQUALVERIFY : UInt8 := 0x88
def OP_NUMEQUALVERIFY : UInt8 := 0x9d
def OP_HASH160 : UInt8 := 0xa9
def OP_CODESEPARATOR : UInt8 := 0xab
def OP_CHECKSIG : UInt8 := 0xac
def OP_CHECKSIGVERIFY : UInt8 := 0xad
def OP_CHECKMULTISIGVERIFY : UInt8 := 0xaf
def OP_CHECKLOCKTIMEVERIFY : UInt8 := 0xb1
def OP_INVALIDOPCODE : UInt8 := 0xff

/-- `MAX_SCRIPT_ELEMENT_SIZE`. -/
def MAX_SCRIPT_ELEMENT_SIZE : ℕ := 520

/-- `MAX_OPS_PER_SCRIPT`. -/
def MAX_OPS_PER_SCRIPT : ℕ := 201

/-- `MAX_PUBKEYS_PER_MULTISIG`. -/
def MAX_PUBKEYS_PER_MULTISIG : ℤ := 20

namespace CScript

/-- What `GetOp2(pc, opcodeRet, pvchRet)` leaves behind: whether it succeeded, the opcode
(`OP_INVALIDOPCODE` on failure), the push data and the iterator. -/
structure GetOpResult where
  ok : Bool
  opcode : UInt8
  vch : List UInt8
  pc : ℕ
  deriving DecidableEq, Repr

/-- The number of length bytes after a push opcode: none for a direct push, then 1, 2 or 4
for `OP_PUSHDATA1`, `OP_PUSHDATA2`, `OP_PUSHDATA4`. -/
def pushLengthBytes (opcode : UInt8) : ℕ :=
  if opcode < OP_PUSHDATA1 then 0
  else if opcode = OP_PUSHDATA1 then 1 else if opcode = OP_PUSHDATA2 then 2 else 4

/-- The rest of `GetOp2` after a push opcode, with the iterator `pc` on the first length
byte: read the length, then the data; on failure the iterator stays after the length
bytes read. -/
def readPush (script : CScript) (opcode : UInt8) (pc : ℕ) : GetOpResult :=
  let k := pushLengthBytes opcode
  if script.length - pc < k then ⟨false, OP_INVALIDOPCODE, [], pc⟩
  else
    let nSize := if opcode < OP_PUSHDATA1 then opcode.toNat
      else readLE ((script.drop pc).take k)
    if script.length - (pc + k) < nSize then ⟨false, OP_INVALIDOPCODE, [], pc + k⟩
    else ⟨true, opcode, (script.drop (pc + k)).take nSize, pc + k + nSize⟩

/-- `CScript::GetOp2` at position `pc`: the opcode byte, and for a push opcode (at most
`OP_PUSHDATA4`) its length and data. -/
def GetOp2 (script : CScript) (pc : ℕ) : GetOpResult :=
  if script.length ≤ pc then ⟨false, OP_INVALIDOPCODE, [], pc⟩
  else
    let opcode := script.getD pc 0
    if opcode ≤ OP_PUSHDATA4 then readPush script opcode (pc + 1)
    else ⟨true, opcode, [], pc + 1⟩

lemma le_readPush_pc (script : CScript) (opcode : UInt8) (pc : ℕ) :
    pc ≤ (readPush script opcode pc).pc := by
  unfold readPush
  dsimp only
  repeat' split
  all_goals (try dsimp only)
  all_goals omega

/-- A successful read moves the iterator forward. -/
lemma GetOp2_pc_lt (script : CScript) (pc : ℕ) (h : (GetOp2 script pc).ok = true) :
    pc < (GetOp2 script pc).pc := by
  unfold GetOp2 at h ⊢
  by_cases hend : script.length ≤ pc
  · simp [hend] at h
  · simp only [hend, ↓reduceIte] at h ⊢
    split
    · have := le_readPush_pc script (script.getD pc 0) (pc + 1)
      omega
    · simp

/-- A read at the end of the script fails. -/
lemma GetOp2_of_le (script : CScript) (pc : ℕ) (h : script.length ≤ pc) :
    (GetOp2 script pc).ok = false := by
  simp [GetOp2, h]

/-- One instruction as the interpreter's loop reads it: opcode, push data and the iterator
after it. -/
structure ScriptOp where
  opcode : UInt8
  vch : List UInt8
  pcNext : ℕ
  deriving DecidableEq, Repr

/-- The reads of a loop `while (pc < end) { if (!GetOp(pc, ...)) break; ... }`: the
instructions read, where the iterator stopped, and whether a read failed. -/
structure Decoded where
  ops : List ScriptOp
  pcEnd : ℕ
  failed : Bool
  deriving DecidableEq, Repr

/-- The instructions of a script from `pc` on, read by `GetOp2` until the end or the first
failed read. -/
def decodeFrom (script : CScript) (pc : ℕ) : Decoded :=
  if h : script.length ≤ pc then ⟨[], pc, false⟩
  else
    let r := GetOp2 script pc
    if hok : r.ok then
      have : script.length - r.pc < script.length - pc := by
        have hlt : pc < r.pc := GetOp2_pc_lt script pc hok
        omega
      let rest := decodeFrom script r.pc
      ⟨⟨r.opcode, r.vch, r.pc⟩ :: rest.ops, rest.pcEnd, rest.failed⟩
    else ⟨[], r.pc, true⟩
termination_by script.length - pc

/-- The instructions of a whole script. -/
def decode (script : CScript) : Decoded := decodeFrom script 0

/-- `CScript::operator<<(std::vector<unsigned char>)`: a push of the data with the shortest
length prefix among direct, `OP_PUSHDATA1`, `OP_PUSHDATA2` and `OP_PUSHDATA4`. -/
def pushData (b : List UInt8) : CScript :=
  (if b.length < OP_PUSHDATA1.toNat then [UInt8.ofNat b.length]
   else if b.length ≤ 0xff then [OP_PUSHDATA1, UInt8.ofNat b.length]
   else if b.length ≤ 0xffff then OP_PUSHDATA2 :: writeLE 2 b.length
   else OP_PUSHDATA4 :: writeLE 4 b.length) ++ b

/-- The inner loop of `FindAndDelete`: skip every copy of `b` that starts at `pc`, counting
them. -/
def skipCopies (script b : CScript) (hb : b ≠ []) (pc nFound : ℕ) : ℕ × ℕ :=
  if hcopy : b.length ≤ script.length - pc ∧ (script.drop pc).take b.length = b then
    have : script.length - (pc + b.length) < script.length - pc := by
      have : 0 < b.length := List.length_pos_of_ne_nil hb
      omega
    skipCopies script b hb (pc + b.length) (nFound + 1)
  else (pc, nFound)
termination_by script.length - pc

lemma le_skipCopies (script b : CScript) (hb : b ≠ []) (pc nFound : ℕ) :
    pc ≤ (skipCopies script b hb pc nFound).1 := by
  induction pc, nFound using skipCopies.induct script b hb with
  | case1 pc nFound hcopy _ ih =>
    rw [skipCopies, dif_pos hcopy]
    exact le_trans (Nat.le_add_right pc b.length) ih
  | case2 pc nFound h =>
    rw [skipCopies, dif_neg h]

/-- The `do … while (GetOp(pc, opcode))` loop of `FindAndDelete`, from the boundary `pc2`
and the iterator `pc`: the bytes kept so far, the copies found, and the boundary `pc2`
where the loop stopped. -/
def findAndDeleteLoop (script b : CScript) (hb : b ≠ []) (pc2 pc : ℕ) (result : List UInt8)
    (nFound : ℕ) : List UInt8 × ℕ × ℕ :=
  let result := result ++ (script.drop pc2).take (pc - pc2)
  let skipped := skipCopies script b hb pc nFound
  let r := GetOp2 script skipped.1
  if hok : r.ok then
    have : script.length - r.pc < script.length - pc := by
      have h1 : skipped.1 < r.pc := GetOp2_pc_lt script skipped.1 hok
      have h2 : pc ≤ skipped.1 := le_skipCopies script b hb pc nFound
      have h3 : skipped.1 < script.length := by
        by_contra hge
        rw [GetOp2_of_le script skipped.1 (by omega)] at hok
        exact Bool.false_ne_true hok
      omega
    findAndDeleteLoop script b hb skipped.1 r.pc result skipped.2
  else (result, skipped.2, skipped.1)
termination_by script.length - pc

/-- `CScript::FindAndDelete(b)`: the script with every copy of `b` that starts at an
instruction boundary removed, and the number of copies; an empty `b` changes nothing. -/
def FindAndDelete (script b : CScript) : CScript × ℕ :=
  if hb : b = [] then (script, 0)
  else
    let (result, nFound, pc2) := findAndDeleteLoop script b hb 0 0 [] 0
    if nFound > 0 then (result ++ script.drop pc2, nFound) else (script, nFound)

/-- `CScript::IsPushOnly`: every instruction reads and is at most `OP_16`. -/
def IsPushOnly (script : CScript) : Bool :=
  let d := decode script
  !d.failed && d.ops.all (fun op => op.opcode ≤ OP_16)

/-- `CScript::IsPayToScriptHash`: `OP_HASH160 <20 bytes> OP_EQUAL`. -/
def IsPayToScriptHash (script : CScript) : Bool :=
  script.length == 23 && script.getD 0 0 == OP_HASH160 && script.getD 1 0 == 0x14 &&
    script.getD 22 0 == OP_EQUAL

/-- `CScript::IsUnspendable`: the script starts with `OP_RETURN`. -/
def IsUnspendable (script : CScript) : Bool :=
  script.length > 0 && script.getD 0 0 == OP_RETURN

end CScript

/-! ## Script numbers -/

namespace CScriptNum

/-- `CScriptNum::nDefaultMaxNumSize`. -/
def nDefaultMaxNumSize : ℕ := 4

/-- The bytes of a magnitude, least significant first, stopping at zero (the `while
(absvalue)` loop of `serialize`); `fuel` bounds the iterations and is given the magnitude
itself. -/
def absBytes : ℕ → ℕ → List UInt8
  | 0, _ => []
  | fuel + 1, n => if n = 0 then [] else UInt8.ofNat (n % 256) :: absBytes fuel (n / 256)

/-- `CScriptNum::serialize`: little-endian magnitude; the sign goes in the top bit of the
last byte, with an extra `0x00` or `0x80` byte when that bit is taken by the magnitude. -/
def serialize (value : ℤ) : List UInt8 :=
  if value = 0 then []
  else
    let neg := value < 0
    let result := absBytes value.natAbs value.natAbs
    let last := result.getLastD 0
    if last &&& 0x80 ≠ 0 then result ++ [if neg then 0x80 else 0]
    else if neg then result.dropLast ++ [last ||| 0x80]
    else result

/-- `CScriptNum::set_vch`: the little-endian value, negated with its sign bit cleared when
the top bit of the last byte is set. -/
def set_vch (vch : List UInt8) : ℤ :=
  if vch = [] then 0
  else if vch.getLastD 0 &&& 0x80 ≠ 0 then
    -((readLE vch : ℤ) - 0x80 * 256 ^ (vch.length - 1))
  else readLE vch

/-- The constructor `CScriptNum(vch, fRequireMinimal, nMaxNumSize)`, with the messages of the
`scriptnum_error` it throws. -/
def ofVch (vch : List UInt8) (fRequireMinimal : Bool) (nMaxNumSize : ℕ) :
    Except String ℤ :=
  if vch.length > nMaxNumSize then throw "script number overflow"
  else if fRequireMinimal && vch.length > 0 && vch.getLastD 0 &&& 0x7f = 0 &&
      (vch.length ≤ 1 || vch.getD (vch.length - 2) 0 &&& 0x80 = 0) then
    throw "non-minimally encoded script number"
  else pure (set_vch vch)

/-- `CScriptNum::getint`: the value clamped to the range of `int`. -/
def getint (m_value : ℤ) : ℤ :=
  if m_value > 2147483647 then 2147483647
  else if m_value < -2147483648 then -2147483648 else m_value

end CScriptNum

end MvfBu
