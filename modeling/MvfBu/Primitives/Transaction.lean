import MvfBu.Script.Script

set_option autoImplicit false

/-!
# Transactions (`primitives/transaction.h`, `amount.h`)

Outpoints, inputs, outputs and transactions with their network serialization: the fields
in order, integers little-endian, scripts and vectors behind a `CompactSize` length.

## Main definitions

* `MvfBu.uint256` — 256-bit hashes, with their 32 bytes little-endian.
* `MvfBu.COutPoint`, `MvfBu.CTxIn`, `MvfBu.CTxOut`, `MvfBu.CTransaction`.
* `MvfBu.CTxOut.serialize`, `MvfBu.CTransaction.serialize` — `SerializationOp`.
* `MvfBu.MAX_MONEY`, `MvfBu.MoneyRange`.
-/

namespace MvfBu

/-- `uint256`: 32 bytes, read as a little-endian number (which is what `UintToArith256`
does), so the same bit vectors as `arith_uint256`. -/
abbrev uint256 := BitVec 256

/-- A `uint256` serializes as its 32 bytes. -/
def serUint256 (h : uint256) : List UInt8 := writeLE 32 h.toNat

/-- `CAmount`, an amount in satoshis. -/
abbrev CAmount := Int64

/-- `COIN`. -/
def COIN : ℤ := 100000000

/-- `CENT`. -/
def CENT : ℤ := 1000000

/-- `MAX_MONEY`: 21 million coins. -/
def MAX_MONEY : ℤ := 21000000 * COIN

/-- `MoneyRange`. -/
def MoneyRange (nValue : ℤ) : Bool := 0 ≤ nValue && nValue ≤ MAX_MONEY

/-- `COutPoint`: a transaction hash and an output index. -/
structure COutPoint where
  hash : uint256
  n : UInt32
  deriving DecidableEq, Repr, Inhabited

namespace COutPoint

/-- `COutPoint::IsNull`: the null hash with index `(uint32_t) -1`. -/
def IsNull (o : COutPoint) : Bool := o.hash == 0 && o.n == 0xffffffff

def serialize (o : COutPoint) : List UInt8 := serUint256 o.hash ++ serUInt32 o.n

end COutPoint

/-- `CTxIn`: the outpoint spent, the unlocking script and the sequence number. -/
structure CTxIn where
  prevout : COutPoint
  scriptSig : CScript
  nSequence : UInt32
  deriving DecidableEq, Repr, Inhabited

/-- `CTxIn::SEQUENCE_FINAL`. -/
def SEQUENCE_FINAL : UInt32 := 0xffffffff

/-- `CTxOut`: an amount and the locking script. -/
structure CTxOut where
  nValue : CAmount
  scriptPubKey : CScript
  deriving DecidableEq, Repr

namespace CTxOut

/-- `CTxOut()`, the null output: `nValue = -1` and an empty script. -/
def null : CTxOut := ⟨-1, []⟩

instance : Inhabited CTxOut := ⟨null⟩

/-- `CTxOut::IsNull`. -/
def IsNull (o : CTxOut) : Bool := o.nValue == -1

def serialize (o : CTxOut) : List UInt8 := serInt64 o.nValue ++ serBytes o.scriptPubKey

end CTxOut

/-- `CTransaction`: version, inputs, outputs and lock time. -/
structure CTransaction where
  nVersion : Int32
  vin : List CTxIn
  vout : List CTxOut
  nLockTime : UInt32
  deriving DecidableEq, Repr

namespace CTransaction

def serialize (tx : CTransaction) : List UInt8 :=
  serInt32 tx.nVersion ++
    WriteCompactSize tx.vin.length ++
      (tx.vin.map fun i => i.prevout.serialize ++ serBytes i.scriptSig ++ serUInt32 i.nSequence).flatten ++
    WriteCompactSize tx.vout.length ++ (tx.vout.map CTxOut.serialize).flatten ++
    serUInt32 tx.nLockTime

/-- `CTransaction::IsNull`: no inputs and no outputs. -/
def IsNull (tx : CTransaction) : Bool := tx.vin.isEmpty && tx.vout.isEmpty

/-- `CTransaction::IsCoinBase`: a single input spending the null outpoint. -/
def IsCoinBase (tx : CTransaction) : Bool :=
  tx.vin.length == 1 && (tx.vin.headD default).prevout.IsNull

end CTransaction

end MvfBu
