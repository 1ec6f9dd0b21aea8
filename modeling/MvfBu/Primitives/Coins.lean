import Mathlib.Data.List.DropRight
import MvfBu.Primitives.Transaction

set_option autoImplicit false

/-!
# Unspent outputs (`coins.h`, `coins.cpp`)

A `CCoins` holds what is left unspent of one transaction: its outputs, with spent ones nulled
and trailing null ones dropped, whether it was a coinbase, its height and its version. A view
maps a transaction id to its `CCoins`; this module takes the view a validation function reads
as a plain function, the map the caches of `CCoinsViewCache` implement.

## Main definitions

* `MvfBu.CCoins` with `FromTx`, `Cleanup`, `ClearUnspendable`, `Spend`, `IsAvailable`,
  `IsPruned`.
* `MvfBu.CoinsView`, `MvfBu.CoinsView.HaveInputs`, `MvfBu.CoinsView.GetOutputFor`,
  `MvfBu.CoinsView.GetValueIn`.
-/

namespace MvfBu

/-- `CTxOut::SetNull`. -/
def CTxOut.SetNull (_ : CTxOut) : CTxOut := CTxOut.null

/-- `CCoins`: the unspent outputs of one transaction. -/
structure CCoins where
  fCoinBase : Bool
  vout : List CTxOut
  nHeight : ℤ
  nVersion : ℤ
  deriving DecidableEq, Repr

namespace CCoins

/-- `Cleanup`: drop the spent outputs at the end of `vout`. -/
def Cleanup (c : CCoins) : CCoins :=
  { c with vout := (c.vout.reverse.dropWhile CTxOut.IsNull).reverse }

/-- `ClearUnspendable`: null the provably unspendable outputs, then `Cleanup`. -/
def ClearUnspendable (c : CCoins) : CCoins :=
  Cleanup { c with vout := c.vout.map fun o => if o.scriptPubKey.IsUnspendable then o.SetNull else o }

/-- `FromTx(tx, nHeightIn)`. -/
def FromTx (tx : CTransaction) (nHeightIn : ℤ) : CCoins :=
  ClearUnspendable ⟨tx.IsCoinBase, tx.vout, nHeightIn, tx.nVersion.toInt⟩

/-- `Clear`, and the empty constructor. -/
def Clear : CCoins := ⟨false, [], 0, 0⟩

/-- `IsCoinBase`. -/
def IsCoinBase (c : CCoins) : Bool := c.fCoinBase

/-- `IsAvailable(nPos)`: the output exists and is unspent. -/
def IsAvailable (c : CCoins) (nPos : ℕ) : Bool :=
  decide (nPos < c.vout.length) && !(c.vout.getD nPos CTxOut.null).IsNull

/-- `IsPruned`: every output is spent. -/
def IsPruned (c : CCoins) : Bool := c.vout.all CTxOut.IsNull

/-- `Spend(nPos)`: null an available output and `Cleanup`; `none` for the `false` returned
when the output is not available. -/
def Spend (c : CCoins) (nPos : ℕ) : Option CCoins :=
  if c.IsAvailable nPos then some (Cleanup { c with vout := c.vout.set nPos CTxOut.null })
  else none

/-- `operator==`: pruned coins are all equal ("Empty CCoins objects are always equal"), other
coins field by field. -/
def beq (a b : CCoins) : Bool :=
  (a.IsPruned && b.IsPruned) ||
    (a.fCoinBase == b.fCoinBase && a.nHeight == b.nHeight && a.nVersion == b.nVersion &&
      a.vout == b.vout)

/-- `Cleanup` is `rdropWhile` of the null outputs. -/
theorem Cleanup_vout (c : CCoins) : c.Cleanup.vout = c.vout.rdropWhile CTxOut.IsNull := rfl

/-- `Cleanup` drops null outputs only: the coins stay pruned or unpruned. -/
@[simp] theorem IsPruned_Cleanup (c : CCoins) : c.Cleanup.IsPruned = c.IsPruned := by
  unfold IsPruned
  rw [Cleanup_vout]
  have hsplit : c.vout.rdropWhile CTxOut.IsNull ++ c.vout.rtakeWhile CTxOut.IsNull = c.vout :=
    List.rdropWhile_append_rtakeWhile
  conv_rhs => rw [← hsplit]
  have hdropped : (c.vout.rtakeWhile CTxOut.IsNull).all CTxOut.IsNull = true :=
    List.all_eq_true.2 fun _ ho => List.mem_rtakeWhile_imp ho
  rw [List.all_append, hdropped, Bool.and_true]

@[simp] theorem Cleanup_Cleanup (c : CCoins) : c.Cleanup.Cleanup = c.Cleanup := by
  unfold Cleanup
  congr 1
  exact List.rdropWhile_idempotent _ _

/-- Cleaned-up coins that are pruned have no outputs left. -/
theorem vout_eq_nil_of_IsPruned {c : CCoins} (hclean : c.Cleanup = c) (hpruned : c.IsPruned = true) :
    c.vout = [] := by
  rw [← hclean, Cleanup_vout, List.rdropWhile_eq_nil_iff]
  exact List.all_eq_true.1 hpruned

@[simp] theorem IsPruned_Clear : Clear.IsPruned = true := rfl

end CCoins

/-- A view of the unspent outputs: `AccessCoins(txid)`, `none` for `NULL`. -/
abbrev CoinsView := uint256 → Option CCoins

namespace CoinsView

variable (view : CoinsView)

/-- `HaveInputs(tx)`: every output a non-coinbase transaction spends is available. -/
def HaveInputs (tx : CTransaction) : Bool :=
  tx.IsCoinBase || tx.vin.all fun txin =>
    match view txin.prevout.hash with
    | some coins => coins.IsAvailable txin.prevout.n.toNat
    | none => false

/-- `GetOutputFor(input)`: the output an input spends (asserted available). -/
def GetOutputFor (txin : CTxIn) : CTxOut :=
  match view txin.prevout.hash with
  | some coins => coins.vout.getD txin.prevout.n.toNat CTxOut.null
  | none => CTxOut.null

/-- `GetValueIn(tx)`: the sum of the values an ordinary transaction spends. -/
def GetValueIn (tx : CTransaction) : ℤ :=
  if tx.IsCoinBase then 0
  else (tx.vin.map fun txin => (view.GetOutputFor txin).nValue.toInt).sum

end CoinsView

end MvfBu
