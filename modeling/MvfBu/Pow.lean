import MvfBu.Arith.Compact
import MvfBu.Consensus.Params
import MvfBu.Lib.IntConv
import MvfBu.Lib.ExceptLemmas

set_option autoImplicit false

/-!
# Difficulty retargeting (`pow.cpp`)

`GetNextWorkRequired` computes the `nBits` a block on top of `pindexLast` must carry. From
the block before the fork height on it hands over to `GetMVFNextWorkRequired`, which picks
one of three formulas by height: the one-off reset of `CalculateMVFResetWorkRequired` for
the first forked block, the fast post-fork schedule of `CalculateMVFNextWorkRequired`, or
the previous `nBits` between retargets.

The arithmetic is that of the source: `int64_t` timespans, the conversions at the
`arith_uint256` operators (a timespan passed to `operator*` is converted to `uint32_t`, one
passed to `operator/` to `uint64_t` and then widened), and `operator/=` throwing
`uint_error` on a zero divisor.

## Main definitions

* `MvfBu.CBlockIndex`, `MvfBu.BlockPath` — a block index entry and its ancestors.
* `MvfBu.PowFault` — a thrown `uint_error` or a failed `assert`.
* `MvfBu.getNextWorkRequired` and the functions it calls.
* `MvfBu.GetBlockProof` — the work a block's target stands for.

## Main results

* `MvfBu.getNextWorkRequired_genesis_reset` — with the fork at height one, the reset
  block's retarget divides by zero whatever the genesis block, drop factor and time.
* `MvfBu.calculateMVFNextWorkRequired_exact` — the post-fork retarget is the capped product
  over unbounded integers: its wrap test fires exactly when the 256-bit product wraps, and the
  `uint32_t` multiplier is exact.
* `MvfBu.GetBlockProof_eq` — `~t / (t + 1) + 1` neither divides by zero nor wraps, and is
  `2 ^ 256 / (t + 1)`.
-/

namespace MvfBu

open ArithUint256

/-- The fields of `CBlockIndex` the retargeting code reads. -/
structure CBlockIndex where
  nTime : UInt32
  nBits : UInt32
  deriving DecidableEq, Repr

namespace CBlockIndex

/-- `CBlockIndex::GetBlockTime`: the header time as an `int64_t`. -/
def GetBlockTime (b : CBlockIndex) : ℤ := b.nTime.toNat

end CBlockIndex

/-- A block index entry with all its ancestors, oldest first: entry `i` is the ancestor at
height `i` and the last entry is the block itself. -/
structure BlockPath where
  blocks : List CBlockIndex
  ne_nil : blocks ≠ []

namespace BlockPath

/-- The block itself. -/
def tip (p : BlockPath) : CBlockIndex := p.blocks.getLast p.ne_nil

/-- `CBlockIndex::nHeight`. -/
def nHeight (p : BlockPath) : ℤ := p.blocks.length - 1

/-- `CBlockIndex::GetAncestor`: the ancestor at a height, `NULL` outside `[0, nHeight]`. -/
def GetAncestor (p : BlockPath) (height : ℤ) : Option CBlockIndex :=
  if height < 0 then none else p.blocks[height.toNat]?

/-- A genesis block alone. -/
def single (b : CBlockIndex) : BlockPath := ⟨[b], List.cons_ne_nil _ _⟩

@[simp] lemma single_tip (b : CBlockIndex) : (single b).tip = b := rfl

@[simp] lemma single_nHeight (b : CBlockIndex) : (single b).nHeight = 0 := rfl

@[simp] lemma single_GetAncestor_zero (b : CBlockIndex) : (single b).GetAncestor 0 = some b := rfl

end BlockPath

/-- How the retargeting code stops instead of returning: a thrown `uint_error`, or a failed
`assert`. -/
inductive PowFault
  | uintError (e : UintError)
  | assertion (e : AssertionFailed)
  deriving DecidableEq, Repr

/-- The fork settings the retargeting code reads from globals and arguments:
`FinalActivateForkHeight`, `FinalDifficultyDropFactor` and `-force-retarget`. -/
structure MVFSettings where
  FinalActivateForkHeight : ℤ
  FinalDifficultyDropFactor : ℕ
  forceRetarget : Bool

/-- An `int64_t` (or `int`) operand of `arith_uint256::operator/`: converted to `uint64_t`
and widened by `base_uint(uint64_t)`. -/
def int64ToArith (x : ℤ) : ArithUint256 := ofUint64 (UInt64.ofNat (IntConv.toUnsigned 64 x))

/-- An `int64_t` operand of `operator*`: the `uint32_t` overload is chosen, so the value is
converted to `uint32_t`. -/
def int64ToUInt32 (x : ℤ) : UInt32 := UInt32.ofNat (IntConv.toUnsigned 32 x)

/-- The loop of the testnet rule that returns the last block not mined at minimum
difficulty: `while (pindex->pprev && pindex->nHeight % interval != 0 && pindex->nBits ==
nProofOfWorkLimit) pindex = pindex->pprev; return pindex->nBits;`, over the ancestors
listed newest first (the height of an entry is the length of what follows it). -/
def lastNonMinDifficultyBits (interval : ℤ → ℤ) (nProofOfWorkLimit : UInt32) :
    List CBlockIndex → UInt32
  | [] => 0
  | [b] => b.nBits
  | b :: rest@(_ :: _) =>
    if (rest.length : ℤ).tmod (interval rest.length) ≠ 0 ∧ b.nBits = nProofOfWorkLimit then
      lastNonMinDifficultyBits interval nProofOfWorkLimit rest
    else b.nBits

section Retarget

variable (params : Consensus.Params) (cfg : MVFSettings)

/-- `CalculateNextWorkRequired`: the pre-fork retarget, with the timespan clamped to a
factor of four. -/
def calculateNextWorkRequired (pindexLast : CBlockIndex) (nFirstBlockTime : ℤ) :
    Except PowFault UInt32 := do
  if params.fPowNoRetargeting && !cfg.forceRetarget then return pindexLast.nBits
  let T := params.nPowTargetTimespan
  let nActualTimespan0 := pindexLast.GetBlockTime - nFirstBlockTime
  let nActualTimespan1 := if nActualTimespan0 < T.tdiv 4 then T.tdiv 4 else nActualTimespan0
  let nActualTimespan := if nActualTimespan1 > T * 4 then T * 4 else nActualTimespan1
  let bnPowLimit := params.powLimit
  let bnNew0 := (setCompact pindexLast.nBits).value
  let bnNew1 := mulAssign32 bnNew0 (int64ToUInt32 nActualTimespan)
  let bnNew2 ← (divAssign bnNew1 (int64ToArith T)).mapError .uintError
  let bnNew := if bnNew2 > bnPowLimit then bnPowLimit else bnNew2
  (getCompact bnNew false).mapError .assertion

/-- `CalculateMVFNextWorkRequired`: the post-fork retarget. A zero timespan returns the
proof-of-work limit; otherwise the timespan is clamped by a factor of four, or ten while the
target timespan is under three spacings, and the division is done before the
multiplication, with a wrap test on the product. -/
def calculateMVFNextWorkRequired (pindexLast : BlockPath) (nFirstBlockTime : ℤ) :
    Except PowFault UInt32 := do
  let bnPowLimit := params.powLimit
  if params.fPowNoRetargeting && !cfg.forceRetarget then return pindexLast.tip.nBits
  let nActualTimespan0 := pindexLast.tip.GetBlockTime - nFirstBlockTime
  if nActualTimespan0 = 0 then return ← (getCompact bnPowLimit false).mapError .assertion
  let nTargetTimespan := IntConv.toSigned 32
    (params.MVFPowTargetTimespan cfg.FinalActivateForkHeight pindexLast.nHeight)
  let retargetLimit : ℤ := if nTargetTimespan ≥ params.nPowTargetSpacing * 3 then 4 else 10
  let nActualTimespan1 := if nActualTimespan0 < nTargetTimespan.tdiv retargetLimit
    then nTargetTimespan.tdiv retargetLimit else nActualTimespan0
  let nActualTimespan := if nActualTimespan1 > nTargetTimespan * retargetLimit
    then nTargetTimespan * retargetLimit else nActualTimespan1
  let bnOld := (setCompact pindexLast.tip.nBits).value
  let bnNew1 ← (divAssign bnOld (int64ToArith nTargetTimespan)).mapError .uintError
  let bnNew2 := mulAssign32 bnNew1 (int64ToUInt32 nActualTimespan)
  let bnCheck ← (divAssign bnNew2 (int64ToArith nActualTimespan)).mapError .uintError
  let bnNew := if bnCheck ≠ bnNew1 then bnPowLimit
    else if bnNew2 > bnPowLimit then bnPowLimit else bnNew2
  (getCompact bnNew false).mapError .assertion

/-- `CalculateMVFResetWorkRequired`: the one-off reset at the fork (`MVHF-BU-DES-DIAD-2`),
which divides the target by the actual timespan shortened by the drop factor. -/
def calculateMVFResetWorkRequired (pindexLast : BlockPath) (nFirstBlockTime : ℤ) :
    Except PowFault UInt32 := do
  let bnPowLimit := params.powLimit
  let nActualTimespan := pindexLast.tip.GetBlockTime - nFirstBlockTime
  let nTargetTimespan := nActualTimespan.tdiv cfg.FinalDifficultyDropFactor
  let bnOld := (setCompact pindexLast.tip.nBits).value
  let bnNew1 ← (divAssign bnOld (int64ToArith nTargetTimespan)).mapError .uintError
  let bnNew2 := mulAssign32 bnNew1 (int64ToUInt32 nActualTimespan)
  let bnCheck ← (divAssign bnNew2 (int64ToArith nActualTimespan)).mapError .uintError
  let bnNew := if bnCheck ≠ bnNew1 ∨ bnNew2 > bnPowLimit then bnPowLimit else bnNew2
  (getCompact bnNew false).mapError .assertion

/-- `GetMVFNextWorkRequired`: the retarget from the block before the fork on. The first
block of the window is looked up one target timespan back (not before genesis). -/
def getMVFNextWorkRequired (pindexLast : BlockPath) (nBlockTime : UInt32) :
    Except PowFault UInt32 := do
  let F := cfg.FinalActivateForkHeight
  let nProofOfWorkLimit ← (getCompact params.powLimit false).mapError .assertion
  let h := pindexLast.nHeight
  let last := pindexLast.tip
  let nHeightFirst0 := IntConv.toSigned 32
    (h - (params.MVFPowTargetTimespan F h).tdiv params.nPowTargetSpacing)
  let nHeightFirst := if nHeightFirst0 < 0 then 0 else nHeightFirst0
  let some pindexFirst := pindexLast.GetAncestor nHeightFirst
    | throw (.assertion ⟨"pindexFirst"⟩)
  if h = F - 1 then
    calculateMVFResetWorkRequired params cfg pindexLast pindexFirst.GetBlockTime
  else if (h + 1).tmod (params.DifficultyAdjustmentIntervalAt F h) ≠ 0 then
    if params.fPowAllowMinDifficultyBlocks && !cfg.forceRetarget then
      if (nBlockTime.toNat : ℤ) > last.GetBlockTime + params.nPowTargetSpacing * 2 then
        return nProofOfWorkLimit
      else
        return lastNonMinDifficultyBits (params.DifficultyAdjustmentIntervalAt F)
          nProofOfWorkLimit pindexLast.blocks.reverse
    else return last.nBits
  else calculateMVFNextWorkRequired params cfg pindexLast pindexFirst.GetBlockTime

/-- `GetNextWorkRequired(pindexLast, pblock, params)`, with `nBlockTime` the time of
`pblock`. -/
def getNextWorkRequired (pindexLast : BlockPath) (nBlockTime : UInt32) :
    Except PowFault UInt32 := do
  if Consensus.Params.MVFisWithinRetargetPeriod cfg.FinalActivateForkHeight
      (pindexLast.nHeight + 1) then
    return ← getMVFNextWorkRequired params cfg pindexLast nBlockTime
  let nProofOfWorkLimit ← (getCompact params.powLimit false).mapError .assertion
  let h := pindexLast.nHeight
  let last := pindexLast.tip
  if (h + 1).tmod params.DifficultyAdjustmentInterval ≠ 0 then
    if params.fPowAllowMinDifficultyBlocks && !cfg.forceRetarget then
      if (nBlockTime.toNat : ℤ) > last.GetBlockTime + params.nPowTargetSpacing * 2 then
        return nProofOfWorkLimit
      else
        return lastNonMinDifficultyBits (fun _ => params.DifficultyAdjustmentInterval)
          nProofOfWorkLimit pindexLast.blocks.reverse
    return last.nBits
  let nHeightFirst := IntConv.toSigned 32 (h - (params.DifficultyAdjustmentInterval - 1))
  if ¬ nHeightFirst ≥ 0 then throw (.assertion ⟨"nHeightFirst >= 0"⟩)
  let some pindexFirst := pindexLast.GetAncestor nHeightFirst
    | throw (.assertion ⟨"pindexFirst"⟩)
  calculateNextWorkRequired params cfg last pindexFirst.GetBlockTime

end Retarget

/-! ## The fork reset at height one -/

/-- The mainnet proof-of-work limit encodes without failing an `assert`. -/
lemma getCompact_mainParams_powLimit :
    getCompact Consensus.mainParams.powLimit false = .ok 0x1d00ffff := by
  decide

/-- **The reset divides by zero when the fork is at height one.** The window of the
reset block then starts at genesis, which is also the last block, so the actual timespan
is zero, the shortened timespan `0 / FinalDifficultyDropFactor` is zero, and
`bnOld / nTargetTimespan` throws `uint_error("Division by zero")`: for every genesis block,
drop factor, `-force-retarget` setting and time of the new block. -/
theorem getNextWorkRequired_genesis_reset (b : CBlockIndex) (d : ℕ) (force : Bool)
    (nBlockTime : UInt32) :
    getNextWorkRequired Consensus.mainParams ⟨1, d, force⟩ (BlockPath.single b) nBlockTime =
      .error (.uintError ⟨"Division by zero"⟩) := by
  -- the window of the reset block reaches back 2016 blocks, clamped to genesis
  have hwindow : IntConv.toSigned 32 (-((Consensus.mainParams.MVFPowTargetTimespan 1 0).tdiv
      Consensus.mainParams.nPowTargetSpacing)) = -2016 := by decide
  -- the timespan is zero, and so is the timespan shortened by the drop factor
  have hreset : divAssign (setCompact b.nBits).value (int64ToArith 0) =
      .error ⟨"Division by zero"⟩ := divAssign_zero _
  simp [getNextWorkRequired, getMVFNextWorkRequired, calculateMVFResetWorkRequired,
    Consensus.Params.MVFisWithinRetargetPeriod, getCompact_mainParams_powLimit, hwindow, hreset]

/-! ## The MVF retarget over unbounded integers -/

/-- The actual timespan as `CalculateMVFNextWorkRequired` clamps it, over the integers: into
`[T / L, T * L]`, the retarget limit `L` four once the target timespan `T` reaches three
spacings and ten before. -/
def mvfClamp (params : Consensus.Params) (T nActualTimespan : ℤ) : ℤ :=
  let retargetLimit : ℤ := if T ≥ params.nPowTargetSpacing * 3 then 4 else 10
  min (max nActualTimespan (T.tdiv retargetLimit)) (T * retargetLimit)

/-- A timespan clamped below a target timespan of at least ten seconds is positive, and stays
an `int` when ten target timespans do. -/
lemma mvfClamp_bounds (params : Consensus.Params) {T : ℤ} (h10 : 10 ≤ T) (h31 : T * 10 < 2 ^ 31)
    (nActualTimespan : ℤ) :
    1 ≤ mvfClamp params T nActualTimespan ∧ mvfClamp params T nActualTimespan < 2 ^ 31 := by
  unfold mvfClamp
  dsimp only
  rw [Int.tdiv_eq_ediv_of_nonneg (by omega)]
  split_ifs <;> omega

lemma mvfClamp_eq (params : Consensus.Params) (T nActualTimespan : ℤ) :
    mvfClamp params T nActualTimespan =
      min (max nActualTimespan (T.tdiv (if T ≥ params.nPowTargetSpacing * 3 then 4 else 10)))
        (T * if T ≥ params.nPowTargetSpacing * 3 then 4 else 10) := rfl

/-- The two clamping statements of the source are one clamp. -/
lemma clamp_ite (n c d : ℤ) :
    (if (if n < c then c else n) > d then d else if n < c then c else n) = min (max n c) d := by
  split_ifs <;> omega

/-- A nonnegative `int64_t` below `2 ^ 64` reaches `operator/` unchanged. -/
lemma int64ToArith_of_mem {x : ℤ} (h0 : 0 ≤ x) (h1 : x < 2 ^ 64) :
    int64ToArith x = BitVec.ofNat 256 x.toNat := by
  have hu := IntConv.toUnsigned_of_lt h0 h1
  unfold int64ToArith ofUint64
  rw [UInt64.toNat_ofNat', Nat.mod_eq_of_lt (IntConv.toUnsigned_lt 64 x)]
  congr 1
  omega

/-- A nonnegative `int64_t` below `2 ^ 32` reaches the `uint32_t` of `operator*` unchanged. -/
lemma int64ToUInt32_toNat {x : ℤ} (h0 : 0 ≤ x) (h1 : x < 2 ^ 32) :
    ((int64ToUInt32 x).toNat : ℤ) = x := by
  unfold int64ToUInt32
  rw [UInt32.toNat_ofNat', Nat.mod_eq_of_lt (IntConv.toUnsigned_lt 32 x)]
  exact IntConv.toUnsigned_of_lt h0 h1

/-- **The capped product.** After the wrap test and the cap of the retarget, the new target is
the true product of `bnNew1` and the factor, capped at the limit. -/
lemma retarget_capped (bnNew1 powLimit : ArithUint256) (b : UInt32) (hb : 0 < b.toNat) :
    (if mulAssign32 bnNew1 b / BitVec.ofNat 256 b.toNat ≠ bnNew1 then powLimit
      else if mulAssign32 bnNew1 b > powLimit then powLimit else mulAssign32 bnNew1 b) =
    BitVec.ofNat 256 (min powLimit.toNat (bnNew1.toNat * b.toNat)) := by
  have hlimit : BitVec.ofNat 256 powLimit.toNat = powLimit := by
    rw [BitVec.ofNat_toNat, BitVec.setWidth_eq]
  by_cases hwrap : bnNew1.toNat * b.toNat < 2 ^ 256
  · -- no wrap: the product is exact, and only the cap can change it
    have hprod : (mulAssign32 bnNew1 b).toNat = bnNew1.toNat * b.toNat := by
      rw [toNat_mulAssign32, Nat.mod_eq_of_lt hwrap]
    rw [if_neg (not_not.2 ((mulAssign32_div_eq_iff bnNew1 b hb).2 hwrap))]
    by_cases hcap : powLimit.toNat < bnNew1.toNat * b.toNat
    · rw [if_pos (BitVec.lt_def.2 (hprod ▸ hcap)), min_eq_left hcap.le, hlimit]
    · rw [if_neg (fun h => hcap (hprod ▸ BitVec.lt_def.1 h)), min_eq_right (not_lt.1 hcap),
        ← hprod, BitVec.ofNat_toNat, BitVec.setWidth_eq]
  · -- a wrapped product fails the test, and the true product is above any limit
    rw [if_pos (fun h => hwrap ((mulAssign32_div_eq_iff bnNew1 b hb).1 h)),
      min_eq_left (le_trans powLimit.isLt.le (not_lt.1 hwrap)), hlimit]

/-- **Exact overflow detection in the MVF retarget.** With retargeting on, a nonzero actual
timespan and the retarget bounds, `CalculateMVFNextWorkRequired` returns the compact form of
`min(powLimit, ⌊old / T⌋ * A)` computed over unbounded integers, `T` the target timespan of
the height and `A` the clamped actual timespan; its wrap test fires exactly when that product
exceeds `2 ^ 256 - 1`; and the `uint32_t` conversion of `A` is exact. -/
theorem calculateMVFNextWorkRequired_exact (params : Consensus.Params)
    (hp : params.RetargetBounds) (cfg : MVFSettings)
    (hretarget : (params.fPowNoRetargeting && !cfg.forceRetarget) = false)
    (pindexLast : BlockPath) (nFirstBlockTime : ℤ)
    (hspan : pindexLast.tip.GetBlockTime - nFirstBlockTime ≠ 0) :
    let T := params.MVFPowTargetTimespan cfg.FinalActivateForkHeight pindexLast.nHeight
    let A := mvfClamp params T (pindexLast.tip.GetBlockTime - nFirstBlockTime)
    let bnOld := (setCompact pindexLast.tip.nBits).value
    calculateMVFNextWorkRequired params cfg pindexLast nFirstBlockTime =
        (getCompact (BitVec.ofNat 256 (min params.powLimit.toNat
          (bnOld.toNat / T.toNat * A.toNat))) false).mapError .assertion ∧
      (mulAssign32 (bnOld / int64ToArith T) (int64ToUInt32 A) / int64ToArith A ≠
        bnOld / int64ToArith T ↔ 2 ^ 256 ≤ bnOld.toNat / T.toNat * A.toNat) ∧
      ((int64ToUInt32 A).toNat : ℤ) = A := by
  dsimp only
  obtain ⟨hT10, hT31⟩ := params.MVFPowTargetTimespan_bounds cfg.FinalActivateForkHeight hp
    pindexLast.nHeight
  obtain ⟨hA1, hA31⟩ := mvfClamp_bounds params hT10 hT31
    (pindexLast.tip.GetBlockTime - nFirstBlockTime)
  set T := params.MVFPowTargetTimespan cfg.FinalActivateForkHeight pindexLast.nHeight with hTdef
  set A := mvfClamp params T (pindexLast.tip.GetBlockTime - nFirstBlockTime) with hAdef
  set bnOld := (setCompact pindexLast.tip.nBits).value
  -- both timespans are positive `int`s, which every conversion leaves unchanged
  have hTsigned : IntConv.toSigned 32 T = T :=
    IntConv.toSigned_of_mem (by norm_num) (by omega) (by omega)
  have hA32 : ((int64ToUInt32 A).toNat : ℤ) = A := int64ToUInt32_toNat (by omega) (by omega)
  have hT : int64ToArith T = BitVec.ofNat 256 T.toNat := int64ToArith_of_mem (by omega) (by omega)
  have hA : int64ToArith A = BitVec.ofNat 256 (int64ToUInt32 A).toNat := by
    rw [int64ToArith_of_mem (by omega) (by omega)]
    congr 1
    omega
  have hApos : 0 < (int64ToUInt32 A).toNat := by omega
  have hTne : int64ToArith T ≠ 0 := hT ▸ ofNat_ne_zero (by omega) (by omega)
  have hAne : int64ToArith A ≠ 0 :=
    hA ▸ ofNat_ne_zero hApos (lt_trans (int64ToUInt32 A).toNat_lt (by decide))
  -- the quotient by `T` is the floor quotient of the values
  have hq : (bnOld / int64ToArith T).toNat = bnOld.toNat / T.toNat := by
    rw [hT, BitVec.toNat_udiv, BitVec.toNat_ofNat, Nat.mod_eq_of_lt (by omega)]
  have hAnat : (int64ToUInt32 A).toNat = A.toNat := by omega
  refine ⟨?_, ?_, hA32⟩
  · unfold calculateMVFNextWorkRequired
    simp only [hretarget, hspan, Bool.false_eq_true, ↓reduceIte, clamp_ite]
    rw [← hTdef, hTsigned, ← mvfClamp_eq, ← hAdef, divAssign_of_ne_zero _ _ hTne,
      Except.mapError_ok, Except.ok_bind, divAssign_of_ne_zero _ _ hAne, Except.mapError_ok,
      Except.ok_bind, hA, retarget_capped _ _ _ hApos, hq, hAnat]
  · rw [hA, ne_eq, mulAssign32_div_eq_iff _ _ hApos, hq, hAnat, not_lt]


/-- The bounds, the retargeting switch and a nonzero timespan hold on mainnet, for a genesis
block at the proof-of-work limit ten minutes after the start of its window. -/
theorem calculateMVFNextWorkRequired_exact_mainnet :
    Consensus.mainParams.RetargetBounds ∧
      (Consensus.mainParams.fPowNoRetargeting && !(⟨0, 1, false⟩ : MVFSettings).forceRetarget) = false ∧
      (BlockPath.single ⟨600, 0x1d00ffff⟩).tip.GetBlockTime - 0 ≠ 0 ∧
      calculateMVFNextWorkRequired Consensus.mainParams ⟨0, 1, false⟩ (BlockPath.single ⟨600, 0x1d00ffff⟩) 0 =
        (getCompact (BitVec.ofNat 256 (min Consensus.mainParams.powLimit.toNat
          ((setCompact 0x1d00ffff).value.toNat / (600 : ℤ).toNat * (600 : ℤ).toNat))) false).mapError
          .assertion :=
  ⟨Consensus.mainParams_retargetBounds, rfl, by decide,
    (calculateMVFNextWorkRequired_exact Consensus.mainParams Consensus.mainParams_retargetBounds
      ⟨0, 1, false⟩ rfl (BlockPath.single ⟨600, 0x1d00ffff⟩) 0 (by decide)).1⟩

/-! ## Block proof -/

/-- `GetBlockProof`: the work of a block, `~bnTarget / (bnTarget + 1) + 1` for the target its
`nBits` encode, standing for `2 ^ 256 / (bnTarget + 1)`; zero for a negative, overflowing or
zero target. The division is `operator/`, which throws on a zero divisor. -/
def GetBlockProof (block : CBlockIndex) : Except UintError ArithUint256 :=
  let d := setCompact block.nBits
  if d.fNegative || d.fOverflow || d.value == 0 then pure 0
  else do
    let q ← divAssign (~~~d.value) (d.value + 1)
    pure (q + 1)

/-- A target `SetCompact` decodes without overflow leaves room for one more: `t + 1` does not
wrap. A mantissa moved up by a byte or more is a multiple of `256`, so it stays below
`2 ^ 256 - 1`. -/
lemma setCompact_value_add_one_lt (nBits : UInt32) (h : (setCompact nBits).fOverflow = false) :
    (setCompact nBits).value.toNat + 1 < 2 ^ 256 := by
  obtain ⟨w, j, hw, hv⟩ := setCompact_value_of_fOverflow_eq_false nBits h
  have hlt := (setCompact nBits).value.isLt
  rw [hv] at hlt ⊢
  cases j with
  | zero =>
    rw [Nat.mul_zero, pow_zero, Nat.mul_one]
    omega
  | succ j =>
    have h256 : w * 2 ^ (8 * (j + 1)) = w * 2 ^ (8 * j) * 256 := by
      rw [Nat.mul_add, pow_add]
      ring
    have hN : (2 : ℕ) ^ 256 = 2 ^ 248 * 256 := by norm_num
    rw [h256, hN] at hlt ⊢
    generalize w * 2 ^ (8 * j) = m at hlt ⊢
    generalize (2 : ℕ) ^ 248 = N at hlt ⊢
    -- `omega` does not finish goals with the coefficient `256`; the step is written out
    have hmN : m + 1 ≤ N := Nat.lt_of_mul_lt_mul_right hlt
    calc m * 256 + 1 < m * 256 + 256 := by norm_num
      _ = (m + 1) * 256 := (Nat.succ_mul m 256).symm
      _ ≤ N * 256 := Nat.mul_le_mul_right 256 hmN

/-- `2 ^ 256 / (t + 1)` through the complement: `(N - 1 - t) / (t + 1) + 1 = N / (t + 1)`. -/
lemma div_complement_add_one {N t : ℕ} (ht : t + 1 ≤ N) : (N - 1 - t) / (t + 1) + 1 = N / (t + 1) := by
  have hN : N = (N - 1 - t) + (t + 1) := by omega
  conv_rhs => rw [hN]
  rw [Nat.add_div_right _ (Nat.succ_pos t)]

/-- **The block proof is `2 ^ 256 / (t + 1)`.** For a target `t` that is neither negative nor
overflowing nor zero, `GetBlockProof` neither divides by zero nor wraps, and returns
`⌊2 ^ 256 / (t + 1)⌋`. -/
theorem GetBlockProof_eq (block : CBlockIndex) (hneg : (setCompact block.nBits).fNegative = false)
    (hover : (setCompact block.nBits).fOverflow = false) (hzero : (setCompact block.nBits).value ≠ 0) :
    ∃ proof, GetBlockProof block = .ok proof ∧
      proof.toNat = 2 ^ 256 / ((setCompact block.nBits).value.toNat + 1) := by
  have ht1 := setCompact_value_add_one_lt block.nBits hover
  have htpos : 0 < (setCompact block.nBits).value.toNat := by
    rcases Nat.eq_zero_or_pos (setCompact block.nBits).value.toNat with h | h
    · exact absurd (BitVec.eq_of_toNat_eq (by rw [h]; rfl)) hzero
    · exact h
  unfold GetBlockProof
  generalize setCompact block.nBits = d at hneg hover hzero ht1 htpos ⊢
  have hone : (1 : ArithUint256).toNat = 1 := rfl
  have hsucc : (d.value + 1).toNat = d.value.toNat + 1 := by
    rw [BitVec.toNat_add, hone, Nat.mod_eq_of_lt ht1]
  have hne : d.value + 1 ≠ 0 := fun h => by
    have := congrArg BitVec.toNat h
    rw [hsucc] at this
    simp at this
  -- the quotient is at most `2 ^ 255`, so adding one does not wrap
  have hq : (2 ^ 256 - 1 - d.value.toNat) / (d.value.toNat + 1) + 1 < 2 ^ 256 := by
    rw [div_complement_add_one (by omega)]
    calc 2 ^ 256 / (d.value.toNat + 1) ≤ 2 ^ 256 / 2 := Nat.div_le_div_left (by omega) (by norm_num)
      _ < 2 ^ 256 := Nat.div_lt_self (Nat.two_pow_pos _) (by norm_num)
  have hcond : (d.fNegative || d.fOverflow || d.value == 0) = false := by
    rw [hneg, hover, Bool.false_or, Bool.false_or, beq_eq_false_iff_ne.2 hzero]
  rw [if_neg (ne_true_of_eq_false hcond), divAssign_of_ne_zero _ _ hne]
  refine ⟨_, rfl, ?_⟩
  rw [BitVec.toNat_add, BitVec.toNat_udiv, BitVec.toNat_not, hsucc, hone,
    Nat.mod_eq_of_lt hq, div_complement_add_one (by omega)]

/-- The block proof is exact, and a harder target (a smaller `t`) proves at least as much work:
for targets `t₁ ≤ t₂` the proof of `t₁` is at least the proof of `t₂`. -/
theorem GetBlockProof_exact :
    (∀ block : CBlockIndex, (setCompact block.nBits).fNegative = false →
      (setCompact block.nBits).fOverflow = false → (setCompact block.nBits).value ≠ 0 →
      ∃ proof, GetBlockProof block = .ok proof ∧
        proof.toNat = 2 ^ 256 / ((setCompact block.nBits).value.toNat + 1)) ∧
    ∀ b₁ b₂ : CBlockIndex,
      (setCompact b₁.nBits).fNegative = false → (setCompact b₁.nBits).fOverflow = false →
      (setCompact b₁.nBits).value ≠ 0 →
      (setCompact b₂.nBits).fNegative = false → (setCompact b₂.nBits).fOverflow = false →
      (setCompact b₂.nBits).value ≠ 0 →
      (setCompact b₁.nBits).value.toNat ≤ (setCompact b₂.nBits).value.toNat →
      ∃ p₁ p₂, GetBlockProof b₁ = .ok p₁ ∧ GetBlockProof b₂ = .ok p₂ ∧ p₂.toNat ≤ p₁.toNat := by
  refine ⟨GetBlockProof_eq, ?_⟩
  intro b₁ b₂ hn₁ ho₁ hz₁ hn₂ ho₂ hz₂ hle
  obtain ⟨p₁, h₁, hp₁⟩ := GetBlockProof_eq b₁ hn₁ ho₁ hz₁
  obtain ⟨p₂, h₂, hp₂⟩ := GetBlockProof_eq b₂ hn₂ ho₂ hz₂
  refine ⟨p₁, p₂, h₁, h₂, ?_⟩
  rw [hp₁, hp₂]
  exact Nat.div_le_div_left (Nat.add_le_add_right hle 1) (Nat.succ_pos _)

end MvfBu
