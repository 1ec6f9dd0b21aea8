import MvfBu.Arith.Uint256

set_option autoImplicit false

/-!
# Consensus parameters of the retargeting code (`consensus/params.h`, `mvf-bu-globals.h`)

The proof-of-work fields of `Consensus::Params` and the height-dependent schedule that the
MVF fork adds to them. The schedule reads the global `FinalActivateForkHeight`, which is a
parameter here.

## Main definitions

* `MvfBu.Consensus.Params` — `powLimit`, the two testnet/regtest switches, target spacing
  and timespan.
* `MvfBu.Consensus.Params.MVFPowTargetTimespan`,
  `MvfBu.Consensus.Params.DifficultyAdjustmentIntervalAt` — the post-fork schedule
  (`MVHF-BU-DES-DIAD-4`).
* `MvfBu.Consensus.mainParams` — the mainnet values of `CMainParams`.
* `MvfBu.Consensus.Params.RetargetBounds` — spacing and timespan for which the MVF retarget's
  `int` and `uint32_t` conversions are exact; the mainnet values satisfy it.

## Main results

* `MvfBu.Consensus.Params.MVFPowTargetTimespan_bounds` — every scheduled timespan is at least
  ten seconds, and ten of them fit an `int`.
-/

namespace MvfBu

/-- `HARDFORK_RETARGET_BLOCKS`: blocks after the fork during which the special retargeting
schedule is active. -/
def HARDFORK_RETARGET_BLOCKS : ℤ := 180 * 144

/-- `MAX_HARDFORK_DROPFACTOR`, the largest `-diffdrop` accepted at start-up. -/
def MAX_HARDFORK_DROPFACTOR : ℕ := 1000000

/-- `HARDFORK_DROPFACTOR_MAINNET`, the default difficulty drop on mainnet. -/
def HARDFORK_DROPFACTOR_MAINNET : ℕ := 100000

namespace Consensus

/-- The proof-of-work fields of `Consensus::Params`. -/
structure Params where
  powLimit : ArithUint256
  fPowAllowMinDifficultyBlocks : Bool
  fPowNoRetargeting : Bool
  nPowTargetSpacing : ℤ
  nPowTargetTimespan : ℤ

namespace Params

variable (FinalActivateForkHeight : ℤ) (p : Params)

/-- `Params::MVFisWithinRetargetPeriod`: at or after the fork height. -/
def MVFisWithinRetargetPeriod (Height : ℤ) : Bool :=
  decide (Height ≥ FinalActivateForkHeight)

/-- `Params::MVFPowTargetTimespan`: the retarget timespan, shortened after the fork and
lengthened again block range by block range (`MVHF-BU-DES-DIAD-4`). -/
def MVFPowTargetTimespan (Height : ℤ) : ℤ :=
  if MVFisWithinRetargetPeriod FinalActivateForkHeight Height then
    let MVFHeight := Height - FinalActivateForkHeight
    if 0 ≤ MVFHeight ∧ MVFHeight ≤ 7 then p.nPowTargetSpacing
    else if 8 ≤ MVFHeight ∧ MVFHeight ≤ 46 then p.nPowTargetSpacing * 6
    else if 47 ≤ MVFHeight ∧ MVFHeight ≤ 153 then p.nPowTargetSpacing * 36
    else if 154 ≤ MVFHeight ∧ MVFHeight ≤ 299 then p.nPowTargetSpacing * 72
    else if 300 ≤ MVFHeight ∧ MVFHeight ≤ 1299 then p.nPowTargetSpacing * 144
    else if 1300 ≤ MVFHeight ∧ MVFHeight ≤ 4999 then p.nPowTargetSpacing * 288
    else if 5000 ≤ MVFHeight ∧ MVFHeight ≤ 9999 then p.nPowTargetSpacing * 432
    else if 10000 ≤ MVFHeight ∧ MVFHeight ≤ 14999 then p.nPowTargetSpacing * 576
    else if 15000 ≤ MVFHeight ∧ MVFHeight ≤ HARDFORK_RETARGET_BLOCKS then
      p.nPowTargetSpacing * 1152
    else p.nPowTargetTimespan
  else p.nPowTargetTimespan

/-- `Params::DifficultyAdjustmentInterval()`: blocks per retarget before the fork. -/
def DifficultyAdjustmentInterval : ℤ := p.nPowTargetTimespan.tdiv p.nPowTargetSpacing

/-- `Params::DifficultyAdjustmentInterval(Height)`: blocks per retarget at a height, every
block for the first 2016 blocks after the fork. -/
def DifficultyAdjustmentIntervalAt (Height : ℤ) : ℤ :=
  if MVFisWithinRetargetPeriod FinalActivateForkHeight Height then
    let MVFHeight := Height - FinalActivateForkHeight
    if 0 ≤ MVFHeight ∧ MVFHeight ≤ 2016 then 1
    else if 2017 ≤ MVFHeight ∧ MVFHeight ≤ 3999 then 10
    else if 4000 ≤ MVFHeight ∧ MVFHeight ≤ 9999 then 40
    else if 10000 ≤ MVFHeight ∧ MVFHeight ≤ 14999 then 100
    else if 15000 ≤ MVFHeight ∧ MVFHeight ≤ 19999 then 400
    else if 20000 ≤ MVFHeight ∧ MVFHeight ≤ HARDFORK_RETARGET_BLOCKS then 1000
    else 2016
  else p.nPowTargetTimespan.tdiv p.nPowTargetSpacing

/-- Before the fork the schedule is the original two-week timespan. -/
lemma MVFPowTargetTimespan_of_lt {Height : ℤ} (h : Height < FinalActivateForkHeight) :
    MVFPowTargetTimespan FinalActivateForkHeight p Height = p.nPowTargetTimespan := by
  simp [MVFPowTargetTimespan, MVFisWithinRetargetPeriod, not_le.2 h]

/-- For the first eight blocks after the fork the timespan is one block spacing. -/
lemma MVFPowTargetTimespan_of_le_seven {Height : ℤ} (h0 : FinalActivateForkHeight ≤ Height)
    (h7 : Height ≤ FinalActivateForkHeight + 7) :
    MVFPowTargetTimespan FinalActivateForkHeight p Height = p.nPowTargetSpacing := by
  simp only [MVFPowTargetTimespan, MVFisWithinRetargetPeriod, ge_iff_le, h0, decide_true,
    ↓reduceIte]
  rw [if_pos (by omega)]

/-- **Retarget bounds.** A spacing and a two-week timespan of at least ten seconds, and small
enough that every timespan of the schedule, times the retarget limit of ten, is an `int`. -/
structure RetargetBounds : Prop where
  spacing_ge : 10 ≤ p.nPowTargetSpacing
  timespan_ge : 10 ≤ p.nPowTargetTimespan
  spacing_lt : p.nPowTargetSpacing * 1152 * 10 < 2 ^ 31
  timespan_lt : p.nPowTargetTimespan * 10 < 2 ^ 31

/-- Under the retarget bounds every scheduled timespan is at least ten seconds, and ten of
them fit an `int`. -/
lemma MVFPowTargetTimespan_bounds (hp : p.RetargetBounds) (Height : ℤ) :
    10 ≤ MVFPowTargetTimespan FinalActivateForkHeight p Height ∧
      MVFPowTargetTimespan FinalActivateForkHeight p Height * 10 < 2 ^ 31 := by
  obtain ⟨h1, h2, h3, h4⟩ := hp
  unfold MVFPowTargetTimespan
  dsimp only
  split_ifs <;> omega

end Params

/-- The mainnet values of `CMainParams`: `powLimit` is `2 ^ 224 - 1`, one block every ten
minutes, retargeting every two weeks. -/
def mainParams : Params where
  powLimit := BitVec.ofNat 256 (2 ^ 224 - 1)
  fPowAllowMinDifficultyBlocks := false
  fPowNoRetargeting := false
  nPowTargetSpacing := 10 * 60
  nPowTargetTimespan := 14 * 24 * 60 * 60

lemma mainParams_retargetBounds : mainParams.RetargetBounds :=
  ⟨by decide, by decide, by decide, by decide⟩

end Consensus

end MvfBu
