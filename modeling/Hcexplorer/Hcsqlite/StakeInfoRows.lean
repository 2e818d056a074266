import Mathlib.Tactic.Linarith
import Mathlib.Tactic.NormNum
import Hcexplorer.Hcsqlite.Resync

/-!
# Three ways to a stake info row

The stake info of a block is assembled by the start-up synchronization, by the live
path (`CollectHash` and `ToStakeInfoExtended`) and by the path of a reorganization
(`CollectAPITypes`). The last two read the stake difficulty from the header of the
block; the first never sets it, and cuts the window size to 32 bits.

The law says for which blocks and parameters the three rows are the same.
-/

namespace Hcexplorer.Hcsqlite

open Collection

/-- The answers are those of the block with the hash, for which pool information is
recorded. -/
structure Consistent (answers : Answers) (hash : Hash) (block : MsgBlock) (tpi : TicketPoolInfo) :
    Prop where
  block : answers.collectGetBlock hash = .ok block
  poolInfo : answers.poolInfo hash = some tpi

/-- The row that the collector assembles for a block. -/
def collectedRow (hcd : Hcd) (params : ChainParams) (statistics : Statistics) (tpi : TicketPoolInfo)
    (block : MsgBlock) : StakeInfoExtended statistics.Rates where
  feeinfo := feeRateInfoBlock hcd statistics block
  stakeDiff := hcd.toCoin block.header.sBits
  priceWindowNum := (priceWindow params block.height).1
  idxBlockInWindow := (priceWindow params block.height).2
  poolInfo := tpi

variable {hcd : Hcd} {params : ChainParams} {statistics : Statistics} {answers : Answers}
  {hash : Hash} {block : MsgBlock} {tpi : TicketPoolInfo}

/-- What `CollectBlockInfo` says of the block are its height, its price and its own numbers,
where the node's answers are those of the block. -/
theorem collectBlockInfo_consistent {info : BlockInfo (statistics.measures hcd)}
    (consistent : Consistent answers hash block tpi)
    (collected : collectBlockInfo hcd (statistics.measures hcd) answers hash = .ok info) :
    info.basic.height = block.header.height ∧ info.basic.stakeDiff = hcd.toCoin block.header.sBits ∧
      info.basic.poolInfo = tpi ∧ info.feeInfo = feeRateInfoBlock hcd statistics block := by
  simp only [collectBlockInfo, consistent.block, consistent.poolInfo] at collected
  split at collected
  · cases collected
  · cases collected
    exact ⟨rfl, rfl, rfl, rfl⟩

/-- The live path stores the collected row of a block, where the node's answers are those of the
block. -/
theorem collectHash_row {data : BlockData (statistics.measures hcd)} {msgBlock : MsgBlock}
    (consistent : Consistent answers hash block tpi)
    (collected : collectHash hcd params (statistics.measures hcd) answers hash = .ok (data, msgBlock)) :
    toStakeInfoExtended data = collectedRow hcd params statistics tpi block := by
  unfold collectHash at collected
  split at collected
  · cases collected
  · rename_i info isInfo
    obtain ⟨height, stakeDiff, poolInfo, feeInfo⟩ := collectBlockInfo_consistent consistent isInfo
    split at collected
    · cases collected
    · cases collected
      simp only [toStakeInfoExtended, assemble, collectedRow, height, stakeDiff, poolInfo, feeInfo,
        MsgBlock.height]

/-- The path of a reorganization stores the same collected row of a block. -/
theorem collectAPITypes_row {summary : BlockDataBasic} {info : StakeInfoExtended statistics.Rates}
    (consistent : Consistent answers hash block tpi)
    (collected : collectAPITypes hcd params statistics answers hash = some (summary, info)) :
    info = collectedRow hcd params statistics tpi block := by
  unfold collectAPITypes at collected
  split at collected
  · cases collected
  · rename_i blockInfo isInfo
    obtain ⟨height, stakeDiff, poolInfo, feeInfo⟩ := collectBlockInfo_consistent consistent isInfo
    obtain ⟨-, rfl⟩ := Prod.mk.inj (Option.some.inj collected)
    simp only [collectedRow, height, stakeDiff, poolInfo, feeInfo, MsgBlock.height]

/-- The window size, cut to 32 bits as the synchronization does. -/
def windowSize32 (params : ChainParams) : Int := params.stakeDiffWindowSize.toUInt64.toUInt32.toNat

/-- Cutting the window size does not show at a height: it is not zero, and it is the
window size or both are above the height. -/
def WindowFits (params : ChainParams) (height : Int) : Prop :=
  windowSize32 params ≠ 0 ∧ (windowSize32 params = params.stakeDiffWindowSize.toInt ∨
    (height < windowSize32 params ∧ height < |params.stakeDiffWindowSize.toInt|))

/-- A height is below a divisor when the quotient is zero. -/
theorem tdiv_eq_zero {height size : Int} (low : 0 ≤ height) (nonzero : size ≠ 0) :
    height.tdiv size = 0 ↔ height < |size| := by
  have quotient : (height.tdiv size).natAbs = height.natAbs / size.natAbs := Int.natAbs_tdiv height size
  have positive : 0 < size.natAbs := Int.natAbs_pos.mpr nonzero
  have size_natAbs : |size| = size.natAbs := Int.abs_eq_natAbs size
  rw [← Int.natAbs_eq_zero, quotient, Nat.div_eq_zero_iff, size_natAbs]
  omega

/-- Two window sizes put a height into the same place of the same window exactly when
they are equal or both above it. -/
theorem window_eq_iff {height first second : Int} (low : 0 ≤ height) (firstNonzero : first ≠ 0)
    (secondNonzero : second ≠ 0) :
    (height.tdiv first = height.tdiv second ∧ height.tmod first = height.tmod second) ↔
      first = second ∨ (height < |first| ∧ height < |second|) := by
  have firstSplit := Int.mul_tdiv_add_tmod height first
  have secondSplit := Int.mul_tdiv_add_tmod height second
  constructor
  · rintro ⟨quotient, remainder⟩
    have products : (first - second) * height.tdiv second = 0 := by
      rw [quotient, remainder] at firstSplit
      linarith
    rcases mul_eq_zero.mp products with same | zero
    · exact Or.inl (by omega)
    · exact Or.inr ⟨(tdiv_eq_zero low firstNonzero).mp (quotient.trans zero),
        (tdiv_eq_zero low secondNonzero).mp zero⟩
  · rintro (rfl | ⟨belowFirst, belowSecond⟩)
    · exact ⟨rfl, rfl⟩
    · have firstZero := (tdiv_eq_zero low firstNonzero).mpr belowFirst
      have secondZero := (tdiv_eq_zero low secondNonzero).mpr belowSecond
      rw [firstZero] at firstSplit
      rw [secondZero] at secondSplit
      exact ⟨firstZero.trans secondZero.symm, by linarith⟩

/-- The start-up synchronization stores the collected row exactly when the stake
difficulty of the block is zero and the window size is not changed by its cut. -/
theorem resyncStakeInfo_eq_iff (coins : ∀ atoms, hcd.toCoin atoms = 0 ↔ atoms = 0)
    (window : params.stakeDiffWindowSize ≠ 0) :
    resyncStakeInfo hcd params statistics block.height tpi block =
        some (collectedRow hcd params statistics tpi block) ↔
      block.header.sBits = 0 ∧ WindowFits params block.height := by
  have low := height_nonneg block
  have isWindow : params.stakeDiffWindowSize.toInt ≠ 0 := by
    intro zero
    exact window (Int64.toInt_inj.mp zero)
  have isZero : (0 : Rat) = hcd.toCoin block.header.sBits ↔ block.header.sBits = 0 :=
    eq_comm.trans (coins block.header.sBits)
  have positive : 0 ≤ windowSize32 params := Int.natCast_nonneg _
  have unfolded : resyncStakeInfo hcd params statistics block.height tpi block =
      if windowSize32 params = 0 then none
      else some {
        feeinfo := feeRateInfoBlock hcd statistics block
        stakeDiff := 0
        priceWindowNum := block.height.tdiv (windowSize32 params)
        idxBlockInWindow := block.height.tmod (windowSize32 params) + 1
        poolInfo := tpi } := rfl
  rw [unfolded]
  by_cases cut : windowSize32 params = 0
  · rw [if_pos cut]
    constructor
    · nofun
    · rintro ⟨-, fits⟩
      exact absurd cut fits.1
  · have places := window_eq_iff low cut isWindow
    rw [abs_of_nonneg positive] at places
    rw [if_neg cut]
    simp only [collectedRow, Option.some.injEq, StakeInfoExtended.mk.injEq, true_and, and_true, isZero,
      priceWindow, WindowFits, add_left_inj, places, ne_eq, cut, not_false_eq_true]

/-- The rows of the start-up synchronization, of the live path and of the path of a
reorganization are the same exactly when the stake difficulty of the block is zero
and the window size is not changed by its cut to 32 bits. -/
theorem stakeInfo_rows_agree_iff (hcd : Hcd) (params : ChainParams) (statistics : Statistics)
    {block : MsgBlock} {tpi : TicketPoolInfo} {hash : Hash} {live reorg : Answers}
    {data : BlockData (statistics.measures hcd)} {msgBlock : MsgBlock} {summary : BlockDataBasic}
    {info : StakeInfoExtended statistics.Rates}
    (coins : ∀ atoms, hcd.toCoin atoms = 0 ↔ atoms = 0) (window : params.stakeDiffWindowSize ≠ 0)
    (liveConsistent : Consistent live hash block tpi)
    (reorgConsistent : Consistent reorg hash block tpi)
    (collected : collectHash hcd params (statistics.measures hcd) live hash = .ok (data, msgBlock))
    (organized : collectAPITypes hcd params statistics reorg hash = some (summary, info)) :
    (resyncStakeInfo hcd params statistics block.height tpi block = some (toStakeInfoExtended data) ∧
      toStakeInfoExtended data = info) ↔
      block.header.sBits = 0 ∧ WindowFits params block.height := by
  rw [collectHash_row liveConsistent collected, collectAPITypes_row reorgConsistent organized,
    resyncStakeInfo_eq_iff coins window]
  exact and_iff_left rfl

/-- A node that knows one block, with pool information recorded for it. -/
def answersOf (block : MsgBlock) (tpi : TicketPoolInfo) : Answers where
  getBlock _ := .ok block
  getBlockCount := .ok block.height
  getBestBlockHash := some (.ok (Sample.hcd.hashOf block))
  getStakeDifficulty := .ok ⟨0, 0⟩
  estimateStakeDiff := .ok ⟨0, 0, 0, none⟩
  collectGetBlock _ := .ok block
  getCoinSupply := .ok 0
  getBlockSubsidy _ := .ok ⟨0, 0, 0, 0⟩
  poolInfo _ := some tpi
  poolInfoBest := (tpi, block.height.toNat)
  getBlockHeaderVerbose hash := .ok ⟨hash, block.header.height, 5, 0, 0, 0, 1000, 0, 1⟩
  getConnectionCount := .ok 8

/-- The sample answers are those of the block. -/
theorem answersOf_consistent (block : MsgBlock) (tpi : TicketPoolInfo) (hash : Hash) :
    Consistent (answersOf block tpi) hash block tpi := ⟨rfl, rfl⟩

/-- Coins that are an exact quotient are zero for no other amount than zero. -/
theorem sample_toCoin_eq_zero (atoms : Int64) : Sample.hcd.toCoin atoms = 0 ↔ atoms = 0 := by
  constructor
  · intro isZero
    exact Sample.hcutil_exact.toCoin_injective (isZero.trans (by decide +kernel))
  · rintro rfl
    decide +kernel

/-- The law at a block whose stake difficulty is zero. -/
theorem stakeInfo_rows_agree_iff_free :
    ∃ data msgBlock summary info,
      collectHash Sample.hcd ⟨16, 144⟩ (noRates.measures Sample.hcd) (answersOf Sample.firstBlock ⟨1, 5, 5⟩)
        (Sample.hcd.hashOf Sample.firstBlock) = .ok (data, msgBlock) ∧
      collectAPITypes Sample.hcd ⟨16, 144⟩ noRates (answersOf Sample.firstBlock ⟨1, 5, 5⟩)
        (Sample.hcd.hashOf Sample.firstBlock) = some (summary, info) ∧
      resyncStakeInfo Sample.hcd ⟨16, 144⟩ noRates Sample.firstBlock.height ⟨1, 5, 5⟩
        Sample.firstBlock = some (toStakeInfoExtended data) ∧ toStakeInfoExtended data = info := by
  have consistent := answersOf_consistent Sample.firstBlock ⟨1, 5, 5⟩
    (Sample.hcd.hashOf Sample.firstBlock)
  refine ⟨_, _, _, _, rfl, rfl, ?_⟩
  apply (stakeInfo_rows_agree_iff Sample.hcd ⟨16, 144⟩ noRates sample_toCoin_eq_zero (by decide)
    consistent consistent rfl rfl).mpr
  exact ⟨by decide, by decide, Or.inl (by decide)⟩

/-- A block with a stake difficulty of two coins. -/
def pricedBlock : MsgBlock :=
  ⟨{ Sample.header 1 1 (Sample.hcd.hashOf Sample.genesis) with sBits := 200000000 }, [], []⟩

/-- The start-up synchronization stores no stake difficulty for it, the other paths
store two coins. -/
theorem stakeInfo_rows_differ :
    ∃ data msgBlock row,
      Consistent (answersOf pricedBlock ⟨1, 5, 5⟩) (Sample.hcd.hashOf pricedBlock) pricedBlock ⟨1, 5, 5⟩ ∧
      collectHash Sample.hcd ⟨16, 144⟩ (noRates.measures Sample.hcd) (answersOf pricedBlock ⟨1, 5, 5⟩)
        (Sample.hcd.hashOf pricedBlock) = .ok (data, msgBlock) ∧
      resyncStakeInfo Sample.hcd ⟨16, 144⟩ noRates pricedBlock.height ⟨1, 5, 5⟩ pricedBlock =
        some row ∧ (toStakeInfoExtended data).stakeDiff = 2 ∧ row.stakeDiff = 0 := by
  refine ⟨_, _, _, answersOf_consistent _ _ _, rfl, rfl, ?_, rfl⟩
  decide +kernel

end Hcexplorer.Hcsqlite
