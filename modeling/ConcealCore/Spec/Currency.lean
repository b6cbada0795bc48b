import ConcealCore.Spec.FormatUtils

/-!
# The currency parameters and the emission

`Currency` holds the parameters a node is built with (`CurrencyBuilder` fills
them from `CryptoNoteConfig.h`; `Currency.mainnet` is that default) and the
functions of `Currency.cpp` that depend only on them: the upgrade heights and
what the block major version selects (difficulty window, timestamp window, future
time limit), the base reward and its penalty for large blocks, and the maximal
cumulative block size. `size_t` is 64 bits wide, as on every target the node is
built for; the 128-bit helpers of `int-util.h` are exact and are computed on `Nat`.
-/

namespace Cn

/-- The parameters of `Currency` that the modelled functions read. -/
structure Currency where
  testnet : Bool
  coin : UInt64
  moneySupply : UInt64
  minedMoneyUnlockWindow : UInt64
  timestampCheckWindow : UInt64
  timestampCheckWindowV1 : UInt64
  blockFutureTimeLimit : UInt64
  blockFutureTimeLimitV1 : UInt64
  rewardBlocksWindow : UInt64
  blockGrantedFullRewardZone : UInt64
  minerTxBlobReservedSize : UInt64
  maxBlockBlobSize : UInt64
  difficultyTarget : UInt64
  difficultyWindow : UInt64
  difficultyLag : UInt64
  difficultyCut : UInt64
  zawyDifficultyBlockIndex : UInt32
  zawyDifficultyV2 : UInt64
  zawyDifficultyBlockVersion : UInt8
  depositMinTerm : UInt32
  depositMaxTerm : UInt32
  depositMaxTermV1 : UInt32
  depositMinTermV3 : UInt32
  depositMaxTermV3 : UInt32
  depositMinTotalRateFactor : UInt64
  depositMaxTotalRate : UInt64
  depositMinAmount : UInt64
  depositHeightV3 : UInt32
  depositHeightV4 : UInt32
  blockWithMissingInterest : UInt32
  maxBlockHeight : UInt64
  maxTxSize : UInt64
  lockedTxAllowedDeltaBlocks : UInt64
  lockedTxAllowedDeltaSeconds : UInt64
  mempoolTxLiveTime : UInt64
  mempoolTxFromAltBlockLiveTime : UInt64
  numberOfPeriodsToForgetTxDeletedFromPool : UInt64
  maxBlockSizeInitial : UInt64
  maxBlockSizeGrowthSpeedNumerator : UInt64
  maxBlockSizeGrowthSpeedDenominator : UInt64
  upgradeHeightV2 : UInt64
  upgradeHeightV3 : UInt64
  upgradeHeightV6 : UInt64
  upgradeHeightV7 : UInt64
  upgradeHeightV8 : UInt64
deriving Repr

def COIN : UInt64 := 1000000
def POINT : UInt64 := 1000
def MINIMUM_FEE : UInt64 := 10
def START_BLOCK_REWARD : UInt64 := 5000 * POINT
def FOUNDATION_TRUST : UInt64 := 12000000 * COIN
def MAX_BLOCK_REWARD : UInt64 := 15 * COIN
def MAX_BLOCK_REWARD_V1 : UInt64 := 6 * COIN
def REWARD_INCREASE_INTERVAL : UInt64 := 21900
def END_MULTIPLIER_BLOCK : UInt32 := 12750
def MULTIPLIER_FACTOR : UInt64 := 100
def DIFFICULTY_WINDOW_V1 : UInt64 := 720
def DIFFICULTY_WINDOW_V2 : UInt64 := 720
def DIFFICULTY_WINDOW_V3 : UInt64 := 60
def DIFFICULTY_WINDOW_V4 : UInt64 := 60
def DIFFICULTY_BLOCKS_COUNT : UInt64 := DIFFICULTY_WINDOW_V3 + 1
def DIFFICULTY_BLOCKS_COUNT_V1 : UInt64 := DIFFICULTY_WINDOW_V4 + 1
def DIFFICULTY_CUT_V1 : UInt64 := 60
def DIFFICULTY_CUT_V2 : UInt64 := 60
def UPGRADE_HEIGHT_V6 : UInt64 := 104200

/-- `Currency::REWARD_INCREASING_FACTOR`: the monthly increase of the base reward. -/
def REWARD_INCREASING_FACTOR : List UInt64 := (List.range 49).map fun i => UInt64.ofNat (250000 * i)

/-- The parameters `CurrencyBuilder` sets for the main network. -/
def Currency.mainnet : Currency where
  testnet := false
  coin := COIN
  moneySupply := 200000000000000
  minedMoneyUnlockWindow := 10
  timestampCheckWindow := 30
  timestampCheckWindowV1 := 11
  blockFutureTimeLimit := 60 * 60 * 2
  blockFutureTimeLimitV1 := 360
  rewardBlocksWindow := 100
  blockGrantedFullRewardZone := 100000
  minerTxBlobReservedSize := 600
  maxBlockBlobSize := 500000000
  difficultyTarget := 120
  difficultyWindow := 720
  difficultyLag := 15
  difficultyCut := 60
  zawyDifficultyBlockIndex := 0
  zawyDifficultyV2 := 1
  zawyDifficultyBlockVersion := 0
  depositMinTerm := 5040
  depositMaxTerm := 12 * 21900
  depositMaxTermV1 := 64800 * 20
  depositMinTermV3 := 21900
  depositMaxTermV3 := 12 * 21900
  depositMinTotalRateFactor := 0
  depositMaxTotalRate := 4
  depositMinAmount := 1 * COIN
  depositHeightV3 := 413400
  depositHeightV4 := 1162162
  blockWithMissingInterest := 425799
  maxBlockHeight := 500000000
  maxTxSize := 1000000000
  lockedTxAllowedDeltaBlocks := 1
  lockedTxAllowedDeltaSeconds := 120 * 1
  mempoolTxLiveTime := 60 * 60 * 12
  mempoolTxFromAltBlockLiveTime := 60 * 60 * 12
  numberOfPeriodsToForgetTxDeletedFromPool := 7
  maxBlockSizeInitial := 100000 * 10
  maxBlockSizeGrowthSpeedNumerator := 100 * 1024
  maxBlockSizeGrowthSpeedDenominator := 365 * 24 * 60 * 60 / 120
  upgradeHeightV2 := 1
  upgradeHeightV3 := 12750
  upgradeHeightV6 := 104200
  upgradeHeightV7 := 195765
  upgradeHeightV8 := 661300

/-- `CurrencyBuilder::testnet(true)`: the main network's parameters with the
testnet deposit terms and upgrade heights. -/
def Currency.testnetCurrency : Currency :=
  { Currency.mainnet with
    testnet := true
    depositMinTerm := 30
    depositMaxTerm := 12 * 30
    depositMinTermV3 := 30
    depositMaxTermV3 := 12 * 30
    depositHeightV3 := 60
    depositHeightV4 := 300000
    blockWithMissingInterest := 0
    upgradeHeightV2 := 1
    upgradeHeightV3 := 12
    upgradeHeightV6 := 48
    upgradeHeightV7 := 60
    upgradeHeightV8 := 72 }

namespace Currency

variable (cur : Currency)

/-- `UpgradeDetectorBase::UNDEF_HEIGHT`. -/
def UNDEF_HEIGHT : UInt32 := 0xFFFFFFFF

/-- `Currency::upgradeHeight(majorVersion)`: version 4 takes the height of the
sixth upgrade; versions without an upgrade have none. -/
def upgradeHeight (majorVersion : UInt8) : UInt64 :=
  if majorVersion = BLOCK_MAJOR_VERSION_2 then cur.upgradeHeightV2
  else if majorVersion = BLOCK_MAJOR_VERSION_3 then cur.upgradeHeightV3
  else if majorVersion = BLOCK_MAJOR_VERSION_4 then cur.upgradeHeightV6
  else if majorVersion = BLOCK_MAJOR_VERSION_7 then cur.upgradeHeightV7
  else if majorVersion = BLOCK_MAJOR_VERSION_8 then cur.upgradeHeightV8
  else (UNDEF_HEIGHT.toUInt64)

/-- `BasicUpgradeDetector::upgradeHeight()` with a fixed upgrade height: the
currency's height, as a `uint32_t`. -/
def detectorUpgradeHeight (targetVersion : UInt8) : UInt32 :=
  (cur.upgradeHeight targetVersion).toUInt32

/-- `Blockchain::getBlockMajorVersionForHeight` (and its twin
`get_block_major_version_for_height`): the version of the last upgrade whose
height lies below `height`. -/
def getBlockMajorVersionForHeight (height : UInt64) : UInt8 :=
  if height > (cur.detectorUpgradeHeight BLOCK_MAJOR_VERSION_8).toUInt64 then BLOCK_MAJOR_VERSION_8
  else if height > (cur.detectorUpgradeHeight BLOCK_MAJOR_VERSION_7).toUInt64 then BLOCK_MAJOR_VERSION_7
  else if height > (cur.detectorUpgradeHeight BLOCK_MAJOR_VERSION_4).toUInt64 then BLOCK_MAJOR_VERSION_4
  else if height > (cur.detectorUpgradeHeight BLOCK_MAJOR_VERSION_3).toUInt64 then BLOCK_MAJOR_VERSION_3
  else if height > (cur.detectorUpgradeHeight BLOCK_MAJOR_VERSION_2).toUInt64 then BLOCK_MAJOR_VERSION_2
  else BLOCK_MAJOR_VERSION_1

def difficultyWindowByBlockVersion (blockMajorVersion : UInt8) : UInt64 :=
  if blockMajorVersion ≥ BLOCK_MAJOR_VERSION_8 then DIFFICULTY_WINDOW_V4
  else if blockMajorVersion ≥ BLOCK_MAJOR_VERSION_4 then DIFFICULTY_WINDOW_V3
  else if blockMajorVersion ≥ BLOCK_MAJOR_VERSION_2 then cur.difficultyWindow
  else if blockMajorVersion = BLOCK_MAJOR_VERSION_1 then DIFFICULTY_WINDOW_V2
  else DIFFICULTY_WINDOW_V1

def difficultyCutByBlockVersion (blockMajorVersion : UInt8) : UInt64 :=
  if blockMajorVersion ≥ BLOCK_MAJOR_VERSION_2 then cur.difficultyCut
  else if blockMajorVersion = BLOCK_MAJOR_VERSION_1 then DIFFICULTY_CUT_V2
  else DIFFICULTY_CUT_V1

/-- `difficultyBlocksCount()`: the window and the lag. -/
def difficultyBlocksCount : UInt64 := cur.difficultyWindow + cur.difficultyLag

/-- `difficultyBlocksCountByBlockVersion`: `N + 1` blocks for the two LWMA
algorithms, the window and the lag before them. -/
def difficultyBlocksCountByBlockVersion (blockMajorVersion : UInt8) : UInt64 :=
  if blockMajorVersion ≥ BLOCK_MAJOR_VERSION_8 then DIFFICULTY_BLOCKS_COUNT_V1
  else if blockMajorVersion ≥ BLOCK_MAJOR_VERSION_4 then DIFFICULTY_BLOCKS_COUNT
  else cur.difficultyBlocksCount

def timestampCheckWindowByBlockVersion (blockMajorVersion : UInt8) : UInt64 :=
  if blockMajorVersion ≥ BLOCK_MAJOR_VERSION_4 then cur.timestampCheckWindowV1
  else cur.timestampCheckWindow

def blockFutureTimeLimitByBlockVersion (blockMajorVersion : UInt8) : UInt64 :=
  if blockMajorVersion ≥ BLOCK_MAJOR_VERSION_4 then cur.blockFutureTimeLimitV1
  else cur.blockFutureTimeLimit

/-- `Currency::baseRewardFunction`: the foundation grant at height 1, then the
monthly-increasing reward (a flat one after the eighth upgrade), capped by
`MAX_BLOCK_REWARD` and by the supply left. -/
def baseRewardFunction (alreadyGeneratedCoins : UInt64) (height : UInt32) : UInt64 :=
  if height = 1 then FOUNDATION_TRUST
  else
    let baseReward :=
      if height.toUInt64 > cur.upgradeHeightV8 then MAX_BLOCK_REWARD_V1
      else
        let incrIntervals := height.toUInt64 / REWARD_INCREASE_INTERVAL
        START_BLOCK_REWARD + REWARD_INCREASING_FACTOR.getD incrIntervals.toNat 0
    min (min baseReward MAX_BLOCK_REWARD) (cur.moneySupply - alreadyGeneratedCoins)

end Currency

/-- `mul128`: the low and high words of the 128-bit product. -/
@[grind] def mul128 (multiplier multiplicand : UInt64) : UInt64 × UInt64 :=
  let p := multiplier.toNat * multiplicand.toNat
  (UInt64.ofNat (p % 2 ^ 64), UInt64.ofNat (p / 2 ^ 64))

/-- `div128_32`: the 128-bit quotient of `hi:lo` by a 32-bit divisor, high word first. -/
@[grind] def div128_32 (dividendHi dividendLo : UInt64) (divisor : UInt32) : UInt64 × UInt64 :=
  let q := (dividendHi.toNat * 2 ^ 64 + dividendLo.toNat) / divisor.toNat
  (UInt64.ofNat (q / 2 ^ 64), UInt64.ofNat (q % 2 ^ 64))

/-- `getPenalizedAmount(amount, medianSize, currentBlockSize)`: the amount
scaled by `size * (2 * median - size) / median²` once the block outgrows the median. -/
def getPenalizedAmount (amount medianSize currentBlockSize : UInt64) : UInt64 :=
  if amount = 0 then 0
  else if currentBlockSize ≤ medianSize then amount
  else
    let (productLo, productHi) :=
      mul128 amount (currentBlockSize * (2 * medianSize - currentBlockSize))
    let (hi, lo) := div128_32 productHi productLo medianSize.toUInt32
    (div128_32 hi lo medianSize.toUInt32).2

namespace Currency

variable (cur : Currency)

/-- `Currency::getBlockReward`: `none` when the block is more than twice the
median; else the reward and the emission change, `penalizedBaseReward - (fee -
penalizedFee)` as the `int64_t` the source stores it in. -/
def getBlockReward (medianSize currentBlockSize alreadyGeneratedCoins fee : UInt64) (height : UInt32) :
    Option (UInt64 × Int64) :=
  let baseReward := cur.baseRewardFunction alreadyGeneratedCoins height
  let medianSize := max medianSize cur.blockGrantedFullRewardZone
  if currentBlockSize > 2 * medianSize then none
  else
    let penalizedBaseReward := getPenalizedAmount baseReward medianSize currentBlockSize
    let penalizedFee := getPenalizedAmount fee medianSize currentBlockSize
    some (penalizedBaseReward + penalizedFee, (penalizedBaseReward - (fee - penalizedFee)).toInt64)

/-- `Currency::maxBlockCumulativeSize(height)`: the initial size, grown linearly. -/
def maxBlockCumulativeSize (height : UInt64) : UInt64 :=
  cur.maxBlockSizeInitial +
    height * cur.maxBlockSizeGrowthSpeedNumerator / cur.maxBlockSizeGrowthSpeedDenominator

end Currency

end Cn
