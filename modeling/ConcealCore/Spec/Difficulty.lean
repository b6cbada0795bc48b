import ConcealCore.Spec.Currency

/-!
# The difficulty algorithms

The three ways `Currency` turns a window of timestamps and cumulative
difficulties into the difficulty of the next block: the CryptoNote sorted-window
average (`nextDifficulty`, with its Zawy variants and the manual setting around
height 12750), `nextDifficultyLWMA3` and `nextDifficultyLWMA1`. Vectors are
lists; an index the source only asserts to be in range reads `0` outside it.
-/

namespace Cn

namespace Currency

variable (cur : Currency)

/-- `UINT64_MAX`. -/
def UINT64_MAX : UInt64 := 0xFFFFFFFFFFFFFFFF

/-- The cut of the sorted window: the whole window when it is short, else
`window - 2 * cut` entries centred in it. -/
def cutBounds (length window cut : UInt64) : UInt64 × UInt64 :=
  if length ≤ window - 2 * cut then (0, length)
  else
    let cutBegin := (length - (window - 2 * cut) + 1) / 2
    (cutBegin, cutBegin + (window - 2 * cut))

/-- The time span and the work over the cut window. -/
def spanAndWork (timestamps cumulativeDifficulties : List UInt64) (cutBegin cutEnd : UInt64) :
    UInt64 × UInt64 :=
  let timeSpan := timestamps.getD (cutEnd - 1).toNat 0 - timestamps.getD cutBegin.toNat 0
  let timeSpan := if timeSpan = 0 then 1 else timeSpan
  (timeSpan, cumulativeDifficulties.getD (cutEnd - 1).toNat 0 -
    cumulativeDifficulties.getD cutBegin.toNat 0)

/-- `Currency::nextDifficulty(timestamps, cumulativeDifficulties)`, the overload
without a version: the currency's own window and cut, the work per target time
rounded up, and `0` when the product or the rounding overflows. -/
def nextDifficultyUnversioned (timestamps cumulativeDifficulties : List UInt64) : UInt64 :=
  let window := cur.difficultyWindow
  let resize := timestamps.length.toUInt64 > window
  let timestamps' := if resize then timestamps.take window.toNat else timestamps
  let cumulativeDifficulties' :=
    if resize then cumulativeDifficulties.take window.toNat else cumulativeDifficulties
  let length := timestamps'.length.toUInt64
  if length ≤ 1 then 1
  else
    let sorted := timestamps'.mergeSort (· ≤ ·)
    let (cutBegin, cutEnd) := cutBounds length window cur.difficultyCut
    let (timeSpan, totalWork) := spanAndWork sorted cumulativeDifficulties' cutBegin cutEnd
    let (low, high) := mul128 totalWork cur.difficultyTarget
    if high ≠ 0 ∨ low + timeSpan - 1 < low then 0
    else (low + timeSpan - 1) / timeSpan

/-- The Zawy recomputation of `nextDifficulty` over the last 17 blocks of the
original window (as many as the cut-down window has, if fewer), with a floor of 100. -/
def nextDifficultyZawyWindow (timestampsO cumulativeDifficultiesO : List UInt64) (length : UInt64) :
    UInt64 :=
  let window : UInt64 := 17
  let t := min window length
  let timestampsTmp := timestampsO.drop (timestampsO.length - t.toNat)
  let cumulativeDifficultiesTmp := cumulativeDifficultiesO.drop (cumulativeDifficultiesO.length - t.toNat)
  let length := timestampsTmp.length.toUInt64
  if length ≤ 1 then 1
  else
    let sorted := timestampsTmp.mergeSort (· ≤ ·)
    let (cutBegin, cutEnd) := cutBounds length window 0
    let (timeSpan, totalWork) := spanAndWork sorted cumulativeDifficultiesTmp cutBegin cutEnd
    let (low, high) := mul128 totalWork cur.difficultyTarget
    if high ≠ 0 ∨ UINT64_MAX - low < timeSpan - 1 then 0
    else
      let nextDiffZ := low / timeSpan
      if nextDiffZ ≤ 100 then 100 else nextDiffZ

/-- `Currency::nextDifficulty(version, blockIndex, timestamps, cumulativeDifficulties)`. -/
def nextDifficulty (version : UInt8) (blockIndex : UInt32)
    (timestamps cumulativeDifficulties : List UInt64) : UInt64 :=
  -- the manual setting
  if blockIndex ≥ 12750 ∧ blockIndex < 13500 then 2160
  else
    let window := cur.difficultyWindowByBlockVersion version
    let cut := cur.difficultyCutByBlockVersion version
    let resize := timestamps.length.toUInt64 > window
    let timestamps' := if resize then timestamps.take window.toNat else timestamps
    let cumulativeDifficulties' :=
      if resize then cumulativeDifficulties.take window.toNat else cumulativeDifficulties
    let length := timestamps'.length.toUInt64
    if length ≤ 1 then 1
    else
      let sorted := timestamps'.mergeSort (· ≤ ·)
      let (cutBegin, cutEnd) := cutBounds length window cut
      let (timeSpan, totalWork) := spanAndWork sorted cumulativeDifficulties' cutBegin cutEnd
      let (low, high) := mul128 totalWork cur.difficultyTarget
      if high ≠ 0 ∨ UINT64_MAX - low < timeSpan - 1 then 0
      else
        let zawyVersion : UInt8 := if cur.zawyDifficultyV2 ≠ 0 then 2 else cur.zawyDifficultyBlockVersion
        if version ≥ zawyVersion ∧ zawyVersion ≠ 0 then low / timeSpan
        else if cur.zawyDifficultyBlockIndex ≠ 0 ∧ cur.zawyDifficultyBlockIndex ≤ blockIndex then
          cur.nextDifficultyZawyWindow timestamps cumulativeDifficulties length
        else (low + timeSpan - 1) / timeSpan

/-- One solve time of the LWMA loops: an out-of-order timestamp counts as one
second after the previous one, and a solve time is capped at `6 T`. -/
def lwmaStep (T previousTimestamp timestamp : UInt64) : UInt64 × UInt64 :=
  let thisTimestamp := if timestamp > previousTimestamp then timestamp else previousTimestamp + 1
  (thisTimestamp, min (6 * T) (thisTimestamp - previousTimestamp))

/-- `Currency::nextDifficultyLWMA3`: the linearly weighted average of the last
`N = 60` solve times, clamped to `[0.67, 1.5]` of the last difficulty, with the
jump rule for three fast blocks. -/
def nextDifficultyLWMA3 (timestamps cumulativeDifficulties : List UInt64) : UInt64 :=
  let T : UInt64 := 120
  if timestamps.length ≤ 10 then 100
  else
    let N : UInt64 := if timestamps.length.toUInt64 < 60 + 1 then timestamps.length.toUInt64 - 1 else 60
    -- the loop over `i = 1 .. N`: the previous timestamp, `L` and the last three solve times
    let (_, L, sum3ST) := (List.range' 1 N.toNat).foldl (fun (acc : UInt64 × UInt64 × UInt64) i =>
      let (previousTimestamp, L, sum3ST) := acc
      let (thisTimestamp, ST) := lwmaStep T previousTimestamp (timestamps.getD i 0)
      (thisTimestamp, L + ST * i.toUInt64, if i.toUInt64 > N - 3 then sum3ST + ST else sum3ST))
      (timestamps.getD 0 0, 0, 0)
    let cdN := cumulativeDifficulties.getD N.toNat 0
    let nextD := (cdN - cumulativeDifficulties.getD 0 0) * T * (N + 1) * 99 / (100 * 2 * L)
    let prevD := cdN - cumulativeDifficulties.getD (N - 1).toNat 0
    let nextD := max (prevD * 67 / 100) (min nextD (prevD * 150 / 100))
    if sum3ST < 8 * T / 10 then max nextD (prevD * 108 / 100) else nextD

/-- The rounding at the end of LWMA-1: the first power of ten `i` from `10^9`
down to `10` with `next_D > 100 i` rounds `next_D` to a multiple of `i`. -/
def roundDifficulty (nextD : UInt64) : UInt64 :=
  match ((List.range 9).map fun k => (10 : UInt64) ^ (9 - k)).find? (fun i => nextD > i * 100) with
  | some i => (nextD + i / 2) / i * i
  | none => nextD

/-- The fixed difficulty of the first `N` blocks from the eighth upgrade on. -/
def difficultyGuess : UInt64 := if cur.testnet then 10 else 7200000

/-- The averaging of LWMA-1: the weighted sum of the last `N = 60` solve times
(floored at `N² T / 20`), the average work, and the rounding. -/
def lwma1Difficulty (timestamps cumulativeDifficulties : List UInt64) : UInt64 :=
  let T : UInt64 := 120
  let N : UInt64 := 60
  let (_, L) := (List.range' 1 N.toNat).foldl (fun (acc : UInt64 × UInt64) i =>
    let (previousTimestamp, L) := acc
    let (thisTimestamp, ST) := lwmaStep T previousTimestamp (timestamps.getD i 0)
    (thisTimestamp, L + i.toUInt64 * ST))
    (timestamps.getD 0 0 - T, 0)
  let L := if L < N * N * T / 20 then N * N * T / 20 else L
  let avgD := (cumulativeDifficulties.getD N.toNat 0 - cumulativeDifficulties.getD 0 0) / N
  let nextD :=
    if avgD > 2000000 * N * N * T then avgD / (200 * L) * (N * (N + 1) * T * 99)
    else avgD * N * (N + 1) * T * 99 / (200 * L)
  roundDifficulty nextD

/-- `Currency::nextDifficultyLWMA1(timestamps, cumulativeDifficulties, height)`:
the guess for the first `N = 60` blocks from the eighth upgrade on, else the
weighted average. -/
def nextDifficultyLWMA1 (timestamps cumulativeDifficulties : List UInt64) (height : UInt64) : UInt64 :=
  let N : UInt64 := 60
  if height ≥ cur.upgradeHeightV8 ∧ height < cur.upgradeHeightV8 + N then cur.difficultyGuess
  else lwma1Difficulty timestamps cumulativeDifficulties

/-- The tail shared by `getDifficultyForNextBlock` and
`get_next_difficulty_for_alternative_chain`: the algorithm of the version at
`blockIndex + 1`, given `blockIndex` as its height. -/
def nextDifficultyForIndex (blockIndex : UInt64) (timestamps cumulativeDifficulties : List UInt64) :
    UInt64 :=
  let version := cur.getBlockMajorVersionForHeight (blockIndex + 1)
  if version ≥ 8 then cur.nextDifficultyLWMA1 timestamps cumulativeDifficulties blockIndex
  else if version ≥ 4 then nextDifficultyLWMA3 timestamps cumulativeDifficulties
  else cur.nextDifficulty version blockIndex.toUInt32 timestamps cumulativeDifficulties

end Currency

end Cn
