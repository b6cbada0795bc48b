import ConcealCore.Proof.Residue

/-!
# The emission counter

`pushBlock` sets a block's `already_generated_coins` to the previous one plus
`emissionChange` and the interest the block pays. `validate_miner_transaction`
accepts a coinbase that pays the reward or up to 10 units more, while
`emissionChange` is the reward less the fees. The coins a coinbase pays over
the reward are created and never counted.

`addNewBlock_counts_reward_not_coinbase`: for a block without transactions
that `addNewBlock` appends, the counter grows by the reward, and the coinbase
pays that reward plus between 0 and 10 units.
-/

namespace Cn

variable {c : Crypto} {cur : Currency} {cp : Checkpoints} {now : UInt64}

/-- The total the coinbase pays, `minerReward` of `validate_miner_transaction`. -/
def minerReward (b : Block) : UInt64 := getOutsMoneyAmount b.baseTransaction.toTransactionPrefix

/-- What `validate_miner_transaction` lets through: the reward, or at most 10 more. -/
theorem surplus_of_validate {paid reward : UInt64} (h₁ : ¬ (paid > reward ∧ paid - reward > 10))
    (h₂ : ¬ paid < reward) : reward ≤ paid ∧ paid - reward ≤ 10 := by
  have hle : reward ≤ paid := UInt64.not_lt.mp h₂
  refine ⟨hle, ?_⟩
  simp only [gt_iff_lt, UInt64.lt_iff_toNat_lt, UInt64.toNat_sub_of_le _ _ hle] at h₁
  rw [UInt64.le_iff_toNat_le, UInt64.toNat_sub_of_le _ _ hle]
  have h10 : (10 : UInt64).toNat = 10 := rfl
  omega

/-- An accepted coinbase pays the reward `getBlockReward` gives, or at most 10 more. -/
theorem validateMinerTransaction_some {s : Blockchain} {b : Block} {height : UInt32}
    {size agc fee reward : UInt64} {emissionChange : Int64}
    (h : Blockchain.validateMinerTransaction cur s b height size agc fee = some (reward, emissionChange)) :
    cur.getBlockReward (medianValue (s.getLastNBlocksSizes cur.rewardBlocksWindow.toNat)) size agc fee height =
        some (reward, emissionChange) ∧
      reward ≤ minerReward b ∧ minerReward b - reward ≤ 10 := by
  unfold Blockchain.validateMinerTransaction at h
  dsimp only at h
  split at h
  · simp at h
  · rename_i reward' emissionChange' hreward
    split_ifs at h with h₁ h₂
    simp only [Option.some.injEq, Prod.mk.injEq] at h
    obtain ⟨rfl, rfl⟩ := h
    exact ⟨hreward, surplus_of_validate h₁ h₂⟩

/-- Without fees, the emission change is the reward. -/
theorem getBlockReward_zero_fee {median size agc reward : UInt64} {height : UInt32} {emissionChange : Int64}
    (h : cur.getBlockReward median size agc 0 height = some (reward, emissionChange)) :
    emissionChange.toUInt64 = reward := by
  unfold Currency.getBlockReward at h
  dsimp only at h
  split_ifs at h
  simp only [Option.some.injEq, Prod.mk.injEq] at h
  obtain ⟨rfl, rfl⟩ := h
  simp [getPenalizedAmount]

/-- **A block without transactions that `pushBlock` accepts**: its entry
counts the reward, and its coinbase pays the reward or up to 10 more. -/
theorem pushBlockWithTransactions_counts_reward {s s' : Blockchain} {b : Block} {id : Hash}
    {bvc bvc' : BlockVerificationContext}
    (h : s.pushBlockWithTransactions c cur cp now b [] id bvc = .ok (true, bvc', s')) :
    ∃ e reward, s'.blocks = s.blocks ++ [e] ∧ e.bl = b ∧ reward ≤ minerReward b ∧
      minerReward b - reward ≤ 10 ∧
      e.alreadyGeneratedCoins = (s.blocks.getLast?.map (·.alreadyGeneratedCoins)).getD 0 + reward := by
  unfold Blockchain.pushBlockWithTransactions at h
  dsimp only at h
  generalize (if cp.isInCheckpointZone s.getCurrentBlockchainHeight = true then
    (cp.checkBlock s.getCurrentBlockchainHeight id).1
    else checkProofOfWork c b (s.getDifficultyForNextBlock cur)) = workDone at h
  -- every refusal returns `false`
  split_ifs at h <;> try cases h
  split at h
  · simp at h
  rename_i s₁ block₁ hap
  obtain ⟨hsame₁, hbl₁, -⟩ := applyPushed_ok hap
  -- no transactions: the loop ends at once
  simp only [List.zip_nil_left, Blockchain.pushBlockTransactions] at h
  split_ifs at h <;> try cases h
  split at h
  · split at h <;> simp at h
  rename_i reward emissionChange hvalidate
  simp only [Except.ok.injEq, Prod.mk.injEq, true_and] at h
  obtain ⟨-, rfl⟩ := h
  obtain ⟨hreward, hle, hsurplus⟩ := validateMinerTransaction_some hvalidate
  refine ⟨?e, reward, ?blocks, ?bl, hle, hsurplus, ?counter⟩
  case blocks =>
    show s₁.blocks ++ [_] = _
    rw [hsame₁.1]
  case bl => exact hbl₁
  case counter =>
    show _ + emissionChange.toUInt64 + 0 = _
    rw [getBlockReward_zero_fee hreward, UInt64.add_zero]

/-- **The counter misses what a coinbase pays over the reward.** A block
without transactions that `addNewBlock` appends to the tip is counted for the
reward, while its coinbase pays that reward plus up to 10 units. -/
theorem addNewBlock_counts_reward_not_coinbase {n : Node} {b : Block} {bvc : BlockVerificationContext}
    (htip : b.previousBlockHash = n.getTailId) (hnotx : b.transactionHashes = [])
    (hadded : (Node.addNewBlock c cur cp now n b bvc).1 = true) :
    ∃ e reward, (Node.addNewBlock c cur cp now n b bvc).2.2.blocks = n.blocks ++ [e] ∧ e.bl = b ∧
      reward ≤ minerReward b ∧ minerReward b - reward ≤ 10 ∧
      e.alreadyGeneratedCoins = (n.blocks.getLast?.map (·.alreadyGeneratedCoins)).getD 0 + reward := by
  unfold Node.addNewBlock at hadded ⊢
  split at hadded
  · simp at hadded
  dsimp only at hadded ⊢
  by_cases hhave : n.haveBlock (getBlockHash c b) = true
  · simp [hhave] at hadded
  have hnot : ¬ b.previousBlockHash ≠ n.getTailId := not_not.mpr htip
  rw [if_neg hhave, if_neg hnot] at hadded ⊢
  -- the block extends the tip: `pushBlock`, with no transaction to load
  unfold Node.pushBlock at hadded ⊢
  simp only [Node.loadTransactions, hnotx, Node.loadTransactions.take] at hadded ⊢
  split at hadded
  · simp at hadded
  · rename_i bvc' s hpush
    exact pushBlockWithTransactions_counts_reward hpush
  · split at hadded <;> simp at hadded

/-- The block after `sampleGenesis` whose coinbase pays the height-1 reward
(`FOUNDATION_TRUST`) plus 10 units. -/
def generousCoinbaseBlock : Block where
  majorVersion := 1
  minorVersion := 0
  nonce := 0
  timestamp := 1
  previousBlockHash := getBlockHash paddedCrypto sampleGenesis
  baseTransaction :=
    { version := 1, unlockTime := 11, inputs := [.base ⟨1⟩], outputs := [⟨12000000000010, .key ⟨default⟩⟩],
      extra := [], signatures := [[]] }
  transactionHashes := []

/-- On mainnet, the block after the genesis block pays 10 units over its
reward and is appended; the counter reads the two rewards, 10 short of what
the two coinbases paid. -/
theorem addNewBlock_counts_reward_not_coinbase_generousBlock :
    (generousCoinbaseBlock.previousBlockHash = sampleGenesisNode.getTailId ∧
      generousCoinbaseBlock.transactionHashes = [] ∧
      (Node.addNewBlock paddedCrypto Currency.mainnet Checkpoints.empty 0 sampleGenesisNode
        generousCoinbaseBlock {}).1 = true) ∧
    (∃ e reward, (Node.addNewBlock paddedCrypto Currency.mainnet Checkpoints.empty 0 sampleGenesisNode
        generousCoinbaseBlock {}).2.2.blocks = sampleGenesisNode.blocks ++ [e] ∧ e.bl = generousCoinbaseBlock ∧
      reward ≤ minerReward generousCoinbaseBlock ∧ minerReward generousCoinbaseBlock - reward ≤ 10 ∧
      e.alreadyGeneratedCoins =
        (sampleGenesisNode.blocks.getLast?.map (·.alreadyGeneratedCoins)).getD 0 + reward) ∧
    minerReward sampleGenesis + minerReward generousCoinbaseBlock = 12000005000010 ∧
      (Node.addNewBlock paddedCrypto Currency.mainnet Checkpoints.empty 0 sampleGenesisNode
        generousCoinbaseBlock {}).2.2.blocks.map (·.alreadyGeneratedCoins) = [5000000, 12000005000000] := by
  have htip : generousCoinbaseBlock.previousBlockHash = sampleGenesisNode.getTailId := by decide
  have hadded : (Node.addNewBlock paddedCrypto Currency.mainnet Checkpoints.empty 0 sampleGenesisNode
      generousCoinbaseBlock {}).1 = true := by decide
  have hcounter : (Node.addNewBlock paddedCrypto Currency.mainnet Checkpoints.empty 0 sampleGenesisNode
      generousCoinbaseBlock {}).2.2.blocks.map (·.alreadyGeneratedCoins) = [5000000, 12000005000000] := by
    decide
  have hpaid : minerReward sampleGenesis + minerReward generousCoinbaseBlock = 12000005000010 := by decide
  exact ⟨⟨htip, rfl, hadded⟩, addNewBlock_counts_reward_not_coinbase htip rfl hadded, hpaid, hcounter⟩

end Cn
