import ConcealCore.Proof.Finality
import ConcealCore.Proof.PushPop
import ConcealCore.Proof.Format
import ConcealCore.Proof.AltDifficulty

/-!
# A block refused for its size stays in the caches

`pushBlock` enters the coinbase and then every transaction of the block into
the caches before it checks the block's cumulative size. When that check
fails it returns `false` at once: unlike the refusals for an invalid
transaction and for a wrong coinbase amount, it does not call
`popTransactions`. The caller gives the transactions back to the pool, so they
are then both in the pool and in `m_transactionMap`, `m_spent_keys` and the
output indexes, though no block holds them.

* `addNewBlock_keeps_oversized_coinbase`: a block that extends the tip,
  passes every check before the coinbase push and has a coinbase larger than
  the cumulative size limit is refused, and its coinbase stays in
  `m_transactionMap`.
* `addNewBlock_of_accepted`, `addNewBlock_of_coinbase_accepted`: the node a
  block leaves when `pushBlock` accepts it, the quantities `pushBlock`
  computes on the way (difficulty, emission change, size limit) taken as
  parameters.
* `refused_block_leaves_foreign_multisignature_output`: a refused coinbase's
  multisignature output stays listed under its amount, the next block at that
  height puts another output in its place, and nine blocks later a
  transaction spending the listed amount is relayed and mined although no
  output of that amount exists.
-/

namespace Cn

variable {c : Crypto} {cur : Currency} {cp : Checkpoints} {now : UInt64}

/-- What `pushBlock` checks before it enters the coinbase: a new hash, the
version, the tip as parent, the timestamp, a difficulty, the checkpoint in the
checkpoint zone or the proof of work outside it, and the coinbase. -/
structure PushChecks (c : Crypto) (cur : Currency) (cp : Checkpoints) (now : UInt64) (s : Blockchain)
    (b : Block) (id : Hash) : Prop where
  fresh : id ∉ s.blockIndex
  version : Blockchain.checkBlockVersion cur b = true
  parent : b.previousBlockHash = s.getTailId
  timestamp : Blockchain.checkBlockTimestampMain cur now s b = true
  difficulty : s.getDifficultyForNextBlock cur ≠ 0
  work : (if cp.isInCheckpointZone s.getCurrentBlockchainHeight = true then
      (cp.checkBlock s.getCurrentBlockchainHeight id).1
    else checkProofOfWork c b (s.getDifficultyForNextBlock cur)) = true
  miner : Blockchain.prevalidateMinerTransaction c cur b s.blocks.length.toUInt32 = true

/-- The coinbase that `prevalidate_miner_transaction` accepts has one input, a `BaseInput`. -/
theorem inputs_of_prevalidateMinerTransaction {b : Block} {height : UInt32}
    (h : Blockchain.prevalidateMinerTransaction c cur b height = true) :
    ∃ base : BaseInput, b.baseTransaction.inputs = [.base base] := by
  unfold Blockchain.prevalidateMinerTransaction at h
  dsimp only at h
  split at h
  · rename_i input hin
    split at h
    · simp at h
    · cases input with
      | base base => exact ⟨base, hin⟩
      | key => simp at h
      | multisignature => simp at h
  · simp at h

/-- **`pushBlock` of a coinbase too large for the block.** Past the checks, the
coinbase is pushed, the size check fails, and the call returns `false` with
the caches the push left. -/
theorem pushBlockWithTransactions_of_oversized {s : Blockchain} {b : Block} {id : Hash}
    {bvc : BlockVerificationContext} (hchecks : PushChecks c cur cp now s b id)
    (hnotx : b.transactionHashes = []) {caches : Caches} {g : List UInt32}
    (hpush : pushTransaction s.toCaches s.blocks.length.toUInt32 b.baseTransaction
      (transactionHash c b.baseTransaction) ⟨s.blocks.length.toUInt32, 0⟩ = .pushed caches g)
    (hsize : cur.maxBlockCumulativeSize s.blocks.length.toUInt32.toUInt64 <
      getObjectBinarySize (serializeTransaction b.baseTransaction)) :
    s.pushBlockWithTransactions c cur cp now b [] id bvc =
      .ok (false, { bvc with verificationFailed := true }, { s with toCaches := caches }) := by
  have hwork := hchecks.work
  unfold Blockchain.pushBlockWithTransactions
  simp only [hchecks.fresh, hchecks.version, hchecks.parent, hchecks.timestamp, hchecks.difficulty,
    hchecks.miner, hwork, hpush, hnotx, ne_eq, not_true_eq_false, Bool.not_true,
    Bool.not_false, Bool.false_eq_true, if_false, Blockchain.applyPushed, List.zip_nil_right,
    Blockchain.pushBlockTransactions, Blockchain.checkCumulativeBlockSize, hsize, decide_true, if_true]

/-- **`addNewBlock` of a coinbase too large for the block**, on a node whose
pool the block does not draw on: the pool is unchanged, the chain too, and the
caches are those of the coinbase push. -/
theorem addNewBlock_of_oversized {n : Node} {b : Block} {bvc : BlockVerificationContext}
    (hblob : (getBlockHashingBlob c b).isSome)
    (hnew : n.alternativeChains (getBlockHash c b) = none)
    (hchecks : PushChecks c cur cp now n.toBlockchain b (getBlockHash c b))
    (hnotx : b.transactionHashes = []) {caches : Caches} {g : List UInt32}
    (hpush : pushTransaction n.toCaches n.blocks.length.toUInt32 b.baseTransaction
      (transactionHash c b.baseTransaction) ⟨n.blocks.length.toUInt32, 0⟩ = .pushed caches g)
    (hsize : cur.maxBlockCumulativeSize n.blocks.length.toUInt32.toUInt64 <
      getObjectBinarySize (serializeTransaction b.baseTransaction)) :
    Node.addNewBlock c cur cp now n b bvc =
      (false, { bvc with verificationFailed := true }, { n with toCaches := caches }) := by
  obtain ⟨blob, hblob⟩ := Option.isSome_iff_exists.mp hblob
  have hpushed : n.pushBlockWithTransactions c cur cp now b [] (getBlockHash c b) bvc =
      .ok (false, { bvc with verificationFailed := true }, { n.toBlockchain with toCaches := caches }) :=
    pushBlockWithTransactions_of_oversized hchecks hnotx hpush hsize
  unfold Node.addNewBlock Node.pushBlock
  simp only [hblob, Node.haveBlock, hchecks.fresh, hnew, hchecks.parent, Node.loadTransactions,
    hnotx, Node.loadTransactions.take, hpushed, Node.saveTransactions, List.reverse_nil,
    Node.addTransactionsBack]
  simp

/-- **A block refused for its size leaves its coinbase in the transaction
map.** The call returns `false` with the verification failed; the chain and the
pool are as they were, but the coinbase hash, absent before, now names the
coinbase slot of the height the block would have had. -/
theorem addNewBlock_keeps_oversized_coinbase {n : Node} {b : Block} {bvc : BlockVerificationContext}
    (hblob : (getBlockHashingBlob c b).isSome)
    (hnew : n.alternativeChains (getBlockHash c b) = none)
    (hchecks : PushChecks c cur cp now n.toBlockchain b (getBlockHash c b))
    (hnotx : b.transactionHashes = [])
    (hfresh : n.transactionMap (transactionHash c b.baseTransaction) = none)
    (hsize : cur.maxBlockCumulativeSize n.blocks.length.toUInt32.toUInt64 <
      getObjectBinarySize (serializeTransaction b.baseTransaction)) :
    let r := Node.addNewBlock c cur cp now n b bvc
    r.1 = false ∧ r.2.1.verificationFailed = true ∧ r.2.2.blocks = n.blocks ∧ r.2.2.pool = n.pool ∧
      r.2.2.transactionMap (transactionHash c b.baseTransaction) = some ⟨n.blocks.length.toUInt32, 0⟩ := by
  obtain ⟨base, hin⟩ := inputs_of_prevalidateMinerTransaction hchecks.miner
  intro r
  have hr : r = (false, { bvc with verificationFailed := true }, { n with toCaches := _ }) :=
    addNewBlock_of_oversized hblob hnew hchecks hnotx (pushTransaction_of_coinbase hfresh hin) hsize
  rw [hr]
  refine ⟨rfl, rfl, rfl, rfl, ?_⟩
  -- the output loop leaves the transaction map as the push wrote it
  show (pushOutputs _ _ _).1.transactionMap _ = _
  rw [pushOutputs, foldl_pushOutput_transactionMap]
  simp

/-! ### Blocks `pushBlock` accepts -/

/-- **`pushBlock` of a block it accepts.** Past the checks, at the difficulty
`d`, the coinbase push, the loop over the block's transactions, the size
check and the coinbase amount (with the emission change `e`), the entry is
appended and the size limit updated. -/
theorem pushBlockWithTransactions_of_accepted {s : Blockchain} {b : Block} {id : Hash} (txs : List Transaction)
    {bvc : BlockVerificationContext} (hchecks : PushChecks c cur cp now s b id)
    {d : UInt64} (hd : s.getDifficultyForNextBlock cur = d) {caches : Caches} {g : List UInt32}
    (hpush : pushTransaction s.toCaches s.blocks.length.toUInt32 b.baseTransaction
      (transactionHash c b.baseTransaction) ⟨s.blocks.length.toUInt32, 0⟩ = .pushed caches g)
    {s' : Blockchain} {block : BlockEntry} {size fees interest : UInt64} {e : Int64}
    (hloop : Blockchain.pushBlockTransactions c cur cp now b (transactionHash c b.baseTransaction)
      { s with toCaches := caches } ⟨b, s.blocks.length.toUInt32, 0, 0, 0, [⟨b.baseTransaction, g⟩]⟩ 0
      (getObjectBinarySize (serializeTransaction b.baseTransaction)) 0 0 (txs.zip b.transactionHashes) =
      .pushed s' block size fees interest)
    (hsize : Blockchain.checkCumulativeBlockSize cur size block.height.toUInt64 = true)
    (hreward : (Blockchain.validateMinerTransaction cur s' b block.height size
      ((s'.blocks.getLast?.map (·.alreadyGeneratedCoins)).getD 0) fees).map Prod.snd = some e) :
    s.pushBlockWithTransactions c cur cp now b txs id bvc =
      .ok (true, { bvc with addedToMainChain := true }, Blockchain.updateNextComulativeSizeLimit cur
        ((Blockchain.pushBlockEntry c s' { block with
            blockCumulativeSize := size
            cumulativeDifficulty := d + (s'.blocks.getLast?.map (·.cumulativeDifficulty)).getD 0
            alreadyGeneratedCoins := (s'.blocks.getLast?.map (·.alreadyGeneratedCoins)).getD 0 +
              e.toUInt64 + interest }).pushToDepositIndex { block with
            blockCumulativeSize := size
            cumulativeDifficulty := d + (s'.blocks.getLast?.map (·.cumulativeDifficulty)).getD 0
            alreadyGeneratedCoins := (s'.blocks.getLast?.map (·.alreadyGeneratedCoins)).getD 0 +
              e.toUInt64 + interest } interest)) := by
  -- the checks read the difficulty, which is `d`
  have hwork := hchecks.work
  have hd0 := hchecks.difficulty
  rw [hd] at hwork hd0
  obtain ⟨⟨r, e'⟩, hr, rfl⟩ := Option.map_eq_some_iff.mp hreward
  unfold Blockchain.pushBlockWithTransactions
  simp only [hchecks.fresh, hchecks.version, hchecks.parent, hchecks.timestamp, hd, hd0, hwork,
    hchecks.miner, hpush, ne_eq, not_true_eq_false, Bool.not_true, Bool.false_eq_true, if_false,
    Blockchain.applyPushed]
  simp [hloop, hsize, hr]

/-- **`addNewBlock` of a block that extends the tip and that `pushBlock`
accepts**: the chain `pushBlock` leaves, with the pool `loadTransactions`
left. -/
theorem addNewBlock_of_accepted {n : Node} {b : Block} {bvc : BlockVerificationContext}
    (hblob : (getBlockHashingBlob c b).isSome)
    (hnew : n.alternativeChains (getBlockHash c b) = none)
    (hfresh : getBlockHash c b ∉ n.blockIndex) (hparent : b.previousBlockHash = n.getTailId)
    {txs : List Transaction} {pool : TxPool}
    (hload : Node.loadTransactions c cur cp now n.pool n.toBlockchain b (n.blocks.length.toUInt32 + 1) =
      .ok (some txs, pool))
    {bvc' : BlockVerificationContext} {s : Blockchain}
    (hpushed : n.pushBlockWithTransactions c cur cp now b txs (getBlockHash c b) bvc = .ok (true, bvc', s)) :
    Node.addNewBlock c cur cp now n b bvc = (true, bvc', { toBlockchain := s, pool }) := by
  obtain ⟨blob, hblob⟩ := Option.isSome_iff_exists.mp hblob
  unfold Node.addNewBlock Node.pushBlock
  simp [hblob, Node.haveBlock, hfresh, hnew, hparent, hload, hpushed]

/-- The caches and the global output indexes the coinbase of `b` leaves when
it is pushed at the next height (`pushTransaction_of_coinbase`). -/
def Node.coinbasePush (c : Crypto) (n : Node) (b : Block) : Caches × List UInt32 :=
  pushOutputs ⟨n.blocks.length.toUInt32, 0⟩
    { n.toCaches with
      transactionMap := Function.update n.transactionMap (transactionHash c b.baseTransaction)
        (some ⟨n.blocks.length.toUInt32, 0⟩) }
    b.baseTransaction.outputs.zipIdx

/-- The entry `pushBlock` appends for a block `b` that only pays its
coinbase, at difficulty `d` with the emission change `e`. -/
def Node.coinbaseEntry (c : Crypto) (n : Node) (b : Block) (d : UInt64) (e : Int64) : BlockEntry :=
  ⟨b, n.blocks.length.toUInt32, getObjectBinarySize (serializeTransaction b.baseTransaction),
    d + (n.blocks.getLast?.map (·.cumulativeDifficulty)).getD 0,
    (n.blocks.getLast?.map (·.alreadyGeneratedCoins)).getD 0 + e.toUInt64,
    [⟨b.baseTransaction, (n.coinbasePush c b).2⟩]⟩

/-- The main chain with that entry appended, before the size limit is updated. -/
def Node.coinbaseAppended (c : Crypto) (n : Node) (b : Block) (d : UInt64) (e : Int64) : Blockchain :=
  (Blockchain.pushBlockEntry c { n.toBlockchain with toCaches := (n.coinbasePush c b).1 }
    (n.coinbaseEntry c b d e)).pushToDepositIndex (n.coinbaseEntry c b d e) 0

/-- What `pushBlock` checks of a block `b` that only pays its coinbase, with
the difficulty `d`, the emission change `e` and the next size limit `l` it
computes on the way. -/
@[mk_iff]
structure CoinbaseAccepted (c : Crypto) (cur : Currency) (cp : Checkpoints) (now : UInt64) (n : Node) (b : Block)
    (d : UInt64) (e : Int64) (l : UInt64) : Prop where
  blob : (getBlockHashingBlob c b).isSome
  unseen : n.alternativeChains (getBlockHash c b) = none
  fresh : getBlockHash c b ∉ n.blockIndex
  version : Blockchain.checkBlockVersion cur b = true
  parent : b.previousBlockHash = n.getTailId
  timestamp : Blockchain.checkBlockTimestampMain cur now n.toBlockchain b = true
  difficulty : n.getDifficultyForNextBlock cur = d
  difficulty_ne : d ≠ 0
  work : (if cp.isInCheckpointZone n.getCurrentBlockchainHeight = true then
    (cp.checkBlock n.getCurrentBlockchainHeight (getBlockHash c b)).1 else checkProofOfWork c b d) = true
  miner : Blockchain.prevalidateMinerTransaction c cur b n.blocks.length.toUInt32 = true
  coinbaseOnly : b.transactionHashes = []
  coinbaseNew : n.transactionMap (transactionHash c b.baseTransaction) = none
  size : Blockchain.checkCumulativeBlockSize cur (getObjectBinarySize (serializeTransaction b.baseTransaction))
    n.blocks.length.toUInt32.toUInt64 = true
  reward : (Blockchain.validateMinerTransaction cur { n.toBlockchain with toCaches := (n.coinbasePush c b).1 } b
    n.blocks.length.toUInt32 (getObjectBinarySize (serializeTransaction b.baseTransaction))
    ((n.blocks.getLast?.map (·.alreadyGeneratedCoins)).getD 0) 0).map Prod.snd = some e
  sizeLimit :
    (Blockchain.updateNextComulativeSizeLimit cur (n.coinbaseAppended c b d e)).currentBlockCumulSzLimit = l

/-- The node `addNewBlock` leaves when it accepts a block that only pays its
coinbase: the entry appended, the size limit `l`, the pool untouched. -/
def Node.acceptCoinbaseBlock (c : Crypto) (n : Node) (b : Block) (d : UInt64) (e : Int64) (l : UInt64) : Node :=
  { n.coinbaseAppended c b d e with currentBlockCumulSzLimit := l, pool := n.pool }

/-- **`addNewBlock` of a block that only pays its coinbase**, past every
check of `CoinbaseAccepted`. -/
theorem addNewBlock_of_coinbase_accepted {n : Node} {b : Block} {bvc : BlockVerificationContext}
    {d : UInt64} {e : Int64} {l : UInt64} (h : CoinbaseAccepted c cur cp now n b d e l) :
    Node.addNewBlock c cur cp now n b bvc =
      (true, { bvc with addedToMainChain := true }, n.acceptCoinbaseBlock c b d e l) := by
  obtain ⟨base, hin⟩ := inputs_of_prevalidateMinerTransaction h.miner
  have hchecks : PushChecks c cur cp now n.toBlockchain b (getBlockHash c b) :=
    ⟨h.fresh, h.version, h.parent, h.timestamp, h.difficulty ▸ h.difficulty_ne, h.difficulty ▸ h.work,
      h.miner⟩
  -- no transaction to load: the pool is passed through
  have hload : Node.loadTransactions c cur cp now n.pool n.toBlockchain b (n.blocks.length.toUInt32 + 1) =
      .ok (some [], n.pool) := by
    simp only [Node.loadTransactions, h.coinbaseOnly]
    rfl
  rw [addNewBlock_of_accepted h.blob h.unseen h.fresh h.parent hload
    (pushBlockWithTransactions_of_accepted [] hchecks h.difficulty (pushTransaction_of_coinbase h.coinbaseNew hin)
      rfl h.size h.reward), ← h.sizeLimit]
  simp [Node.acceptCoinbaseBlock, Node.coinbaseAppended, Node.coinbaseEntry, Node.coinbasePush,
    Blockchain.updateNextComulativeSizeLimit]

/-- A run of `addNewBlock` calls from a reachable node ends in a reachable node. -/
theorem Node.Reachable.foldl_addNewBlock {n : Node} (h : n.Reachable c cur cp) (now : UInt64)
    (bvc : BlockVerificationContext) (bs : List Block) :
    (bs.foldl (fun n b => (Node.addNewBlock c cur cp now n b bvc).2.2) n).Reachable c cur cp := by
  induction bs generalizing n with
  | nil => exact h
  | cons b bs ih => exact ih (.tail h (.addNewBlock n now b bvc))

/-- The block after `sampleGenesis`, whose coinbase carries a megabyte of extra bytes. -/
def oversizedCoinbaseBlock : Block where
  majorVersion := 1
  minorVersion := 0
  nonce := 0
  timestamp := 1
  previousBlockHash := getBlockHash paddedCrypto sampleGenesis
  baseTransaction :=
    { version := 1, unlockTime := 11, inputs := [.base ⟨1⟩], outputs := [⟨12000000000000, .key ⟨default⟩⟩],
      extra := List.replicate 1000000 0, signatures := [[]] }
  transactionHashes := []

/-- The node that `sampleGenesis` starts. -/
def sampleGenesisNode : Node :=
  (Node.addNewBlock paddedCrypto Currency.mainnet Checkpoints.empty 0 Node.empty sampleGenesis {}).2.2

theorem sampleGenesisNode_blocks_length : sampleGenesisNode.blocks.length = 1 := by decide

theorem oversizedCoinbaseBlock_checks :
    PushChecks paddedCrypto Currency.mainnet Checkpoints.empty 0 sampleGenesisNode.toBlockchain
      oversizedCoinbaseBlock (getBlockHash paddedCrypto oversizedCoinbaseBlock) where
  fresh := by decide
  version := by decide
  parent := by decide
  timestamp := by decide
  difficulty := by decide
  work := by decide
  miner := by decide

/-- The coinbase of `oversizedCoinbaseBlock` serializes to 1000049 bytes; the
extra is counted, not built. -/
theorem oversizedCoinbaseBlock_binarySize :
    getObjectBinarySize (serializeTransaction oversizedCoinbaseBlock.baseTransaction) = 1000049 := by
  rw [serializeTransaction_of_match (by decide) (by decide)]
  have hv : ¬ (TRANSACTION_VERSION_2 < 1) := by decide
  simp only [getObjectBinarySize, Written.bytes, serializeTransactionPrefix, hv, if_false, List.length_append,
    serializeAsBinary, oversizedCoinbaseBlock, List.length_replicate]
  decide

/-- On mainnet, the node that the genesis block started refuses the next block
for its megabyte coinbase and keeps that coinbase in its transaction map. -/
theorem addNewBlock_keeps_oversized_coinbase_sampleGenesisNode :
    let n := sampleGenesisNode
    let b := oversizedCoinbaseBlock
    n.Reachable paddedCrypto Currency.mainnet Checkpoints.empty ∧
    ((getBlockHashingBlob paddedCrypto b).isSome ∧ n.alternativeChains (getBlockHash paddedCrypto b) = none ∧
      PushChecks paddedCrypto Currency.mainnet Checkpoints.empty 0 n.toBlockchain b (getBlockHash paddedCrypto b) ∧
      b.transactionHashes = [] ∧ n.transactionMap (transactionHash paddedCrypto b.baseTransaction) = none ∧
      Currency.mainnet.maxBlockCumulativeSize n.blocks.length.toUInt32.toUInt64 <
        getObjectBinarySize (serializeTransaction b.baseTransaction)) ∧
    let r := Node.addNewBlock paddedCrypto Currency.mainnet Checkpoints.empty 0 n b {}
    r.1 = false ∧ r.2.1.verificationFailed = true ∧ r.2.2.blocks = n.blocks ∧ r.2.2.pool = n.pool ∧
      r.2.2.transactionMap (transactionHash paddedCrypto b.baseTransaction) = some ⟨n.blocks.length.toUInt32, 0⟩ := by
  intro n b
  have hreach : n.Reachable paddedCrypto Currency.mainnet Checkpoints.empty :=
    Relation.ReflTransGen.single (Node.Step.addNewBlock Node.empty 0 sampleGenesis {})
  have hblob : (getBlockHashingBlob paddedCrypto b).isSome := by decide
  have hnew : n.alternativeChains (getBlockHash paddedCrypto b) = none := by decide
  have hfresh : n.transactionMap (transactionHash paddedCrypto b.baseTransaction) = none := by decide
  have hsize : Currency.mainnet.maxBlockCumulativeSize n.blocks.length.toUInt32.toUInt64 <
      getObjectBinarySize (serializeTransaction b.baseTransaction) := by
    show _ < getObjectBinarySize (serializeTransaction oversizedCoinbaseBlock.baseTransaction)
    rw [oversizedCoinbaseBlock_binarySize, sampleGenesisNode_blocks_length]
    decide
  exact ⟨hreach, ⟨hblob, hnew, oversizedCoinbaseBlock_checks, rfl, hfresh, hsize⟩,
    addNewBlock_keeps_oversized_coinbase hblob hnew oversizedCoinbaseBlock_checks rfl hfresh hsize⟩

/-! ### A multisignature output no transaction created -/

/-- A block at height 1 whose coinbase puts `10^14` units in a
multisignature output and carries a megabyte of extra bytes. -/
def oversizedMultisignatureBlock : Block where
  majorVersion := 1
  minorVersion := 0
  nonce := 0
  timestamp := 1
  previousBlockHash := getBlockHash paddedCrypto sampleGenesis
  baseTransaction :=
    { version := 2, unlockTime := 11, inputs := [.base ⟨1⟩],
      outputs := [⟨100000000000000, .multisignature ⟨[default], 1, 0⟩⟩],
      extra := List.replicate 1000000 0, signatures := [[]] }
  transactionHashes := []

/-- A block at height 1 whose coinbase pays the height-1 reward into a
multisignature output for the same key. -/
def rewardMultisignatureBlock : Block where
  majorVersion := 1
  minorVersion := 0
  nonce := 0
  timestamp := 1
  previousBlockHash := getBlockHash paddedCrypto sampleGenesis
  baseTransaction :=
    { version := 2, unlockTime := 11, inputs := [.base ⟨1⟩],
      outputs := [⟨12000000000000, .multisignature ⟨[default], 1, 0⟩⟩], extra := [], signatures := [[]] }
  transactionHashes := []

theorem oversizedMultisignatureBlock_binarySize :
    getObjectBinarySize (serializeTransaction oversizedMultisignatureBlock.baseTransaction) = 1000052 := by
  rw [serializeTransaction_of_match (by decide) (by decide)]
  have hv : ¬ (TRANSACTION_VERSION_2 < 2) := by decide
  simp only [getObjectBinarySize, Written.bytes, serializeTransactionPrefix, hv, if_false, List.length_append,
    serializeAsBinary, oversizedMultisignatureBlock, List.length_replicate]
  decide

/-- The node the genesis block started refuses `oversizedMultisignatureBlock`
and keeps the caches of its coinbase push. -/
theorem addNewBlock_oversizedMultisignatureBlock :
    Node.addNewBlock paddedCrypto Currency.mainnet Checkpoints.empty 0 sampleGenesisNode
        oversizedMultisignatureBlock {} =
      (false, { verificationFailed := true }, { sampleGenesisNode with
        toCaches := (pushOutputs ⟨sampleGenesisNode.blocks.length.toUInt32, 0⟩
          { sampleGenesisNode.toCaches with
            transactionMap := Function.update sampleGenesisNode.transactionMap
              (transactionHash paddedCrypto oversizedMultisignatureBlock.baseTransaction)
              (some ⟨sampleGenesisNode.blocks.length.toUInt32, 0⟩) }
          oversizedMultisignatureBlock.baseTransaction.outputs.zipIdx).1 }) := by
  have hchecks : PushChecks paddedCrypto Currency.mainnet Checkpoints.empty 0 sampleGenesisNode.toBlockchain
      oversizedMultisignatureBlock (getBlockHash paddedCrypto oversizedMultisignatureBlock) :=
    ⟨by decide, by decide, by decide, by decide, by decide,
      by decide, by decide⟩
  have hfresh : sampleGenesisNode.transactionMap
      (transactionHash paddedCrypto oversizedMultisignatureBlock.baseTransaction) = none := by decide
  have hsize : Currency.mainnet.maxBlockCumulativeSize sampleGenesisNode.blocks.length.toUInt32.toUInt64 <
      getObjectBinarySize (serializeTransaction oversizedMultisignatureBlock.baseTransaction) := by
    rw [oversizedMultisignatureBlock_binarySize, sampleGenesisNode_blocks_length]
    decide
  exact addNewBlock_of_oversized (by decide) (by decide) hchecks rfl
    (pushTransaction_of_coinbase hfresh rfl) hsize

/-- The main chain of the run: `sampleGenesis`, `rewardMultisignatureBlock`,
then version-2 blocks a minute apart, each paying the reward to a key output
on top of the one below. -/
def minedBlock : ℕ → Block
  | 0 => sampleGenesis
  | 1 => rewardMultisignatureBlock
  | k + 2 =>
    { majorVersion := 2
      minorVersion := 0
      nonce := 0
      timestamp := 60 * (k + 2).toUInt64
      previousBlockHash := getBlockHash paddedCrypto (minedBlock (k + 1))
      baseTransaction :=
        { version := 2, unlockTime := (k + 2).toUInt64 + 10, inputs := [.base ⟨(k + 2).toUInt32⟩],
          outputs := [⟨5000000, .key ⟨default⟩⟩], extra := [], signatures := [[]] }
      transactionHashes := [] }

/-- A transaction spending `10^14` units through the multisignature output the
cache lists under that amount, with a fee of 10. -/
def foreignSpend : Transaction where
  version := 2
  unlockTime := 0
  inputs := [.multisignature ⟨100000000000000, 1, 0, 0⟩]
  outputs := [⟨100000000000000 - 10, .key ⟨default⟩⟩]
  extra := []
  signatures := [[default]]

/-- The block at height 11 that mines `foreignSpend`; its coinbase pays the
reward and the fee. -/
def foreignSpendBlock : Block where
  majorVersion := 2
  minorVersion := 0
  nonce := 0
  timestamp := 660
  previousBlockHash := getBlockHash paddedCrypto (minedBlock 10)
  baseTransaction :=
    { version := 2, unlockTime := 21, inputs := [.base ⟨11⟩],
      outputs := [⟨5000010, .key ⟨default⟩⟩], extra := [], signatures := [[]] }
  transactionHashes := [transactionHash paddedCrypto foreignSpend]

/-- Blocks 2 to 6 are accepted, each at difficulty 1 with the reward `5 * 10^6`. -/
theorem addNewBlock_minedBlocks_two_to_six :
    ([2, 3, 4, 5, 6].map minedBlock).foldl
      (fun n b => (Node.addNewBlock paddedCrypto Currency.mainnet Checkpoints.empty 0 n b {}).2.2)
      (Node.addNewBlock paddedCrypto Currency.mainnet Checkpoints.empty 0
        (Node.addNewBlock paddedCrypto Currency.mainnet Checkpoints.empty 0 sampleGenesisNode
          oversizedMultisignatureBlock {}).2.2 rewardMultisignatureBlock {}).2.2 =
    ([2, 3, 4, 5, 6].map minedBlock).foldl
      (fun n b => n.acceptCoinbaseBlock paddedCrypto b 1 5000000 200000)
      (Node.addNewBlock paddedCrypto Currency.mainnet Checkpoints.empty 0
        (Node.addNewBlock paddedCrypto Currency.mainnet Checkpoints.empty 0 sampleGenesisNode
          oversizedMultisignatureBlock {}).2.2 rewardMultisignatureBlock {}).2.2 := by
  rw [addNewBlock_oversizedMultisignatureBlock]
  simp only [List.map_cons, List.map_nil, List.foldl_cons, List.foldl_nil]
  -- each step's checks are evaluated, the sorts of its windows as insertion sorts
  simp (disch := (simp only [coinbaseAccepted_iff, Blockchain.getDifficultyForNextBlock,
    Currency.nextDifficultyForIndex, Currency.nextDifficulty, Blockchain.validateMinerTransaction,
    Blockchain.updateNextComulativeSizeLimit, medianValue,
    Blockchain.mergeSort_le_eq_insertionSort]; decide)) only
    [addNewBlock_of_coinbase_accepted (d := 1) (e := 5000000) (l := 200000)]

set_option maxRecDepth 8000 in
/-- Blocks 7 to 10 are accepted the same way. -/
theorem addNewBlock_minedBlocks_seven_to_ten :
    ([7, 8, 9, 10].map minedBlock).foldl
      (fun n b => (Node.addNewBlock paddedCrypto Currency.mainnet Checkpoints.empty 0 n b {}).2.2)
      (([2, 3, 4, 5, 6].map minedBlock).foldl
        (fun n b => n.acceptCoinbaseBlock paddedCrypto b 1 5000000 200000)
        (Node.addNewBlock paddedCrypto Currency.mainnet Checkpoints.empty 0
          (Node.addNewBlock paddedCrypto Currency.mainnet Checkpoints.empty 0 sampleGenesisNode
            oversizedMultisignatureBlock {}).2.2 rewardMultisignatureBlock {}).2.2) =
    ([7, 8, 9, 10].map minedBlock).foldl
      (fun n b => n.acceptCoinbaseBlock paddedCrypto b 1 5000000 200000)
      (([2, 3, 4, 5, 6].map minedBlock).foldl
        (fun n b => n.acceptCoinbaseBlock paddedCrypto b 1 5000000 200000)
        (Node.addNewBlock paddedCrypto Currency.mainnet Checkpoints.empty 0
          (Node.addNewBlock paddedCrypto Currency.mainnet Checkpoints.empty 0 sampleGenesisNode
            oversizedMultisignatureBlock {}).2.2 rewardMultisignatureBlock {}).2.2) := by
  rw [addNewBlock_oversizedMultisignatureBlock]
  simp only [List.map_cons, List.map_nil, List.foldl_cons, List.foldl_nil]
  simp (disch := (simp only [coinbaseAccepted_iff, Blockchain.getDifficultyForNextBlock,
    Currency.nextDifficultyForIndex, Currency.nextDifficulty, Blockchain.validateMinerTransaction,
    Blockchain.updateNextComulativeSizeLimit, medianValue,
    Blockchain.mergeSort_le_eq_insertionSort]; decide)) only
    [addNewBlock_of_coinbase_accepted (d := 1) (e := 5000000) (l := 200000)]

set_option maxRecDepth 8000 in
/-- At height 11 the coinbase of `rewardMultisignatureBlock` is unlocked:
`foreignSpend` enters the pool, and the block that takes it from there is
accepted. It marks the output listed under `10^14` used, while no transaction
of the chain has an output of that amount. -/
theorem foreignSpend_relayed_and_mined {N : Node}
    (hN : N = ([7, 8, 9, 10].map minedBlock).foldl
      (fun n b => n.acceptCoinbaseBlock paddedCrypto b 1 5000000 200000)
      (([2, 3, 4, 5, 6].map minedBlock).foldl
        (fun n b => n.acceptCoinbaseBlock paddedCrypto b 1 5000000 200000)
        (Node.addNewBlock paddedCrypto Currency.mainnet Checkpoints.empty 0
          (Node.addNewBlock paddedCrypto Currency.mainnet Checkpoints.empty 0 sampleGenesisNode
            oversizedMultisignatureBlock {}).2.2 rewardMultisignatureBlock {}).2.2)) :
    ∃ p, (∃ tvc, handleIncomingTx paddedCrypto Currency.mainnet Checkpoints.empty 0 N.toBlockchain N.pool
        (serializeTransaction foreignSpend).bytes false = .ok (true, tvc, p)) ∧
      ∃ r, r = Node.addNewBlock paddedCrypto Currency.mainnet Checkpoints.empty 0 { N with pool := p }
          foreignSpendBlock {} ∧
        r.1 = true ∧
        (r.2.2.blocks.getLast?.map fun e => e.transactions.map (·.tx)) =
          some [foreignSpendBlock.baseTransaction, foreignSpend] ∧
        (∀ e ∈ r.2.2.blocks, ∀ t ∈ e.transactions, ∀ o ∈ t.tx.outputs, o.amount ≠ 100000000000000) ∧
        r.2.2.multisignatureOutputs 100000000000000 = some [⟨⟨1, 0⟩, 0, true⟩] ∧
        r.2.2.multisignatureOutputs 12000000000000 = some [⟨⟨1, 0⟩, 0, false⟩] := by
  subst hN
  rw [addNewBlock_oversizedMultisignatureBlock]
  simp only [List.map_cons, List.map_nil, List.foldl_cons, List.foldl_nil]
  -- the relay is evaluated; the spending block goes through the accepted-block lemmas
  refine ⟨_, ⟨_, rfl⟩, _, rfl, ?_⟩
  rw [addNewBlock_of_accepted (b := foreignSpendBlock)]
  case hblob => decide
  case hnew => decide
  case hfresh => decide
  case hparent => decide
  case hload => rfl
  case hpushed =>
    refine pushBlockWithTransactions_of_accepted [foreignSpend] (d := 1) (e := 5000000)
      ⟨by decide, by decide, by decide, by decide, ?_, ?_, by decide⟩ ?_
      (pushTransaction_of_coinbase (by decide) rfl) rfl (by decide) ?_
    all_goals simp only [Blockchain.getDifficultyForNextBlock, Currency.nextDifficultyForIndex,
      Currency.nextDifficulty, Blockchain.validateMinerTransaction, medianValue,
      Blockchain.mergeSort_le_eq_insertionSort]
    all_goals decide
  decide

set_option maxRecDepth 8000 in
/-- **A refused block leaves an output the chain never created.** After
`oversizedMultisignatureBlock` is refused and `rewardMultisignatureBlock`
takes its height, the main chain holds the genesis block and
`rewardMultisignatureBlock`, whose coinbase created one multisignature output
of `12 * 10^12` units. The cache lists that output under its own amount, and
lists it, unused, under `10^14` units as well. Nine blocks later the coinbase
is unlocked, `foreignSpend` spends `10^14` units through that entry, and it is
relayed and mined: the chain then holds an input of `10^14` units though none
of its outputs has that amount, and the output can still be spent under its
own amount. -/
theorem refused_block_leaves_foreign_multisignature_output :
    ∃ n : Node, n = (Node.addNewBlock paddedCrypto Currency.mainnet Checkpoints.empty 0
      (Node.addNewBlock paddedCrypto Currency.mainnet Checkpoints.empty 0 sampleGenesisNode
        oversizedMultisignatureBlock {}).2.2 rewardMultisignatureBlock {}).2.2 ∧
    n.Reachable paddedCrypto Currency.mainnet Checkpoints.empty ∧
    (n.blocks.map (·.bl) = [sampleGenesis, rewardMultisignatureBlock] ∧
      rewardMultisignatureBlock.baseTransaction.outputs.map (·.amount) = [12000000000000] ∧
      n.multisignatureOutputs 12000000000000 = some [⟨⟨1, 0⟩, 0, false⟩] ∧
      n.multisignatureOutputs 100000000000000 = some [⟨⟨1, 0⟩, 0, false⟩]) ∧
    ∃ n' : Node, n' = ([2, 3, 4, 5, 6, 7, 8, 9, 10].map minedBlock).foldl
        (fun n b => (Node.addNewBlock paddedCrypto Currency.mainnet Checkpoints.empty 0 n b {}).2.2) n ∧
      ∃ p, (∃ tvc, handleIncomingTx paddedCrypto Currency.mainnet Checkpoints.empty 0 n'.toBlockchain n'.pool
          (serializeTransaction foreignSpend).bytes false = .ok (true, tvc, p)) ∧
        ∃ r, r = Node.addNewBlock paddedCrypto Currency.mainnet Checkpoints.empty 0 { n' with pool := p }
            foreignSpendBlock {} ∧
          r.2.2.Reachable paddedCrypto Currency.mainnet Checkpoints.empty ∧ r.1 = true ∧
          (r.2.2.blocks.getLast?.map fun e => e.transactions.map (·.tx)) =
            some [foreignSpendBlock.baseTransaction, foreignSpend] ∧
          (∀ e ∈ r.2.2.blocks, ∀ t ∈ e.transactions, ∀ o ∈ t.tx.outputs, o.amount ≠ 100000000000000) ∧
          r.2.2.multisignatureOutputs 100000000000000 = some [⟨⟨1, 0⟩, 0, true⟩] ∧
          r.2.2.multisignatureOutputs 12000000000000 = some [⟨⟨1, 0⟩, 0, false⟩] := by
  have h₁ : Node.Step paddedCrypto Currency.mainnet Checkpoints.empty Node.empty sampleGenesisNode :=
    .addNewBlock Node.empty 0 sampleGenesis {}
  have h₂ : Node.Step paddedCrypto Currency.mainnet Checkpoints.empty sampleGenesisNode
      (Node.addNewBlock paddedCrypto Currency.mainnet Checkpoints.empty 0 sampleGenesisNode
        oversizedMultisignatureBlock {}).2.2 :=
    .addNewBlock sampleGenesisNode 0 oversizedMultisignatureBlock {}
  have h₃ : Node.Step paddedCrypto Currency.mainnet Checkpoints.empty
      (Node.addNewBlock paddedCrypto Currency.mainnet Checkpoints.empty 0 sampleGenesisNode
        oversizedMultisignatureBlock {}).2.2
      (Node.addNewBlock paddedCrypto Currency.mainnet Checkpoints.empty 0
        (Node.addNewBlock paddedCrypto Currency.mainnet Checkpoints.empty 0 sampleGenesisNode
          oversizedMultisignatureBlock {}).2.2 rewardMultisignatureBlock {}).2.2 :=
    .addNewBlock _ 0 rewardMultisignatureBlock {}
  have hreach := Relation.ReflTransGen.tail (.tail (.single h₁) h₂) h₃
  refine ⟨_, rfl, hreach, ?_, ?_⟩
  · -- the refused block's step is taken by the lemma; the rest is evaluated
    rw [addNewBlock_oversizedMultisignatureBlock]
    exact ⟨by decide, by decide, by decide, by decide⟩
  · -- the nine blocks are accepted as the two runs above say, then the spend
    obtain ⟨N, hN⟩ : ∃ N, N = ([2, 3, 4, 5, 6, 7, 8, 9, 10].map minedBlock).foldl
        (fun n b => (Node.addNewBlock paddedCrypto Currency.mainnet Checkpoints.empty 0 n b {}).2.2)
        (Node.addNewBlock paddedCrypto Currency.mainnet Checkpoints.empty 0
          (Node.addNewBlock paddedCrypto Currency.mainnet Checkpoints.empty 0 sampleGenesisNode
            oversizedMultisignatureBlock {}).2.2 rewardMultisignatureBlock {}).2.2 := ⟨_, rfl⟩
    have hfillers : N.Reachable paddedCrypto Currency.mainnet Checkpoints.empty :=
      hN ▸ Node.Reachable.foldl_addNewBlock hreach 0 {} _
    refine ⟨N, hN, ?_⟩
    rw [show [2, 3, 4, 5, 6, 7, 8, 9, 10].map minedBlock =
        [2, 3, 4, 5, 6].map minedBlock ++ [7, 8, 9, 10].map minedBlock from rfl, List.foldl_append,
      addNewBlock_minedBlocks_two_to_six, addNewBlock_minedBlocks_seven_to_ten] at hN
    obtain ⟨p, ⟨tvc, hrelay⟩, r, hr, hfacts⟩ := foreignSpend_relayed_and_mined hN
    refine ⟨p, ⟨tvc, hrelay⟩, r, hr, ?_, hfacts⟩
    rw [hr]
    exact .tail (.tail hfillers (.handleIncomingTx _ 0 _ false true tvc p hrelay))
      (.addNewBlock _ 0 foreignSpendBlock {})

end Cn
