import ConcealCore.Spec.Pool

/-!
# Adding a block

`addNewBlock` and what it runs: `pushBlock` on the main chain (loading the
block's transactions from the pool, validating and entering them, and giving
them back to the pool on failure), `handle_alternative_block` for a block
that does not extend the tip, `switch_to_alternative_blockchain` when an
alternative chain overtakes the main chain or reaches a checkpoint, and
`rollback_blockchain_switching` when the switch fails.

`Node` is the blockchain together with its memory pool, which these functions
change together. A `try`/`catch` turns a throw into the result of the function
that catches it, with the state the throw leaves. The orphan-block index, the
upgrade detectors (their heights are the currency's) and the observers are not
modelled.
-/

namespace Cn

/-- `block_verification_context`. -/
structure BlockVerificationContext where
  verificationFailed : Bool := false
  addedToMainChain : Bool := false
  alreadyExists : Bool := false
  markedAsOrphaned : Bool := false
  switchedToAltChain : Bool := false
deriving DecidableEq, Repr, Inhabited

/-- The blockchain and its memory pool. -/
structure Node extends Blockchain where
  pool : TxPool

/-- How the transaction loop of `pushBlock` ends. -/
inductive TransactionsPushed where
  /-- Every transaction was checked and pushed: the state, the block entry,
  the cumulative size, the fees and the interest. -/
  | pushed (s : Blockchain) (block : BlockEntry) (cumulativeBlockSize feeSummary interestSummary : UInt64)
  /-- A transaction failed its checks and the block's transactions were popped. -/
  | invalid (s : Blockchain)
  /-- A check, a push or the pop threw. -/
  | threw (s : Blockchain)

namespace Blockchain

variable (c : Crypto) (cur : Currency) (cp : Checkpoints) (now : UInt64)

/-- `update_next_comulative_size_limit()`: twice the median of the last block
sizes, at least twice the full-reward zone. -/
def updateNextComulativeSizeLimit (s : Blockchain) : Blockchain :=
  let median := medianValue (s.getLastNBlocksSizes cur.rewardBlocksWindow.toNat)
  let median := if median ≤ cur.blockGrantedFullRewardZone then cur.blockGrantedFullRewardZone else median
  { s with currentBlockCumulSzLimit := median * 2 }

/-- What `pushTransaction` leaves in the caches and in the block entry: on
success the global output indexes go to the entry at `transaction`; a throw
escapes with the caches it leaves. -/
def applyPushed (s : Blockchain) (block : BlockEntry) (transaction : UInt16) :
    Pushed → Except Blockchain (Blockchain × BlockEntry)
  | .pushed caches globalOutputIndexes =>
    .ok ({ s with toCaches := caches }, { block with
      transactions := block.transactions.modify transaction.toNat
        fun entry => { entry with globalOutputIndexes } })
  | .rejected caches => .ok ({ s with toCaches := caches }, block)
  | .threw caches => .error { s with toCaches := caches }

/-- The loop of `pushBlock` over the block's transactions: each is checked
against the caches as the earlier ones left them (version, inputs, outputs)
and pushed, its push result ignored. An invalid transaction pops everything
the block pushed. -/
def pushBlockTransactions (blockData : Block) (minerTransactionHash : Hash) :
    Blockchain → BlockEntry → UInt16 → UInt64 → UInt64 → UInt64 → List (Transaction × Hash) →
      TransactionsPushed
  | s, block, _, size, fees, interest, [] => .pushed s block size fees interest
  | s, block, transaction, size, fees, interest, (tx, txId) :: rest =>
    let block := { block with transactions := block.transactions ++ [⟨tx, []⟩] }
    let blobSize := (serializeTransaction tx).bytes.length.toUInt64
    let fee := cur.getTransactionFee tx.toTransactionPrefix block.height
    match checkTransactionInputs c cur cp now s tx with
    | .error () => .threw s
    | .ok inputs =>
      let valid := !(block.bl.majorVersion = BLOCK_MAJOR_VERSION_1 ∧ tx.version > TRANSACTION_VERSION_1) &&
        inputs.isSome && checkTxOutputs c cur tx.toTransactionPrefix block.height
      if !valid then
        let block := { block with transactions := block.transactions.dropLast }
        match popTransactions s.toCaches block minerTransactionHash with
        | .error caches => .threw { s with toCaches := caches }
        | .ok caches => .invalid { s with toCaches := caches }
      else
        let transaction := transaction + 1
        match applyPushed s block transaction
            (pushTransaction s.toCaches block.height tx txId ⟨block.height, transaction⟩) with
        | .error s => .threw s
        | .ok (s, block) =>
          pushBlockTransactions blockData minerTransactionHash s block transaction (size + blobSize)
            (fees + fee) (interest + cur.calculateTotalTransactionInterest tx.toTransactionPrefix block.height) rest

/-- `pushBlock(blockData, transactions, id, bvc)`: the checks of the block,
the coinbase push, the transaction loop, the size check, the coinbase amount,
then the entry is appended. A throw escapes with the state it leaves. -/
def pushBlockWithTransactions (s : Blockchain) (blockData : Block) (transactions : List Transaction)
    (id : Hash) (bvc : BlockVerificationContext) :
    Except Blockchain (Bool × BlockVerificationContext × Blockchain) :=
  let failed := { bvc with verificationFailed := true }
  if id ∈ s.blockIndex then .ok (false, failed, s)
  else if !checkBlockVersion cur blockData then .ok (false, failed, s)
  -- the merge-mining check needs `id` in the block index, which was just refused
  else if blockData.previousBlockHash ≠ s.getTailId then .ok (false, failed, s)
  else if !checkBlockTimestampMain cur now s blockData then .ok (false, failed, s)
  else
    let currentDifficulty := s.getDifficultyForNextBlock cur
    if currentDifficulty = 0 then .ok (false, bvc, s)
    else
      let height := s.getCurrentBlockchainHeight
      let workDone :=
        if cp.isInCheckpointZone height then (cp.checkBlock height id).1
        else checkProofOfWork c blockData currentDifficulty
      if !workDone then .ok (false, failed, s)
      else if !prevalidateMinerTransaction c cur blockData s.blocks.length.toUInt32 then .ok (false, failed, s)
      else
        let minerTransactionHash := transactionHash c blockData.baseTransaction
        let block : BlockEntry :=
          ⟨blockData, s.blocks.length.toUInt32, 0, 0, 0, [⟨blockData.baseTransaction, []⟩]⟩
        match applyPushed s block 0 (pushTransaction s.toCaches block.height blockData.baseTransaction
            minerTransactionHash ⟨block.height, 0⟩) with
        | .error s => .error s
        | .ok (s, block) =>
          match pushBlockTransactions c cur cp now blockData minerTransactionHash s block 0
              (getObjectBinarySize (serializeTransaction blockData.baseTransaction)) 0 0
              (transactions.zip blockData.transactionHashes) with
          | .threw s => .error s
          | .invalid s => .ok (false, failed, s)
          | .pushed s block cumulativeBlockSize feeSummary interestSummary =>
            -- a block too large returns here, with its transactions still in the caches
            if !checkCumulativeBlockSize cur cumulativeBlockSize block.height.toUInt64 then .ok (false, failed, s)
            else
              let alreadyGeneratedCoins := (s.blocks.getLast?.map (·.alreadyGeneratedCoins)).getD 0
              match validateMinerTransaction cur s blockData block.height cumulativeBlockSize
                  alreadyGeneratedCoins feeSummary with
              | none =>
                match popTransactions s.toCaches block minerTransactionHash with
                | .error caches => .error { s with toCaches := caches }
                | .ok caches => .ok (false, failed, { s with toCaches := caches })
              | some (_, emissionChange) =>
                let block := { block with
                  blockCumulativeSize := cumulativeBlockSize
                  cumulativeDifficulty :=
                    currentDifficulty + (s.blocks.getLast?.map (·.cumulativeDifficulty)).getD 0
                  alreadyGeneratedCoins := alreadyGeneratedCoins + emissionChange.toUInt64 + interestSummary }
                let s := pushToDepositIndex (pushBlockEntry c s block) block interestSummary
                .ok (true, { bvc with addedToMainChain := true }, updateNextComulativeSizeLimit cur s)

/-- `completeTimestampsVector(start_top_height, timestamps)`: main-chain
timestamps from `start_top_height` down, until the window is full; the
do-while stops before `stop_offset`, and at block 0. -/
def completeTimestampsVector (s : Blockchain) (startTopHeight : Nat) (timestamps : List UInt64) :
    List UInt64 :=
  if timestamps.length ≥ cur.timestampCheckWindow.toNat then timestamps
  else if ¬ startTopHeight < s.blocks.length then timestamps
  else
    let needElements := cur.timestampCheckWindow.toNat - timestamps.length
    let stopOffset := if startTopHeight > needElements then startTopHeight - needElements else 0
    let heights :=
      if startTopHeight = 0 then [0]
      else (List.range (startTopHeight - stopOffset)).map (startTopHeight - ·)
    timestamps ++ heights.map fun i => (s.blocks.getD i default).bl.timestamp

/-- The walk of `handle_alternative_block` from a block's parent back through
the alternative blocks: their hashes, oldest first, and their timestamps,
newest first. Parents are one lower, so the parent's height bounds the walk. -/
def altChainWalk (s : Blockchain) : Nat → Hash → List Hash × List UInt64
  | 0, _ => ([], [])
  | fuel + 1, h =>
    match s.alternativeChains h with
    | none => ([], [])
    | some e =>
      let (chain, timestamps) := altChainWalk s fuel e.bl.previousBlockHash
      (chain ++ [h], e.bl.timestamp :: timestamps)

end Blockchain

namespace Node

variable (c : Crypto) (cur : Currency) (cp : Checkpoints) (now : UInt64)

/-- `haveBlock(id)`: on the main chain or among the alternative blocks. -/
def haveBlock (n : Node) (id : Hash) : Bool :=
  id ∈ n.blockIndex || (n.alternativeChains id).isSome

/-- The re-adding loop of `loadTransactions` and `saveTransactions`: `add_tx`
of each transaction as kept by a block, at `height`; a refusal throws
`std::runtime_error`. -/
def addTransactionsBack (s : Blockchain) (height : UInt32) : TxPool → List Transaction → Except TxPool TxPool
  | p, [] => .ok p
  | p, tx :: txs =>
    match p.addTransaction c cur cp now s tx true height with
    | .error () => .error p
    | .ok (false, _, p) => .error p
    | .ok (true, _, p) => addTransactionsBack s height p txs

/-- The `take_tx` loop of `loadTransactions`; on a missing transaction the
ones taken are given back, last first. -/
def loadTransactions.take (s : Blockchain) (height : UInt32) :
    TxPool → List Hash → List Transaction → Except TxPool (Option (List Transaction) × TxPool)
  | p, [], taken => .ok (some taken, p)
  | p, h :: hs, taken =>
    match p.takeTx h with
    | (some (tx, _, _), p) => loadTransactions.take s height p hs (taken ++ [tx])
    | (none, p) =>
      match addTransactionsBack c cur cp now s height p taken.reverse with
      | .error p => .error p
      | .ok p => .ok (none, p)

/-- `loadTransactions(block, transactions, height)`. -/
def loadTransactions (p : TxPool) (s : Blockchain) (block : Block) (height : UInt32) :
    Except TxPool (Option (List Transaction) × TxPool) :=
  loadTransactions.take c cur cp now s height p block.transactionHashes []

/-- `saveTransactions(transactions, height)`: back to the pool, last first. -/
def saveTransactions (p : TxPool) (s : Blockchain) (transactions : List Transaction) (height : UInt32) :
    Except TxPool TxPool :=
  addTransactionsBack c cur cp now s height p transactions.reverse

/-- `pushBlock(blockData, id, bvc, height)`: the transactions are taken from
the pool, pushed with the block, and saved back to it when the block is
refused. Its `catch` turns a throw into a refusal. -/
def pushBlock (n : Node) (blockData : Block) (id : Hash) (bvc : BlockVerificationContext) (height : UInt32) :
    Bool × BlockVerificationContext × Node :=
  let failed := { bvc with verificationFailed := true }
  match loadTransactions c cur cp now n.pool n.toBlockchain blockData height with
  | .error pool => (false, failed, { n with pool })
  | .ok (none, pool) => (false, failed, { n with pool })
  | .ok (some transactions, pool) =>
    match n.toBlockchain.pushBlockWithTransactions c cur cp now blockData transactions id bvc with
    | .error s => (false, failed, { toBlockchain := s, pool })
    | .ok (true, bvc, s) => (true, bvc, { toBlockchain := s, pool })
    | .ok (false, bvc, s) =>
      match saveTransactions c cur cp now pool s transactions height with
      | .error pool => (false, failed, { toBlockchain := s, pool })
      | .ok pool => (false, bvc, { toBlockchain := s, pool })

/-- `popBlock(blockHash)`: the last block's transactions go back to the pool,
then leave the caches; the deposit index, the chain and the block index lose
the block. A throw escapes. -/
def popBlock (n : Node) : Except Node Node :=
  match n.blocks.getLast? with
  | none => .ok n
  | some last =>
    match saveTransactions c cur cp now n.pool n.toBlockchain ((last.transactions.drop 1).map (·.tx))
        n.blocks.length.toUInt32 with
    | .error pool => .error { n with pool }
    | .ok pool =>
      match Blockchain.popTransactions n.toCaches last (transactionHash c last.bl.baseTransaction) with
      | .error caches => .error { n with pool, toCaches := caches }
      | .ok caches =>
        .ok { n with
          pool, toCaches := caches
          depositIndex := n.depositIndex.popBlock
          blocks := n.blocks.dropLast
          blockIndex := n.blockIndex.dropLast }

/-- `popBlock` `count` times, stopping at a throw. -/
def popBlocks : Nat → Node → Except Node Node
  | 0, n => .ok n
  | count + 1, n =>
    match popBlock c cur cp now n with
    | .error n => .error n
    | .ok n => popBlocks count n

/-- The pushes of a switch or a rollback: `pushBlock` of each block at the
next height, stopping at the first that is not added to the main chain. The
index of that block, if any. -/
def pushBlocks (n : Node) (height : UInt32) : List Block → Option Nat × Node
  | [] => (none, n)
  | b :: bs =>
    let (r, bvc, n) := pushBlock c cur cp now n b (getBlockHash c b) {} (height + 1)
    if r && bvc.addedToMainChain then
      let (failedAt, n) := pushBlocks n (height + 1) bs
      (failedAt.map (· + 1), n)
    else (some 0, n)

/-- `rollback_blockchain_switching(original_chain, rollback_height)`: pop the
blocks from `rollback_height` on, then push the original ones again. -/
def rollbackBlockchainSwitching (n : Node) (originalChain : List Block) (rollbackHeight : Nat) :
    Bool × Node :=
  match popBlocks c cur cp now (n.blocks.length - rollbackHeight) n with
  | .error n => (false, n)
  | .ok n =>
    match pushBlocks c cur cp now n (rollbackHeight.toUInt32 - 1) originalChain with
    | (none, n) => (true, n)
    | (some _, n) => (false, n)

/-- `m_alternative_chains.erase` of each hash. -/
def eraseAlternatives (n : Node) (hashes : List Hash) : Node :=
  { n with alternativeChains := hashes.foldl (fun m h => Function.update m h none) n.alternativeChains }

/-- `getBlockCumulativeSize(block)`: the coinbase and the transactions found
in the chain, then in the pool; those not found do not count. -/
def getBlockCumulativeSize (n : Node) (b : Block) : UInt64 :=
  let inChain h := ((n.transactionMap h).bind n.toBlockchain.transactionByIndex).map (·.tx)
  let chainTxs := b.transactionHashes.filterMap inChain
  let poolTxs := (b.transactionHashes.filter fun h => (inChain h).isNone).filterMap fun h =>
    (n.pool.transactions.find? (·.id = h)).map (·.tx)
  (chainTxs ++ poolTxs).foldl (fun size tx => size + getObjectBinarySize (serializeTransaction tx))
    (getObjectBinarySize (serializeTransaction b.baseTransaction))

/-- One pass of the loop that re-adds the disconnected blocks as alternative
blocks: once one is refused, the rest are not tried. -/
def readdDisconnected
    (handleAlt : Node → Block → Hash → BlockVerificationContext → Bool × BlockVerificationContext × Node)
    (acc : Bool × Node) (b : Block) : Bool × Node :=
  if acc.1 then
    let (r, _, n) := handleAlt acc.2 b (getBlockHash c b) {}
    (r, n)
  else acc

/-- `switch_to_alternative_blockchain(alt_chain, discard_disconnected_chain)`,
with `handleAlt` for re-adding the disconnected blocks. The alternative chain
must hold every transaction of the blocks it replaces; on a failed push the
original chain is restored and the failed block and those after it are
dropped. -/
def switchToAlternativeBlockchainWith
    (handleAlt : Node → Block → Hash → BlockVerificationContext → Bool × BlockVerificationContext × Node)
    (n : Node) (altChain : List Hash) (discardDisconnectedChain : Bool) : Bool × Node :=
  match altChain.head? with
  | none => (false, n)
  | some front =>
    let splitHeight := (n.altEntry front).height
    if !(n.blocks.length > splitHeight.toNat) then (false, n)
    else
      let mainChainTxHashes := ((n.blocks.drop splitHeight.toNat).map (·.bl.transactionHashes)).flatten
      let altChainTxHashes := (altChain.map fun h => (n.altEntry h).bl.transactionHashes).flatten
      if mainChainTxHashes.any (· ∉ altChainTxHashes) then (false, n)
      else if altChain.any (fun h => !Blockchain.checkBlockVersion cur (n.altEntry h).bl) then (false, n)
      else
        let disconnectedChain := (n.blocks.drop splitHeight.toNat).map (·.bl)
        match popBlocks c cur cp now (n.blocks.length - splitHeight.toNat) n with
        | .error n => (false, n)
        | .ok n =>
          match pushBlocks c cur cp now n (splitHeight - 1) (altChain.map fun h => (n.altEntry h).bl) with
          | (some failedAt, n) =>
            let (_, n) := rollbackBlockchainSwitching c cur cp now n disconnectedChain splitHeight.toNat
            (false, eraseAlternatives n (altChain.drop failedAt))
          | (none, n) =>
            let readded :=
              if discardDisconnectedChain then (true, n)
              else disconnectedChain.foldl (readdDisconnected c handleAlt) (true, n)
            match readded with
            | (false, n) =>
              let (_, n) := rollbackBlockchainSwitching c cur cp now n disconnectedChain splitHeight.toNat
              (false, n)
            | (true, n) => (true, eraseAlternatives n altChain)

/-- The checks of `handle_alternative_block(b, id, bvc)` before the block is
stored: its height, version, size, parent, timestamps, checkpoint, merge-mining
tag, proof of work and coinbase. A refusal gives the result and the context;
a block that passes gives its entry, the alternative chain it extends, and
whether its height has a checkpoint. -/
def checkAlternativeBlock (n : Node) (b : Block) (id : Hash) (bvc : BlockVerificationContext) :
    Except (Bool × BlockVerificationContext) (BlockEntry × List Hash × Bool) :=
  let failed := { bvc with verificationFailed := true }
  let blockHeight := getBlockHeight b
  if blockHeight = 0 then .error (false, failed)
  else if !cp.isAlternativeBlockAllowed n.getCurrentBlockchainHeight blockHeight then .error (false, failed)
  else if !Blockchain.checkBlockVersion cur b then .error (false, failed)
  else if !Blockchain.checkCumulativeBlockSize cur (getBlockCumulativeSize n b) blockHeight.toUInt64 then
    .error (false, failed)
  else
    let mainPrev := n.blockIndex.idxOf? b.previousBlockHash
    let itPrev := n.alternativeChains b.previousBlockHash
    if itPrev.isNone ∧ mainPrev.isNone then .error (false, { bvc with markedAsOrphaned := true })
    else
      let (altChain, timestamps) := n.toBlockchain.altChainWalk
        ((itPrev.map (·.height.toNat + 1)).getD 0) b.previousBlockHash
      let mainPrevHeight := (mainPrev.getD 0).toUInt32
      -- the alternative chain must hang from the main chain
      let connected : Option (List UInt64) :=
        match altChain.head? with
        | some front =>
          let bei := n.altEntry front
          if !(n.blocks.length > bei.height.toNat) then none
          else
            match n.blocks[(bei.height - 1).toNat]? with
            | none => none
            | some parent =>
              if getBlockHash c parent.bl ≠ bei.bl.previousBlockHash then none
              else some (n.toBlockchain.completeTimestampsVector cur (bei.height - 1).toNat timestamps)
        | none => some (n.toBlockchain.completeTimestampsVector cur mainPrevHeight.toNat timestamps)
      match connected with
      | none => .error (false, bvc)
      | some timestamps =>
        if !Blockchain.checkBlockTimestamp cur timestamps b then .error (false, failed)
        else
          let height := if altChain.isEmpty then mainPrevHeight + 1 else (itPrev.getD default).height + 1
          let bei : BlockEntry := { (default : BlockEntry) with bl := b, height }
          let (checkpointOk, isACheckpoint) := cp.checkBlock height id
          if !checkpointOk then .error (false, failed)
          else if getMergeMiningTagFromExtra b.baseTransaction.extra ∧ height.toUInt64 ≥ UPGRADE_HEIGHT_V6 then
            .error (false, bvc)
          else
            let currentDiff := n.getNextDifficultyForAlternativeChain cur altChain bei
            if currentDiff = 0 then .error (false, bvc)
            else if !checkProofOfWork c b currentDiff then .error (false, failed)
            else if !Blockchain.prevalidateMinerTransaction c cur b height then .error (false, failed)
            else
              let base := if altChain.isEmpty then (n.blocks.getD mainPrevHeight.toNat default).cumulativeDifficulty
                else (itPrev.getD default).cumulativeDifficulty
              .ok ({ bei with cumulativeDifficulty := base + currentDiff }, altChain, isACheckpoint)

/-- The end of `handle_alternative_block`: the checked block is inserted among
the alternative blocks (a hash already there is refused), then the chain
switches, discarding the blocks it replaces, when the block is at a
checkpoint, and keeping them as alternative blocks when its chain has more
work than the main chain. -/
def storeAlternativeBlock (switch : Node → List Hash → Bool → Bool × Node)
    (n : Node) (id : Hash) (bvc : BlockVerificationContext) (bei : BlockEntry) (altChain : List Hash)
    (isACheckpoint : Bool) : Bool × BlockVerificationContext × Node :=
  let failed := { bvc with verificationFailed := true }
  if (n.alternativeChains id).isSome then (false, bvc, n)
  else
    let n := { n with alternativeChains := Function.update n.alternativeChains id (some bei) }
    let altChain := altChain ++ [id]
    if isACheckpoint then
      let (r, n) := switch n altChain true
      if r then (true, { bvc with addedToMainChain := true, switchedToAltChain := true }, n)
      else (false, failed, n)
    else if ((n.blocks.getLast?.map (·.cumulativeDifficulty)).getD 0) < bei.cumulativeDifficulty then
      let (r, n) := switch n altChain false
      if r then (true, { bvc with addedToMainChain := true, switchedToAltChain := true }, n)
      else (false, failed, n)
    else (true, bvc, n)

/-- `handle_alternative_block(b, id, bvc)`, with `switch` for the
reorganisations it triggers: a block whose parent is on the main chain or
among the alternative blocks is checked and stored. -/
def handleAlternativeBlockWith (switch : Node → List Hash → Bool → Bool × Node)
    (n : Node) (b : Block) (id : Hash) (bvc : BlockVerificationContext) :
    Bool × BlockVerificationContext × Node :=
  match checkAlternativeBlock c cur cp n b id bvc with
  | .error (r, bvc) => (r, bvc, n)
  | .ok (bei, altChain, isACheckpoint) => storeAlternativeBlock switch n id bvc bei altChain isACheckpoint

/-- `switch_to_alternative_blockchain` with `depth` nested switches allowed:
re-adding a disconnected block can itself switch; beyond the depth that
re-adding fails. -/
def switchToAlternativeBlockchain : Nat → Node → List Hash → Bool → Bool × Node
  | 0 => switchToAlternativeBlockchainWith c cur cp now fun n _ _ bvc => (false, bvc, n)
  | depth + 1 =>
    switchToAlternativeBlockchainWith c cur cp now
      (handleAlternativeBlockWith c cur cp (switchToAlternativeBlockchain depth))

/-- `handle_alternative_block`, with two nested switches. -/
def handleAlternativeBlock (n : Node) (b : Block) (id : Hash) (bvc : BlockVerificationContext) :
    Bool × BlockVerificationContext × Node :=
  handleAlternativeBlockWith c cur cp (switchToAlternativeBlockchain c cur cp now 2) n b id bvc

/-- `addNewBlock(bl, bvc)`: a block that extends the tip is pushed at the next
height; any other goes to `handle_alternative_block`. -/
def addNewBlock (n : Node) (bl : Block) (bvc : BlockVerificationContext) :
    Bool × BlockVerificationContext × Node :=
  match getBlockHashingBlob c bl with
  | none => (false, { bvc with verificationFailed := true }, n)
  | some _ =>
    let id := getBlockHash c bl
    if haveBlock n id then (false, { bvc with alreadyExists := true }, n)
    else if bl.previousBlockHash ≠ n.getTailId then
      handleAlternativeBlock c cur cp now n bl id { bvc with addedToMainChain := false }
    else pushBlock c cur cp now n bl id bvc (n.blocks.length.toUInt32 + 1)

end Node

/-- A node before `init`: no blocks and an empty pool. -/
@[grind] def Node.empty : Node := { Blockchain.empty with pool := TxPool.empty }

/-- What a running node does: a block, from a peer or a miner, goes to
`addNewBlock`; a transaction blob, relayed or from a block, to
`handle_incoming_tx`. The clock may be anywhere at each step. A throw out of
`handle_incoming_tx` leaves the node as it was. -/
inductive Node.Step (c : Crypto) (cur : Currency) (cp : Checkpoints) : Node → Node → Prop where
  | addNewBlock (n : Node) (now : UInt64) (bl : Block) (bvc : BlockVerificationContext) :
      Node.Step c cur cp n (Node.addNewBlock c cur cp now n bl bvc).2.2
  | handleIncomingTx (n : Node) (now : UInt64) (txBlob : List UInt8) (keptByBlock : Bool)
      (r : Bool) (tvc : TxVerificationContext) (pool : TxPool) :
      handleIncomingTx c cur cp now n.toBlockchain n.pool txBlob keptByBlock = .ok (r, tvc, pool) →
      Node.Step c cur cp n { n with pool }

/-- The nodes a run from `Node.empty` reaches; the genesis block comes in as
the first `addNewBlock`. -/
def Node.Reachable (c : Crypto) (cur : Currency) (cp : Checkpoints) (n : Node) : Prop :=
  Relation.ReflTransGen (Node.Step c cur cp) Node.empty n

end Cn
