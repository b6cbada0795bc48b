import ConcealCore.Spec.Pool
import ConcealCore.Spec.IntUtil

/-!
# Filling a block template from the pool

`tx_memory_pool::fill_block_template` walks the pool by fee per byte, highest
first (`m_fee_index`, ordered by `TransactionPriorityComparator`), and takes a
transaction into the block when it has no TTL, its outputs do not exceed its
inputs, it fits under the size limit, the validator finds it ready, and it
spends no key image and no multisignature output that a transaction taken
before spends (`BlockTemplate::addTransaction`). The size limit is the median
block size for a transaction without fee, and `max_total_size`, the smaller of
125 % of the median less the coinbase reserve and `maxCumulativeSize`, for the
others.

The validator is the pool's `ITransactionValidator`, a parameter
(`ReadyValidator`) with the two checks `is_transaction_ready_to_go` makes.
-/

namespace Cn

/-- `BlockTemplate`: the key images and multisignature outputs the
transactions taken so far spend, and their ids. -/
structure BlockTemplate where
  keyImages : List KeyImage
  usedOutputs : List (UInt64 × UInt32)
  txHashes : List Hash
deriving Repr

namespace BlockTemplate

/-- `canAdd(tx)`: no input spends what the template spends. -/
def canAdd (t : BlockTemplate) (tx : Transaction) : Bool :=
  tx.inputs.all fun
    | .key k => k.keyImage ∉ t.keyImages
    | .multisignature m => (m.amount, m.outputIndex) ∉ t.usedOutputs
    | .base _ => true

/-- The sets after the inputs of a transaction are inserted. -/
def insertInput (t : BlockTemplate) : TransactionInput → BlockTemplate
  | .key k => { t with keyImages := t.keyImages.insert k.keyImage }
  | .multisignature m => { t with usedOutputs := t.usedOutputs.insert (m.amount, m.outputIndex) }
  | .base _ => t

/-- `addTransaction(txid, tx)`: the template with the transaction, or `none`
where it returns `false`. -/
def addTransaction (t : BlockTemplate) (txid : Hash) (tx : Transaction) : Option BlockTemplate :=
  if !t.canAdd tx then none
  else
    let t := tx.inputs.foldl insertInput t
    some { t with txHashes := t.txHashes ++ [txid] }

end BlockTemplate

/-- `TransactionPriorityComparator(lhs, rhs)`: `lhs` before `rhs`, by fee per
byte compared as 128-bit cross products, then by smaller size, then by earlier
receipt. -/
def transactionPriority (lhs rhs : TransactionDetails) : Bool :=
  let (lhsLo, lhsHi) := IntUtil.mul128 lhs.fee rhs.blobSize
  let (rhsLo, rhsHi) := IntUtil.mul128 rhs.fee lhs.blobSize
  lhsHi > rhsHi ∨ (lhsHi = rhsHi ∧ lhsLo > rhsLo) ∨
    (lhsHi = rhsHi ∧ lhsLo = rhsLo ∧ lhs.blobSize < rhs.blobSize) ∨
    (lhsHi = rhsHi ∧ lhsLo = rhsLo ∧ lhs.blobSize = rhs.blobSize ∧ lhs.receiveTime < rhs.receiveTime)

namespace TxPool

/-- `m_fee_index`: the pooled transactions in the comparator's order,
equivalent ones in the order they were added. -/
def feeIndex (p : TxPool) : List TransactionDetails :=
  p.transactions.mergeSort fun a b => !transactionPriority b a

end TxPool

/-- The checks of `ITransactionValidator` that `is_transaction_ready_to_go`
makes: `checkTransactionInputs(tx, maxUsedBlock, lastFailedBlock)` on the
details' check information, and `haveSpentKeyImages(tx)`. -/
structure ReadyValidator where
  checkTransactionInputs : TransactionDetails → Bool
  haveSpentKeyImages : Transaction → Bool

namespace TxPool

variable (validator : ReadyValidator) (cur : Currency)

/-- `is_transaction_ready_to_go(txd.tx, checkInfo)`. -/
def isTransactionReadyToGo (txd : TransactionDetails) : Bool :=
  validator.checkTransactionInputs txd && !validator.haveSpentKeyImages txd.tx

/-- The loop of `fill_block_template` over the fee index: the template, then
`total_size` and `fee`. -/
@[grind] def fillBlockTemplate.loop (p : TxPool) (medianSize maxTotalSize : UInt64) (height : UInt32) :
    List TransactionDetails → BlockTemplate → UInt64 → UInt64 → BlockTemplate × UInt64 × UInt64
  | [], t, totalSize, fee => (t, totalSize, fee)
  | txd :: rest, t, totalSize, fee =>
    if (p.ttlIndex.lookup txd.id).isSome then fillBlockTemplate.loop p medianSize maxTotalSize height rest t totalSize fee
    else if getOutsMoneyAmount txd.tx.toTransactionPrefix >
        cur.getTransactionAllInputsAmount txd.tx.toTransactionPrefix height then
      fillBlockTemplate.loop p medianSize maxTotalSize height rest t totalSize fee
    else
      let blockSizeLimit := if txd.fee = 0 then medianSize else maxTotalSize
      if blockSizeLimit < totalSize + txd.blobSize then
        fillBlockTemplate.loop p medianSize maxTotalSize height rest t totalSize fee
      else
        -- `ready && blockTemplate.addTransaction(txd.id, txd.tx)`
        match (if isTransactionReadyToGo validator txd then t.addTransaction txd.id txd.tx else none) with
        | some t => fillBlockTemplate.loop p medianSize maxTotalSize height rest t (totalSize + txd.blobSize)
            (fee + txd.fee)
        | none => fillBlockTemplate.loop p medianSize maxTotalSize height rest t totalSize fee

/-- `max_total_size`: 125 % of the median less the coinbase reserve, at most
`maxCumulativeSize`, in `size_t` arithmetic. -/
def maxTotalSize (medianSize maxCumulativeSize : UInt64) : UInt64 :=
  min (125 * medianSize / 100 - cur.minerTxBlobReservedSize) maxCumulativeSize

/-- `fill_block_template(bl, median_size, maxCumulativeSize,
already_generated_coins, total_size, fee, height)`: the block's transaction
hashes, `total_size` and `fee`. `already_generated_coins` is not read. -/
def fillBlockTemplate (p : TxPool) (medianSize maxCumulativeSize : UInt64) (height : UInt32) :
    List Hash × UInt64 × UInt64 :=
  let (t, totalSize, fee) := fillBlockTemplate.loop validator cur p medianSize
    (maxTotalSize cur medianSize maxCumulativeSize) height p.feeIndex ⟨[], [], []⟩ 0 0
  (t.txHashes, totalSize, fee)

end TxPool

end Cn
