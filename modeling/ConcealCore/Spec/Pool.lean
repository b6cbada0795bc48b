import ConcealCore.Spec.Validation
import ConcealCore.Spec.TransactionExtra

/-!
# The memory pool and transaction admission

`TxPool` is `tx_memory_pool`: the pooled transactions with their details, and
the key images and multisignature outputs they spend. `addTx` is `add_tx`,
which admits a transaction at a given height, checking its amounts there and,
for a transaction that does not come from a block (`keptByBlock`), that its
inputs are valid against the chain and not spent by another pooled
transaction. `takeTx` is `take_tx` and `removeExpiredTransactions` the
periodic expiry by age and by TTL, both through `removeTransaction`.
`handleIncomingTransaction` and `checkTxSemantic` are the `core` entry of a
transaction from the network, `handleIncomingTx` the same from its bytes.

The indexes that only serve queries (payment ids, receive times) and the relay
decision are not modelled.
-/

namespace Cn

/-- `BlockInfo`: a block height and id. -/
structure BlockInfo where
  height : UInt32
  id : Hash
deriving DecidableEq, Repr, Inhabited

/-- `tx_memory_pool::TransactionDetails`. -/
structure TransactionDetails where
  id : Hash
  blobSize : UInt64
  tx : Transaction
  fee : UInt64
  keptByBlock : Bool
  receiveTime : UInt64
  maxUsedBlock : BlockInfo
deriving Repr, Inhabited

/-- The state of `tx_memory_pool`. A key image maps to the ids of the pooled
transactions that spend it, the empty list standing for an absent entry. -/
structure TxPool where
  transactions : List TransactionDetails
  spentKeyImages : KeyImage → List Hash
  spentOutputs : List (UInt64 × UInt32)
  /-- The ids `m_recentlyDeletedTransactions` holds. -/
  recentlyDeletedTransactions : List Hash
  /-- The deletion time `m_recentlyDeletedTransactions` maps each of them to. -/
  deletionTime : Hash → UInt64
  /-- `m_ttlIndex`: the TTL of each pooled transaction that has one. -/
  ttlIndex : List (Hash × UInt64)

/-- `tx_verification_context`, without the relay flag. -/
structure TxVerificationContext where
  verificationFailed : Bool := false
  verificationImpossible : Bool := false
  addedToPool : Bool := false
deriving DecidableEq, Repr, Inhabited

namespace TxPool

/-- An empty pool. -/
@[grind] def empty : TxPool := ⟨[], fun _ => [], [], [], fun _ => 0, []⟩

/-- `emplace(id, ttl)` on the TTL index: no change when the id is there. -/
def emplaceTtl (ttlIndex : List (Hash × UInt64)) (id : Hash) (ttl : UInt64) : List (Hash × UInt64) :=
  if (ttlIndex.lookup id).isSome then ttlIndex else ttlIndex ++ [(id, ttl)]

/-- `have_tx(id)`. -/
@[grind] def haveTx (p : TxPool) (id : Hash) : Bool := p.transactions.any (·.id = id)

/-- `haveSpentInputs(tx)`: an input already spent by a pooled transaction. -/
def haveSpentInputs (p : TxPool) (tx : Transaction) : Bool :=
  tx.inputs.any fun
    | .key k => !(p.spentKeyImages k.keyImage).isEmpty
    | .multisignature m => (m.amount, m.outputIndex) ∈ p.spentOutputs
    | _ => false

/-- `addTransactionInputs(id, tx, keptByBlock)`: the transaction's id joins
the set of each key image, which must be empty unless the transaction comes
from a block; its multisignature outputs are marked spent unless it does. It
stops with `false` at the first input it cannot enter. -/
def addTransactionInputs (p : TxPool) (id : Hash) (keptByBlock : Bool) : List TransactionInput → Bool × TxPool
  | [] => (true, p)
  | .key k :: inputs =>
    let set := p.spentKeyImages k.keyImage
    if !(keptByBlock || set.isEmpty) then (false, p)
    else if id ∈ set then (false, p)
    else
      TxPool.addTransactionInputs
        { p with spentKeyImages := Function.update p.spentKeyImages k.keyImage (set ++ [id]) } id keptByBlock inputs
  | .multisignature m :: inputs =>
    if keptByBlock then TxPool.addTransactionInputs p id keptByBlock inputs
    else
      let spentOutputs :=
        if (m.amount, m.outputIndex) ∈ p.spentOutputs then p.spentOutputs else p.spentOutputs ++ [(m.amount, m.outputIndex)]
      TxPool.addTransactionInputs { p with spentOutputs } id keptByBlock inputs
  | .base _ :: inputs => TxPool.addTransactionInputs p id keptByBlock inputs

/-- `removeTransactionInputs(id, tx, keptByBlock)`: the reverse, stopping with
`false` at a key image whose set does not hold the id. -/
def removeTransactionInputs (p : TxPool) (id : Hash) (keptByBlock : Bool) : List TransactionInput → Bool × TxPool
  | [] => (true, p)
  | .key k :: inputs =>
    let set := p.spentKeyImages k.keyImage
    if set.isEmpty then (false, p)
    else if id ∉ set then (false, p)
    else
      TxPool.removeTransactionInputs
        { p with spentKeyImages := Function.update p.spentKeyImages k.keyImage (set.erase id) } id keptByBlock inputs
  | .multisignature m :: inputs =>
    if keptByBlock then TxPool.removeTransactionInputs p id keptByBlock inputs
    else TxPool.removeTransactionInputs { p with spentOutputs := p.spentOutputs.erase (m.amount, m.outputIndex) }
      id keptByBlock inputs
  | .base _ :: inputs => TxPool.removeTransactionInputs p id keptByBlock inputs

/-- `removeTransaction(it)`: the transaction's inputs, its TTL entry and the
transaction itself. -/
def removeTransaction (p : TxPool) (txd : TransactionDetails) : TxPool :=
  let p := (p.removeTransactionInputs txd.id txd.keptByBlock txd.tx.inputs).2
  { p with ttlIndex := p.ttlIndex.filter (·.1 ≠ txd.id), transactions := p.transactions.filter (·.id ≠ txd.id) }

/-- `take_tx(id)`: the transaction, its blob size and fee, removed with its inputs. -/
def takeTx (p : TxPool) (id : Hash) : Option (Transaction × UInt64 × UInt64) × TxPool :=
  match p.transactions.find? (·.id = id) with
  | none => (none, p)
  | some txd => (some (txd.tx, txd.blobSize, txd.fee), p.removeTransaction txd)

section Expiry

variable (cur : Currency) (now : UInt64)

/-- One turn of the loop of `removeExpiredTransactions`: a transaction older
than its live time, or past its TTL, is remembered as deleted at `now` and
removed. -/
def removeIfExpired (p : TxPool) (txd : TransactionDetails) : TxPool :=
  let txAge := now - txd.receiveTime
  let remove : Bool :=
    txAge > (if txd.keptByBlock then cur.mempoolTxFromAltBlockLiveTime else cur.mempoolTxLiveTime)
  let ttlExpired : Bool := match p.ttlIndex.lookup txd.id with
    | some ttl => ttl ≤ now
    | none => false
  if remove || ttlExpired then
    -- `m_recentlyDeletedTransactions.emplace(id, now)` keeps an earlier entry
    let p := if txd.id ∈ p.recentlyDeletedTransactions then p
      else { p with
        recentlyDeletedTransactions := p.recentlyDeletedTransactions ++ [txd.id]
        deletionTime := Function.update p.deletionTime txd.id now }
    p.removeTransaction txd
  else p

/-- `removeExpiredTransactions()` at time `now`: the deleted ids older than
`numberOfPeriodsToForgetTxDeletedFromPool` live times are forgotten, then each
pooled transaction is checked for expiry. -/
def removeExpiredTransactions (p : TxPool) : TxPool :=
  let p := { p with recentlyDeletedTransactions := p.recentlyDeletedTransactions.filter fun id =>
    !(now - p.deletionTime id > cur.numberOfPeriodsToForgetTxDeletedFromPool * cur.mempoolTxLiveTime) }
  p.transactions.foldl (removeIfExpired cur now) p

end Expiry

end TxPool

namespace Blockchain

variable (c : Crypto) (cur : Currency) (cp : Checkpoints) (now : UInt64)

/-- `checkTransactionInputs(tx, maxUsedBlock)`, the overload the pool calls:
the inputs, with the block their rings reach, which must be in the chain, and
the outputs at that block's height. -/
def checkTransactionInputsMaxUsedBlock (s : Blockchain) (tx : Transaction) : Except Unit (Option BlockInfo) :=
  match checkTransactionInputs c cur cp now s tx with
  | .error () => .error ()
  | .ok none => .ok none
  | .ok (some maxUsed) =>
    match s.blocks[maxUsed.toNat]? with
    | none => .ok none
    | some b =>
      if checkTxOutputs c cur tx.toTransactionPrefix maxUsed then .ok (some ⟨maxUsed, getBlockHash c b.bl⟩)
      else .ok none

/-- `checkTransactionSize(blobSize)`: below the current size limit, less the
coinbase reserve. -/
def checkTransactionSize (s : Blockchain) (blobSize : UInt64) : Bool :=
  !(blobSize ≥ s.currentBlockCumulSzLimit - cur.minerTxBlobReservedSize)

end Blockchain

namespace TxPool

variable (c : Crypto) (cur : Currency) (cp : Checkpoints) (now : UInt64)

/-- `add_tx(tx, id, blobSize, tvc, keptByBlock, height)`, with the chain `s`
as its validator. A throw of the input check escapes. -/
@[grind] def addTx (p : TxPool) (s : Blockchain) (tx : Transaction) (id : Hash) (blobSize : UInt64)
    (keptByBlock : Bool) (height : UInt32) : Except Unit (Bool × TxVerificationContext × TxPool) :=
  let failed : TxVerificationContext := { verificationFailed := true }
  if !checkInputsTypesSupported tx.toTransactionPrefix then .ok (false, failed, p)
  else if getOutsMoneyAmount tx.toTransactionPrefix > cur.getTransactionAllInputsAmount tx.toTransactionPrefix height then
    .ok (false, failed, p)
  else
    let ttl := getTransactionTTL tx.extra
    let fee := cur.getTransactionFee tx.toTransactionPrefix height
    if ttl ≠ 0 ∧ !keptByBlock ∧
        (ttl ≤ now ∨ ttl - now > cur.mempoolTxLiveTime + cur.blockFutureTimeLimit ∨ fee ≠ 0) then
      .ok (false, failed, p)
    else if !keptByBlock ∧ p.haveSpentInputs tx then .ok (false, failed, p)
    else
      match s.checkTransactionInputsMaxUsedBlock c cur cp now tx with
      | .error () => .error ()
      | .ok maxUsedBlock =>
        if maxUsedBlock.isNone ∧ !keptByBlock then .ok (false, failed, p)
        else
          let tvc : TxVerificationContext := { verificationImpossible := maxUsedBlock.isNone }
          if !keptByBlock ∧ !s.checkTransactionSize cur blobSize then .ok (false, failed, p)
          else if !keptByBlock ∧ id ∈ p.recentlyDeletedTransactions then .ok (true, tvc, p)
          else if p.haveTx id then .ok (false, tvc, p)
          else
            let txd : TransactionDetails :=
              ⟨id, blobSize, tx, fee, keptByBlock, now, maxUsedBlock.getD ⟨0, nullHash⟩⟩
            let p := { p with
              transactions := p.transactions ++ [txd]
              ttlIndex := if ttl ≠ 0 then emplaceTtl p.ttlIndex id ttl else p.ttlIndex }
            let tvc := { tvc with addedToPool := true, verificationFailed := true }
            match p.addTransactionInputs id keptByBlock tx.inputs with
            | (false, p) => .ok (false, tvc, p)
            | (true, p) => .ok (true, { tvc with verificationFailed := false }, p)

/-- `add_tx(tx, tvc, keptByBlock, height)`: the id and blob size of the serialized transaction. -/
def addTransaction (p : TxPool) (s : Blockchain) (tx : Transaction) (keptByBlock : Bool) (height : UInt32) :
    Except Unit (Bool × TxVerificationContext × TxPool) :=
  p.addTx c cur cp now s tx (transactionHash c tx) (getObjectBinarySize (serializeTransaction tx)) keptByBlock height

end TxPool

/-- `core::check_tx_semantic(tx, keptByBlock, height)`: the height to admit
at, when the transaction passes. If the inputs do not cover the outputs at
`height`, the other deposit mode is tried (height `0` past
`END_MULTIPLIER_BLOCK`, `uint32_t(-1)` before), up to `depositHeightV4`. -/
def checkTxSemantic (c : Crypto) (cur : Currency) (tx : Transaction) (height : UInt32) : Option UInt32 :=
  let p := tx.toTransactionPrefix
  if p.inputs.isEmpty then none
  else if !checkInputsTypesSupported p then none
  else if !checkTxOutputs c cur p height then none
  else if !checkMoneyOverflow p then none
  else
    let amountOut := getOutsMoneyAmount p
    let admitted :=
      if cur.getTransactionAllInputsAmount p height < amountOut then
        let testHeight : UInt32 := if height > END_MULTIPLIER_BLOCK then 0 else 0xFFFFFFFF
        if height > cur.depositHeightV4 ∨ cur.getTransactionAllInputsAmount p testHeight < amountOut then none
        else some testHeight
      else some height
    match admitted with
    | none => none
    | some height =>
      if !checkTxInputsKeyimagesDiff p then none
      else if !checkMultisignatureInputsDiff p then none
      else some height

section Core

variable (c : Crypto) (cur : Currency) (cp : Checkpoints) (now : UInt64)

/-- `core::add_new_tx`: a transaction already in the chain or in the pool is
accepted as it is; any other goes to `add_tx`. -/
def addNewTx (s : Blockchain) (p : TxPool) (tx : Transaction) (txHash : Hash) (blobSize : UInt64)
    (keptByBlock : Bool) (height : UInt32) : Except Unit (Bool × TxVerificationContext × TxPool) :=
  if (s.transactionMap txHash).isSome then .ok (true, {}, p)
  else if p.haveTx txHash then .ok (true, {}, p)
  else p.addTx c cur cp now s tx txHash blobSize keptByBlock height

/-- `core::handleIncomingTransaction` (its syntax check accepts everything). -/
def handleIncomingTransaction (s : Blockchain) (p : TxPool) (tx : Transaction) (txHash : Hash)
    (blobSize : UInt64) (keptByBlock : Bool) (height : UInt32) :
    Except Unit (Bool × TxVerificationContext × TxPool) :=
  match checkTxSemantic c cur tx height with
  | none => .ok (false, { verificationFailed := true }, p)
  | some height => addNewTx c cur cp now s p tx txHash blobSize keptByBlock height

/-- `core::handle_incoming_tx(blob, tvc, keptByBlock)`: the blob is parsed
with `fromBinaryArray`, its id is the hash of the bytes, and the height is
that of the block holding it, or the current height. -/
def handleIncomingTx (s : Blockchain) (p : TxPool) (txBlob : List UInt8) (keptByBlock : Bool) :
    Except Unit (Bool × TxVerificationContext × TxPool) :=
  if txBlob.length.toUInt64 > cur.maxTxSize then .ok (false, { verificationFailed := true }, p)
  else
    match fromBinaryArrayTransaction txBlob with
    | none => .ok (false, { verificationFailed := true }, p)
    | some tx =>
      let txHash := c.cnFastHash txBlob
      let blockHeight :=
        match (s.transactionMap txHash).bind fun ti => s.blocks[ti.block.toNat]? with
        | some b => b.height
        | none => s.getCurrentBlockchainHeight
      handleIncomingTransaction c cur cp now s p tx txHash txBlob.length.toUInt64 keptByBlock blockHeight

end Core

end Cn
