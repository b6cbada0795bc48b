import ConcealCore.Spec.Types
import ConcealCore.Lib.Throwing

/-!
# The transfers container of a wallet

`TransfersContainer` keeps what a wallet knows of its own outputs: the
transactions it recorded (`m_transactions`), its outputs in three sets,
unconfirmed, available and spent, and for each available output a job at the
height where it unlocks (`m_transfersUnlockJobs`). Outputs that share a key
image are told apart by their `visible` flags, which `updateTransfersVisibility`
sets again whenever one of them comes or goes.

Each `boost::multi_index_container` is a list. The height index of the
transactions is the list's order: an insertion goes after every transaction at
or below its height, where `ordered_non_unique` links it, and `replace` leaves
an element in place while its new height still fits between its neighbours,
linking it after its height otherwise. The jobs are ordered by unlock height in
the same way. A hashed index gives the elements of one key in the list's order;
the source leaves that order to the hash table. An `emplace` that would repeat
the key of a unique index inserts nothing, as `result.second` is `false`
there.

A call that throws keeps what it changed before the throw: it returns the
`what()` of the exception with the container it leaves. The fields of a
transaction or an output that no function of the container reads (public keys,
extra, payment id, messages) are left out, as are the queries that read the
clock or the currency (`balance`, `getOutputs`, `getTransfer`).
-/

namespace Cn

open Throwing

/-- `WALLET_LEGACY_UNCONFIRMED_TRANSACTION_HEIGHT`: the height of a transaction
in no block. -/
def WALLET_LEGACY_UNCONFIRMED_TRANSACTION_HEIGHT : UInt32 := 4294967295

/-- `UNCONFIRMED_TRANSACTION_GLOBAL_OUTPUT_INDEX`: the global index of an output
in no block. -/
def UNCONFIRMED_TRANSACTION_GLOBAL_OUTPUT_INDEX : UInt32 := 4294967295

/-- `transaction_types::OutputType`. -/
inductive OutputType
  | invalid
  | key
  | multisignature
  deriving DecidableEq, Repr

structure TransactionOutputKey where
  transactionHash : Hash
  outputInTransaction : UInt32
  deriving DecidableEq, Repr

/-- `TransactionOutputInformation`, with the fields the container reads; `term`
is the field of a multisignature output. -/
structure TransactionOutputInformation where
  type : OutputType
  amount : UInt64
  globalOutputIndex : UInt32
  outputInTransaction : UInt32
  transactionHash : Hash
  term : UInt32
  deriving DecidableEq, Repr

/-- `TransactionOutputInformationIn`: an output as the consumer hands it in,
with the key image of a `Key` output. -/
structure TransactionOutputInformationIn extends TransactionOutputInformation where
  keyImage : KeyImage
  deriving DecidableEq, Repr

/-- `TransactionOutputInformationEx`: an output as the container keeps it. -/
structure TransactionOutputInformationEx extends TransactionOutputInformationIn where
  unlockTime : UInt64
  blockHeight : UInt32
  transactionIndex : UInt32
  visible : Bool
  deriving DecidableEq, Repr

structure TransactionBlockInfo where
  height : UInt32
  timestamp : UInt64
  transactionIndex : UInt32
  deriving DecidableEq, Repr

structure SpentTransactionOutput extends TransactionOutputInformationEx where
  spendingBlock : TransactionBlockInfo
  spendingTransactionHash : Hash
  inputInTransaction : UInt32
  deriving DecidableEq, Repr

structure TransferUnlockJob where
  unlockHeight : UInt32
  transactionOutputKey : TransactionOutputKey
  deriving DecidableEq, Repr

/-- `TransactionInformation`, with the fields the container sets and reads. -/
structure TransactionInformation where
  transactionHash : Hash
  blockHeight : UInt32
  timestamp : UInt64
  unlockTime : UInt64
  deriving DecidableEq, Repr

/-- `SpentOutputDescriptor`: a key output by its key image, a multisignature
output by its amount and global index. -/
inductive SpentOutputDescriptor
  | invalid
  | key (keyImage : KeyImage)
  | multisignature (amount : UInt64) (globalOutputIndex : UInt32)
  deriving DecidableEq, Repr

/-- `SpentOutputDescriptor(const TransactionOutputInformationIn&)`. -/
def TransactionOutputInformationIn.getSpentOutputDescriptor (t : TransactionOutputInformationIn) :
    SpentOutputDescriptor :=
  match t.type with
  | .key => .key t.keyImage
  | .multisignature => .multisignature t.amount t.globalOutputIndex
  | .invalid => .invalid

def TransactionOutputInformationEx.getTransactionOutputKey (t : TransactionOutputInformationEx) :
    TransactionOutputKey :=
  ⟨t.transactionHash, t.outputInTransaction⟩

/-- `ITransactionReader`: what the container reads of a transaction. An input
of the `BaseInput` alternative is of type `Generating`. -/
structure TransactionReader where
  transactionHash : Hash
  unlockTime : UInt64
  inputs : List TransactionInput
  deriving DecidableEq, Repr

structure TransfersContainer where
  /-- `m_transactions`, in the order of its height index. -/
  transactions : List TransactionInformation
  unconfirmedTransfers : List TransactionOutputInformationEx
  availableTransfers : List TransactionOutputInformationEx
  spentTransfers : List SpentTransactionOutput
  /-- `m_transfersUnlockJobs`, in the order of its unlock-height index. -/
  transfersUnlockJobs : List TransferUnlockJob
  currentHeight : UInt32
  transactionSpendableAge : UInt64
  deriving DecidableEq, Repr

namespace TransfersContainer

/-- `TransfersContainer(currency, transactionSpendableAge)`. -/
@[grind] def empty (transactionSpendableAge : UInt64) : TransfersContainer :=
  ⟨[], [], [], [], [], 0, transactionSpendableAge⟩

/-! ## The indexes -/

/-- `emplace` into the height index: after every transaction at or below its height. -/
def insertByHeight (v : TransactionInformation) : List TransactionInformation → List TransactionInformation
  | [] => [v]
  | u :: us => if v.blockHeight < u.blockHeight then v :: u :: us else u :: insertByHeight v us

/-- Whether a height still fits between the heights of its neighbours, the
`in_place` test of `replace` in an ordered non-unique index. -/
def fitsBetween (before after : Option UInt32) (h : UInt32) : Bool :=
  before.all (fun b => !(h < b)) && after.all (fun a => !(a < h))

/-- `m_transactions.replace(it, v)` for the transaction with the hash of `v`. -/
def replaceTransaction (txs : List TransactionInformation) (v : TransactionInformation) :
    List TransactionInformation :=
  let i := txs.findIdx (·.transactionHash = v.transactionHash)
  let before := txs.take i
  let after := txs.drop (i + 1)
  if fitsBetween (before.getLast?.map (·.blockHeight)) (after.head?.map (·.blockHeight)) v.blockHeight then
    before ++ v :: after
  else insertByHeight v (before ++ after)

/-- `emplace` into a set of transfers whose output keys are unique. -/
def emplaceTransfer (t : TransactionOutputInformationEx) (ts : List TransactionOutputInformationEx) :
    List TransactionOutputInformationEx :=
  if ts.any (·.getTransactionOutputKey = t.getTransactionOutputKey) then ts else ts ++ [t]

/-- The element `emplace` returns: the one already there with the output key, or
the one inserted. -/
def emplacedTransfer (t : TransactionOutputInformationEx) (ts : List TransactionOutputInformationEx) :
    TransactionOutputInformationEx :=
  (ts.find? (·.getTransactionOutputKey = t.getTransactionOutputKey)).getD t

/-- `emplace` into `m_spentTransfers`, unique by descriptor and by output key. -/
def emplaceSpent (t : SpentTransactionOutput) (ts : List SpentTransactionOutput) : List SpentTransactionOutput :=
  if ts.any (fun u => u.getSpentOutputDescriptor = t.getSpentOutputDescriptor ∨
      u.getTransactionOutputKey = t.getTransactionOutputKey) then ts
  else ts ++ [t]

/-- `emplace` into the unlock-height index: after every job at or below its height. -/
def insertJob (j : TransferUnlockJob) : List TransferUnlockJob → List TransferUnlockJob
  | [] => [j]
  | u :: us => if j.unlockHeight < u.unlockHeight then j :: u :: us else u :: insertJob j us

/-- `upper_bound(h)` of the unlock-height index: the position of the first job above `h`. -/
def upperBound (jobs : List TransferUnlockJob) (h : UInt32) : Nat :=
  (jobs.takeWhile (·.unlockHeight ≤ h)).length

/-! ## Unlock jobs and visibility -/

/-- `makeTransferUnlockJob`: an output unlocks at its unlock time, read as a
height, and not before `transactionSpendableAge` blocks and, for a deposit,
its term have passed. -/
def makeTransferUnlockJob (output : TransactionOutputInformationEx) (transactionSpendableAge : UInt32) :
    TransferUnlockJob :=
  let unlockTime : UInt32 := (if output.unlockTime = 0 then output.blockHeight.toUInt64 else output.unlockTime).toUInt32
  let unlockHeight :=
    if output.type = .multisignature ∧ output.term ≠ 0 then
      max (max unlockTime (output.blockHeight + output.term)) (output.blockHeight + transactionSpendableAge + 1)
    else max unlockTime (output.blockHeight + transactionSpendableAge + 1)
  ⟨unlockHeight, output.getTransactionOutputKey⟩

def addUnlockJob (c : TransfersContainer) (output : TransactionOutputInformationEx) : TransfersContainer :=
  let job := makeTransferUnlockJob output c.transactionSpendableAge.toUInt32
  if c.transfersUnlockJobs.any (·.transactionOutputKey = job.transactionOutputKey) then c
  else { c with transfersUnlockJobs := insertJob job c.transfersUnlockJobs }

def deleteUnlockJob (c : TransfersContainer) (output : TransactionOutputInformationEx) : TransfersContainer :=
  { c with
    transfersUnlockJobs := c.transfersUnlockJobs.eraseP (·.transactionOutputKey = output.getTransactionOutputKey) }

/-- `TransferIteratorList::lessTIterator`: an earlier block, or an earlier
place in the same block. -/
def lessTIterator (a b : TransactionOutputInformationEx) : Bool :=
  a.blockHeight < b.blockHeight || (a.blockHeight = b.blockHeight && a.transactionIndex < b.transactionIndex)

/-- `TransferIteratorList::minElement`: the first of the earliest transfers, as
`std::min_element` finds it. -/
def minElement : List TransactionOutputInformationEx → Option TransactionOutputInformationEx
  | [] => none
  | t :: ts => some (ts.foldl (fun m u => if lessTIterator u m then u else m) t)

/-- `sort()` and then `findFirstByAmount(amount)`: the earliest transfer of the
amount. `std::sort` leaves the order of equally early transfers open; a stable
sort keeps the list's, and the earliest is then `minElement` of them. -/
def findFirstByAmount (ts : List TransactionOutputInformationEx) (amount : UInt64) :
    Option TransactionOutputInformationEx :=
  minElement (ts.filter (·.amount = amount))

/-- `updateVisibility(collection, range, visible)` on the transfers of one descriptor. -/
def setVisibility (d : SpentOutputDescriptor) (visible : Bool) (ts : List TransactionOutputInformationEx) :
    List TransactionOutputInformationEx :=
  ts.map fun t => if t.getSpentOutputDescriptor = d then { t with visible } else t

/-- `updateTransfersVisibility(keyImage)`: of the transfers of a key image, the
spent one is visible if there is one; otherwise the earliest available one; an
unconfirmed one only when it is the only transfer of its key image. -/
def updateTransfersVisibility (c : TransfersContainer) (keyImage : KeyImage) : TransfersContainer :=
  let descriptor := SpentOutputDescriptor.key keyImage
  let unconfirmedCount := (c.unconfirmedTransfers.filter (·.getSpentOutputDescriptor = descriptor)).length
  let availableRange := c.availableTransfers.filter (·.getSpentOutputDescriptor = descriptor)
  let spentCount := (c.spentTransfers.filter (·.getSpentOutputDescriptor = descriptor)).length
  if spentCount > 0 then
    { c with
      unconfirmedTransfers := setVisibility descriptor false c.unconfirmedTransfers
      availableTransfers := setVisibility descriptor false c.availableTransfers
      spentTransfers := c.spentTransfers.map fun t =>
        if t.getSpentOutputDescriptor = descriptor then { t with visible := true } else t }
  else if availableRange.length > 0 then
    let earliestTransfer := minElement availableRange
    { c with
      unconfirmedTransfers := setVisibility descriptor false c.unconfirmedTransfers
      availableTransfers := c.availableTransfers.map fun t =>
        if t.getSpentOutputDescriptor = descriptor then
          { t with visible := earliestTransfer.any (·.getTransactionOutputKey = t.getTransactionOutputKey) }
        else t }
  else
    { c with unconfirmedTransfers := setVisibility descriptor (unconfirmedCount = 1) c.unconfirmedTransfers }

/-! ## Adding a transaction -/

/-- The private `addTransaction(block, tx, messages)`: the transaction is recorded. -/
def addTransactionInfo (c : TransfersContainer) (block : TransactionBlockInfo) (tx : TransactionReader) :
    TransfersContainer :=
  { c with
    transactions := insertByHeight ⟨tx.transactionHash, block.height, block.timestamp, tx.unlockTime⟩ c.transactions }

/-- One turn of the loop of `addTransactionOutputs`: an output of a
transaction in no block is unconfirmed, any other is available with its unlock
job, unless it is a multisignature output the container already has. -/
def addTransactionOutput (block : TransactionBlockInfo) (tx : TransactionReader)
    (transfer : TransactionOutputInformationIn) (c : TransfersContainer) :
    Except (String × TransfersContainer) TransfersContainer :=
  let transactionIsUnconfimed := decide (block.height = WALLET_LEGACY_UNCONFIRMED_TRANSACTION_HEIGHT)
  let transferIsUnconfirmed := decide (transfer.globalOutputIndex = UNCONFIRMED_TRANSACTION_GLOBAL_OUTPUT_INDEX)
  if transactionIsUnconfimed ≠ transferIsUnconfirmed then .error ("Bad transfer's globalOutputIndex", c)
  else
    let info : TransactionOutputInformationEx :=
      { toTransactionOutputInformationIn := { transfer with transactionHash := tx.transactionHash }
        unlockTime := tx.unlockTime
        blockHeight := block.height
        transactionIndex := block.transactionIndex
        visible := true }
    let updateVisibility (c : TransfersContainer) : TransfersContainer :=
      if info.type = .key then c.updateTransfersVisibility info.keyImage else c
    if transferIsUnconfirmed then
      .ok (updateVisibility { c with unconfirmedTransfers := emplaceTransfer info c.unconfirmedTransfers })
    else if info.type = .multisignature ∧
        (c.availableTransfers.any (·.getSpentOutputDescriptor = info.getSpentOutputDescriptor) ∨
          c.spentTransfers.any (·.getSpentOutputDescriptor = info.getSpentOutputDescriptor)) then
      .error ("Transfer already exists", c)
    else
      let c := c.addUnlockJob info
      .ok (updateVisibility { c with availableTransfers := emplaceTransfer info c.availableTransfers })

/-- `addTransactionOutputs`: whether there was an output, since every turn
that does not throw adds one. -/
def addTransactionOutputs (c : TransfersContainer) (block : TransactionBlockInfo) (tx : TransactionReader)
    (transfers : List TransactionOutputInformationIn) : Except (String × TransfersContainer) (Bool × TransfersContainer) :=
  match forEach (addTransactionOutput block tx) transfers c with
  | .error e => .error e
  | .ok c => .ok (!transfers.isEmpty, c)

/-- `copyToSpent(block, tx, inputIndex, output)`. -/
def copyToSpent (c : TransfersContainer) (block : TransactionBlockInfo) (tx : TransactionReader) (inputIndex : Nat)
    (output : TransactionOutputInformationEx) : TransfersContainer :=
  { c with
    spentTransfers := emplaceSpent
      { toTransactionOutputInformationEx := output
        spendingBlock := block
        spendingTransactionHash := tx.transactionHash
        inputInTransaction := inputIndex.toUInt32 } c.spentTransfers }

/-- An available transfer spent by input `inputIndex`: its job goes, and it
moves to the spent ones. -/
def spendAvailable (c : TransfersContainer) (block : TransactionBlockInfo) (tx : TransactionReader) (inputIndex : Nat)
    (t : TransactionOutputInformationEx) : TransfersContainer :=
  let c := (c.deleteUnlockJob t).copyToSpent block tx inputIndex t
  { c with availableTransfers := c.availableTransfers.eraseP (·.getTransactionOutputKey = t.getTransactionOutputKey) }

/-- One turn of the loop of `addTransactionInputs`, with whether an input spent
a transfer so far. A key input spends the earliest available transfer of its
key image and amount; one whose key image is spent, or only unconfirmed, throws. -/
def addTransactionInput (block : TransactionBlockInfo) (tx : TransactionReader) :
    TransactionInput × Nat → Bool × TransfersContainer → Except (String × Bool × TransfersContainer) (Bool × TransfersContainer)
  | (.key input, i), (inputsAdded, c) =>
    let descriptor := SpentOutputDescriptor.key input.keyImage
    if c.spentTransfers.any (·.getSpentOutputDescriptor = descriptor) then
      .error ("Spending already spent transfer", inputsAdded, c)
    else
      let availableRange := c.availableTransfers.filter (·.getSpentOutputDescriptor = descriptor)
      let unconfirmedCount := (c.unconfirmedTransfers.filter (·.getSpentOutputDescriptor = descriptor)).length
      if availableRange.length = 0 then
        if unconfirmedCount > 0 then .error ("Spending unconfirmed transfer", inputsAdded, c)
        -- the input spends no transfer of this container
        else .ok (inputsAdded, c)
      else
        match findFirstByAmount availableRange input.amount with
        | none => .error ("Input has invalid amount, corresponding output isn't found", inputsAdded, c)
        | some t => .ok (true, (c.spendAvailable block tx i t).updateTransfersVisibility input.keyImage)
  | (.multisignature input, i), (inputsAdded, c) =>
    match c.availableTransfers.find? (·.getSpentOutputDescriptor = .multisignature input.amount input.outputIndex) with
    | some t => .ok (true, c.spendAvailable block tx i t)
    | none => .ok (inputsAdded, c)
  | (.base _, _), st => .ok st

/-- `addTransactionInputs`: whether an input spent a transfer. -/
def addTransactionInputs (c : TransfersContainer) (block : TransactionBlockInfo) (tx : TransactionReader) :
    Except (String × TransfersContainer) (Bool × TransfersContainer) :=
  match forEach (addTransactionInput block tx) tx.inputs.zipIdx (false, c) with
  | .error (what, _, c) => .error (what, c)
  | .ok r => .ok r

/-- `getAvailableOutput(transactionOutputKey)`. -/
def getAvailableOutput (c : TransfersContainer) (key : TransactionOutputKey) : Except String TransactionOutputInformation :=
  match c.availableTransfers.find? (·.getTransactionOutputKey = key) with
  | some t => .ok t.toTransactionOutputInformation
  | none => .error "The output is supposed to be available"

/-- `getAvailableOutput` of each job, in order. -/
def availableOutputs (c : TransfersContainer) : List TransferUnlockJob → Except String (List TransactionOutputInformation)
  | [] => .ok []
  | j :: js =>
    match c.getAvailableOutput j.transactionOutputKey with
    | .error e => .error e
    | .ok o =>
      match availableOutputs c js with
      | .error e => .error e
      | .ok os => .ok (o :: os)

/-- `getUnlockingTransfers(prevHeight, currentHeight)`: the outputs whose jobs
fall between the two heights. -/
def getUnlockingTransfers (c : TransfersContainer) (prevHeight currentHeight : UInt32) :
    Except String (List TransactionOutputInformation) :=
  if currentHeight < prevHeight then .error "New height is less then current height"
  else
    let jobs := c.transfersUnlockJobs
    let start := if prevHeight = 0 then 0 else upperBound jobs (prevHeight + 1)
    let stop := upperBound jobs (currentHeight + 1)
    c.availableOutputs ((jobs.drop start).take (stop - start))

/-- `doAdvanceHeight(height)`, the body of `advanceHeight`. -/
def doAdvanceHeight (c : TransfersContainer) (height : UInt32) :
    Except (String × TransfersContainer) (List TransactionOutputInformation × TransfersContainer) :=
  if height < c.currentHeight then .error ("New height is less then current while advancing height", c)
  else
    let prevHeight := c.currentHeight
    let c := { c with currentHeight := height }
    match c.getUnlockingTransfers prevHeight height with
    | .error what => .error (what, c)
    | .ok outputs => .ok (outputs, c)

/-- `advanceHeight(height)`: the outputs that unlock. -/
def advanceHeight (c : TransfersContainer) (height : UInt32) :
    Except (String × TransfersContainer) (List TransactionOutputInformation × TransfersContainer) :=
  c.doAdvanceHeight height

/-- `addTransaction(block, tx, transfers, messages, unlockingTransfers)`: the
outputs, then the inputs; the transaction is recorded if either touched the
container, and a transaction in a block advances the height to its block. The
result is whether it was recorded, with the outputs that unlocked. -/
def addTransaction (c : TransfersContainer) (block : TransactionBlockInfo) (tx : TransactionReader)
    (transfers : List TransactionOutputInformationIn) :
    Except (String × TransfersContainer) ((Bool × List TransactionOutputInformation) × TransfersContainer) :=
  if block.height < c.currentHeight then .error ("Cannot add transaction from block < m_currentHeight", c)
  else if c.transactions.any (·.transactionHash = tx.transactionHash) then .error ("Transaction is already added", c)
  else
    match c.addTransactionOutputs block tx transfers with
    | .error e => .error e
    | .ok (outputsAdded, c) =>
      match c.addTransactionInputs block tx with
      | .error e => .error e
      | .ok (inputsAdded, c) =>
        let added := outputsAdded || inputsAdded
        let c := if added then c.addTransactionInfo block tx else c
        if block.height ≠ WALLET_LEGACY_UNCONFIRMED_TRANSACTION_HEIGHT then
          match c.doAdvanceHeight block.height with
          | .error e => .error e
          | .ok (finishedJobs, c) => .ok ((added, finishedJobs), c)
        else .ok ((added, []), c)

/-! ## Confirming and deleting transactions -/

/-- One turn of the first loop of `markTransactionConfirmed`: an unconfirmed
transfer of the transaction takes its block and global index and becomes
available. -/
def confirmTransfer (block : TransactionBlockInfo) (globalIndices : List UInt32)
    (transfer : TransactionOutputInformationEx) (c : TransfersContainer) :
    Except (String × TransfersContainer) TransfersContainer :=
  if transfer.outputInTransaction.toNat ≥ globalIndices.length then
    .error ("Not enough elements in globalIndices", c)
  else
    let transfer := { transfer with
      blockHeight := block.height
      transactionIndex := block.transactionIndex
      globalOutputIndex := globalIndices.getD transfer.outputInTransaction.toNat 0 }
    if transfer.type = .multisignature ∧
        (c.availableTransfers.any (·.getSpentOutputDescriptor = transfer.getSpentOutputDescriptor) ∨
          c.spentTransfers.any (·.getSpentOutputDescriptor = transfer.getSpentOutputDescriptor)) then
      .error ("Transfer already exists", c)
    else
      let c := c.addUnlockJob transfer
      let c := { c with
        availableTransfers := emplaceTransfer transfer c.availableTransfers
        unconfirmedTransfers :=
          c.unconfirmedTransfers.eraseP (·.getTransactionOutputKey = transfer.getTransactionOutputKey) }
      .ok (if transfer.type = .key then c.updateTransfersVisibility transfer.keyImage else c)

/-- `markTransactionConfirmed(block, transactionHash, globalIndices)`: a
recorded unconfirmed transaction moves to the block, and so do its outputs and
the transfers it spent. -/
def markTransactionConfirmed (c : TransfersContainer) (block : TransactionBlockInfo) (transactionHash : Hash)
    (globalIndices : List UInt32) : Except (String × TransfersContainer) (Bool × TransfersContainer) :=
  if block.height = WALLET_LEGACY_UNCONFIRMED_TRANSACTION_HEIGHT then
    .error ("Block height equals WALLET_LEGACY_UNCONFIRMED_TRANSACTION_HEIGHT", c)
  else
    match c.transactions.find? (·.transactionHash = transactionHash) with
    | none => .ok (false, c)
    | some txInfo =>
      if txInfo.blockHeight ≠ WALLET_LEGACY_UNCONFIRMED_TRANSACTION_HEIGHT then .ok (false, c)
      else
        let c := { c with
          transactions := replaceTransaction c.transactions
            { txInfo with blockHeight := block.height, timestamp := block.timestamp } }
        match forEach (confirmTransfer block globalIndices)
            (c.unconfirmedTransfers.filter (·.transactionHash = transactionHash)) c with
        | .error e => .error e
        | .ok c =>
          .ok (true, { c with
            spentTransfers := c.spentTransfers.map fun t =>
              if t.spendingTransactionHash = transactionHash then { t with spendingBlock := block } else t })

/-- One turn of the first loop of `deleteTransactionTransfers`: a transfer the
transaction spent is available again, with a new unlock job. -/
def unspendTransfer (c : TransfersContainer) (it : SpentTransactionOutput) : TransfersContainer :=
  let unspendingTransfer := it.toTransactionOutputInformationEx
  let c := c.addUnlockJob unspendingTransfer
  let result := emplacedTransfer unspendingTransfer c.availableTransfers
  let c := { c with
    availableTransfers := emplaceTransfer unspendingTransfer c.availableTransfers
    spentTransfers := c.spentTransfers.eraseP (·.getTransactionOutputKey = it.getTransactionOutputKey) }
  if result.type = .key then c.updateTransfersVisibility result.keyImage else c

/-- One turn of the second loop of `deleteTransactionTransfers`: an unconfirmed
output of the transaction goes. -/
def eraseUnconfirmedTransfer (c : TransfersContainer) (it : TransactionOutputInformationEx) : TransfersContainer :=
  let c := { c with
    unconfirmedTransfers := c.unconfirmedTransfers.eraseP (·.getTransactionOutputKey = it.getTransactionOutputKey) }
  if it.type = .key then c.updateTransfersVisibility it.keyImage else c

/-- One turn of the third loop of `deleteTransactionTransfers`: an available
output of the transaction goes, with its unlock job. -/
def eraseAvailableTransfer (c : TransfersContainer) (it : TransactionOutputInformationEx) : TransfersContainer :=
  let c := c.deleteUnlockJob it
  let c := { c with
    availableTransfers := c.availableTransfers.eraseP (·.getTransactionOutputKey = it.getTransactionOutputKey) }
  if it.type = .key then c.updateTransfersVisibility it.keyImage else c

/-- `deleteTransactionTransfers(transactionHash)`: what the transaction spent is
available again, and its own unconfirmed and available outputs go. Each loop
walks the transfers of the transaction as they are when it starts. -/
def deleteTransactionTransfers (c : TransfersContainer) (transactionHash : Hash) : TransfersContainer :=
  let c := (c.spentTransfers.filter (·.spendingTransactionHash = transactionHash)).foldl unspendTransfer c
  let c := (c.unconfirmedTransfers.filter (·.transactionHash = transactionHash)).foldl eraseUnconfirmedTransfer c
  (c.availableTransfers.filter (·.transactionHash = transactionHash)).foldl eraseAvailableTransfer c

/-- A recorded transaction deleted: its transfers, then its record. -/
def deleteTransaction (c : TransfersContainer) (t : TransactionInformation) : TransfersContainer :=
  let c := c.deleteTransactionTransfers t.transactionHash
  { c with transactions := c.transactions.eraseP (·.transactionHash = t.transactionHash) }

/-- `deleteUnconfirmedTransaction(transactionHash)`. -/
def deleteUnconfirmedTransaction (c : TransfersContainer) (transactionHash : Hash) : Bool × TransfersContainer :=
  match c.transactions.find? (·.transactionHash = transactionHash) with
  | none => (false, c)
  | some t =>
    if t.blockHeight ≠ WALLET_LEGACY_UNCONFIRMED_TRANSACTION_HEIGHT then (false, c)
    else (true, c.deleteTransaction t)

/-- The walk of `detach(height)` down the height index from its end, over the
transactions as they are when it starts: an unconfirmed transaction goes if it
spent a transfer from a block at `height` or above, a confirmed one if its
block is there; the first confirmed transaction below `height` ends the walk. -/
def detachLoop (height : UInt32) :
    List TransactionInformation → TransfersContainer → List Hash → TransfersContainer × List Hash
  | [], c, deleted => (c, deleted)
  | t :: ts, c, deleted =>
    if t.blockHeight = WALLET_LEGACY_UNCONFIRMED_TRANSACTION_HEIGHT then
      if (c.spentTransfers.filter (·.spendingTransactionHash = t.transactionHash)).any (·.blockHeight ≥ height) then
        detachLoop height ts (c.deleteTransaction t) (deleted ++ [t.transactionHash])
      else detachLoop height ts c deleted
    else if t.blockHeight ≥ height then
      detachLoop height ts (c.deleteTransaction t) (deleted ++ [t.transactionHash])
    else (c, deleted)

/-- `getLockingTransfers(prevHeight, currentHeight, deletedTransactions,
lockingTransfers)`: after a drop in height, the outputs whose jobs fall between
the two heights, appended. -/
def getLockingTransfers (c : TransfersContainer) (prevHeight currentHeight : UInt32)
    (lockingTransfers : List TransactionOutputInformation) : Except String (List TransactionOutputInformation) :=
  if currentHeight > prevHeight then .ok lockingTransfers
  else
    let jobs := c.transfersUnlockJobs
    let start := upperBound jobs (currentHeight + 1)
    let stop := upperBound jobs (prevHeight + 1)
    match c.availableOutputs ((jobs.drop start).take (stop - start)) with
    | .error e => .error e
    | .ok os => .ok (lockingTransfers ++ os)

/-- `detach(height, deletedTransactions, lockedTransfers)`: the transactions
from `height` on go, the height drops below it, and the outputs whose jobs
fall between the two heights are reported locked again. -/
def detach (c : TransfersContainer) (height : UInt32) (deletedTransactions : List Hash)
    (lockedTransfers : List TransactionOutputInformation) :
    Except (String × TransfersContainer) ((List Hash × List TransactionOutputInformation) × TransfersContainer) :=
  let (c, deletedTransactions) := detachLoop height c.transactions.reverse c deletedTransactions
  let prevHeight := c.currentHeight
  let c := { c with currentHeight := if height = 0 then 0 else height - 1 }
  match c.getLockingTransfers prevHeight c.currentHeight lockedTransfers with
  | .error what => .error (what, c)
  | .ok lockedTransfers => .ok ((deletedTransactions, lockedTransfers), c)

end TransfersContainer

end Cn
