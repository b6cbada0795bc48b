import ConcealCore.Spec.TransfersContainer
import ConcealCore.Spec.Deserialization
import ConcealCore.Lib.TimeIndex

/-!
# Saving and loading the transfers container

`TransfersContainer::save` writes, with the `BinaryOutputStreamSerializer`, the
storage version, the height and the five containers as sequences
(`writeSequence`: the count, then the elements). `load` reads them with the
`BinaryInputStreamSerializer` into fresh containers through `std::inserter`,
and only then replaces the container's own; a storage of version `0` has no
unlock jobs, which `rebuildTransfersUnlockJobs` then makes from the available
and the spent transfers.

The records are stored with every field their `serialize` writes, also those
that no other function of the container reads (`StoredTransfersContainer`);
`toTransfersContainer` forgets them. A record read by `load` starts as the
default element, and the fields its `serialize` does not read for its output
type (the union of `outputKey` with `requiredSignatures` and `term`) keep the
zero of the model (`StoredOutput.typed`); the source leaves them
uninitialized. A hashed index is iterated in the list's order, as elsewhere in
the model. Every `throw` of the reader, and the version check, is a failure
(`none`): the container keeps its contents.
-/

open Codec

namespace Cn

def TRANSFERS_CONTAINER_STORAGE_VERSION : UInt32 := 1

/-! ## The stored records -/

/-- `TransactionInformation` with the fields its `serialize` writes and the
container does not read. -/
structure StoredTransactionInformation extends TransactionInformation where
  publicKey : PublicKey
  totalAmountIn : UInt64
  totalAmountOut : UInt64
  extra : List UInt8
  paymentId : Hash
  messages : List (List UInt8)
  deriving DecidableEq, Repr

/-- `TransactionOutputInformationEx` with the transaction's public key and the
fields of the union that the container does not read. -/
structure StoredOutput extends TransactionOutputInformationEx where
  transactionPublicKey : PublicKey
  outputKey : PublicKey
  requiredSignatures : UInt32
  deriving DecidableEq, Repr

structure StoredSpentOutput extends StoredOutput where
  spendingBlock : TransactionBlockInfo
  spendingTransactionHash : Hash
  inputInTransaction : UInt32
  deriving DecidableEq, Repr

/-- The container with its records as they are stored. -/
structure StoredTransfersContainer where
  transactions : List StoredTransactionInformation
  unconfirmedTransfers : List StoredOutput
  availableTransfers : List StoredOutput
  spentTransfers : List StoredSpentOutput
  transfersUnlockJobs : List TransferUnlockJob
  currentHeight : UInt32
  transactionSpendableAge : UInt64
  deriving DecidableEq, Repr

def StoredSpentOutput.toSpentTransactionOutput (t : StoredSpentOutput) : SpentTransactionOutput :=
  { toTransactionOutputInformationEx := t.toTransactionOutputInformationEx
    spendingBlock := t.spendingBlock
    spendingTransactionHash := t.spendingTransactionHash
    inputInTransaction := t.inputInTransaction }

/-- The container the other functions of the model work on. -/
def StoredTransfersContainer.toTransfersContainer (c : StoredTransfersContainer) : TransfersContainer :=
  ⟨c.transactions.map (·.toTransactionInformation), c.unconfirmedTransfers.map (·.toTransactionOutputInformationEx),
    c.availableTransfers.map (·.toTransactionOutputInformationEx), c.spentTransfers.map (·.toSpentTransactionOutput),
    c.transfersUnlockJobs, c.currentHeight, c.transactionSpendableAge⟩

def zeroPublicKey : PublicKey := ⟨Vector.replicate 32 0⟩

/-- An output with the fields its type does not serialize at their zero. -/
@[grind] def StoredOutput.typed (t : StoredOutput) : StoredOutput :=
  match t.type with
  | .key => { t with requiredSignatures := 0, term := 0 }
  | .multisignature => { t with outputKey := zeroPublicKey }
  | .invalid => { t with outputKey := zeroPublicKey, requiredSignatures := 0, term := 0 }

@[grind] def StoredSpentOutput.typed (t : StoredSpentOutput) : StoredSpentOutput :=
  { t with toStoredOutput := t.toStoredOutput.typed }

/-- The container with every output in its `typed` form. -/
@[grind] def StoredTransfersContainer.typed (c : StoredTransfersContainer) : StoredTransfersContainer :=
  { c with
    unconfirmedTransfers := c.unconfirmedTransfers.map StoredOutput.typed
    availableTransfers := c.availableTransfers.map StoredOutput.typed
    spentTransfers := c.spentTransfers.map StoredSpentOutput.typed }

/-! ## Writing -/

/-- `serializeBlockHeight` on output: the height as a `uint32_t`. -/
def writeBlockHeight (blockHeight : UInt32) : List UInt8 := writeVarint blockHeight.toNat

/-- `operator()(bool&)`: one byte. -/
def writeBool (value : Bool) : List UInt8 := [if value then 1 else 0]

/-- `transaction_types::OutputType` as its `uint8_t`. -/
def OutputType.toUInt8 : OutputType → UInt8
  | .invalid => 0
  | .key => 1
  | .multisignature => 2

/-- `serialize(TransactionInformation&)`: `extra` is a `std::vector<uint8_t>`,
a sequence of one-byte integers; the messages are strings. -/
def serializeTransactionInformation (ti : StoredTransactionInformation) : List UInt8 :=
  ti.transactionHash.bytes ++ ti.publicKey.bytes ++ writeBlockHeight ti.blockHeight ++
    writeVarint ti.timestamp.toNat ++ writeVarint ti.unlockTime.toNat ++ writeVarint ti.totalAmountIn.toNat ++
    writeVarint ti.totalAmountOut.toNat ++ serializeVector (fun b => writeVarint b.toNat) ti.extra ++
    ti.paymentId.bytes ++ serializeVector serializeAsBinary ti.messages

/-- `TransactionOutputInformationEx::serialize`: the output key of a `Key`
output, the signature count and the term of a `Multisignature` one. -/
def serializeOutput (t : StoredOutput) : List UInt8 :=
  writeVarint t.type.toUInt8.toNat ++ writeVarint t.amount.toNat ++ writeBlockHeight t.globalOutputIndex ++
    writeVarint t.outputInTransaction.toNat ++ t.transactionPublicKey.bytes ++ t.keyImage.bytes ++
    writeVarint t.unlockTime.toNat ++ writeBlockHeight t.blockHeight ++ writeVarint t.transactionIndex.toNat ++
    t.transactionHash.bytes ++ writeBool t.visible ++
    match t.type with
    | .key => t.outputKey.bytes
    | .multisignature => writeVarint t.requiredSignatures.toNat ++ writeVarint t.term.toNat
    | .invalid => []

/-- `TransactionBlockInfo::serialize`. -/
def serializeTransactionBlockInfo (b : TransactionBlockInfo) : List UInt8 :=
  writeBlockHeight b.height ++ writeVarint b.timestamp.toNat ++ writeVarint b.transactionIndex.toNat

/-- `SpentTransactionOutput::serialize`. -/
def serializeSpentOutput (t : StoredSpentOutput) : List UInt8 :=
  serializeOutput t.toStoredOutput ++ serializeTransactionBlockInfo t.spendingBlock ++
    t.spendingTransactionHash.bytes ++ writeVarint t.inputInTransaction.toNat

/-- `TransferUnlockJob::serialize`, with `TransactionOutputKey::serialize`. -/
def serializeTransferUnlockJob (j : TransferUnlockJob) : List UInt8 :=
  writeVarint j.unlockHeight.toNat ++ j.transactionOutputKey.transactionHash.bytes ++
    writeVarint j.transactionOutputKey.outputInTransaction.toNat

/-- The height and the four sequences of transactions and transfers. -/
@[grind] def writeRecords (c : StoredTransfersContainer) : List UInt8 :=
  writeVarint c.currentHeight.toNat ++ serializeVector serializeTransactionInformation c.transactions ++
    serializeVector serializeOutput c.unconfirmedTransfers ++ serializeVector serializeOutput c.availableTransfers ++
    serializeVector serializeSpentOutput c.spentTransfers

/-- `TransfersContainer::save`. -/
@[grind] def save (c : StoredTransfersContainer) : List UInt8 :=
  writeVarint TRANSFERS_CONTAINER_STORAGE_VERSION.toNat ++ writeRecords c ++
    serializeVector serializeTransferUnlockJob c.transfersUnlockJobs

/-- The same records in the storage of version `0`, which had no unlock jobs. -/
def saveVersion0 (c : StoredTransfersContainer) : List UInt8 := writeVarint 0 ++ writeRecords c

/-! ## Reading -/

/-- `serializeBlockHeight` on input: a 64-bit varint, whose largest value is
read as the largest `uint32_t`; any other value above it throws. -/
def readBlockHeight : Reader UInt8 UInt32 := fun bs => do
  let (height, bs) ← readVarint 64 bs
  if height = 2 ^ 64 - 1 then some (4294967295, bs)
  else if height > 2 ^ 32 - 1 ∧ height < 2 ^ 64 - 1 then none
  else some (UInt32.ofNat height, bs)

/-- `operator()(bool&)` on input: any byte but zero is `true`. -/
def readBool : Reader UInt8 Bool := fun bs => do
  let (b, bs) ← readTokens 1 bs
  match b with
  | [v] => some (v != 0, bs)
  | _ => none

/-- The `uint8_t` read into the enumeration. A value past `Multisignature` is
none of the three; like `Invalid`, it is neither of the types that `serialize`
and the container test for. -/
def OutputType.ofUInt8 (v : UInt8) : OutputType :=
  if v = 1 then .key else if v = 2 then .multisignature else .invalid

def readTransactionInformation : Reader UInt8 StoredTransactionInformation := fun bs => do
  let (transactionHash, bs) ← readHash bs
  let (publicKey, bs) ← readPublicKey bs
  let (blockHeight, bs) ← readBlockHeight bs
  let (timestamp, bs) ← readUInt64 bs
  let (unlockTime, bs) ← readUInt64 bs
  let (totalAmountIn, bs) ← readUInt64 bs
  let (totalAmountOut, bs) ← readUInt64 bs
  let (extra, bs) ← readArray readUInt8 bs
  let (paymentId, bs) ← readHash bs
  let (messages, bs) ← readArray readString bs
  let ti : StoredTransactionInformation :=
    { transactionHash := transactionHash, blockHeight := blockHeight, timestamp := timestamp,
      unlockTime := unlockTime, publicKey := publicKey, totalAmountIn := totalAmountIn,
      totalAmountOut := totalAmountOut, extra := extra, paymentId := paymentId, messages := messages }
  pure (ti, bs)

/-- The fields after `visible` for each output type: the output key, or the
signature count and the term. -/
def readOutputTail : OutputType → Reader UInt8 (PublicKey × UInt32 × UInt32)
  | .key => fun bs => (readPublicKey bs).map fun (outputKey, bs) => ((outputKey, 0, 0), bs)
  | .multisignature => fun bs => do
    let (requiredSignatures, bs) ← readUInt32 bs
    let (term, bs) ← readUInt32 bs
    pure ((zeroPublicKey, requiredSignatures, term), bs)
  | .invalid => fun bs => some ((zeroPublicKey, 0, 0), bs)

def readOutput : Reader UInt8 StoredOutput := fun bs => do
  let (type, bs) ← readUInt8 bs
  let type := OutputType.ofUInt8 type
  let (amount, bs) ← readUInt64 bs
  let (globalOutputIndex, bs) ← readBlockHeight bs
  let (outputInTransaction, bs) ← readUInt32 bs
  let (transactionPublicKey, bs) ← readPublicKey bs
  let (keyImage, bs) ← readKeyImage bs
  let (unlockTime, bs) ← readUInt64 bs
  let (blockHeight, bs) ← readBlockHeight bs
  let (transactionIndex, bs) ← readUInt32 bs
  let (transactionHash, bs) ← readHash bs
  let (visible, bs) ← readBool bs
  let ((outputKey, requiredSignatures, term), bs) ← readOutputTail type bs
  let t : StoredOutput :=
    { type := type, amount := amount, globalOutputIndex := globalOutputIndex,
      outputInTransaction := outputInTransaction, transactionHash := transactionHash, term := term,
      keyImage := keyImage, unlockTime := unlockTime, blockHeight := blockHeight,
      transactionIndex := transactionIndex, visible := visible, transactionPublicKey := transactionPublicKey,
      outputKey := outputKey, requiredSignatures := requiredSignatures }
  pure (t, bs)

def readTransactionBlockInfo : Reader UInt8 TransactionBlockInfo := fun bs => do
  let (height, bs) ← readBlockHeight bs
  let (timestamp, bs) ← readUInt64 bs
  let (transactionIndex, bs) ← readUInt32 bs
  pure (⟨height, timestamp, transactionIndex⟩, bs)

def readSpentOutput : Reader UInt8 StoredSpentOutput := fun bs => do
  let (output, bs) ← readOutput bs
  let (spendingBlock, bs) ← readTransactionBlockInfo bs
  let (spendingTransactionHash, bs) ← readHash bs
  let (inputInTransaction, bs) ← readUInt32 bs
  let t : StoredSpentOutput :=
    { toStoredOutput := output, spendingBlock := spendingBlock, spendingTransactionHash := spendingTransactionHash,
      inputInTransaction := inputInTransaction }
  pure (t, bs)

def readTransferUnlockJob : Reader UInt8 TransferUnlockJob := fun bs => do
  let (unlockHeight, bs) ← readUInt32 bs
  let (transactionHash, bs) ← readHash bs
  let (outputInTransaction, bs) ← readUInt32 bs
  pure (⟨unlockHeight, ⟨transactionHash, outputInTransaction⟩⟩, bs)

/-! ## The containers `load` fills -/

/-- An insert into `TransactionMultiIndex`: refused for a hash already there;
the height index links it after every transaction at or below its height. -/
def insertTransaction (v : StoredTransactionInformation) (txs : List StoredTransactionInformation) :
    List StoredTransactionInformation :=
  if txs.any (·.transactionHash = v.transactionHash) then txs
  else TimeIndex.insertAfter (fun t => t.blockHeight.toNat) v txs

/-- An insert into the unconfirmed or the available transfers: refused for an
output key already there. -/
def insertOutput (t : StoredOutput) (ts : List StoredOutput) : List StoredOutput :=
  if ts.any (·.getTransactionOutputKey = t.getTransactionOutputKey) then ts else ts ++ [t]

/-- An insert into the spent transfers, unique by descriptor and by output key. -/
def insertSpentOutput (t : StoredSpentOutput) (ts : List StoredSpentOutput) : List StoredSpentOutput :=
  if ts.any (fun u => u.getSpentOutputDescriptor = t.getSpentOutputDescriptor ∨
      u.getTransactionOutputKey = t.getTransactionOutputKey) then ts
  else ts ++ [t]

/-- An insert into `TransfersUnlockMultiIndex`: refused for an output key
already there; the height index links it after every job at or below its
height. -/
def insertTransferUnlockJob (j : TransferUnlockJob) (jobs : List TransferUnlockJob) : List TransferUnlockJob :=
  if jobs.any (·.transactionOutputKey = j.transactionOutputKey) then jobs
  else TransfersContainer.insertJob j jobs

/-- `readSequence` through `std::inserter`: the count, then each element read
and inserted. A throw ends `load`, so reading every element before inserting
any gives the same. -/
def readSequence {α : Type} (read : Reader UInt8 α) (insert : α → List α → List α) : Reader UInt8 (List α) :=
  fun bs => (readArray read bs).map fun (elements, bs) => (elements.foldl (fun acc e => insert e acc) [], bs)

/-- `rebuildTransfersUnlockJobs`: a job for every available transfer, then for
every spent one. -/
def rebuildTransfersUnlockJobs (transactionSpendableAge : UInt64) (availableTransfers : List StoredOutput)
    (spentTransfers : List StoredSpentOutput) : List TransferUnlockJob :=
  let job (t : TransactionOutputInformationEx) :=
    TransfersContainer.makeTransferUnlockJob t transactionSpendableAge.toUInt32
  let jobs := availableTransfers.foldl (fun jobs t => insertTransferUnlockJob (job t.toTransactionOutputInformationEx) jobs) []
  spentTransfers.foldl (fun jobs t => insertTransferUnlockJob (job t.toTransactionOutputInformationEx) jobs) jobs

/-- `TransfersContainer::load`: the container after it, or `none` when it
throws. -/
def load (c : StoredTransfersContainer) (bs : List UInt8) : Option StoredTransfersContainer := do
  let (version, bs) ← readUInt32 bs
  if version > TRANSFERS_CONTAINER_STORAGE_VERSION then none
  else
    let (currentHeight, bs) ← readUInt32 bs
    let (transactions, bs) ← readSequence readTransactionInformation insertTransaction bs
    let (unconfirmedTransfers, bs) ← readSequence readOutput insertOutput bs
    let (availableTransfers, bs) ← readSequence readOutput insertOutput bs
    let (spentTransfers, bs) ← readSequence readSpentOutput insertSpentOutput bs
    let transfersUnlockJobs ←
      if version ≠ 0 then (readSequence readTransferUnlockJob insertTransferUnlockJob bs).map (·.1)
      else some (rebuildTransfersUnlockJobs c.transactionSpendableAge availableTransfers spentTransfers)
    pure { c with
      currentHeight := currentHeight, transactions := transactions, unconfirmedTransfers := unconfirmedTransfers,
      availableTransfers := availableTransfers, spentTransfers := spentTransfers,
      transfersUnlockJobs := transfersUnlockJobs }

end Cn
