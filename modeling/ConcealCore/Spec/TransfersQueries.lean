import ConcealCore.Spec.TransfersContainer
import ConcealCore.Spec.Currency

/-!
# Queries of the transfers container

`isSpendTimeUnlocked` reads an output's unlock time as a height or as a time,
against the container's height or the clock (`time(NULL)`, here `now`), and
holds a deposit until its term has passed. `isIncluded` classifies an output as
locked, soft-locked (younger than `transactionSpendableAge` blocks) or unlocked,
and filters it by type and state. `getTransfer` looks a transfer up by its key
in the available, the unconfirmed and the spent set, in that order.

Dereferencing an end iterator is undefined behaviour; the model answers
`.error ()` there.
-/

namespace Cn

/-- `ITransfersContainer::TransferState`. -/
inductive TransferState
  | transferUnconfirmed
  | transferLocked
  | transferAvailable
  | transferSpent
  deriving DecidableEq, Repr

/-! The state flags of `ITransfersContainer::Flags`. -/

def IncludeStateUnlocked : UInt32 := 0x01
def IncludeStateLocked : UInt32 := 0x02
def IncludeStateSoftLocked : UInt32 := 0x04

/-! The type flags. -/

def IncludeTypeKey : UInt32 := 0x100
def IncludeTypeMultisignature : UInt32 := 0x200
def IncludeTypeDeposit : UInt32 := 0x400

namespace TransfersContainer

variable (cur : Currency) (now : UInt64)

/-- `isSpendTimeUnlocked(info)`: an unlock time below `maxBlockHeight` is a
block index, any other a time; a deposit is held until its term has passed. -/
def isSpendTimeUnlocked (c : TransfersContainer) (info : TransactionOutputInformationEx) : Bool :=
  let isOuputUnlocked :=
    if info.unlockTime < cur.maxBlockHeight then
      decide (c.currentHeight.toUInt64 + cur.lockedTxAllowedDeltaBlocks ≥ info.unlockTime)
    else decide (now + cur.lockedTxAllowedDeltaSeconds ≥ info.unlockTime)
  if isOuputUnlocked ∧ info.type = .multisignature ∧ info.term ≠ 0 then
    decide (c.currentHeight + 1 ≥ info.blockHeight + info.term)
  else isOuputUnlocked

/-- The state `isIncluded(info, flags)` gives an output before it filters. -/
def includeState (c : TransfersContainer) (info : TransactionOutputInformationEx) : UInt32 :=
  if info.blockHeight = WALLET_LEGACY_UNCONFIRMED_TRANSACTION_HEIGHT ∨ !c.isSpendTimeUnlocked cur now info then
    IncludeStateLocked
  else if c.currentHeight.toUInt64 < info.blockHeight.toUInt64 + c.transactionSpendableAge then IncludeStateSoftLocked
  else IncludeStateUnlocked

/-- The static `isIncluded(output, state, flags)`: the output's type and state
both among the flags. -/
def isIncludedState (output : TransactionOutputInformationEx) (state flags : UInt32) : Bool :=
  ((flags &&& IncludeTypeKey ≠ 0 ∧ output.type = .key) ∨
      (flags &&& IncludeTypeMultisignature ≠ 0 ∧ output.type = .multisignature ∧ output.term = 0) ∨
      (flags &&& IncludeTypeDeposit ≠ 0 ∧ output.type = .multisignature ∧ output.term > 0)) ∧
    flags &&& state ≠ 0

/-- `isIncluded(info, flags)`. -/
def isIncluded (c : TransfersContainer) (info : TransactionOutputInformationEx) (flags : UInt32) : Bool :=
  isIncludedState info (c.includeState cur now info) flags

/-- `getTransfer(transactionHash, outputInTransaction, transfer, transferState)`:
the transfer and its state when the key is in one of the three sets, `none`
when it is in none. -/
@[grind] def getTransfer (c : TransfersContainer) (transactionHash : Hash) (outputInTransaction : UInt32) :
    Except Unit (Option (TransactionOutputInformation × TransferState)) :=
  let transferId : TransactionOutputKey := ⟨transactionHash, outputInTransaction⟩
  match c.availableTransfers.find? (·.getTransactionOutputKey = transferId) with
  | some t =>
    let transferState :=
      if !c.isSpendTimeUnlocked cur now t ∨
          c.currentHeight.toUInt64 < t.blockHeight.toUInt64 + c.transactionSpendableAge then
        TransferState.transferLocked
      else .transferAvailable
    .ok (some (t.toTransactionOutputInformation, transferState))
  | none =>
    match c.unconfirmedTransfers.find? (·.getTransactionOutputKey = transferId) with
    | some t => .ok (some (t.toTransactionOutputInformation, .transferUnconfirmed))
    | none =>
      match c.spentTransfers.find? (·.getTransactionOutputKey = transferId) with
      -- the branch copies from unconfirmedIt, the end of the unconfirmed index
      | some _ => .error ()
      | none => .ok none

end TransfersContainer

end Cn
