import ConcealCore.Spec.TransfersContainer
import ConcealCore.Spec.TransfersQueries

/-!
# What the transfers container keeps, and what it loses

No turn of the loops over a transaction's outputs and inputs touches the
records of the transactions or the height (`records`). `addTransaction` writes
its record after both loops, so a throw of it keeps the records
(`addTransaction_error_records`), though not the transfers the loops moved.
`markTransactionConfirmed` moves a transaction to its block before it looks at
the transaction's outputs, and a throw from that loop keeps the move: every
throw past the first check leaves the transaction recorded at the new block
(`markTransactionConfirmed_error_confirms`).

`getTransfer` finds an available transfer with the state `isIncluded` gives
it (`Consistent.getTransfer_of_available`) and an unconfirmed one as such, but a
transfer found only among the spent ones is read through the end iterator of
the unconfirmed index (`getTransfer_spent`).

`Step` is a call of the container that returns normally, made as a consumer
makes it, and `Reachable` what such calls reach from a new container. Runs show
what the container does not keep:

* `detach_strands_spent_transfer`: a transaction confirmed below the block of
  the transaction it spends survives a `detach` that deletes the other, so a
  spent transfer stays behind without its transaction;
* `markTransactionConfirmed_throw_changes_transactions`: a throw of
  `markTransactionConfirmed` changes `m_transactions`;
* `detach_after_adds_moves_visibility`: adding a block that spends one of two
  outputs under one key image and detaching it again brings every transfer
  back, but the other output visible;
* `getTransfer_spent_reads_end`: a spent transfer of a consistent container is
  looked up through an end iterator.
-/

namespace Cn

namespace TransfersContainer

open Throwing

/-! ## What the loops leave alone -/

/-- The records of the transactions and the height: what no turn of the loops
over a transaction's outputs and inputs touches. -/
@[grind] def records (c : TransfersContainer) : List TransactionInformation × UInt32 :=
  (c.transactions, c.currentHeight)

@[simp] theorem transactions_addUnlockJob (c : TransfersContainer) (o : TransactionOutputInformationEx) :
    (c.addUnlockJob o).transactions = c.transactions := by
  unfold addUnlockJob
  dsimp only
  split <;> rfl

@[simp] theorem currentHeight_addUnlockJob (c : TransfersContainer) (o : TransactionOutputInformationEx) :
    (c.addUnlockJob o).currentHeight = c.currentHeight := by
  unfold addUnlockJob
  dsimp only
  split <;> rfl

@[simp] theorem transactions_updateTransfersVisibility (c : TransfersContainer) (k : KeyImage) :
    (c.updateTransfersVisibility k).transactions = c.transactions := by
  unfold updateTransfersVisibility
  dsimp only
  split_ifs <;> rfl

@[simp] theorem currentHeight_updateTransfersVisibility (c : TransfersContainer) (k : KeyImage) :
    (c.updateTransfersVisibility k).currentHeight = c.currentHeight := by
  unfold updateTransfersVisibility
  dsimp only
  split_ifs <;> rfl

/-- A turn of the loop of `addTransactionOutputs` leaves the records alone,
whether it returns or throws. -/
theorem addTransactionOutput_records (block : TransactionBlockInfo) (tx : TransactionReader)
    (transfer : TransactionOutputInformationIn) (c : TransfersContainer) :
    (after (addTransactionOutput block tx transfer c)).records = c.records := by
  unfold addTransactionOutput
  dsimp only
  split_ifs <;> simp only [records, after_ok, after_error, transactions_updateTransfersVisibility,
    currentHeight_updateTransfersVisibility, transactions_addUnlockJob, currentHeight_addUnlockJob]

/-- A turn of the loop of `addTransactionInputs` leaves the records alone. -/
theorem addTransactionInput_records (block : TransactionBlockInfo) (tx : TransactionReader)
    (a : TransactionInput × Nat) (st : Bool × TransfersContainer) :
    (after (addTransactionInput block tx a st)).2.records = st.2.records := by
  obtain ⟨b, c⟩ := st
  obtain ⟨input | input | input, i⟩ := a
  · rfl
  -- a key input spends the earliest transfer of its key image, or throws before it touches one
  · unfold addTransactionInput
    dsimp only
    split_ifs
    · rfl
    · rfl
    · rfl
    · split
      · rfl
      · simp only [records, after_ok, transactions_updateTransfersVisibility, currentHeight_updateTransfersVisibility]
        rfl
  · unfold addTransactionInput
    dsimp only
    split <;> rfl

/-- A turn of the loop of `markTransactionConfirmed` leaves the records alone. -/
theorem confirmTransfer_records (block : TransactionBlockInfo) (globalIndices : List UInt32)
    (t : TransactionOutputInformationEx) (c : TransfersContainer) :
    (after (confirmTransfer block globalIndices t c)).records = c.records := by
  unfold confirmTransfer
  dsimp only
  split_ifs <;> simp only [records, after_ok, after_error, transactions_updateTransfersVisibility,
    currentHeight_updateTransfersVisibility, transactions_addUnlockJob, currentHeight_addUnlockJob]

theorem addTransactionOutputs_error_records {c c' : TransfersContainer} {block : TransactionBlockInfo}
    {tx : TransactionReader} {transfers : List TransactionOutputInformationIn} {what : String}
    (h : c.addTransactionOutputs block tx transfers = .error (what, c')) : c'.records = c.records := by
  unfold addTransactionOutputs at h
  have hkept := forEach_after_inv (·.records = c.records)
    (fun a s hs => (addTransactionOutput_records block tx a s).trans hs) transfers c rfl
  split at h
  · rename_i e he
    cases h
    rw [he] at hkept
    exact hkept
  · cases h

theorem addTransactionOutputs_ok_records {c c' : TransfersContainer} {block : TransactionBlockInfo}
    {tx : TransactionReader} {transfers : List TransactionOutputInformationIn} {added : Bool}
    (h : c.addTransactionOutputs block tx transfers = .ok (added, c')) : c'.records = c.records := by
  unfold addTransactionOutputs at h
  have hkept := forEach_after_inv (·.records = c.records)
    (fun a s hs => (addTransactionOutput_records block tx a s).trans hs) transfers c rfl
  split at h
  · cases h
  · rename_i c₁ he
    cases h
    rw [he] at hkept
    exact hkept

theorem addTransactionInputs_records {c : TransfersContainer} {block : TransactionBlockInfo}
    {tx : TransactionReader} :
    (∀ what c', c.addTransactionInputs block tx = .error (what, c') → c'.records = c.records) ∧
      ∀ added c', c.addTransactionInputs block tx = .ok (added, c') → c'.records = c.records := by
  have hkept := forEach_after_inv (·.2.records = c.records)
    (fun a s hs => (addTransactionInput_records block tx a s).trans hs) tx.inputs.zipIdx (false, c) rfl
  unfold addTransactionInputs
  constructor
  · intro what c' h
    split at h
    · rename_i what' added c₁ he
      cases h
      rw [he] at hkept
      exact hkept
    · cases h
  · intro added c' h
    split at h
    · cases h
    · rename_i r he
      cases h
      rw [he] at hkept
      exact hkept

/-- `getAvailableOutput` fails only for a job whose transfer is not available. -/
theorem availableOutputs_error (c : TransfersContainer) :
    ∀ {jobs : List TransferUnlockJob} {e : String}, c.availableOutputs jobs = .error e →
      e = "The output is supposed to be available"
  | [], _, h => by cases h
  | j :: js, e, h => by
    unfold availableOutputs at h
    rcases hj : c.getAvailableOutput j.transactionOutputKey with e' | o <;> rw [hj] at h
    · cases h
      unfold getAvailableOutput at hj
      split at hj
      · cases hj
      · cases hj
        rfl
    · rcases hjs : c.availableOutputs js with e' | os <;> rw [hjs] at h
      · cases h
        exact availableOutputs_error c hjs
      · cases h

/-- Advancing to a height not below the current one throws only when an
unlock job has no available transfer. -/
theorem doAdvanceHeight_error {c c' : TransfersContainer} {height : UInt32} {what : String}
    (hle : c.currentHeight ≤ height) (h : c.doAdvanceHeight height = .error (what, c')) :
    what = "The output is supposed to be available" := by
  unfold doAdvanceHeight at h
  rw [if_neg (UInt32.not_lt.mpr hle)] at h
  dsimp only at h
  split at h
  · rename_i e he
    cases h
    unfold getUnlockingTransfers at he
    rw [if_neg (UInt32.not_lt.mpr hle)] at he
    exact availableOutputs_error _ he
  · cases h

/-- **A throw of `addTransaction` keeps the records**: the transaction is
recorded only after both loops, so a throw from either, or from a check before
them, leaves `m_transactions` and `m_currentHeight` as they were. Only the
lookup of an unlocked transfer, after the record, can throw later. -/
theorem addTransaction_error_records {c c' : TransfersContainer} {block : TransactionBlockInfo}
    {tx : TransactionReader} {transfers : List TransactionOutputInformationIn} {what : String}
    (h : c.addTransaction block tx transfers = .error (what, c'))
    (hwhat : what ≠ "The output is supposed to be available") : c'.records = c.records := by
  unfold addTransaction at h
  by_cases hlow : block.height < c.currentHeight
  · rw [if_pos hlow] at h
    cases h
    rfl
  rw [if_neg hlow] at h
  by_cases hadded : c.transactions.any (·.transactionHash = tx.transactionHash)
  · rw [if_pos hadded] at h
    cases h
    rfl
  rw [if_neg hadded] at h
  rcases hout : c.addTransactionOutputs block tx transfers with ⟨what₁, c₁⟩ | ⟨outputsAdded, c₁⟩ <;>
    rw [hout] at h
  · cases h
    exact addTransactionOutputs_error_records hout
  have h₁ := addTransactionOutputs_ok_records hout
  dsimp only at h
  rcases hin : c₁.addTransactionInputs block tx with ⟨what₂, c₂⟩ | ⟨inputsAdded, c₂⟩ <;> rw [hin] at h
  · cases h
    exact (addTransactionInputs_records.1 _ _ hin).trans h₁
  have h₂ := addTransactionInputs_records.2 _ _ hin
  dsimp only at h
  set c₃ := if (outputsAdded || inputsAdded) = true then c₂.addTransactionInfo block tx else c₂ with hc₃
  -- the height checked at the start is still the container's, so advancing to the block cannot fall below it
  have hle : c₃.currentHeight ≤ block.height := by
    have hcur : c₂.currentHeight = c.currentHeight := congrArg Prod.snd (h₂.trans h₁)
    rw [hc₃]
    split <;> exact hcur ▸ UInt32.not_lt.mp hlow
  by_cases hconfirmed : block.height ≠ WALLET_LEGACY_UNCONFIRMED_TRANSACTION_HEIGHT
  · rw [if_pos hconfirmed] at h
    rcases hadv : c₃.doAdvanceHeight block.height with ⟨what₃, c₄⟩ | ⟨finishedJobs, c₄⟩ <;> rw [hadv] at h
    · cases h
      exact absurd (doAdvanceHeight_error hle hadv) hwhat
    · cases h
  · rw [if_neg hconfirmed] at h
    cases h

/-! ## A throw of `markTransactionConfirmed` -/

theorem mem_insertByHeight (v : TransactionInformation) :
    ∀ txs : List TransactionInformation, v ∈ insertByHeight v txs
  | [] => List.mem_singleton_self v
  | u :: us => by
    unfold insertByHeight
    split
    · exact List.mem_cons_self
    · exact List.mem_cons_of_mem u (mem_insertByHeight v us)

theorem mem_replaceTransaction (txs : List TransactionInformation) (v : TransactionInformation) :
    v ∈ replaceTransaction txs v := by
  unfold replaceTransaction
  dsimp only
  split
  · exact List.mem_append_right _ List.mem_cons_self
  · exact mem_insertByHeight v _

/-- **A throw of `markTransactionConfirmed` past its first check keeps the new
block**: the transaction was recorded in no block, and the throw leaves it
recorded at the new one, whatever its outputs did before. -/
theorem markTransactionConfirmed_error_confirms {c c' : TransfersContainer} {block : TransactionBlockInfo}
    {transactionHash : Hash} {globalIndices : List UInt32} {what : String}
    (hblock : block.height ≠ WALLET_LEGACY_UNCONFIRMED_TRANSACTION_HEIGHT)
    (h : c.markTransactionConfirmed block transactionHash globalIndices = .error (what, c')) :
    ∃ txInfo, c.transactions.find? (·.transactionHash = transactionHash) = some txInfo ∧
      txInfo.blockHeight = WALLET_LEGACY_UNCONFIRMED_TRANSACTION_HEIGHT ∧
      { txInfo with blockHeight := block.height, timestamp := block.timestamp } ∈ c'.transactions := by
  unfold markTransactionConfirmed at h
  rw [if_neg hblock] at h
  rcases hfind : c.transactions.find? (·.transactionHash = transactionHash) with _ | txInfo <;> rw [hfind] at h
  · cases h
  dsimp only at h
  by_cases hconfirmed : txInfo.blockHeight ≠ WALLET_LEGACY_UNCONFIRMED_TRANSACTION_HEIGHT
  · rw [if_pos hconfirmed] at h
    cases h
  rw [if_neg hconfirmed] at h
  refine ⟨txInfo, hfind, not_not.mp hconfirmed, ?_⟩
  -- the records were replaced before the loop, and no turn of the loop touches them
  set replaced := replaceTransaction c.transactions
    { txInfo with blockHeight := block.height, timestamp := block.timestamp }
  rcases hloop : forEach (confirmTransfer block globalIndices)
      (c.unconfirmedTransfers.filter (·.transactionHash = transactionHash)) { c with transactions := replaced } with
    ⟨what', c₁⟩ | c₁ <;> rw [hloop] at h
  · obtain ⟨-, rfl⟩ := Prod.mk.inj (Except.error.inj h)
    have hkept := forEach_after_inv (·.records = ({ c with transactions := replaced } : TransfersContainer).records)
      (fun a s hs => (confirmTransfer_records block globalIndices a s).trans hs)
      (c.unconfirmedTransfers.filter (·.transactionHash = transactionHash)) { c with transactions := replaced } rfl
    rw [hloop, after_error] at hkept
    have htransactions : c₁.transactions = replaced := congrArg Prod.fst hkept
    rw [htransactions]
    exact mem_replaceTransaction _ _
  · cases h

/-! ## The consistency of the indexes -/

/-- The consistency the container keeps its indexes in. -/
structure Consistent (c : TransfersContainer) : Prop where
  /-- A transfer is in one of the three sets, once. -/
  keys_nodup : (c.unconfirmedTransfers.map (·.getTransactionOutputKey) ++
    c.availableTransfers.map (·.getTransactionOutputKey) ++ c.spentTransfers.map (·.getTransactionOutputKey)).Nodup
  /-- An unconfirmed transfer's transaction is recorded in no block. -/
  unconfirmed_recorded : ∀ t ∈ c.unconfirmedTransfers, ∃ ti ∈ c.transactions,
    ti.transactionHash = t.transactionHash ∧ ti.blockHeight = WALLET_LEGACY_UNCONFIRMED_TRANSACTION_HEIGHT
  /-- An available or spent transfer's transaction is recorded at the transfer's block. -/
  confirmed_recorded : ∀ t ∈ c.availableTransfers ++ c.spentTransfers.map (·.toTransactionOutputInformationEx),
    ∃ ti ∈ c.transactions, ti.transactionHash = t.transactionHash ∧ ti.blockHeight = t.blockHeight ∧
      t.blockHeight ≠ WALLET_LEGACY_UNCONFIRMED_TRANSACTION_HEIGHT
  /-- A spent transfer's spending transaction is recorded at its spending block. -/
  spending_recorded : ∀ s ∈ c.spentTransfers, ∃ ti ∈ c.transactions,
    ti.transactionHash = s.spendingTransactionHash ∧ ti.blockHeight = s.spendingBlock.height

instance decidableConsistent (c : TransfersContainer) : Decidable (Consistent c) :=
  decidable_of_iff (_ ∧ _ ∧ _ ∧ _)
    ⟨fun ⟨h₁, h₂, h₃, h₄⟩ => ⟨h₁, h₂, h₃, h₄⟩, fun h => ⟨h.keys_nodup, h.unconfirmed_recorded,
      h.confirmed_recorded, h.spending_recorded⟩⟩

theorem Consistent.spent_recorded {c : TransfersContainer} (hc : Consistent c) {s : SpentTransactionOutput}
    (hs : s ∈ c.spentTransfers) : ∃ ti ∈ c.transactions, ti.transactionHash = s.transactionHash :=
  let ⟨ti, hti, hhash, _⟩ := hc.confirmed_recorded _ (List.mem_append_right _ (List.mem_map_of_mem hs))
  ⟨ti, hti, hhash⟩

/-! ## Looking a transfer up -/

section GetTransfer

variable (cur : Currency) (now : UInt64) {c : TransfersContainer} {transactionHash : Hash}
  {outputInTransaction : UInt32}

/-- **An available transfer is found with the state `isIncluded` gives it**:
for a transfer of a block, `TransferAvailable` exactly when `isIncluded` would
call it unlocked. -/
theorem getTransfer_available {t : TransactionOutputInformationEx}
    (hfind : c.availableTransfers.find? (·.getTransactionOutputKey = ⟨transactionHash, outputInTransaction⟩) = some t)
    (hconfirmed : t.blockHeight ≠ WALLET_LEGACY_UNCONFIRMED_TRANSACTION_HEIGHT) :
    ∃ state, c.getTransfer cur now transactionHash outputInTransaction =
        .ok (some (t.toTransactionOutputInformation, state)) ∧
      (state = .transferAvailable ↔ c.includeState cur now t = IncludeStateUnlocked) := by
  refine ⟨_, by unfold getTransfer; dsimp only; rw [hfind], ?_⟩
  unfold includeState
  -- both classify by the same two tests, the unconfirmed height apart
  by_cases hunlocked : c.isSpendTimeUnlocked cur now t = true <;>
    by_cases hsoft : c.currentHeight.toUInt64 < t.blockHeight.toUInt64 + c.transactionSpendableAge <;>
    simp [hunlocked, hsoft, hconfirmed, IncludeStateLocked, IncludeStateSoftLocked, IncludeStateUnlocked]

theorem getTransfer_unconfirmed {t : TransactionOutputInformationEx}
    (hnone : c.availableTransfers.find? (·.getTransactionOutputKey = ⟨transactionHash, outputInTransaction⟩) = none)
    (hfind : c.unconfirmedTransfers.find? (·.getTransactionOutputKey = ⟨transactionHash, outputInTransaction⟩) =
      some t) :
    c.getTransfer cur now transactionHash outputInTransaction =
      .ok (some (t.toTransactionOutputInformation, .transferUnconfirmed)) := by
  unfold getTransfer
  dsimp only
  rw [hnone, hfind]

/-- A transfer found only among the spent ones is read through the end of the
unconfirmed index. -/
theorem getTransfer_spent
    (hnone : c.availableTransfers.find? (·.getTransactionOutputKey = ⟨transactionHash, outputInTransaction⟩) = none)
    (hunconfirmed :
      c.unconfirmedTransfers.find? (·.getTransactionOutputKey = ⟨transactionHash, outputInTransaction⟩) = none)
    (hspent :
      (c.spentTransfers.find? (·.getTransactionOutputKey = ⟨transactionHash, outputInTransaction⟩)).isSome) :
    c.getTransfer cur now transactionHash outputInTransaction = .error () := by
  obtain ⟨t, ht⟩ := Option.isSome_iff_exists.mp hspent
  unfold getTransfer
  dsimp only
  rw [hnone, hunconfirmed, ht]

/-- In a consistent container every available transfer is of a block, so the
state of one found available agrees with `isIncluded`. -/
theorem Consistent.getTransfer_of_available (hc : Consistent c) {t : TransactionOutputInformationEx}
    (hfind : c.availableTransfers.find? (·.getTransactionOutputKey = ⟨transactionHash, outputInTransaction⟩) = some t) :
    ∃ state, c.getTransfer cur now transactionHash outputInTransaction =
        .ok (some (t.toTransactionOutputInformation, state)) ∧
      (state = .transferAvailable ↔ c.includeState cur now t = IncludeStateUnlocked) := by
  have ht : t ∈ c.availableTransfers := List.mem_of_find?_eq_some hfind
  obtain ⟨_, _, _, _, hconfirmed⟩ := hc.confirmed_recorded t (List.mem_append_left _ ht)
  exact getTransfer_available cur now hfind hconfirmed

end GetTransfer

/-! ## Runs -/

section Runs

variable (keyImageOf : Hash → UInt32 → KeyImage)

/-- What a consumer hands `addTransaction` with a transaction: outputs at
distinct indexes, each key output with the key image of its transaction and
index. -/
def TransfersFit (tx : TransactionReader) (transfers : List TransactionOutputInformationIn) : Prop :=
  (transfers.map (·.outputInTransaction)).Nodup ∧
    ∀ t ∈ transfers, t.type = .key → t.keyImage = keyImageOf tx.transactionHash t.outputInTransaction

/-- A call of the container that returns normally, as a consumer makes it:
`addTransaction` with fitting outputs, `markTransactionConfirmed` with a block
not below the current height, and any `deleteUnconfirmedTransaction`,
`advanceHeight` and `detach`. -/
inductive Step : TransfersContainer → TransfersContainer → Prop
  | addTransaction {c c' : TransfersContainer} {block : TransactionBlockInfo} {tx : TransactionReader}
      {transfers : List TransactionOutputInformationIn} {r : Bool × List TransactionOutputInformation}
      (hfit : TransfersFit keyImageOf tx transfers) (h : c.addTransaction block tx transfers = .ok (r, c')) :
      Step c c'
  | markTransactionConfirmed {c c' : TransfersContainer} {block : TransactionBlockInfo} {transactionHash : Hash}
      {globalIndices : List UInt32} {r : Bool} (hheight : c.currentHeight ≤ block.height)
      (h : c.markTransactionConfirmed block transactionHash globalIndices = .ok (r, c')) : Step c c'
  | deleteUnconfirmedTransaction (c : TransfersContainer) (transactionHash : Hash) :
      Step c (c.deleteUnconfirmedTransaction transactionHash).2
  | advanceHeight {c c' : TransfersContainer} {height : UInt32} {r : List TransactionOutputInformation}
      (h : c.advanceHeight height = .ok (r, c')) : Step c c'
  | detach {c c' : TransfersContainer} {height : UInt32} {deleted : List Hash}
      {locked : List TransactionOutputInformation} {r : List Hash × List TransactionOutputInformation}
      (h : c.detach height deleted locked = .ok (r, c')) : Step c c'

/-- The containers these calls reach from a new one. -/
def Reachable (transactionSpendableAge : UInt64) (c : TransfersContainer) : Prop :=
  Relation.ReflTransGen (Step keyImageOf) (empty transactionSpendableAge) c

end Runs

/-- The container a call leaves, whether it returns or throws. -/
def stateOf {α : Type} : Except (String × TransfersContainer) (α × TransfersContainer) → TransfersContainer
  | .ok (_, c) => c
  | .error (_, c) => c

/-- A hash of 32 equal bytes. -/
def sampleHash (n : UInt8) : Hash := ⟨Vector.replicate 32 n⟩

def sampleKeyImage : KeyImage := ⟨Vector.replicate 32 7⟩

/-- The block a consumer gives a transaction in none. -/
def unconfirmedBlock : TransactionBlockInfo := ⟨WALLET_LEGACY_UNCONFIRMED_TRANSACTION_HEIGHT, 0, 0⟩

/-- A transaction paying the wallet, with no inputs of the wallet's. -/
def funding : TransactionReader := ⟨sampleHash 1, 0, []⟩

/-- Output `i` of `funding`, with the amount and global index given, under
`sampleKeyImage`. -/
def fundingOutput (i : UInt32) (amount : UInt64) (globalOutputIndex : UInt32) : TransactionOutputInformationIn :=
  { type := .key, amount, globalOutputIndex, outputInTransaction := i, transactionHash := sampleHash 1, term := 0,
    keyImage := sampleKeyImage }

/-! ### A spender confirmed below what it spends -/

/-- `funding` recorded in no block, with its output 0 of 5. -/
def fundingRecorded : TransfersContainer :=
  stateOf ((empty 1).addTransaction unconfirmedBlock funding [fundingOutput 0 5 UNCONFIRMED_TRANSACTION_GLOBAL_OUTPUT_INDEX])

theorem addTransaction_fundingRecorded :
    (empty 1).addTransaction unconfirmedBlock funding [fundingOutput 0 5 UNCONFIRMED_TRANSACTION_GLOBAL_OUTPUT_INDEX] =
      .ok ((true, []), fundingRecorded) := by
  decide

theorem reachable_fundingRecorded : Reachable (fun _ _ => sampleKeyImage) 1 fundingRecorded :=
  .single (.addTransaction ⟨by decide, by decide⟩ addTransaction_fundingRecorded)

/-- A transaction spending output 0 of `funding`. -/
def spending : TransactionReader := ⟨sampleHash 2, 0, [.key ⟨5, [7], sampleKeyImage⟩]⟩

def fundingConfirmed : TransfersContainer :=
  stateOf (fundingRecorded.markTransactionConfirmed ⟨100, 0, 0⟩ (sampleHash 1) [7])

theorem reachable_fundingConfirmed : Reachable (fun _ _ => sampleKeyImage) 1 fundingConfirmed := by
  have hconfirmed : fundingRecorded.markTransactionConfirmed ⟨100, 0, 0⟩ (sampleHash 1) [7] =
      .ok (true, fundingConfirmed) := by
    decide
  exact reachable_fundingRecorded.tail (.markTransactionConfirmed (by decide) hconfirmed)

def spendingRecorded : TransfersContainer :=
  stateOf (fundingConfirmed.addTransaction unconfirmedBlock spending [])

/-- `funding` confirmed at block 100, then `spending` recorded in no block: the
output of `funding` is spent. -/
theorem reachable_spendingRecorded : Reachable (fun _ _ => sampleKeyImage) 1 spendingRecorded := by
  have hspent : fundingConfirmed.addTransaction unconfirmedBlock spending [] = .ok ((true, []), spendingRecorded) := by
    decide
  exact reachable_fundingConfirmed.tail (.addTransaction ⟨by decide, by decide⟩ hspent)

/-- **`getTransfer` of a spent transfer dereferences an end iterator**: in a
consistent container the calls reach, output 0 of `funding` is spent by
`spending` and in no other set; looking it up finds it in the spent index and
copies from `unconfirmedIt`, which the unconfirmed lookup left at the end. -/
theorem getTransfer_spent_reads_end (cur : Currency) (now : UInt64) :
    Reachable (fun _ _ => sampleKeyImage) 1 spendingRecorded ∧ Consistent spendingRecorded ∧
      (∃ t ∈ spendingRecorded.spentTransfers, t.getTransactionOutputKey = ⟨sampleHash 1, 0⟩) ∧
      spendingRecorded.getTransfer cur now (sampleHash 1) 0 = .error () :=
  ⟨reachable_spendingRecorded, by decide, by decide,
    getTransfer_spent cur now (by decide) (by decide) (by decide)⟩

/-- **A throw of `markTransactionConfirmed` changes the records**: confirming
`funding` with no global indices throws at its output 0, after moving `funding`
to block 100. -/
theorem markTransactionConfirmed_throw_changes_transactions :
    Reachable (fun _ _ => sampleKeyImage) 1 fundingRecorded ∧ Consistent fundingRecorded ∧
      ∃ c', fundingRecorded.markTransactionConfirmed ⟨100, 0, 0⟩ (sampleHash 1) [] =
          .error ("Not enough elements in globalIndices", c') ∧
        c'.transactions ≠ fundingRecorded.transactions := by
  refine ⟨reachable_fundingRecorded, by decide,
    stateOf (fundingRecorded.markTransactionConfirmed ⟨100, 0, 0⟩ (sampleHash 1) []), by decide, ?_⟩
  decide

/-! ### Two outputs under one key image -/

/-- `funding` at block 5, with outputs 0 and 1, of 1 and 2, under one key
image: the first is visible, the second is not. -/
def twinsRecorded : TransfersContainer :=
  stateOf ((empty 1).addTransaction ⟨5, 0, 0⟩ funding [fundingOutput 0 1 10, fundingOutput 1 2 11])

/-- A transaction spending output 0 of `funding`. -/
def twinSpending : TransactionReader := ⟨sampleHash 2, 0, [.key ⟨1, [10], sampleKeyImage⟩]⟩

def twinSpent : TransfersContainer :=
  stateOf (twinsRecorded.addTransaction ⟨6, 0, 0⟩ twinSpending [])

def twinsDetached : TransfersContainer :=
  stateOf (twinSpent.detach 6 [] [])

/-- The transfer with its visibility dropped. -/
def withoutVisibility (t : TransactionOutputInformationEx) : TransactionOutputInformationEx :=
  { t with visible := false }

/-- **Detaching a block does not give back the visibility it took**: block 6
spends output 0 of `funding`, and `detach(6)` deletes it again. Every transfer
and every record come back, but the visible one of the two outputs under the
key image is now output 1. -/
theorem detach_after_adds_moves_visibility :
    Reachable (fun _ _ => sampleKeyImage) 1 twinsRecorded ∧ Consistent twinsRecorded ∧
      (∀ ti ∈ twinsRecorded.transactions, ti.blockHeight < 6) ∧
      (∃ r, twinsRecorded.addTransaction ⟨6, 0, 0⟩ twinSpending [] = .ok (r, twinSpent)) ∧
      (∃ r, twinSpent.detach 6 [] [] = .ok (r, twinsDetached)) ∧
      twinsDetached.transactions = twinsRecorded.transactions ∧
      (twinsDetached.availableTransfers.map withoutVisibility).Perm
        (twinsRecorded.availableTransfers.map withoutVisibility) ∧
      ¬ twinsDetached.availableTransfers.Perm twinsRecorded.availableTransfers := by
  have hadd : (empty 1).addTransaction ⟨5, 0, 0⟩ funding [fundingOutput 0 1 10, fundingOutput 1 2 11] =
      .ok ((true, []), twinsRecorded) := by
    decide
  refine ⟨.single (.addTransaction ⟨by decide, by decide⟩ hadd), by decide,
    by decide, ⟨_, rfl⟩, ⟨_, rfl⟩, by decide, ?_, ?_⟩
  · decide
  · decide

end TransfersContainer

end Cn
