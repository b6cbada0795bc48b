import ConcealCore.Spec.TransfersStorage
import ConcealCore.Proof.Format
import ConcealCore.Proof.Transfers

/-!
# The storage round trip of the transfers container

* `load_save`: `load` gives back what `save` wrote, for a container whose
  indexes hold (`Indexed`: each ordered index in order, each unique index
  without two elements of one key) and whose sequences and strings are within
  the reader's limit (`Fits`). The outputs come back `typed`, and the loading
  container keeps its own `transactionSpendableAge`.
* `load_save_of_many_transactions`: past the limit, `load` throws.
* `load_saveVersion0`: the records of a storage of version `0` come back the
  same way, with the unlock jobs that `rebuildTransfersUnlockJobs` makes from
  the available and the spent transfers. Spending a transfer deletes its job,
  and the rebuild makes one again, which the next `advanceHeight` cannot
  find among the available transfers (`load_version0_unlocks_spent_transfer`).
-/

open Codec

namespace Cn

/-! ## Fields and records -/

@[simp] theorem readBlockHeight_write (blockHeight : UInt32) (rest : List UInt8) :
    readBlockHeight (writeBlockHeight blockHeight ++ rest) = some (blockHeight, rest) := by
  have hlt := blockHeight.toNat_lt
  have hread : readVarint 64 (writeVarint blockHeight.toNat ++ rest) = some (blockHeight.toNat, rest) :=
    readVarint_readsBack 64 _ (by omega) rest
  -- a `uint32_t` is neither the 64-bit marker nor in the refused range above it
  have hmax : blockHeight.toNat ≠ 2 ^ 64 - 1 := by omega
  have hrange : ¬ (blockHeight.toNat > 2 ^ 32 - 1 ∧ blockHeight.toNat < 2 ^ 64 - 1) := by omega
  simp only [readBlockHeight, writeBlockHeight, hread, Option.bind_eq_bind, Option.bind_some]
  rw [if_neg hmax, if_neg hrange, UInt32.ofNat_toNat]

@[simp] theorem readBool_write (value : Bool) (rest : List UInt8) :
    readBool (writeBool value ++ rest) = some (value, rest) := by
  cases value <;> simp [readBool, writeBool, readTokens]

@[simp] theorem OutputType.ofUInt8_toUInt8 (type : OutputType) : OutputType.ofUInt8 type.toUInt8 = type := by
  cases type <;> rfl

/-- The sizes of a transaction record that the reader accepts. -/
def StoredTransactionInformation.Fits (ti : StoredTransactionInformation) : Prop :=
  ti.extra.length ≤ MAX_SIZE ∧ ti.messages.length ≤ MAX_SIZE ∧ ∀ m ∈ ti.messages, m.length ≤ MAX_SIZE

instance : DecidablePred StoredTransactionInformation.Fits := fun ti =>
  inferInstanceAs (Decidable (ti.extra.length ≤ MAX_SIZE ∧ ti.messages.length ≤ MAX_SIZE ∧
    ∀ m ∈ ti.messages, m.length ≤ MAX_SIZE))

theorem readTransactionInformation_readsBack :
    ReadsBack serializeTransactionInformation readTransactionInformation StoredTransactionInformation.Fits := by
  rintro ti ⟨hextra, hmessages, hmessage⟩ rest
  have hex := readArray_readsBack readUInt8_readsBack ti.extra ⟨hextra, fun _ _ => trivial⟩
    (ti.paymentId.bytes ++ (serializeVector serializeAsBinary ti.messages ++ rest))
  have hmsg := readArray_readsBack readString_readsBack ti.messages ⟨hmessages, hmessage⟩ rest
  simp only [serializeTransactionInformation, readTransactionInformation, List.append_assoc, readHash_write,
    readPublicKey_write, readBlockHeight_write, readUInt64_write, hex, hmsg, bind, Option.bind]
  rfl

/-- An output reads back `typed`: the fields of the union its type does not
write come back zero. -/
theorem readOutput_write (t : StoredOutput) (rest : List UInt8) :
    readOutput (serializeOutput t ++ rest) = some (t.typed, rest) := by
  rcases t with ⟨⟨⟨⟨type, amount, globalOutputIndex, outputInTransaction, transactionHash, term⟩, keyImage⟩,
    unlockTime, blockHeight, transactionIndex, visible⟩, transactionPublicKey, outputKey, requiredSignatures⟩
  cases type <;>
    simp only [serializeOutput, readOutput, List.append_assoc, readUInt8_write, readUInt64_write,
      readBlockHeight_write, readUInt32_write, readPublicKey_write, readKeyImage_write, readHash_write,
      readBool_write, bind, Option.bind, OutputType.ofUInt8_toUInt8, readOutputTail, List.nil_append] <;> rfl

theorem readSpentOutput_write (t : StoredSpentOutput) (rest : List UInt8) :
    readSpentOutput (serializeSpentOutput t ++ rest) = some (t.typed, rest) := by
  simp only [serializeSpentOutput, readSpentOutput, serializeTransactionBlockInfo, readTransactionBlockInfo,
    List.append_assoc, readOutput_write, readBlockHeight_write, readUInt64_write, readUInt32_write, readHash_write,
    bind, pure, Option.bind]
  rfl

@[simp] theorem readTransferUnlockJob_write (j : TransferUnlockJob) (rest : List UInt8) :
    readTransferUnlockJob (serializeTransferUnlockJob j ++ rest) = some (j, rest) := by
  simp only [serializeTransferUnlockJob, readTransferUnlockJob, List.append_assoc, readUInt32_write,
    readHash_write, bind, Option.bind]
  rfl

/-! ## Outputs in their typed form -/

namespace StoredOutput

/-! Each fact below holds field by field, once the output type is known. -/

@[simp] theorem typed_typed (t : StoredOutput) : t.typed.typed = t.typed := by
  rcases t with ⟨⟨⟨⟨type, _, _, _, _, _⟩, _⟩, _, _, _, _⟩, _, _, _⟩
  cases type <;> rfl

@[simp] theorem getTransactionOutputKey_typed (t : StoredOutput) :
    t.typed.getTransactionOutputKey = t.getTransactionOutputKey := by
  rcases t with ⟨⟨⟨⟨type, _, _, _, _, _⟩, _⟩, _, _, _, _⟩, _, _, _⟩
  cases type <;> rfl

@[simp] theorem getSpentOutputDescriptor_typed (t : StoredOutput) :
    t.typed.getSpentOutputDescriptor = t.getSpentOutputDescriptor := by
  rcases t with ⟨⟨⟨⟨type, _, _, _, _, _⟩, _⟩, _, _, _, _⟩, _, _, _⟩
  cases type <;> rfl

/-- The writer writes only what `typed` keeps. -/
theorem serializeOutput_typed (t : StoredOutput) : serializeOutput t.typed = serializeOutput t := by
  rcases t with ⟨⟨⟨⟨type, _, _, _, _, _⟩, _⟩, _, _, _, _⟩, _, _, _⟩
  cases type <;> rfl

end StoredOutput

@[simp] theorem StoredSpentOutput.typed_typed (t : StoredSpentOutput) : t.typed.typed = t.typed := by
  simp [StoredSpentOutput.typed]

theorem StoredSpentOutput.serializeSpentOutput_typed (t : StoredSpentOutput) :
    serializeSpentOutput t.typed = serializeSpentOutput t := by
  simp [serializeSpentOutput, StoredSpentOutput.typed, StoredOutput.serializeOutput_typed]

theorem writeRecords_typed (c : StoredTransfersContainer) : writeRecords c.typed = writeRecords c := by
  simp [writeRecords, StoredTransfersContainer.typed, serializeVector, List.flatMap_map,
    StoredOutput.serializeOutput_typed, StoredSpentOutput.serializeSpentOutput_typed]

theorem save_typed (c : StoredTransfersContainer) : save c.typed = save c := by
  rw [save, save, writeRecords_typed]
  rfl

/-! ## Rebuilding the containers -/

theorem insertJob_eq_insertAfter (j : TransferUnlockJob) (jobs : List TransferUnlockJob) :
    TransfersContainer.insertJob j jobs = TimeIndex.insertAfter (fun j => j.unlockHeight.toNat) j jobs := by
  induction jobs with
  | nil => rfl
  | cons u us ih => simp only [TransfersContainer.insertJob, TimeIndex.insertAfter, UInt32.lt_iff_toNat_lt, ih]

section Prefix

/-! Each insertion of `load`, made into the elements saved before its own, appends it. -/

theorem insertTransaction_of_isPrefix {l p : List StoredTransactionInformation} {v : StoredTransactionInformation}
    (hsorted : l.Pairwise fun a b => a.blockHeight.toNat ≤ b.blockHeight.toNat)
    (hnodup : (l.map (·.transactionHash)).Nodup) (hp : p ++ [v] <+: l) : insertTransaction v p = p ++ [v] := by
  have hnew : ¬ p.any (·.transactionHash = v.transactionHash) := by
    simpa using TimeIndex.key_ne_of_isPrefix hnodup hp
  rw [insertTransaction, if_neg hnew, TimeIndex.insertAfter_of_isPrefix hsorted hp]

theorem insertOutput_of_isPrefix {l p : List StoredOutput} {t : StoredOutput}
    (hnodup : (l.map (·.getTransactionOutputKey)).Nodup) (hp : p ++ [t] <+: l) : insertOutput t p = p ++ [t] := by
  have hnew : ¬ p.any (·.getTransactionOutputKey = t.getTransactionOutputKey) := by
    simpa using TimeIndex.key_ne_of_isPrefix hnodup hp
  rw [insertOutput, if_neg hnew]

theorem insertSpentOutput_of_isPrefix {l p : List StoredSpentOutput} {t : StoredSpentOutput}
    (hdescriptors : (l.map (·.getSpentOutputDescriptor)).Nodup) (hkeys : (l.map (·.getTransactionOutputKey)).Nodup)
    (hp : p ++ [t] <+: l) : insertSpentOutput t p = p ++ [t] := by
  have hd := TimeIndex.key_ne_of_isPrefix hdescriptors hp
  have hk := TimeIndex.key_ne_of_isPrefix hkeys hp
  have hnew : ¬ p.any (fun u => u.getSpentOutputDescriptor = t.getSpentOutputDescriptor ∨
      u.getTransactionOutputKey = t.getTransactionOutputKey) := by
    simp only [List.any_eq_true, decide_eq_true_eq, not_exists, not_and, not_or]
    exact fun u hu => ⟨hd u hu, hk u hu⟩
  rw [insertSpentOutput, if_neg hnew]

theorem insertTransferUnlockJob_of_isPrefix {l p : List TransferUnlockJob} {j : TransferUnlockJob}
    (hsorted : l.Pairwise fun a b => a.unlockHeight.toNat ≤ b.unlockHeight.toNat)
    (hnodup : (l.map (·.transactionOutputKey)).Nodup) (hp : p ++ [j] <+: l) :
    insertTransferUnlockJob j p = p ++ [j] := by
  have hnew : ¬ p.any (·.transactionOutputKey = j.transactionOutputKey) := by
    simpa using TimeIndex.key_ne_of_isPrefix hnodup hp
  rw [insertTransferUnlockJob, if_neg hnew, insertJob_eq_insertAfter, TimeIndex.insertAfter_of_isPrefix hsorted hp]

end Prefix

/-- A sequence of elements that read back, each of which the insertion
appends, comes back as it was saved. -/
theorem readSequence_write {α : Type} {enc : α → List UInt8} {read : Reader UInt8 α} {P : α → Prop}
    (h : ReadsBack enc read P) {insert : α → List α → List α} {l : List α} (hlen : l.length ≤ MAX_SIZE)
    (hP : ∀ a ∈ l, P a) (hinsert : ∀ p a, p ++ [a] <+: l → insert a p = p ++ [a]) (rest : List UInt8) :
    readSequence read insert (serializeVector enc l ++ rest) = some (l, rest) := by
  have hfold : l.foldl (fun acc e => insert e acc) [] = l := TimeIndex.foldl_eq_self hinsert
  simp only [readSequence, readArray_readsBack h l ⟨hlen, hP⟩ rest, Option.map_some, hfold]

theorem readTransferUnlockJob_readsBack :
    ReadsBack serializeTransferUnlockJob readTransferUnlockJob (fun _ => True) :=
  fun j _ rest => readTransferUnlockJob_write j rest

theorem readOutput_readsBack : ReadsBack serializeOutput readOutput (fun t => t.typed = t) := by
  intro t ht rest
  rw [readOutput_write, ht]

theorem readSpentOutput_readsBack : ReadsBack serializeSpentOutput readSpentOutput (fun t => t.typed = t) := by
  intro t ht rest
  rw [readSpentOutput_write, ht]

/-! ## The round trip -/

namespace StoredTransfersContainer

/-- What the indexes of the containers guarantee: each ordered index in order,
each unique index without two elements of one key. -/
structure Indexed (c : StoredTransfersContainer) : Prop where
  transactions_sorted : c.transactions.Pairwise fun a b => a.blockHeight.toNat ≤ b.blockHeight.toNat
  transactions_nodup : (c.transactions.map (·.transactionHash)).Nodup
  unconfirmed_nodup : (c.unconfirmedTransfers.map (·.getTransactionOutputKey)).Nodup
  available_nodup : (c.availableTransfers.map (·.getTransactionOutputKey)).Nodup
  spent_descriptors_nodup : (c.spentTransfers.map (·.getSpentOutputDescriptor)).Nodup
  spent_keys_nodup : (c.spentTransfers.map (·.getTransactionOutputKey)).Nodup
  jobs_sorted : c.transfersUnlockJobs.Pairwise fun a b => a.unlockHeight.toNat ≤ b.unlockHeight.toNat
  jobs_nodup : (c.transfersUnlockJobs.map (·.transactionOutputKey)).Nodup

/-- Every sequence and string within the reader's limit. -/
structure Fits (c : StoredTransfersContainer) : Prop where
  transactions : c.transactions.length ≤ MAX_SIZE
  transactions_fit : ∀ ti ∈ c.transactions, ti.Fits
  unconfirmed : c.unconfirmedTransfers.length ≤ MAX_SIZE
  available : c.availableTransfers.length ≤ MAX_SIZE
  spent : c.spentTransfers.length ≤ MAX_SIZE
  jobs : c.transfersUnlockJobs.length ≤ MAX_SIZE

instance decidableIndexed (c : StoredTransfersContainer) : Decidable c.Indexed :=
  decidable_of_iff (_ ∧ _ ∧ _ ∧ _ ∧ _ ∧ _ ∧ _ ∧ _)
    ⟨fun ⟨h₁, h₂, h₃, h₄, h₅, h₆, h₇, h₈⟩ => ⟨h₁, h₂, h₃, h₄, h₅, h₆, h₇, h₈⟩,
      fun h => ⟨h.transactions_sorted, h.transactions_nodup, h.unconfirmed_nodup, h.available_nodup,
        h.spent_descriptors_nodup, h.spent_keys_nodup, h.jobs_sorted, h.jobs_nodup⟩⟩

instance decidableFits (c : StoredTransfersContainer) : Decidable c.Fits :=
  decidable_of_iff (_ ∧ _ ∧ _ ∧ _ ∧ _ ∧ _)
    ⟨fun ⟨h₁, h₂, h₃, h₄, h₅, h₆⟩ => ⟨h₁, h₂, h₃, h₄, h₅, h₆⟩,
      fun h => ⟨h.transactions, h.transactions_fit, h.unconfirmed, h.available, h.spent, h.jobs⟩⟩

end StoredTransfersContainer

open StoredTransfersContainer

section Load

variable (c₀ : StoredTransfersContainer) {c : StoredTransfersContainer}

/-- **The records read back**: after a version `load` accepts, the height and
the four sequences come back as they were written, the outputs `typed`; what
follows decides the unlock jobs. -/
theorem load_writeRecords (hc : c.Indexed) (hfits : c.Fits) {version : UInt32}
    (hversion : version ≤ TRANSFERS_CONTAINER_STORAGE_VERSION) (rest : List UInt8) :
    load c₀ (writeVarint version.toNat ++ writeRecords c.typed ++ rest) =
      (if version ≠ 0 then (readSequence readTransferUnlockJob insertTransferUnlockJob rest).map (·.1)
        else some (rebuildTransfersUnlockJobs c₀.transactionSpendableAge c.typed.availableTransfers
          c.typed.spentTransfers)).map
        fun transfersUnlockJobs => { c.typed with
          transactionSpendableAge := c₀.transactionSpendableAge, transfersUnlockJobs := transfersUnlockJobs } := by
  -- each sequence reads back, each element inserted after the ones before it
  have htx := readSequence_write readTransactionInformation_readsBack (l := c.typed.transactions)
    hfits.transactions hfits.transactions_fit
    (fun p v hp => insertTransaction_of_isPrefix hc.transactions_sorted hc.transactions_nodup hp)
  have hun := readSequence_write readOutput_readsBack (l := c.typed.unconfirmedTransfers)
    (by simpa [typed] using hfits.unconfirmed) (by simp [typed])
    (fun p t hp => insertOutput_of_isPrefix (by simpa [typed, Function.comp_def] using hc.unconfirmed_nodup) hp)
  have hav := readSequence_write readOutput_readsBack (l := c.typed.availableTransfers)
    (by simpa [typed] using hfits.available) (by simp [typed])
    (fun p t hp => insertOutput_of_isPrefix (by simpa [typed, Function.comp_def] using hc.available_nodup) hp)
  have hsp := readSequence_write readSpentOutput_readsBack (l := c.typed.spentTransfers)
    (by simpa [typed] using hfits.spent) (by simp [typed])
    (fun p t hp => insertSpentOutput_of_isPrefix
      (by simpa [typed, StoredSpentOutput.typed, Function.comp_def] using hc.spent_descriptors_nodup)
      (by simpa [typed, StoredSpentOutput.typed, Function.comp_def] using hc.spent_keys_nodup) hp)
  have hnewer : ¬ version > TRANSFERS_CONTAINER_STORAGE_VERSION := UInt32.not_lt.mpr hversion
  simp only [load, writeRecords, List.append_assoc, readUInt32_write, hnewer, if_false, htx, hun, hav, hsp, bind,
    Option.bind]
  split
  · cases readSequence readTransferUnlockJob insertTransferUnlockJob rest <;> rfl
  · rfl

/-- **The storage round trip.** `load` gives back what `save` wrote: the
height, the transactions, the three sets of transfers with every field their
`serialize` writes, and the unlock jobs. The outputs come back `typed`, and the
loading container keeps its own `transactionSpendableAge`. -/
theorem load_save (hc : c.Indexed) (hfits : c.Fits) :
    load c₀ (save c) = some { c.typed with transactionSpendableAge := c₀.transactionSpendableAge } := by
  have hjobs : readSequence readTransferUnlockJob insertTransferUnlockJob
      (serializeVector serializeTransferUnlockJob c.transfersUnlockJobs) = some (c.transfersUnlockJobs, []) := by
    simpa using readSequence_write readTransferUnlockJob_readsBack hfits.jobs (fun _ _ => trivial)
      (fun p j hp => insertTransferUnlockJob_of_isPrefix hc.jobs_sorted hc.jobs_nodup hp) []
  have hversion : TRANSFERS_CONTAINER_STORAGE_VERSION ≠ 0 := by decide
  rw [← save_typed, save, load_writeRecords c₀ hc hfits (by decide), if_pos hversion]
  exact congrArg (Option.map _) (congrArg (Option.map _) hjobs)

/-- **A storage of version `0`** loads the same records, with the unlock jobs
that `rebuildTransfersUnlockJobs` makes from the available and the spent
transfers. -/
theorem load_saveVersion0 (hc : c.Indexed) (hfits : c.Fits) :
    load c₀ (saveVersion0 c) = some { c.typed with
      transactionSpendableAge := c₀.transactionSpendableAge
      transfersUnlockJobs := rebuildTransfersUnlockJobs c₀.transactionSpendableAge c.typed.availableTransfers
        c.typed.spentTransfers } := by
  have hsave : saveVersion0 c = writeVarint (0 : UInt32).toNat ++ writeRecords c.typed ++ [] := by
    rw [List.append_nil, saveVersion0, writeRecords_typed]
    rfl
  rw [hsave, load_writeRecords c₀ hc hfits (by decide), if_neg (by decide)]
  rfl

/-- **Past the reader's limit.** `save` writes a container of more than
`128 * 1024 * 1024` transactions, and `load` of what it wrote throws. -/
theorem load_save_of_many_transactions (hmany : MAX_SIZE < c.transactions.length)
    (hlen : c.transactions.length < 2 ^ 64) : load c₀ (save c) = none := by
  have hsize (rest : List UInt8) : readVarint 64 (writeVarint c.transactions.length ++ rest) =
      some (c.transactions.length, rest) :=
    readVarint_readsBack 64 _ hlen rest
  have hnewer : ¬ TRANSFERS_CONTAINER_STORAGE_VERSION > TRANSFERS_CONTAINER_STORAGE_VERSION := by decide
  simp only [load, save, writeRecords, serializeVector, List.append_assoc, readUInt32_write, hnewer, if_false,
    readSequence, readArray, beginArray, hsize, bind, Option.bind, gt_iff_lt, hmany, if_true]
  rfl

end Load

/-! ## The unlock jobs of a storage of version `0` -/

/-- A container as stored, with zero or empty values in the fields that no
operation of the model sets. -/
def StoredTransfersContainer.ofTransfersContainer (c : TransfersContainer) : StoredTransfersContainer :=
  let transaction (ti : TransactionInformation) : StoredTransactionInformation :=
    { toTransactionInformation := ti, publicKey := zeroPublicKey, totalAmountIn := 0, totalAmountOut := 0,
      extra := [], paymentId := ⟨Vector.replicate 32 0⟩, messages := [] }
  let output (t : TransactionOutputInformationEx) : StoredOutput :=
    { toTransactionOutputInformationEx := t, transactionPublicKey := zeroPublicKey, outputKey := zeroPublicKey,
      requiredSignatures := 0 }
  let spent (t : SpentTransactionOutput) : StoredSpentOutput :=
    { toStoredOutput := output t.toTransactionOutputInformationEx, spendingBlock := t.spendingBlock,
      spendingTransactionHash := t.spendingTransactionHash, inputInTransaction := t.inputInTransaction }
  ⟨c.transactions.map transaction, c.unconfirmedTransfers.map output, c.availableTransfers.map output,
    c.spentTransfers.map spent, c.transfersUnlockJobs, c.currentHeight, c.transactionSpendableAge⟩

theorem toTransfersContainer_ofTransfersContainer (c : TransfersContainer) :
    (StoredTransfersContainer.ofTransfersContainer c).toTransfersContainer = c := by
  simp [StoredTransfersContainer.ofTransfersContainer, toTransfersContainer, Function.comp_def,
    StoredSpentOutput.toSpentTransactionOutput]

namespace TransfersContainer

/-- `funding` confirmed at block 100, with the height advanced to that block. -/
def fundingAdvanced : TransfersContainer := stateOf (fundingConfirmed.advanceHeight 100)

/-- Then `spending`, which spends output 0 of `funding`, seen in no block yet. -/
def spendingPending : TransfersContainer := stateOf (fundingAdvanced.addTransaction unconfirmedBlock spending [])

theorem reachable_spendingPending : Reachable (fun _ _ => sampleKeyImage) 1 spendingPending := by
  have hadvanced : fundingConfirmed.advanceHeight 100 = .ok ([], fundingAdvanced) := by decide
  have hspent : fundingAdvanced.addTransaction unconfirmedBlock spending [] = .ok ((true, []), spendingPending) := by
    decide
  exact (reachable_fundingConfirmed.tail (.advanceHeight hadvanced)).tail
    (.addTransaction ⟨by decide, by decide⟩ hspent)

end TransfersContainer

/-- `spendingPending` as stored. -/
def spendingStored : StoredTransfersContainer :=
  StoredTransfersContainer.ofTransfersContainer TransfersContainer.spendingPending

/-- **A storage of version `0` unlocks a spent transfer.** In a container the
operations reach, at the height of the block that paid the wallet, spending a
transfer has deleted its unlock job; loaded from the form of version `0`, the
container gets the job back from `rebuildTransfersUnlockJobs`, and
`advanceHeight` to the next block then throws where the saved container's
succeeds. -/
theorem load_version0_unlocks_spent_transfer :
    TransfersContainer.Reachable (fun _ _ => TransfersContainer.sampleKeyImage) 1
        spendingStored.toTransfersContainer ∧ spendingStored.currentHeight = 100 ∧
      spendingStored.Indexed ∧ spendingStored.Fits ∧ spendingStored.transfersUnlockJobs = [] ∧
      ∃ c, load spendingStored (saveVersion0 spendingStored) = some c ∧
        c.transfersUnlockJobs = [⟨102, ⟨TransfersContainer.sampleHash 1, 0⟩⟩] ∧
        (spendingStored.toTransfersContainer.advanceHeight 101).toBool = true ∧
        ∃ c', c.toTransfersContainer.advanceHeight 101 = .error ("The output is supposed to be available", c') := by
  have hindexed : spendingStored.Indexed := by decide
  have hfits : spendingStored.Fits := by decide
  refine ⟨?_, by decide, hindexed, hfits, by decide, _,
    load_saveVersion0 spendingStored hindexed hfits, by decide, by decide, _, rfl⟩
  rw [spendingStored, toTransfersContainer_ofTransfersContainer]
  exact TransfersContainer.reachable_spendingPending

end Cn
