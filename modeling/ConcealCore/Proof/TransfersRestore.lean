import ConcealCore.Proof.TransfersUntied

/-!
# Detaching the blocks just added

Blocks added on top of a container and detached again give it back, when no
two outputs share a key image (`Untied`): `detach_restores`. The records and
the unconfirmed and spent transfers come back as they were, the available
transfers and the unlock jobs as the same elements. Their order may differ:
the available transfers are a hashed index, and a job made anew goes after the
others of its unlock height. With two outputs under one key image the
visibility is not restored (`detach_after_adds_moves_visibility`).

The run is `AddedAbove`: `addTransaction` in blocks at or above the height, in
height order, with outputs of new key images, and `advanceHeight`, all
returning. Along it (`AddedAbove.inv`):

* the records are those of the container's blocks below the height, then the
  ones the run added, then the container's transactions of no block;
* dropping the last transaction added gives the ledger before it back, up to
  the order of the available transfers (`dropTransaction_addTransaction`);
* so the walk of `detach` down the added records drops them one by one, last
  first, and stops at the first record below the height, with the ledger of
  the container it started from (`Inv.undo`).
-/

namespace Cn

namespace TransfersContainer

open Throwing

/-! ## Ledgers equal up to the order of the available transfers -/

/-- Two containers with the same records and transfers, but for the order of
the available ones, which their hashed index does not keep. -/
def Similar (c d : TransfersContainer) : Prop :=
  c.transactions = d.transactions ∧ c.unconfirmedTransfers = d.unconfirmedTransfers ∧
    c.availableTransfers.Perm d.availableTransfers ∧ c.spentTransfers = d.spentTransfers

theorem Similar.refl (c : TransfersContainer) : Similar c c :=
  ⟨rfl, rfl, List.Perm.refl _, rfl⟩

theorem Similar.trans {c d e : TransfersContainer} (h₁ : Similar c d) (h₂ : Similar d e) : Similar c e :=
  ⟨h₁.1.trans h₂.1, h₁.2.1.trans h₂.2.1, h₁.2.2.1.trans h₂.2.2.1, h₁.2.2.2.trans h₂.2.2.2⟩

/-- Dropping a transaction from similar ledgers gives similar ledgers. -/
theorem Similar.dropTransaction {c d : TransfersContainer} (h : Similar c d) (hash : Hash) :
    Similar (c.dropTransaction hash) (d.dropTransaction hash) := by
  obtain ⟨ht, hU, hA, hS⟩ := h
  refine ⟨by rw [TransfersContainer.dropTransaction, TransfersContainer.dropTransaction, ht],
    by rw [TransfersContainer.dropTransaction, TransfersContainer.dropTransaction, hU], ?_,
    by rw [TransfersContainer.dropTransaction, TransfersContainer.dropTransaction, hS]⟩
  simp only [TransfersContainer.dropTransaction]
  rw [hS]
  exact (hA.append_right _).filter _

/-- Visible transfers are given back by their ledger. -/
theorem map_withVisible_withoutVisibility {ts : List TransactionOutputInformationEx}
    (h : ∀ t ∈ ts, t.visible = true) :
    (ts.map withoutVisibility).map (fun t => { t with visible := true }) = ts := by
  rw [List.map_map]
  conv_rhs => rw [← List.map_id ts]
  exact List.map_congr_left fun t ht => withVisible_eq_self (h t ht)

theorem map_withVisible_spentWithoutVisibility {ss : List SpentTransactionOutput}
    (h : ∀ s ∈ ss, s.visible = true) :
    (ss.map spentWithoutVisibility).map (fun s => { s with visible := true }) = ss := by
  rw [List.map_map]
  conv_rhs => rw [← List.map_id ss]
  exact List.map_congr_left fun s hs => spentWithVisible_eq_self (h s hs)

/-- **Untied containers with similar ledgers are similar**: every transfer of
both is visible, so the ledger gives it back. -/
theorem similar_of_ledger {c d : TransfersContainer} (hc : Untied c) (hd : Untied d)
    (h : Similar (ledger c) (ledger d)) : Similar c d := by
  obtain ⟨ht, hU, hA, hS⟩ := h
  have hvisible : ∀ {e : TransfersContainer}, Untied e →
      (∀ t ∈ e.unconfirmedTransfers, t.visible = true) ∧ (∀ t ∈ e.availableTransfers, t.visible = true) ∧
        ∀ s ∈ e.spentTransfers, s.visible = true := fun he =>
    ⟨fun t ht => he.visible t (by simp [allTransfers, ht]),
      fun t ht => he.visible t (by simp [allTransfers, ht]),
      fun s hs => he.visible _ (List.mem_append_right _ (List.mem_map_of_mem hs))⟩
  obtain ⟨hcU, hcA, hcS⟩ := hvisible hc
  obtain ⟨hdU, hdA, hdS⟩ := hvisible hd
  refine ⟨ht, ?_, ?_, ?_⟩
  · rw [← map_withVisible_withoutVisibility hcU, ← map_withVisible_withoutVisibility hdU]
    exact congrArg (List.map _) hU
  · rw [← map_withVisible_withoutVisibility hcA, ← map_withVisible_withoutVisibility hdA]
    exact hA.map _
  · rw [← map_withVisible_spentWithoutVisibility hcS, ← map_withVisible_spentWithoutVisibility hdS]
    exact congrArg (List.map _) hS

/-! ## Dropping a transaction just added -/

/-- What a consistent container holds of a transaction it has not recorded:
no transfer of it, and nothing it spent. -/
theorem Consistent.not_of_unrecorded {c : TransfersContainer} (hc : Consistent c) {hash : Hash}
    (hfresh : hash ∉ c.transactions.map (·.transactionHash)) :
    (∀ t ∈ c.unconfirmedTransfers, t.transactionHash ≠ hash) ∧
      (∀ t ∈ c.availableTransfers, t.transactionHash ≠ hash) ∧
      ∀ s ∈ c.spentTransfers, s.transactionHash ≠ hash ∧ s.spendingTransactionHash ≠ hash := by
  refine ⟨fun t ht hhash => ?_, fun t ht hhash => ?_, fun s hs => ⟨fun hhash => ?_, fun hhash => ?_⟩⟩
  · obtain ⟨ti, hti, hti_hash, -⟩ := hc.unconfirmed_recorded t ht
    exact hfresh (List.mem_map.mpr ⟨ti, hti, hti_hash.trans hhash⟩)
  · obtain ⟨ti, hti, hti_hash, -⟩ := hc.confirmed_recorded t (List.mem_append_left _ ht)
    exact hfresh (List.mem_map.mpr ⟨ti, hti, hti_hash.trans hhash⟩)
  · obtain ⟨ti, hti, hti_hash⟩ := hc.spent_recorded hs
    exact hfresh (List.mem_map.mpr ⟨ti, hti, hti_hash.trans hhash⟩)
  · obtain ⟨ti, hti, hti_hash, -⟩ := hc.spending_recorded s hs
    exact hfresh (List.mem_map.mpr ⟨ti, hti, hti_hash.trans hhash⟩)

/-- A record inserted and erased again, while its hash is new. -/
theorem eraseP_insertByHeight {v : TransactionInformation} :
    ∀ {txs : List TransactionInformation}, v.transactionHash ∉ txs.map (·.transactionHash) →
      (insertByHeight v txs).eraseP (·.transactionHash = v.transactionHash) = txs
  | [], _ => by simp [insertByHeight]
  | u :: us, hfresh => by
    rw [List.map_cons, List.mem_cons, not_or] at hfresh
    have hu : ¬decide (u.transactionHash = v.transactionHash) = true := by simpa [eq_comm] using hfresh.1
    unfold insertByHeight
    split
    · exact List.eraseP_cons_of_pos (by simp)
    · rw [List.eraseP_cons_of_neg (p := fun x : TransactionInformation => decide (x.transactionHash = v.transactionHash)) hu,
        eraseP_insertByHeight hfresh.2]

theorem addTransaction_ok_fresh {c c' : TransfersContainer} {block : TransactionBlockInfo} {tx : TransactionReader}
    {transfers : List TransactionOutputInformationIn} {r : Bool × List TransactionOutputInformation}
    (h : c.addTransaction block tx transfers = .ok (r, c')) :
    tx.transactionHash ∉ c.transactions.map (·.transactionHash) := by
  unfold TransfersContainer.addTransaction at h
  by_cases hlow : block.height < c.currentHeight
  · rw [if_pos hlow] at h
    cases h
  rw [if_neg hlow] at h
  by_cases hrecorded : c.transactions.any (·.transactionHash = tx.transactionHash)
  · rw [if_pos hrecorded] at h
    cases h
  simpa using hrecorded

/-- **Dropping a transaction just added in a block gives the ledger back**, up
to the order of the available transfers: its record and its outputs go, and
what it spent is available again. -/
theorem dropTransaction_addTransaction {c c' : TransfersContainer} (hc : Untied c) (hordered : Ordered (ledger c))
    {block : TransactionBlockInfo} {tx : TransactionReader} {transfers : List TransactionOutputInformationIn}
    {unlocked : List TransactionOutputInformation}
    (hconfirmed : block.height ≠ WALLET_LEGACY_UNCONFIRMED_TRANSACTION_HEIGHT)
    (hindices : (transfers.map (·.outputInTransaction)).Nodup)
    (hkeyImages : (keyImages c ++ (transfers.filter (·.type = .key)).map (·.keyImage)).Nodup)
    (h : c.addTransaction block tx transfers = .ok ((true, unlocked), c')) :
    Similar ((ledger c').dropTransaction tx.transactionHash) (ledger c) := by
  have hfresh := addTransaction_ok_fresh h
  obtain ⟨hU, hA, hS⟩ := (Consistent.of_ledger hordered.toConsistent).not_of_unrecorded hfresh
  obtain ⟨-, A, P, jobs, hP, hperm, -, rfl⟩ := addTransaction_untied hc hordered hconfirmed hindices hkeyImages h
  simp only [ledger, TransfersContainer.dropTransaction, if_true]
  refine ⟨eraseP_insertByHeight (v := transactionRecord block tx) hfresh, ?_, ?_, ?_⟩
  · -- no unconfirmed transfer is of the transaction
    rw [List.filter_eq_self]
    intro t ht
    obtain ⟨u, hu, rfl⟩ := List.mem_map.mp ht
    exact decide_eq_true (hU u hu)
  · -- the transfers it spent are back, and its own outputs go
    have hspent : ((c.spentTransfers ++ P).map spentWithoutVisibility).filter
        (·.spendingTransactionHash = tx.transactionHash) = P.map spentWithoutVisibility := by
      rw [List.map_append, List.filter_append, List.filter_eq_nil_iff.mpr, List.nil_append, List.filter_eq_self]
      · intro p hp
        obtain ⟨q, hq, rfl⟩ := List.mem_map.mp hp
        exact decide_eq_true (hP q hq)
      · intro s hs
        obtain ⟨u, hu, rfl⟩ := List.mem_map.mp hs
        exact fun h => (hS u hu).2 (of_decide_eq_true h)
    have hback := ((hperm.map withoutVisibility).filter fun t => decide (t.transactionHash ≠ tx.transactionHash))
    rw [List.map_append, List.map_map] at hback
    rw [hspent, List.map_map]
    refine hback.trans ?_
    rw [List.map_append, List.filter_append, List.filter_eq_self.mpr, (List.filter_eq_nil_iff).mpr, List.append_nil]
    · intro t ht
      obtain ⟨u, hu, rfl⟩ := List.mem_map.mp ht
      obtain ⟨x, -, rfl⟩ := List.mem_map.mp hu
      simp [outputTransfer]
    · intro t ht
      obtain ⟨u, hu, rfl⟩ := List.mem_map.mp ht
      exact decide_eq_true (hA u hu)
  · -- the spent transfers of other transactions are left
    have hkept : (c.spentTransfers.map spentWithoutVisibility).filter
        (·.spendingTransactionHash ≠ tx.transactionHash) = c.spentTransfers.map spentWithoutVisibility := by
      rw [List.filter_eq_self]
      intro s hs
      obtain ⟨u, hu, rfl⟩ := List.mem_map.mp hs
      exact decide_eq_true (hS u hu).2
    have hgone : (P.map spentWithoutVisibility).filter (·.spendingTransactionHash ≠ tx.transactionHash) = [] := by
      rw [List.filter_eq_nil_iff]
      intro p hp
      obtain ⟨q, hq, rfl⟩ := List.mem_map.mp hp
      exact fun h => of_decide_eq_true h (hP q hq)
    dsimp only
    rw [List.map_append, List.filter_append, hkept, hgone, List.append_nil]

/-! ## The records, and the walk of `detach` -/

/-- The ledger of an ordered container is ordered. -/
theorem Ordered.ledger {c : TransfersContainer} (hc : Ordered c) : Ordered (ledger c) where
  keys_nodup := by
    have hkeys := hc.transferKeys_nodup
    rwa [← transferKeys_ledger] at hkeys
  unconfirmed_recorded := fun t ht => by
    obtain ⟨u, hu, rfl⟩ := List.mem_map.mp ht
    exact hc.unconfirmed_recorded u hu
  confirmed_recorded := fun t ht => by
    rcases List.mem_append.mp ht with ht | ht
    · obtain ⟨u, hu, rfl⟩ := List.mem_map.mp ht
      exact hc.confirmed_recorded u (List.mem_append_left _ hu)
    · obtain ⟨s, hs, rfl⟩ := List.mem_map.mp ht
      obtain ⟨u, hu, rfl⟩ := List.mem_map.mp hs
      exact hc.confirmed_recorded u.toTransactionOutputInformationEx (List.mem_append_right _ (List.mem_map_of_mem hu))
  spending_recorded := fun s hs => by
    obtain ⟨u, hu, rfl⟩ := List.mem_map.mp hs
    exact hc.spending_recorded u hu
  hashes_nodup := hc.hashes_nodup
  sorted := hc.sorted
  spender_after := fun s hs => by
    obtain ⟨u, hu, rfl⟩ := List.mem_map.mp hs
    exact hc.spender_after u hu
  spent_not_above := fun s hs => by
    obtain ⟨u, hu, rfl⟩ := List.mem_map.mp hs
    exact hc.spent_not_above u hu

/-- The records of transactions in a block. -/
def confirmedRecords (c : TransfersContainer) : List TransactionInformation :=
  c.transactions.filter (·.blockHeight ≠ WALLET_LEGACY_UNCONFIRMED_TRANSACTION_HEIGHT)

/-- The records of transactions in no block. -/
def unconfirmedRecords (c : TransfersContainer) : List TransactionInformation :=
  c.transactions.filter (·.blockHeight = WALLET_LEGACY_UNCONFIRMED_TRANSACTION_HEIGHT)

/-- In the order of the height index the records of no block come last: their
height is the largest. -/
theorem eq_filter_confirmed_append {txs : List TransactionInformation}
    (hsorted : MultiIndex.Sorted (fun t : TransactionInformation => t.blockHeight.toNat) txs) :
    txs = txs.filter (·.blockHeight ≠ WALLET_LEGACY_UNCONFIRMED_TRANSACTION_HEIGHT) ++
      txs.filter (·.blockHeight = WALLET_LEGACY_UNCONFIRMED_TRANSACTION_HEIGHT) := by
  induction txs with
  | nil => rfl
  | cons x xs ih =>
    obtain ⟨hx, hxs⟩ := List.pairwise_cons.mp hsorted
    by_cases hxu : x.blockHeight = WALLET_LEGACY_UNCONFIRMED_TRANSACTION_HEIGHT
    · -- everything after a record of no block is of no block
      have hall : ∀ y ∈ xs, y.blockHeight = WALLET_LEGACY_UNCONFIRMED_TRANSACTION_HEIGHT := fun y hy =>
        UInt32.toNat_inj.mp (le_antisymm (UInt32.le_iff_toNat_le.mp (le_unconfirmed _)) (hxu ▸ hx y hy))
      rw [List.filter_cons_of_neg (by simpa using hxu), List.filter_cons_of_pos (by simpa using hxu),
        List.filter_eq_nil_iff.mpr fun y hy => by simpa using hall y hy,
        List.filter_eq_self.mpr fun y hy => by simpa using hall y hy]
      rfl
    · rw [List.filter_cons_of_pos (by simpa using hxu), List.filter_cons_of_neg (by simpa using hxu),
        List.cons_append, ← ih hxs]

/-- A record goes in after every record at or below its height. -/
theorem insertByHeight_append {v : TransactionInformation} {l₂ : List TransactionInformation}
    (h₂ : ∀ b ∈ l₂.head?, v.blockHeight < b.blockHeight) :
    ∀ {l₁ : List TransactionInformation}, (∀ a ∈ l₁, a.blockHeight ≤ v.blockHeight) →
      insertByHeight v (l₁ ++ l₂) = l₁ ++ v :: l₂
  | [], _ => by
    cases l₂ with
    | nil => rfl
    | cons b bs =>
      rw [List.nil_append, insertByHeight, if_pos (h₂ b rfl)]
      rfl
  | a :: as, h₁ => by
    rw [List.cons_append, insertByHeight, if_neg (UInt32.not_lt.mpr (h₁ a List.mem_cons_self)),
      insertByHeight_append h₂ fun a' ha' => h₁ a' (List.mem_cons_of_mem a ha')]
    rfl

/-- The walk of `detach` passes records of no block that spent nothing from the
height on. -/
theorem detachLoop_append_of_kept {height : UInt32} {c : TransfersContainer} {deleted : List Hash}
    {rest : List TransactionInformation} :
    ∀ {l : List TransactionInformation},
      (∀ t ∈ l, t.blockHeight = WALLET_LEGACY_UNCONFIRMED_TRANSACTION_HEIGHT ∧
        (c.spentTransfers.filter (·.spendingTransactionHash = t.transactionHash)).any
          (·.blockHeight ≥ height) = false) →
      detachLoop height (l ++ rest) c deleted = detachLoop height rest c deleted
  | [], _ => rfl
  | t :: ts, hkept => by
    obtain ⟨hunconfirmed, hnone⟩ := hkept t List.mem_cons_self
    rw [List.cons_append, detachLoop, if_pos hunconfirmed, hnone, if_neg Bool.false_ne_true]
    exact detachLoop_append_of_kept fun t' ht' => hkept t' (List.mem_cons_of_mem t ht')

/-- The walk of `detach` stops at a record of a block below the height. -/
theorem detachLoop_of_below {height : UInt32} {c : TransfersContainer} {deleted : List Hash}
    {l : List TransactionInformation}
    (hbelow : ∀ t ∈ l.head?, t.blockHeight ≠ WALLET_LEGACY_UNCONFIRMED_TRANSACTION_HEIGHT ∧ t.blockHeight < height) :
    detachLoop height l c deleted = (c, deleted) := by
  cases l with
  | nil => rfl
  | cons t ts =>
    obtain ⟨hconfirmed, hlt⟩ := hbelow t rfl
    rw [detachLoop, if_neg hconfirmed, if_neg (UInt32.not_le.mpr hlt)]

/-- Every unlock job of an untied container has its transfer available, so
looking the transfers of some of them up returns. -/
theorem Untied.availableOutputs_ok {c : TransfersContainer} (hc : Untied c) :
    ∀ {jobs : List TransferUnlockJob}, (∀ j ∈ jobs, j ∈ c.transfersUnlockJobs) →
      ∃ outputs, c.availableOutputs jobs = .ok outputs
  | [], _ => ⟨[], rfl⟩
  | j :: js, hjobs => by
    obtain ⟨outputs, houtputs⟩ := hc.availableOutputs_ok fun j' hj' => hjobs j' (List.mem_cons_of_mem j hj')
    have hkey : j.transactionOutputKey ∈ c.availableTransfers.map (·.getTransactionOutputKey) :=
      hc.jobKeys_perm.subset (List.mem_map_of_mem (hjobs j List.mem_cons_self))
    obtain ⟨t, ht, htk⟩ := List.mem_map.mp hkey
    obtain ⟨t', hfound⟩ := Option.isSome_iff_exists.mp
      (List.find?_isSome.mpr ⟨t, ht, decide_eq_true htk⟩ :
        (c.availableTransfers.find? (·.getTransactionOutputKey = j.transactionOutputKey)).isSome)
    refine ⟨t'.toTransactionOutputInformation :: outputs, ?_⟩
    rw [availableOutputs, getAvailableOutput, hfound]
    dsimp only
    rw [houtputs]

theorem Untied.getLockingTransfers_ok {c : TransfersContainer} (hc : Untied c) (prevHeight currentHeight : UInt32)
    (lockingTransfers : List TransactionOutputInformation) :
    ∃ outputs, c.getLockingTransfers prevHeight currentHeight lockingTransfers = .ok outputs := by
  unfold getLockingTransfers
  split
  · exact ⟨lockingTransfers, rfl⟩
  · obtain ⟨outputs, houtputs⟩ := hc.availableOutputs_ok fun j hj =>
      List.drop_subset _ _ (List.take_subset _ _ hj)
    refine ⟨lockingTransfers ++ outputs, ?_⟩
    dsimp only
    rw [houtputs]

/-! ## Blocks added, and detached -/

/-- **Blocks added at or above `height`**: the containers reached from `c₀` by
`addTransaction` in blocks at or above `height`, in height order, with outputs
of distinct indexes and new key images, and by `advanceHeight`, all returning;
`recorded` are the records the additions wrote, in order. -/
inductive AddedAbove (height : UInt32) (c₀ : TransfersContainer) :
    TransfersContainer → List TransactionInformation → Prop
  | start : AddedAbove height c₀ c₀ []
  | addTransaction {c c' : TransfersContainer} {recorded : List TransactionInformation}
      {block : TransactionBlockInfo} {tx : TransactionReader} {transfers : List TransactionOutputInformationIn}
      {added : Bool} {unlocked : List TransactionOutputInformation}
      (hrun : AddedAbove height c₀ c recorded) (habove : height ≤ block.height)
      (hconfirmed : block.height ≠ WALLET_LEGACY_UNCONFIRMED_TRANSACTION_HEIGHT)
      (horder : NotBelowRecorded c block.height) (hindices : (transfers.map (·.outputInTransaction)).Nodup)
      (hkeyImages : (keyImages c ++ (transfers.filter (·.type = .key)).map (·.keyImage)).Nodup)
      (h : c.addTransaction block tx transfers = .ok ((added, unlocked), c')) :
      AddedAbove height c₀ c' (if added then recorded ++ [transactionRecord block tx] else recorded)
  | advanceHeight {c c' : TransfersContainer} {recorded : List TransactionInformation} {newHeight : UInt32}
      {unlocked : List TransactionOutputInformation} (hrun : AddedAbove height c₀ c recorded)
      (h : c.advanceHeight newHeight = .ok (unlocked, c')) :
      AddedAbove height c₀ c' recorded

/-- **What holds along blocks added**: the container stays ordered and untied;
its records are those of `c₀` in blocks, then the ones added, then those of
`c₀` in no block; what it spent was spent in `c₀` or by a transaction added;
and the walk of `detach` from the records added down drops them, last first,
from any container with a similar ledger, giving the ledger of `c₀` back. -/
structure AddedAbove.Inv (height : UInt32) (c₀ c : TransfersContainer) (recorded : List TransactionInformation) :
    Prop where
  ordered : Ordered (ledger c)
  untied : Untied c
  age : c.transactionSpendableAge = c₀.transactionSpendableAge
  transactions : c.transactions = confirmedRecords c₀ ++ recorded ++ unconfirmedRecords c₀
  recorded_above : ∀ r ∈ recorded,
    height ≤ r.blockHeight ∧ r.blockHeight ≠ WALLET_LEGACY_UNCONFIRMED_TRANSACTION_HEIGHT
  spent : ∀ s ∈ c.spentTransfers,
    s ∈ c₀.spentTransfers ∨ s.spendingTransactionHash ∈ recorded.map (·.transactionHash)
  undo : ∀ d, Untied d → d.transactionSpendableAge = c₀.transactionSpendableAge → Similar (ledger d) (ledger c) →
    ∀ deleted, ∃ e, detachLoop height (recorded.reverse ++ (confirmedRecords c₀).reverse) d deleted =
      (e, deleted ++ (recorded.map (·.transactionHash)).reverse) ∧ Untied e ∧
      e.transactionSpendableAge = c₀.transactionSpendableAge ∧ Similar (ledger e) (ledger c₀)

theorem AddedAbove.Inv.advanceHeight {c c' : TransfersContainer} {recorded : List TransactionInformation}
    {newHeight : UInt32} {unlocked : List TransactionOutputInformation}
    (hinv : AddedAbove.Inv height c₀ c recorded) (h : c.advanceHeight newHeight = .ok (unlocked, c')) :
    AddedAbove.Inv height c₀ c' recorded := by
  obtain rfl := doAdvanceHeight_ok_eq h
  exact ⟨hinv.ordered, hinv.untied.withRecords c.transactions newHeight, hinv.age, hinv.transactions,
    hinv.recorded_above, hinv.spent, hinv.undo⟩

section Added

variable {height : UInt32} {c₀ : TransfersContainer}
  (hbelow : ∀ ti ∈ c₀.transactions, ti.blockHeight ≠ WALLET_LEGACY_UNCONFIRMED_TRANSACTION_HEIGHT →
    ti.blockHeight < height)

include hbelow

/-- **A transaction added in a block at or above the height keeps what holds**:
its record goes after the records of blocks, and the walk deletes it first,
giving the ledger before it back. -/
theorem AddedAbove.Inv.addTransaction {c c' : TransfersContainer} {recorded : List TransactionInformation}
    {block : TransactionBlockInfo} {tx : TransactionReader} {transfers : List TransactionOutputInformationIn}
    {added : Bool} {unlocked : List TransactionOutputInformation}
    (hinv : AddedAbove.Inv height c₀ c recorded) (habove : height ≤ block.height)
    (hconfirmed : block.height ≠ WALLET_LEGACY_UNCONFIRMED_TRANSACTION_HEIGHT)
    (horder : NotBelowRecorded c block.height) (hindices : (transfers.map (·.outputInTransaction)).Nodup)
    (hkeyImages : (keyImages c ++ (transfers.filter (·.type = .key)).map (·.keyImage)).Nodup)
    (h : c.addTransaction block tx transfers = .ok ((added, unlocked), c')) :
    AddedAbove.Inv height c₀ c' (if added then recorded ++ [transactionRecord block tx] else recorded) := by
  have hordered' := hinv.ordered.addTransaction horder h
  obtain ⟨huntied', A, P, jobs, hP, -, hnone, hc'⟩ :=
    addTransaction_untied hinv.untied hinv.ordered hconfirmed hindices hkeyImages h
  cases added with
  | false =>
    -- nothing touched: the container is `c` at another height
    obtain ⟨rfl, rfl⟩ := hnone rfl
    have hledger : ledger c' = ledger c := by simp [hc', ledger]
    refine ⟨hordered', huntied', by rw [hc']; exact hinv.age, by simpa [hc'] using hinv.transactions,
      hinv.recorded_above,
      fun s hs => hinv.spent s (by simpa [hc'] using hs), fun d hd hage hsim => hinv.undo d hd hage (hledger ▸ hsim)⟩
  | true =>
    rw [if_pos rfl]
    refine ⟨hordered', huntied', by rw [hc']; exact hinv.age, ?_, ?_, ?_, ?_⟩
    · -- the record goes after every record of a block, and before those of no block
      rw [hc', if_pos rfl, hinv.transactions]
      have hafter : ∀ b ∈ (unconfirmedRecords c₀).head?, block.height < b.blockHeight := fun b hb => by
        have hb' := of_decide_eq_true (List.mem_filter.mp (List.mem_of_mem_head? hb)).2
        rw [UInt32.lt_iff_toNat_lt, hb']
        exact toNat_lt_unconfirmed hconfirmed
      have hbefore : ∀ a ∈ confirmedRecords c₀ ++ recorded, a.blockHeight ≤ block.height := by
        intro a ha
        rcases List.mem_append.mp ha with ha | ha
        · have hlt := hbelow a (List.mem_of_mem_filter ha) (of_decide_eq_true (List.mem_filter.mp ha).2)
          rw [UInt32.lt_iff_toNat_lt] at hlt
          rw [UInt32.le_iff_toNat_le] at habove ⊢
          omega
        · exact horder a (by rw [hinv.transactions]; simp [ha]) (hinv.recorded_above a ha).2
      rw [@insertByHeight_append _ _ hafter (confirmedRecords c₀ ++ recorded) hbefore]
      simp
    · intro r hr
      rcases List.mem_append.mp hr with hr | hr
      · exact hinv.recorded_above r hr
      · rw [List.mem_singleton.mp hr]
        exact ⟨habove, hconfirmed⟩
    · -- the transfers spent are those of `c`, and those the new transaction spent
      intro s hs
      rw [hc'] at hs
      rcases List.mem_append.mp hs with hs | hs
      · rcases hinv.spent s hs with hs₀ | hadded
        · exact .inl hs₀
        · exact .inr (by simp only [List.map_append, List.mem_append]; exact .inl hadded)
      · exact .inr (by simp [hP s hs, transactionRecord])
    · -- the walk deletes the new record first, which gives the ledger before it back
      intro d hd hage hsim deleted
      obtain ⟨hd', hage'⟩ := hd.deleteTransaction (transactionRecord block tx)
      have hsim' : Similar (ledger (d.deleteTransaction (transactionRecord block tx))) (ledger c) := by
        rw [ledger_deleteTransaction d _ hd.keys_nodup]
        exact (hsim.dropTransaction _).trans
          (dropTransaction_addTransaction hinv.untied hinv.ordered hconfirmed hindices hkeyImages h)
      obtain ⟨e, hwalk, he, hage_e, hsim_e⟩ := hinv.undo _ hd' (hage'.trans hage) hsim'
        (deleted ++ [(transactionRecord block tx).transactionHash])
      refine ⟨e, ?_, he, hage_e, hsim_e⟩
      have hconfirmed' : (transactionRecord block tx).blockHeight ≠ WALLET_LEGACY_UNCONFIRMED_TRANSACTION_HEIGHT :=
        hconfirmed
      have habove' : (transactionRecord block tx).blockHeight ≥ height := habove
      rw [List.reverse_append, List.reverse_singleton, List.singleton_append, List.cons_append, detachLoop,
        if_neg hconfirmed', if_pos habove', hwalk]
      simp

variable (hordered₀ : Ordered (ledger c₀)) (huntied₀ : Untied c₀)

include hordered₀ huntied₀

theorem AddedAbove.Inv.start : AddedAbove.Inv height c₀ c₀ [] where
  ordered := hordered₀
  untied := huntied₀
  age := rfl
  transactions := by
    rw [List.append_nil]
    exact eq_filter_confirmed_append hordered₀.sorted
  recorded_above := by simp
  spent := fun s hs => .inl hs
  undo := fun d hd hage hsim deleted => by
    -- the walk meets a record of a block below the height first, if any
    refine ⟨d, ?_, hd, hage, hsim⟩
    rw [List.reverse_nil, List.nil_append, List.map_nil, List.reverse_nil, List.append_nil]
    refine detachLoop_of_below fun t ht => ?_
    have hmem : t ∈ confirmedRecords c₀ := List.mem_reverse.mp (List.mem_of_mem_head? ht)
    have hconfirmed := of_decide_eq_true (List.mem_filter.mp hmem).2
    exact ⟨hconfirmed, hbelow t (List.mem_of_mem_filter hmem) hconfirmed⟩

/-- What holds along blocks added holds along every run of them. -/
theorem AddedAbove.inv {c : TransfersContainer} {recorded : List TransactionInformation}
    (hrun : AddedAbove height c₀ c recorded) : AddedAbove.Inv height c₀ c recorded := by
  induction hrun with
  | start => exact AddedAbove.Inv.start hbelow hordered₀ huntied₀
  | addTransaction _ habove hconfirmed horder hindices hkeyImages h ih =>
    exact ih.addTransaction hbelow habove hconfirmed horder hindices hkeyImages h
  | advanceHeight _ h ih => exact ih.advanceHeight h

end Added

/-- **Detaching blocks just added gives the container back.** Take an ordered
container whose outputs have distinct key images, with every transfer visible
and every available one with its unlock job, and a height above each of its
blocks. After `addTransaction` in blocks at or above the height, in height
order, with outputs of distinct indexes and new key images, and
`advanceHeight`, all returning, `detach` at the height returns. It reports the
transactions added as deleted, last first, and the height drops below the
height. The records and the unconfirmed and spent transfers are as they were,
and the available transfers and the unlock jobs are the same up to order. -/
theorem detach_restores {height : UInt32} {c₀ c : TransfersContainer} {recorded : List TransactionInformation}
    (hordered : Ordered c₀) (huntied : Untied c₀)
    (hbelow : ∀ ti ∈ c₀.transactions, ti.blockHeight ≠ WALLET_LEGACY_UNCONFIRMED_TRANSACTION_HEIGHT →
      ti.blockHeight < height)
    (hrun : AddedAbove height c₀ c recorded) (deleted : List Hash) (locked : List TransactionOutputInformation) :
    ∃ locked' c', c.detach height deleted locked =
        .ok ((deleted ++ (recorded.map (·.transactionHash)).reverse, locked'), c') ∧
      c'.transactions = c₀.transactions ∧ c'.unconfirmedTransfers = c₀.unconfirmedTransfers ∧
      c'.availableTransfers.Perm c₀.availableTransfers ∧ c'.spentTransfers = c₀.spentTransfers ∧
      c'.transfersUnlockJobs.Perm c₀.transfersUnlockJobs ∧
      c'.currentHeight = if height = 0 then 0 else height - 1 := by
  have hinv := hrun.inv hbelow hordered.ledger huntied
  -- the walk passes the records of no block first: none spent a transfer of a block from the height on
  have hkept : ∀ t ∈ (unconfirmedRecords c₀).reverse,
      t.blockHeight = WALLET_LEGACY_UNCONFIRMED_TRANSACTION_HEIGHT ∧
        (c.spentTransfers.filter (·.spendingTransactionHash = t.transactionHash)).any
          (·.blockHeight ≥ height) = false := by
    intro t ht
    have htu : t ∈ unconfirmedRecords c₀ := List.mem_reverse.mp ht
    refine ⟨of_decide_eq_true (List.mem_filter.mp htu).2, List.any_eq_false.mpr fun s hs hge => ?_⟩
    obtain ⟨hs, hspender⟩ := List.mem_filter.mp hs
    rcases hinv.spent s hs with hs₀ | hadded
    · -- a transfer spent in `c₀` is of a block below the height
      obtain ⟨a, ha, -, hheight, hconfirmed⟩ := hordered.source_recorded hs₀
      exact UInt32.not_le.mpr (hheight ▸ hbelow a ha hconfirmed) (of_decide_eq_true hge)
    · -- and no transaction added is one of no block
      have hnodup := hinv.ordered.hashes_nodup
      simp only [ledger] at hnodup
      rw [hinv.transactions, List.map_append, List.nodup_append] at hnodup
      exact hnodup.2.2 _ (List.map_append ▸ List.mem_append_right _ hadded) _ (List.mem_map_of_mem htu)
        (of_decide_eq_true hspender)
  obtain ⟨e, hwalk, he, hage, hsim⟩ := hinv.undo c hinv.untied hinv.age (Similar.refl _) deleted
  obtain ⟨locked', hlock⟩ := (he.withRecords e.transactions (if height = 0 then 0 else height - 1)).getLockingTransfers_ok
    e.currentHeight (if height = 0 then 0 else height - 1) locked
  obtain ⟨ht, hU, hA, hS⟩ := similar_of_ledger he huntied hsim
  refine ⟨locked', { e with currentHeight := if height = 0 then 0 else height - 1 }, ?_, ht, hU, hA, hS, ?_, rfl⟩
  · unfold detach
    rw [hinv.transactions, List.reverse_append, List.reverse_append, detachLoop_append_of_kept hkept, hwalk]
    dsimp only
    rw [hlock]
  · -- the jobs are those of the same available transfers
    have hjobs : (availableJobs e).Perm (availableJobs c₀) := by
      rw [availableJobs, availableJobs, hage]
      exact hA.map _
    exact he.jobs_perm.trans (hjobs.trans huntied.jobs_perm.symm)

/-! ### Detaching a spend with its change -/

/-- The change output 0 of `spending`, of 3, under a key image of its own. -/
def spendingChange : TransactionOutputInformationIn :=
  { type := .key, amount := 3, globalOutputIndex := 9, outputInTransaction := 0, transactionHash := sampleHash 2,
    term := 0, keyImage := ⟨Vector.replicate 32 8⟩ }

def spendingAdded : TransfersContainer :=
  stateOf (fundingConfirmed.addTransaction ⟨101, 0, 0⟩ spending [spendingChange])

def spendingAdvanced : TransfersContainer :=
  stateOf (spendingAdded.advanceHeight 102)

/-- `funding` confirmed at block 100; block 101 spends its output with
`spending` and pays the change back, and the height moves to 102. `detach(101)`
deletes `spending` and gives the container of block 100 back. -/
theorem detach_restores_spendingAdvanced :
    Ordered fundingConfirmed ∧ Untied fundingConfirmed ∧
      (∀ ti ∈ fundingConfirmed.transactions, ti.blockHeight ≠ WALLET_LEGACY_UNCONFIRMED_TRANSACTION_HEIGHT →
        ti.blockHeight < 101) ∧
      AddedAbove 101 fundingConfirmed spendingAdvanced [transactionRecord ⟨101, 0, 0⟩ spending] ∧
      ∃ locked' c', spendingAdvanced.detach 101 [] [] =
          .ok (([] ++ ([transactionRecord ⟨101, 0, 0⟩ spending].map (·.transactionHash)).reverse, locked'), c') ∧
        c'.transactions = fundingConfirmed.transactions ∧
        c'.unconfirmedTransfers = fundingConfirmed.unconfirmedTransfers ∧
        c'.availableTransfers.Perm fundingConfirmed.availableTransfers ∧
        c'.spentTransfers = fundingConfirmed.spentTransfers ∧
        c'.transfersUnlockJobs.Perm fundingConfirmed.transfersUnlockJobs ∧
        c'.currentHeight = if (101 : UInt32) = 0 then 0 else 101 - 1 := by
  have hordered : Ordered fundingConfirmed := by decide
  have huntied : Untied fundingConfirmed := by decide
  have hbelow : ∀ ti ∈ fundingConfirmed.transactions,
      ti.blockHeight ≠ WALLET_LEGACY_UNCONFIRMED_TRANSACTION_HEIGHT → ti.blockHeight < 101 := by
    decide
  have hadd : fundingConfirmed.addTransaction ⟨101, 0, 0⟩ spending [spendingChange] =
      .ok ((true, []), spendingAdded) := by
    decide
  obtain ⟨unlocked, hadvance⟩ : ∃ unlocked, spendingAdded.advanceHeight 102 = .ok (unlocked, spendingAdvanced) :=
    ⟨_, rfl⟩
  have hrun : AddedAbove 101 fundingConfirmed spendingAdvanced [transactionRecord ⟨101, 0, 0⟩ spending] :=
    .advanceHeight (.addTransaction .start (by decide) (by decide) (by decide) (by decide) (by decide) hadd)
      hadvance
  exact ⟨hordered, huntied, hbelow, hrun, detach_restores hordered huntied hbelow hrun [] []⟩

end TransfersContainer

end Cn
