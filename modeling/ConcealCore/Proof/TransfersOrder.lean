import ConcealCore.Proof.TransfersLedger

/-!
# The transfers container in the consumer's order

A container the calls reach need not be consistent
(`detach_strands_spent_transfer`): a spender confirmed below the transaction it
spends survives a `detach` that deletes the other. A consumer hands the
container its blocks in height order, so every block it adds a transaction in,
or confirms one in, is at or above every recorded block (`NotBelowRecorded`).
`ConsumerStep` is `Step` in that order, and in it the container stays
consistent:

* `Ordered`: on top of `Consistent`, each transaction is recorded once, the
  records are in the order of the height index, and a spent transfer's
  transaction is recorded before its spender, in a block not above the
  spending one;
* each call keeps the ledger ordered: `Ordered.addTransaction`,
  `Ordered.markTransactionConfirmed`, `Ordered.deleteUnconfirmedTransaction`
  and `Ordered.detach`, while advancing the height leaves the ledger alone;
* `consumerReachable_ordered`: every container the calls reach in the
  consumer's order is ordered, and so consistent.

`detach` walks the height index down from its end, and deletes a transaction
only when no other transaction left spent one of its transfers
(`DetachWalk.safe`): a spender is recorded after what it spends, so the walk
met it first, and a spender the walk kept spent nothing from the blocks it
deletes.
-/

namespace Cn

namespace TransfersContainer

open Throwing

/-! ## The invariant -/

/-- **What a container keeps in the consumer's order**, on top of
`Consistent`: each transaction is recorded once, the records are sorted by
block as the height index iterates them, and a spent transfer's transaction
is recorded at or before the one that spent it, in a block not above the
spending one. -/
structure Ordered (c : TransfersContainer) : Prop extends Consistent c where
  hashes_nodup : (c.transactions.map (·.transactionHash)).Nodup
  sorted : MultiIndex.Sorted (fun t : TransactionInformation => t.blockHeight.toNat) c.transactions
  spender_after : ∀ s ∈ c.spentTransfers, s.transactionHash = s.spendingTransactionHash ∨
    [s.transactionHash, s.spendingTransactionHash].Sublist (c.transactions.map (·.transactionHash))
  spent_not_above : ∀ s ∈ c.spentTransfers, s.blockHeight ≤ s.spendingBlock.height

theorem Ordered.transferKeys_nodup {c : TransfersContainer} (hc : Ordered c) : (transferKeys c).Nodup :=
  hc.keys_nodup

/-- The ledger is all that `Ordered` reads. -/
theorem Ordered.of_ledger {c : TransfersContainer} (h : Ordered (ledger c)) : Ordered c where
  toConsistent := Consistent.of_ledger h.toConsistent
  hashes_nodup := h.hashes_nodup
  sorted := h.sorted
  spender_after := fun s hs => h.spender_after (spentWithoutVisibility s) (List.mem_map_of_mem hs)
  spent_not_above := fun s hs => h.spent_not_above (spentWithoutVisibility s) (List.mem_map_of_mem hs)

instance decidableOrdered (c : TransfersContainer) : Decidable (Ordered c) :=
  decidable_of_iff (Consistent c ∧ (c.transactions.map (·.transactionHash)).Nodup ∧
      c.transactions.Pairwise (fun a b : TransactionInformation => a.blockHeight.toNat ≤ b.blockHeight.toNat) ∧
      (∀ s ∈ c.spentTransfers, s.transactionHash = s.spendingTransactionHash ∨
        [s.transactionHash, s.spendingTransactionHash].Sublist (c.transactions.map (·.transactionHash))) ∧
      ∀ s ∈ c.spentTransfers, s.blockHeight ≤ s.spendingBlock.height)
    ⟨fun ⟨h₁, h₂, h₃, h₄, h₅⟩ => ⟨h₁, h₂, h₃, h₄, h₅⟩,
      fun h => ⟨h.toConsistent, h.hashes_nodup, h.sorted, h.spender_after, h.spent_not_above⟩⟩

/-- A spent transfer's transaction is recorded in a block, the transfer's. -/
theorem Consistent.source_recorded {c : TransfersContainer} (hc : Consistent c) {s : SpentTransactionOutput}
    (hs : s ∈ c.spentTransfers) : ∃ a ∈ c.transactions, a.transactionHash = s.transactionHash ∧
      a.blockHeight = s.blockHeight ∧ a.blockHeight ≠ WALLET_LEGACY_UNCONFIRMED_TRANSACTION_HEIGHT := by
  obtain ⟨a, ha, hhash, hheight, hconfirmed⟩ :=
    hc.confirmed_recorded _ (List.mem_append_right _ (List.mem_map_of_mem hs))
  exact ⟨a, ha, hhash, hheight, hheight ▸ hconfirmed⟩

/-- A transaction of no block has no transfer spent. -/
theorem Ordered.not_spent_of_unconfirmed {c : TransfersContainer} (hc : Ordered c) {t : TransactionInformation}
    (ht : t ∈ c.transactions) (hunconfirmed : t.blockHeight = WALLET_LEGACY_UNCONFIRMED_TRANSACTION_HEIGHT) :
    ∀ s ∈ c.spentTransfers, s.transactionHash ≠ t.transactionHash := by
  intro s hs hsource
  obtain ⟨r, hr, hrhash, -, hconfirmed⟩ := hc.source_recorded hs
  have hrt : r = t := List.inj_on_of_nodup_map hc.hashes_nodup hr ht (hrhash.trans hsource)
  subst hrt
  exact hconfirmed hunconfirmed

/-- An available or spent transfer is of a transaction recorded in a block. -/
theorem Ordered.confirmed_of_key {c : TransfersContainer} (hc : Ordered c) {k : TransactionOutputKey}
    (hk : k ∈ c.availableTransfers.map (·.getTransactionOutputKey) ++
      c.spentTransfers.map (·.getTransactionOutputKey)) :
    ∃ ti ∈ c.transactions, ti.transactionHash = k.transactionHash ∧
      ti.blockHeight ≠ WALLET_LEGACY_UNCONFIRMED_TRANSACTION_HEIGHT := by
  have hy : ∃ y ∈ c.availableTransfers ++ c.spentTransfers.map (·.toTransactionOutputInformationEx),
      y.getTransactionOutputKey = k := by
    rw [← List.mem_map, List.map_append, List.map_map]
    exact hk
  obtain ⟨y, hy, rfl⟩ := hy
  obtain ⟨ti, hti, hhash, hheight, hconfirmed⟩ := hc.confirmed_recorded y hy
  exact ⟨ti, hti, hhash, hheight ▸ hconfirmed⟩

/-! ## Deleting a transaction -/

/-- The records left when one transaction's record goes, while hashes are distinct. -/
theorem map_hash_eraseP {txs : List TransactionInformation} (hnodup : (txs.map (·.transactionHash)).Nodup)
    (h : Hash) :
    (txs.eraseP (·.transactionHash = h)).map (·.transactionHash) = (txs.map (·.transactionHash)).filter (· ≠ h) := by
  rw [MultiIndex.eraseP_key_eq_filter (fun t : TransactionInformation => t.transactionHash) hnodup, List.filter_map]
  rfl

/-- **Dropping a transaction keeps the order**, when every transfer of the
transaction that is spent was spent by the transaction itself. -/
theorem Ordered.dropTransaction {c : TransfersContainer} (hc : Ordered c) (h : Hash)
    (hsafe : ∀ s ∈ c.spentTransfers, s.transactionHash = h → s.spendingTransactionHash = h) :
    Ordered (c.dropTransaction h) where
  keys_nodup := by
    -- the keys are a selection from a rearrangement of the old ones
    have hperm : (c.unconfirmedTransfers.map (·.getTransactionOutputKey) ++
        (c.availableTransfers.map (·.getTransactionOutputKey) ++
          (c.spentTransfers.filter (·.spendingTransactionHash = h)).map (·.getTransactionOutputKey)) ++
        (c.spentTransfers.filter (fun s => !decide (s.spendingTransactionHash = h))).map
          (·.getTransactionOutputKey)).Perm (transferKeys c) := by
      rw [transferKeys, List.append_assoc, List.append_assoc, List.append_assoc]
      refine List.Perm.append_left _ (List.Perm.append_left _ ?_)
      rw [← List.map_append]
      exact (List.filter_append_perm _ _).map _
    refine (hperm.nodup_iff.mpr hc.keys_nodup).sublist ?_
    simp only [TransfersContainer.dropTransaction, ne_eq, decide_not]
    refine ((List.filter_sublist.map _).append ?_).append (List.Sublist.refl _)
    refine (List.filter_sublist.map _).trans ?_
    rw [List.map_append, List.map_map]
    exact List.Sublist.refl _
  unconfirmed_recorded := fun x hx => by
    obtain ⟨hx, hxh⟩ := List.mem_filter.mp hx
    obtain ⟨ti, hti, hhash, hheight⟩ := hc.unconfirmed_recorded x hx
    refine ⟨ti, (List.mem_eraseP_of_neg ?_).mpr hti, hhash, hheight⟩
    simpa [hhash] using hxh
  confirmed_recorded := fun x hx => by
    -- a transfer left is one the old container recorded, of a transaction other than the dropped one
    have hold : x ∈ c.availableTransfers ++ c.spentTransfers.map (·.toTransactionOutputInformationEx) ∧
        x.transactionHash ≠ h := by
      simp only [TransfersContainer.dropTransaction, List.mem_append, List.mem_filter, List.mem_map] at hx
      rcases hx with ⟨hx | ⟨s, hs, rfl⟩, hxh⟩ | ⟨s, ⟨hs, hsh⟩, rfl⟩
      · exact ⟨List.mem_append_left _ hx, by simpa using hxh⟩
      · exact ⟨List.mem_append_right _ (List.mem_map_of_mem hs.1), by simpa using hxh⟩
      · refine ⟨List.mem_append_right _ (List.mem_map_of_mem hs), fun hxh => ?_⟩
        simp only [decide_not, Bool.not_eq_eq_eq_not, Bool.not_true, decide_eq_false_iff_not] at hsh
        exact hsh (hsafe s hs hxh)
    obtain ⟨ti, hti, hhash, hheight, hconfirmed⟩ := hc.confirmed_recorded x hold.1
    exact ⟨ti, (List.mem_eraseP_of_neg (by simpa [hhash] using hold.2)).mpr hti, hhash, hheight, hconfirmed⟩
  spending_recorded := fun s hs => by
    obtain ⟨hs, hsh⟩ := List.mem_filter.mp hs
    obtain ⟨ti, hti, hhash, hheight⟩ := hc.spending_recorded s hs
    refine ⟨ti, (List.mem_eraseP_of_neg ?_).mpr hti, hhash, hheight⟩
    simpa [hhash] using hsh
  hashes_nodup := hc.hashes_nodup.sublist (List.eraseP_sublist.map _)
  sorted := hc.sorted.sublist List.eraseP_sublist
  spender_after := fun s hs => by
    obtain ⟨hs, hsh⟩ := List.mem_filter.mp hs
    have hspender : s.spendingTransactionHash ≠ h := by simpa using hsh
    have hsource : s.transactionHash ≠ h := fun hh => hspender (hsafe s hs hh)
    refine (hc.spender_after s hs).imp_right fun hpair => ?_
    rw [TransfersContainer.dropTransaction, map_hash_eraseP hc.hashes_nodup]
    have hkept : [s.transactionHash, s.spendingTransactionHash].filter (· ≠ h) =
        [s.transactionHash, s.spendingTransactionHash] := by
      simp [hsource, hspender]
    exact hkept ▸ hpair.filter _
  spent_not_above := fun s hs => hc.spent_not_above s (List.mem_of_mem_filter hs)

/-- **`deleteUnconfirmedTransaction` keeps the ledger ordered.** -/
theorem Ordered.deleteUnconfirmedTransaction {c : TransfersContainer} (hc : Ordered (ledger c))
    (transactionHash : Hash) : Ordered (ledger (c.deleteUnconfirmedTransaction transactionHash).2) := by
  unfold TransfersContainer.deleteUnconfirmedTransaction
  split
  · exact hc
  rename_i t hfind
  split_ifs with hconfirmed
  · exact hc
  have ht : t ∈ c.transactions := List.mem_of_find?_eq_some hfind
  rw [ledger_deleteTransaction c t (by rw [← transferKeys_ledger]; exact hc.keys_nodup)]
  exact hc.dropTransaction _ fun s hs hsource =>
    absurd hsource (hc.not_spent_of_unconfirmed ht (not_not.mp hconfirmed) s hs)

/-! ## Confirming a transaction -/

theorem le_unconfirmed (h : UInt32) : h ≤ WALLET_LEGACY_UNCONFIRMED_TRANSACTION_HEIGHT := by
  rw [UInt32.le_iff_toNat_le]
  have hlt := h.toNat_lt
  simp only [WALLET_LEGACY_UNCONFIRMED_TRANSACTION_HEIGHT, UInt32.reduceToNat]
  omega

theorem toNat_lt_unconfirmed {h : UInt32} (hh : h ≠ WALLET_LEGACY_UNCONFIRMED_TRANSACTION_HEIGHT) :
    h.toNat < WALLET_LEGACY_UNCONFIRMED_TRANSACTION_HEIGHT.toNat :=
  lt_of_le_of_ne (UInt32.le_iff_toNat_le.mp (le_unconfirmed h)) fun heq => hh (UInt32.toNat_inj.mp heq)

/-- No transaction is recorded in a block above `height`: the order in which a
consumer hands the container its blocks. -/
def NotBelowRecorded (c : TransfersContainer) (height : UInt32) : Prop :=
  ∀ ti ∈ c.transactions, ti.blockHeight ≠ WALLET_LEGACY_UNCONFIRMED_TRANSACTION_HEIGHT → ti.blockHeight ≤ height

instance decidableNotBelowRecorded (c : TransfersContainer) (height : UInt32) :
    Decidable (NotBelowRecorded c height) :=
  inferInstanceAs (Decidable (∀ ti ∈ c.transactions, _))

/-- **Confirming a transaction keeps the order**, in a block no recorded
transaction is above. -/
theorem Ordered.confirmTransaction {c : TransfersContainer} (hc : Ordered c) {block : TransactionBlockInfo}
    {globalIndices : List UInt32} {u : TransactionInformation} (hu : u ∈ c.transactions)
    (hunconfirmed : u.blockHeight = WALLET_LEGACY_UNCONFIRMED_TRANSACTION_HEIGHT)
    (hblock : block.height ≠ WALLET_LEGACY_UNCONFIRMED_TRANSACTION_HEIGHT) (horder : NotBelowRecorded c block.height) :
    Ordered (c.confirmTransaction block globalIndices
      { u with blockHeight := block.height, timestamp := block.timestamp }) := by
  set v : TransactionInformation := { u with blockHeight := block.height, timestamp := block.timestamp }
  have hv : v ∈ replaceTransaction c.transactions v := mem_replaceTransaction _ _
  have huv : u.transactionHash = v.transactionHash := rfl
  -- a confirmed record is not the one confirmed now, and stays
  have hother : ∀ ti ∈ c.transactions, ti.blockHeight ≠ WALLET_LEGACY_UNCONFIRMED_TRANSACTION_HEIGHT →
      ti.transactionHash ≠ v.transactionHash := fun ti hti hconfirmed hhash =>
    hconfirmed (List.inj_on_of_nodup_map hc.hashes_nodup hti hu hhash ▸ hunconfirmed)
  have hkept : ∀ ti ∈ c.transactions, ti.transactionHash ≠ v.transactionHash →
      ti ∈ replaceTransaction c.transactions v := fun ti hti hne =>
    mem_replaceTransaction_of_ne (v := v) hc.hashes_nodup hu huv hti hne
  -- what was confirmed stays so, in the same record
  have hconfirmed : ∀ x ∈ c.availableTransfers ++ c.spentTransfers.map (·.toTransactionOutputInformationEx),
      ∃ ti ∈ replaceTransaction c.transactions v, ti.transactionHash = x.transactionHash ∧
        ti.blockHeight = x.blockHeight ∧ x.blockHeight ≠ WALLET_LEGACY_UNCONFIRMED_TRANSACTION_HEIGHT := by
    intro x hx
    obtain ⟨ti, hti, hhash, hheight, hx⟩ := hc.confirmed_recorded x hx
    exact ⟨ti, hkept ti hti (hother ti hti (hheight ▸ hx)), hhash, hheight, hx⟩
  refine ⟨⟨?_, ?_, ?_, ?_⟩, ?_, ?_, ?_, ?_⟩
  · exact (transferKeys_confirmTransaction c block globalIndices v).nodup_iff.mpr hc.keys_nodup
  · intro x hx
    obtain ⟨hx, hxh⟩ := List.mem_filter.mp hx
    obtain ⟨ti, hti, hhash, hheight⟩ := hc.unconfirmed_recorded x hx
    exact ⟨ti, hkept ti hti (by simpa [hhash] using hxh), hhash, hheight⟩
  · intro x hx
    simp only [TransfersContainer.confirmTransaction, List.mem_append, List.mem_map] at hx
    rcases hx with (hx | ⟨y, hy, rfl⟩) | ⟨s', ⟨s, hs, rfl⟩, rfl⟩
    · exact hconfirmed x (List.mem_append_left _ hx)
    · -- a transfer of the transaction, now in its block
      obtain ⟨-, hyh⟩ := List.mem_filter.mp hy
      exact ⟨v, hv, (of_decide_eq_true hyh).symm, rfl, hblock⟩
    · have hs' := hconfirmed s.toTransactionOutputInformationEx (List.mem_append_right _ (List.mem_map_of_mem hs))
      split <;> exact hs'
  · intro s' hs'
    obtain ⟨s, hs, rfl⟩ := List.mem_map.mp hs'
    split
    · -- spent by the transaction, now in its block
      rename_i hspender
      exact ⟨v, hv, hspender.symm, rfl⟩
    · rename_i hspender
      obtain ⟨ti, hti, hhash, hheight⟩ := hc.spending_recorded s hs
      exact ⟨ti, hkept ti hti (hhash ▸ hspender), hhash, hheight⟩
  · exact (perm_map_hash_replaceTransaction hc.hashes_nodup hu huv).nodup_iff.mpr hc.hashes_nodup
  · exact sorted_replaceTransaction hc.hashes_nodup hu huv hc.sorted
  · intro s' hs'
    obtain ⟨s, hs, rfl⟩ := List.mem_map.mp hs'
    obtain ⟨a, ha, hahash, haheight, haconfirmed⟩ := hc.source_recorded hs
    have hpairs : s.transactionHash = s.spendingTransactionHash ∨ [s.transactionHash, s.spendingTransactionHash].Sublist
        ((replaceTransaction c.transactions v).map (·.transactionHash)) := by
      refine (hc.spender_after s hs).imp_right fun hpair => ?_
      by_cases hspender : s.spendingTransactionHash = v.transactionHash
      · -- the spender moves to the block, which is not below the transaction spent
        have hau : a.blockHeight.toNat < u.blockHeight.toNat := by
          rw [hunconfirmed]
          exact toNat_lt_unconfirmed haconfirmed
        rw [← hahash, hspender]
        exact pair_replaceTransaction hc.hashes_nodup hu huv hc.sorted ha hau
          (UInt32.le_iff_toNat_le.mp (horder a ha haconfirmed))
      · exact pair_replaceTransaction_of_ne hc.hashes_nodup hu huv hpair (hahash ▸ hother a ha haconfirmed) hspender
    split <;> exact hpairs
  · intro s' hs'
    obtain ⟨s, hs, rfl⟩ := List.mem_map.mp hs'
    split
    · obtain ⟨a, ha, -, haheight, haconfirmed⟩ := hc.source_recorded hs
      have hle := horder a ha haconfirmed
      rw [haheight] at hle
      exact hle
    · exact hc.spent_not_above s hs

/-- **`markTransactionConfirmed` keeps the ledger ordered**, in a block no
recorded transaction is above. -/
theorem Ordered.markTransactionConfirmed {c c' : TransfersContainer} (hc : Ordered (ledger c))
    {block : TransactionBlockInfo} {transactionHash : Hash} {globalIndices : List UInt32} {r : Bool}
    (horder : NotBelowRecorded c block.height)
    (h : c.markTransactionConfirmed block transactionHash globalIndices = .ok (r, c')) : Ordered (ledger c') := by
  rcases ledger_markTransactionConfirmed (by rw [← transferKeys_ledger]; exact hc.keys_nodup) h with
    hsame | ⟨u, hu, -, hunconfirmed, hblock, hconfirm⟩
  · rw [hsame]
    exact hc
  · rw [hconfirm]
    exact hc.confirmTransaction hu hunconfirmed hblock horder

/-! ## Adding a transaction -/

/-- **A fresh record keeps the order.** -/
theorem Ordered.insertRecord {c : TransfersContainer} (hc : Ordered c) {v : TransactionInformation}
    (hfresh : v.transactionHash ∉ c.transactions.map (·.transactionHash)) :
    Ordered { c with transactions := insertByHeight v c.transactions } := by
  have hsub : c.transactions.Sublist (insertByHeight v c.transactions) := by
    rw [insertByHeight_eq]
    exact MultiIndex.sublist_insert _ v _
  refine ⟨⟨hc.keys_nodup, ?_, ?_, ?_⟩, ?_, ?_, ?_, hc.spent_not_above⟩
  · intro x hx
    obtain ⟨ti, hti, hrecord⟩ := hc.unconfirmed_recorded x hx
    exact ⟨ti, hsub.subset hti, hrecord⟩
  · intro x hx
    obtain ⟨ti, hti, hrecord⟩ := hc.confirmed_recorded x hx
    exact ⟨ti, hsub.subset hti, hrecord⟩
  · intro s hs
    obtain ⟨ti, hti, hrecord⟩ := hc.spending_recorded s hs
    exact ⟨ti, hsub.subset hti, hrecord⟩
  · rw [insertByHeight_eq]
    exact ((MultiIndex.perm_insert _ v _).map _).nodup_iff.mpr (List.nodup_cons.mpr ⟨hfresh, hc.hashes_nodup⟩)
  · rw [insertByHeight_eq]
    exact MultiIndex.sorted_insert _ hc.sorted
  · intro s hs
    exact (hc.spender_after s hs).imp_right fun hpair => hpair.trans (hsub.map _)

theorem transferKeys_appendUnconfirmed (c : TransfersContainer) (x : TransactionOutputInformationEx) :
    (transferKeys { c with unconfirmedTransfers := c.unconfirmedTransfers ++ [x] }).Perm
      (x.getTransactionOutputKey :: transferKeys c) := by
  simp only [transferKeys, List.map_append, List.map_cons, List.map_nil, List.append_assoc, List.singleton_append]
  exact List.perm_middle

theorem transferKeys_appendAvailable (c : TransfersContainer) (x : TransactionOutputInformationEx) :
    (transferKeys { c with availableTransfers := c.availableTransfers ++ [x] }).Perm
      (x.getTransactionOutputKey :: transferKeys c) := by
  simp only [transferKeys, List.map_append, List.map_cons, List.map_nil, List.append_assoc, List.singleton_append]
  exact (List.perm_middle.append_left _).trans List.perm_middle

/-- An unconfirmed transfer of a transaction recorded in no block keeps the order. -/
theorem Ordered.emplaceUnconfirmed {c : TransfersContainer} (hc : Ordered c) {x : TransactionOutputInformationEx}
    {ti : TransactionInformation} (hti : ti ∈ c.transactions) (hhash : ti.transactionHash = x.transactionHash)
    (hunconfirmed : ti.blockHeight = WALLET_LEGACY_UNCONFIRMED_TRANSACTION_HEIGHT) :
    Ordered { c with unconfirmedTransfers := emplaceTransfer x c.unconfirmedTransfers } := by
  by_cases hmem : x.getTransactionOutputKey ∈ c.unconfirmedTransfers.map (·.getTransactionOutputKey)
  · rw [emplaceTransfer_eq, MultiIndex.emplace_of_mem _ hmem]
    exact hc
  rw [emplaceTransfer_eq, MultiIndex.emplace_of_not_mem _ hmem]
  -- no available or spent transfer is of the transaction, which is in no block
  have hnot : x.getTransactionOutputKey ∉ c.availableTransfers.map (·.getTransactionOutputKey) ++
      c.spentTransfers.map (·.getTransactionOutputKey) := fun hk => by
    obtain ⟨r, hr, hrhash, hconfirmed⟩ := hc.confirmed_of_key hk
    have hrt : r = ti := List.inj_on_of_nodup_map hc.hashes_nodup hr hti (hrhash.trans hhash.symm)
    exact hconfirmed (hrt ▸ hunconfirmed)
  refine ⟨⟨?_, ?_, hc.confirmed_recorded, hc.spending_recorded⟩, hc.hashes_nodup, hc.sorted, hc.spender_after,
    hc.spent_not_above⟩
  · refine (transferKeys_appendUnconfirmed c x).nodup_iff.mpr (List.nodup_cons.mpr ⟨?_, hc.keys_nodup⟩)
    rw [transferKeys, List.append_assoc, List.mem_append]
    exact fun hk => hk.elim hmem hnot
  · intro y hy
    rcases List.mem_append.mp hy with hy | hy
    · exact hc.unconfirmed_recorded y hy
    · obtain rfl := List.mem_singleton.mp hy
      exact ⟨ti, hti, hhash, hunconfirmed⟩

/-- An available transfer of a transaction recorded at its block keeps the
order, while no spent transfer is of the transaction. -/
theorem Ordered.emplaceAvailable {c : TransfersContainer} (hc : Ordered c) {x : TransactionOutputInformationEx}
    {ti : TransactionInformation} (hti : ti ∈ c.transactions) (hhash : ti.transactionHash = x.transactionHash)
    (hheight : ti.blockHeight = x.blockHeight)
    (hconfirmed : x.blockHeight ≠ WALLET_LEGACY_UNCONFIRMED_TRANSACTION_HEIGHT)
    (hspent : ∀ s ∈ c.spentTransfers, s.transactionHash ≠ x.transactionHash) :
    Ordered { c with availableTransfers := emplaceTransfer x c.availableTransfers } := by
  by_cases hmem : x.getTransactionOutputKey ∈ c.availableTransfers.map (·.getTransactionOutputKey)
  · rw [emplaceTransfer_eq, MultiIndex.emplace_of_mem _ hmem]
    exact hc
  rw [emplaceTransfer_eq, MultiIndex.emplace_of_not_mem _ hmem]
  -- no unconfirmed transfer is of the transaction, which is in a block
  have hunconfirmed : x.getTransactionOutputKey ∉ c.unconfirmedTransfers.map (·.getTransactionOutputKey) :=
    fun hk => by
      obtain ⟨y, hy, hyk⟩ := List.mem_map.mp hk
      obtain ⟨r, hr, hrhash, hrheight⟩ := hc.unconfirmed_recorded y hy
      have hrt : r = ti := List.inj_on_of_nodup_map hc.hashes_nodup hr hti
        (hrhash.trans ((congrArg TransactionOutputKey.transactionHash hyk).trans hhash.symm))
      exact hconfirmed (hheight ▸ hrt ▸ hrheight)
  have hnot_spent : x.getTransactionOutputKey ∉ c.spentTransfers.map (·.getTransactionOutputKey) := fun hk => by
    obtain ⟨s, hs, hsk⟩ := List.mem_map.mp hk
    exact hspent s hs (congrArg TransactionOutputKey.transactionHash hsk)
  refine ⟨⟨?_, hc.unconfirmed_recorded, ?_, hc.spending_recorded⟩, hc.hashes_nodup, hc.sorted, hc.spender_after,
    hc.spent_not_above⟩
  · refine (transferKeys_appendAvailable c x).nodup_iff.mpr (List.nodup_cons.mpr ⟨?_, hc.keys_nodup⟩)
    rw [transferKeys, List.mem_append, List.mem_append]
    exact fun hk => (hk.elim (fun hk => hk.elim hunconfirmed hmem)) hnot_spent
  · intro y hy
    rcases List.mem_append.mp hy with hy | hy
    · rcases List.mem_append.mp hy with hy | hy
      · exact hc.confirmed_recorded y (List.mem_append_left _ hy)
      · obtain rfl := List.mem_singleton.mp hy
        exact ⟨ti, hti, hhash, hheight, hconfirmed⟩
    · exact hc.confirmed_recorded y (List.mem_append_right _ hy)

/-- **Spending an available transfer keeps the order**: the transfer moves to
the spent ones, with its spender recorded at the spending block, after the
transfer's own transaction and in a block not below it. -/
theorem Ordered.spend {c : TransfersContainer} (hc : Ordered c) {s : SpentTransactionOutput}
    (ht : s.toTransactionOutputInformationEx ∈ c.availableTransfers)
    (hrecorded : ∃ ti ∈ c.transactions, ti.transactionHash = s.spendingTransactionHash ∧
      ti.blockHeight = s.spendingBlock.height)
    (hspender : s.transactionHash = s.spendingTransactionHash ∨
      [s.transactionHash, s.spendingTransactionHash].Sublist (c.transactions.map (·.transactionHash)))
    (hbelow : s.blockHeight ≤ s.spendingBlock.height) :
    Ordered { c with
      availableTransfers := c.availableTransfers.eraseP (·.getTransactionOutputKey = s.getTransactionOutputKey)
      spentTransfers := emplaceSpent s c.spentTransfers } := by
  refine ⟨⟨?_, hc.unconfirmed_recorded, ?_, ?_⟩, hc.hashes_nodup, hc.sorted, ?_, ?_⟩
  · -- the key of the transfer moves from the available ones to the spent ones
    have hperm : (c.unconfirmedTransfers.map (·.getTransactionOutputKey) ++
        (c.availableTransfers.eraseP (·.getTransactionOutputKey = s.getTransactionOutputKey)).map
          (·.getTransactionOutputKey) ++
        (c.spentTransfers.map (·.getTransactionOutputKey) ++ [s.getTransactionOutputKey])).Perm (transferKeys c) := by
      have havailable := MultiIndex.perm_map_eraseP (fun t : TransactionOutputInformationEx =>
        t.getTransactionOutputKey) ht
      rw [transferKeys, List.append_assoc, List.append_assoc]
      refine List.Perm.append_left _ ?_
      rw [← List.append_assoc]
      exact (List.perm_append_singleton _ _).trans (havailable.symm.append_right _)
    refine (hperm.nodup_iff.mpr hc.keys_nodup).sublist ?_
    rcases emplaceSpent_eq s c.spentTransfers with hS | hS <;> simp only [hS]
    · exact (List.sublist_append_left _ _).append_left _
    · rw [List.map_append, List.map_singleton]
  · intro y hy
    apply hc.confirmed_recorded y
    rcases List.mem_append.mp hy with hy | hy
    · exact List.mem_append_left _ (List.eraseP_subset hy)
    · obtain ⟨s', hs', rfl⟩ := List.mem_map.mp hy
      rcases mem_emplaceSpent hs' with hs' | rfl
      · exact List.mem_append_right _ (List.mem_map_of_mem hs')
      · exact List.mem_append_left _ ht
  · intro s' hs'
    rcases mem_emplaceSpent hs' with hs' | rfl
    · exact hc.spending_recorded s' hs'
    · exact hrecorded
  · intro s' hs'
    rcases mem_emplaceSpent hs' with hs' | rfl
    · exact hc.spender_after s' hs'
    · exact hspender
  · intro s' hs'
    rcases mem_emplaceSpent hs' with hs' | rfl
    · exact hc.spent_not_above s' hs'
    · exact hbelow

section AddTransaction

variable {block : TransactionBlockInfo} {tx : TransactionReader}

theorem mem_insertRecord (txs : List TransactionInformation) :
    transactionRecord block tx ∈ insertByHeight (transactionRecord block tx) txs :=
  mem_insertByHeight _ txs

/-- **A turn of the outputs loop keeps the container with the record ordered**,
while no spent transfer is of the transaction. -/
theorem ordered_addTransactionOutput {transfer : TransactionOutputInformationIn} {c c' : TransfersContainer}
    (hc : Ordered (ledger (c.addTransactionInfo block tx)))
    (hspent : ∀ s ∈ (ledger c).spentTransfers, s.transactionHash ≠ tx.transactionHash)
    (h : addTransactionOutput block tx transfer c = .ok c') :
    Ordered (ledger (c'.addTransactionInfo block tx)) ∧
      ∀ s ∈ (ledger c').spentTransfers, s.transactionHash ≠ tx.transactionHash := by
  rcases ledger_addTransactionOutput h with ⟨hunconfirmed, hturn⟩ | ⟨hconfirmed, hturn⟩ <;>
    obtain ⟨ht, hU, hA, hS⟩ := ledger_eq_iff.mp hturn <;>
    refine ⟨?_, by rw [hturn]; exact hspent⟩ <;>
    rw [ledger_addTransactionInfo, ht, hU, hA, hS]
  · exact hc.emplaceUnconfirmed (mem_insertRecord _) rfl hunconfirmed
  · exact hc.emplaceAvailable (mem_insertRecord _) rfl rfl hconfirmed hspent

/-- **A turn of the inputs loop keeps the container with the record ordered**,
when no recorded transaction is in a block above the transaction's. -/
theorem ordered_addTransactionInput {a : TransactionInput × Nat} {b b' : Bool} {c c' : TransfersContainer}
    (hc : Ordered (ledger (c.addTransactionInfo block tx))) (horder : NotBelowRecorded c block.height)
    (h : addTransactionInput block tx a (b, c) = .ok (b', c')) :
    Ordered (ledger (c'.addTransactionInfo block tx)) ∧ NotBelowRecorded c' block.height := by
  rcases addTransactionInput_ok h with ⟨-, rfl⟩ | ⟨-, t, ht, hturn⟩
  · exact ⟨hc, horder⟩
  rw [ledger_spendAvailable] at hturn
  obtain ⟨htxs, hU, hA, hS⟩ := ledger_eq_iff.mp hturn
  refine ⟨?_, fun ti hti => horder ti (htxs ▸ hti)⟩
  rw [ledger_addTransactionInfo, htxs, hU, hA, hS]
  rw [ledger_addTransactionInfo] at hc
  -- the transaction of the transfer spent is the spender itself, or recorded before it and not above it
  have hsorted : MultiIndex.Sorted (fun t : TransactionInformation => t.blockHeight.toNat) c.transactions :=
    hc.sorted.sublist (by rw [insertByHeight_eq]; exact MultiIndex.sublist_insert _ _ _)
  obtain ⟨r, hr, hrhash, hrheight, hrconfirmed⟩ := hc.confirmed_recorded (withoutVisibility t)
    (List.mem_append_left _ (List.mem_map_of_mem ht))
  have hplace : (t.transactionHash = tx.transactionHash ∧ t.blockHeight = block.height) ∨
      (t.blockHeight ≤ block.height ∧ [t.transactionHash, tx.transactionHash].Sublist
        ((insertByHeight (transactionRecord block tx) c.transactions).map (·.transactionHash))) := by
    rw [insertByHeight_eq] at hr ⊢
    rcases (MultiIndex.mem_insert _).mp hr with rfl | hr
    · exact .inl ⟨hrhash.symm, hrheight.symm⟩
    · have hle : t.blockHeight ≤ block.height := hrheight ▸ horder r hr (hrheight ▸ hrconfirmed)
      refine .inr ⟨hle, ?_⟩
      have hpair := (MultiIndex.pair_insert _ hsorted hr (v := transactionRecord block tx)
        (UInt32.le_iff_toNat_le.mp (hrheight ▸ hle))).map (·.transactionHash)
      rw [List.map_cons, List.map_singleton, hrhash] at hpair
      exact hpair
  refine hc.spend (s := spentWithoutVisibility (spentTransfer block tx a.2 t)) (List.mem_map_of_mem ht)
    ⟨transactionRecord block tx, mem_insertRecord _, rfl, rfl⟩ ?_ ?_
  · rcases hplace with ⟨hself, -⟩ | ⟨-, hpair⟩
    · exact .inl hself
    · exact .inr hpair
  · rcases hplace with ⟨-, hheight⟩ | ⟨hle, -⟩
    · exact UInt32.le_iff_toNat_le.mpr (congrArg UInt32.toNat hheight).le
    · exact hle

/-- The outputs loop, returning; with no outputs it changes nothing. -/
theorem ordered_addTransactionOutputs {transfers : List TransactionOutputInformationIn} {c c' : TransfersContainer}
    {added : Bool} (hc : Ordered (ledger (c.addTransactionInfo block tx)))
    (hspent : ∀ s ∈ (ledger c).spentTransfers, s.transactionHash ≠ tx.transactionHash)
    (h : c.addTransactionOutputs block tx transfers = .ok (added, c')) :
    Ordered (ledger (c'.addTransactionInfo block tx)) ∧ (added = false → c' = c) := by
  unfold addTransactionOutputs at h
  split at h
  · cases h
  rename_i c₁ hloop
  cases h
  refine ⟨(forEach_returning_inv (fun c => Ordered (ledger (c.addTransactionInfo block tx)) ∧
      ∀ s ∈ (ledger c).spentTransfers, s.transactionHash ≠ tx.transactionHash)
    (fun _ _ _ hs hturn => ordered_addTransactionOutput hs.1 hs.2 hturn) ⟨hc, hspent⟩ hloop).1, ?_⟩
  intro hnone
  have hempty : transfers = [] := by simpa using hnone
  subst hempty
  cases hloop
  rfl

/-- An inputs loop that ends with no input spending a transfer began so, and
changed nothing. -/
theorem forEach_addTransactionInput_unchanged :
    ∀ {l : List (TransactionInput × Nat)} {b : Bool} {c c' : TransfersContainer},
      forEach (addTransactionInput block tx) l (b, c) = .ok (false, c') → b = false ∧ c' = c
  | [], _, _, _, h => by
    cases h
    exact ⟨rfl, rfl⟩
  | _ :: _, _, _, _, h => by
    obtain ⟨⟨b₁, c₁⟩, h₁, hrest⟩ := forEach_cons_ok h
    obtain ⟨rfl, rfl⟩ := forEach_addTransactionInput_unchanged hrest
    rcases addTransactionInput_ok h₁ with ⟨rfl, rfl⟩ | ⟨hspent, -⟩
    · exact ⟨rfl, rfl⟩
    · cases hspent

/-- The inputs loop, returning; with no input spending a transfer it changes
nothing. -/
theorem ordered_addTransactionInputs {c c' : TransfersContainer} {added : Bool}
    (hc : Ordered (ledger (c.addTransactionInfo block tx))) (horder : NotBelowRecorded c block.height)
    (h : c.addTransactionInputs block tx = .ok (added, c')) :
    Ordered (ledger (c'.addTransactionInfo block tx)) ∧ (added = false → c' = c) := by
  unfold addTransactionInputs at h
  split at h
  · cases h
  rename_i r hloop
  cases h
  refine ⟨(forEach_returning_inv (fun st : Bool × TransfersContainer =>
      Ordered (ledger (st.2.addTransactionInfo block tx)) ∧ NotBelowRecorded st.2 block.height)
    (fun _ ⟨_, _⟩ ⟨_, _⟩ hs hturn => ordered_addTransactionInput hs.1 hs.2 hturn) ⟨hc, horder⟩ hloop).1, ?_⟩
  intro hnone
  subst hnone
  exact (forEach_addTransactionInput_unchanged hloop).2

end AddTransaction

/-- **`addTransaction` keeps the ledger ordered**, for a block no recorded
transaction is above. -/
theorem Ordered.addTransaction {c c' : TransfersContainer} (hc : Ordered (ledger c)) {block : TransactionBlockInfo}
    {tx : TransactionReader} {transfers : List TransactionOutputInformationIn}
    {r : Bool × List TransactionOutputInformation} (horder : NotBelowRecorded c block.height)
    (h : c.addTransaction block tx transfers = .ok (r, c')) : Ordered (ledger c') := by
  unfold TransfersContainer.addTransaction at h
  by_cases hlow : block.height < c.currentHeight
  · rw [if_pos hlow] at h
    cases h
  rw [if_neg hlow] at h
  by_cases hadded : c.transactions.any (·.transactionHash = tx.transactionHash)
  · rw [if_pos hadded] at h
    cases h
  rw [if_neg hadded] at h
  -- the transaction is not recorded yet, so none of the transfers is of it
  have hfresh : (transactionRecord block tx).transactionHash ∉ c.transactions.map (·.transactionHash) := by
    simpa [transactionRecord] using hadded
  have hspent : ∀ s ∈ (ledger c).spentTransfers, s.transactionHash ≠ tx.transactionHash := by
    intro s hs hhash
    obtain ⟨ti, hti, hti_hash⟩ := hc.spent_recorded hs
    exact hfresh (List.mem_map.mpr ⟨ti, hti, hti_hash.trans hhash⟩)
  rcases hout : c.addTransactionOutputs block tx transfers with ⟨what₁, c₁⟩ | ⟨outputsAdded, c₁⟩ <;>
    rw [hout] at h
  · cases h
  obtain ⟨hc₁, hsame₁⟩ := ordered_addTransactionOutputs
    (show Ordered (ledger (c.addTransactionInfo block tx)) from hc.insertRecord hfresh) hspent hout
  have horder₁ : NotBelowRecorded c₁ block.height := by
    have htxs : c₁.transactions = c.transactions := congrArg Prod.fst (addTransactionOutputs_ok_records hout)
    exact fun ti hti => horder ti (htxs ▸ hti)
  dsimp only at h
  rcases hin : c₁.addTransactionInputs block tx with ⟨what₂, c₂⟩ | ⟨inputsAdded, c₂⟩ <;> rw [hin] at h
  · cases h
  obtain ⟨hc₂, hsame₂⟩ := ordered_addTransactionInputs hc₁ horder₁ hin
  dsimp only at h
  -- recorded if either loop touched the container, and otherwise untouched
  have hc₃ : Ordered (ledger (if (outputsAdded || inputsAdded) = true then c₂.addTransactionInfo block tx else c₂)) := by
    split
    · exact hc₂
    · rename_i hnone
      simp only [Bool.or_eq_true, not_or, Bool.not_eq_true] at hnone
      rw [hsame₂ hnone.2, hsame₁ hnone.1]
      exact hc
  by_cases hconfirmed : block.height ≠ WALLET_LEGACY_UNCONFIRMED_TRANSACTION_HEIGHT
  · rw [if_pos hconfirmed] at h
    split at h
    · cases h
    · cases h
      rw [ledger_doAdvanceHeight ‹_›]
      exact hc₃
  · rw [if_neg hconfirmed] at h
    cases h
    exact hc₃

/-! ## `detach` -/

theorem any_spentBy_ledger (c : TransfersContainer) (h : Hash) (height : UInt32) :
    (c.spentTransfers.filter (·.spendingTransactionHash = h)).any (·.blockHeight ≥ height) =
      ((ledger c).spentTransfers.filter (·.spendingTransactionHash = h)).any (·.blockHeight ≥ height) := by
  simp only [ledger, List.filter_map, List.any_map]
  rfl

section Detach

variable (height : UInt32) (c₀ : TransfersContainer)

/-- What the walk of `detach` keeps, with `visited` the records walked so far
and `rest` those still to walk: the ledger stays ordered; the records are the
old ones, and those not yet walked are all there; a walked record still there
is of no block and spent nothing from a block at `height` or above. -/
structure DetachWalk (visited rest : List TransactionInformation) (c : TransfersContainer) : Prop where
  ordered : Ordered (ledger c)
  sublist : c.transactions.Sublist c₀.transactions
  rest_kept : ∀ x ∈ rest, x ∈ c.transactions
  visited_kept : ∀ x ∈ c.transactions, x ∈ visited →
    x.blockHeight = WALLET_LEGACY_UNCONFIRMED_TRANSACTION_HEIGHT ∧
      ∀ s ∈ (ledger c).spentTransfers, s.spendingTransactionHash = x.transactionHash → s.blockHeight < height

variable {height c₀}

/-- **A record the walk deletes has no transfer spent by another transaction
left**: a spender of its transfers is recorded after it, so it was walked
before, and a walked record still there spent nothing from this block. -/
theorem DetachWalk.safe {visited rest : List TransactionInformation} {t : TransactionInformation}
    {c : TransfersContainer} (hw : DetachWalk height c₀ visited (t :: rest) c)
    (hsplit : c₀.transactions.reverse = visited ++ t :: rest)
    (hnodup : (c₀.transactions.map (·.transactionHash)).Nodup)
    (hdel : t.blockHeight = WALLET_LEGACY_UNCONFIRMED_TRANSACTION_HEIGHT ∨ height ≤ t.blockHeight) :
    ∀ s ∈ (ledger c).spentTransfers, s.transactionHash = t.transactionHash →
      s.spendingTransactionHash = t.transactionHash := by
  intro s hs hsource
  have ht : t ∈ c.transactions := hw.rest_kept t List.mem_cons_self
  -- the transaction of the spent transfer is `t`, recorded at the transfer's block
  obtain ⟨r, hr, hrhash, hrheight, hconfirmed⟩ := hw.ordered.source_recorded hs
  have hrt : r = t := List.inj_on_of_nodup_map hw.ordered.hashes_nodup hr ht (hrhash.trans hsource)
  subst hrt
  rcases hdel with hunconfirmed | hge
  · exact absurd hunconfirmed hconfirmed
  rcases hw.ordered.spender_after s hs with hself | hpair
  · exact hself ▸ hsource
  exfalso
  -- the spender comes after `r` in the records, so before it in the walk
  obtain ⟨rc, hrc, hrchash, -⟩ := hw.ordered.spending_recorded s hs
  have hwalk : (visited.map (·.transactionHash) ++ r.transactionHash :: rest.map (·.transactionHash)) =
      (c₀.transactions.map (·.transactionHash)).reverse := by
    rw [← List.map_reverse, hsplit, List.map_append, List.map_cons]
  have hwalk_nodup := hwalk ▸ List.nodup_reverse.mpr hnodup
  have hrev : [s.spendingTransactionHash, r.transactionHash].Sublist
      (visited.map (·.transactionHash) ++ r.transactionHash :: rest.map (·.transactionHash)) := by
    rw [hwalk, ← hsource]
    exact List.reverse_sublist.mpr (hpair.trans (hw.sublist.map _))
  have hnot_visited : r.transactionHash ∉ visited.map (·.transactionHash) := fun hmem =>
    (List.nodup_append.mp hwalk_nodup).2.2 _ hmem _ List.mem_cons_self rfl
  have hnot_rest : r.transactionHash ∉ rest.map (·.transactionHash) :=
    (List.nodup_cons.mp (List.nodup_append.mp hwalk_nodup).2.1).1
  obtain ⟨v, hv, hvhash⟩ := List.mem_map.mp (MultiIndex.mem_of_pair_sublist hrev hnot_visited hnot_rest)
  -- the walked record is the spender's, still there: it spent nothing from this block
  have hv₀ : v ∈ c₀.transactions := List.mem_reverse.mp (hsplit ▸ List.mem_append_left _ hv)
  have hvrc : v = rc :=
    List.inj_on_of_nodup_map hnodup hv₀ (hw.sublist.subset hrc) (hvhash.trans hrchash.symm)
  subst hvrc
  have hbelow := (hw.visited_kept v hrc hv).2 s hs hrchash.symm
  exact UInt32.not_lt.mpr (hrheight ▸ hge) hbelow

/-- The walk after deleting `t`. -/
theorem DetachWalk.delete {visited rest : List TransactionInformation} {t : TransactionInformation}
    {c : TransfersContainer} (hw : DetachWalk height c₀ visited (t :: rest) c)
    (hsplit : c₀.transactions.reverse = visited ++ t :: rest)
    (hnodup : (c₀.transactions.map (·.transactionHash)).Nodup)
    (hdel : t.blockHeight = WALLET_LEGACY_UNCONFIRMED_TRANSACTION_HEIGHT ∨ height ≤ t.blockHeight) :
    DetachWalk height c₀ (visited ++ [t]) rest (c.deleteTransaction t) := by
  have hdrop := ledger_deleteTransaction c t (by rw [← transferKeys_ledger]; exact hw.ordered.keys_nodup)
  have htxs : (c.deleteTransaction t).transactions = c.transactions.eraseP (·.transactionHash = t.transactionHash) :=
    (congrArg TransfersContainer.transactions hdrop :)
  have hfilter := MultiIndex.eraseP_key_eq_filter (fun x : TransactionInformation => x.transactionHash)
    (show (c.transactions.map (·.transactionHash)).Nodup from hw.ordered.hashes_nodup) t.transactionHash
  have hrest : ∀ x ∈ rest, x.transactionHash ≠ t.transactionHash := by
    have hwalk := List.nodup_reverse.mpr hnodup
    rw [← List.map_reverse, hsplit, List.map_append, List.map_cons] at hwalk
    intro x hx hxt
    exact (List.nodup_cons.mp (List.nodup_append.mp hwalk).2.1).1 (hxt ▸ List.mem_map_of_mem hx)
  refine ⟨?_, ?_, ?_, ?_⟩
  · rw [hdrop]
    exact hw.ordered.dropTransaction _ (hw.safe hsplit hnodup hdel)
  · rw [htxs]
    exact List.eraseP_sublist.trans hw.sublist
  · intro x hx
    rw [htxs, hfilter]
    exact List.mem_filter.mpr ⟨hw.rest_kept x (List.mem_cons_of_mem t hx), by simpa using hrest x hx⟩
  · intro x hx hvisited
    rw [htxs, hfilter, List.mem_filter] at hx
    have hxt : x.transactionHash ≠ t.transactionHash := by simpa using hx.2
    have hxv : x ∈ visited := by
      rcases List.mem_append.mp hvisited with hxv | hxt'
      · exact hxv
      · exact absurd (congrArg TransactionInformation.transactionHash (List.mem_singleton.mp hxt')) hxt
    obtain ⟨hunconfirmed, hbelow⟩ := hw.visited_kept x hx.1 hxv
    refine ⟨hunconfirmed, fun s hs => hbelow s ?_⟩
    rw [hdrop] at hs
    exact List.mem_of_mem_filter hs

/-- The walk after keeping `t`, of no block and spending nothing from
`height` on. -/
theorem DetachWalk.keep {visited rest : List TransactionInformation} {t : TransactionInformation}
    {c : TransfersContainer} (hw : DetachWalk height c₀ visited (t :: rest) c)
    (hunconfirmed : t.blockHeight = WALLET_LEGACY_UNCONFIRMED_TRANSACTION_HEIGHT)
    (hnone : ¬ (c.spentTransfers.filter (·.spendingTransactionHash = t.transactionHash)).any
      (·.blockHeight ≥ height) = true) :
    DetachWalk height c₀ (visited ++ [t]) rest c := by
  rw [any_spentBy_ledger, List.any_eq_true, not_exists] at hnone
  refine ⟨hw.ordered, hw.sublist, fun x hx => hw.rest_kept x (List.mem_cons_of_mem t hx), ?_⟩
  intro x hx hvisited
  rcases List.mem_append.mp hvisited with hxv | hxt
  · exact hw.visited_kept x hx hxv
  · obtain rfl := List.mem_singleton.mp hxt
    refine ⟨hunconfirmed, fun s hs hspender => ?_⟩
    have hs' := hnone s
    simp only [List.mem_filter, hs, hspender, decide_true, and_true, true_and, ge_iff_le,
      decide_eq_true_eq] at hs'
    exact UInt32.not_le.mp hs'

/-- **The walk of `detach` keeps the ledger ordered.** -/
theorem ordered_detachLoop (hnodup : (c₀.transactions.map (·.transactionHash)).Nodup) :
    ∀ (rest visited : List TransactionInformation) (c : TransfersContainer) (deleted : List Hash),
      c₀.transactions.reverse = visited ++ rest → DetachWalk height c₀ visited rest c →
      Ordered (ledger (detachLoop height rest c deleted).1)
  | [], _, _, _, _, hw => hw.ordered
  | t :: rest, visited, c, deleted, hsplit, hw => by
    have hsplit' : c₀.transactions.reverse = (visited ++ [t]) ++ rest := by simpa using hsplit
    unfold detachLoop
    split_ifs with hunconfirmed hspent hge
    · exact ordered_detachLoop hnodup rest _ _ _ hsplit' (hw.delete hsplit hnodup (.inl hunconfirmed))
    · exact ordered_detachLoop hnodup rest _ _ _ hsplit' (hw.keep hunconfirmed hspent)
    · exact ordered_detachLoop hnodup rest _ _ _ hsplit' (hw.delete hsplit hnodup (.inr hge))
    · exact hw.ordered

end Detach

/-- **`detach` keeps the ledger ordered.** -/
theorem Ordered.detach {c c' : TransfersContainer} (hc : Ordered (ledger c)) {height : UInt32}
    {deleted : List Hash} {locked : List TransactionOutputInformation}
    {r : List Hash × List TransactionOutputInformation} (h : c.detach height deleted locked = .ok (r, c')) :
    Ordered (ledger c') := by
  have hwalk : Ordered (ledger (detachLoop height c.transactions.reverse c deleted).1) :=
    ordered_detachLoop hc.hashes_nodup c.transactions.reverse [] c deleted rfl
      ⟨hc, List.Sublist.refl _, fun _ hx => List.mem_reverse.mp hx, fun _ _ hx => absurd hx List.not_mem_nil⟩
  unfold TransfersContainer.detach at h
  dsimp only at h
  split at h
  · cases h
  · cases h
    exact hwalk

/-! ## Runs in the consumer's order -/

section ConsumerRuns

variable (keyImageOf : Hash → UInt32 → KeyImage)

/-- A call of the container that returns normally, in the order a consumer
makes it: a `Step` whose `addTransaction` and `markTransactionConfirmed` are
for a block no recorded transaction is above. -/
inductive ConsumerStep : TransfersContainer → TransfersContainer → Prop
  | addTransaction {c c' : TransfersContainer} {block : TransactionBlockInfo} {tx : TransactionReader}
      {transfers : List TransactionOutputInformationIn} {r : Bool × List TransactionOutputInformation}
      (hfit : TransfersFit keyImageOf tx transfers) (horder : NotBelowRecorded c block.height)
      (h : c.addTransaction block tx transfers = .ok (r, c')) : ConsumerStep c c'
  | markTransactionConfirmed {c c' : TransfersContainer} {block : TransactionBlockInfo} {transactionHash : Hash}
      {globalIndices : List UInt32} {r : Bool} (hheight : c.currentHeight ≤ block.height)
      (horder : NotBelowRecorded c block.height)
      (h : c.markTransactionConfirmed block transactionHash globalIndices = .ok (r, c')) : ConsumerStep c c'
  | deleteUnconfirmedTransaction (c : TransfersContainer) (transactionHash : Hash) :
      ConsumerStep c (c.deleteUnconfirmedTransaction transactionHash).2
  | advanceHeight {c c' : TransfersContainer} {height : UInt32} {r : List TransactionOutputInformation}
      (h : c.advanceHeight height = .ok (r, c')) : ConsumerStep c c'
  | detach {c c' : TransfersContainer} {height : UInt32} {deleted : List Hash}
      {locked : List TransactionOutputInformation} {r : List Hash × List TransactionOutputInformation}
      (h : c.detach height deleted locked = .ok (r, c')) : ConsumerStep c c'

/-- The containers calls in the consumer's order reach from a new one. -/
def ConsumerReachable (transactionSpendableAge : UInt64) (c : TransfersContainer) : Prop :=
  Relation.ReflTransGen (ConsumerStep keyImageOf) (empty transactionSpendableAge) c

variable {keyImageOf}

/-- A call in the consumer's order is a call. -/
theorem ConsumerStep.step {c c' : TransfersContainer} (h : ConsumerStep keyImageOf c c') : Step keyImageOf c c' := by
  cases h with
  | addTransaction hfit _ h => exact .addTransaction hfit h
  | markTransactionConfirmed hheight _ h => exact .markTransactionConfirmed hheight h
  | deleteUnconfirmedTransaction transactionHash => exact .deleteUnconfirmedTransaction _ transactionHash
  | advanceHeight h => exact .advanceHeight h
  | detach h => exact .detach h

theorem ConsumerReachable.reachable {transactionSpendableAge : UInt64} {c : TransfersContainer}
    (h : ConsumerReachable keyImageOf transactionSpendableAge c) : Reachable keyImageOf transactionSpendableAge c :=
  Relation.ReflTransGen.mono (fun _ _ => ConsumerStep.step) _ _ h

/-- **Every call in the consumer's order keeps the ledger ordered.** -/
theorem ConsumerStep.ordered {c c' : TransfersContainer} (hstep : ConsumerStep keyImageOf c c')
    (hc : Ordered (ledger c)) : Ordered (ledger c') := by
  cases hstep with
  | addTransaction _ horder h => exact hc.addTransaction horder h
  | markTransactionConfirmed _ horder h => exact hc.markTransactionConfirmed horder h
  | deleteUnconfirmedTransaction transactionHash => exact hc.deleteUnconfirmedTransaction transactionHash
  | advanceHeight h =>
    rw [ledger_doAdvanceHeight h]
    exact hc
  | detach h => exact hc.detach h

end ConsumerRuns

end TransfersContainer

end Cn
