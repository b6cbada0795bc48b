import ConcealCore.Proof.Transfers
import ConcealCore.Lib.MultiIndex

/-!
# The ledger of the transfers container, and what the calls do to it

The ledger of a container (`ledger`) is its records and its three sets of
transfers, without the visibility flags, the unlock jobs and the height. It is
all that the consistency of the container reads (`Consistent.of_ledger`), and
no unlock job and no visibility update touches it. Each call that moves
transfers is stated on the ledger, while the output keys are distinct:

* `ledger_deleteTransaction`: `deleteTransaction` drops the transaction
  (`dropTransaction`): what it spent is available again, and its own transfers
  and its record go;
* `ledger_markTransactionConfirmed`: `markTransactionConfirmed`, returning,
  changes nothing or confirms a recorded transaction of no block
  (`confirmTransaction`);
* `ledger_addTransactionOutput` and `addTransactionInput_ok`: a turn of the
  loops of `addTransaction` adds an unconfirmed or an available transfer, or
  spends an available one (`ledger_spendAvailable`).

The height index is an ordered index of `MultiIndex`: `insertByHeight` is its
`insert` (`insertByHeight_eq`). `replaceTransaction` at a recorded transaction
keeps the other records in their order (`filter_sublist_replaceTransaction`),
the hashes (`perm_map_hash_replaceTransaction`) and the order of the index
(`sorted_replaceTransaction`).
-/

namespace Cn

namespace TransfersContainer

open Throwing

/-! ## The ledger -/

/-- A spent transfer with its visibility dropped. -/
def spentWithoutVisibility (s : SpentTransactionOutput) : SpentTransactionOutput :=
  { s with visible := false }

/-- The transactions and the transfers of a container, with the visibility
flags, the unlock jobs and the height left out. -/
def ledger (c : TransfersContainer) : TransfersContainer :=
  ⟨c.transactions, c.unconfirmedTransfers.map withoutVisibility, c.availableTransfers.map withoutVisibility,
    c.spentTransfers.map spentWithoutVisibility, [], 0, 0⟩

theorem ledger_eq_iff {c : TransfersContainer} {txs : List TransactionInformation}
    {U A : List TransactionOutputInformationEx} {S : List SpentTransactionOutput} :
    ledger c = ⟨txs, U, A, S, [], 0, 0⟩ ↔ c.transactions = txs ∧ c.unconfirmedTransfers.map withoutVisibility = U ∧
      c.availableTransfers.map withoutVisibility = A ∧ c.spentTransfers.map spentWithoutVisibility = S := by
  simp only [ledger, TransfersContainer.mk.injEq, and_true]

@[simp] theorem key_withoutVisibility (t : TransactionOutputInformationEx) :
    (withoutVisibility t).getTransactionOutputKey = t.getTransactionOutputKey := rfl

@[simp] theorem transactionHash_withoutVisibility (t : TransactionOutputInformationEx) :
    (withoutVisibility t).transactionHash = t.transactionHash := rfl

@[simp] theorem blockHeight_withoutVisibility (t : TransactionOutputInformationEx) :
    (withoutVisibility t).blockHeight = t.blockHeight := rfl

@[simp] theorem withoutVisibility_withoutVisibility (t : TransactionOutputInformationEx) :
    withoutVisibility (withoutVisibility t) = withoutVisibility t := rfl

@[simp] theorem toEx_spentWithoutVisibility (s : SpentTransactionOutput) :
    (spentWithoutVisibility s).toTransactionOutputInformationEx = withoutVisibility s.toTransactionOutputInformationEx :=
  rfl

@[simp] theorem spendingTransactionHash_spentWithoutVisibility (s : SpentTransactionOutput) :
    (spentWithoutVisibility s).spendingTransactionHash = s.spendingTransactionHash := rfl

@[simp] theorem spendingBlock_spentWithoutVisibility (s : SpentTransactionOutput) :
    (spentWithoutVisibility s).spendingBlock = s.spendingBlock := rfl

/-- Rewriting the visibility of some transfers leaves them as they were without it. -/
theorem map_withoutVisibility_map {ts : List TransactionOutputInformationEx}
    {g : TransactionOutputInformationEx → TransactionOutputInformationEx}
    (hg : ∀ t, withoutVisibility (g t) = withoutVisibility t) :
    (ts.map g).map withoutVisibility = ts.map withoutVisibility := by
  rw [List.map_map]
  exact List.map_congr_left fun t _ => hg t

@[simp] theorem unconfirmedTransfers_addUnlockJob (c : TransfersContainer) (o : TransactionOutputInformationEx) :
    (c.addUnlockJob o).unconfirmedTransfers = c.unconfirmedTransfers := by
  unfold addUnlockJob
  dsimp only
  split <;> rfl

@[simp] theorem availableTransfers_addUnlockJob (c : TransfersContainer) (o : TransactionOutputInformationEx) :
    (c.addUnlockJob o).availableTransfers = c.availableTransfers := by
  unfold addUnlockJob
  dsimp only
  split <;> rfl

@[simp] theorem spentTransfers_addUnlockJob (c : TransfersContainer) (o : TransactionOutputInformationEx) :
    (c.addUnlockJob o).spentTransfers = c.spentTransfers := by
  unfold addUnlockJob
  dsimp only
  split <;> rfl

@[simp] theorem ledger_addUnlockJob (c : TransfersContainer) (o : TransactionOutputInformationEx) :
    ledger (c.addUnlockJob o) = ledger c := by
  unfold addUnlockJob
  dsimp only
  split <;> rfl

@[simp] theorem ledger_deleteUnlockJob (c : TransfersContainer) (o : TransactionOutputInformationEx) :
    ledger (c.deleteUnlockJob o) = ledger c := rfl

@[simp] theorem ledger_updateTransfersVisibility (c : TransfersContainer) (k : KeyImage) :
    ledger (c.updateTransfersVisibility k) = ledger c := by
  have hset : ∀ d v (ts : List TransactionOutputInformationEx),
      (setVisibility d v ts).map withoutVisibility = ts.map withoutVisibility := by
    intro d v ts
    unfold setVisibility
    exact map_withoutVisibility_map fun t => by split <;> rfl
  unfold updateTransfersVisibility
  dsimp only
  split_ifs
  · simp only [ledger, hset, List.map_map]
    congr 1
    exact List.map_congr_left fun t _ => by simp only [Function.comp_apply]; split <;> rfl
  · simp only [ledger, hset]
    congr 1
    exact map_withoutVisibility_map fun t => by split <;> rfl
  · simp only [ledger, hset]

/-- The ledger is all that `Consistent` reads. -/
theorem Consistent.of_ledger {c : TransfersContainer} (h : Consistent (ledger c)) : Consistent c where
  keys_nodup := by
    have hkeys := h.keys_nodup
    simpa [ledger, List.map_map, Function.comp_def] using hkeys
  unconfirmed_recorded := fun t ht => h.unconfirmed_recorded (withoutVisibility t) (List.mem_map_of_mem ht)
  confirmed_recorded := fun t ht => by
    refine h.confirmed_recorded (withoutVisibility t) ?_
    rcases List.mem_append.mp ht with ht | ht
    · exact List.mem_append_left _ (List.mem_map_of_mem ht)
    · obtain ⟨s, hs, rfl⟩ := List.mem_map.mp ht
      exact List.mem_append_right _ (List.mem_map.mpr ⟨spentWithoutVisibility s, List.mem_map_of_mem hs, rfl⟩)
  spending_recorded := fun s hs => h.spending_recorded (spentWithoutVisibility s) (List.mem_map_of_mem hs)

/-! ## The indexes -/

theorem emplaceTransfer_eq (t : TransactionOutputInformationEx) (ts : List TransactionOutputInformationEx) :
    emplaceTransfer t ts = MultiIndex.emplace (·.getTransactionOutputKey) t ts := rfl

theorem map_withoutVisibility_emplaceTransfer (t : TransactionOutputInformationEx)
    (ts : List TransactionOutputInformationEx) :
    (emplaceTransfer t ts).map withoutVisibility = emplaceTransfer (withoutVisibility t) (ts.map withoutVisibility) := by
  rw [emplaceTransfer_eq, emplaceTransfer_eq]
  exact MultiIndex.map_emplace (fun t : TransactionOutputInformationEx => t.getTransactionOutputKey) withoutVisibility
    (fun _ => rfl) t ts

theorem map_withoutVisibility_eraseP (ts : List TransactionOutputInformationEx) (k : TransactionOutputKey) :
    (ts.eraseP (·.getTransactionOutputKey = k)).map withoutVisibility =
      (ts.map withoutVisibility).eraseP (·.getTransactionOutputKey = k) := by
  rw [List.eraseP_map]
  rfl

theorem map_spentWithoutVisibility_eraseP (ts : List SpentTransactionOutput) (k : TransactionOutputKey) :
    (ts.eraseP (·.getTransactionOutputKey = k)).map spentWithoutVisibility =
      (ts.map spentWithoutVisibility).eraseP (·.getTransactionOutputKey = k) := by
  rw [List.eraseP_map]
  rfl

@[simp] theorem map_key_withoutVisibility (ts : List TransactionOutputInformationEx) :
    (ts.map withoutVisibility).map (·.getTransactionOutputKey) = ts.map (·.getTransactionOutputKey) := by
  rw [List.map_map]
  rfl

@[simp] theorem map_key_spentWithoutVisibility (ts : List SpentTransactionOutput) :
    (ts.map spentWithoutVisibility).map (·.getTransactionOutputKey) = ts.map (·.getTransactionOutputKey) := by
  rw [List.map_map]
  rfl

theorem emplaceSpent_eq (t : SpentTransactionOutput) (ts : List SpentTransactionOutput) :
    emplaceSpent t ts = ts ∨ emplaceSpent t ts = ts ++ [t] := by
  unfold emplaceSpent
  split
  · exact .inl rfl
  · exact .inr rfl

theorem mem_emplaceSpent {t y : SpentTransactionOutput} {ts : List SpentTransactionOutput}
    (hy : y ∈ emplaceSpent t ts) : y ∈ ts ∨ y = t := by
  rcases emplaceSpent_eq t ts with h | h <;> rw [h] at hy
  · exact .inl hy
  · simpa using hy

theorem map_spentWithoutVisibility_emplaceSpent (t : SpentTransactionOutput) (ts : List SpentTransactionOutput) :
    (emplaceSpent t ts).map spentWithoutVisibility = emplaceSpent (spentWithoutVisibility t) (ts.map spentWithoutVisibility) := by
  have hany : (ts.map spentWithoutVisibility).any (fun u => u.getSpentOutputDescriptor =
      (spentWithoutVisibility t).getSpentOutputDescriptor ∨
        u.getTransactionOutputKey = (spentWithoutVisibility t).getTransactionOutputKey) =
      ts.any (fun u => u.getSpentOutputDescriptor = t.getSpentOutputDescriptor ∨
        u.getTransactionOutputKey = t.getTransactionOutputKey) := by
    rw [List.any_map]
    rfl
  unfold emplaceSpent
  rw [hany]
  split <;> simp

theorem insertByHeight_eq (v : TransactionInformation) (txs : List TransactionInformation) :
    insertByHeight v txs = MultiIndex.insert (fun t : TransactionInformation => t.blockHeight.toNat) v txs := by
  induction txs with
  | nil => rfl
  | cons u us ih =>
    unfold insertByHeight MultiIndex.insert
    rw [ih]
    simp only [UInt32.lt_iff_toNat_lt]

theorem le_of_fitsBetween {before after : List TransactionInformation} {v : TransactionInformation}
    (h : fitsBetween (before.getLast?.map (·.blockHeight)) (after.head?.map (·.blockHeight)) v.blockHeight = true) :
    (∀ b ∈ before.getLast?, b.blockHeight.toNat ≤ v.blockHeight.toNat) ∧
      ∀ a ∈ after.head?, v.blockHeight.toNat ≤ a.blockHeight.toNat := by
  unfold fitsBetween at h
  rw [Bool.and_eq_true, Option.all_eq_true, Option.all_eq_true] at h
  refine ⟨fun b hb => ?_, fun a ha => ?_⟩
  · have hb' := h.1 b.blockHeight (by rw [Option.mem_def.mp hb]; rfl)
    simpa [UInt32.le_iff_toNat_le] using hb'
  · have ha' := h.2 a.blockHeight (by rw [Option.mem_def.mp ha]; rfl)
    simpa [UInt32.le_iff_toNat_le] using ha'

/-- **`replaceTransaction` at a recorded transaction**, while the hashes are
distinct: the old record goes, and the new one takes its place if it fits
between the neighbours, or goes in by its height. -/
theorem replaceTransaction_of_mem {txs : List TransactionInformation} {u v : TransactionInformation}
    (hnodup : (txs.map (·.transactionHash)).Nodup) (hu : u ∈ txs) (huv : u.transactionHash = v.transactionHash) :
    ∃ before after, txs = before ++ u :: after ∧
      ((fitsBetween (before.getLast?.map (·.blockHeight)) (after.head?.map (·.blockHeight)) v.blockHeight = true ∧
          replaceTransaction txs v = before ++ v :: after) ∨
        replaceTransaction txs v = insertByHeight v (before ++ after)) := by
  set i := txs.findIdx (·.transactionHash = v.transactionHash) with hi_def
  have hi : i < txs.length := List.findIdx_lt_length_of_exists ⟨u, hu, by simpa using huv⟩
  have hsplit : txs = txs.take i ++ txs[i] :: txs.drop (i + 1) := by
    rw [← List.drop_eq_getElem_cons hi, List.take_append_drop]
  -- the record found is `u`, the one with the hash
  have hfound : txs[i] = u := by
    have hhash : txs[i].transactionHash = v.transactionHash := by
      simpa using List.findIdx_getElem (w := hi)
    exact List.inj_on_of_nodup_map hnodup (List.getElem_mem hi) hu (hhash.trans huv.symm)
  refine ⟨txs.take i, txs.drop (i + 1), hfound ▸ hsplit, ?_⟩
  unfold replaceTransaction
  dsimp only
  split
  · exact .inl ⟨‹_›, rfl⟩
  · exact .inr rfl

section Replace

variable {txs : List TransactionInformation} {u v : TransactionInformation}
  (hnodup : (txs.map (·.transactionHash)).Nodup) (hu : u ∈ txs) (huv : u.transactionHash = v.transactionHash)

include hnodup hu huv

/-- The other records stay, in their order. -/
theorem filter_sublist_replaceTransaction :
    (txs.filter (·.transactionHash ≠ v.transactionHash)).Sublist (replaceTransaction txs v) := by
  obtain ⟨before, after, rfl, hrep⟩ := replaceTransaction_of_mem hnodup hu huv
  have hdrop : ((before ++ u :: after).filter (·.transactionHash ≠ v.transactionHash)).Sublist (before ++ after) := by
    rw [List.filter_append, List.filter_cons_of_neg (by simp [huv])]
    exact List.filter_sublist.append List.filter_sublist
  rcases hrep with ⟨-, hrep⟩ | hrep <;> rw [hrep]
  · exact hdrop.trans ((List.sublist_cons_self v after).append_left before)
  · rw [insertByHeight_eq]
    exact hdrop.trans (MultiIndex.sublist_insert _ v _)

theorem mem_replaceTransaction_of_ne {x : TransactionInformation} (hx : x ∈ txs)
    (hxv : x.transactionHash ≠ v.transactionHash) : x ∈ replaceTransaction txs v :=
  (filter_sublist_replaceTransaction hnodup hu huv).subset (List.mem_filter.mpr ⟨hx, by simpa using hxv⟩)

/-- The hashes are the old ones, rearranged. -/
theorem perm_map_hash_replaceTransaction :
    ((replaceTransaction txs v).map (·.transactionHash)).Perm (txs.map (·.transactionHash)) := by
  obtain ⟨before, after, rfl, ⟨-, hrep⟩ | hrep⟩ := replaceTransaction_of_mem hnodup hu huv <;> rw [hrep]
  · simp [huv]
  · rw [insertByHeight_eq]
    refine ((MultiIndex.perm_insert _ v _).map _).trans ?_
    simp only [List.map_cons, List.map_append, huv]
    exact List.perm_middle.symm

theorem sorted_replaceTransaction
    (hsorted : MultiIndex.Sorted (fun t : TransactionInformation => t.blockHeight.toNat) txs) :
    MultiIndex.Sorted (fun t : TransactionInformation => t.blockHeight.toNat) (replaceTransaction txs v) := by
  obtain ⟨before, after, rfl, ⟨hfits, hrep⟩ | hrep⟩ := replaceTransaction_of_mem hnodup hu huv <;> rw [hrep]
  · exact MultiIndex.sorted_replace _ hsorted (le_of_fitsBetween hfits).1 (le_of_fitsBetween hfits).2
  · rw [insertByHeight_eq]
    exact MultiIndex.sorted_insert _ (hsorted.sublist ((List.sublist_cons_self u after).append_left before))

/-- **A record below the replaced one stays before the new record**, when the
new record is not below it. -/
theorem pair_replaceTransaction
    (hsorted : MultiIndex.Sorted (fun t : TransactionInformation => t.blockHeight.toNat) txs)
    {a : TransactionInformation} (ha : a ∈ txs) (hau : a.blockHeight.toNat < u.blockHeight.toNat)
    (hav : a.blockHeight.toNat ≤ v.blockHeight.toNat) :
    [a.transactionHash, v.transactionHash].Sublist ((replaceTransaction txs v).map (·.transactionHash)) := by
  obtain ⟨before, after, rfl, hrep⟩ := replaceTransaction_of_mem hnodup hu huv
  -- `a` is below `u`, so it is one of the records before it
  have hbefore : a ∈ before := by
    have hafter : ∀ y ∈ after, u.blockHeight.toNat ≤ y.blockHeight.toNat :=
      (List.pairwise_cons.mp (List.pairwise_append.mp hsorted).2.1).1
    rcases List.mem_append.mp ha with ha | ha
    · exact ha
    · rcases List.mem_cons.mp ha with rfl | ha
      · exact absurd hau (lt_irrefl _)
      · exact absurd hau (not_lt.mpr (hafter a ha))
  rcases hrep with ⟨-, hrep⟩ | hrep <;> rw [hrep]
  · exact ((List.singleton_sublist.mpr hbefore).append (List.singleton_sublist.mpr List.mem_cons_self)).map _
  · rw [insertByHeight_eq]
    refine (MultiIndex.pair_insert _ (hsorted.sublist ((List.sublist_cons_self u after).append_left before))
      (List.mem_append_left _ hbefore) hav).map _

theorem pair_replaceTransaction_of_ne {x y : Hash}
    (hxy : [x, y].Sublist (txs.map (·.transactionHash))) (hx : x ≠ v.transactionHash) (hy : y ≠ v.transactionHash) :
    [x, y].Sublist ((replaceTransaction txs v).map (·.transactionHash)) := by
  have hkept : [x, y].filter (· ≠ v.transactionHash) = [x, y] := by simp [hx, hy]
  have hfilter := hxy.filter (· ≠ v.transactionHash)
  rw [hkept, List.filter_map] at hfilter
  exact hfilter.trans ((filter_sublist_replaceTransaction hnodup hu huv).map _)

end Replace

/-! ## Deleting a transaction -/

/-- One turn of the first loop of `deleteTransactionTransfers`: the transfer
moves from the spent ones to the available ones. -/
theorem ledger_unspendTransfer (c : TransfersContainer) (it : SpentTransactionOutput) :
    ledger (c.unspendTransfer it) = ⟨c.transactions, c.unconfirmedTransfers.map withoutVisibility,
      emplaceTransfer (withoutVisibility it.toTransactionOutputInformationEx)
        (c.availableTransfers.map withoutVisibility),
      (c.spentTransfers.map spentWithoutVisibility).eraseP (·.getTransactionOutputKey = it.getTransactionOutputKey),
      [], 0, 0⟩ := by
  unfold unspendTransfer
  dsimp only
  split
  · rw [ledger_updateTransfersVisibility]
    simp [ledger, map_withoutVisibility_emplaceTransfer, map_spentWithoutVisibility_eraseP]
  · simp [ledger, map_withoutVisibility_emplaceTransfer, map_spentWithoutVisibility_eraseP]

/-- One turn of the second loop: the unconfirmed transfer goes. -/
theorem ledger_eraseUnconfirmedTransfer (c : TransfersContainer) (it : TransactionOutputInformationEx) :
    ledger (c.eraseUnconfirmedTransfer it) = ⟨c.transactions,
      (c.unconfirmedTransfers.map withoutVisibility).eraseP (·.getTransactionOutputKey = it.getTransactionOutputKey),
      c.availableTransfers.map withoutVisibility, c.spentTransfers.map spentWithoutVisibility, [], 0, 0⟩ := by
  unfold eraseUnconfirmedTransfer
  dsimp only
  split
  · rw [ledger_updateTransfersVisibility]
    simp [ledger, map_withoutVisibility_eraseP]
  · simp [ledger, map_withoutVisibility_eraseP]

/-- One turn of the third loop: the available transfer goes. -/
theorem ledger_eraseAvailableTransfer (c : TransfersContainer) (it : TransactionOutputInformationEx) :
    ledger (c.eraseAvailableTransfer it) = ⟨c.transactions, c.unconfirmedTransfers.map withoutVisibility,
      (c.availableTransfers.map withoutVisibility).eraseP (·.getTransactionOutputKey = it.getTransactionOutputKey),
      c.spentTransfers.map spentWithoutVisibility, [], 0, 0⟩ := by
  unfold eraseAvailableTransfer
  dsimp only
  split
  · rw [ledger_updateTransfersVisibility]
    simp [ledger, deleteUnlockJob, map_withoutVisibility_eraseP]
  · simp [ledger, deleteUnlockJob, map_withoutVisibility_eraseP]

/-- The first loop of `deleteTransactionTransfers`, over spent transfers none
of which is available: each moves to the available ones. -/
theorem ledger_foldl_unspendTransfer (S : List SpentTransactionOutput) (c : TransfersContainer)
    (hspent : (c.spentTransfers.map (·.getTransactionOutputKey)).Nodup)
    (havailable : (c.availableTransfers.map (·.getTransactionOutputKey) ++ S.map (·.getTransactionOutputKey)).Nodup) :
    ledger (S.foldl unspendTransfer c) = ⟨c.transactions, c.unconfirmedTransfers.map withoutVisibility,
      c.availableTransfers.map withoutVisibility ++ S.map (withoutVisibility ·.toTransactionOutputInformationEx),
      (c.spentTransfers.map spentWithoutVisibility).filter
        (·.getTransactionOutputKey ∉ S.map (·.getTransactionOutputKey)), [], 0, 0⟩ := by
  induction S generalizing c with
  | nil => simp [ledger]
  | cons x S ih =>
    rw [List.map_cons] at havailable
    have hx : x.getTransactionOutputKey ∉ (c.availableTransfers.map withoutVisibility).map
        (·.getTransactionOutputKey) := by
      rw [map_key_withoutVisibility]
      intro hmem
      exact (List.nodup_append.mp havailable).2.2 _ hmem _ List.mem_cons_self rfl
    have h₁ := ledger_unspendTransfer c x
    rw [emplaceTransfer_eq, MultiIndex.emplace_of_not_mem (fun t : TransactionOutputInformationEx =>
      t.getTransactionOutputKey) (x := withoutVisibility x.toTransactionOutputInformationEx) hx,
      MultiIndex.eraseP_key_eq_filter (fun t : SpentTransactionOutput => t.getTransactionOutputKey)
        (by rwa [map_key_spentWithoutVisibility])] at h₁
    set c₁ := c.unspendTransfer x
    obtain ⟨ht, hU, hA, hS⟩ := ledger_eq_iff.mp h₁
    have hspent' : (c₁.spentTransfers.map (·.getTransactionOutputKey)).Nodup := by
      rw [← map_key_spentWithoutVisibility, hS]
      exact (by rwa [map_key_spentWithoutVisibility] : ((c.spentTransfers.map spentWithoutVisibility).map
        (·.getTransactionOutputKey)).Nodup).sublist (List.filter_sublist.map _)
    have havailable' : (c₁.availableTransfers.map (·.getTransactionOutputKey) ++
        S.map (·.getTransactionOutputKey)).Nodup := by
      rw [← map_key_withoutVisibility, hA]
      simpa only [List.map_append, map_key_withoutVisibility, List.map_cons, List.map_nil, List.append_assoc,
        List.singleton_append, key_withoutVisibility] using havailable
    rw [List.foldl_cons, ih c₁ hspent' havailable', ht, hU, hA, hS]
    simp only [List.map_cons, List.append_assoc, List.singleton_append, List.filter_filter]
    congr 2
    funext y
    simp [Bool.and_comm]

/-- The second loop, over unconfirmed transfers: each goes. -/
theorem ledger_foldl_eraseUnconfirmedTransfer (S : List TransactionOutputInformationEx) (c : TransfersContainer)
    (hnodup : (c.unconfirmedTransfers.map (·.getTransactionOutputKey)).Nodup) :
    ledger (S.foldl eraseUnconfirmedTransfer c) = ⟨c.transactions,
      (c.unconfirmedTransfers.map withoutVisibility).filter
        (·.getTransactionOutputKey ∉ S.map (·.getTransactionOutputKey)),
      c.availableTransfers.map withoutVisibility, c.spentTransfers.map spentWithoutVisibility, [], 0, 0⟩ := by
  induction S generalizing c with
  | nil => simp [ledger]
  | cons x S ih =>
    have h₁ := ledger_eraseUnconfirmedTransfer c x
    rw [MultiIndex.eraseP_key_eq_filter (fun t : TransactionOutputInformationEx => t.getTransactionOutputKey)
      (by rwa [map_key_withoutVisibility])] at h₁
    set c₁ := c.eraseUnconfirmedTransfer x
    obtain ⟨ht, hU, hA, hS⟩ := ledger_eq_iff.mp h₁
    have hnodup' : (c₁.unconfirmedTransfers.map (·.getTransactionOutputKey)).Nodup := by
      rw [← map_key_withoutVisibility, hU]
      exact (by rwa [map_key_withoutVisibility] : ((c.unconfirmedTransfers.map withoutVisibility).map
        (·.getTransactionOutputKey)).Nodup).sublist (List.filter_sublist.map _)
    rw [List.foldl_cons, ih c₁ hnodup', ht, hU, hA, hS]
    simp only [List.map_cons, List.filter_filter]
    congr 2
    funext y
    simp [Bool.and_comm]

/-- The third loop, over available transfers: each goes. -/
theorem ledger_foldl_eraseAvailableTransfer (S : List TransactionOutputInformationEx) (c : TransfersContainer)
    (hnodup : (c.availableTransfers.map (·.getTransactionOutputKey)).Nodup) :
    ledger (S.foldl eraseAvailableTransfer c) = ⟨c.transactions, c.unconfirmedTransfers.map withoutVisibility,
      (c.availableTransfers.map withoutVisibility).filter
        (·.getTransactionOutputKey ∉ S.map (·.getTransactionOutputKey)),
      c.spentTransfers.map spentWithoutVisibility, [], 0, 0⟩ := by
  induction S generalizing c with
  | nil => simp [ledger]
  | cons x S ih =>
    have h₁ := ledger_eraseAvailableTransfer c x
    rw [MultiIndex.eraseP_key_eq_filter (fun t : TransactionOutputInformationEx => t.getTransactionOutputKey)
      (by rwa [map_key_withoutVisibility])] at h₁
    set c₁ := c.eraseAvailableTransfer x
    obtain ⟨ht, hU, hA, hS⟩ := ledger_eq_iff.mp h₁
    have hnodup' : (c₁.availableTransfers.map (·.getTransactionOutputKey)).Nodup := by
      rw [← map_key_withoutVisibility, hA]
      exact (by rwa [map_key_withoutVisibility] : ((c.availableTransfers.map withoutVisibility).map
        (·.getTransactionOutputKey)).Nodup).sublist (List.filter_sublist.map _)
    rw [List.foldl_cons, ih c₁ hnodup', ht, hU, hA, hS]
    simp only [List.map_cons, List.filter_filter]
    congr 2
    funext y
    simp [Bool.and_comm]

theorem map_key_filter_hash (ts : List TransactionOutputInformationEx) (h : Hash) :
    (ts.filter (·.transactionHash = h)).map (·.getTransactionOutputKey) =
      ((ts.map withoutVisibility).filter (·.transactionHash = h)).map (·.getTransactionOutputKey) := by
  rw [List.filter_map, List.map_map]
  rfl

theorem map_key_filter_spendingHash (ts : List SpentTransactionOutput) (h : Hash) :
    (ts.filter (·.spendingTransactionHash = h)).map (·.getTransactionOutputKey) =
      ((ts.map spentWithoutVisibility).filter (·.spendingTransactionHash = h)).map (·.getTransactionOutputKey) := by
  rw [List.filter_map, List.map_map]
  rfl

/-- The output keys of the three sets, in order. -/
def transferKeys (c : TransfersContainer) : List TransactionOutputKey :=
  c.unconfirmedTransfers.map (·.getTransactionOutputKey) ++ c.availableTransfers.map (·.getTransactionOutputKey) ++
    c.spentTransfers.map (·.getTransactionOutputKey)

@[simp] theorem transferKeys_ledger (c : TransfersContainer) : transferKeys (ledger c) = transferKeys c := by
  simp only [transferKeys, ledger, map_key_withoutVisibility, map_key_spentWithoutVisibility]

/-- **`deleteTransactionTransfers`**, while the output keys are distinct:
what the transaction spent is available again, and its own transfers go. -/
theorem ledger_deleteTransactionTransfers (c : TransfersContainer) (h : Hash) (hkeys : (transferKeys c).Nodup) :
    ledger (c.deleteTransactionTransfers h) = ⟨c.transactions,
      (c.unconfirmedTransfers.map withoutVisibility).filter (·.transactionHash ≠ h),
      (c.availableTransfers.map withoutVisibility ++
        ((c.spentTransfers.map spentWithoutVisibility).filter (·.spendingTransactionHash = h)).map
          (·.toTransactionOutputInformationEx)).filter (·.transactionHash ≠ h),
      (c.spentTransfers.map spentWithoutVisibility).filter (·.spendingTransactionHash ≠ h), [], 0, 0⟩ := by
  rw [transferKeys, List.nodup_append, List.nodup_append] at hkeys
  obtain ⟨⟨hU, hA, -⟩, hS, hUAS⟩ := hkeys
  unfold deleteTransactionTransfers
  dsimp only
  -- the transfers the transaction spent are none of the available ones
  have hS₁ : (c.availableTransfers.map (·.getTransactionOutputKey) ++
      (c.spentTransfers.filter (·.spendingTransactionHash = h)).map (·.getTransactionOutputKey)).Nodup := by
    refine List.nodup_append.mpr ⟨hA, hS.sublist (List.filter_sublist.map _), ?_⟩
    intro a ha b hb
    exact hUAS a (List.mem_append_right _ ha) b ((List.filter_sublist.map _).subset hb)
  -- the first loop
  set c₁ := (c.spentTransfers.filter (·.spendingTransactionHash = h)).foldl unspendTransfer c
  obtain ⟨ht₁, hU₁, hA₁, hS₁'⟩ := ledger_eq_iff.mp (ledger_foldl_unspendTransfer _ c hS hS₁)
  -- the second loop
  have hU₁nodup : (c₁.unconfirmedTransfers.map (·.getTransactionOutputKey)).Nodup := by
    rw [← map_key_withoutVisibility, hU₁, map_key_withoutVisibility]
    exact hU
  set c₂ := (c₁.unconfirmedTransfers.filter (·.transactionHash = h)).foldl eraseUnconfirmedTransfer c₁
  obtain ⟨ht₂, hU₂, hA₂, hS₂⟩ := ledger_eq_iff.mp
    (ledger_foldl_eraseUnconfirmedTransfer (c₁.unconfirmedTransfers.filter (·.transactionHash = h)) c₁ hU₁nodup)
  -- the third loop
  have hA₁nodup : ((c.availableTransfers.map withoutVisibility ++
      (c.spentTransfers.filter (·.spendingTransactionHash = h)).map
        (withoutVisibility ·.toTransactionOutputInformationEx)).map (·.getTransactionOutputKey)).Nodup := by
    rw [List.map_append, map_key_withoutVisibility, List.map_map]
    exact hS₁
  have hA₂nodup : (c₂.availableTransfers.map (·.getTransactionOutputKey)).Nodup := by
    rw [← map_key_withoutVisibility, hA₂, hA₁]
    exact hA₁nodup
  have h₃ := ledger_foldl_eraseAvailableTransfer (c₂.availableTransfers.filter (·.transactionHash = h)) c₂
    hA₂nodup
  -- each loop walks, by key, the ledger's own selection
  rw [h₃, map_key_filter_hash, hA₂, hA₁, MultiIndex.filter_key_not_mem_filter _ hA₁nodup, hU₂,
    map_key_filter_hash, hU₁, MultiIndex.filter_key_not_mem_filter _ (by rwa [map_key_withoutVisibility]), hS₂,
    hS₁', map_key_filter_spendingHash,
    MultiIndex.filter_key_not_mem_filter _ (by rwa [map_key_spentWithoutVisibility]), ht₂, ht₁]
  simp only [List.filter_map, List.map_map, Function.comp_def, toEx_spentWithoutVisibility, ne_eq,
    decide_not, transactionHash_withoutVisibility, spendingTransactionHash_spentWithoutVisibility]
  rfl

/-- A transaction dropped from a container: what it spent is available again,
its own transfers go, and so does its record. -/
def dropTransaction (c : TransfersContainer) (h : Hash) : TransfersContainer :=
  { c with
    transactions := c.transactions.eraseP (·.transactionHash = h)
    unconfirmedTransfers := c.unconfirmedTransfers.filter (·.transactionHash ≠ h)
    availableTransfers := (c.availableTransfers ++
      (c.spentTransfers.filter (·.spendingTransactionHash = h)).map (·.toTransactionOutputInformationEx)).filter
        (·.transactionHash ≠ h)
    spentTransfers := c.spentTransfers.filter (·.spendingTransactionHash ≠ h) }

/-- **`deleteTransaction` drops the transaction**, while the output keys are
distinct. -/
theorem ledger_deleteTransaction (c : TransfersContainer) (t : TransactionInformation)
    (hkeys : (transferKeys c).Nodup) :
    ledger (c.deleteTransaction t) = (ledger c).dropTransaction t.transactionHash := by
  have hdel := ledger_deleteTransactionTransfers c t.transactionHash hkeys
  have ht : (c.deleteTransactionTransfers t.transactionHash).transactions = c.transactions :=
    (congrArg TransfersContainer.transactions hdel :)
  unfold deleteTransaction
  dsimp only
  rw [show ∀ (r : TransfersContainer) (l : List TransactionInformation),
      ledger { r with transactions := l } = { ledger r with transactions := l } from fun _ _ => rfl, hdel, ht]
  rfl

/-! ## Confirming a transaction -/

/-- A transfer as `confirmTransfer` moves it to the block. -/
def confirmedTransfer (block : TransactionBlockInfo) (globalIndices : List UInt32)
    (t : TransactionOutputInformationEx) : TransactionOutputInformationEx :=
  { t with
    blockHeight := block.height
    transactionIndex := block.transactionIndex
    globalOutputIndex := globalIndices.getD t.outputInTransaction.toNat 0 }

@[simp] theorem key_confirmedTransfer (block : TransactionBlockInfo) (globalIndices : List UInt32)
    (t : TransactionOutputInformationEx) :
    (confirmedTransfer block globalIndices t).getTransactionOutputKey = t.getTransactionOutputKey := rfl

/-- One turn of the first loop of `markTransactionConfirmed`, returning: the
transfer moves from the unconfirmed ones to the available ones, in the block. -/
theorem ledger_confirmTransfer {block : TransactionBlockInfo} {globalIndices : List UInt32}
    {x : TransactionOutputInformationEx} {c c' : TransfersContainer}
    (h : confirmTransfer block globalIndices x c = .ok c') :
    ledger c' = ⟨c.transactions,
      (c.unconfirmedTransfers.map withoutVisibility).eraseP (·.getTransactionOutputKey = x.getTransactionOutputKey),
      emplaceTransfer (withoutVisibility (confirmedTransfer block globalIndices x))
        (c.availableTransfers.map withoutVisibility),
      c.spentTransfers.map spentWithoutVisibility, [], 0, 0⟩ := by
  unfold confirmTransfer at h
  dsimp only at h
  split_ifs at h with hlen hmulti hkey <;> cases h <;>
    simp only [ledger_updateTransfersVisibility, ledger_eq_iff, transactions_addUnlockJob,
      unconfirmedTransfers_addUnlockJob, availableTransfers_addUnlockJob, spentTransfers_addUnlockJob,
      map_withoutVisibility_eraseP, map_withoutVisibility_emplaceTransfer] <;>
    and_intros <;> trivial

/-- The first loop of `markTransactionConfirmed`, returning, over unconfirmed
transfers none of which is available: each moves to the available ones. -/
theorem ledger_forEach_confirmTransfer (block : TransactionBlockInfo) (globalIndices : List UInt32) :
    ∀ (X : List TransactionOutputInformationEx) (c c' : TransfersContainer),
      (c.unconfirmedTransfers.map (·.getTransactionOutputKey)).Nodup →
      (c.availableTransfers.map (·.getTransactionOutputKey) ++ X.map (·.getTransactionOutputKey)).Nodup →
      forEach (confirmTransfer block globalIndices) X c = .ok c' →
      ledger c' = ⟨c.transactions, (c.unconfirmedTransfers.map withoutVisibility).filter
          (·.getTransactionOutputKey ∉ X.map (·.getTransactionOutputKey)),
        c.availableTransfers.map withoutVisibility ++
          X.map (withoutVisibility <| confirmedTransfer block globalIndices ·),
        c.spentTransfers.map spentWithoutVisibility, [], 0, 0⟩
  | [], c, c', _, _, h => by
    cases h
    simp [ledger]
  | x :: X, c, c', hunconfirmed, havailable, h => by
    obtain ⟨c₁, h₁, hrest⟩ := forEach_cons_ok h
    rw [List.map_cons] at havailable
    have hx : (withoutVisibility (confirmedTransfer block globalIndices x)).getTransactionOutputKey ∉
        (c.availableTransfers.map withoutVisibility).map (·.getTransactionOutputKey) := by
      rw [map_key_withoutVisibility]
      intro hmem
      exact (List.nodup_append.mp havailable).2.2 _ hmem _ List.mem_cons_self rfl
    have hturn := ledger_confirmTransfer h₁
    rw [emplaceTransfer_eq, MultiIndex.emplace_of_not_mem (fun t : TransactionOutputInformationEx =>
      t.getTransactionOutputKey) hx, MultiIndex.eraseP_key_eq_filter (fun t : TransactionOutputInformationEx =>
        t.getTransactionOutputKey) (by rwa [map_key_withoutVisibility])] at hturn
    obtain ⟨ht, hU, hA, hS⟩ := ledger_eq_iff.mp hturn
    have hunconfirmed₁ : (c₁.unconfirmedTransfers.map (·.getTransactionOutputKey)).Nodup := by
      rw [← map_key_withoutVisibility, hU]
      exact (by rwa [map_key_withoutVisibility] : ((c.unconfirmedTransfers.map withoutVisibility).map
        (·.getTransactionOutputKey)).Nodup).sublist (List.filter_sublist.map _)
    have havailable₁ : (c₁.availableTransfers.map (·.getTransactionOutputKey) ++
        X.map (·.getTransactionOutputKey)).Nodup := by
      rw [← map_key_withoutVisibility, hA]
      simpa only [List.map_append, map_key_withoutVisibility, List.map_cons, List.map_nil, List.append_assoc,
        List.singleton_append, key_withoutVisibility, key_confirmedTransfer] using havailable
    rw [ledger_forEach_confirmTransfer block globalIndices X c₁ c' hunconfirmed₁ havailable₁ hrest, ht, hU, hA, hS]
    simp only [List.map_cons, List.append_assoc, List.singleton_append, List.filter_filter]
    congr 2
    funext y
    simp [Bool.and_comm]

theorem spentWithoutVisibility_ite (p : Prop) [Decidable p] (t : SpentTransactionOutput)
    (block : TransactionBlockInfo) :
    spentWithoutVisibility (if p then { t with spendingBlock := block } else t) =
      if p then { spentWithoutVisibility t with spendingBlock := block } else spentWithoutVisibility t := by
  split <;> rfl

/-- A transaction confirmed: its record `v` replaces the old one, its
unconfirmed transfers are available in the block, and the transfers it spent
are spent in the block. -/
def confirmTransaction (c : TransfersContainer) (block : TransactionBlockInfo) (globalIndices : List UInt32)
    (v : TransactionInformation) : TransfersContainer :=
  { c with
    transactions := replaceTransaction c.transactions v
    unconfirmedTransfers := c.unconfirmedTransfers.filter (·.transactionHash ≠ v.transactionHash)
    availableTransfers := c.availableTransfers ++
      (c.unconfirmedTransfers.filter (·.transactionHash = v.transactionHash)).map (confirmedTransfer block globalIndices)
    spentTransfers := c.spentTransfers.map fun t =>
      if t.spendingTransactionHash = v.transactionHash then { t with spendingBlock := block } else t }

/-- The keys of a confirmation are the old ones, rearranged: the transaction's
unconfirmed transfers move to the available ones. -/
theorem transferKeys_confirmTransaction (c : TransfersContainer) (block : TransactionBlockInfo)
    (globalIndices : List UInt32) (v : TransactionInformation) :
    (transferKeys (c.confirmTransaction block globalIndices v)).Perm (transferKeys c) := by
  have hkeyS : (c.spentTransfers.map fun t => if t.spendingTransactionHash = v.transactionHash then
      { t with spendingBlock := block } else t).map (·.getTransactionOutputKey) =
      c.spentTransfers.map (·.getTransactionOutputKey) := by
    rw [List.map_map]
    refine List.map_congr_left fun t _ => ?_
    simp only [Function.comp_apply]
    split <;> rfl
  have hkeyX : ((c.unconfirmedTransfers.filter (·.transactionHash = v.transactionHash)).map
      (confirmedTransfer block globalIndices)).map (·.getTransactionOutputKey) =
      (c.unconfirmedTransfers.filter (·.transactionHash = v.transactionHash)).map (·.getTransactionOutputKey) := by
    rw [List.map_map]
    rfl
  have hsplit : ((c.unconfirmedTransfers.filter (·.transactionHash ≠ v.transactionHash)).map
      (·.getTransactionOutputKey) ++ (c.unconfirmedTransfers.filter (·.transactionHash = v.transactionHash)).map
        (·.getTransactionOutputKey)).Perm (c.unconfirmedTransfers.map (·.getTransactionOutputKey)) := by
    rw [← List.map_append]
    refine (List.perm_append_comm.trans ?_).map _
    simpa only [ne_eq, decide_not] using List.filter_append_perm _ c.unconfirmedTransfers
  simp only [transferKeys, TransfersContainer.confirmTransaction, List.map_append, hkeyS, hkeyX]
  exact ((List.perm_append_comm_assoc _ _ _).trans
    ((hsplit.append_left (c.availableTransfers.map (·.getTransactionOutputKey))).trans
      List.perm_append_comm)).append_right (c.spentTransfers.map (·.getTransactionOutputKey))

/-- **`markTransactionConfirmed`, returning**, while the output keys are
distinct: nothing changes, or a recorded transaction of no block is confirmed. -/
theorem ledger_markTransactionConfirmed {c c' : TransfersContainer} {block : TransactionBlockInfo}
    {transactionHash : Hash} {globalIndices : List UInt32} {r : Bool} (hkeys : (transferKeys c).Nodup)
    (h : c.markTransactionConfirmed block transactionHash globalIndices = .ok (r, c')) :
    ledger c' = ledger c ∨ ∃ u ∈ c.transactions, u.transactionHash = transactionHash ∧
      u.blockHeight = WALLET_LEGACY_UNCONFIRMED_TRANSACTION_HEIGHT ∧
      block.height ≠ WALLET_LEGACY_UNCONFIRMED_TRANSACTION_HEIGHT ∧
      ledger c' = (ledger c).confirmTransaction block globalIndices
        { u with blockHeight := block.height, timestamp := block.timestamp } := by
  rw [transferKeys, List.nodup_append, List.nodup_append] at hkeys
  obtain ⟨⟨hU, hA, hUA⟩, -, -⟩ := hkeys
  unfold markTransactionConfirmed at h
  split_ifs at h with hblock
  split at h
  · cases h
    exact .inl rfl
  rename_i u hfind
  split_ifs at h with hconfirmed
  · cases h
    exact .inl rfl
  dsimp only at h
  split at h
  · cases h
  rename_i c₂ hloop
  cases h
  have hu : u ∈ c.transactions := List.mem_of_find?_eq_some hfind
  have huh : u.transactionHash = transactionHash := by simpa using List.find?_some hfind
  refine .inr ⟨u, hu, huh, not_not.mp hconfirmed, hblock, ?_⟩
  -- the transfers the loop confirms are none of the available ones
  have hX : (c.availableTransfers.map (·.getTransactionOutputKey) ++
      (c.unconfirmedTransfers.filter (·.transactionHash = transactionHash)).map (·.getTransactionOutputKey)).Nodup := by
    refine List.nodup_append.mpr ⟨hA, hU.sublist (List.filter_sublist.map _), ?_⟩
    intro a ha b hb
    exact (hUA b ((List.filter_sublist.map _).subset hb) a ha).symm
  set v : TransactionInformation := { u with blockHeight := block.height, timestamp := block.timestamp }
  obtain ⟨ht, hU₂, hA₂, hS₂⟩ := ledger_eq_iff.mp (ledger_forEach_confirmTransfer block globalIndices _
    { c with transactions := replaceTransaction c.transactions v } c₂ hU hX hloop)
  have hvh : v.transactionHash = transactionHash := huh
  -- the spent transfers take the block whether or not their visibility is dropped
  have hspent : (c₂.spentTransfers.map fun t => if t.spendingTransactionHash = transactionHash then
      { t with spendingBlock := block } else t).map spentWithoutVisibility =
      (c₂.spentTransfers.map spentWithoutVisibility).map fun t =>
        if t.spendingTransactionHash = transactionHash then { t with spendingBlock := block } else t := by
    simp only [List.map_map]
    exact List.map_congr_left fun t _ => spentWithoutVisibility_ite _ t block
  dsimp only [confirmTransaction, ledger]
  rw [hspent, ht, hU₂, hA₂, hS₂, hvh, map_key_filter_hash,
    MultiIndex.filter_key_not_mem_filter _ (by rwa [map_key_withoutVisibility])]
  simp only [List.filter_map, List.map_map, Function.comp_def, ne_eq, decide_not, transactionHash_withoutVisibility]
  rfl

/-! ## Adding a transaction, and advancing the height -/

/-- A transfer as `addTransactionOutput` records it. -/
def outputTransfer (block : TransactionBlockInfo) (tx : TransactionReader) (transfer : TransactionOutputInformationIn) :
    TransactionOutputInformationEx :=
  { toTransactionOutputInformationIn := { transfer with transactionHash := tx.transactionHash }
    unlockTime := tx.unlockTime
    blockHeight := block.height
    transactionIndex := block.transactionIndex
    visible := true }

/-- An available transfer added with its unlock job. -/
theorem ledger_emplaceAvailable (c : TransfersContainer) (x : TransactionOutputInformationEx) :
    ledger { c.addUnlockJob x with availableTransfers := emplaceTransfer x (c.addUnlockJob x).availableTransfers } =
      ⟨c.transactions, c.unconfirmedTransfers.map withoutVisibility,
        emplaceTransfer (withoutVisibility x) (c.availableTransfers.map withoutVisibility),
        c.spentTransfers.map spentWithoutVisibility, [], 0, 0⟩ := by
  rw [ledger_eq_iff]
  refine ⟨transactions_addUnlockJob _ _, by rw [unconfirmedTransfers_addUnlockJob], ?_,
    by rw [spentTransfers_addUnlockJob]⟩
  rw [availableTransfers_addUnlockJob]
  exact map_withoutVisibility_emplaceTransfer _ _

/-- One turn of the loop of `addTransactionOutputs`, returning: the transfer is
unconfirmed in a transaction of no block, and available in any other. -/
theorem ledger_addTransactionOutput {block : TransactionBlockInfo} {tx : TransactionReader}
    {transfer : TransactionOutputInformationIn} {c c' : TransfersContainer}
    (h : addTransactionOutput block tx transfer c = .ok c') :
    (block.height = WALLET_LEGACY_UNCONFIRMED_TRANSACTION_HEIGHT ∧ ledger c' = ⟨c.transactions,
        emplaceTransfer (withoutVisibility (outputTransfer block tx transfer))
          (c.unconfirmedTransfers.map withoutVisibility),
        c.availableTransfers.map withoutVisibility, c.spentTransfers.map spentWithoutVisibility, [], 0, 0⟩) ∨
      (block.height ≠ WALLET_LEGACY_UNCONFIRMED_TRANSACTION_HEIGHT ∧ ledger c' = ⟨c.transactions,
        c.unconfirmedTransfers.map withoutVisibility,
        emplaceTransfer (withoutVisibility (outputTransfer block tx transfer))
          (c.availableTransfers.map withoutVisibility),
        c.spentTransfers.map spentWithoutVisibility, [], 0, 0⟩) := by
  unfold addTransactionOutput at h
  dsimp only at h
  split_ifs at h with hmatch hunconfirmed hkey hmulti hkey <;> cases h
  -- the block is of no transaction exactly when the transfer has no global index
  all_goals
    have hheight : block.height = WALLET_LEGACY_UNCONFIRMED_TRANSACTION_HEIGHT ↔
        transfer.globalOutputIndex = UNCONFIRMED_TRANSACTION_GLOBAL_OUTPUT_INDEX := by
      simpa using hmatch
  -- a transfer of no block is unconfirmed
  · refine .inl ⟨hheight.mpr (of_decide_eq_true hunconfirmed), ?_⟩
    rw [ledger_updateTransfersVisibility, ledger_eq_iff]
    exact ⟨rfl, map_withoutVisibility_emplaceTransfer _ _, rfl, rfl⟩
  · refine .inl ⟨hheight.mpr (of_decide_eq_true hunconfirmed), ?_⟩
    rw [ledger_eq_iff]
    exact ⟨rfl, map_withoutVisibility_emplaceTransfer _ _, rfl, rfl⟩
  -- any other is available, with its unlock job
  · refine .inr ⟨fun hb => hunconfirmed (decide_eq_true (hheight.mp hb)), ?_⟩
    rw [ledger_updateTransfersVisibility]
    exact ledger_emplaceAvailable c _
  · exact .inr ⟨fun hb => hunconfirmed (decide_eq_true (hheight.mp hb)), ledger_emplaceAvailable c _⟩

theorem foldl_minElement_mem (m : TransactionOutputInformationEx) :
    ∀ ts : List TransactionOutputInformationEx,
      ts.foldl (fun m u => if lessTIterator u m then u else m) m ∈ m :: ts
  | [] => List.mem_singleton_self m
  | u :: us => by
    rw [List.foldl_cons]
    -- the minimum so far is `u` or `m`
    have hstart : (if lessTIterator u m then u else m) ∈ m :: u :: us := by
      split
      · exact List.mem_cons_of_mem m List.mem_cons_self
      · exact List.mem_cons_self
    rcases List.mem_cons.mp (foldl_minElement_mem (if lessTIterator u m then u else m) us) with h | h
    · rw [h]
      exact hstart
    · exact List.mem_cons_of_mem m (List.mem_cons_of_mem u h)

theorem mem_of_findFirstByAmount {ts : List TransactionOutputInformationEx} {amount : UInt64}
    {t : TransactionOutputInformationEx} (h : findFirstByAmount ts amount = some t) : t ∈ ts := by
  unfold findFirstByAmount minElement at h
  split at h
  · cases h
  · rename_i u us hfilter
    cases h
    have hmem := foldl_minElement_mem u us
    rw [← hfilter] at hmem
    exact List.mem_of_mem_filter hmem

/-- The spent transfer `copyToSpent` writes. -/
def spentTransfer (block : TransactionBlockInfo) (tx : TransactionReader) (inputIndex : Nat)
    (t : TransactionOutputInformationEx) : SpentTransactionOutput :=
  { toTransactionOutputInformationEx := t
    spendingBlock := block
    spendingTransactionHash := tx.transactionHash
    inputInTransaction := inputIndex.toUInt32 }

theorem ledger_spendAvailable (c : TransfersContainer) (block : TransactionBlockInfo) (tx : TransactionReader)
    (inputIndex : Nat) (t : TransactionOutputInformationEx) :
    ledger (c.spendAvailable block tx inputIndex t) = ⟨c.transactions, c.unconfirmedTransfers.map withoutVisibility,
      (c.availableTransfers.map withoutVisibility).eraseP (·.getTransactionOutputKey = t.getTransactionOutputKey),
      emplaceSpent (spentWithoutVisibility (spentTransfer block tx inputIndex t))
        (c.spentTransfers.map spentWithoutVisibility), [], 0, 0⟩ := by
  rw [ledger_eq_iff]
  exact ⟨rfl, rfl, map_withoutVisibility_eraseP _ _, map_spentWithoutVisibility_emplaceSpent _ _⟩

/-- One turn of the loop of `addTransactionInputs`, returning: the input
spends nothing of the container, or spends an available transfer. -/
theorem addTransactionInput_ok {block : TransactionBlockInfo} {tx : TransactionReader}
    {a : TransactionInput × Nat} {b b' : Bool} {c c' : TransfersContainer}
    (h : addTransactionInput block tx a (b, c) = .ok (b', c')) :
    (b' = b ∧ c' = c) ∨
      (b' = true ∧ ∃ t ∈ c.availableTransfers, ledger c' = ledger (c.spendAvailable block tx a.2 t)) := by
  obtain ⟨input | input | input, i⟩ := a
  · cases h
    exact .inl ⟨rfl, rfl⟩
  · unfold addTransactionInput at h
    dsimp only at h
    split_ifs at h with hspent hempty hunconfirmed
    · cases h
      exact .inl ⟨rfl, rfl⟩
    · split at h
      · cases h
      · rename_i t hfound
        cases h
        exact .inr ⟨rfl, t, List.mem_of_mem_filter (mem_of_findFirstByAmount hfound),
          ledger_updateTransfersVisibility _ _⟩
  · unfold addTransactionInput at h
    dsimp only at h
    split at h
    · rename_i t hfound
      cases h
      exact .inr ⟨rfl, t, List.mem_of_find?_eq_some hfound, rfl⟩
    · cases h
      exact .inl ⟨rfl, rfl⟩

/-- The record `addTransaction` writes for a transaction. -/
def transactionRecord (block : TransactionBlockInfo) (tx : TransactionReader) : TransactionInformation :=
  ⟨tx.transactionHash, block.height, block.timestamp, tx.unlockTime⟩

theorem ledger_addTransactionInfo (c : TransfersContainer) (block : TransactionBlockInfo) (tx : TransactionReader) :
    ledger (c.addTransactionInfo block tx) = ⟨insertByHeight (transactionRecord block tx) c.transactions,
      c.unconfirmedTransfers.map withoutVisibility, c.availableTransfers.map withoutVisibility,
      c.spentTransfers.map spentWithoutVisibility, [], 0, 0⟩ := rfl

theorem ledger_doAdvanceHeight {c c' : TransfersContainer} {height : UInt32} {r : List TransactionOutputInformation}
    (h : c.doAdvanceHeight height = .ok (r, c')) : ledger c' = ledger c := by
  unfold doAdvanceHeight at h
  split_ifs at h
  dsimp only at h
  split at h
  · cases h
  · cases h
    rfl

end TransfersContainer

end Cn
