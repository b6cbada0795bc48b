import ConcealCore.Proof.TransfersOrder
import ConcealCore.Proof.TransfersStorage

/-!
# Containers whose outputs have distinct key images

Distinct outputs have distinct key images. When the outputs a container holds
do, every transfer is visible, and every available transfer has its unlock job
(`Untied`), a visibility update changes nothing
(`updateTransfersVisibility_of_untied`), and every call that moves a transfer
does only that:

* `addTransactionOutput_untied` and `addTransactionInput_untied`: a turn of
  the loops of `addTransaction` in a block adds an available transfer with its
  unlock job (`appendAvailable`), or spends one (`moveToSpent`);
* `unspendTransfer_untied`, `eraseUnconfirmedTransfer_untied` and
  `eraseAvailableTransfer_untied`: a turn of the loops of
  `deleteTransactionTransfers` makes a spent transfer available again
  (`moveToAvailable`), or takes a transfer out, with its job;
* `Untied.deleteTransaction`: deleting a transaction keeps the invariant;
* `addTransaction_untied`: adding a transaction in a block, with outputs of
  new key images, keeps it, and makes its outputs available and moves what it
  spends to the spent ones.
-/

namespace Cn

namespace TransfersContainer

open Throwing

/-! ## The invariant -/

/-- The transfers of the three sets, a spent one as it was available. -/
def allTransfers (c : TransfersContainer) : List TransactionOutputInformationEx :=
  c.unconfirmedTransfers ++ c.availableTransfers ++ c.spentTransfers.map (·.toTransactionOutputInformationEx)

/-- The key images of the key outputs among them. -/
def keyImages (c : TransfersContainer) : List KeyImage :=
  ((allTransfers c).filter (·.type = .key)).map (·.keyImage)

/-- The descriptors of the available and spent multisignature outputs, which
`addTransactionOutput` checks a new one against. -/
def multisignatureDescriptors (c : TransfersContainer) : List SpentOutputDescriptor :=
  ((c.availableTransfers ++ c.spentTransfers.map (·.toTransactionOutputInformationEx)).filter
    (·.type = .multisignature)).map (·.getSpentOutputDescriptor)

/-- The unlock job of each available transfer. -/
def availableJobs (c : TransfersContainer) : List TransferUnlockJob :=
  c.availableTransfers.map (makeTransferUnlockJob · c.transactionSpendableAge.toUInt32)

/-- **A container with no two outputs under one key image**: the transfers
are distinct, all visible, with distinct key images and distinct
multisignature descriptors, and the unlock jobs are those of the available
transfers. -/
structure Untied (c : TransfersContainer) : Prop where
  keys_nodup : (transferKeys c).Nodup
  visible : ∀ t ∈ allTransfers c, t.visible = true
  keyImages_nodup : (keyImages c).Nodup
  descriptors_nodup : (multisignatureDescriptors c).Nodup
  jobs_perm : c.transfersUnlockJobs.Perm (availableJobs c)

instance decidableUntied (c : TransfersContainer) : Decidable (Untied c) :=
  decidable_of_iff (_ ∧ _ ∧ _ ∧ _ ∧ _)
    ⟨fun ⟨h₁, h₂, h₃, h₄, h₅⟩ => ⟨h₁, h₂, h₃, h₄, h₅⟩, fun h => ⟨h.keys_nodup, h.visible, h.keyImages_nodup,
      h.descriptors_nodup, h.jobs_perm⟩⟩

theorem transferKeys_eq_map (c : TransfersContainer) :
    transferKeys c = (allTransfers c).map (·.getTransactionOutputKey) := by
  simp only [transferKeys, allTransfers, List.map_append, List.map_map]
  rfl

@[simp] theorem key_makeTransferUnlockJob (x : TransactionOutputInformationEx) (age : UInt32) :
    (makeTransferUnlockJob x age).transactionOutputKey = x.getTransactionOutputKey := rfl

theorem getSpentOutputDescriptor_eq_key {t : TransactionOutputInformationIn} {k : KeyImage} :
    t.getSpentOutputDescriptor = .key k ↔ t.type = .key ∧ t.keyImage = k := by
  unfold TransactionOutputInformationIn.getSpentOutputDescriptor
  split <;> simp_all

theorem type_of_getSpentOutputDescriptor_eq_multisignature {t : TransactionOutputInformationIn} {a : UInt64}
    {i : UInt32} (h : t.getSpentOutputDescriptor = .multisignature a i) : t.type = .multisignature := by
  unfold TransactionOutputInformationIn.getSpentOutputDescriptor at h
  split at h <;> simp_all

theorem subperm_map {β γ : Type} (f : β → γ) {l₁ l₂ : List β} (h : l₁.Subperm l₂) : (l₁.map f).Subperm (l₂.map f) :=
  let ⟨l, hp, hs⟩ := h
  ⟨l.map f, hp.map f, hs.map f⟩

theorem nodup_of_subperm {β : Type} {l₁ l₂ : List β} (h : l₁.Subperm l₂) (hn : l₂.Nodup) : l₁.Nodup :=
  let ⟨_, hp, hs⟩ := h
  hp.nodup_iff.mp (hn.sublist hs)

/-- **What a move keeps**: a container whose transfers are among those of an
untied one, with its available and spent ones among the available and spent
ones there, and with the unlock jobs of its available transfers, is untied. -/
theorem Untied.of_subperm {c c' : TransfersContainer} (hc : Untied c)
    (hall : (allTransfers c').Subperm (allTransfers c))
    (hconfirmed : (c'.availableTransfers ++ c'.spentTransfers.map (·.toTransactionOutputInformationEx)).Subperm
      (c.availableTransfers ++ c.spentTransfers.map (·.toTransactionOutputInformationEx)))
    (hjobs : c'.transfersUnlockJobs.Perm (availableJobs c')) : Untied c' where
  keys_nodup := by
    rw [transferKeys_eq_map]
    exact nodup_of_subperm (subperm_map _ hall) (transferKeys_eq_map c ▸ hc.keys_nodup)
  visible := fun t ht => hc.visible t (hall.subset ht)
  keyImages_nodup := nodup_of_subperm (subperm_map _ (hall.filter _)) hc.keyImages_nodup
  descriptors_nodup := nodup_of_subperm (subperm_map _ (hconfirmed.filter _)) hc.descriptors_nodup
  jobs_perm := hjobs

/-! ## Visibility updates -/

/-- At most one transfer has a key image, while the key images are distinct. -/
theorem length_filter_keyImage_le {c : TransfersContainer} (hc : (keyImages c).Nodup) (k : KeyImage) :
    ((allTransfers c).filter (·.getSpentOutputDescriptor = .key k)).length ≤ 1 := by
  set F := (allTransfers c).filter (·.getSpentOutputDescriptor = .key k)
  -- the transfers of the key image are key outputs, so their key images are among the distinct ones
  have hsub : F.Sublist ((allTransfers c).filter (·.type = .key)) :=
    List.monotone_filter_right _ fun t ht =>
      decide_eq_true (getSpentOutputDescriptor_eq_key.mp (of_decide_eq_true ht)).1
  have hrep : F.map (·.keyImage) = List.replicate F.length k := by
    rw [List.eq_replicate_iff, List.length_map]
    refine ⟨rfl, fun b hb => ?_⟩
    obtain ⟨t, ht, rfl⟩ := List.mem_map.mp hb
    exact (getSpentOutputDescriptor_eq_key.mp (of_decide_eq_true (List.mem_filter.mp ht).2)).2
  have hnodup : (F.map (·.keyImage)).Nodup := hc.sublist (hsub.map _)
  rw [hrep, List.nodup_replicate] at hnodup
  exact hnodup

/-- A map that changes only elements it leaves as they are. -/
theorem map_ite_eq_self {β : Type} {l : List β} {p : β → Prop} [DecidablePred p] {g : β → β}
    (h : ∀ x ∈ l, p x → g x = x) : l.map (fun x => if p x then g x else x) = l := by
  conv_rhs => rw [← List.map_id l]
  exact List.map_congr_left fun x hx => by
    split
    · exact h x hx ‹_›
    · rfl

theorem withVisible_eq_self {t : TransactionOutputInformationEx} (h : t.visible = true) :
    { t with visible := true } = t := by
  cases t
  cases h
  rfl

theorem spentWithVisible_eq_self {s : SpentTransactionOutput} (h : s.visible = true) :
    { s with visible := true } = s := by
  obtain ⟨⟨_⟩⟩ := s
  cases h
  rfl

/-- **A visibility update changes nothing in an untied container**: the one
transfer of the key image, if any, is the visible one already. -/
theorem updateTransfersVisibility_of_untied {c : TransfersContainer} (hc : Untied c) (k : KeyImage) :
    c.updateTransfersVisibility k = c := by
  have hone := length_filter_keyImage_le hc.keyImages_nodup k
  have hvisible := hc.visible
  rw [allTransfers] at hone hvisible
  simp only [List.filter_append, List.length_append, List.filter_map, List.length_map, Function.comp_def] at hone
  simp only [List.mem_append, List.mem_map] at hvisible
  -- a set with no transfer of the key image is left as it is
  have hnone : ∀ (ts : List TransactionOutputInformationEx) v,
      (ts.filter (·.getSpentOutputDescriptor = .key k)).length = 0 → setVisibility (.key k) v ts = ts := by
    intro ts v hzero
    have hnot := List.filter_eq_nil_iff.mp (List.length_eq_zero_iff.mp hzero)
    exact map_ite_eq_self fun x hx hxk => absurd (decide_eq_true hxk) (hnot x hx)
  unfold updateTransfersVisibility
  dsimp only
  split_ifs with hspent havailable
  · -- the spent transfer of the key image is visible, and it is the only one
    rw [hnone _ _ (by omega), hnone _ _ (by omega)]
    congr 1
    exact map_ite_eq_self fun s hs _ => spentWithVisible_eq_self (hvisible _ (.inr ⟨s, hs, rfl⟩))
  · -- the available one is the only one, so the earliest
    rw [hnone _ _ (by omega)]
    congr 1
    refine map_ite_eq_self fun t ht htk => ?_
    have hrange : c.availableTransfers.filter (·.getSpentOutputDescriptor = .key k) = [t] := by
      obtain ⟨u, hu⟩ := List.length_eq_one_iff.mp (show (c.availableTransfers.filter
        (·.getSpentOutputDescriptor = .key k)).length = 1 by omega)
      have hmem : t ∈ c.availableTransfers.filter (·.getSpentOutputDescriptor = .key k) := by
        rw [List.mem_filter]
        exact ⟨ht, decide_eq_true htk⟩
      have htu : t ∈ [u] := hu ▸ hmem
      rw [hu, List.mem_singleton.mp htu]
    simp only [hrange, minElement, List.foldl_nil, Option.any_some, decide_true]
    exact withVisible_eq_self (hvisible _ (.inl (.inr ht)))
  · -- an unconfirmed one is the only one, and visible
    congr 1
    refine map_ite_eq_self fun t ht htk => ?_
    have hcount : (c.unconfirmedTransfers.filter (·.getSpentOutputDescriptor = .key k)).length = 1 := by
      have hmem : t ∈ c.unconfirmedTransfers.filter (·.getSpentOutputDescriptor = .key k) := by
        rw [List.mem_filter]
        exact ⟨ht, decide_eq_true htk⟩
      have hpos := List.length_pos_of_mem hmem
      omega
    simp only [hcount, decide_true]
    exact withVisible_eq_self (hvisible _ (.inl (.inl ht)))

/-! ## The moves -/

theorem Untied.unconfirmed_nodup {c : TransfersContainer} (hc : Untied c) :
    (c.unconfirmedTransfers.map (·.getTransactionOutputKey)).Nodup :=
  (List.nodup_append.mp (List.nodup_append.mp hc.keys_nodup).1).1

theorem Untied.available_nodup {c : TransfersContainer} (hc : Untied c) :
    (c.availableTransfers.map (·.getTransactionOutputKey)).Nodup :=
  (List.nodup_append.mp (List.nodup_append.mp hc.keys_nodup).1).2.1

theorem Untied.spent_nodup {c : TransfersContainer} (hc : Untied c) :
    (c.spentTransfers.map (·.getTransactionOutputKey)).Nodup :=
  (List.nodup_append.mp hc.keys_nodup).2.1

/-- An available transfer is not spent. -/
theorem Untied.not_spent_of_available {c : TransfersContainer} (hc : Untied c) {t : TransactionOutputInformationEx}
    (ht : t ∈ c.availableTransfers) : t.getTransactionOutputKey ∉ c.spentTransfers.map (·.getTransactionOutputKey) :=
  fun hs => (List.nodup_append.mp hc.keys_nodup).2.2 _ (List.mem_append_right _ (List.mem_map_of_mem ht)) _ hs rfl

/-- A spent transfer is not available. -/
theorem Untied.not_available_of_spent {c : TransfersContainer} (hc : Untied c) {s : SpentTransactionOutput}
    (hs : s ∈ c.spentTransfers) : s.getTransactionOutputKey ∉ c.availableTransfers.map (·.getTransactionOutputKey) :=
  fun ha => (List.nodup_append.mp hc.keys_nodup).2.2 _ (List.mem_append_right _ ha) _ (List.mem_map_of_mem hs) rfl

/-- The jobs of the available transfers are by their output keys. -/
theorem Untied.jobKeys_perm {c : TransfersContainer} (hc : Untied c) :
    (c.transfersUnlockJobs.map (·.transactionOutputKey)).Perm (c.availableTransfers.map (·.getTransactionOutputKey)) := by
  have hperm := hc.jobs_perm.map (·.transactionOutputKey)
  rwa [availableJobs, List.map_map] at hperm

/-- A new job goes in for a transfer that is not available. -/
theorem Untied.addUnlockJob_of_not_mem {c : TransfersContainer} (hc : Untied c) {x : TransactionOutputInformationEx}
    (hx : x.getTransactionOutputKey ∉ c.availableTransfers.map (·.getTransactionOutputKey)) :
    c.addUnlockJob x = { c with
      transfersUnlockJobs := insertJob (makeTransferUnlockJob x c.transactionSpendableAge.toUInt32)
        c.transfersUnlockJobs } := by
  unfold addUnlockJob
  rw [if_neg]
  intro hany
  obtain ⟨j, hj, hjk⟩ := List.any_eq_true.mp hany
  exact hx (hc.jobKeys_perm.subset (List.mem_map.mpr ⟨j, hj, of_decide_eq_true hjk⟩))

/-- The jobs left when the job of one available transfer goes. -/
theorem Untied.eraseP_jobs {c : TransfersContainer} (hc : Untied c) (k : TransactionOutputKey) :
    (c.transfersUnlockJobs.eraseP (·.transactionOutputKey = k)).Perm
      ((c.availableTransfers.eraseP (·.getTransactionOutputKey = k)).map
        (makeTransferUnlockJob · c.transactionSpendableAge.toUInt32)) := by
  -- the jobs have distinct keys, as the available transfers do
  have hdistinct : c.transfersUnlockJobs.Pairwise (fun a b => a.transactionOutputKey ≠ b.transactionOutputKey) :=
    List.pairwise_map.mp (hc.jobKeys_perm.nodup_iff.mpr hc.available_nodup)
  have hperm := (hc.jobs_perm).eraseP (fun j => decide (j.transactionOutputKey = k))
    (hdistinct.imp fun hne ha hb => hne ((of_decide_eq_true ha).trans (of_decide_eq_true hb).symm))
  rw [availableJobs, List.eraseP_map] at hperm
  exact hperm

/-- An available transfer added, with its unlock job. -/
def appendAvailable (c : TransfersContainer) (x : TransactionOutputInformationEx) : TransfersContainer :=
  { c with
    availableTransfers := c.availableTransfers ++ [x]
    transfersUnlockJobs :=
      insertJob (makeTransferUnlockJob x c.transactionSpendableAge.toUInt32) c.transfersUnlockJobs }

/-- An available transfer taken out, with its unlock job. -/
def dropAvailable (c : TransfersContainer) (t : TransactionOutputInformationEx) : TransfersContainer :=
  { c with
    availableTransfers := c.availableTransfers.eraseP (·.getTransactionOutputKey = t.getTransactionOutputKey)
    transfersUnlockJobs := c.transfersUnlockJobs.eraseP (·.transactionOutputKey = t.getTransactionOutputKey) }

/-- An unconfirmed transfer taken out. -/
def dropUnconfirmed (c : TransfersContainer) (t : TransactionOutputInformationEx) : TransfersContainer :=
  { c with
    unconfirmedTransfers := c.unconfirmedTransfers.eraseP (·.getTransactionOutputKey = t.getTransactionOutputKey) }

/-- An available transfer spent by input `inputIndex` of `tx`, its job gone. -/
def moveToSpent (c : TransfersContainer) (block : TransactionBlockInfo) (tx : TransactionReader) (inputIndex : Nat)
    (t : TransactionOutputInformationEx) : TransfersContainer :=
  { dropAvailable c t with spentTransfers := c.spentTransfers ++ [spentTransfer block tx inputIndex t] }

/-- A spent transfer available again, with a new unlock job. -/
def moveToAvailable (c : TransfersContainer) (s : SpentTransactionOutput) : TransfersContainer :=
  appendAvailable { c with
    spentTransfers := c.spentTransfers.eraseP (·.getTransactionOutputKey = s.getTransactionOutputKey) }
    s.toTransactionOutputInformationEx

theorem jobs_appendAvailable {c : TransfersContainer} (hjobs : c.transfersUnlockJobs.Perm (availableJobs c))
    (x : TransactionOutputInformationEx) :
    (c.appendAvailable x).transfersUnlockJobs.Perm (availableJobs (c.appendAvailable x)) := by
  rw [TransfersContainer.appendAvailable, availableJobs, List.map_append, List.map_singleton, insertJob_eq_insertAfter]
  exact (TimeIndex.perm_insertAfter _ _).trans ((hjobs.cons _).trans (List.perm_append_singleton _ _).symm)

theorem allTransfers_appendAvailable (c : TransfersContainer) (x : TransactionOutputInformationEx) :
    (allTransfers (c.appendAvailable x)).Perm (x :: allTransfers c) := by
  simp only [allTransfers, TransfersContainer.appendAvailable, List.append_assoc, List.singleton_append]
  rw [← List.append_assoc, ← List.append_assoc]
  exact List.perm_middle

/-- **A new available transfer keeps the invariant**: one with a new output
key, visible, with a new key image if it is a key output and a new descriptor
if it is a multisignature one. -/
theorem Untied.appendAvailable {c : TransfersContainer} (hc : Untied c) {x : TransactionOutputInformationEx}
    (hkey : x.getTransactionOutputKey ∉ transferKeys c) (hvisible : x.visible = true)
    (hkeyImage : x.type = .key → x.keyImage ∉ keyImages c)
    (hdescriptor : x.type = .multisignature → x.getSpentOutputDescriptor ∉ multisignatureDescriptors c) :
    Untied (c.appendAvailable x) := by
  have hall := allTransfers_appendAvailable c x
  have hconfirmed : ((c.appendAvailable x).availableTransfers ++
      (c.appendAvailable x).spentTransfers.map (·.toTransactionOutputInformationEx)).Perm
      (x :: (c.availableTransfers ++ c.spentTransfers.map (·.toTransactionOutputInformationEx))) := by
    simp only [TransfersContainer.appendAvailable, List.append_assoc, List.singleton_append]
    exact List.perm_middle
  refine ⟨?_, ?_, ?_, ?_, jobs_appendAvailable hc.jobs_perm x⟩
  · rw [transferKeys_eq_map, (hall.map _).nodup_iff, List.map_cons, List.nodup_cons, ← transferKeys_eq_map]
    exact ⟨hkey, hc.keys_nodup⟩
  · intro t ht
    rcases List.mem_cons.mp (hall.subset ht) with rfl | ht
    · exact hvisible
    · exact hc.visible t ht
  · rw [keyImages, ((hall.filter _).map _).nodup_iff, List.filter_cons]
    split
    · rw [List.map_cons, List.nodup_cons]
      exact ⟨hkeyImage (of_decide_eq_true ‹_›), hc.keyImages_nodup⟩
    · exact hc.keyImages_nodup
  · rw [multisignatureDescriptors, ((hconfirmed.filter _).map _).nodup_iff, List.filter_cons]
    split
    · rw [List.map_cons, List.nodup_cons]
      exact ⟨hdescriptor (of_decide_eq_true ‹_›), hc.descriptors_nodup⟩
    · exact hc.descriptors_nodup

/-- **Taking an available transfer out keeps the invariant.** -/
theorem Untied.dropAvailable {c : TransfersContainer} (hc : Untied c) (t : TransactionOutputInformationEx) :
    Untied (c.dropAvailable t) := by
  have hsub : (c.availableTransfers.eraseP (·.getTransactionOutputKey = t.getTransactionOutputKey)).Sublist
      c.availableTransfers := List.eraseP_sublist
  refine hc.of_subperm ?_ ?_ (hc.eraseP_jobs _)
  · exact (((hsub.append_left _).append_right _)).subperm
  · exact (hsub.append_right _).subperm

/-- **Taking an unconfirmed transfer out keeps the invariant.** -/
theorem Untied.dropUnconfirmed {c : TransfersContainer} (hc : Untied c) (t : TransactionOutputInformationEx) :
    Untied (c.dropUnconfirmed t) :=
  hc.of_subperm (((List.eraseP_sublist.append_right _).append_right _).subperm) (List.Subperm.refl _) hc.jobs_perm

/-- **Spending an available transfer keeps the invariant**: it moves to the
spent ones, its job gone. -/
theorem Untied.moveToSpent {c : TransfersContainer} (hc : Untied c) {t : TransactionOutputInformationEx}
    (ht : t ∈ c.availableTransfers) (block : TransactionBlockInfo) (tx : TransactionReader) (inputIndex : Nat) :
    Untied (c.moveToSpent block tx inputIndex t) := by
  -- the available transfers are `t` and the others
  have hA := MultiIndex.perm_cons_eraseP (fun t : TransactionOutputInformationEx => t.getTransactionOutputKey)
    hc.available_nodup ht
  have hmove : ((c.availableTransfers.eraseP (·.getTransactionOutputKey = t.getTransactionOutputKey)) ++
      (c.spentTransfers ++ [spentTransfer block tx inputIndex t]).map (·.toTransactionOutputInformationEx)).Perm
      (c.availableTransfers ++ c.spentTransfers.map (·.toTransactionOutputInformationEx)) := by
    rw [List.map_append, List.map_singleton, ← List.append_assoc]
    -- the spent copy of `t` is `t`
    have hcopy : (spentTransfer block tx inputIndex t).toTransactionOutputInformationEx = t := rfl
    rw [hcopy]
    exact (List.perm_append_singleton _ _).trans (hA.symm.append_right _)
  refine hc.of_subperm ?_ hmove.subperm (hc.eraseP_jobs _)
  simp only [allTransfers, TransfersContainer.moveToSpent, TransfersContainer.dropAvailable, List.append_assoc]
  exact (hmove.append_left _).subperm

/-- **Making a spent transfer available again keeps the invariant**, with
its new unlock job. -/
theorem Untied.moveToAvailable {c : TransfersContainer} (hc : Untied c) {s : SpentTransactionOutput}
    (hs : s ∈ c.spentTransfers) : Untied (c.moveToAvailable s) := by
  have hS := (MultiIndex.perm_cons_eraseP (fun s : SpentTransactionOutput => s.getTransactionOutputKey)
    hc.spent_nodup hs).map (·.toTransactionOutputInformationEx)
  rw [List.map_cons] at hS
  have hmove : (c.availableTransfers ++ [s.toTransactionOutputInformationEx] ++
      (c.spentTransfers.eraseP (·.getTransactionOutputKey = s.getTransactionOutputKey)).map
        (·.toTransactionOutputInformationEx)).Perm
      (c.availableTransfers ++ c.spentTransfers.map (·.toTransactionOutputInformationEx)) := by
    rw [List.append_assoc, List.singleton_append]
    exact hS.symm.append_left _
  refine hc.of_subperm ?_ hmove.subperm ?_
  · simp only [allTransfers, TransfersContainer.moveToAvailable, TransfersContainer.appendAvailable,
      List.append_assoc]
    rw [← List.append_assoc c.availableTransfers]
    exact (hmove.append_left _).subperm
  · exact jobs_appendAvailable (c := { c with spentTransfers := _ }) hc.jobs_perm s.toTransactionOutputInformationEx

/-! ## The turns of the loops -/

/-- A descriptor among the available and spent multisignature ones is one that
`addTransactionOutput` finds. -/
theorem any_of_mem_multisignatureDescriptors {c : TransfersContainer} {d : SpentOutputDescriptor}
    (hd : d ∈ multisignatureDescriptors c) :
    c.availableTransfers.any (·.getSpentOutputDescriptor = d) ∨
      c.spentTransfers.any (·.getSpentOutputDescriptor = d) := by
  obtain ⟨t, ht, rfl⟩ := List.mem_map.mp hd
  rcases List.mem_append.mp (List.mem_of_mem_filter ht) with ht | ht
  · exact .inl (List.any_eq_true.mpr ⟨t, ht, decide_eq_true rfl⟩)
  · obtain ⟨s, hs, rfl⟩ := List.mem_map.mp ht
    exact .inr (List.any_eq_true.mpr ⟨s, hs, decide_eq_true rfl⟩)

/-- **A turn of the outputs loop in a block**, returning, for an output with a
new output key and, if it is a key output, a new key image: the output is
available, with its unlock job. -/
theorem addTransactionOutput_untied {block : TransactionBlockInfo} {tx : TransactionReader}
    {transfer : TransactionOutputInformationIn} {c c' : TransfersContainer} (hc : Untied c)
    (hconfirmed : block.height ≠ WALLET_LEGACY_UNCONFIRMED_TRANSACTION_HEIGHT)
    (hkey : (outputTransfer block tx transfer).getTransactionOutputKey ∉ transferKeys c)
    (hkeyImage : transfer.type = .key → transfer.keyImage ∉ keyImages c)
    (h : addTransactionOutput block tx transfer c = .ok c') :
    c' = c.appendAvailable (outputTransfer block tx transfer) ∧ Untied c' := by
  have hnot : (outputTransfer block tx transfer).getTransactionOutputKey ∉
      c.availableTransfers.map (·.getTransactionOutputKey) := fun hA =>
    hkey (by rw [transferKeys]; exact List.mem_append_left _ (List.mem_append_right _ hA))
  unfold addTransactionOutput at h
  dsimp only at h
  -- the output goes in at the end, with a new job
  have hnot' := hnot
  unfold outputTransfer at hnot'
  rw [hc.addUnlockJob_of_not_mem hnot'] at h
  simp only [emplaceTransfer_eq, MultiIndex.emplace_of_not_mem _ hnot'] at h
  split_ifs at h with hmatch hunconfirmed hkeyType hmulti hkeyType <;> cases h
  -- a transfer with no global index is of a transaction in no block
  all_goals
    have hheight : block.height = WALLET_LEGACY_UNCONFIRMED_TRANSACTION_HEIGHT ↔
        transfer.globalOutputIndex = UNCONFIRMED_TRANSACTION_GLOBAL_OUTPUT_INDEX := by
      simpa using hmatch
  · exact absurd (hheight.mpr (of_decide_eq_true hunconfirmed)) hconfirmed
  · exact absurd (hheight.mpr (of_decide_eq_true hunconfirmed)) hconfirmed
  -- any other is available, and a multisignature one has a new descriptor
  all_goals
    have huntied : Untied (c.appendAvailable (outputTransfer block tx transfer)) :=
      hc.appendAvailable hkey rfl hkeyImage fun hms hd => hmulti ⟨hms, any_of_mem_multisignatureDescriptors hd⟩
  · show (c.appendAvailable (outputTransfer block tx transfer)).updateTransfersVisibility _ = _ ∧
      Untied ((c.appendAvailable (outputTransfer block tx transfer)).updateTransfersVisibility _)
    rw [updateTransfersVisibility_of_untied huntied]
    exact ⟨rfl, huntied⟩
  · exact ⟨rfl, huntied⟩

/-- With no spent transfer of its descriptor, spending an available transfer
moves it. -/
theorem spendAvailable_of_untied {c : TransfersContainer} (hc : Untied c) {t : TransactionOutputInformationEx}
    (ht : t ∈ c.availableTransfers)
    (hdescriptor : ∀ u ∈ c.spentTransfers, u.getSpentOutputDescriptor ≠ t.getSpentOutputDescriptor)
    (block : TransactionBlockInfo) (tx : TransactionReader) (inputIndex : Nat) :
    c.spendAvailable block tx inputIndex t = c.moveToSpent block tx inputIndex t := by
  unfold spendAvailable copyToSpent deleteUnlockJob emplaceSpent
  rw [if_neg]
  · rfl
  intro hany
  obtain ⟨u, hu, hclash⟩ := List.any_eq_true.mp hany
  rcases of_decide_eq_true hclash with hd | hk
  · exact hdescriptor u hu hd
  · exact hc.not_spent_of_available ht (List.mem_map.mpr ⟨u, hu, hk⟩)

/-- **A turn of the inputs loop**, returning: the input spends nothing of the
container, or moves an available transfer to the spent ones. -/
theorem addTransactionInput_untied {block : TransactionBlockInfo} {tx : TransactionReader}
    {a : TransactionInput × Nat} {b b' : Bool} {c c' : TransfersContainer} (hc : Untied c)
    (h : addTransactionInput block tx a (b, c) = .ok (b', c')) :
    (b' = b ∧ c' = c) ∨
      (b' = true ∧ ∃ t ∈ c.availableTransfers, c' = c.moveToSpent block tx a.2 t) := by
  obtain ⟨input | input | input, i⟩ := a
  · cases h
    exact .inl ⟨rfl, rfl⟩
  -- a key input spends the earliest transfer of its key image, none of which is spent
  · unfold addTransactionInput at h
    dsimp only at h
    split_ifs at h with hspent hempty hunconfirmed
    · cases h
      exact .inl ⟨rfl, rfl⟩
    · split at h
      · cases h
      · rename_i t hfound
        cases h
        have ht := mem_of_findFirstByAmount hfound
        have hdescriptor : ∀ u ∈ c.spentTransfers, u.getSpentOutputDescriptor ≠ t.getSpentOutputDescriptor :=
          fun u hu hd => hspent (List.any_eq_true.mpr ⟨u, hu, decide_eq_true (hd.trans
            (of_decide_eq_true (List.mem_filter.mp ht).2))⟩)
        have hmove := spendAvailable_of_untied hc (List.mem_of_mem_filter ht) hdescriptor block tx i
        refine .inr ⟨rfl, t, List.mem_of_mem_filter ht, ?_⟩
        rw [hmove, updateTransfersVisibility_of_untied (hc.moveToSpent (List.mem_of_mem_filter ht) block tx i)]
  -- a multisignature input spends the available transfer of its descriptor, which is the only one
  · unfold addTransactionInput at h
    dsimp only at h
    split at h
    · rename_i t hfound
      cases h
      have ht := List.mem_of_find?_eq_some hfound
      have htd : t.getSpentOutputDescriptor = .multisignature input.amount input.outputIndex := by
        simpa using List.find?_some hfound
      have hdescriptor : ∀ u ∈ c.spentTransfers, u.getSpentOutputDescriptor ≠ t.getSpentOutputDescriptor := by
        intro u hu hd
        have hdisjoint := (List.nodup_append.mp (by
          simpa only [multisignatureDescriptors, List.filter_append, List.map_append] using
            hc.descriptors_nodup)).2.2
        have hms : t.type = .multisignature := type_of_getSpentOutputDescriptor_eq_multisignature htd
        have hums : u.type = .multisignature := type_of_getSpentOutputDescriptor_eq_multisignature (hd.trans htd)
        refine hdisjoint _ (List.mem_map_of_mem (List.mem_filter.mpr ⟨ht, decide_eq_true hms⟩)) _
          (List.mem_map_of_mem (List.mem_filter.mpr ⟨List.mem_map_of_mem hu, decide_eq_true hums⟩)) hd.symm
      exact .inr ⟨rfl, t, ht, spendAvailable_of_untied hc ht hdescriptor block tx i⟩
    · cases h
      exact .inl ⟨rfl, rfl⟩

/-- **A turn of the first loop of `deleteTransactionTransfers`**: the spent
transfer is available again, with a new unlock job. -/
theorem unspendTransfer_untied {c : TransfersContainer} (hc : Untied c) {s : SpentTransactionOutput}
    (hs : s ∈ c.spentTransfers) : c.unspendTransfer s = c.moveToAvailable s := by
  have hnot := hc.not_available_of_spent hs
  have hfind : c.availableTransfers.find? (·.getTransactionOutputKey = s.getTransactionOutputKey) = none :=
    List.find?_eq_none.mpr fun t ht hts => hnot (List.mem_map.mpr ⟨t, ht, of_decide_eq_true hts⟩)
  unfold unspendTransfer
  dsimp only
  rw [hc.addUnlockJob_of_not_mem hnot]
  simp only [emplacedTransfer, emplaceTransfer_eq, MultiIndex.emplace_of_not_mem _ hnot, hfind, Option.getD_none]
  split
  · exact updateTransfersVisibility_of_untied (hc.moveToAvailable hs) _
  · rfl

/-- **A turn of the second loop**: the unconfirmed transfer goes. -/
theorem eraseUnconfirmedTransfer_untied {c : TransfersContainer} (hc : Untied c)
    (t : TransactionOutputInformationEx) : c.eraseUnconfirmedTransfer t = c.dropUnconfirmed t := by
  unfold eraseUnconfirmedTransfer
  split
  · exact updateTransfersVisibility_of_untied (hc.dropUnconfirmed t) _
  · rfl

/-- **A turn of the third loop**: the available transfer goes, with its job. -/
theorem eraseAvailableTransfer_untied {c : TransfersContainer} (hc : Untied c)
    (t : TransactionOutputInformationEx) : c.eraseAvailableTransfer t = c.dropAvailable t := by
  unfold eraseAvailableTransfer deleteUnlockJob
  split
  · exact updateTransfersVisibility_of_untied (hc.dropAvailable t) _
  · rfl

/-! ## Deleting a transaction -/

/-- The invariant reads no record and not the height. -/
theorem Untied.withRecords {c : TransfersContainer} (hc : Untied c) (txs : List TransactionInformation)
    (height : UInt32) : Untied { c with transactions := txs, currentHeight := height } :=
  ⟨hc.keys_nodup, hc.visible, hc.keyImages_nodup, hc.descriptors_nodup, hc.jobs_perm⟩

/-- **Deleting a transaction keeps the invariant**, and the spendable age:
each of its loops walks transfers of one set, of distinct keys, and each turn
takes out its own transfer only. -/
theorem Untied.deleteTransaction {c : TransfersContainer} (hc : Untied c) (t : TransactionInformation) :
    Untied (c.deleteTransaction t) ∧
      (c.deleteTransaction t).transactionSpendableAge = c.transactionSpendableAge := by
  set age := c.transactionSpendableAge
  have hturn₁ : ∀ (d : TransfersContainer) (s : SpentTransactionOutput),
      Untied d ∧ d.transactionSpendableAge = age → s ∈ d.spentTransfers →
      (Untied (d.unspendTransfer s) ∧ (d.unspendTransfer s).transactionSpendableAge = age) ∧
        ∀ y ∈ d.spentTransfers, y.getTransactionOutputKey ≠ s.getTransactionOutputKey →
          y ∈ (d.unspendTransfer s).spentTransfers := by
    intro d s hd hs
    rw [unspendTransfer_untied hd.1 hs]
    exact ⟨⟨hd.1.moveToAvailable hs, hd.2⟩, fun y hy hne => (List.mem_eraseP_of_neg (by simpa using hne)).mpr hy⟩
  have hturn₂ : ∀ (d : TransfersContainer) (t : TransactionOutputInformationEx),
      Untied d ∧ d.transactionSpendableAge = age → t ∈ d.unconfirmedTransfers →
      (Untied (d.eraseUnconfirmedTransfer t) ∧ (d.eraseUnconfirmedTransfer t).transactionSpendableAge = age) ∧
        ∀ y ∈ d.unconfirmedTransfers, y.getTransactionOutputKey ≠ t.getTransactionOutputKey →
          y ∈ (d.eraseUnconfirmedTransfer t).unconfirmedTransfers := by
    intro d t hd _
    rw [eraseUnconfirmedTransfer_untied hd.1]
    exact ⟨⟨hd.1.dropUnconfirmed t, hd.2⟩, fun y hy hne => (List.mem_eraseP_of_neg (by simpa using hne)).mpr hy⟩
  have hturn₃ : ∀ (d : TransfersContainer) (t : TransactionOutputInformationEx),
      Untied d ∧ d.transactionSpendableAge = age → t ∈ d.availableTransfers →
      (Untied (d.eraseAvailableTransfer t) ∧ (d.eraseAvailableTransfer t).transactionSpendableAge = age) ∧
        ∀ y ∈ d.availableTransfers, y.getTransactionOutputKey ≠ t.getTransactionOutputKey →
          y ∈ (d.eraseAvailableTransfer t).availableTransfers := by
    intro d t hd _
    rw [eraseAvailableTransfer_untied hd.1]
    exact ⟨⟨hd.1.dropAvailable t, hd.2⟩, fun y hy hne => (List.mem_eraseP_of_neg (by simpa using hne)).mpr hy⟩
  unfold TransfersContainer.deleteTransaction deleteTransactionTransfers
  dsimp only
  obtain ⟨hc₁, hage₁⟩ := MultiIndex.foldl_inv _ _ _ _ hturn₁
    (hc.spent_nodup.sublist (List.filter_sublist.map _)) ⟨hc, rfl⟩ fun s hs => List.mem_of_mem_filter hs
  obtain ⟨hc₂, hage₂⟩ := MultiIndex.foldl_inv _ _ _ _ hturn₂
    (hc₁.unconfirmed_nodup.sublist (List.filter_sublist.map _)) ⟨hc₁, hage₁⟩ fun t ht => List.mem_of_mem_filter ht
  obtain ⟨hc₃, hage₃⟩ := MultiIndex.foldl_inv _ _ _ _ hturn₃
    (hc₂.available_nodup.sublist (List.filter_sublist.map _)) ⟨hc₂, hage₂⟩ fun t ht => List.mem_of_mem_filter ht
  exact ⟨⟨hc₃.keys_nodup, hc₃.visible, hc₃.keyImages_nodup, hc₃.descriptors_nodup, hc₃.jobs_perm⟩, hage₃⟩

/-! ## Adding a transaction in a block -/

/-- A transfer's transaction is recorded, in a consistent container. -/
theorem Consistent.recorded_of_key {c : TransfersContainer} (hc : Consistent c) {k : TransactionOutputKey}
    (hk : k ∈ transferKeys c) : ∃ ti ∈ c.transactions, ti.transactionHash = k.transactionHash := by
  rw [transferKeys, List.mem_append, List.mem_append] at hk
  rcases hk with (hk | hk) | hk
  · obtain ⟨t, ht, rfl⟩ := List.mem_map.mp hk
    obtain ⟨ti, hti, hhash, -⟩ := hc.unconfirmed_recorded t ht
    exact ⟨ti, hti, hhash⟩
  · obtain ⟨t, ht, rfl⟩ := List.mem_map.mp hk
    obtain ⟨ti, hti, hhash, -⟩ := hc.confirmed_recorded t (List.mem_append_left _ ht)
    exact ⟨ti, hti, hhash⟩
  · obtain ⟨s, hs, rfl⟩ := List.mem_map.mp hk
    exact hc.spent_recorded hs

theorem doAdvanceHeight_ok_eq {c c' : TransfersContainer} {height : UInt32} {r : List TransactionOutputInformation}
    (h : c.doAdvanceHeight height = .ok (r, c')) : c' = { c with currentHeight := height } := by
  unfold doAdvanceHeight at h
  split_ifs at h
  dsimp only at h
  split at h
  · cases h
  · cases h
    rfl

/-- **The outputs loop in a block**, returning, over outputs of new output keys
and new key images: they are available, in order, with their unlock jobs. -/
theorem forEach_addTransactionOutput_untied {block : TransactionBlockInfo} {tx : TransactionReader}
    (hconfirmed : block.height ≠ WALLET_LEGACY_UNCONFIRMED_TRANSACTION_HEIGHT) :
    ∀ {transfers : List TransactionOutputInformationIn} {c c' : TransfersContainer}, Untied c →
      (transferKeys c ++ transfers.map fun t => (outputTransfer block tx t).getTransactionOutputKey).Nodup →
      (keyImages c ++ (transfers.filter (·.type = .key)).map (·.keyImage)).Nodup →
      forEach (addTransactionOutput block tx) transfers c = .ok c' →
      Untied c' ∧ ∃ jobs, c' = { c with
        availableTransfers := c.availableTransfers ++ transfers.map (outputTransfer block tx)
        transfersUnlockJobs := jobs }
  | [], c, _, hc, _, _, h => by
    cases h
    exact ⟨hc, c.transfersUnlockJobs, by simp⟩
  | x :: xs, c, c', hc, hkeys, hkeyImages, h => by
    obtain ⟨c₁, h₁, hrest⟩ := forEach_cons_ok h
    rw [List.map_cons] at hkeys
    have hkey : (outputTransfer block tx x).getTransactionOutputKey ∉ transferKeys c :=
      fun hk => (List.nodup_append.mp hkeys).2.2 _ hk _ List.mem_cons_self rfl
    have hkeyImage : x.type = .key → x.keyImage ∉ keyImages c := by
      intro hx hk
      rw [List.filter_cons_of_pos (by simpa using hx), List.map_cons] at hkeyImages
      exact (List.nodup_append.mp hkeyImages).2.2 _ hk _ List.mem_cons_self rfl
    obtain ⟨rfl, hc₁⟩ := addTransactionOutput_untied hc hconfirmed hkey hkeyImage h₁
    -- the rest of the outputs are new to the container with this one
    have hall := allTransfers_appendAvailable c (outputTransfer block tx x)
    have hkeys₁ : (transferKeys (c.appendAvailable (outputTransfer block tx x)) ++
        xs.map fun t => (outputTransfer block tx t).getTransactionOutputKey).Nodup := by
      refine (List.Perm.nodup_iff ?_).mpr hkeys
      rw [transferKeys_eq_map, transferKeys_eq_map]
      exact ((hall.map _).append_right _).trans List.perm_middle.symm
    have hkeyImages₁ : (keyImages (c.appendAvailable (outputTransfer block tx x)) ++
        (xs.filter (·.type = .key)).map (·.keyImage)).Nodup := by
      refine (List.Perm.nodup_iff ?_).mpr hkeyImages
      have himages := ((hall.filter (·.type = .key)).map (·.keyImage)).append_right
        ((xs.filter (·.type = .key)).map (·.keyImage))
      rw [List.filter_cons] at himages ⊢
      by_cases hx : x.type = .key
      · rw [if_pos (show decide ((outputTransfer block tx x).type = .key) = true from decide_eq_true hx)]
          at himages
        rw [if_pos (decide_eq_true hx), List.map_cons]
        exact himages.trans List.perm_middle.symm
      · rw [if_neg (show ¬decide ((outputTransfer block tx x).type = .key) = true from
          fun h => hx (of_decide_eq_true h))] at himages
        rw [if_neg fun h => hx (of_decide_eq_true h)]
        exact himages
    obtain ⟨hc', jobs, rfl⟩ := forEach_addTransactionOutput_untied hconfirmed hc₁ hkeys₁ hkeyImages₁ hrest
    exact ⟨hc', jobs, by simp [TransfersContainer.appendAvailable]⟩

/-- **The inputs loop**, returning: the transfers `P` it spent moved from the
available ones to the spent ones, with the spending transaction. -/
theorem forEach_addTransactionInput_untied {block : TransactionBlockInfo} {tx : TransactionReader}
    (c₀ : TransfersContainer) {l : List (TransactionInput × Nat)} {st st' : Bool × TransfersContainer}
    (hst : Untied st.2 ∧ ∃ A P jobs, (∀ p ∈ P, p.spendingTransactionHash = tx.transactionHash) ∧
      (A ++ P.map (·.toTransactionOutputInformationEx)).Perm c₀.availableTransfers ∧
      st.2 = { c₀ with availableTransfers := A, spentTransfers := c₀.spentTransfers ++ P, transfersUnlockJobs := jobs })
    (h : forEach (addTransactionInput block tx) l st = .ok st') :
    Untied st'.2 ∧ ∃ A P jobs, (∀ p ∈ P, p.spendingTransactionHash = tx.transactionHash) ∧
      (A ++ P.map (·.toTransactionOutputInformationEx)).Perm c₀.availableTransfers ∧
      st'.2 = { c₀ with availableTransfers := A, spentTransfers := c₀.spentTransfers ++ P, transfersUnlockJobs := jobs } := by
  refine forEach_returning_inv (fun st : Bool × TransfersContainer => Untied st.2 ∧ ∃ A P jobs,
      (∀ p ∈ P, p.spendingTransactionHash = tx.transactionHash) ∧
      (A ++ P.map (·.toTransactionOutputInformationEx)).Perm c₀.availableTransfers ∧
      st.2 = { c₀ with availableTransfers := A, spentTransfers := c₀.spentTransfers ++ P, transfersUnlockJobs := jobs })
    (fun a st st' hst hturn => ?_) hst h
  obtain ⟨b, c⟩ := st
  obtain ⟨b', c'⟩ := st'
  obtain ⟨hc, A, P, jobs, hP, hperm, hcA⟩ := hst
  rcases addTransactionInput_untied hc hturn with ⟨-, rfl⟩ | ⟨-, t, ht, rfl⟩
  · exact ⟨hc, A, P, jobs, hP, hperm, hcA⟩
  -- the transfer moves from the available ones to the end of the spent ones
  refine ⟨hc.moveToSpent ht block tx a.2, A.eraseP (·.getTransactionOutputKey = t.getTransactionOutputKey),
    P ++ [spentTransfer block tx a.2 t],
    jobs.eraseP (·.transactionOutputKey = t.getTransactionOutputKey), ?_, ?_, ?_⟩
  · intro p hp
    rcases List.mem_append.mp hp with hp | hp
    · exact hP p hp
    · rw [List.mem_singleton.mp hp]
      rfl
  · subst hcA
    have hA := MultiIndex.perm_cons_eraseP (fun t : TransactionOutputInformationEx => t.getTransactionOutputKey)
      hc.available_nodup ht
    rw [List.map_append, List.map_singleton, ← List.append_assoc]
    exact (List.perm_append_singleton _ _).trans ((hA.symm.append_right _).trans hperm)
  · subst hcA
    simp only [TransfersContainer.moveToSpent, TransfersContainer.dropAvailable, List.append_assoc]

/-- **Adding a transaction in a block**, returning, with outputs of distinct
indexes and new key images: its outputs are available with their jobs, the
transfers `P` it spent are spent by it, it is recorded if it touched the
container, and the height is the block's. -/
theorem addTransaction_untied {c c' : TransfersContainer} (hc : Untied c) (hordered : Ordered (ledger c))
    {block : TransactionBlockInfo} {tx : TransactionReader} {transfers : List TransactionOutputInformationIn}
    {added : Bool} {unlocked : List TransactionOutputInformation}
    (hconfirmed : block.height ≠ WALLET_LEGACY_UNCONFIRMED_TRANSACTION_HEIGHT)
    (hindices : (transfers.map (·.outputInTransaction)).Nodup)
    (hkeyImages : (keyImages c ++ (transfers.filter (·.type = .key)).map (·.keyImage)).Nodup)
    (h : c.addTransaction block tx transfers = .ok ((added, unlocked), c')) :
    Untied c' ∧ ∃ A P jobs, (∀ p ∈ P, p.spendingTransactionHash = tx.transactionHash) ∧
      (A ++ P.map (·.toTransactionOutputInformationEx)).Perm
        (c.availableTransfers ++ transfers.map (outputTransfer block tx)) ∧
      (added = false → A = c.availableTransfers ∧ P = []) ∧
      c' = { c with
        transactions := if added then insertByHeight (transactionRecord block tx) c.transactions else c.transactions
        availableTransfers := A
        spentTransfers := c.spentTransfers ++ P
        transfersUnlockJobs := jobs
        currentHeight := block.height } := by
  unfold TransfersContainer.addTransaction at h
  by_cases hlow : block.height < c.currentHeight
  · rw [if_pos hlow] at h
    cases h
  rw [if_neg hlow] at h
  by_cases hrecorded : c.transactions.any (·.transactionHash = tx.transactionHash)
  · rw [if_pos hrecorded] at h
    cases h
  rw [if_neg hrecorded] at h
  -- no transfer is of the transaction yet, so its outputs have new keys
  have hkeys : (transferKeys c ++ transfers.map fun t => (outputTransfer block tx t).getTransactionOutputKey).Nodup := by
    have houtputs : (transfers.map fun t => (outputTransfer block tx t).getTransactionOutputKey) =
        (transfers.map (·.outputInTransaction)).map (TransactionOutputKey.mk tx.transactionHash) := by
      rw [List.map_map]
      rfl
    refine List.nodup_append.mpr ⟨hc.keys_nodup, ?_, ?_⟩
    · rw [houtputs]
      exact hindices.map fun _ _ hij => (TransactionOutputKey.mk.inj hij).2
    · intro k hk k' hk' hkk'
      obtain ⟨ti, hti, hhash⟩ := (Consistent.of_ledger hordered.toConsistent).recorded_of_key hk
      obtain ⟨t, -, rfl⟩ := List.mem_map.mp hk'
      subst hkk'
      exact hrecorded (List.any_eq_true.mpr ⟨ti, hti, decide_eq_true hhash⟩)
  -- the outputs loop
  split at h
  · cases h
  rename_i outputsAdded c₁ hout
  unfold addTransactionOutputs at hout
  split at hout
  · cases hout
  rename_i c₁' hloop
  cases hout
  obtain ⟨hc₁, jobs₁, hc₁eq⟩ := forEach_addTransactionOutput_untied hconfirmed hc hkeys hkeyImages hloop
  -- the inputs loop
  dsimp only at h
  split at h
  · cases h
  rename_i inputsAdded c₂ hin
  unfold addTransactionInputs at hin
  split at hin
  · cases hin
  rename_i r hloop₂
  cases hin
  obtain ⟨hc₂, A, P, jobs, hP, hperm, hc₂eq⟩ := forEach_addTransactionInput_untied c₁
    ⟨hc₁, c₁.availableTransfers, [], c₁.transfersUnlockJobs, by simp, by simp, by cases c₁; simp⟩ hloop₂
  -- the record, and the height of the block
  rw [if_pos hconfirmed] at h
  split at h
  · cases h
  rename_i finishedJobs c₄ hadv
  cases h
  rw [doAdvanceHeight_ok_eq hadv]
  dsimp only at hc₂ hc₂eq
  rw [hc₁eq] at hperm hc₂eq
  refine ⟨?_, A, P, jobs, hP, hperm, ?_, ?_⟩
  · split
    · exact hc₂.withRecords _ _
    · exact hc₂.withRecords _ _
  · intro hnone
    simp only [Bool.or_eq_false_iff, Bool.not_eq_false', List.isEmpty_iff] at hnone
    obtain ⟨rfl, rfl⟩ := hnone
    obtain ⟨-, hsame⟩ := forEach_addTransactionInput_unchanged hloop₂
    rw [hc₂eq, hc₁eq] at hsame
    obtain ⟨-, -, hA, hS, -⟩ := TransfersContainer.mk.inj hsame
    exact ⟨by simpa using hA, by simpa using hS⟩
  · rw [hc₂eq]
    split <;> simp [addTransactionInfo, transactionRecord]

end TransfersContainer

end Cn
