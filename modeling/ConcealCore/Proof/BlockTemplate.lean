import ConcealCore.Spec.BlockTemplate
import ConcealCore.Proof.PoolInvariant

/-!
# What `fill_block_template` takes

`Tracks t sel` says the block template holds exactly what the transactions
`sel` spend, and their ids. `BlockTemplate.addTransaction` keeps it and takes
only a transaction that spends nothing the others spend (`Tracks.addTransaction`),
so the transactions taken never share a key image or a multisignature output.

`fillBlockTemplate_spec`: for every pool, the ids in the block are those of a
sublist of the fee index of transactions without a TTL, with outputs within
inputs and found ready, spending nothing in common; `total_size` and `fee` are
the (wrapping) sums of their sizes and fees; and each one fits, with those
before it, under the median when it has no fee and under `max_total_size`
otherwise. So `total_size` is at most the larger of the two limits
(`fillBlockTemplate_totalSize_le`). That is `max_total_size` when the median
is within it, as it is when `get_block_template` passes a `maxCumulativeSize`
no smaller than the median (`fillBlockTemplate_within_maxTotalSize`); below
the median, a transaction without fee may take the block past
`max_total_size` (`fillBlockTemplate_exceeds_maxTotalSize`).
-/

namespace Cn

/-- Two transactions spend no key image and no multisignature output in common. -/
def SpendApart (a b : Transaction) : Prop :=
  (∀ k ∈ keyImagesOf a, k ∉ keyImagesOf b) ∧ (∀ o ∈ multisignatureOutputsOf a, o ∉ multisignatureOutputsOf b)

namespace BlockTemplate

/-- The template holds what the transactions `sel` spend, and their ids. -/
structure Tracks (t : BlockTemplate) (sel : List TransactionDetails) : Prop where
  keyImages : ∀ k, k ∈ t.keyImages ↔ ∃ txd ∈ sel, k ∈ keyImagesOf txd.tx
  usedOutputs : ∀ o, o ∈ t.usedOutputs ↔ ∃ txd ∈ sel, o ∈ multisignatureOutputsOf txd.tx
  txHashes : t.txHashes = sel.map (·.id)

theorem tracks_empty : Tracks ⟨[], [], []⟩ [] := ⟨by simp, by simp, rfl⟩

theorem canAdd_iff (t : BlockTemplate) (tx : Transaction) :
    t.canAdd tx = true ↔
      (∀ k ∈ keyImagesOf tx, k ∉ t.keyImages) ∧ (∀ o ∈ multisignatureOutputsOf tx, o ∉ t.usedOutputs) := by
  simp only [canAdd, List.all_eq_true, keyImagesOf, multisignatureOutputsOf, List.mem_filterMap]
  constructor
  · intro h
    refine ⟨?_, ?_⟩
    · rintro k ⟨input, hinput, hk⟩ hmem
      have hcan := h input hinput
      cases input with
      | key i =>
        simp only [keyImageOfInput, Option.some.injEq] at hk
        subst hk
        simp only [decide_eq_true_eq] at hcan
        exact hcan hmem
      | multisignature => simp at hk
      | base => simp at hk
    · rintro o ⟨input, hinput, ho⟩ hmem
      have hcan := h input hinput
      cases input with
      | multisignature m =>
        simp only [multisignatureOutputOfInput, Option.some.injEq] at ho
        subst ho
        simp only [decide_eq_true_eq] at hcan
        exact hcan hmem
      | key => simp at ho
      | base => simp at ho
  · rintro ⟨hkeys, houts⟩ input hinput
    cases input with
    | base _ => rfl
    | key k => simpa using hkeys k.keyImage ⟨_, hinput, rfl⟩
    | multisignature m => simpa using houts (m.amount, m.outputIndex) ⟨_, hinput, rfl⟩

/-- Inserting a transaction's inputs adds its key images and outputs and
nothing else. -/
theorem foldl_insertInput (t : BlockTemplate) (ins : List TransactionInput) :
    (∀ k, k ∈ (ins.foldl insertInput t).keyImages ↔ k ∈ t.keyImages ∨ k ∈ ins.filterMap keyImageOfInput) ∧
      (∀ o, o ∈ (ins.foldl insertInput t).usedOutputs ↔
        o ∈ t.usedOutputs ∨ o ∈ ins.filterMap multisignatureOutputOfInput) ∧
      (ins.foldl insertInput t).txHashes = t.txHashes := by
  induction ins generalizing t with
  | nil => simp
  | cons input ins ih =>
    obtain ⟨hkeys, houts, hids⟩ := ih (insertInput t input)
    rw [List.foldl_cons]
    refine ⟨fun k => ?_, fun o => ?_, ?_⟩
    · rw [hkeys]
      -- only a key input adds a key image
      cases input <;> simp [insertInput, List.mem_insert_iff]
      tauto
    · rw [houts]
      -- only a multisignature input adds an output
      cases input <;> simp [insertInput, List.mem_insert_iff]
      tauto
    · rw [hids]
      cases input <;> rfl

/-- **`addTransaction`.** A transaction is taken only when it spends nothing
the transactions taken before spend, and then the template tracks it too. -/
theorem Tracks.addTransaction {t t' : BlockTemplate} {sel : List TransactionDetails} (h : Tracks t sel)
    (txd : TransactionDetails) (hadd : t.addTransaction txd.id txd.tx = some t') :
    (∀ other ∈ sel, SpendApart other.tx txd.tx) ∧ Tracks t' (sel ++ [txd]) := by
  unfold BlockTemplate.addTransaction at hadd
  split at hadd
  · contradiction
  next hcan =>
    rw [Bool.not_eq_true', Bool.not_eq_false] at hcan
    obtain ⟨hkeys, houts⟩ := (canAdd_iff t txd.tx).mp hcan
    obtain ⟨hkeys', houts', hids'⟩ := foldl_insertInput t txd.tx.inputs
    obtain rfl := Option.some.inj hadd
    refine ⟨fun other hother => ⟨fun k hk hk' => ?_, fun o ho ho' => ?_⟩, ⟨fun k => ?_, fun o => ?_, ?_⟩⟩
    · exact hkeys k hk' ((h.keyImages k).mpr ⟨other, hother, hk⟩)
    · exact houts o ho' ((h.usedOutputs o).mpr ⟨other, hother, ho⟩)
    · simp only [hkeys', h.keyImages, List.mem_append, List.mem_singleton, keyImagesOf]
      constructor
      · rintro (⟨x, hx, hk⟩ | hk)
        · exact ⟨x, Or.inl hx, hk⟩
        · exact ⟨txd, Or.inr rfl, hk⟩
      · rintro ⟨x, hx | rfl, hk⟩
        · exact Or.inl ⟨x, hx, hk⟩
        · exact Or.inr hk
    · simp only [houts', h.usedOutputs, List.mem_append, List.mem_singleton, multisignatureOutputsOf]
      constructor
      · rintro (⟨x, hx, ho⟩ | ho)
        · exact ⟨x, Or.inl hx, ho⟩
        · exact ⟨txd, Or.inr rfl, ho⟩
      · rintro ⟨x, hx | rfl, ho⟩
        · exact Or.inl ⟨x, hx, ho⟩
        · exact Or.inr ho
    · show (txd.tx.inputs.foldl insertInput t).txHashes ++ [txd.id] = _
      rw [hids', h.txHashes, List.map_append, List.map_singleton]

end BlockTemplate

namespace TxPool

variable (validator : ReadyValidator) (cur : Currency) (p : TxPool)

section Loop

variable (medianSize maxTotal : UInt64) (height : UInt32)

/-- What the loop checks of a transaction before its size: no TTL, outputs
within inputs, and ready. -/
structure Takeable (txd : TransactionDetails) : Prop where
  no_ttl : p.ttlIndex.lookup txd.id = none
  amounts : getOutsMoneyAmount txd.tx.toTransactionPrefix ≤ cur.getTransactionAllInputsAmount txd.tx.toTransactionPrefix height
  ready : isTransactionReadyToGo validator txd = true

/-- The size limit `fill_block_template` puts on a transaction. -/
def sizeLimit (txd : TransactionDetails) : UInt64 := if txd.fee = 0 then medianSize else maxTotal

/-- The template after one transaction of the loop, or `none` where the loop
passes over it. -/
def fillBlockTemplate.take? (txd : TransactionDetails) (t : BlockTemplate) (totalSize : UInt64) :
    Option BlockTemplate :=
  if (p.ttlIndex.lookup txd.id).isSome then none
  else if getOutsMoneyAmount txd.tx.toTransactionPrefix >
      cur.getTransactionAllInputsAmount txd.tx.toTransactionPrefix height then none
  else if sizeLimit medianSize maxTotal txd < totalSize + txd.blobSize then none
  else if isTransactionReadyToGo validator txd then t.addTransaction txd.id txd.tx
  else none

/-- One turn of the loop: the transaction is taken or passed over. -/
theorem fillBlockTemplate_loop_cons (txd : TransactionDetails) (rest : List TransactionDetails) (t : BlockTemplate)
    (totalSize fee : UInt64) :
    fillBlockTemplate.loop validator cur p medianSize maxTotal height (txd :: rest) t totalSize fee =
      match fillBlockTemplate.take? validator cur p medianSize maxTotal height txd t totalSize with
      | some t' => fillBlockTemplate.loop validator cur p medianSize maxTotal height rest t' (totalSize + txd.blobSize)
          (fee + txd.fee)
      | none => fillBlockTemplate.loop validator cur p medianSize maxTotal height rest t totalSize fee := by
  rw [fillBlockTemplate.loop]
  simp only [fillBlockTemplate.take?, sizeLimit]
  split_ifs <;> rfl

/-- A transaction the loop takes passed every check. -/
theorem take?_eq_some {txd : TransactionDetails} {t t' : BlockTemplate} {totalSize : UInt64}
    (h : fillBlockTemplate.take? validator cur p medianSize maxTotal height txd t totalSize = some t') :
    Takeable validator cur p height txd ∧ totalSize + txd.blobSize ≤ sizeLimit medianSize maxTotal txd ∧
      t.addTransaction txd.id txd.tx = some t' := by
  unfold fillBlockTemplate.take? at h
  split_ifs at h with httl hamounts hsize hready
  exact ⟨⟨Option.not_isSome_iff_eq_none.mp httl, UInt64.not_lt.mp hamounts, hready⟩, UInt64.not_lt.mp hsize, h⟩

/-- The transactions the loop takes, with what it checked of each. -/
structure Taken (l sel0 sel : List TransactionDetails) (totalSize fee : UInt64)
    (r : BlockTemplate × UInt64 × UInt64) : Prop where
  sublist : sel.Sublist l
  takeable : ∀ txd ∈ sel, Takeable validator cur p height txd
  tracks : r.1.Tracks (sel0 ++ sel)
  apart : (sel0 ++ sel).Pairwise fun a b => SpendApart a.tx b.tx
  totalSize_eq : r.2.1 = totalSize + (sel.map (·.blobSize)).sum
  fee_eq : r.2.2 = fee + (sel.map (·.fee)).sum
  fits : ∀ i (hi : i < sel.length),
    totalSize + ((sel.take (i + 1)).map (·.blobSize)).sum ≤ sizeLimit medianSize maxTotal sel[i]

/-- **The loop.** From a template tracking `sel0`, the loop takes a sublist of
its transactions that passed every check, spending nothing the others spend,
with the sizes and fees added up. Induction on the transactions. -/
theorem fillBlockTemplate_loop_taken :
    ∀ (l : List TransactionDetails) (t : BlockTemplate) (totalSize fee : UInt64) (sel0 : List TransactionDetails),
      t.Tracks sel0 → (sel0.Pairwise fun a b => SpendApart a.tx b.tx) →
      ∃ sel, Taken validator cur p medianSize maxTotal height l sel0 sel totalSize fee
        (fillBlockTemplate.loop validator cur p medianSize maxTotal height l t totalSize fee) := by
  intro l
  induction l with
  | nil =>
    intro t totalSize fee sel0 htracks hapart
    refine ⟨[], ⟨List.Sublist.slnil, by simp, by simpa [fillBlockTemplate.loop] using htracks, by simpa using hapart,
      ?_, ?_, by simp⟩⟩
    · simp [fillBlockTemplate.loop]
    · simp [fillBlockTemplate.loop]
  | cons txd rest ih =>
    intro t totalSize fee sel0 htracks hapart
    rw [fillBlockTemplate_loop_cons]
    cases htake : fillBlockTemplate.take? validator cur p medianSize maxTotal height txd t totalSize with
    | none =>
      -- passed over: the rest of the loop from the same state
      obtain ⟨sel, h⟩ := ih t totalSize fee sel0 htracks hapart
      exact ⟨sel, { h with sublist := h.sublist.cons txd }⟩
    | some t' =>
      -- taken: it joins the template, then the rest of the loop
      obtain ⟨htakeable, hfit, hadd⟩ := take?_eq_some validator cur p medianSize maxTotal height htake
      obtain ⟨happart, htracks'⟩ := htracks.addTransaction txd hadd
      have hapart' : (sel0 ++ [txd]).Pairwise fun a b => SpendApart a.tx b.tx :=
        List.pairwise_append.mpr ⟨hapart, List.pairwise_singleton _ _,
          fun a ha b hb => (List.mem_singleton.mp hb) ▸ happart a ha⟩
      obtain ⟨sel, h⟩ := ih t' (totalSize + txd.blobSize) (fee + txd.fee) (sel0 ++ [txd]) htracks' hapart'
      refine ⟨txd :: sel, ⟨h.sublist.cons_cons txd, ?_, ?_, ?_, ?_, ?_, ?_⟩⟩
      · intro x hx
        rcases List.mem_cons.mp hx with rfl | hx
        · exact htakeable
        · exact h.takeable x hx
      · simpa using h.tracks
      · simpa using h.apart
      · rw [h.totalSize_eq, List.map_cons, List.sum_cons, UInt64.add_assoc]
      · rw [h.fee_eq, List.map_cons, List.sum_cons, UInt64.add_assoc]
      · intro i hi
        cases i with
        | zero => simpa using hfit
        | succ i =>
          have := h.fits i (by simpa using hi)
          simpa [List.take_succ_cons, UInt64.add_assoc] using this

end Loop

variable (height : UInt32)

/-- **`fill_block_template`.** For every pool, the block's ids are those of a
sublist of the fee index whose transactions have no TTL, outputs within inputs,
are ready and spend nothing in common; `total_size` and `fee` are the sums of
their sizes and fees, and each fits, with those before it, under its limit. -/
theorem fillBlockTemplate_spec (medianSize maxCumulativeSize : UInt64) :
    ∃ sel : List TransactionDetails, sel.Sublist p.feeIndex ∧ (∀ txd ∈ sel, Takeable validator cur p height txd) ∧
      (sel.Pairwise fun a b => SpendApart a.tx b.tx) ∧
      fillBlockTemplate validator cur p medianSize maxCumulativeSize height =
        (sel.map (·.id), (sel.map (·.blobSize)).sum, (sel.map (·.fee)).sum) ∧
      ∀ i (hi : i < sel.length),
        ((sel.take (i + 1)).map (·.blobSize)).sum ≤
          sizeLimit medianSize (maxTotalSize cur medianSize maxCumulativeSize) sel[i] := by
  obtain ⟨sel, h⟩ := fillBlockTemplate_loop_taken validator cur p medianSize (maxTotalSize cur medianSize maxCumulativeSize)
    height p.feeIndex ⟨[], [], []⟩ 0 0 [] BlockTemplate.tracks_empty List.Pairwise.nil
  refine ⟨sel, h.sublist, h.takeable, by simpa using h.apart, ?_, fun i hi => by simpa using h.fits i hi⟩
  have htracks := h.tracks
  rw [List.nil_append] at htracks
  simp only [fillBlockTemplate, htracks.txHashes, h.totalSize_eq, h.fee_eq, UInt64.zero_add]

/-- Transactions taken in the order of the fee index are pooled ones, each once. -/
theorem mem_of_sublist_feeIndex {sel : List TransactionDetails} (hsub : sel.Sublist p.feeIndex)
    {txd : TransactionDetails} (h : txd ∈ sel) : txd ∈ p.transactions :=
  (List.mergeSort_perm _ _).subset (hsub.subset h)

theorem ids_nodup_of_sublist_feeIndex (hp : p.Consistent) {sel : List TransactionDetails}
    (hsub : sel.Sublist p.feeIndex) : (sel.map (·.id)).Nodup := by
  have hperm : p.feeIndex.Perm p.transactions := List.mergeSort_perm _ _
  exact (hsub.map (·.id)).nodup ((hperm.map (·.id)).nodup_iff.mpr hp.ids_nodup)

/-- The block holds transactions of the pool, each once. -/
theorem fillBlockTemplate_ids_nodup (hp : p.Consistent) (medianSize maxCumulativeSize : UInt64) :
    (fillBlockTemplate validator cur p medianSize maxCumulativeSize height).1.Nodup := by
  obtain ⟨sel, hsub, -, -, hfill, -⟩ := fillBlockTemplate_spec validator cur p height medianSize maxCumulativeSize
  rw [hfill]
  exact ids_nodup_of_sublist_feeIndex p hp hsub

/-- Transactions that each fit, with those before them, under their limits
take no more than the larger limit. -/
theorem sum_le_max_of_fits {sel : List TransactionDetails} (medianSize maxTotal : UInt64)
    (hfits : ∀ i (hi : i < sel.length),
      ((sel.take (i + 1)).map (·.blobSize)).sum ≤ sizeLimit medianSize maxTotal sel[i]) :
    (sel.map (·.blobSize)).sum ≤ max medianSize maxTotal := by
  rcases List.eq_nil_or_concat' sel with rfl | ⟨init, last, rfl⟩
  · exact UInt64.zero_le
  · -- the last transaction taken fit with all of them
    have hlast := hfits init.length (by simp)
    rw [List.take_of_length_le (by simp), List.getElem_concat_length rfl] at hlast
    refine UInt64.le_trans hlast ?_
    -- either limit is at most the larger one
    rw [sizeLimit, UInt64.max_def]
    split_ifs <;> grind

/-- `total_size` is at most the larger of the two limits. -/
theorem fillBlockTemplate_totalSize_le (medianSize maxCumulativeSize : UInt64) :
    (fillBlockTemplate validator cur p medianSize maxCumulativeSize height).2.1 ≤
      max medianSize (maxTotalSize cur medianSize maxCumulativeSize) := by
  obtain ⟨sel, -, -, -, hfill, hfits⟩ := fillBlockTemplate_spec validator cur p height medianSize maxCumulativeSize
  rw [hfill]
  exact sum_le_max_of_fits medianSize _ hfits

/-- The median is within `max_total_size` when a quarter of it covers the
coinbase reserve, its 125 % does not wrap, and `maxCumulativeSize` is no
smaller. -/
theorem le_maxTotalSize {medianSize maxCumulativeSize : UInt64}
    (hreserve : 4 * cur.minerTxBlobReservedSize.toNat ≤ medianSize.toNat) (hmul : 125 * medianSize.toNat < 2 ^ 64)
    (hcum : medianSize ≤ maxCumulativeSize) : medianSize ≤ maxTotalSize cur medianSize maxCumulativeSize := by
  have h125 : (125 * medianSize).toNat = 125 * medianSize.toNat := by
    rw [UInt64.toNat_mul, show (125 : UInt64).toNat = 125 from rfl, Nat.mod_eq_of_lt hmul]
  have hdiv : (125 * medianSize / 100).toNat = 125 * medianSize.toNat / 100 := by
    rw [UInt64.toNat_div, h125]
    rfl
  -- `125 m / 100` is `m + m / 4`, at least `m` plus the reserve
  have hsub : (125 * medianSize / 100 - cur.minerTxBlobReservedSize).toNat =
      125 * medianSize.toNat / 100 - cur.minerTxBlobReservedSize.toNat := by
    rw [UInt64.toNat_sub_of_le _ _ (UInt64.le_iff_toNat_le.2 (by rw [hdiv]; omega)), hdiv]
  have hfirst : medianSize ≤ 125 * medianSize / 100 - cur.minerTxBlobReservedSize := by
    rw [UInt64.le_iff_toNat_le, hsub]
    omega
  unfold maxTotalSize
  rw [UInt64.min_def]
  split_ifs
  · exact hfirst
  · exact hcum

/-- **`fill_block_template` as `get_block_template` calls it.** For a pool
satisfying the pool invariant, a median of at least the full reward zone (a
quarter of which covers the coinbase reserve) whose 125 % fits in 64 bits, and
a `maxCumulativeSize` no smaller than the median: the block holds distinct ids
of pooled transactions without a TTL, with outputs within inputs and found
ready, spending no key image or multisignature output in common; `total_size`
and `fee` are the sums of their sizes and fees; and `total_size` is within
`max_total_size`. -/
theorem fillBlockTemplate_within_maxTotalSize (hp : p.Consistent) {medianSize maxCumulativeSize : UInt64}
    (hzone : cur.blockGrantedFullRewardZone ≤ medianSize)
    (hreserve : 4 * cur.minerTxBlobReservedSize.toNat ≤ cur.blockGrantedFullRewardZone.toNat)
    (hmul : 125 * medianSize.toNat < 2 ^ 64) (hcum : medianSize ≤ maxCumulativeSize) :
    ∃ sel : List TransactionDetails, (∀ txd ∈ sel, txd ∈ p.transactions ∧ Takeable validator cur p height txd) ∧
      (sel.map (·.id)).Nodup ∧ (sel.Pairwise fun a b => SpendApart a.tx b.tx) ∧
      fillBlockTemplate validator cur p medianSize maxCumulativeSize height =
        (sel.map (·.id), (sel.map (·.blobSize)).sum, (sel.map (·.fee)).sum) ∧
      (sel.map (·.blobSize)).sum ≤ maxTotalSize cur medianSize maxCumulativeSize := by
  obtain ⟨sel, hsub, htake, hapart, hfill, hfits⟩ :=
    fillBlockTemplate_spec validator cur p height medianSize maxCumulativeSize
  have hle : medianSize ≤ maxTotalSize cur medianSize maxCumulativeSize :=
    le_maxTotalSize cur (by rw [UInt64.le_iff_toNat_le] at hzone; omega) hmul hcum
  refine ⟨sel, fun txd h => ⟨mem_of_sublist_feeIndex p hsub h, htake txd h⟩,
    ids_nodup_of_sublist_feeIndex p hp hsub, hapart, hfill, ?_⟩
  -- the larger of the two limits is `max_total_size`
  have hsum := sum_le_max_of_fits medianSize _ hfits
  rwa [UInt64.max_def, if_pos hle] at hsum

/-! ## A transaction without fee past `max_total_size` -/

/-- A transaction of 60000 bytes without fee, inputs or outputs. -/
def zeroFeeDetails : TransactionDetails where
  id := default
  blobSize := 60000
  tx := ⟨⟨1, 0, [], [], []⟩, []⟩
  fee := 0
  keptByBlock := false
  receiveTime := 0
  maxUsedBlock := default

/-- The pool holding only `zeroFeeDetails`. -/
def zeroFeePool : TxPool := { empty with transactions := [zeroFeeDetails] }

theorem zeroFeePool_consistent : zeroFeePool.Consistent where
  ids_nodup := by simp [zeroFeePool]
  keyImages_nodup := by simp [zeroFeePool, zeroFeeDetails, keyImagesOf]
  mem_spentKeyImages := by simp [zeroFeePool, zeroFeeDetails, keyImagesOf, empty]
  spentKeyImages_nodup := by simp [zeroFeePool, empty]
  mem_spentOutputs := by simp [zeroFeePool, zeroFeeDetails, multisignatureOutputsOf, empty]
  spentOutputs_nodup := by simp [zeroFeePool, empty]
  ttl_mem := by simp [zeroFeePool, empty]
  disjoint := by simp [zeroFeePool]

/-- With the median as its `maxCumulativeSize`, the transaction without fee is
taken within `max_total_size`. -/
theorem fillBlockTemplate_within_maxTotalSize_zeroFeePool :
    zeroFeePool.Consistent ∧ Currency.mainnet.blockGrantedFullRewardZone ≤ 100000 ∧
      4 * Currency.mainnet.minerTxBlobReservedSize.toNat ≤ Currency.mainnet.blockGrantedFullRewardZone.toNat ∧
      125 * (100000 : UInt64).toNat < 2 ^ 64 ∧ (100000 : UInt64) ≤ 100000 ∧
      (fillBlockTemplate ⟨fun _ => true, fun _ => false⟩ Currency.mainnet zeroFeePool 100000 100000 0).2.1 ≤
        maxTotalSize Currency.mainnet 100000 100000 := by
  refine ⟨zeroFeePool_consistent, by decide, by decide, by decide, by decide, ?_⟩
  obtain ⟨sel, -, -, -, hfill, hsum⟩ := @fillBlockTemplate_within_maxTotalSize ⟨fun _ => true, fun _ => false⟩
    Currency.mainnet zeroFeePool 0 zeroFeePool_consistent 100000 100000 (by decide) (by decide) (by decide)
    (by decide)
  rw [hfill]
  exact hsum

/-- With a median of 100000 bytes and a `maxCumulativeSize` of 50000, the
transaction without fee is measured against the median and taken, and
`total_size` ends past `max_total_size`. -/
theorem fillBlockTemplate_exceeds_maxTotalSize (validator : ReadyValidator)
    (hready : isTransactionReadyToGo validator zeroFeeDetails = true) :
    zeroFeePool.Consistent ∧ Currency.mainnet.blockGrantedFullRewardZone ≤ 100000 ∧
      fillBlockTemplate validator Currency.mainnet zeroFeePool 100000 50000 0 = ([zeroFeeDetails.id], 60000, 0) ∧
      maxTotalSize Currency.mainnet 100000 50000 < 60000 := by
  have hindex : zeroFeePool.feeIndex = [zeroFeeDetails] := by simp [feeIndex, zeroFeePool]
  have htake : fillBlockTemplate.take? validator Currency.mainnet zeroFeePool 100000
      (maxTotalSize Currency.mainnet 100000 50000) 0 zeroFeeDetails ⟨[], [], []⟩ 0 =
      some ⟨[], [], [zeroFeeDetails.id]⟩ := by
    -- no TTL, no inputs or outputs, and 60000 bytes under the median: only the validator is left
    rw [fillBlockTemplate.take?, if_neg (by decide), if_neg (by decide), if_neg (by decide), if_pos hready]
    rfl
  refine ⟨zeroFeePool_consistent, by decide, ?_, by decide⟩
  simp only [fillBlockTemplate, hindex, fillBlockTemplate_loop_cons, htake]
  rfl

/-- With a validator that finds every transaction ready, `total_size` is 60000
where `max_total_size` is 50000. -/
theorem fillBlockTemplate_exceeds_maxTotalSize_acceptAll :
    zeroFeePool.Consistent ∧ isTransactionReadyToGo ⟨fun _ => true, fun _ => false⟩ zeroFeeDetails = true ∧
      fillBlockTemplate ⟨fun _ => true, fun _ => false⟩ Currency.mainnet zeroFeePool 100000 50000 0 =
        ([zeroFeeDetails.id], 60000, 0) ∧
      maxTotalSize Currency.mainnet 100000 50000 < 60000 :=
  have h := fillBlockTemplate_exceeds_maxTotalSize ⟨fun _ => true, fun _ => false⟩ rfl
  ⟨h.1, rfl, h.2.2.1, h.2.2.2⟩

end TxPool

end Cn
