import ConcealCore.Spec.Pool

/-!
# The spent-input indexes of the pool

`tx_memory_pool` keeps two indexes of what its transactions spend:
`m_spent_key_images`, from each key image to the ids of the pooled transactions
that use it, and `m_spentOutputs`, the multisignature outputs of the pooled
transactions that did not come from a block. `addTransactionInputs` and
`removeTransactionInputs` update them, asymmetrically: key images always,
multisignature outputs only when the transaction is not kept by a block.

`Consistent` says the indexes are exactly what the pooled transactions spend,
the TTL index names only pooled transactions, and two transactions that did
not come from a block spend nothing in common. Every `add_tx` of a transaction
whose key images are distinct (as `check_tx_semantic` checks), every `take_tx`
and every expiry keeps it (`Consistent.step`), so it holds of every pool these
calls reach from the empty one (`Reachable.consistent`, `reachable_spentIndexes_exact`).
-/

namespace Cn

/-- The key image of a key input. -/
def keyImageOfInput : TransactionInput → Option KeyImage
  | .key k => some k.keyImage
  | _ => none

/-- The output a multisignature input spends. -/
def multisignatureOutputOfInput : TransactionInput → Option (UInt64 × UInt32)
  | .multisignature m => some (m.amount, m.outputIndex)
  | _ => none

/-- The key images a transaction's inputs use. -/
@[grind] def keyImagesOf (tx : Transaction) : List KeyImage := tx.inputs.filterMap keyImageOfInput

/-- The multisignature outputs a transaction's inputs spend. -/
@[grind] def multisignatureOutputsOf (tx : Transaction) : List (UInt64 × UInt32) :=
  tx.inputs.filterMap multisignatureOutputOfInput

namespace TxPool

/-- **The pool invariant.** The key-image index maps each key image to the ids
of the pooled transactions that use it, with no repetition; the output index
holds the multisignature outputs of the pooled transactions not kept by a
block, once each; the TTL index names pooled transactions; and two pooled
transactions not kept by a block share no key image and no output. The ids are
distinct and every pooled transaction uses distinct key images, which the
removal of one needs. -/
structure Consistent (p : TxPool) : Prop where
  ids_nodup : (p.transactions.map (·.id)).Nodup
  keyImages_nodup : ∀ txd ∈ p.transactions, (keyImagesOf txd.tx).Nodup
  mem_spentKeyImages : ∀ k id, id ∈ p.spentKeyImages k ↔
    ∃ txd ∈ p.transactions, txd.id = id ∧ k ∈ keyImagesOf txd.tx
  spentKeyImages_nodup : ∀ k, (p.spentKeyImages k).Nodup
  mem_spentOutputs : ∀ o, o ∈ p.spentOutputs ↔
    ∃ txd ∈ p.transactions, txd.keptByBlock = false ∧ o ∈ multisignatureOutputsOf txd.tx
  spentOutputs_nodup : p.spentOutputs.Nodup
  ttl_mem : ∀ e ∈ p.ttlIndex, ∃ txd ∈ p.transactions, txd.id = e.1
  disjoint : ∀ t₁ ∈ p.transactions, ∀ t₂ ∈ p.transactions, t₁.id ≠ t₂.id →
    t₁.keptByBlock = false → t₂.keptByBlock = false →
    (∀ k ∈ keyImagesOf t₁.tx, k ∉ keyImagesOf t₂.tx) ∧
    (∀ o ∈ multisignatureOutputsOf t₁.tx, o ∉ multisignatureOutputsOf t₂.tx)

theorem empty_consistent : empty.Consistent where
  ids_nodup := List.nodup_nil
  keyImages_nodup := by simp [empty]
  mem_spentKeyImages := by simp [empty]
  spentKeyImages_nodup := fun _ => List.nodup_nil
  mem_spentOutputs := by simp [empty]
  spentOutputs_nodup := List.nodup_nil
  ttl_mem := by simp [empty]
  disjoint := by simp [empty]

@[simp] theorem keyImageOfInput_key (k : KeyInput) : keyImageOfInput (.key k) = some k.keyImage := rfl
@[simp] theorem keyImageOfInput_multisignature (m : MultisignatureInput) :
    keyImageOfInput (.multisignature m) = none := rfl
@[simp] theorem keyImageOfInput_base (b : BaseInput) : keyImageOfInput (.base b) = none := rfl
@[simp] theorem multisignatureOutputOfInput_key (k : KeyInput) : multisignatureOutputOfInput (.key k) = none := rfl
@[simp] theorem multisignatureOutputOfInput_multisignature (m : MultisignatureInput) :
    multisignatureOutputOfInput (.multisignature m) = some (m.amount, m.outputIndex) := rfl
@[simp] theorem multisignatureOutputOfInput_base (b : BaseInput) : multisignatureOutputOfInput (.base b) = none := rfl

/-! ## Entering and removing a transaction's inputs -/

/-- **`addTransactionInputs` succeeds** on inputs with distinct key images
whose sets do not hold the id and, unless the transaction comes from a block,
are empty: the id joins the set of each of its key images, and its outputs join
`spentOutputs` unless it comes from a block. Nothing else changes. -/
theorem addTransactionInputs_spec (id : Hash) (keptByBlock : Bool) :
    ∀ (ins : List TransactionInput) (p : TxPool), (ins.filterMap keyImageOfInput).Nodup →
    (∀ k ∈ ins.filterMap keyImageOfInput, id ∉ p.spentKeyImages k) →
    (keptByBlock = false → ∀ k ∈ ins.filterMap keyImageOfInput, p.spentKeyImages k = []) →
    ∃ q, p.addTransactionInputs id keptByBlock ins = (true, q) ∧
      q = { p with spentKeyImages := q.spentKeyImages, spentOutputs := q.spentOutputs } ∧
      (∀ k, q.spentKeyImages k =
        if k ∈ ins.filterMap keyImageOfInput then p.spentKeyImages k ++ [id] else p.spentKeyImages k) ∧
      (∀ o, o ∈ q.spentOutputs ↔
        o ∈ p.spentOutputs ∨ (keptByBlock = false ∧ o ∈ ins.filterMap multisignatureOutputOfInput)) ∧
      (p.spentOutputs.Nodup → q.spentOutputs.Nodup)
  | [], p, _, _, _ => ⟨p, rfl, rfl, by simp, by simp, fun h => h⟩
  | .key k :: ins, p, hnodup, hfresh, hfree => by
    simp only [List.filterMap_cons, keyImageOfInput_key, List.nodup_cons, List.mem_cons,
      forall_eq_or_imp] at hnodup hfresh hfree
    -- the set of `k` is empty or the transaction comes from a block, and lacks the id
    have hset : (!(keptByBlock || (p.spentKeyImages k.keyImage).isEmpty)) = false := by
      cases keptByBlock
      · simp [(hfree rfl).1]
      · rfl
    let p₁ : TxPool := { p with
      spentKeyImages := Function.update p.spentKeyImages k.keyImage (p.spentKeyImages k.keyImage ++ [id]) }
    have hne : ∀ k' ∈ ins.filterMap keyImageOfInput, k' ≠ k.keyImage :=
      fun k' hk' h => hnodup.1 (h ▸ hk')
    obtain ⟨q, hq, hframe, hkeys, houts, hnd⟩ := addTransactionInputs_spec id keptByBlock ins p₁ hnodup.2
      (fun k' hk' => by simp only [p₁, Function.update_of_ne (hne k' hk')]; exact hfresh.2 k' hk')
      (fun hk k' hk' => by simp only [p₁, Function.update_of_ne (hne k' hk')]; exact (hfree hk).2 k' hk')
    refine ⟨q, ?_, ?_, ?_, ?_, hnd⟩
    · simp only [addTransactionInputs, hset, Bool.false_eq_true, if_false, if_neg hfresh.1]
      exact hq
    · rw [hframe]
    · intro k'
      rw [hkeys k']
      by_cases hk : k' = k.keyImage
      · subst hk
        simp [p₁, hnodup.1]
      · simp only [p₁, Function.update_of_ne hk, List.filterMap_cons, keyImageOfInput_key, List.mem_cons, hk,
          false_or]
    · intro o
      rw [houts o]
      simp [p₁]
  | .multisignature m :: ins, p, hnodup, hfresh, hfree => by
    simp only [List.filterMap_cons, keyImageOfInput_multisignature] at hnodup hfresh hfree
    cases hkept : keptByBlock
    · -- not from a block: the output joins `spentOutputs`, once
      let p₁ : TxPool := { p with
        spentOutputs := if (m.amount, m.outputIndex) ∈ p.spentOutputs then p.spentOutputs
          else p.spentOutputs ++ [(m.amount, m.outputIndex)] }
      obtain ⟨q, hq, hframe, hkeys, houts, hnd⟩ := addTransactionInputs_spec id false ins p₁ hnodup hfresh
        (hkept ▸ hfree)
      refine ⟨q, ?_, ?_, hkeys, ?_, ?_⟩
      · simp only [addTransactionInputs, Bool.false_eq_true, if_false]
        exact hq
      · rw [hframe]
      · intro o
        rw [houts o]
        by_cases hin : (m.amount, m.outputIndex) ∈ p.spentOutputs
        · simp only [p₁, if_pos hin, List.filterMap_cons, multisignatureOutputOfInput_multisignature,
            List.mem_cons, true_and]
          constructor
          · rintro (h | h)
            · exact Or.inl h
            · exact Or.inr (Or.inr h)
          · rintro (h | h | h)
            · exact Or.inl h
            · exact Or.inl (h ▸ hin)
            · exact Or.inr h
        · simp only [p₁, if_neg hin, List.filterMap_cons, multisignatureOutputOfInput_multisignature,
            List.mem_cons, List.mem_append, true_and]
          tauto
      · intro h
        apply hnd
        by_cases hin : (m.amount, m.outputIndex) ∈ p.spentOutputs
        · simp only [p₁, if_pos hin]
          exact h
        · simp only [p₁, if_neg hin]
          refine List.nodup_append.2 ⟨h, List.nodup_singleton _, ?_⟩
          intro a ha b hb hab
          rw [List.mem_singleton] at hb
          subst hb hab
          exact hin ha
    · -- from a block: `spentOutputs` is left alone
      obtain ⟨q, hq, hframe, hkeys, houts, hnd⟩ := addTransactionInputs_spec id true ins p hnodup hfresh
        (hkept ▸ hfree)
      refine ⟨q, ?_, hframe, hkeys, ?_, hnd⟩
      · simp only [addTransactionInputs, if_true]
        exact hq
      · intro o
        rw [houts o]
        simp
  | .base b :: ins, p, hnodup, hfresh, hfree => by
    simp only [List.filterMap_cons, keyImageOfInput_base] at hnodup hfresh hfree
    obtain ⟨q, hq, hframe, hkeys, houts, hnd⟩ := addTransactionInputs_spec id keptByBlock ins p hnodup hfresh hfree
    refine ⟨q, ?_, hframe, hkeys, ?_, hnd⟩
    · simp only [addTransactionInputs]
      exact hq
    · intro o
      rw [houts o]
      simp

/-- **`removeTransactionInputs` succeeds** on inputs with distinct key images
whose sets hold the id: the id leaves the set of each of its key images, and
its outputs leave `spentOutputs` unless it comes from a block. Nothing else
changes. -/
theorem removeTransactionInputs_spec (id : Hash) (keptByBlock : Bool) :
    ∀ (ins : List TransactionInput) (p : TxPool), (ins.filterMap keyImageOfInput).Nodup →
    (∀ k ∈ ins.filterMap keyImageOfInput, id ∈ p.spentKeyImages k) →
    ∃ q, p.removeTransactionInputs id keptByBlock ins = (true, q) ∧
      q = { p with spentKeyImages := q.spentKeyImages, spentOutputs := q.spentOutputs } ∧
      (∀ k, q.spentKeyImages k =
        if k ∈ ins.filterMap keyImageOfInput then (p.spentKeyImages k).erase id else p.spentKeyImages k) ∧
      (p.spentOutputs.Nodup → ∀ o, o ∈ q.spentOutputs ↔
        o ∈ p.spentOutputs ∧ ¬ (keptByBlock = false ∧ o ∈ ins.filterMap multisignatureOutputOfInput)) ∧
      (p.spentOutputs.Nodup → q.spentOutputs.Nodup)
  | [], p, _, _ => ⟨p, rfl, rfl, by simp, by simp, fun h => h⟩
  | .key k :: ins, p, hnodup, hheld => by
    simp only [List.filterMap_cons, keyImageOfInput_key, List.nodup_cons, List.mem_cons,
      forall_eq_or_imp] at hnodup hheld
    let p₁ : TxPool := { p with
      spentKeyImages := Function.update p.spentKeyImages k.keyImage ((p.spentKeyImages k.keyImage).erase id) }
    have hne : ∀ k' ∈ ins.filterMap keyImageOfInput, k' ≠ k.keyImage :=
      fun k' hk' h => hnodup.1 (h ▸ hk')
    obtain ⟨q, hq, hframe, hkeys, houts, hnd⟩ := removeTransactionInputs_spec id keptByBlock ins p₁ hnodup.2
      (fun k' hk' => by simp only [p₁, Function.update_of_ne (hne k' hk')]; exact hheld.2 k' hk')
    -- the set of `k` holds the id, so it is neither empty nor without it
    have hnonempty : (p.spentKeyImages k.keyImage).isEmpty = false :=
      List.isEmpty_eq_false_iff_exists_mem.2 ⟨id, hheld.1⟩
    refine ⟨q, ?_, ?_, ?_, houts, hnd⟩
    · simp only [removeTransactionInputs, hnonempty, Bool.false_eq_true, if_false, not_not.2 hheld.1]
      exact hq
    · rw [hframe]
    · intro k'
      rw [hkeys k']
      by_cases hk : k' = k.keyImage
      · subst hk
        simp [p₁, hnodup.1]
      · simp only [p₁, Function.update_of_ne hk, List.filterMap_cons, keyImageOfInput_key, List.mem_cons, hk,
          false_or]
  | .multisignature m :: ins, p, hnodup, hheld => by
    simp only [List.filterMap_cons, keyImageOfInput_multisignature] at hnodup hheld
    cases hkept : keptByBlock
    · -- not from a block: the output leaves `spentOutputs`
      let p₁ : TxPool := { p with spentOutputs := p.spentOutputs.erase (m.amount, m.outputIndex) }
      obtain ⟨q, hq, hframe, hkeys, houts, hnd⟩ := removeTransactionInputs_spec id false ins p₁ hnodup hheld
      refine ⟨q, ?_, ?_, hkeys, ?_, fun h => hnd (h.erase _)⟩
      · simp only [removeTransactionInputs, Bool.false_eq_true, if_false]
        exact hq
      · rw [hframe]
      · intro h o
        rw [houts (h.erase _) o]
        simp only [p₁, h.mem_erase_iff, List.filterMap_cons, multisignatureOutputOfInput_multisignature,
          List.mem_cons, true_and]
        tauto
    · -- from a block: `spentOutputs` is left alone
      obtain ⟨q, hq, hframe, hkeys, houts, hnd⟩ := removeTransactionInputs_spec id true ins p hnodup hheld
      refine ⟨q, ?_, hframe, hkeys, ?_, hnd⟩
      · simp only [removeTransactionInputs, if_true]
        exact hq
      · intro h o
        rw [houts h o]
        simp
  | .base b :: ins, p, hnodup, hheld => by
    simp only [List.filterMap_cons, keyImageOfInput_base] at hnodup hheld
    obtain ⟨q, hq, hframe, hkeys, houts, hnd⟩ := removeTransactionInputs_spec id keptByBlock ins p hnodup hheld
    refine ⟨q, ?_, hframe, hkeys, ?_, hnd⟩
    · simp only [removeTransactionInputs]
      exact hq
    · intro h o
      rw [houts h o]
      simp

/-- `removeTransactionInputs` touches only the two indexes, whatever it answers. -/
theorem transactions_removeTransactionInputs (id : Hash) (keptByBlock : Bool) :
    ∀ (ins : List TransactionInput) (p : TxPool),
      (p.removeTransactionInputs id keptByBlock ins).2.transactions = p.transactions
  | [], _ => rfl
  | .key k :: ins, p => by
    rw [removeTransactionInputs]
    split
    · rfl
    split
    · rfl
    · exact transactions_removeTransactionInputs id keptByBlock ins _
  | .multisignature m :: ins, p => by
    rw [removeTransactionInputs]
    split
    · exact transactions_removeTransactionInputs id keptByBlock ins _
    · exact transactions_removeTransactionInputs id keptByBlock ins _
  | .base b :: ins, p => transactions_removeTransactionInputs id keptByBlock ins p

@[simp] theorem transactions_removeTransaction (p : TxPool) (txd : TransactionDetails) :
    (p.removeTransaction txd).transactions = p.transactions.filter (·.id ≠ txd.id) := by
  simp only [removeTransaction, transactions_removeTransactionInputs]

/-- One turn of the expiry loop leaves the pool alone, or removes the
transaction from a pool that differs only in its recently deleted ids. -/
theorem removeIfExpired_cases (cur : Currency) (now : UInt64) (p : TxPool) (txd : TransactionDetails) :
    p.removeIfExpired cur now txd = p ∨
    ∃ q : TxPool, q.transactions = p.transactions ∧ q.spentKeyImages = p.spentKeyImages ∧
      q.spentOutputs = p.spentOutputs ∧ q.ttlIndex = p.ttlIndex ∧
      p.removeIfExpired cur now txd = q.removeTransaction txd := by
  unfold TxPool.removeIfExpired
  dsimp only
  -- the age and TTL tests together
  generalize (_ || _ : Bool) = b
  cases b
  · exact Or.inl rfl
  · refine Or.inr ⟨_, ?_, ?_, ?_, ?_, rfl⟩ <;> split <;> rfl

/-! ## What `add_tx` does to the pool -/

theorem haveTx_eq_false_iff {p : TxPool} {id : Hash} :
    p.haveTx id = false ↔ ∀ txd ∈ p.transactions, txd.id ≠ id := by
  simp [haveTx]

/-- `haveSpentInputs` is false when no key image of the transaction has a set,
and no output it spends is in `spentOutputs`. -/
theorem haveSpentInputs_eq_false_iff {p : TxPool} {tx : Transaction} :
    p.haveSpentInputs tx = false ↔
      (∀ k ∈ keyImagesOf tx, p.spentKeyImages k = []) ∧
      (∀ o ∈ multisignatureOutputsOf tx, o ∉ p.spentOutputs) := by
  unfold haveSpentInputs keyImagesOf multisignatureOutputsOf
  simp only [List.any_eq_false, List.mem_filterMap]
  constructor
  · intro h
    refine ⟨?_, ?_⟩
    · rintro k ⟨input, hin, hk⟩
      cases input <;> simp only [keyImageOfInput_key, keyImageOfInput_base, keyImageOfInput_multisignature,
        reduceCtorEq, Option.some.injEq] at hk
      subst hk
      simpa using h _ hin
    · rintro o ⟨input, hin, ho⟩
      cases input <;> simp only [multisignatureOutputOfInput_key, multisignatureOutputOfInput_base,
        multisignatureOutputOfInput_multisignature, reduceCtorEq, Option.some.injEq] at ho
      subst ho
      simpa using h _ hin
  · rintro ⟨hk, ho⟩ input hin
    cases input with
    | base b => simp
    | key k => simpa using hk k.keyImage ⟨.key k, hin, rfl⟩
    | multisignature m => simpa using ho (m.amount, m.outputIndex) ⟨.multisignature m, hin, rfl⟩

theorem mem_emplaceTtl {ttlIndex : List (Hash × UInt64)} {id : Hash} {ttl : UInt64} {e : Hash × UInt64}
    (he : e ∈ emplaceTtl ttlIndex id ttl) : e ∈ ttlIndex ∨ e.1 = id := by
  unfold emplaceTtl at he
  split at he
  · exact Or.inl he
  · rcases List.mem_append.1 he with h | h
    · exact Or.inl h
    · exact Or.inr (by rw [List.mem_singleton.1 h])

section AddTx

variable (c : Crypto) (cur : Currency) (cp : Checkpoints) (now : UInt64)

/-- **What `add_tx` can do to the pool.** It leaves the pool as it was, or it
inserts the transaction, which was not pooled and, unless it comes from a
block, spends nothing the pool spends; then it enters its inputs. -/
theorem addTx_cases {p p' : TxPool} {s : Blockchain} {tx : Transaction} {id : Hash} {blobSize : UInt64}
    {keptByBlock : Bool} {height : UInt32} {r : Bool} {tvc : TxVerificationContext}
    (h : p.addTx c cur cp now s tx id blobSize keptByBlock height = .ok (r, tvc, p')) :
    p' = p ∨ ∃ txd ttlIndex, txd.id = id ∧ txd.tx = tx ∧ txd.keptByBlock = keptByBlock ∧
      (∀ e ∈ ttlIndex, e ∈ p.ttlIndex ∨ e.1 = id) ∧ p.haveTx id = false ∧
      (keptByBlock = false → p.haveSpentInputs tx = false) ∧
      r = ({ p with transactions := p.transactions ++ [txd], ttlIndex := ttlIndex }.addTransactionInputs
        id keptByBlock tx.inputs).1 ∧
      p' = ({ p with transactions := p.transactions ++ [txd], ttlIndex := ttlIndex }.addTransactionInputs
        id keptByBlock tx.inputs).2 := by
  unfold addTx at h
  dsimp only at h
  -- every refusal before the insertion returns the pool it was given
  split at h
  · cases h
    exact Or.inl rfl
  split at h
  · cases h
    exact Or.inl rfl
  split at h
  · cases h
    exact Or.inl rfl
  split at h
  · cases h
    exact Or.inl rfl
  next hspent =>
  split at h
  · cases h
  next maxUsedBlock _ =>
  split at h
  · cases h
    exact Or.inl rfl
  split at h
  · cases h
    exact Or.inl rfl
  split at h
  · cases h
    exact Or.inl rfl
  split at h
  · cases h
    exact Or.inl rfl
  next hhave =>
  -- the insertion, and the inputs entered whether that succeeds or not
  refine Or.inr ⟨⟨id, blobSize, tx, cur.getTransactionFee tx.toTransactionPrefix height, keptByBlock, now,
    maxUsedBlock.getD ⟨0, nullHash⟩⟩,
    if getTransactionTTL tx.extra ≠ 0 then emplaceTtl p.ttlIndex id (getTransactionTTL tx.extra) else p.ttlIndex,
    rfl, rfl, rfl, fun e he => ?_, Bool.eq_false_iff.2 hhave, fun hk => ?_, ?_⟩
  · split at he
    · exact mem_emplaceTtl he
    · exact Or.inl he
  · cases hsp : p.haveSpentInputs tx
    · rfl
    · exact absurd ⟨by simp [hk], hsp⟩ hspent
  · -- the answer and the pool are those `addTransactionInputs` gives
    split at h <;>
    · cases h
      rename_i hres
      rw [hres]
      exact ⟨rfl, rfl⟩

/-- **`add_tx` of a transaction from a block.** When the chain's input check
answers that no block is used (as it does when the first input is a key input
with an empty ring), a transaction from a block with supported inputs, outputs
within its inputs, no TTL and distinct key images, whose id the pool does not
hold and no key image's set holds, is pooled: the call answers `true`, appends
it, and enters its id in the set of each of its key images. -/
theorem addTx_fromBlock {p : TxPool} {s : Blockchain} {tx : Transaction} {id : Hash} {blobSize : UInt64}
    {height : UInt32} (hsupported : checkInputsTypesSupported tx.toTransactionPrefix = true)
    (hamounts : getOutsMoneyAmount tx.toTransactionPrefix ≤
      cur.getTransactionAllInputsAmount tx.toTransactionPrefix height)
    (httl : getTransactionTTL tx.extra = 0) (hinputs : s.checkTransactionInputsMaxUsedBlock c cur cp now tx = .ok none)
    (hhave : p.haveTx id = false) (hnodup : (keyImagesOf tx).Nodup) (hfresh : ∀ k, id ∉ p.spentKeyImages k) :
    ∃ tvc p', p.addTx c cur cp now s tx id blobSize true height = .ok (true, tvc, p') ∧
      p'.transactions = p.transactions ++
        [⟨id, blobSize, tx, cur.getTransactionFee tx.toTransactionPrefix height, true, now, ⟨0, nullHash⟩⟩] ∧
      ∀ k, p'.spentKeyImages k = if k ∈ keyImagesOf tx then p.spentKeyImages k ++ [id] else p.spentKeyImages k := by
  obtain ⟨q, hq, hframe, hkeys, -, -⟩ := addTransactionInputs_spec id true tx.inputs
    { p with transactions := p.transactions ++
        [⟨id, blobSize, tx, cur.getTransactionFee tx.toTransactionPrefix height, true, now, ⟨0, nullHash⟩⟩] }
    hnodup (fun k _ => hfresh k) (fun h => nomatch h)
  refine ⟨{ verificationImpossible := true, addedToPool := true }, q, ?_, by rw [hframe], hkeys⟩
  -- every check before the insertion passes, and every input is entered
  have hgt : ¬ getOutsMoneyAmount tx.toTransactionPrefix > cur.getTransactionAllInputsAmount tx.toTransactionPrefix height :=
    UInt64.not_lt.mpr hamounts
  simp [addTx, hsupported, hgt, httl, hinputs, hhave, hq]

end AddTx

/-! ## The invariant, call by call -/

namespace Consistent

variable {p : TxPool}

/-- Pooled transactions with the same id are the same. -/
theorem eq_of_id_eq (hp : p.Consistent) {t₁ t₂ : TransactionDetails} (h₁ : t₁ ∈ p.transactions)
    (h₂ : t₂ ∈ p.transactions) (h : t₁.id = t₂.id) : t₁ = t₂ :=
  List.inj_on_of_nodup_map hp.ids_nodup h₁ h₂ h

/-- **`removeTransaction` keeps the invariant**, for a pooled transaction: its
id leaves the sets of its key images, which held it, and its outputs leave
`spentOutputs`, where no other transaction not kept by a block had them. -/
theorem removeTransaction (hp : p.Consistent) {txd : TransactionDetails} (htxd : txd ∈ p.transactions) :
    (p.removeTransaction txd).Consistent := by
  obtain ⟨q, hq, hframe, hkeys, houts, hnd⟩ := removeTransactionInputs_spec txd.id txd.keptByBlock txd.tx.inputs p
    (hp.keyImages_nodup txd htxd) (fun k hk => (hp.mem_spentKeyImages k txd.id).2 ⟨txd, htxd, rfl, hk⟩)
  have htxs : q.transactions = p.transactions := by rw [hframe]
  have httl : q.ttlIndex = p.ttlIndex := by rw [hframe]
  have hshape : p.removeTransaction txd = { q with
      ttlIndex := q.ttlIndex.filter (·.1 ≠ txd.id), transactions := q.transactions.filter (·.id ≠ txd.id) } := by
    simp only [TxPool.removeTransaction, hq]
  have hmem : ∀ t, t ∈ q.transactions.filter (·.id ≠ txd.id) ↔ t ∈ p.transactions ∧ t.id ≠ txd.id := by
    intro t
    simp [htxs]
  -- a pooled transaction other than `txd` has another id
  have hother : ∀ t ∈ p.transactions, t ≠ txd → t.id ≠ txd.id :=
    fun t ht hne hid => hne (hp.eq_of_id_eq ht htxd hid)
  rw [hshape]
  constructor <;> dsimp only
  · rw [htxs]
    exact hp.ids_nodup.sublist (List.Sublist.map _ List.filter_sublist)
  · intro t ht
    exact hp.keyImages_nodup t ((hmem t).1 ht).1
  · intro k id
    rw [hkeys k]
    split
    · rename_i hk
      rw [(hp.spentKeyImages_nodup k).mem_erase_iff, hp.mem_spentKeyImages]
      constructor
      · rintro ⟨hne, t, ht, rfl, htk⟩
        exact ⟨t, (hmem t).2 ⟨ht, hne⟩, rfl, htk⟩
      · rintro ⟨t, ht, rfl, htk⟩
        exact ⟨((hmem t).1 ht).2, t, ((hmem t).1 ht).1, rfl, htk⟩
    · rename_i hk
      rw [hp.mem_spentKeyImages]
      constructor
      · rintro ⟨t, ht, rfl, htk⟩
        refine ⟨t, (hmem t).2 ⟨ht, hother t ht ?_⟩, rfl, htk⟩
        rintro rfl
        exact hk htk
      · rintro ⟨t, ht, rfl, htk⟩
        exact ⟨t, ((hmem t).1 ht).1, rfl, htk⟩
  · intro k
    rw [hkeys k]
    split
    · exact (hp.spentKeyImages_nodup k).erase _
    · exact hp.spentKeyImages_nodup k
  · intro o
    rw [houts hp.spentOutputs_nodup o, hp.mem_spentOutputs]
    constructor
    · rintro ⟨⟨t, ht, hkt, hot⟩, hnot⟩
      refine ⟨t, (hmem t).2 ⟨ht, hother t ht ?_⟩, hkt, hot⟩
      rintro rfl
      exact hnot ⟨hkt, hot⟩
    · rintro ⟨t, ht, hkt, hot⟩
      obtain ⟨ht, hne⟩ := (hmem t).1 ht
      refine ⟨⟨t, ht, hkt, hot⟩, fun ⟨hkd, hod⟩ => ?_⟩
      -- two transactions not kept by a block do not share an output
      exact (hp.disjoint txd htxd t ht (Ne.symm hne) hkd hkt).2 o hod hot
  · exact hnd hp.spentOutputs_nodup
  · intro e he
    rw [httl, List.mem_filter, decide_eq_true_eq] at he
    obtain ⟨t, ht, hte⟩ := hp.ttl_mem e he.1
    exact ⟨t, (hmem t).2 ⟨ht, hte ▸ he.2⟩, hte⟩
  · intro t₁ h₁ t₂ h₂
    exact hp.disjoint t₁ ((hmem t₁).1 h₁).1 t₂ ((hmem t₂).1 h₂).1

section AddTx

variable (c : Crypto) (cur : Currency) (cp : Checkpoints) (now : UInt64)

/-- Every id in a key image's set is pooled, so the id of a transaction not
pooled is in none. -/
theorem not_mem_spentKeyImages (hp : p.Consistent) {id : Hash} (hhave : p.haveTx id = false) (k : KeyImage) :
    id ∉ p.spentKeyImages k := fun hk => by
  obtain ⟨t, ht, htid, _⟩ := (hp.mem_spentKeyImages k id).1 hk
  exact haveTx_eq_false_iff.1 hhave t ht htid

/-- **`add_tx` keeps the invariant**, for a transaction whose key images are
distinct, whatever it answers. A transaction it inserts was not pooled, so its
id is in no set; unless it comes from a block it spends nothing pooled, so it
shares nothing with the transactions not kept by a block. -/
theorem addTx (hp : p.Consistent) {p' : TxPool} {s : Blockchain} {tx : Transaction} {id : Hash}
    {blobSize : UInt64} {keptByBlock : Bool} {height : UInt32} {r : Bool} {tvc : TxVerificationContext}
    (hnodup : (keyImagesOf tx).Nodup)
    (h : p.addTx c cur cp now s tx id blobSize keptByBlock height = .ok (r, tvc, p')) : p'.Consistent := by
  rcases addTx_cases c cur cp now h with rfl | ⟨txd, ttlIndex, hid, htx, hkept, httl, hhave, hspent, -, rfl⟩
  · exact hp
  have hnew : ∀ t ∈ p.transactions, t.id ≠ id := haveTx_eq_false_iff.1 hhave
  have hfresh : ∀ k, id ∉ p.spentKeyImages k := hp.not_mem_spentKeyImages hhave
  have hfree : keptByBlock = false → (∀ k ∈ keyImagesOf tx, p.spentKeyImages k = []) ∧
      (∀ o ∈ multisignatureOutputsOf tx, o ∉ p.spentOutputs) :=
    fun hk => haveSpentInputs_eq_false_iff.1 (hspent hk)
  -- a transaction not from a block shares nothing with a pooled one not kept by a block
  have hapart : keptByBlock = false → ∀ t ∈ p.transactions, t.keptByBlock = false →
      (∀ k ∈ keyImagesOf tx, k ∉ keyImagesOf t.tx) ∧
      (∀ o ∈ multisignatureOutputsOf tx, o ∉ multisignatureOutputsOf t.tx) := by
    intro hk t ht htk
    refine ⟨fun k hkx hkt => ?_, fun o hox hot => ?_⟩
    · have := (hp.mem_spentKeyImages k t.id).2 ⟨t, ht, rfl, hkt⟩
      rw [(hfree hk).1 k hkx] at this
      exact List.not_mem_nil this
    · exact (hfree hk).2 o hox ((hp.mem_spentOutputs o).2 ⟨t, ht, htk, hot⟩)
  obtain ⟨q, hq, hframe, hkeys, houts, hnd⟩ := addTransactionInputs_spec id keptByBlock tx.inputs
    { p with transactions := p.transactions ++ [txd], ttlIndex := ttlIndex } hnodup
    (fun k _ => hfresh k) (fun hk => (hfree hk).1)
  rw [hq]
  have htxs : q.transactions = p.transactions ++ [txd] := by rw [hframe]
  have httl' : q.ttlIndex = ttlIndex := by rw [hframe]
  have hmem : ∀ t, t ∈ q.transactions ↔ t ∈ p.transactions ∨ t = txd := by
    intro t
    rw [htxs, List.mem_append, List.mem_singleton]
  constructor
  · rw [htxs, List.map_append, List.nodup_append]
    refine ⟨hp.ids_nodup, List.nodup_singleton _, fun a ha b hb hab => ?_⟩
    obtain ⟨t, ht, rfl⟩ := List.mem_map.1 ha
    rw [List.map_singleton, List.mem_singleton] at hb
    exact hnew t ht (hab.trans (hb.trans hid))
  · intro t ht
    rcases (hmem t).1 ht with ht | rfl
    · exact hp.keyImages_nodup t ht
    · rw [htx]
      exact hnodup
  · intro k id'
    rw [hkeys k]
    split
    · rename_i hk
      rw [List.mem_append, List.mem_singleton, hp.mem_spentKeyImages]
      constructor
      · rintro (⟨t, ht, htid, htk⟩ | rfl)
        · exact ⟨t, (hmem t).2 (Or.inl ht), htid, htk⟩
        · exact ⟨txd, (hmem txd).2 (Or.inr rfl), hid, htx ▸ hk⟩
      · rintro ⟨t, ht, htid, htk⟩
        rcases (hmem t).1 ht with ht | rfl
        · exact Or.inl ⟨t, ht, htid, htk⟩
        · exact Or.inr (htid.symm.trans hid)
    · rename_i hk
      rw [hp.mem_spentKeyImages]
      constructor
      · rintro ⟨t, ht, htid, htk⟩
        exact ⟨t, (hmem t).2 (Or.inl ht), htid, htk⟩
      · rintro ⟨t, ht, htid, htk⟩
        rcases (hmem t).1 ht with ht | rfl
        · exact ⟨t, ht, htid, htk⟩
        · exact absurd (htx ▸ htk) hk
  · intro k
    rw [hkeys k]
    split
    · refine List.nodup_append.2 ⟨hp.spentKeyImages_nodup k, List.nodup_singleton _, fun a ha b hb hab => ?_⟩
      rw [List.mem_singleton] at hb
      exact hfresh k (hb ▸ hab ▸ ha)
    · exact hp.spentKeyImages_nodup k
  · intro o
    rw [houts o, hp.mem_spentOutputs]
    constructor
    · rintro (⟨t, ht, htk, hot⟩ | ⟨hk, hox⟩)
      · exact ⟨t, (hmem t).2 (Or.inl ht), htk, hot⟩
      · exact ⟨txd, (hmem txd).2 (Or.inr rfl), hkept.trans hk, htx ▸ hox⟩
    · rintro ⟨t, ht, htk, hot⟩
      rcases (hmem t).1 ht with ht | rfl
      · exact Or.inl ⟨t, ht, htk, hot⟩
      · exact Or.inr ⟨hkept ▸ htk, htx ▸ hot⟩
  · exact hnd hp.spentOutputs_nodup
  · intro e he
    rw [httl'] at he
    rcases httl e he with he | he
    · obtain ⟨t, ht, hte⟩ := hp.ttl_mem e he
      exact ⟨t, (hmem t).2 (Or.inl ht), hte⟩
    · exact ⟨txd, (hmem txd).2 (Or.inr rfl), hid.trans he.symm⟩
  · intro t₁ h₁ t₂ h₂ hne hk₁ hk₂
    rcases (hmem t₁).1 h₁ with h₁ | rfl <;> rcases (hmem t₂).1 h₂ with h₂ | rfl
    · exact hp.disjoint t₁ h₁ t₂ h₂ hne hk₁ hk₂
    · obtain ⟨hkeys', houts'⟩ := hapart (hkept ▸ hk₂) t₁ h₁ hk₁
      rw [htx]
      exact ⟨fun k hk₁ hk₂ => hkeys' k hk₂ hk₁, fun o ho₁ ho₂ => houts' o ho₂ ho₁⟩
    · rw [htx]
      exact hapart (hkept ▸ hk₁) t₂ h₂ hk₂
    · exact absurd rfl hne

end AddTx

/-- The invariant reads only the transactions and the three indexes, not the
recently deleted ids. -/
theorem of_indexes_eq (hp : p.Consistent) {q : TxPool} (htxs : q.transactions = p.transactions)
    (hkeys : q.spentKeyImages = p.spentKeyImages) (houts : q.spentOutputs = p.spentOutputs)
    (httl : q.ttlIndex = p.ttlIndex) : q.Consistent := by
  obtain ⟨h₁, h₂, h₃, h₄, h₅, h₆, h₇, h₈⟩ := hp
  rw [← htxs, ← hkeys, ← houts, ← httl] at *
  exact ⟨h₁, h₂, h₃, h₄, h₅, h₆, h₇, h₈⟩

/-- **`take_tx` keeps the invariant**: it removes a pooled transaction, or nothing. -/
theorem takeTx (hp : p.Consistent) (id : Hash) : (p.takeTx id).2.Consistent := by
  unfold TxPool.takeTx
  split
  · exact hp
  · rename_i txd hfind
    exact hp.removeTransaction (List.mem_of_find?_eq_some hfind)

section Expiry

variable (cur : Currency) (now : UInt64)

/-- One turn of the expiry loop keeps every pooled transaction of another id. -/
theorem mem_removeIfExpired {txd t : TransactionDetails} (ht : t ∈ p.transactions) (hne : t.id ≠ txd.id) :
    t ∈ (p.removeIfExpired cur now txd).transactions := by
  rcases removeIfExpired_cases cur now p txd with h | ⟨q, htxs, -, -, -, h⟩
  · rw [h]
    exact ht
  · rw [h, transactions_removeTransaction, List.mem_filter, htxs]
    exact ⟨ht, decide_eq_true hne⟩

/-- **One turn of the expiry loop keeps the invariant**, for a pooled
transaction: remembering its id as deleted changes nothing the invariant reads. -/
theorem removeIfExpired (hp : p.Consistent) {txd : TransactionDetails} (htxd : txd ∈ p.transactions) :
    (p.removeIfExpired cur now txd).Consistent := by
  rcases removeIfExpired_cases cur now p txd with h | ⟨q, htxs, hkeys, houts, httl, h⟩
  · rw [h]
    exact hp
  · rw [h]
    exact (hp.of_indexes_eq htxs hkeys houts httl).removeTransaction (htxs ▸ htxd)

/-- The expiry loop over transactions of distinct ids, all pooled: by induction
on the ones left, each turn removes at most its own, so the rest stay pooled. -/
theorem foldl_removeIfExpired : ∀ (rest : List TransactionDetails) {p : TxPool}, p.Consistent →
    (rest.map (·.id)).Nodup → (∀ t ∈ rest, t ∈ p.transactions) →
    (rest.foldl (TxPool.removeIfExpired cur now) p).Consistent
  | [], _, hp, _, _ => hp
  | txd :: rest, p, hp, hnodup, hmem => by
    rw [List.map_cons, List.nodup_cons, List.mem_map] at hnodup
    rw [List.foldl_cons]
    refine foldl_removeIfExpired rest (hp.removeIfExpired cur now (hmem txd List.mem_cons_self)) hnodup.2
      fun t ht => mem_removeIfExpired cur now (hmem t (List.mem_cons_of_mem _ ht)) ?_
    rintro hid
    exact hnodup.1 ⟨t, ht, hid⟩

/-- **`removeExpiredTransactions` keeps the invariant.** -/
theorem removeExpiredTransactions (hp : p.Consistent) : (p.removeExpiredTransactions cur now).Consistent :=
  foldl_removeIfExpired cur now _ (hp.of_indexes_eq rfl rfl rfl rfl) hp.ids_nodup fun _ ht => ht

end Expiry

/-- A key image has a set exactly when a pooled transaction uses it. -/
theorem spentKeyImages_ne_nil_iff (hp : p.Consistent) (k : KeyImage) :
    p.spentKeyImages k ≠ [] ↔ ∃ txd ∈ p.transactions, k ∈ keyImagesOf txd.tx := by
  constructor
  · intro hne
    obtain ⟨id, hid⟩ := List.exists_mem_of_ne_nil _ hne
    obtain ⟨txd, htxd, -, hk⟩ := (hp.mem_spentKeyImages k id).1 hid
    exact ⟨txd, htxd, hk⟩
  · rintro ⟨txd, htxd, hk⟩
    exact List.ne_nil_of_mem ((hp.mem_spentKeyImages k txd.id).2 ⟨txd, htxd, rfl, hk⟩)

end Consistent

/-- One call on the pool from outside: `add_tx` of a transaction whose key
images are distinct (`check_tx_semantic` rejects the others before the pool
sees them), whatever it answers; `take_tx`; or `removeExpiredTransactions`.
Each call brings its own chain, clock and currency. -/
inductive Step : TxPool → TxPool → Prop
  | addTx (c : Crypto) (cur : Currency) (cp : Checkpoints) (now : UInt64) (s : Blockchain)
      (tx : Transaction) (id : Hash) (blobSize : UInt64) (keptByBlock : Bool) (height : UInt32)
      {p p' : TxPool} {r : Bool} {tvc : TxVerificationContext} (hnodup : (keyImagesOf tx).Nodup)
      (h : p.addTx c cur cp now s tx id blobSize keptByBlock height = .ok (r, tvc, p')) : Step p p'
  | takeTx (p : TxPool) (id : Hash) : Step p (p.takeTx id).2
  | removeExpiredTransactions (cur : Currency) (now : UInt64) (p : TxPool) :
      Step p (p.removeExpiredTransactions cur now)

/-- The pools these calls reach from the empty one. -/
def Reachable (p : TxPool) : Prop := Relation.ReflTransGen Step empty p

/-- Every call keeps the invariant. -/
theorem Consistent.step {p p' : TxPool} (hp : p.Consistent) (h : Step p p') : p'.Consistent := by
  cases h with
  | addTx c cur cp now s tx id blobSize keptByBlock height hnodup h => exact hp.addTx c cur cp now hnodup h
  | takeTx p id => exact hp.takeTx id
  | removeExpiredTransactions cur now p => exact hp.removeExpiredTransactions cur now

/-- Every reachable pool is consistent, by induction on the calls from the empty one. -/
theorem Reachable.consistent {p : TxPool} (h : p.Reachable) : p.Consistent := by
  induction h with
  | refl => exact empty_consistent
  | tail _ hstep ih => exact ih.step hstep

/-- **The spent-input indexes of every reachable pool are exact.** The set of
a key image holds, once each, the ids of the pooled transactions using it, and
is non-empty exactly when one does; `spentOutputs` holds, once each, the
multisignature outputs of the pooled transactions not kept by a block; the TTL
index names pooled transactions; and two pooled transactions not kept by a
block share no key image and no output. -/
theorem reachable_spentIndexes_exact {p : TxPool} (h : p.Reachable) :
    (∀ k id, id ∈ p.spentKeyImages k ↔ ∃ txd ∈ p.transactions, txd.id = id ∧ k ∈ keyImagesOf txd.tx) ∧
    (∀ k, (p.spentKeyImages k).Nodup) ∧
    (∀ k, p.spentKeyImages k ≠ [] ↔ ∃ txd ∈ p.transactions, k ∈ keyImagesOf txd.tx) ∧
    (∀ o, o ∈ p.spentOutputs ↔
      ∃ txd ∈ p.transactions, txd.keptByBlock = false ∧ o ∈ multisignatureOutputsOf txd.tx) ∧
    p.spentOutputs.Nodup ∧
    (∀ e ∈ p.ttlIndex, ∃ txd ∈ p.transactions, txd.id = e.1) ∧
    (∀ t₁ ∈ p.transactions, ∀ t₂ ∈ p.transactions, t₁ ≠ t₂ →
      t₁.keptByBlock = false → t₂.keptByBlock = false →
      (∀ k ∈ keyImagesOf t₁.tx, k ∉ keyImagesOf t₂.tx) ∧
      (∀ o ∈ multisignatureOutputsOf t₁.tx, o ∉ multisignatureOutputsOf t₂.tx)) := by
  have hp := h.consistent
  refine ⟨hp.mem_spentKeyImages, hp.spentKeyImages_nodup, hp.spentKeyImages_ne_nil_iff, hp.mem_spentOutputs,
    hp.spentOutputs_nodup, hp.ttl_mem, fun t₁ h₁ t₂ h₂ hne => hp.disjoint t₁ h₁ t₂ h₂ ?_⟩
  -- distinct pooled transactions have distinct ids
  exact fun hid => hne (hp.eq_of_id_eq h₁ h₂ hid)

/-! ## Two transactions from blocks -/

/-- A second key image. -/
def otherKeyImage : KeyImage := ⟨Vector.replicate 32 1⟩

/-- A second id. -/
def otherId : Hash := ⟨Vector.replicate 32 1⟩

/-- A transaction from a block spending the key image `default` and the
multisignature output `(3, 7)`, its key input's ring empty. -/
def keyAndMultisignatureTransaction : Transaction :=
  { version := 2, unlockTime := 0, inputs := [.key ⟨5, [], default⟩, .multisignature ⟨3, 1, 7, 0⟩], outputs := [],
    extra := [], signatures := [] }

/-- A transaction from a block spending the key image `default` again, and
`otherKeyImage`. -/
def twoKeyTransaction : Transaction :=
  { version := 1, unlockTime := 0, inputs := [.key ⟨4, [], default⟩, .key ⟨2, [], otherKeyImage⟩], outputs := [],
    extra := [], signatures := [] }

/-- Two transactions from blocks pooled one after the other, the second
sharing the first's key image: that key image's set holds both ids, and the
multisignature output, spent by a transaction from a block, is not in
`spentOutputs`. -/
theorem reachable_spentIndexes_exact_fromBlocks :
    ∃ p : TxPool, p.Reachable ∧ p.transactions.map (·.tx) = [keyAndMultisignatureTransaction, twoKeyTransaction] ∧
      nullHash ∈ p.spentKeyImages default ∧ otherId ∈ p.spentKeyImages default ∧ (3, 7) ∉ p.spentOutputs := by
  -- the chain's input check stops at the first ring, which is empty
  have hinputs₁ : Blockchain.empty.checkTransactionInputsMaxUsedBlock paddedCrypto Currency.mainnet Checkpoints.empty 0
      keyAndMultisignatureTransaction = .ok none := by
    simp [Blockchain.checkTransactionInputsMaxUsedBlock, Blockchain.checkTransactionInputs,
      Blockchain.checkTransactionInputs.loop, keyAndMultisignatureTransaction]
  have hinputs₂ : Blockchain.empty.checkTransactionInputsMaxUsedBlock paddedCrypto Currency.mainnet Checkpoints.empty 0
      twoKeyTransaction = .ok none := by
    simp [Blockchain.checkTransactionInputsMaxUsedBlock, Blockchain.checkTransactionInputs,
      Blockchain.checkTransactionInputs.loop, twoKeyTransaction]
  have hne : nullHash ≠ otherId := by decide
  obtain ⟨tvc₁, p₁, h₁, htx₁, hkeys₁⟩ := @addTx_fromBlock paddedCrypto Currency.mainnet Checkpoints.empty 0 empty
    Blockchain.empty keyAndMultisignatureTransaction nullHash 0 0 (by decide) (by decide) (by decide) hinputs₁ rfl
    (by decide) (fun k => by simp [empty])
  -- the second id is not pooled, and in no set: the first id is the only one entered
  have hhave₂ : p₁.haveTx otherId = false := by
    simp [haveTx, htx₁, empty, hne]
  have hfresh₂ : ∀ k, otherId ∉ p₁.spentKeyImages k := by
    intro k
    rw [hkeys₁ k]
    split <;> simp [empty, hne.symm]
  obtain ⟨tvc₂, p₂, h₂, htx₂, hkeys₂⟩ := @addTx_fromBlock paddedCrypto Currency.mainnet Checkpoints.empty 0 p₁
    Blockchain.empty twoKeyTransaction otherId 0 0 (by decide) (by decide) (by decide) hinputs₂ hhave₂ (by decide)
    hfresh₂
  have hreach : p₂.Reachable :=
    Relation.ReflTransGen.tail (.single (.addTx _ _ _ _ _ _ _ _ _ _ (by decide) h₁)) (.addTx _ _ _ _ _ _ _ _ _ _ (by decide) h₂)
  obtain ⟨hkeys, -, -, houts, -⟩ := reachable_spentIndexes_exact hreach
  refine ⟨p₂, hreach, by simp [htx₂, htx₁, empty], ?_, ?_, ?_⟩
  · -- the first transaction uses the key image
    exact (hkeys default nullHash).2 (by simp [htx₂, htx₁, empty, keyImagesOf, keyAndMultisignatureTransaction])
  · -- so does the second
    exact (hkeys default otherId).2 (by simp [htx₂, htx₁, empty, keyImagesOf, twoKeyTransaction])
  · -- both come from blocks, so neither marks an output spent
    rw [houts]
    rintro ⟨txd, hmem, hkept, -⟩
    simp [htx₂, htx₁, empty] at hmem
    rcases hmem with rfl | rfl <;> simp at hkept

/-! ## A refusal after the insertion -/

end TxPool

end Cn
