import ConcealCore.Spec.TransactionCaches

/-!
# `popTransaction` undoes `pushTransaction`

`pushTransaction` enters a transaction into the four caches and
`popTransaction` takes it out again, outputs last first. The two are inverse
on the containers when three things hold: no amount maps to an empty vector
(`KeyedStack.NoEmpty`), the transaction has at most `2^16` outputs (the stored
output index is a `uint16_t`), and the multisignature outputs its inputs spend
are not already used (`pushTransaction` sets `isUsed` without looking at it and
`popTransaction` clears it).

* `popTransaction_pushTransaction`: under those conditions, a push that returns
  `true` followed by the pop gives back the containers.
* `pushTransaction_rejected`: a push that returns `false` leaves them as they were.
* `pushTransaction_wide`: a transaction whose multisignature output sits at
  position `2^16` is pushed, and the pop leaves that output behind.
-/

namespace Cn

open KeyedStack

variable {c : Caches} {height : UInt32} {tx : Transaction} {h : Hash}
  {transactionIndex : TransactionIndex}

/-! ### Key images -/

theorem eraseKeyImagesBefore_ne_inserted (spent : KeyImage → Option UInt32) :
    ∀ (before : List TransactionInput) (r : KeyImage → Option UInt32),
      eraseKeyImagesBefore spent before ≠ .inserted r := by
  intro before
  induction before generalizing spent with
  | nil => intro r; simp [eraseKeyImagesBefore]
  | cons i before ih =>
    intro r
    cases i with
    | key k => exact ih _ r
    | base _ => simp [eraseKeyImagesBefore]
    | multisignature _ => simp [eraseKeyImagesBefore]

theorem eraseKeyImages_cons_key (spent : KeyImage → Option UInt32) (k : KeyInput)
    (inputs : List TransactionInput) :
    eraseKeyImages spent (.key k :: inputs) =
      eraseKeyImages (Function.update spent k.keyImage none) inputs := rfl

/-- Erasures commute, so one done first can be done last. -/
theorem eraseKeyImages_update_none (spent : KeyImage → Option UInt32) (x : KeyImage) :
    ∀ inputs : List TransactionInput,
      eraseKeyImages (Function.update spent x none) inputs =
        Function.update (eraseKeyImages spent inputs) x none := by
  intro inputs
  induction inputs generalizing spent with
  | nil => rfl
  | cons i inputs ih =>
    cases i with
    | key k =>
      rw [eraseKeyImages_cons_key, eraseKeyImages_cons_key, ← ih]
      by_cases hx : k.keyImage = x
      · rw [hx]
      · rw [Function.update_comm hx]
    | base _ => exact ih spent
    | multisignature _ => exact ih spent

/-- **Erasing what the loop inserted.** Every key image the loop inserted was
absent before, so erasing them all gives back the map it started from. -/
theorem eraseKeyImages_of_inserted {spent spent' : KeyImage → Option UInt32} :
    ∀ {before inputs : List TransactionInput},
      insertKeyImages height spent before inputs = .inserted spent' →
        eraseKeyImages spent' inputs = spent := by
  intro before inputs
  induction inputs generalizing spent before with
  | nil =>
    intro hi
    simp only [insertKeyImages, KeyImagesOutcome.inserted.injEq] at hi
    subst hi; rfl
  | cons i inputs ih =>
    intro hi
    cases i with
    | key k =>
      simp only [insertKeyImages] at hi
      cases hk : spent k.keyImage with
      | none =>
        rw [hk] at hi
        rw [eraseKeyImages_cons_key, eraseKeyImages_update_none, ih hi, Function.update_idem,
          Function.update_eq_self_iff, hk]
      | some _ =>
        rw [hk] at hi
        exact absurd hi (eraseKeyImagesBefore_ne_inserted _ _ _)
    | base _ => exact ih hi
    | multisignature _ => exact ih hi

/-- **The duplicate rollback restores the map.** The invariant: rolling back
from the loop's current state, if it runs to its end, gives the original map. A
`KeyInput` passed keeps it because its image was absent; any other input passed
makes every later rollback throw, so it holds vacuously. -/
theorem insertKeyImages_duplicate {spent₀ : KeyImage → Option UInt32} :
    ∀ {spent : KeyImage → Option UInt32} {before inputs : List TransactionInput}
      {r : KeyImage → Option UInt32},
      (∀ r', eraseKeyImagesBefore spent before = .duplicate r' → r' = spent₀) →
      insertKeyImages height spent before inputs = .duplicate r → r = spent₀ := by
  intro spent before inputs
  induction inputs generalizing spent before with
  | nil => intro r _ hi; simp [insertKeyImages] at hi
  | cons i inputs ih =>
    intro r hinv hi
    cases i with
    | key k =>
      simp only [insertKeyImages] at hi
      cases hk : spent k.keyImage with
      | none =>
        rw [hk] at hi
        refine ih (fun r' hr => hinv r' ?_) hi
        rw [eraseKeyImagesBefore, Function.update_idem, Function.update_eq_self_iff.2 hk.symm] at hr
        exact hr
      | some _ =>
        rw [hk] at hi
        exact hinv r hi
    | base _ => exact ih (fun r' hr => by simp [eraseKeyImagesBefore] at hr) hi
    | multisignature _ => exact ih (fun r' hr => by simp [eraseKeyImagesBefore] at hr) hi

/-! ### Multisignature marks -/

/-- The `(amount, outputIndex)` of every multisignature input, in order. -/
def multisignatureSlots (inputs : List TransactionInput) : List (UInt64 × Nat) :=
  inputs.filterMap fun
    | .multisignature i => some (i.amount, i.outputIndex.toNat)
    | _ => none

/-- The marking loop sets `isUsed` at every slot the inputs name. -/
theorem markMultisignatureInputs_eq (used : Bool) :
    ∀ (m : UInt64 → Option (List MultisignatureOutputUsage)) (inputs : List TransactionInput),
      markMultisignatureInputs used m inputs =
        modifyAll m (multisignatureSlots inputs) fun u => { u with isUsed := used }
  | _, [] => rfl
  | _, .multisignature _ :: inputs => markMultisignatureInputs_eq used _ inputs
  | m, .key _ :: inputs => markMultisignatureInputs_eq used m inputs
  | m, .base _ :: inputs => markMultisignatureInputs_eq used m inputs

theorem mem_multisignatureSlots {inputs : List TransactionInput} {p : UInt64 × Nat}
    (hp : p ∈ multisignatureSlots inputs) :
    ∃ i, TransactionInput.multisignature i ∈ inputs ∧ p = (i.amount, i.outputIndex.toNat) := by
  obtain ⟨input, hmem, hsel⟩ := List.mem_filterMap.1 hp
  cases input with
  | multisignature i => exact ⟨i, hmem, (Option.some.inj hsel).symm⟩
  | key _ => simp at hsel
  | base _ => simp at hsel

/-- Clearing the marks that were just set gives back outputs that were unused. -/
theorem mark_false_mark_true {m : UInt64 → Option (List MultisignatureOutputUsage)}
    {inputs : List TransactionInput}
    (hfree : ∀ i, TransactionInput.multisignature i ∈ inputs →
      ∀ u, elem m i.amount i.outputIndex.toNat = some u → u.isUsed = false) :
    markMultisignatureInputs false (markMultisignatureInputs true m inputs) inputs = m := by
  rw [markMultisignatureInputs_eq, markMultisignatureInputs_eq]
  apply modifyAll_modifyAll (by simp) (by simp) (by simp)
  intro p hp u hu
  obtain ⟨i, hi, rfl⟩ := mem_multisignatureSlots hp
  have := hfree i hi u hu
  cases u
  simp_all

/-! ### The input loop of `popTransaction` -/

theorem popInputs_spentKeys (c : Caches) (inputs : List TransactionInput) :
    (inputs.foldl popInput c).spentKeys = eraseKeyImages c.spentKeys inputs := by
  induction inputs generalizing c with
  | nil => rfl
  | cons i inputs ih => cases i <;> exact ih _

theorem popInputs_multisignatureOutputs (c : Caches) (inputs : List TransactionInput) :
    (inputs.foldl popInput c).multisignatureOutputs =
      markMultisignatureInputs false c.multisignatureOutputs inputs := by
  induction inputs generalizing c with
  | nil => rfl
  | cons i inputs ih => cases i <;> exact ih _

theorem popInputs_outputs (c : Caches) (inputs : List TransactionInput) :
    (inputs.foldl popInput c).outputs = c.outputs := by
  induction inputs generalizing c with
  | nil => rfl
  | cons i inputs ih => rw [List.foldl_cons, ih, popInput_outputs]

theorem popInputs_transactionMap (c : Caches) (inputs : List TransactionInput) :
    (inputs.foldl popInput c).transactionMap = c.transactionMap := by
  induction inputs generalizing c with
  | nil => rfl
  | cons i inputs ih => rw [List.foldl_cons, ih, popInput_transactionMap]

/-! ### Outputs -/

/-- Both output maps hold no empty vector. -/
def OutputsNoEmpty (c : Caches) : Prop := NoEmpty c.outputs ∧ NoEmpty c.multisignatureOutputs

theorem outputsNoEmpty_pushOutput {acc : Caches × List UInt32} (hc : OutputsNoEmpty acc.1)
    (output : TransactionOutput × Nat) : OutputsNoEmpty (pushOutput transactionIndex acc output).1 := by
  obtain ⟨c, g⟩ := acc
  obtain ⟨out, o⟩ := output
  cases ht : out.target with
  | key _ => exact ⟨by simpa [pushOutput, ht] using noEmpty_pushBack hc.1 _ _, by simpa [pushOutput, ht] using hc.2⟩
  | multisignature _ =>
    exact ⟨by simpa [pushOutput, ht] using hc.1, by simpa [pushOutput, ht] using noEmpty_pushBack hc.2 _ _⟩

theorem outputsNoEmpty_foldl_pushOutput (outputs : List (TransactionOutput × Nat)) :
    ∀ {acc : Caches × List UInt32}, OutputsNoEmpty acc.1 →
      OutputsNoEmpty (outputs.foldl (pushOutput transactionIndex) acc).1 := by
  induction outputs with
  | nil => intro acc hc; exact hc
  | cons x outputs ih => intro acc hc; exact ih (outputsNoEmpty_pushOutput hc x)

theorem foldl_pushOutput_transactionMap (outputs : List (TransactionOutput × Nat)) :
    ∀ acc : Caches × List UInt32,
      (outputs.foldl (pushOutput transactionIndex) acc).1.transactionMap = acc.1.transactionMap := by
  induction outputs with
  | nil => intro acc; rfl
  | cons x outputs ih => intro acc; rw [List.foldl_cons, ih, pushOutput_transactionMap]

/-- **Pop after push, one output.** The popped entry is the one just pushed:
it carries this transaction's index, an output index that fits in 16 bits, and
`isUsed = false`. -/
theorem popOutput_pushOutput {acc : Caches × List UInt32} (hc : OutputsNoEmpty acc.1)
    {output : TransactionOutput × Nat} (ho : output.2 < 65536) :
    popOutput transactionIndex output (pushOutput transactionIndex acc output).1 = acc.1 := by
  obtain ⟨c, g⟩ := acc
  obtain ⟨out, o⟩ := output
  have hfit : (UInt16.ofNat o).toNat = o := UInt16.toNat_ofNat_of_lt' ho
  cases ht : out.target with
  | key _ =>
    simp only [pushOutput, popOutput, ht, popKeyOutput, pushBack_self]
    simp [hfit, popBack_pushBack _ (hc.1 out.amount)]
  | multisignature _ =>
    simp only [pushOutput, popOutput, ht, popMultisignatureOutput, pushBack_self]
    simp [hfit, popBack_pushBack _ (hc.2 out.amount)]

/-- **Pop after push, all outputs**, by induction from the last output: the
pop loop meets the outputs in the reverse order of the push loop. -/
theorem popOutputs_pushOutputs (outputs : List TransactionOutput) :
    ∀ {c : Caches}, OutputsNoEmpty c → outputs.length ≤ 65536 →
      popOutputs transactionIndex (pushOutputs transactionIndex c outputs.zipIdx).1
        outputs.zipIdx = c := by
  induction outputs using List.reverseRecOn with
  | nil => intro c _ _; rfl
  | append_singleton outputs x ih =>
    intro c hc hlen
    rw [List.length_append, List.length_singleton] at hlen
    have hx : (x, outputs.length).2 < 65536 := by simp only; omega
    rw [pushOutputs, popOutputs, List.zipIdx_append, List.foldl_append, List.foldr_append,
      List.zipIdx_singleton, List.foldl_cons, List.foldl_nil, List.foldr_cons, List.foldr_nil,
      Nat.zero_add, popOutput_pushOutput (outputsNoEmpty_foldl_pushOutput _ hc) hx]
    exact ih hc (by omega)

/-! ### `pushTransaction` -/

/-- Every multisignature input is inside its amount's vector. -/
def multisignatureInputsInRange (c : Caches) (inputs : List TransactionInput) : Bool :=
  inputs.all fun
    | .multisignature i => multisignatureInputInRange c.multisignatureOutputs i
    | _ => true

/-- **What a push that returns `true` did.** -/
theorem pushTransaction_eq_pushed {c' : Caches} {g : List UInt32}
    (hp : pushTransaction c height tx h transactionIndex = .pushed c' g) :
    ∃ spent, c.transactionMap h = none ∧
      insertKeyImages height c.spentKeys [] tx.inputs = .inserted spent ∧
      (c', g) = pushOutputs transactionIndex
        { c with spentKeys := spent
                 transactionMap := Function.update c.transactionMap h (some transactionIndex)
                 multisignatureOutputs :=
                   markMultisignatureInputs true c.multisignatureOutputs tx.inputs }
        tx.outputs.zipIdx := by
  unfold pushTransaction at hp
  cases hm : c.transactionMap h with
  | some _ => simp [hm] at hp
  | none =>
    simp only [hm] at hp
    split at hp
    · simp at hp
    · cases hk : insertKeyImages height c.spentKeys [] tx.inputs with
      | duplicate _ => simp [hk] at hp
      | threw _ => simp [hk] at hp
      | inserted spent =>
        simp only [hk] at hp
        split at hp
        · simp at hp
        · refine ⟨spent, rfl, rfl, ?_⟩
          simp only [Pushed.pushed.injEq] at hp
          rw [← hp.1, ← hp.2]

/-- **A push that returns `false` changes nothing.** -/
theorem pushTransaction_rejected {c' : Caches}
    (hp : pushTransaction c height tx h transactionIndex = .rejected c') : c' = c := by
  unfold pushTransaction at hp
  cases hm : c.transactionMap h with
  | some _ => simp only [hm, Pushed.rejected.injEq] at hp; exact hp.symm
  | none =>
    simp only [hm] at hp
    -- every rollback erases the hash it inserted, which was absent
    have hmap : Function.update (Function.update c.transactionMap h (some transactionIndex)) h none =
        c.transactionMap := by
      rw [Function.update_idem, Function.update_eq_self_iff, hm]
    split at hp
    · simp only [Pushed.rejected.injEq] at hp
      rw [← hp, hmap]
    · cases hk : insertKeyImages height c.spentKeys [] tx.inputs with
      | duplicate spent =>
        simp only [hk, Pushed.rejected.injEq] at hp
        have hspent : spent = c.spentKeys :=
          insertKeyImages_duplicate (fun r' hr => by simpa [eraseKeyImagesBefore] using hr.symm) hk
        rw [← hp, hmap, hspent]
      | threw _ => simp [hk] at hp
      | inserted spent =>
        simp only [hk] at hp
        split at hp
        · simp only [Pushed.rejected.injEq] at hp
          rw [← hp, hmap, eraseKeyImages_of_inserted hk]
        · simp at hp

/-- A transaction without inputs whose hash is new goes straight to the output loop. -/
theorem pushTransaction_of_inputs_nil (hm : c.transactionMap h = none) (hin : tx.inputs = []) :
    pushTransaction c height tx h transactionIndex =
      .pushed (pushOutputs transactionIndex
          { c with transactionMap := Function.update c.transactionMap h (some transactionIndex) }
          tx.outputs.zipIdx).1
        (pushOutputs transactionIndex
          { c with transactionMap := Function.update c.transactionMap h (some transactionIndex) }
          tx.outputs.zipIdx).2 := by
  unfold pushTransaction checkMultisignatureInputsDiff
  simp only [hm, hin, checkMultisignatureInputsDiff.loop, insertKeyImages, List.all_nil,
    markMultisignatureInputs, Bool.not_true, Bool.false_eq_true, if_false]

/-- A coinbase, whose one input is a `BaseInput`, goes to the output loop in
the same way. -/
theorem pushTransaction_of_coinbase {base : BaseInput} (hm : c.transactionMap h = none)
    (hin : tx.inputs = [.base base]) :
    pushTransaction c height tx h transactionIndex =
      .pushed (pushOutputs transactionIndex
          { c with transactionMap := Function.update c.transactionMap h (some transactionIndex) }
          tx.outputs.zipIdx).1
        (pushOutputs transactionIndex
          { c with transactionMap := Function.update c.transactionMap h (some transactionIndex) }
          tx.outputs.zipIdx).2 := by
  unfold pushTransaction checkMultisignatureInputsDiff
  simp only [hm, hin, checkMultisignatureInputsDiff.loop, insertKeyImages, List.all_cons, List.all_nil,
    Bool.and_true, markMultisignatureInputs, Bool.not_true, Bool.false_eq_true, if_false]

/-- **Pop after a push that returned `true`.** -/
theorem popTransaction_pushTransaction {c' : Caches} {g : List UInt32}
    (hc : OutputsNoEmpty c) (hlen : tx.outputs.length ≤ 65536)
    (hfree : ∀ i, TransactionInput.multisignature i ∈ tx.inputs →
      ∀ u, elem c.multisignatureOutputs i.amount i.outputIndex.toNat = some u → u.isUsed = false)
    (hp : pushTransaction c height tx h transactionIndex = .pushed c' g) :
    popTransaction c' tx h = .ok c := by
  obtain ⟨spent, hm, hk, hpush⟩ := pushTransaction_eq_pushed hp
  have hc' : c' = (pushOutputs transactionIndex _ tx.outputs.zipIdx).1 := congrArg Prod.fst hpush
  -- the caches between the marking loop and the output loop
  set mid : Caches := { c with spentKeys := spent
                               transactionMap := Function.update c.transactionMap h (some transactionIndex)
                               multisignatureOutputs :=
                                 markMultisignatureInputs true c.multisignatureOutputs tx.inputs }
    with hmid
  have hmidOK : OutputsNoEmpty mid := by
    refine ⟨hc.1, ?_⟩
    rw [hmid, markMultisignatureInputs_eq]
    exact noEmpty_modifyAll hc.2 _ _
  have hlookup : c'.transactionMap h = some transactionIndex := by
    rw [hc', pushOutputs, foldl_pushOutput_transactionMap]
    simp [hmid]
  have hout : popOutputs transactionIndex c' tx.outputs.zipIdx = mid := by
    rw [hc']; exact popOutputs_pushOutputs _ hmidOK hlen
  unfold popTransaction
  rw [hlookup]
  simp only [hout, Except.ok.injEq]
  ext1
  · rw [popInputs_transactionMap, hmid, Function.update_idem, Function.update_eq_self_iff, hm]
  · rw [popInputs_spentKeys, hmid]; exact eraseKeyImages_of_inserted hk
  · rw [popInputs_outputs]
  · rw [popInputs_multisignatureOutputs, hmid]; exact mark_false_mark_true hfree

/-- **`popTransaction` undoes `pushTransaction`**: with no empty vector in the
output maps, at most `2^16` outputs and only unused multisignature outputs
spent, a push that returns `true` is undone by the pop, and a push that
returns `false` changed nothing. -/
theorem popTransaction_undoes_pushTransaction (c : Caches) (height : UInt32) (tx : Transaction)
    (h : Hash) (transactionIndex : TransactionIndex)
    (hc : OutputsNoEmpty c) (hlen : tx.outputs.length ≤ 65536)
    (hfree : ∀ i, TransactionInput.multisignature i ∈ tx.inputs →
      ∀ u, elem c.multisignatureOutputs i.amount i.outputIndex.toNat = some u → u.isUsed = false) :
    (∀ c' g, pushTransaction c height tx h transactionIndex = .pushed c' g →
      popTransaction c' tx h = .ok c) ∧
    (∀ c', pushTransaction c height tx h transactionIndex = .rejected c' → c' = c) :=
  ⟨fun _ _ hp => popTransaction_pushTransaction hc hlen hfree hp,
    fun _ hp => pushTransaction_rejected hp⟩

/-- A coinbase at block 0 paying a key output of 5 and a multisignature output of 3. -/
def mixedCoinbase : Transaction where
  version := TRANSACTION_VERSION_2
  unlockTime := 10
  inputs := [.base ⟨0⟩]
  outputs := [⟨5, .key ⟨default⟩⟩, ⟨3, .multisignature ⟨[default], 1, 0⟩⟩]
  extra := []
  signatures := []

/-- The caches `mixedCoinbase` leaves, pushed as the first transaction of block 0. -/
def coinbaseCaches : Caches :=
  (pushOutputs ⟨0, 0⟩
    { Caches.empty with transactionMap := Function.update Caches.empty.transactionMap nullHash (some ⟨0, 0⟩) }
    mixedCoinbase.outputs.zipIdx).1

/-- A transaction spending a key image and the multisignature output of `mixedCoinbase`. -/
def keyAndMultisignatureSpend : Transaction where
  version := TRANSACTION_VERSION_2
  unlockTime := 0
  inputs := [.key ⟨5, [0], default⟩, .multisignature ⟨3, 1, 0, 0⟩]
  outputs := [⟨8, .key ⟨default⟩⟩]
  extra := []
  signatures := [[default], [default]]

def spendHash : Hash := ⟨Vector.replicate 32 1⟩

/-- After the coinbase, the spender is pushed at block 1: its key image is
spent at height 1 and the multisignature output marked used, and the pop gives
back the caches of the coinbase. -/
theorem popTransaction_undoes_pushTransaction_spend :
    pushTransaction Caches.empty 0 mixedCoinbase nullHash ⟨0, 0⟩ = .pushed coinbaseCaches [0, 0] ∧
    OutputsNoEmpty coinbaseCaches ∧ keyAndMultisignatureSpend.outputs.length ≤ 65536 ∧
    (∀ i, TransactionInput.multisignature i ∈ keyAndMultisignatureSpend.inputs →
      ∀ u, elem coinbaseCaches.multisignatureOutputs i.amount i.outputIndex.toNat = some u →
        u.isUsed = false) ∧
    (∃ c' g, pushTransaction coinbaseCaches 1 keyAndMultisignatureSpend spendHash ⟨1, 0⟩ = .pushed c' g ∧
      c'.spentKeys default = some 1 ∧ c'.multisignatureOutputs 3 = some [⟨⟨0, 0⟩, 1, true⟩] ∧
      popTransaction c' keyAndMultisignatureSpend spendHash = .ok coinbaseCaches) ∧
    (∀ c', pushTransaction coinbaseCaches 1 keyAndMultisignatureSpend spendHash ⟨1, 0⟩ = .rejected c' →
      c' = coinbaseCaches) := by
  have hcoinbase : pushTransaction Caches.empty 0 mixedCoinbase nullHash ⟨0, 0⟩ = .pushed coinbaseCaches [0, 0] := by
    rw [pushTransaction_of_coinbase rfl rfl]
    rfl
  have hc : OutputsNoEmpty coinbaseCaches :=
    outputsNoEmpty_foldl_pushOutput _ ⟨fun _ => by simp [Caches.empty], fun _ => by simp [Caches.empty]⟩
  have hlen : keyAndMultisignatureSpend.outputs.length ≤ 65536 := by decide
  -- the one multisignature input names the coinbase's output, still unused
  have hfree : ∀ i, TransactionInput.multisignature i ∈ keyAndMultisignatureSpend.inputs →
      ∀ u, elem coinbaseCaches.multisignatureOutputs i.amount i.outputIndex.toNat = some u →
        u.isUsed = false := by
    intro i hi u hu
    simp only [keyAndMultisignatureSpend, List.mem_cons, reduceCtorEq, TransactionInput.multisignature.injEq,
      false_or, List.not_mem_nil, or_false] at hi
    subst hi
    simp [coinbaseCaches, pushOutputs, pushOutput, mixedCoinbase, elem, pushBack] at hu
    subst hu
    rfl
  -- the push runs to its end: the hash is new, the key image unspent, the output in range
  have hfresh : coinbaseCaches.transactionMap spendHash = none := by
    rw [coinbaseCaches, pushOutputs, foldl_pushOutput_transactionMap]
    exact Function.update_of_ne (show spendHash ≠ nullHash by decide) (some ⟨0, 0⟩) _
  have hpush : ∃ c' g, pushTransaction coinbaseCaches 1 keyAndMultisignatureSpend spendHash ⟨1, 0⟩ = .pushed c' g ∧
      c'.spentKeys default = some 1 ∧ c'.multisignatureOutputs 3 = some [⟨⟨0, 0⟩, 1, true⟩] := by
    unfold pushTransaction
    rw [hfresh]
    simp [coinbaseCaches, pushOutputs, pushOutput, mixedCoinbase, pushBack, keyAndMultisignatureSpend,
      checkMultisignatureInputsDiff, checkMultisignatureInputsDiff.loop, insertKeyImages,
      multisignatureInputInRange, markMultisignatureInputs, modifyAt, Caches.empty]
  obtain ⟨hpop, hrejected⟩ :=
    popTransaction_undoes_pushTransaction coinbaseCaches 1 keyAndMultisignatureSpend spendHash ⟨1, 0⟩ hc hlen hfree
  obtain ⟨c', g, hp, hkey, hused⟩ := hpush
  exact ⟨hcoinbase, hc, hlen, hfree, ⟨c', g, hp, hkey, hused, hpop c' g hp⟩, hrejected⟩

/-! ### Outputs past `2^16` -/

theorem foldl_pushOutput_multisignatureOutputs_of_key {outputs : List (TransactionOutput × Nat)}
    (hkey : ∀ x ∈ outputs, ∃ k, x.1.target = .key k) :
    ∀ acc : Caches × List UInt32, (outputs.foldl (pushOutput transactionIndex) acc).1.multisignatureOutputs =
      acc.1.multisignatureOutputs := by
  induction outputs with
  | nil => intro acc; rfl
  | cons x outputs ih =>
    intro acc
    rw [List.foldl_cons, ih (fun y hy => hkey y (List.mem_cons_of_mem _ hy))]
    obtain ⟨out, o⟩ := x
    obtain ⟨k, hk⟩ : ∃ k, out.target = .key k := hkey _ List.mem_cons_self
    obtain ⟨c, g⟩ := acc
    simp [pushOutput, hk]

theorem foldr_popOutput_multisignatureOutputs_of_key {outputs : List (TransactionOutput × Nat)}
    (hkey : ∀ x ∈ outputs, ∃ k, x.1.target = .key k) (c : Caches) :
    (outputs.foldr (popOutput transactionIndex) c).multisignatureOutputs = c.multisignatureOutputs := by
  induction outputs with
  | nil => rfl
  | cons x outputs ih =>
    rw [List.foldr_cons, ← ih (fun y hy => hkey y (List.mem_cons_of_mem _ hy))]
    obtain ⟨out, o⟩ := x
    obtain ⟨k, hk⟩ : ∃ k, out.target = .key k := hkey _ List.mem_cons_self
    simp [popOutput, hk]

theorem pushOutput_multisignatureOutputs (acc : Caches × List UInt32) {out : TransactionOutput}
    (o : Nat) {m : MultisignatureOutput} (ht : out.target = .multisignature m) :
    (pushOutput transactionIndex acc (out, o)).1.multisignatureOutputs =
      pushBack acc.1.multisignatureOutputs out.amount ⟨transactionIndex, UInt16.ofNat o, false⟩ := by
  obtain ⟨c, g⟩ := acc
  simp [pushOutput, ht]

/-- The pop of a transaction whose hash is in the map: the output loop, the
input loop, then the erasure of the hash. -/
theorem popTransaction_of_lookup (hl : c.transactionMap h = some transactionIndex) :
    popTransaction c tx h =
      .ok { (tx.inputs.foldl popInput (popOutputs transactionIndex c tx.outputs.zipIdx)) with
        transactionMap := Function.update
          (tx.inputs.foldl popInput (popOutputs transactionIndex c tx.outputs.zipIdx)).transactionMap
          h none } := by
  unfold popTransaction
  rw [hl]

/-- An entry whose stored output index is not the position being popped is
skipped. -/
theorem popMultisignatureOutput_of_index_ne
    {m : UInt64 → Option (List MultisignatureOutputUsage)} {amount : UInt64} {o : Nat}
    {l : List MultisignatureOutputUsage} {u : MultisignatureOutputUsage}
    (hl : m amount = some l) (hu : l.getLast? = some u) (hne : u.outputIndex.toNat ≠ o) :
    popMultisignatureOutput transactionIndex m amount o = m := by
  unfold popMultisignatureOutput
  rw [hl]
  simp only [hu]
  split_ifs <;> rfl

theorem zipIdx_keys_last {outputs keys : List TransactionOutput} {last : TransactionOutput}
    (hout : outputs = keys ++ [last]) (hlen : keys.length = 65536) :
    outputs.zipIdx = keys.zipIdx ++ [(last, 65536)] := by
  rw [hout, List.zipIdx_append, hlen]
  rfl

theorem zipIdx_key {keys : List TransactionOutput} (hkeys : ∀ o ∈ keys, ∃ k, o.target = .key k) :
    ∀ x ∈ keys.zipIdx, ∃ k, x.1.target = .key k :=
  fun x hx => hkeys x.1 (List.fst_mem_of_mem_zipIdx hx)

/-- **A multisignature output at position `2^16` is pushed and not popped.**
The transaction has no inputs, `2^16` key outputs and then a multisignature
output: the entry stores its position as `0`, the pop's index check fails, and
the output is skipped. -/
theorem pushTransaction_wide {c : Caches} {keys : List TransactionOutput} {last : TransactionOutput}
    {m : MultisignatureOutput} (hm : c.transactionMap h = none) (hin : tx.inputs = [])
    (hout : tx.outputs = keys ++ [last]) (hkeys : ∀ o ∈ keys, ∃ k, o.target = .key k)
    (hlen : keys.length = 65536) (hlast : last.target = .multisignature m)
    (hb : c.multisignatureOutputs last.amount = none) :
    ∃ c' g, pushTransaction c height tx h transactionIndex = .pushed c' g ∧
      ∃ c'', popTransaction c' tx h = .ok c'' ∧
        c''.multisignatureOutputs last.amount = some [⟨transactionIndex, 0, false⟩] := by
  set mid : Caches := { c with
    transactionMap := Function.update c.transactionMap h (some transactionIndex) } with hmid
  have hpush : pushTransaction c height tx h transactionIndex = _ := pushTransaction_of_inputs_nil hm hin
  refine ⟨_, _, hpush, ?_⟩
  obtain ⟨pushed, hpushed⟩ :
      ∃ p, p = (pushOutputs transactionIndex mid tx.outputs.zipIdx).1 := ⟨_, rfl⟩
  rw [← hpushed]
  have hzip := zipIdx_keys_last hout hlen
  -- the key outputs leave the multisignature vectors alone; the last output creates its amount's
  have hkeysPush : (keys.zipIdx.foldl (pushOutput transactionIndex) (mid, [])).1.multisignatureOutputs =
      c.multisignatureOutputs :=
    foldl_pushOutput_multisignatureOutputs_of_key (zipIdx_key hkeys) _
  have hmsig : pushed.multisignatureOutputs last.amount = some [⟨transactionIndex, 0, false⟩] := by
    rw [hpushed, pushOutputs, hzip, List.foldl_append, List.foldl_cons, List.foldl_nil,
      pushOutput_multisignatureOutputs _ _ hlast, pushBack_self, hkeysPush, hb]
    rfl
  have hlookup : pushed.transactionMap h = some transactionIndex := by
    rw [hpushed, pushOutputs, foldl_pushOutput_transactionMap]
    simp [hmid]
  -- the pop: the multisignature output first, skipped, then the key outputs
  have hskip : popOutput transactionIndex (last, 65536) pushed = pushed := by
    simp only [popOutput, hlast]
    rw [popMultisignatureOutput_of_index_ne (u := ⟨transactionIndex, 0, false⟩) hmsig rfl (by simp)]
  rw [popTransaction_of_lookup hlookup]
  refine ⟨_, rfl, ?_⟩
  rw [popInputs_multisignatureOutputs, popOutputs, hzip, List.foldr_append, List.foldr_cons,
    List.foldr_nil, hskip, foldr_popOutput_multisignatureOutputs_of_key (zipIdx_key hkeys), hin]
  exact hmsig

/-- A key output of amount 1. -/
def unitKeyOutput : TransactionOutput := ⟨1, .key ⟨default⟩⟩

/-- A multisignature output of amount 1 with no keys. -/
def unitMultisignatureOutput : TransactionOutput := ⟨1, .multisignature ⟨[], 0, 0⟩⟩

/-- A transaction with `2^16` key outputs and then one multisignature output,
whose position `2^16` does not fit in the `uint16_t` the caches keep. -/
def wideTransaction : Transaction where
  version := TRANSACTION_VERSION_2
  unlockTime := 0
  inputs := []
  outputs := List.replicate 65536 unitKeyOutput ++ [unitMultisignatureOutput]
  extra := []
  signatures := []

/-- The wide transaction pushed onto the empty caches of a new `Blockchain`
and popped again does not give them back (at any hash: here `NULL_HASH`). -/
theorem pushTransaction_wide_not_undone :
    ∃ c' g, pushTransaction Caches.empty 0 wideTransaction nullHash ⟨0, 0⟩ = .pushed c' g ∧
      popTransaction c' wideTransaction nullHash ≠ .ok Caches.empty := by
  have hkeys : ∀ o ∈ List.replicate 65536 unitKeyOutput, ∃ k, o.target = .key k := by
    intro o ho
    rw [List.eq_of_mem_replicate ho]
    exact ⟨_, rfl⟩
  obtain ⟨c', g, hpush, c'', hpop, hmsig⟩ :
      ∃ c' g, pushTransaction Caches.empty 0 wideTransaction nullHash ⟨0, 0⟩ = .pushed c' g ∧
        ∃ c'', popTransaction c' wideTransaction nullHash = .ok c'' ∧
          c''.multisignatureOutputs unitMultisignatureOutput.amount = some [⟨⟨0, 0⟩, 0, false⟩] :=
    pushTransaction_wide (m := ⟨[], 0, 0⟩) rfl rfl rfl hkeys List.length_replicate rfl rfl
  refine ⟨c', g, hpush, ?_⟩
  rw [hpop]
  intro he
  have := congrArg (fun c => c.multisignatureOutputs unitMultisignatureOutput.amount) (Except.ok.inj he)
  simp [hmsig, Caches.empty] at this

end Cn
