import ConcealCore.Spec.FormatUtils
import ConcealCore.Lib.KeyedStack

/-!
# The transaction caches: `pushTransaction` and `popTransaction`

The four containers of `Blockchain` that every transaction of the main chain
is entered into: the transaction map (hash to position), the spent key images,
and the per-amount vectors of key outputs and of multisignature outputs. The
hash maps are functions to `Option`; the per-amount vectors are `KeyedStack`s.

`pushTransaction` has three ways to end: it returns `true` after entering the
transaction (`Pushed.pushed`, with the global output indexes it writes into the
block entry), returns `false` after undoing what it did (`Pushed.rejected`), or
lets `boost::bad_get` escape from its key-image rollback (`Pushed.threw`, with
the containers as the throw leaves them). `popTransaction` throws
`std::out_of_range` when the hash is not in the map, before it changes anything.

The output index kept in each entry is a `uint16_t`: `pushTransaction` stores
the position of the output truncated to 16 bits, and `popTransaction` compares
the stored value with the full position.
-/

namespace Cn

/-- `Blockchain::TransactionIndex`: the block height and the position in the block. -/
structure TransactionIndex where
  block : UInt32
  transaction : UInt16
deriving DecidableEq, Repr, Inhabited

/-- `Blockchain::MultisignatureOutputUsage`. -/
structure MultisignatureOutputUsage where
  transactionIndex : TransactionIndex
  outputIndex : UInt16
  isUsed : Bool
deriving DecidableEq, Repr, Inhabited

/-- `m_transactionMap`, `m_spent_keys`, `m_outputs` and `m_multisignatureOutputs`. -/
@[ext] structure Caches where
  transactionMap : Hash → Option TransactionIndex
  spentKeys : KeyImage → Option UInt32
  outputs : UInt64 → Option (List (TransactionIndex × UInt16))
  multisignatureOutputs : UInt64 → Option (List MultisignatureOutputUsage)

/-- The containers as the constructor (and `rebuildCache`'s `clear`s) leave them. -/
@[grind] def Caches.empty : Caches := ⟨fun _ => none, fun _ => none, fun _ => none, fun _ => none⟩

/-! ### `pushTransaction` -/

/-- How the key-image loop of `pushTransaction` ends. -/
inductive KeyImagesOutcome where
  /-- Every key image was new and is now spent. -/
  | inserted (spentKeys : KeyImage → Option UInt32)
  /-- A key image was already spent and the rollback ran to its end. -/
  | duplicate (spentKeys : KeyImage → Option UInt32)
  /-- The rollback met an input that is not a `KeyInput`: `boost::get` threw. -/
  | threw (spentKeys : KeyImage → Option UInt32)

/-- The rollback after a duplicate at input `i`, `erase(get<KeyInput>(inputs[i - 1 - j]))`
for `j < i`: the inputs before `i`, last first (`before` holds them in that order). -/
@[grind] def eraseKeyImagesBefore (spentKeys : KeyImage → Option UInt32) :
    List TransactionInput → KeyImagesOutcome
  | [] => .duplicate spentKeys
  | .key k :: before => eraseKeyImagesBefore (Function.update spentKeys k.keyImage none) before
  | _ :: _ => .threw spentKeys

/-- The key-image loop: `m_spent_keys.insert(keyImage, height)` for each
`KeyInput`, with the inputs already passed kept last first in `before`. -/
@[grind] def insertKeyImages (height : UInt32) (spentKeys : KeyImage → Option UInt32)
    (before : List TransactionInput) : List TransactionInput → KeyImagesOutcome
  | [] => .inserted spentKeys
  | input :: inputs =>
    match input with
    | .key k =>
      match spentKeys k.keyImage with
      | none => insertKeyImages height (Function.update spentKeys k.keyImage (some height))
          (input :: before) inputs
      | some _ => eraseKeyImagesBefore spentKeys before
    | _ => insertKeyImages height spentKeys (input :: before) inputs

/-- `m_spent_keys.erase` of the key image of every `KeyInput`, in order. -/
def eraseKeyImages (spentKeys : KeyImage → Option UInt32) (inputs : List TransactionInput) :
    KeyImage → Option UInt32 :=
  inputs.foldl (fun spent input =>
    match input with
    | .key k => Function.update spent k.keyImage none
    | _ => spent) spentKeys

/-- The defensive bounds check on one multisignature input: its amount has a
vector and its output index is inside it. -/
def multisignatureInputInRange
    (multisignatureOutputs : UInt64 → Option (List MultisignatureOutputUsage))
    (i : MultisignatureInput) : Bool :=
  match multisignatureOutputs i.amount with
  | none => false
  | some l => decide (i.outputIndex.toNat < l.length)

/-- `isUsed = used` on the output a multisignature input names, for every
multisignature input in order (the marking loop of `pushTransaction`, with
`used = true`). -/
@[grind] def markMultisignatureInputs (used : Bool)
    (multisignatureOutputs : UInt64 → Option (List MultisignatureOutputUsage)) :
    List TransactionInput → UInt64 → Option (List MultisignatureOutputUsage)
  | [] => multisignatureOutputs
  | .multisignature i :: inputs =>
    markMultisignatureInputs used
      (KeyedStack.modifyAt multisignatureOutputs i.amount i.outputIndex.toNat
        fun u => { u with isUsed := used }) inputs
  | _ :: inputs => markMultisignatureInputs used multisignatureOutputs inputs

/-- One pass of the output loop: the output at position `o` is appended to the
vector of its amount, and its global index is the vector's size before. -/
@[grind] def pushOutput (transactionIndex : TransactionIndex) :
    Caches × List UInt32 → TransactionOutput × Nat → Caches × List UInt32
  | (c, globalOutputIndexes), (out, o) =>
  match out.target with
  | .key _ =>
    ({ c with outputs := KeyedStack.pushBack c.outputs out.amount (transactionIndex, UInt16.ofNat o) },
      globalOutputIndexes ++ [UInt32.ofNat ((c.outputs out.amount).getD []).length])
  | .multisignature _ =>
    ({ c with multisignatureOutputs := (KeyedStack.pushBack c.multisignatureOutputs out.amount
        ⟨transactionIndex, UInt16.ofNat o, false⟩) },
      globalOutputIndexes ++ [UInt32.ofNat ((c.multisignatureOutputs out.amount).getD []).length])

/-- The output loop of `pushTransaction`, over the outputs with their positions. -/
@[grind] def pushOutputs (transactionIndex : TransactionIndex) (c : Caches)
    (outputs : List (TransactionOutput × Nat)) : Caches × List UInt32 :=
  outputs.foldl (pushOutput transactionIndex) (c, [])

@[simp] theorem pushOutput_transactionMap (transactionIndex : TransactionIndex)
    (acc : Caches × List UInt32) (output : TransactionOutput × Nat) :
    (pushOutput transactionIndex acc output).1.transactionMap = acc.1.transactionMap := by
  obtain ⟨c, g⟩ := acc
  obtain ⟨out, o⟩ := output
  cases h : out.target <;> simp [pushOutput, h]

@[simp] theorem pushOutput_spentKeys (transactionIndex : TransactionIndex)
    (acc : Caches × List UInt32) (output : TransactionOutput × Nat) :
    (pushOutput transactionIndex acc output).1.spentKeys = acc.1.spentKeys := by
  obtain ⟨c, g⟩ := acc
  obtain ⟨out, o⟩ := output
  cases h : out.target <;> simp [pushOutput, h]

/-- How `pushTransaction` ends. -/
inductive Pushed where
  /-- It returned `true`; the global output indexes are written into the block entry. -/
  | pushed (c : Caches) (globalOutputIndexes : List UInt32)
  /-- It returned `false`. -/
  | rejected (c : Caches)
  /-- `boost::bad_get` escaped from the key-image rollback. -/
  | threw (c : Caches)

/-- `Blockchain::pushTransaction(block, transactionHash, transactionIndex)` on the
transaction `tx` at `transactionIndex` of a block of height `height`. -/
@[grind] def pushTransaction (c : Caches) (height : UInt32) (tx : Transaction)
    (transactionHash : Hash) (transactionIndex : TransactionIndex) : Pushed :=
  match c.transactionMap transactionHash with
  | some _ => .rejected c
  | none =>
    let transactionMap := Function.update c.transactionMap transactionHash (some transactionIndex)
    if !checkMultisignatureInputsDiff tx.toTransactionPrefix then
      .rejected { c with transactionMap := Function.update transactionMap transactionHash none }
    else
      match insertKeyImages height c.spentKeys [] tx.inputs with
      | .duplicate spentKeys =>
        .rejected { c with spentKeys, transactionMap := Function.update transactionMap transactionHash none }
      | .threw spentKeys => .threw { c with spentKeys, transactionMap }
      | .inserted spentKeys =>
        if !tx.inputs.all (fun
            | .multisignature i => multisignatureInputInRange c.multisignatureOutputs i
            | _ => true) then
          .rejected { c with
            spentKeys := eraseKeyImages spentKeys tx.inputs
            transactionMap := Function.update transactionMap transactionHash none }
        else
          let c' := { c with
            spentKeys, transactionMap
            multisignatureOutputs := markMultisignatureInputs true c.multisignatureOutputs tx.inputs }
          let (c'', globalOutputIndexes) := pushOutputs transactionIndex c' tx.outputs.zipIdx
          .pushed c'' globalOutputIndexes

/-! ### `popTransaction` -/

/-- The checks before popping a key output at position `o`: the amount has a
non-empty vector whose last entry is this transaction's output `o`. A failed
check is logged and the output skipped. -/
def popKeyOutput (transactionIndex : TransactionIndex)
    (outputs : UInt64 → Option (List (TransactionIndex × UInt16))) (amount : UInt64) (o : Nat) :
    UInt64 → Option (List (TransactionIndex × UInt16)) :=
  match outputs amount with
  | none => outputs
  | some l =>
    match l.getLast? with
    | none => outputs
    | some (ti, oi) =>
      if ti.block ≠ transactionIndex.block ∨ ti.transaction ≠ transactionIndex.transaction then outputs
      else if oi.toNat ≠ o then outputs
      else KeyedStack.popBack outputs amount

/-- The same for a multisignature output, which must also not be used. -/
def popMultisignatureOutput (transactionIndex : TransactionIndex)
    (multisignatureOutputs : UInt64 → Option (List MultisignatureOutputUsage)) (amount : UInt64)
    (o : Nat) : UInt64 → Option (List MultisignatureOutputUsage) :=
  match multisignatureOutputs amount with
  | none => multisignatureOutputs
  | some l =>
    match l.getLast? with
    | none => multisignatureOutputs
    | some u =>
      if u.isUsed then multisignatureOutputs
      else if u.transactionIndex.block ≠ transactionIndex.block ∨
          u.transactionIndex.transaction ≠ transactionIndex.transaction then multisignatureOutputs
      else if u.outputIndex.toNat ≠ o then multisignatureOutputs
      else KeyedStack.popBack multisignatureOutputs amount

/-- One pass of the reverse output loop of `popTransaction`. -/
@[grind] def popOutput (transactionIndex : TransactionIndex) :
    TransactionOutput × Nat → Caches → Caches
  | (out, o), c =>
  match out.target with
  | .key _ => { c with outputs := popKeyOutput transactionIndex c.outputs out.amount o }
  | .multisignature _ =>
    { c with multisignatureOutputs :=
        (popMultisignatureOutput transactionIndex c.multisignatureOutputs out.amount o) }

/-- The output loop of `popTransaction`: the outputs from the last to the first. -/
def popOutputs (transactionIndex : TransactionIndex) (c : Caches)
    (outputs : List (TransactionOutput × Nat)) : Caches :=
  outputs.foldr (popOutput transactionIndex) c

/-- One pass of the input loop of `popTransaction`: a key image is erased, a
multisignature output in range is marked unused (out of range it is skipped,
which `modifyAt` does by itself). -/
def popInput (c : Caches) (input : TransactionInput) : Caches :=
  match input with
  | .key k => { c with spentKeys := Function.update c.spentKeys k.keyImage none }
  | .multisignature i =>
    { c with multisignatureOutputs := (KeyedStack.modifyAt c.multisignatureOutputs i.amount
        i.outputIndex.toNat fun u => { u with isUsed := false }) }
  | .base _ => c

@[simp] theorem popOutput_transactionMap (transactionIndex : TransactionIndex)
    (output : TransactionOutput × Nat) (c : Caches) :
    (popOutput transactionIndex output c).transactionMap = c.transactionMap := by
  obtain ⟨out, o⟩ := output
  cases h : out.target <;> simp [popOutput, h]

@[simp] theorem popOutput_spentKeys (transactionIndex : TransactionIndex)
    (output : TransactionOutput × Nat) (c : Caches) :
    (popOutput transactionIndex output c).spentKeys = c.spentKeys := by
  obtain ⟨out, o⟩ := output
  cases h : out.target <;> simp [popOutput, h]

@[simp] theorem popInput_transactionMap (c : Caches) (input : TransactionInput) :
    (popInput c input).transactionMap = c.transactionMap := by
  unfold popInput; split <;> rfl

@[simp] theorem popInput_outputs (c : Caches) (input : TransactionInput) :
    (popInput c input).outputs = c.outputs := by
  unfold popInput; split <;> rfl

/-- `Blockchain::popTransaction(transaction, transactionHash)`; `.error` when
`m_transactionMap.at` throws. -/
def popTransaction (c : Caches) (tx : Transaction) (transactionHash : Hash) : Except Caches Caches :=
  match c.transactionMap transactionHash with
  | none => .error c
  | some transactionIndex =>
    let c' := popOutputs transactionIndex c tx.outputs.zipIdx
    let c'' := tx.inputs.foldl popInput c'
    .ok { c'' with transactionMap := Function.update c''.transactionMap transactionHash none }

end Cn
