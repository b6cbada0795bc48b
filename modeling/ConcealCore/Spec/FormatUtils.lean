import ConcealCore.Spec.Serialization

/-!
# Transaction utilities of `CryptoNoteFormatUtils.cpp`

The checks and sums over a transaction's inputs and outputs that validation
and the caches use. Amounts are `uint64_t` and the sums wrap, as in the source.
-/

namespace Cn

/-- The `(amount, outputIndex)` a multisignature input spends, the key of the
`std::set` in `checkMultisignatureInputsDiff`. -/
def MultisignatureInput.usage (i : MultisignatureInput) : UInt64 × UInt32 :=
  (i.amount, i.outputIndex)

/-- A `GlobalOutput`, `(amount, outputIndex)`, compares field by field: the one
instance every search of a list of them uses. -/
instance lawfulBEqGlobalOutput : LawfulBEq (UInt64 × UInt32) := inferInstance

/-- The insertion loop of `checkMultisignatureInputsDiff`, with the pairs
inserted so far. -/
@[grind] def checkMultisignatureInputsDiff.loop (inputsUsage : List (UInt64 × UInt32)) :
    List TransactionInput → Bool
  | [] => true
  | .multisignature i :: inputs =>
    if i.usage ∈ inputsUsage then false
    else checkMultisignatureInputsDiff.loop (i.usage :: inputsUsage) inputs
  | _ :: inputs => checkMultisignatureInputsDiff.loop inputsUsage inputs

/-- `checkMultisignatureInputsDiff`: no two multisignature inputs spend the same
`(amount, outputIndex)`. -/
@[grind] def checkMultisignatureInputsDiff (tx : TransactionPrefix) : Bool :=
  checkMultisignatureInputsDiff.loop [] tx.inputs

/-- The amount an input carries: the `KeyInput` or `MultisignatureInput` amount,
zero for the coinbase input. -/
def TransactionInput.amount : TransactionInput → UInt64
  | .base _ => 0
  | .key i => i.amount
  | .multisignature i => i.amount

/-- `get_inputs_money_amount`: the wrapping sum of the input amounts. -/
def getInputsMoneyAmount (tx : TransactionPrefix) : UInt64 :=
  tx.inputs.foldl (fun money i => money + i.amount) 0

/-- `get_outs_money_amount`: the wrapping sum of the output amounts. -/
def getOutsMoneyAmount (tx : TransactionPrefix) : UInt64 :=
  tx.outputs.foldl (fun money o => money + o.amount) 0

/-- `check_inputs_types_supported`: key inputs, and multisignature inputs from
`TRANSACTION_VERSION_2` on. -/
def checkInputsTypesSupported (tx : TransactionPrefix) : Bool :=
  tx.inputs.all fun
    | .key _ => true
    | .multisignature _ => decide (TRANSACTION_VERSION_2 ≤ tx.version)
    | .base _ => false

/-- `get_block_height`: the index a block's coinbase input names, `0` when the
coinbase does not have exactly one `BaseInput`. -/
def getBlockHeight (b : Block) : UInt32 :=
  match b.baseTransaction.inputs with
  | [.base i] => i.blockIndex
  | _ => 0

end Cn
