import ConcealCore.Spec.Blockchain
import ConcealCore.Spec.Checkpoints

/-!
# Validation of blocks and transactions

The checks `pushBlock`, `handle_alternative_block`, the pool and
`core::check_tx_semantic` run, each as the source computes it from the chain
state: the block version and timestamp, the inputs of a transaction against
the caches (`checkTransactionInputs`, with `check_tx_input` for key inputs and
`validateInput` for multisignature inputs), the outputs (`check_tx_outputs`,
`check_outs_valid`), the coinbase (`prevalidate_miner_transaction`,
`validate_miner_transaction`) and the block size.

The wall clock (`time(nullptr)`) is the parameter `now`. An index the source
reads out of range (undefined behaviour) makes the check fail. The asserts are
compiled out, as in a release build. `boost::get` on the wrong alternative
throws `boost::bad_get`: a check that can throw returns `.error ()`.
-/

namespace Cn

/-- `common::medianValue`: the middle of the sorted values, the mean of the
two middle ones for an even count, and `T()` for none. -/
def medianValue {α : Type} [Zero α] [Add α] [Div α] [OfNat α 2] [LE α] [DecidableLE α]
    (v : List α) : α :=
  match v with
  | [] => 0
  | [a] => a
  | _ =>
    let sorted := v.mergeSort fun a b => decide (a ≤ b)
    let n := v.length / 2
    if v.length % 2 = 1 then sorted.getD n 0
    else (sorted.getD (n - 1) 0 + sorted.getD n 0) / 2

/-- `relative_output_offsets_to_absolute`: the running sums of the offsets, in `uint32_t`. -/
def relativeOutputOffsetsToAbsolute (off : List UInt32) : List UInt32 :=
  (off.scanl (· + ·) 0).tail

/-- `absolute_output_offsets_to_relative`: the offsets sorted, then each from
the last down to the second less the one before it, in place, in `uint32_t`. -/
def absoluteOutputOffsetsToRelative (off : List UInt32) : List UInt32 :=
  if off.length = 0 then off
  else
    let res := off.mergeSort fun a b => decide (a ≤ b)
    -- `for (size_t i = res.size() - 1; i != 0; i--) res[i] -= res[i - 1]`
    (List.range' 1 (res.length - 1)).reverse.foldl (fun res i => res.set i (res.getD i 0 - res.getD (i - 1) 0)) res

/-- `parameters::UPGRADE_HEIGHT_V4`, the start of the minimum ring size. -/
def UPGRADE_HEIGHT_V4 : UInt64 := 45000

/-- `parameters::UPGRADE_HEIGHT_V5`, its end. -/
def UPGRADE_HEIGHT_V5 : UInt64 := 98160

/-- `parameters::DEPOSIT_MAX_TOTAL_RATE`, as `check_inputs_overflow` uses it. -/
def DEPOSIT_MAX_TOTAL_RATE : UInt64 := 4

namespace Currency

variable (cur : Currency)

/-- `Currency::validateOutput`: the term and amount rules of a deposit output,
the V3 terms after `depositHeightV4`. -/
def validateOutput (amount : UInt64) (output : MultisignatureOutput) (height : UInt32) : Bool :=
  if output.term ≠ 0 then
    let termValid :=
      if height > cur.depositHeightV4 then
        !(output.term < cur.depositMinTermV3 || output.term > cur.depositMaxTermV3 ||
          output.term % cur.depositMinTermV3 ≠ 0)
      else !(output.term < cur.depositMinTerm || output.term > cur.depositMaxTermV1)
    termValid && !(amount < cur.depositMinAmount)
  else true

end Currency

/-- The overflow loop of `check_outs_overflow`, with the sum so far. -/
@[grind] def checkOutsOverflow.loop (money : UInt64) : List TransactionOutput → Bool
  | [] => true
  | o :: outputs => if money > o.amount + money then false else checkOutsOverflow.loop (money + o.amount) outputs

/-- `check_outs_overflow`: the output amounts sum without wrapping. -/
def checkOutsOverflow (tx : TransactionPrefix) : Bool := checkOutsOverflow.loop 0 tx.outputs

/-- The value `check_inputs_overflow` counts for an input: a deposit input with
its largest interest, `none` when that overflows. -/
def inputOverflowAmount : TransactionInput → Option UInt64
  | .key i => some i.amount
  | .multisignature i =>
    if i.term ≠ 0 then
      let (lo, hi) := mul128 i.amount DEPOSIT_MAX_TOTAL_RATE
      let (maxInterestHi, maxInterestLo) := div128_32 hi lo 100
      if maxInterestHi > 0 then none
      else if i.amount > 0xFFFFFFFFFFFFFFFF - maxInterestLo then none
      else some (i.amount + maxInterestLo)
    else some i.amount
  | .base _ => some 0

/-- The loop of `check_inputs_overflow`, with the sum so far. -/
@[grind] def checkInputsOverflow.loop (money : UInt64) : List TransactionInput → Bool
  | [] => true
  | input :: inputs =>
    match inputOverflowAmount input with
    | none => false
    | some amount => if money > amount + money then false else checkInputsOverflow.loop (money + amount) inputs

/-- `check_inputs_overflow`. -/
def checkInputsOverflow (tx : TransactionPrefix) : Bool := checkInputsOverflow.loop 0 tx.inputs

/-- `check_money_overflow`. -/
def checkMoneyOverflow (tx : TransactionPrefix) : Bool := checkInputsOverflow tx && checkOutsOverflow tx

/-- `core::check_tx_inputs_keyimages_diff`: no key image twice among the key inputs. -/
@[grind] def checkTxInputsKeyimagesDiff.loop (ki : List KeyImage) : List TransactionInput → Bool
  | [] => true
  | .key k :: inputs => if k.keyImage ∈ ki then false else checkTxInputsKeyimagesDiff.loop (k.keyImage :: ki) inputs
  | _ :: inputs => checkTxInputsKeyimagesDiff.loop ki inputs

def checkTxInputsKeyimagesDiff (tx : TransactionPrefix) : Bool := checkTxInputsKeyimagesDiff.loop [] tx.inputs

section Checks

variable (c : Crypto) (cur : Currency)

/-- `check_outs_valid`: key outputs carry an amount and a valid key;
multisignature outputs need version 2, at most as many required signatures
as keys, and valid keys. -/
def checkOutsValid (tx : TransactionPrefix) : Bool :=
  tx.outputs.all fun out =>
    match out.target with
    | .key k => out.amount ≠ 0 && c.checkKey k.key
    | .multisignature m =>
      decide (TRANSACTION_VERSION_2 ≤ tx.version) && decide (m.requiredSignatureCount.toNat ≤ m.keys.length) &&
        m.keys.all c.checkKey

/-- `check_tx_outputs_visitor` on one output of `tx` at `height`. -/
def checkTxOutput (tx : TransactionPrefix) (height : UInt32) (out : TransactionOutput) : Bool :=
  match out.target with
  | .key k => out.amount ≠ 0 && c.checkKey k.key
  | .multisignature m =>
    decide (TRANSACTION_VERSION_2 ≤ tx.version) && cur.validateOutput out.amount m height &&
      decide (m.requiredSignatureCount.toNat ≤ m.keys.length) && m.keys.all c.checkKey

/-- `Blockchain::check_tx_outputs(tx, height)`. -/
def checkTxOutputs (tx : TransactionPrefix) (height : UInt32) : Bool :=
  tx.outputs.all (checkTxOutput c cur tx height)

end Checks

namespace Blockchain

variable (c : Crypto) (cur : Currency) (cp : Checkpoints) (now : UInt64)

/-- `transactionByIndex(index)`, `m_blocks[block].transactions[transaction]`. -/
def transactionByIndex (s : Blockchain) (index : TransactionIndex) : Option TransactionEntry :=
  s.blocks[index.block.toNat]?.bind fun b => b.transactions[index.transaction.toNat]?

/-- `get_last_n_blocks_sizes(sz, count)`: the cumulative sizes of the last `count` blocks. -/
def getLastNBlocksSizes (s : Blockchain) (count : Nat) : List UInt64 :=
  (s.blocks.drop (s.blocks.length - min s.blocks.length count)).map (·.blockCumulativeSize)

/-- `checkBlockVersion`: the major version the coinbase height calls for. -/
def checkBlockVersion (b : Block) : Bool :=
  b.majorVersion = cur.getBlockMajorVersionForHeight (getBlockHeight b).toUInt64

/-- `check_block_timestamp(timestamps, b)`: not below the median, once the window is full. -/
def checkBlockTimestamp (timestamps : List UInt64) (b : Block) : Bool :=
  if timestamps.length < cur.timestampCheckWindow.toNat then true
  else !(b.timestamp < medianValue timestamps)

/-- `check_block_timestamp_main(b)`: not beyond the future limit, and checked
against the last `timestampCheckWindow` main-chain timestamps. -/
def checkBlockTimestampMain (s : Blockchain) (b : Block) : Bool :=
  if b.timestamp > now + cur.blockFutureTimeLimit then false
  else
    let window := cur.timestampCheckWindow.toNat
    let offset := if s.blocks.length ≤ window then 0 else s.blocks.length - window
    checkBlockTimestamp cur ((s.blocks.drop offset).map (·.bl.timestamp)) b

/-- `is_tx_spendtime_unlocked(unlock_time)`: a block index below
`maxBlockHeight`, a time otherwise. -/
def isTxSpendtimeUnlocked (s : Blockchain) (unlockTime : UInt64) : Bool :=
  if unlockTime < cur.maxBlockHeight then
    (s.getCurrentBlockchainHeight - 1).toUInt64 + cur.lockedTxAllowedDeltaBlocks ≥ unlockTime
  else now + cur.lockedTxAllowedDeltaSeconds ≥ unlockTime

/-- The loop of `scanOutputKeysForIndexes` over absolute offsets into the
amount's vector, with the `outputs_visitor` of `check_tx_input`: every offset
names an output that exists, is unlocked and is a key output. The keys are
collected, with the block of the last ring member. -/
def scanOutputKeys (s : Blockchain) (amountOuts : List (TransactionIndex × UInt16)) :
    List UInt32 → Option (List PublicKey × UInt32)
  | [] => some ([], 0)
  | i :: rest => do
    let (ti, o) ← amountOuts[i.toNat]?
    let entry ← s.transactionByIndex ti
    let out ← entry.tx.outputs[o.toNat]?
    if !isTxSpendtimeUnlocked cur now s entry.tx.unlockTime then none
    else
      match out.target with
      | .key k =>
        let (keys, last) ← scanOutputKeys s amountOuts rest
        some (k.key :: keys, if rest = [] then ti.block else last)
      | .multisignature _ => none

/-- `scanOutputKeysForIndexes(txin, visitor)`. -/
def scanOutputKeysForIndexes (s : Blockchain) (txin : KeyInput) : Option (List PublicKey × UInt32) :=
  match s.outputs txin.amount with
  | none => none
  | some amountOuts =>
    if txin.outputIndexes.isEmpty then none
    else scanOutputKeys cur now s amountOuts (relativeOutputOffsetsToAbsolute txin.outputIndexes)

/-- `check_tx_input(txin, prefixHash, sig)`: the ring, its size and, outside
the checkpoint zone, the key image and the ring signature. The block of the
last ring member when the input passes. -/
def checkTxInput (s : Blockchain) (txin : KeyInput) (txPrefixHash : Hash) (sig : List Signature) :
    Option UInt32 :=
  match scanOutputKeysForIndexes cur now s txin with
  | none => none
  | some (outputKeys, last) =>
    let height := s.getCurrentBlockchainHeight
    if txin.outputIndexes.length ≠ outputKeys.length then none
    else if height.toUInt64 > UPGRADE_HEIGHT_V4 ∧ height.toUInt64 < UPGRADE_HEIGHT_V5 ∧
        txin.outputIndexes.length < 3 then none
    else if sig.length ≠ outputKeys.length then none
    else if cp.isInCheckpointZone height then some last
    else if !c.keyImageInSubgroup txin.keyImage then none
    else if c.checkRingSignature txPrefixHash txin.keyImage outputKeys sig then some last
    else none

/-- The signature loop of `validateInput`: each required signature must verify
against one of the output's keys, taken in order. -/
def checkMultisignatures (prefixHash : Hash) : Nat → List PublicKey → List Signature → Bool
  | 0, _, _ => true
  | _ + 1, [], _ => false
  | n + 1, key :: keys, sigs =>
    if c.checkSignature prefixHash key (sigs.headD default) then checkMultisignatures prefixHash n keys sigs.tail
    else checkMultisignatures prefixHash (n + 1) keys sigs

/-- `validateInput(MultisignatureInput)`: the output exists and is unused, its
transaction is unlocked, the signature count and term match, a deposit has
matured (`block + term`, in `uint32_t`), and outside the checkpoint zone the
signatures verify. `boost::get` of a key output throws. -/
def validateInput (s : Blockchain) (input : MultisignatureInput) (transactionPrefixHash : Hash)
    (transactionSignatures : List Signature) : Except Unit Bool :=
  match s.multisignatureOutputs input.amount with
  | none => .ok false
  | some amountOutputs =>
    match amountOutputs[input.outputIndex.toNat]? with
    | none => .ok false
    | some outputIndex =>
      if outputIndex.isUsed then .ok false
      else
        match s.transactionByIndex outputIndex.transactionIndex with
        | none => .ok false
        | some entry =>
          if !isTxSpendtimeUnlocked cur now s entry.tx.unlockTime then .ok false
          else
            match entry.tx.outputs[outputIndex.outputIndex.toNat]? with
            | none => .ok false
            | some out =>
              match out.target with
              | .key _ => .error ()
              | .multisignature output =>
                if input.signatureCount ≠ output.requiredSignatureCount then .ok false
                else if input.term ≠ output.term then .ok false
                else if output.term ≠ 0 ∧
                    outputIndex.transactionIndex.block + output.term > s.getCurrentBlockchainHeight then .ok false
                else if cp.isInCheckpointZone s.getCurrentBlockchainHeight then .ok true
                else .ok (checkMultisignatures c transactionPrefixHash input.signatureCount.toNat
                  output.keys transactionSignatures)

/-- The input loop of `checkTransactionInputs`, with the input's position and
the largest block of a last ring member so far. -/
@[grind] def checkTransactionInputs.loop (s : Blockchain) (tx : Transaction) (txPrefixHash : Hash) :
    Nat → UInt32 → List TransactionInput → Except Unit (Option UInt32)
  | _, maxUsed, [] => .ok (some maxUsed)
  | i, maxUsed, .key k :: inputs =>
    if k.outputIndexes.isEmpty then .ok none
    else if (s.spentKeys k.keyImage).isSome then .ok none
    else
      match checkTxInput c cur cp now s k txPrefixHash (tx.signatures.getD i []) with
      | none => .ok none
      | some last => checkTransactionInputs.loop s tx txPrefixHash (i + 1) (max maxUsed last) inputs
  | i, maxUsed, .multisignature m :: inputs =>
    match validateInput c cur cp now s m txPrefixHash (tx.signatures.getD i []) with
    | .error () => .error ()
    | .ok false => .ok none
    | .ok true => checkTransactionInputs.loop s tx txPrefixHash (i + 1) maxUsed inputs
  | _, _, .base _ :: _ => .ok none

/-- `checkTransactionInputs(tx, pmax_used_block_height)`: every input is
checked against the caches as they are, one by one; two inputs of `tx` are
never compared with each other. The largest block a key input's ring reaches
when all pass. -/
def checkTransactionInputs (s : Blockchain) (tx : Transaction) : Except Unit (Option UInt32) :=
  checkTransactionInputs.loop c cur cp now s tx (transactionPrefixHash c tx) 0 0 tx.inputs

/-- `prevalidate_miner_transaction(b, height)`: one `BaseInput` naming
`height`, at most one signature entry, the unlock window, valid outputs
without overflow. -/
def prevalidateMinerTransaction (b : Block) (height : UInt32) : Bool :=
  let tx := b.baseTransaction
  match tx.inputs with
  | [input] =>
    if tx.signatures.length > 1 then false
    else
      match input with
      | .base i =>
        i.blockIndex = height && tx.unlockTime = height.toUInt64 + cur.minedMoneyUnlockWindow &&
          checkOutsValid c tx.toTransactionPrefix && checkTxOutputs c cur tx.toTransactionPrefix height &&
          checkOutsOverflow tx.toTransactionPrefix
      | _ => false
  | _ => false

/-- `validate_miner_transaction`: the reward and the emission change, when the
coinbase pays the reward, or at most 10 units more. -/
def validateMinerTransaction (s : Blockchain) (b : Block) (height : UInt32)
    (cumulativeBlockSize alreadyGeneratedCoins fee : UInt64) : Option (UInt64 × Int64) :=
  let minerReward := getOutsMoneyAmount b.baseTransaction.toTransactionPrefix
  let blocksSizeMedian := medianValue (s.getLastNBlocksSizes cur.rewardBlocksWindow.toNat)
  match cur.getBlockReward blocksSizeMedian cumulativeBlockSize alreadyGeneratedCoins fee height with
  | none => none
  | some (reward, emissionChange) =>
    if minerReward > reward ∧ minerReward - reward > 10 then none
    else if minerReward < reward then none
    else some (reward, emissionChange)

/-- `checkCumulativeBlockSize(id, size, height)`. -/
def checkCumulativeBlockSize (cumulativeBlockSize : UInt64) (height : UInt64) : Bool :=
  !(cumulativeBlockSize > cur.maxBlockCumulativeSize height)

end Blockchain

end Cn
