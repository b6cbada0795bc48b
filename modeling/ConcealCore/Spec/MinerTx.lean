import ConcealCore.Spec.Currency
import ConcealCore.Spec.TransactionExtra

/-!
# The miner transaction

`Currency::constructMinerTx` builds the coinbase of a block: the transaction
key in the extra, an extra nonce if one is given, one base input at the
block's height, and outputs that pay the block reward to the miner. The reward
is cut into decimal pieces by `decompose_amount_into_digits`: the lowest
digits, as long as their sum stays within the dust threshold, go to the dust
handler as one amount, and every later nonzero digit goes to the chunk handler
as `d * 10 ^ k`. The pieces above `maxOuts` are merged into the last allowed
one, and each output gets a one-time key derived from the miner's address.

The template's handlers are what they do to the pieces: the model returns the
calls it makes, in order (`DecomposedPart`). The random key pair of
`generateKeyPair` and the two key operations of `src/crypto` are parameters.
-/

namespace Cn

/-- `DEFAULT_DUST_THRESHOLD`, the `m_defaultDustThreshold` of every currency
`CurrencyBuilder` makes. -/
def DEFAULT_DUST_THRESHOLD : UInt64 := 10

/-- A call of `decompose_amount_into_digits`: the chunk handler or the dust
handler, with the amount it is given. -/
inductive DecomposedPart where
  | chunk (value : UInt64)
  | dust (value : UInt64)
deriving DecidableEq, Repr

/-- The amount a handler is given. -/
@[grind] def DecomposedPart.value : DecomposedPart → UInt64
  | .chunk value => value
  | .dust value => value

/-- The `while (0 != amount)` loop: the calls it makes, then `is_dust_handled`
and `dust` as it leaves them. A digit joins the dust while the dust stays
within the threshold; otherwise the dust is handed over (once, if any) and the
digit becomes a chunk. -/
@[grind] def decomposeAmountIntoDigits.loop (dustThreshold amount : UInt64) (isDustHandled : Bool) (dust order : UInt64) :
    List DecomposedPart × Bool × UInt64 :=
  if _h : amount = 0 then ([], isDustHandled, dust)
  else
    let chunk := amount % 10 * order
    if dust + chunk ≤ dustThreshold then
      decomposeAmountIntoDigits.loop dustThreshold (amount / 10) isDustHandled (dust + chunk) (order * 10)
    else
      let (dustCalls, isDustHandled) :=
        if !isDustHandled ∧ dust ≠ 0 then ([DecomposedPart.dust dust], true) else ([], isDustHandled)
      let chunkCalls := if chunk ≠ 0 then [DecomposedPart.chunk chunk] else []
      let (calls, final) := decomposeAmountIntoDigits.loop dustThreshold (amount / 10) isDustHandled dust (order * 10)
      (dustCalls ++ chunkCalls ++ calls, final)
termination_by amount.toNat
decreasing_by
  all_goals
    rw [UInt64.toNat_div]
    have : amount.toNat ≠ 0 := fun h0 => _h (UInt64.toNat_inj.mp h0)
    simp only [UInt64.reduceToNat]
    omega

/-- `decompose_amount_into_digits(amount, dust_threshold, chunk_handler,
dust_handler)`: the handler calls, in order. -/
def decomposeAmountIntoDigits (amount dustThreshold : UInt64) : List DecomposedPart :=
  if amount = 0 then []
  else
    let (calls, isDustHandled, dust) := decomposeAmountIntoDigits.loop dustThreshold amount false 0 1
    calls ++ if !isDustHandled ∧ dust ≠ 0 then [DecomposedPart.dust dust] else []

/-- `decomposeAmount(amount, dustThreshold, decomposedAmounts)`: both handlers
push their amount. -/
def decomposeAmount (amount dustThreshold : UInt64) : List UInt64 :=
  (decomposeAmountIntoDigits amount dustThreshold).map DecomposedPart.value

/-- The `while (maxOuts < outAmounts.size())` loop of `constructMinerTx`: the
last amount is added to the one before it. With fewer than two amounts the
source's index `size() - 2` wraps; the `1 <= maxOuts` check before the loop
keeps it from getting there, and the model stops. -/
def mergeOutAmounts (maxOuts : UInt64) (outAmounts : List UInt64) : List UInt64 :=
  if maxOuts.toNat < outAmounts.length then
    match h : outAmounts.reverse with
    | last :: beforeLast :: rest =>
      have : rest.length + 1 < outAmounts.length := by
        have hlen := congrArg List.length h
        rw [List.length_reverse] at hlen
        simp only [hlen, List.length_cons]
        omega
      mergeOutAmounts maxOuts ((beforeLast + last) :: rest).reverse
    | [] | [_] => outAmounts
  else outAmounts
termination_by outAmounts.length

/-- `crypto::SecretKey`. -/
structure SecretKey where
  data : Vector UInt8 32
deriving DecidableEq, Repr, Inhabited

/-- `crypto::KeyDerivation`. -/
structure KeyDerivation where
  data : Vector UInt8 32
deriving DecidableEq, Repr, Inhabited

/-- `KeyPair`. -/
structure KeyPair where
  publicKey : PublicKey
  secretKey : SecretKey
deriving DecidableEq, Repr, Inhabited

/-- `AccountPublicAddress`. -/
structure AccountPublicAddress where
  spendPublicKey : PublicKey
  viewPublicKey : PublicKey
deriving DecidableEq, Repr, Inhabited

/-- The key operations of `src/crypto` the coinbase needs; `none` where they
return `false`. -/
structure KeyOps where
  /-- `generate_key_derivation(key1, key2, derivation)`. -/
  generateKeyDerivation : PublicKey → SecretKey → Option KeyDerivation
  /-- `derive_public_key(derivation, output_index, base, derived_key)`. -/
  derivePublicKey : KeyDerivation → UInt64 → PublicKey → Option PublicKey

variable (ops : KeyOps) (txkey : KeyPair) (minerAddress : AccountPublicAddress)

/-- The `for (no = 0; no < outAmounts.size(); no++)` loop: the outputs with
their derived keys, and `summaryAmounts`; `none` where a key operation fails. -/
def minerTxOutputs : Nat → UInt64 → List UInt64 → Option (List TransactionOutput × UInt64)
  | _, summaryAmounts, [] => some ([], summaryAmounts)
  | no, summaryAmounts, amount :: outAmounts => do
    let derivation ← ops.generateKeyDerivation minerAddress.viewPublicKey txkey.secretKey
    let outEphemeralPubKey ← ops.derivePublicKey derivation no.toUInt64 minerAddress.spendPublicKey
    let (outputs, summaryAmounts) ← minerTxOutputs (no + 1) (summaryAmounts + amount) outAmounts
    pure (⟨amount, .key ⟨outEphemeralPubKey⟩⟩ :: outputs, summaryAmounts)

/-- `Currency::constructMinerTx(height, medianSize, alreadyGeneratedCoins,
currentBlockSize, fee, minerAddress, tx, extraNonce, maxOuts)`: the coinbase,
or `none` where it returns `false`. `tx` keeps its signatures, which the source
does not clear. -/
def constructMinerTx (cur : Currency) (height : UInt32) (medianSize alreadyGeneratedCoins currentBlockSize fee : UInt64)
    (tx : Transaction) (extraNonce : List UInt8) (maxOuts : UInt64) : Option Transaction := do
  let extra := addTransactionPublicKeyToExtra [] txkey.publicKey
  let extra ← if extraNonce.isEmpty then some extra else addExtraNonceToTransactionExtra extra extraNonce
  let (blockReward, _) ← cur.getBlockReward medianSize currentBlockSize alreadyGeneratedCoins fee height
  -- both handlers push their amount, as `decomposeAmount` does
  let outAmounts := (decomposeAmountIntoDigits blockReward DEFAULT_DUST_THRESHOLD).map DecomposedPart.value
  if ¬(1 ≤ maxOuts) then none
  else
    let outAmounts := mergeOutAmounts maxOuts outAmounts
    let (outputs, summaryAmounts) ← minerTxOutputs ops txkey minerAddress 0 0 outAmounts
    if ¬(summaryAmounts = blockReward) then none
    else
      some { tx with
        version := TRANSACTION_VERSION_1
        unlockTime := height.toUInt64 + cur.minedMoneyUnlockWindow
        inputs := [.base ⟨height⟩]
        outputs := outputs
        extra := extra }

end Cn
