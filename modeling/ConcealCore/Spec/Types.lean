import Mathlib

/-!
# The CryptoNote data model

The transaction and block types of `include/CryptoNote.h` and the fixed-size
byte records of `include/CryptoTypes.h`, with the widths the source gives them:
`uint8_t`, `uint32_t` and `uint64_t` fields are `UInt8`, `UInt32` and `UInt64`,
`std::vector` is `List`, and the `boost::variant`s of inputs and output targets
are inductive types with one constructor per alternative, in the order of the
variant (the order `which()` and the binary tags follow).
-/

namespace Cn

/-- `crypto::Hash`: 32 raw bytes. -/
structure Hash where
  data : Vector UInt8 32
deriving DecidableEq, Repr, Inhabited

/-- `crypto::PublicKey`, an `EllipticCurvePoint`: 32 raw bytes. -/
structure PublicKey where
  data : Vector UInt8 32
deriving DecidableEq, Repr, Inhabited

/-- `crypto::KeyImage`: 32 raw bytes. -/
structure KeyImage where
  data : Vector UInt8 32
deriving DecidableEq, Repr, Inhabited

/-- `crypto::Signature`: 64 raw bytes. -/
structure Signature where
  data : Vector UInt8 64
deriving DecidableEq, Repr, Inhabited

/-- `NULL_HASH`, the value-initialised hash. -/
def nullHash : Hash := ⟨Vector.replicate 32 0⟩

structure BaseInput where
  blockIndex : UInt32
deriving DecidableEq, Repr, Inhabited

structure KeyInput where
  amount : UInt64
  outputIndexes : List UInt32
  keyImage : KeyImage
deriving DecidableEq, Repr, Inhabited

structure MultisignatureInput where
  amount : UInt64
  signatureCount : UInt8
  outputIndex : UInt32
  term : UInt32
deriving DecidableEq, Repr, Inhabited

/-- `TransactionInput = boost::variant<BaseInput, KeyInput, MultisignatureInput>`. -/
inductive TransactionInput where
  | base (i : BaseInput)
  | key (i : KeyInput)
  | multisignature (i : MultisignatureInput)
deriving DecidableEq, Repr, Inhabited

structure KeyOutput where
  key : PublicKey
deriving DecidableEq, Repr, Inhabited

structure MultisignatureOutput where
  keys : List PublicKey
  requiredSignatureCount : UInt8
  term : UInt32
deriving DecidableEq, Repr, Inhabited

/-- `TransactionOutputTarget = boost::variant<KeyOutput, MultisignatureOutput>`. -/
inductive TransactionOutputTarget where
  | key (o : KeyOutput)
  | multisignature (o : MultisignatureOutput)
deriving DecidableEq, Repr, Inhabited

structure TransactionOutput where
  amount : UInt64
  target : TransactionOutputTarget
deriving DecidableEq, Repr, Inhabited

structure TransactionPrefix where
  version : UInt8
  unlockTime : UInt64
  inputs : List TransactionInput
  outputs : List TransactionOutput
  extra : List UInt8
deriving DecidableEq, Repr, Inhabited

structure Transaction extends TransactionPrefix where
  signatures : List (List Signature)
deriving DecidableEq, Repr, Inhabited

structure BlockHeader where
  majorVersion : UInt8
  minorVersion : UInt8
  nonce : UInt32
  timestamp : UInt64
  previousBlockHash : Hash
deriving DecidableEq, Repr, Inhabited

structure Block extends BlockHeader where
  baseTransaction : Transaction
  transactionHashes : List Hash
deriving DecidableEq, Repr, Inhabited

/-- The key image of an input, for the `KeyInput` alternative only. -/
def TransactionInput.keyImage? : TransactionInput → Option KeyImage
  | .key i => some i.keyImage
  | _ => none

/-- The `(amount, outputIndex)` an input spends, for the `MultisignatureInput`
alternative only. -/
def TransactionInput.multisignature? : TransactionInput → Option MultisignatureInput
  | .multisignature i => some i
  | _ => none

end Cn
