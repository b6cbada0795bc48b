import ConcealCore.Spec.Types
import ConcealCore.Lib.Varint

/-!
# The binary format: writing

`serialize` of `CryptoNoteSerialization.cpp` run with the
`BinaryOutputStreamSerializer`: integers as varints (`writeVarint`), raw
`binary` blocks for the fixed-size records and the block nonce, vectors as a
varint count followed by the elements, the `extra` blob as a size-prefixed
string, and the variants as a one-byte tag followed by the alternative.

Only two writers can throw: the transaction prefix on a version above
`TRANSACTION_VERSION_2` and the transaction on signatures that do not match its
inputs, and the block header on a major version above `BLOCK_MAJOR_VERSION_8`.
A run that throws keeps in the stream what it wrote before the throw, which is
what `toBinaryArray(object)` returns (`Written`).
-/

namespace Cn

def TRANSACTION_VERSION_1 : UInt8 := 1
def TRANSACTION_VERSION_2 : UInt8 := 2
def BLOCK_MAJOR_VERSION_1 : UInt8 := 1
def BLOCK_MAJOR_VERSION_2 : UInt8 := 2
def BLOCK_MAJOR_VERSION_3 : UInt8 := 3
def BLOCK_MAJOR_VERSION_4 : UInt8 := 4
def BLOCK_MAJOR_VERSION_7 : UInt8 := 7
def BLOCK_MAJOR_VERSION_8 : UInt8 := 8
def BLOCK_MINOR_VERSION_0 : UInt8 := 0
def BLOCK_MINOR_VERSION_1 : UInt8 := 1

/-- The bytes of a serialization run: `.ok` when it ran to the end, `.error`
when it threw after writing the bytes it carries. -/
abbrev Written := Except (List UInt8) (List UInt8)

/-- `writeVarint`, on the value of any unsigned field. -/
def writeVarint (value : Nat) : List UInt8 := Varint.write value

@[grind] def Hash.bytes (h : Hash) : List UInt8 := h.data.toList
@[grind] def PublicKey.bytes (k : PublicKey) : List UInt8 := k.data.toList
@[grind] def KeyImage.bytes (k : KeyImage) : List UInt8 := k.data.toList
@[grind] def Signature.bytes (s : Signature) : List UInt8 := s.data.toList

/-- `serializeContainer`: the element count, then the elements. -/
def serializeVector {α : Type} (f : α → List UInt8) (xs : List α) : List UInt8 :=
  writeVarint xs.length ++ xs.flatMap f

/-- `serializeAsBinary` of a `std::vector<uint8_t>`: a size-prefixed string. -/
@[grind] def serializeAsBinary (blob : List UInt8) : List UInt8 :=
  writeVarint blob.length ++ blob

/-- A `uint32_t` written by `binary(&v, sizeof(v))`: four bytes, low first. -/
def binaryUInt32 (v : UInt32) : List UInt8 :=
  [v.toUInt8, (v >>> 8).toUInt8, (v >>> 16).toUInt8, (v >>> 24).toUInt8]

/-- `BinaryVariantTagGetter` for inputs. -/
@[grind] def TransactionInput.tag : TransactionInput → UInt8
  | .base _ => 0xff
  | .key _ => 0x2
  | .multisignature _ => 0x3

/-- `BinaryVariantTagGetter` for output targets. -/
@[grind] def TransactionOutputTarget.tag : TransactionOutputTarget → UInt8
  | .key _ => 0x2
  | .multisignature _ => 0x3

def serializeBaseInput (i : BaseInput) : List UInt8 := writeVarint i.blockIndex.toNat

def serializeKeyInput (i : KeyInput) : List UInt8 :=
  writeVarint i.amount.toNat ++ serializeVector (fun x => writeVarint x.toNat) i.outputIndexes ++
    i.keyImage.bytes

def serializeMultisignatureInput (i : MultisignatureInput) : List UInt8 :=
  writeVarint i.amount.toNat ++ writeVarint i.signatureCount.toNat ++
    writeVarint i.outputIndex.toNat ++ writeVarint i.term.toNat

def serializeTransactionInput (i : TransactionInput) : List UInt8 :=
  i.tag :: match i with
    | .base v => serializeBaseInput v
    | .key v => serializeKeyInput v
    | .multisignature v => serializeMultisignatureInput v

def serializeKeyOutput (o : KeyOutput) : List UInt8 := o.key.bytes

def serializeMultisignatureOutput (o : MultisignatureOutput) : List UInt8 :=
  serializeVector PublicKey.bytes o.keys ++ writeVarint o.requiredSignatureCount.toNat ++
    writeVarint o.term.toNat

def serializeTransactionOutputTarget (t : TransactionOutputTarget) : List UInt8 :=
  t.tag :: match t with
    | .key v => serializeKeyOutput v
    | .multisignature v => serializeMultisignatureOutput v

def serializeTransactionOutput (o : TransactionOutput) : List UInt8 :=
  writeVarint o.amount.toNat ++ serializeTransactionOutputTarget o.target

/-- `serialize(TransactionPrefix&)`: the version is written before it is checked. -/
@[grind] def serializeTransactionPrefix (p : TransactionPrefix) : Written :=
  if TRANSACTION_VERSION_2 < p.version then .error (writeVarint p.version.toNat)
  else .ok (writeVarint p.version.toNat ++ writeVarint p.unlockTime.toNat ++
    serializeVector serializeTransactionInput p.inputs ++
    serializeVector serializeTransactionOutput p.outputs ++ serializeAsBinary p.extra)

/-- `getSignaturesCount`: the signatures an input carries, not written in the format. -/
def getSignaturesCount : TransactionInput → Nat
  | .base _ => 0
  | .key i => i.outputIndexes.length
  | .multisignature i => i.signatureCount.toNat

/-- The signature loop of `serialize(Transaction&)` on output, after the prefix
`acc`. With no signatures at all (`notExpected`) every input must need none;
otherwise input `i` must carry exactly `getSignaturesCount` of them. -/
def serializeSignatures (notExpected : Bool) :
    List TransactionInput → List (List Signature) → List UInt8 → Written
  | [], _, acc => .ok acc
  | input :: inputs, sigs, acc =>
    if notExpected then
      if getSignaturesCount input = 0 then serializeSignatures notExpected inputs sigs.tail acc
      else .error acc
    else if getSignaturesCount input ≠ (sigs.headD []).length then .error acc
    else serializeSignatures notExpected inputs sigs.tail (acc ++ (sigs.headD []).flatMap Signature.bytes)

/-- `serialize(Transaction&)` on output. -/
def serializeTransaction (tx : Transaction) : Written :=
  match serializeTransactionPrefix tx.toTransactionPrefix with
  | .error acc => .error acc
  | .ok acc =>
    let notExpected := tx.signatures.isEmpty
    if !notExpected && tx.inputs.length ≠ tx.signatures.length then .error acc
    else serializeSignatures notExpected tx.inputs tx.signatures acc

/-- `serializeBlockHeader`: the major version is written before it is checked. -/
@[grind] def serializeBlockHeader (h : BlockHeader) : Written :=
  if BLOCK_MAJOR_VERSION_8 < h.majorVersion then .error (writeVarint h.majorVersion.toNat)
  else .ok (writeVarint h.majorVersion.toNat ++ writeVarint h.minorVersion.toNat ++
    writeVarint h.timestamp.toNat ++ h.previousBlockHash.bytes ++ binaryUInt32 h.nonce)

/-- `serialize(Block&)`. -/
def serializeBlock (b : Block) : Written :=
  match serializeBlockHeader b.toBlockHeader with
  | .error acc => .error acc
  | .ok acc =>
    match serializeTransaction b.baseTransaction with
    | .error tx => .error (acc ++ tx)
    | .ok tx => .ok (acc ++ tx ++ serializeVector Hash.bytes b.transactionHashes)

/-- The bytes a run leaves in the stream, thrown or not. -/
@[grind] def Written.bytes : Written → List UInt8
  | .ok b => b
  | .error b => b

/-- `toBinaryArray(object, binaryArray)`: the bytes, when the run does not throw. -/
def Written.toOption : Written → Option (List UInt8)
  | .ok b => some b
  | .error _ => none

/-- `SIZE_MAX` on the 64-bit targets the node is built for. -/
def SIZE_MAX : UInt64 := 0xFFFFFFFFFFFFFFFF

/-- `getObjectBinarySize`: the size of the serialized object, `SIZE_MAX` when
serialization throws. -/
def getObjectBinarySize (w : Written) : UInt64 :=
  match w with
  | .ok b => b.length.toUInt64
  | .error _ => SIZE_MAX

end Cn
