import ConcealCore.Spec.Serialization
import ConcealCore.Lib.Codec

/-!
# The binary format: reading

`serialize` of `CryptoNoteSerialization.cpp` run with the
`BinaryInputStreamSerializer`, as `Codec.Reader`s on bytes: integers by
`readVarint` at the width of their type, arrays and strings with a 64-bit
varint size of at most `128 * 1024 * 1024`, the raw records by `binary`, and
the variants by a one-byte tag, an unknown tag failing. Every `throw` of the
reader is a failure (`none`). `fromBinaryArray` also fails when bytes are left
after the object (`stream.endOfStream()`), which is `Codec.readAll`.
-/

open Codec

namespace Cn

/-- `readVarint` into an unsigned integer of `bits` bits. -/
def readVarint (bits : Nat) : Reader UInt8 Nat := fun bs =>
  match Varint.read bits bs with
  | .ok r => some r
  | .error _ => none

def readUInt8 : Reader UInt8 UInt8 := map UInt8.ofNat (readVarint 8)
def readUInt16 : Reader UInt8 UInt16 := map UInt16.ofNat (readVarint 16)
def readUInt32 : Reader UInt8 UInt32 := map UInt32.ofNat (readVarint 32)
def readUInt64 : Reader UInt8 UInt64 := map UInt64.ofNat (readVarint 64)

/-- The size limit of `beginArray` and of a string, `128 * 1024 * 1024`. -/
def MAX_SIZE : Nat := 128 * 1024 * 1024

/-- `beginArray`: the element count as a 64-bit varint, which must not exceed
the limit. -/
def beginArray : Reader UInt8 Nat := fun bs => do
  let (size, bs) ← readVarint 64 bs
  if size > MAX_SIZE then none else some (size, bs)

/-- `serializeContainer` on input: the count, then that many elements. -/
@[grind] def readArray {α : Type} (read : Reader UInt8 α) : Reader UInt8 (List α) := fun bs => do
  let (size, bs) ← beginArray bs
  readCount read size bs

/-- `operator()(std::string&)`: a 64-bit varint size within the limit, then the bytes. -/
@[grind] def readString : Reader UInt8 (List UInt8) := fun bs => do
  let (size, bs) ← readVarint 64 bs
  if size > MAX_SIZE then none else readTokens size bs

/-- `serializePod`: the raw bytes of a record of `n` bytes. -/
def readPod (n : Nat) : Reader UInt8 (Vector UInt8 n) := fun bs =>
  if h : n ≤ bs.length then some (⟨(bs.take n).toArray, by simp; omega⟩, bs.drop n) else none

def readHash : Reader UInt8 Hash := map Hash.mk (readPod 32)
def readPublicKey : Reader UInt8 PublicKey := map PublicKey.mk (readPod 32)
def readKeyImage : Reader UInt8 KeyImage := map KeyImage.mk (readPod 32)
def readSignature : Reader UInt8 Signature := map Signature.mk (readPod 64)

/-- The `uint32_t` whose bytes, low first, are the four bytes read. -/
def uint32OfBytes : List UInt8 → UInt32
  | [b0, b1, b2, b3] => UInt32.ofNat (b0.toNat + 0x100 * b1.toNat + 0x10000 * b2.toNat + 0x1000000 * b3.toNat)
  | _ => 0

/-- The nonce, `binary(&nonce, sizeof(nonce))`. -/
def readNonce : Reader UInt8 UInt32 := map uint32OfBytes (readTokens 4)

def readBaseInput : Reader UInt8 BaseInput := fun bs => do
  let (blockIndex, bs) ← readUInt32 bs
  pure (⟨blockIndex⟩, bs)

def readKeyInput : Reader UInt8 KeyInput := fun bs => do
  let (amount, bs) ← readUInt64 bs
  let (outputIndexes, bs) ← readArray readUInt32 bs
  let (keyImage, bs) ← readKeyImage bs
  pure (⟨amount, outputIndexes, keyImage⟩, bs)

def readMultisignatureInput : Reader UInt8 MultisignatureInput := fun bs => do
  let (amount, bs) ← readUInt64 bs
  let (signatureCount, bs) ← readUInt8 bs
  let (outputIndex, bs) ← readUInt32 bs
  let (term, bs) ← readUInt32 bs
  pure (⟨amount, signatureCount, outputIndex, term⟩, bs)

/-- `serialize(TransactionInput&)` on input: the tag byte, then `getVariantValue`. -/
def readTransactionInput : Reader UInt8 TransactionInput := fun bs => do
  let (tag, bs) ← readTokens 1 bs
  match tag with
  | [0xff] => (readBaseInput bs).map fun (v, bs) => (.base v, bs)
  | [0x2] => (readKeyInput bs).map fun (v, bs) => (.key v, bs)
  | [0x3] => (readMultisignatureInput bs).map fun (v, bs) => (.multisignature v, bs)
  | _ => none

def readKeyOutput : Reader UInt8 KeyOutput := fun bs => do
  let (key, bs) ← readPublicKey bs
  pure (⟨key⟩, bs)

def readMultisignatureOutput : Reader UInt8 MultisignatureOutput := fun bs => do
  let (keys, bs) ← readArray readPublicKey bs
  let (requiredSignatureCount, bs) ← readUInt8 bs
  let (term, bs) ← readUInt32 bs
  pure (⟨keys, requiredSignatureCount, term⟩, bs)

/-- `serialize(TransactionOutputTarget&)` on input. -/
def readTransactionOutputTarget : Reader UInt8 TransactionOutputTarget := fun bs => do
  let (tag, bs) ← readTokens 1 bs
  match tag with
  | [0x2] => (readKeyOutput bs).map fun (v, bs) => (.key v, bs)
  | [0x3] => (readMultisignatureOutput bs).map fun (v, bs) => (.multisignature v, bs)
  | _ => none

def readTransactionOutput : Reader UInt8 TransactionOutput := fun bs => do
  let (amount, bs) ← readUInt64 bs
  let (target, bs) ← readTransactionOutputTarget bs
  pure (⟨amount, target⟩, bs)

/-- `serialize(TransactionPrefix&)` on input: the version is checked once read. -/
@[grind] def readTransactionPrefix : Reader UInt8 TransactionPrefix := fun bs => do
  let (version, bs) ← readUInt8 bs
  if TRANSACTION_VERSION_2 < version then none
  else
    let (unlockTime, bs) ← readUInt64 bs
    let (inputs, bs) ← readArray readTransactionInput bs
    let (outputs, bs) ← readArray readTransactionOutput bs
    let (extra, bs) ← readString bs
    pure (⟨version, unlockTime, inputs, outputs, extra⟩, bs)

/-- The signature loop of `serialize(Transaction&)` on input. The signatures
were resized to one entry per input, so they are expected exactly when there
are inputs, and input `i` gets `getSignaturesCount` of them. -/
def readSignatures : List TransactionInput → Reader UInt8 (List (List Signature))
  | [], bs => some ([], bs)
  | input :: inputs, bs => do
    let (signatures, bs) ← readCount readSignature (getSignaturesCount input) bs
    let (rest, bs) ← readSignatures inputs bs
    pure (signatures :: rest, bs)

@[grind] def readTransaction : Reader UInt8 Transaction := fun bs => do
  let (p, bs) ← readTransactionPrefix bs
  let (signatures, bs) ← readSignatures p.inputs bs
  pure ({ p with signatures }, bs)

/-- `serializeBlockHeader` on input: the major version is checked once read. -/
def readBlockHeader : Reader UInt8 BlockHeader := fun bs => do
  let (majorVersion, bs) ← readUInt8 bs
  if majorVersion > BLOCK_MAJOR_VERSION_8 then none
  else
    let (minorVersion, bs) ← readUInt8 bs
    let (timestamp, bs) ← readUInt64 bs
    let (previousBlockHash, bs) ← readHash bs
    let (nonce, bs) ← readNonce bs
    pure (⟨majorVersion, minorVersion, nonce, timestamp, previousBlockHash⟩, bs)

def readBlock : Reader UInt8 Block := fun bs => do
  let (header, bs) ← readBlockHeader bs
  let (baseTransaction, bs) ← readTransaction bs
  let (transactionHashes, bs) ← readArray readHash bs
  pure ({ header with baseTransaction, transactionHashes }, bs)

/-- `fromBinaryArray<Transaction>`. -/
def fromBinaryArrayTransaction (bs : List UInt8) : Option Transaction := readAll readTransaction bs

/-- `fromBinaryArray<Block>`. -/
def fromBinaryArrayBlock (bs : List UInt8) : Option Block := readAll readBlock bs

end Cn
