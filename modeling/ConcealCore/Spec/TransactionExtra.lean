import ConcealCore.Spec.Deserialization

/-!
# The transaction extra

`parseTransactionExtra` splits the `extra` bytes of a transaction into tagged
fields: a run of zero padding, a public key, a nonce of at most 255 bytes, a
merge-mining tag, a message and a time to live. An unknown tag byte is skipped.
A field that cannot be read ends the parse with `false`, and the fields read
before it are kept: `getMergeMiningTagFromExtra` and the pool's TTL lookup
search them whatever the outcome.

The writers append one field each: `writeTransactionExtra` applies
`ExtraSerializerVisitor` to the fields in order and stops at the first it
refuses (a padding longer than `TX_EXTRA_PADDING_MAX_COUNT`, a nonce longer
than `TX_EXTRA_NONCE_MAX_COUNT`), leaving what was appended before.
-/

open Codec

namespace Cn

/-- `TX_EXTRA_PADDING_MAX_COUNT`. -/
def TX_EXTRA_PADDING_MAX_COUNT : Nat := 255

/-- `TX_EXTRA_NONCE_MAX_COUNT`. -/
def TX_EXTRA_NONCE_MAX_COUNT : Nat := 255

/-! The tags of the fields. -/

def TX_EXTRA_TAG_PADDING : UInt8 := 0x00
def TX_EXTRA_TAG_PUBKEY : UInt8 := 0x01
def TX_EXTRA_NONCE : UInt8 := 0x02
def TX_EXTRA_MERGE_MINING_TAG : UInt8 := 0x03
def TX_EXTRA_MESSAGE_TAG : UInt8 := 0x04
def TX_EXTRA_TTL : UInt8 := 0x05

/-- `TransactionExtraField`, the variant of the parsed fields. -/
inductive TransactionExtraField where
  | padding (size : Nat)
  | publicKey (publicKey : PublicKey)
  | nonce (nonce : List UInt8)
  | mergeMiningTag (depth : UInt64) (merkleRoot : Hash)
  | message (data : List UInt8)
  | ttl (ttl : UInt64)
deriving DecidableEq, Repr

/-- The padding after its tag: the loop reads bytes while the extra lasts and
`size` stays within `TX_EXTRA_PADDING_MAX_COUNT`. A nonzero byte, or a padding
that runs to the limit, fails the parse. -/
def readPadding (bs : List UInt8) : Option (Nat × List UInt8) :=
  let k := min bs.length TX_EXTRA_PADDING_MAX_COUNT
  if (bs.take k).all (· = 0) ∧ 1 + k ≤ TX_EXTRA_PADDING_MAX_COUNT then some (1 + k, bs.drop k)
  else none

/-- The nonce: its size as a raw byte, then that many bytes. -/
def readExtraNonce : Reader UInt8 (List UInt8) := fun bs => do
  let (size, bs) ← readTokens 1 bs
  readTokens (size.headD 0).toNat bs

/-- `serialize(TransactionExtraMergeMiningTag&)` on input: a string, from which
the depth and the Merkle root are read. -/
def readMergeMiningTag : Reader UInt8 (UInt64 × Hash) := fun bs => do
  let (field, bs) ← readString bs
  let (depth, rest) ← readUInt64 field
  let (merkleRoot, _) ← readHash rest
  pure ((depth, merkleRoot), bs)

/-- The TTL field: a one-byte size as a varint, then the TTL as a varint. -/
def readExtraTTL : Reader UInt8 UInt64 := fun bs => do
  let (_, bs) ← readUInt8 bs
  readUInt64 bs

/-- The field after a tag byte: `some (none, _)` for a tag the switch skips. -/
def readExtraField (tag : UInt8) (bs : List UInt8) :
    Option (Option TransactionExtraField × List UInt8) :=
  match tag with
  | 0x00 => (readPadding bs).map fun (size, bs) => (some (.padding size), bs)
  | 0x01 => (readPublicKey bs).map fun (key, bs) => (some (.publicKey key), bs)
  | 0x02 => (readExtraNonce bs).map fun (nonce, bs) => (some (.nonce nonce), bs)
  | 0x03 => (readMergeMiningTag bs).map fun ((depth, root), bs) => (some (.mergeMiningTag depth root), bs)
  | 0x04 => (readString bs).map fun (data, bs) => (some (.message data), bs)
  | 0x05 => (readExtraTTL bs).map fun (ttl, bs) => (some (.ttl ttl), bs)
  | _ => some (none, bs)

/-- The `while (!iss.endOfStream())` loop; every pass reads its tag byte, so
`fuel` as long as the bytes is enough. -/
@[grind] def parseTransactionExtra.loop :
    Nat → List UInt8 → List TransactionExtraField → Bool × List TransactionExtraField
  | _, [], fields => (true, fields)
  | 0, _ :: _, fields => (true, fields)
  | fuel + 1, tag :: bs, fields =>
    match readExtraField tag bs with
    | none => (false, fields)
    | some (field, bs) => parseTransactionExtra.loop fuel bs (fields ++ field.toList)

/-- `parseTransactionExtra(extra, fields)`: whether the whole extra parsed,
and the fields read. -/
def parseTransactionExtra (extra : List UInt8) : Bool × List TransactionExtraField :=
  parseTransactionExtra.loop extra.length extra []

/-- `getMergeMiningTagFromExtra`: a merge-mining tag among the parsed fields. -/
def getMergeMiningTagFromExtra (extra : List UInt8) : Bool :=
  (parseTransactionExtra extra).2.any fun
    | .mergeMiningTag _ _ => true
    | _ => false

/-- The TTL `add_tx` finds in the extra, zero when there is none. -/
def getTransactionTTL (extra : List UInt8) : UInt64 :=
  ((parseTransactionExtra extra).2.findSome? fun
    | .ttl ttl => some ttl
    | _ => none).getD 0

/-! ## Writing the fields -/

/-- `addTransactionPublicKeyToExtra`: the tag and the 32 bytes of the key. -/
def addTransactionPublicKeyToExtra (txExtra : List UInt8) (txPubKey : PublicKey) : List UInt8 :=
  txExtra ++ TX_EXTRA_TAG_PUBKEY :: txPubKey.bytes

/-- `addExtraNonceToTransactionExtra`: the tag, the size as one byte and the
nonce; `none` where it returns `false`. -/
def addExtraNonceToTransactionExtra (txExtra extraNonce : List UInt8) : Option (List UInt8) :=
  if extraNonce.length > TX_EXTRA_NONCE_MAX_COUNT then none
  else some (txExtra ++ TX_EXTRA_NONCE :: UInt8.ofNat extraNonce.length :: extraNonce)

/-- `toBinaryArray` of a `TransactionExtraMergeMiningTag`: `serialize` writes the
depth and the Merkle root into a string, and the string. -/
def mergeMiningTagBinaryArray (depth : UInt64) (merkleRoot : Hash) : List UInt8 :=
  serializeAsBinary (writeVarint depth.toNat ++ merkleRoot.bytes)

/-- `appendMergeMiningTagToExtra`: `toBinaryArray` cannot throw here. -/
def appendMergeMiningTagToExtra (txExtra : List UInt8) (depth : UInt64) (merkleRoot : Hash) : List UInt8 :=
  txExtra ++ TX_EXTRA_MERGE_MINING_TAG :: mergeMiningTagBinaryArray depth merkleRoot

/-- `append_message_to_extra`: `tx_extra_message::serialize` writes its data as a
string, of any length. -/
def appendMessageToExtra (txExtra data : List UInt8) : List UInt8 :=
  txExtra ++ TX_EXTRA_MESSAGE_TAG :: serializeAsBinary data

/-- `appendTTLToExtra`: the size of the TTL's varint, as a varint, then the TTL. -/
def appendTTLToExtra (txExtra : List UInt8) (ttl : UInt64) : List UInt8 :=
  let ttlData := writeVarint ttl.toNat
  let extraFieldSize := writeVarint ttlData.length
  txExtra ++ TX_EXTRA_TTL :: (extraFieldSize ++ ttlData)

/-- `ExtraSerializerVisitor` on one field: the extra with the field appended,
or `none` where the visitor returns `false`. A padding of `size` is `size`
zero bytes, its tag among them. -/
@[grind] def extraSerializerVisitor (extra : List UInt8) : TransactionExtraField → Option (List UInt8)
  | .padding size => if size > TX_EXTRA_PADDING_MAX_COUNT then none else some (extra ++ List.replicate size 0)
  | .publicKey publicKey => some (addTransactionPublicKeyToExtra extra publicKey)
  | .nonce nonce => addExtraNonceToTransactionExtra extra nonce
  | .mergeMiningTag depth merkleRoot => some (appendMergeMiningTagToExtra extra depth merkleRoot)
  | .message data => some (appendMessageToExtra extra data)
  | .ttl ttl => some (appendTTLToExtra extra ttl)

/-- `writeTransactionExtra(tx_extra, tx_extra_fields)`: whether every field was
written, and the extra as it is left. -/
def writeTransactionExtra : List UInt8 → List TransactionExtraField → Bool × List UInt8
  | txExtra, [] => (true, txExtra)
  | txExtra, field :: fields =>
    match extraSerializerVisitor txExtra field with
    | none => (false, txExtra)
    | some txExtra => writeTransactionExtra txExtra fields

end Cn
