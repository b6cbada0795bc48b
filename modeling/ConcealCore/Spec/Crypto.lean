import ConcealCore.Spec.Serialization

/-!
# Hashes and signature checks

The primitives of `src/crypto` (Keccak, the CryptoNight variants and the
ed25519 checks) are taken as parameters (`Crypto`). Everything the node builds
on them is modelled: the object hash of a serialized value (`getObjectHash`),
the Merkle root of a block's transactions (`treeHash`), the block id
(`getBlockHash`), the proof-of-work hash (`getBlockLonghash`) and its check
against a difficulty (`checkHash`).
-/

namespace Cn

/-- The cryptographic primitives of `src/crypto`. -/
structure Crypto where
  /-- `cn_fast_hash`: Keccak of a byte string. -/
  cnFastHash : List UInt8 → Hash
  /-- `cn_slow_hash_v0`, for major versions below 3. -/
  cnSlowHashV0 : List UInt8 → Hash
  /-- `cn_fast_slow_hash_v1`, for major versions 3 to 6. -/
  cnFastSlowHashV1 : List UInt8 → Hash
  /-- `cn_conceal_slow_hash_v0`, for major version 7. -/
  cnConcealSlowHashV0 : List UInt8 → Hash
  /-- `cn_gpu_hash_v0`, from major version 8. -/
  cnGpuHashV0 : List UInt8 → Hash
  /-- `check_key`: the bytes are a point of the curve. -/
  checkKey : PublicKey → Bool
  /-- `check_signature(prefixHash, key, signature)`. -/
  checkSignature : Hash → PublicKey → Signature → Bool
  /-- `check_ring_signature(prefixHash, keyImage, keys, signatures)`. -/
  checkRingSignature : Hash → KeyImage → List PublicKey → List Signature → Bool
  /-- `scalarmultKey(keyImage, L) == I`: the key image lies in the prime-order subgroup. -/
  keyImageInSubgroup : KeyImage → Bool

variable (c : Crypto)

/-- `getObjectHash` of a serialized object: `cn_fast_hash` of its bytes, or
`NULL_HASH` when serialization throws. -/
def getObjectHash (w : Written) : Hash :=
  match w with
  | .ok b => c.cnFastHash b
  | .error _ => nullHash

/-- The hash of a transaction, `getObjectHash(tx)`. -/
def transactionHash (tx : Transaction) : Hash := getObjectHash c (serializeTransaction tx)

/-- The prefix hash, `getObjectHash(*static_cast<const TransactionPrefix *>(&tx))`. -/
def transactionPrefixHash (tx : Transaction) : Hash :=
  getObjectHash c (serializeTransactionPrefix tx.toTransactionPrefix)

/-- Pairwise hashing of one level of the tree, `cn_fast_hash(hashes[i], 2 * HASH_SIZE)`. -/
def treeHash.pairUp : List Hash → List Hash
  | a :: b :: rest => c.cnFastHash (a.bytes ++ b.bytes) :: treeHash.pairUp rest
  | l => l

/-- The `while (cnt > 2)` rounds, then the root. -/
def treeHash.rounds : Nat → List Hash → Hash
  | _, [a, b] => c.cnFastHash (a.bytes ++ b.bytes)
  | 0, _ => nullHash
  | fuel + 1, l => treeHash.rounds fuel (treeHash.pairUp c l)

/-- `tree_hash`: with `cnt` the largest power of two below `count` (what the
bit smearing of `count - 1` computes), the first `2 * cnt - count` hashes go up
unchanged, the others are hashed in pairs, and the `cnt` results are halved
down to the root. -/
def treeHash (hashes : List Hash) : Hash :=
  match hashes with
  | [] => nullHash
  | [h] => h
  | [a, b] => c.cnFastHash (a.bytes ++ b.bytes)
  | _ =>
    let cnt := 2 ^ (hashes.length - 1).log2
    let keep := 2 * cnt - hashes.length
    treeHash.rounds c hashes.length (hashes.take keep ++ treeHash.pairUp c (hashes.drop keep))

/-- `get_tx_tree_hash(b)`: the tree of the coinbase hash and the listed transaction hashes. -/
def getTxTreeHash (b : Block) : Hash :=
  treeHash c (transactionHash c b.baseTransaction :: b.transactionHashes)

/-- `get_block_hashing_blob`: the serialized header, the tree root and the
varint of the transaction count, coinbase included. -/
def getBlockHashingBlob (b : Block) : Option (List UInt8) :=
  match serializeBlockHeader b.toBlockHeader with
  | .error _ => none
  | .ok header => some (header ++ (getTxTreeHash c b).bytes ++ writeVarint (b.transactionHashes.length + 1))

/-- `get_block_hash`: `getObjectHash` of the hashing blob, which serializes the
blob as a size-prefixed string; `NULL_HASH` when the header does not serialize. -/
def getBlockHash (b : Block) : Hash :=
  match getBlockHashingBlob c b with
  | none => nullHash
  | some blob => c.cnFastHash (serializeAsBinary blob)

/-- `get_block_longhash`: the slow hash of the hashing blob for the block's major version. -/
def getBlockLonghash (b : Block) : Option Hash :=
  (getBlockHashingBlob c b).map fun blob =>
    if 8 ≤ b.majorVersion then c.cnGpuHashV0 blob
    else if 7 ≤ b.majorVersion then c.cnConcealSlowHashV0 blob
    else if 3 ≤ b.majorVersion then c.cnFastSlowHashV1 blob
    else c.cnSlowHashV0 blob

/-- The hash as the 256-bit integer `check_hash` reads: four little-endian words. -/
@[grind] def Hash.toNat (h : Hash) : Nat :=
  h.data.toList.foldr (fun b acc => b.toNat + 256 * acc) 0

/-- `check_hash(hash, difficulty)`: the 320-bit product of the hash and the
difficulty has no bits above the 256th. -/
def checkHash (h : Hash) (difficulty : UInt64) : Bool :=
  decide (h.toNat * difficulty.toNat < 2 ^ 256)

/-- `Currency::checkProofOfWork`. -/
def checkProofOfWork (b : Block) (difficulty : UInt64) : Bool :=
  match getBlockLonghash c b with
  | none => false
  | some pow => checkHash pow difficulty

/-- Concrete primitives to evaluate the model on small inputs: every hash is
the first 32 bytes of its data, zero-padded (so distinct data of at most 32
bytes get distinct hashes), and every check passes. -/
def paddedCrypto : Crypto where
  cnFastHash b := ⟨Vector.ofFn fun i => b.getD i.val 0⟩
  cnSlowHashV0 b := ⟨Vector.ofFn fun i => b.getD i.val 0⟩
  cnFastSlowHashV1 b := ⟨Vector.ofFn fun i => b.getD i.val 0⟩
  cnConcealSlowHashV0 b := ⟨Vector.ofFn fun i => b.getD i.val 0⟩
  cnGpuHashV0 b := ⟨Vector.ofFn fun i => b.getD i.val 0⟩
  checkKey _ := true
  checkSignature _ _ _ := true
  checkRingSignature _ _ _ _ := true
  keyImageInSubgroup _ := true

end Cn
