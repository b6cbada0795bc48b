import ConcealCore.Spec.Crypto
import ConcealCore.Spec.IntUtil
import ConcealCore.Lib.Varint

/-!
# Base58 and addresses

`tools::base_58` writes bytes in blocks of eight: each block is a big-endian
number, written as a fixed number of base-58 digits (`encodedBlockSizes` of the
block's length: 11 for a full block) over an alphabet without `0`, `O`, `I` and
`l`, padded with the zero symbol `1`. The last block may be shorter. `decode`
reverses it and refuses a length no encoding has, a symbol outside the
alphabet, a block value above 64 bits (caught with `mul128`) and a short block
value above its byte width.

An address (`encodeAddr`) is the varint of a tag, the data, and four bytes of
the `cn_fast_hash` of both, in base58. `decodeAddr` checks the four bytes and
reads the tag back with `tools::read_varint`, which counts the bytes it read
when the input ends in the middle of a varint, as if it had read a whole one.

The text is a list of characters and the data a list of bytes.
-/

namespace Cn

namespace Base58

/-- `alphabet`. -/
def alphabet : List Char := "123456789ABCDEFGHJKLMNPQRSTUVWXYZabcdefghijkmnopqrstuvwxyz".toList

/-- `alphabet_size`. -/
def alphabetSize : Nat := 58

/-- `encoded_block_sizes`: the symbols a block of `i` bytes takes. -/
def encodedBlockSizes : List Nat := [0, 2, 3, 5, 6, 7, 9, 10, 11]

/-- `full_block_size`. -/
def fullBlockSize : Nat := 8

/-- `full_encoded_block_size`. -/
def fullEncodedBlockSize : Nat := 11

/-- `addr_checksum_size`. -/
def addrChecksumSize : Nat := 4

/-- `reverse_alphabet::instance(letter)`: the place of a letter in the
alphabet. The table the constructor builds has `-1`, here `none`, for every
other character. -/
def reverseAlphabet (letter : Char) : Option Nat := alphabet.idxOf? letter

/-- `decoded_block_sizes::instance(encoded_block_size)`: the bytes a block of
that many symbols holds; `-1`, here `none`, for a size no block has. -/
def decodedBlockSizes (encodedBlockSize : Nat) : Option Nat := encodedBlockSizes.idxOf? encodedBlockSize

/-- `uint_8be_to_64(data, size)`: the bytes as a big-endian number. -/
def uint8beTo64 (data : List UInt8) : UInt64 := data.foldl (fun res byte => (res <<< 8) ||| byte.toUInt64) 0

/-- `uint_64_to_8be(num, size, data)`: the last `size` bytes of the big-endian
`num`. -/
def uint64To8be (num : UInt64) (size : Nat) : List UInt8 :=
  ((List.range 8).map fun i => (num >>> (56 - 8 * i).toUInt64).toUInt8).drop (8 - size)

/-- The loop of `encode_block`: while `num` is not zero, its lowest digit goes
to the last place not yet written, `places - 1`. The source would write before
the block once `places` is spent; no block value is large enough for that. -/
@[grind] def encodeBlock.loop : Nat → UInt64 → List Char → List Char
  | places + 1, num, res =>
    if 0 < num then
      encodeBlock.loop places (num / alphabetSize.toUInt64)
        (res.set places (alphabet.getD (num % alphabetSize.toUInt64).toNat '1'))
    else res
  | 0, _, res => res

/-- `encode_block(block, size, res)`, on its part of the result, which `encode`
fills with the zero symbol first. -/
def encodeBlock (block : List UInt8) : List Char :=
  let encodedSize := encodedBlockSizes.getD block.length 0
  encodeBlock.loop encodedSize (uint8beTo64 block) (List.replicate encodedSize (alphabet.getD 0 '1'))

/-- The loop of `decode_block`, over the symbols from the last: each digit
times `order` is added to `resNum`, and the block is refused at a symbol
outside the alphabet or a sum above 64 bits. -/
@[grind] def decodeBlock.loop : List Char → UInt64 → UInt64 → Option UInt64
  | [], resNum, _ => some resNum
  | letter :: rest, resNum, order =>
    match reverseAlphabet letter with
    | none => none
    | some digit =>
      let (productLo, productHi) := IntUtil.mul128 order digit.toUInt64
      let tmp := resNum + productLo
      if tmp < resNum ∨ productHi ≠ 0 then none
      else decodeBlock.loop rest tmp (order * alphabetSize.toUInt64)

/-- `decode_block(block, size, res)`: the bytes of one block, or `none` where
it returns `false`. -/
def decodeBlock (block : List Char) : Option (List UInt8) :=
  match decodedBlockSizes block.length with
  | none => none
  | some resSize =>
    if resSize = 0 then none
    else
      match decodeBlock.loop block.reverse 0 1 with
      | none => none
      | some resNum =>
        if resSize < fullBlockSize ∧ (1 <<< (8 * resSize).toUInt64 : UInt64) ≤ resNum then none
        else some (uint64To8be resNum resSize)

/-- The loop of `encode` over the full blocks. -/
@[grind] def encodeFullBlocks : Nat → List UInt8 → List Char
  | 0, _ => []
  | count + 1, data => encodeBlock (data.take fullBlockSize) ++ encodeFullBlocks count (data.drop fullBlockSize)

/-- `encode(data)`. -/
def encode (data : List UInt8) : List Char :=
  if data.isEmpty then []
  else
    let fullBlockCount := data.length / fullBlockSize
    let lastBlockSize := data.length % fullBlockSize
    encodeFullBlocks fullBlockCount data ++
      if 0 < lastBlockSize then encodeBlock (data.drop (fullBlockCount * fullBlockSize)) else []

/-- The loop of `decode` over the full blocks, stopping at the first refused. -/
def decodeFullBlocks : Nat → List Char → Option (List UInt8)
  | 0, _ => some []
  | count + 1, enc =>
    match decodeBlock (enc.take fullEncodedBlockSize) with
    | none => none
    | some block => (decodeFullBlocks count (enc.drop fullEncodedBlockSize)).map (block ++ ·)

/-- `decode(enc, data)`: the data, or `none` where it returns `false`. -/
def decode (enc : List Char) : Option (List UInt8) :=
  if enc.isEmpty then some []
  else
    let fullBlockCount := enc.length / fullEncodedBlockSize
    let lastBlockSize := enc.length % fullEncodedBlockSize
    match decodedBlockSizes lastBlockSize with
    | none => none
    | some _ =>
      match decodeFullBlocks fullBlockCount enc with
      | none => none
      | some full =>
        if 0 < lastBlockSize then
          (decodeBlock (enc.drop (fullBlockCount * fullEncodedBlockSize))).map (full ++ ·)
        else some full

/-! ## Addresses -/

/-- The loop of `tools::read_varint<bits>(first, last, i)`: the count of bytes
read, or `-1` for a group that does not fit, `-2` for a final zero group after
the first; and the value read. At the end of the input it returns the count
so far. -/
@[grind] def readVarint.loop (bits : Nat) : Nat → Int → UInt64 → List UInt8 → Int × UInt64
  | _, read, i, [] => (read, i)
  | shift, read, i, byte :: rest =>
    let read := read + 1
    if shift + 7 ≥ bits ∧ byte.toNat ≥ 2 ^ (bits - shift) then (-1, i)
    else if byte = 0 ∧ shift ≠ 0 then (-2, i)
    else
      let i := i ||| ((byte &&& 0x7f).toUInt64 <<< shift.toUInt64)
      if byte &&& 0x80 = 0 then (read, i) else readVarint.loop bits (shift + 7) read i rest

/-- `tools::read_varint(first, last, i)` for a `uint64_t`. -/
def readVarint (bs : List UInt8) : Int × UInt64 := readVarint.loop 64 0 0 0 bs

variable (c : Crypto)

/-- The checksum of an address: the first `addr_checksum_size` bytes of the
`cn_fast_hash` of the rest. -/
def addrChecksum (buf : List UInt8) : List UInt8 := (c.cnFastHash buf).data.toList.take addrChecksumSize

/-- `encode_addr(tag, data)`: `get_varint_data(tag)` is the varint writer's
output for the tag. -/
def encodeAddr (tag : UInt64) (data : List UInt8) : List Char :=
  let buf := Varint.write tag.toNat ++ data
  encode (buf ++ addrChecksum c buf)

/-- `decode_addr(addr, tag, data)`: the tag and the data, or `none` where it
returns `false`. -/
def decodeAddr (addr : List Char) : Option (UInt64 × List UInt8) :=
  match decode addr with
  | none => none
  | some addrData =>
    if addrData.length ≤ addrChecksumSize then none
    else
      let checksum := addrData.drop (addrData.length - addrChecksumSize)
      let addrData := addrData.take (addrData.length - addrChecksumSize)
      if addrChecksum c addrData ≠ checksum then none
      else
        let (read, tag) := readVarint addrData
        if read ≤ 0 then none else some (tag, addrData.drop read.toNat)

end Base58

end Cn
