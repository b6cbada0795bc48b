import ConcealCore.Spec.JsonValue

/-!
# The portable-storage binary format

`KVBinaryInputStreamSerializer` reads the body of a Levin packet into a
`JsonValue` (`parseBinary`), as `LevinProtocol::decode` hands it every packet
`readCommand` accepted, of at most `LEVIN_DEFAULT_MAX_PACKET_SIZE` bytes: a
header, then a section of named entries, each a typed value or an array of
values of one type. It is recursive descent without a depth counter like the
text parser, and `loadSection`, `loadEntry`, `loadValue` and `loadArray` take
the same budget of stack frames. Their loops run the count the input gives.
-/

namespace Cn

namespace KVBinary

open Descent

/-- The bound `LevinProtocol::readCommand` puts on a packet's body. -/
def LEVIN_DEFAULT_MAX_PACKET_SIZE : Nat := 100000000

def PORTABLE_STORAGE_SIGNATUREA : Nat := 0x01011101
def PORTABLE_STORAGE_SIGNATUREB : Nat := 0x01020101
def PORTABLE_STORAGE_FORMAT_VER : UInt8 := 1

def PORTABLE_RAW_SIZE_MARK_MASK : UInt8 := 0x03
def PORTABLE_RAW_SIZE_MARK_BYTE : UInt8 := 0
def PORTABLE_RAW_SIZE_MARK_WORD : UInt8 := 1
def PORTABLE_RAW_SIZE_MARK_DWORD : UInt8 := 2

def BIN_KV_SERIALIZE_TYPE_INT64 : UInt8 := 1
def BIN_KV_SERIALIZE_TYPE_INT32 : UInt8 := 2
def BIN_KV_SERIALIZE_TYPE_INT16 : UInt8 := 3
def BIN_KV_SERIALIZE_TYPE_INT8 : UInt8 := 4
def BIN_KV_SERIALIZE_TYPE_UINT64 : UInt8 := 5
def BIN_KV_SERIALIZE_TYPE_UINT32 : UInt8 := 6
def BIN_KV_SERIALIZE_TYPE_UINT16 : UInt8 := 7
def BIN_KV_SERIALIZE_TYPE_UINT8 : UInt8 := 8
def BIN_KV_SERIALIZE_TYPE_DOUBLE : UInt8 := 9
def BIN_KV_SERIALIZE_TYPE_STRING : UInt8 := 10
def BIN_KV_SERIALIZE_TYPE_BOOL : UInt8 := 11
def BIN_KV_SERIALIZE_TYPE_OBJECT : UInt8 := 12
def BIN_KV_SERIALIZE_TYPE_ARRAY : UInt8 := 13
def BIN_KV_SERIALIZE_FLAG_ARRAY : UInt8 := 0x80

/-- What `read(IInputStream&, data, size)` throws when the stream ends first. -/
def readFailed : ParseError := .exception "Reading from IInputStream failed"

/-- `read(s, data, size)`: `size` bytes. -/
@[grind] def readBytes (size : Nat) : Parser UInt8 ParseError (List UInt8) := fun s =>
  if size ≤ s.length then .ok (s.take size, s.drop size) else .error readFailed

/-- `readPod<uint8_t>`. -/
@[grind] def readByte : Parser UInt8 ParseError UInt8
  | [] => .error readFailed
  | b :: s => .ok (b, s)

/-- Bytes as a little-endian number. -/
def littleEndian : List UInt8 → Nat
  | [] => 0
  | b :: bs => b.toNat + 256 * littleEndian bs

/-- The `switch` of `readVarint`: how many bytes follow the first, by its size mark. -/
def bytesLeft (sizeMask : UInt8) : Nat :=
  if sizeMask = PORTABLE_RAW_SIZE_MARK_BYTE then 0
  else if sizeMask = PORTABLE_RAW_SIZE_MARK_WORD then 1
  else if sizeMask = PORTABLE_RAW_SIZE_MARK_DWORD then 3
  else 7

/-- `readVarint`: the two low bits of the first byte say how many bytes follow;
the value is the whole shifted right by two. -/
def readVarint (s : List UInt8) : Except ParseError (Nat × List UInt8) :=
  match readByte s with
  | .error e => .error e
  | .ok (b, s) =>
    match readBytes (bytesLeft (b &&& PORTABLE_RAW_SIZE_MARK_MASK)) s with
    | .error e => .error e
    | .ok (rest, s) => .ok ((b.toNat + 256 * littleEndian rest) / 4, s)

/-- `readString`: a varint size, at most 128 MiB, and that many bytes. -/
@[grind] def readString (s : List UInt8) : Except ParseError (List UInt8 × List UInt8) :=
  match readVarint s with
  | .error e => .error e
  | .ok (size, s) =>
    if size > 128 * 1024 * 1024 then .error (.exception "string size is too big")
    else readBytes size s

/-- `readStringJson`: a string value. -/
@[grind] def readStringJson (s : List UInt8) : Except ParseError (JsonValue × List UInt8) :=
  match readString s with
  | .error e => .error e
  | .ok (str, s) => .ok (.string str, s)

/-- `readName(s, name)`: a length byte and that many bytes; a length of `0`
leaves `name` as the previous entry left it. -/
def readName (name : List UInt8) (s : List UInt8) : Except ParseError (List UInt8 × List UInt8) :=
  match readByte s with
  | .error e => .error e
  | .ok (len, s) => if len ≠ 0 then readBytes len.toNat s else .ok (name, s)

/-- `readIntegerJson<T>`: a little-endian integer of `width` bytes, signed or
not, cast to `int64_t`. -/
@[grind] def readIntegerJson (width : Nat) (signed : Bool) (s : List UInt8) : Except ParseError (JsonValue × List UInt8) :=
  match readBytes width s with
  | .error e => .error e
  | .ok (bytes, s) =>
    let v := littleEndian bytes
    let v : Int := if signed ∧ 2 ^ (8 * width - 1) ≤ v then v - 2 ^ (8 * width) else v
    .ok (.integer (Int64.ofInt v), s)

/-- `readPodJson<double>`: the eight bytes of a `double`. -/
@[grind] def readDoubleJson (s : List UInt8) : Except ParseError (JsonValue × List UInt8) :=
  match readBytes 8 s with
  | .error e => .error e
  | .ok (bytes, s) => .ok (.real (UInt64.ofNat (littleEndian bytes)), s)

/-- One turn of the loop of `loadSection`: a name and an entry, inserted. -/
@[grind] def sectionTurn (entry : Parser UInt8 ParseError JsonValue) (state : List UInt8 × List (List UInt8 × JsonValue)) :
    Parser UInt8 ParseError (List UInt8 × List (List UInt8 × JsonValue)) := fun s =>
  match readName state.1 s with
  | .error e => .error e
  | .ok (name, s) =>
    match entry s with
    | .error e => .error e
    | .ok (v, s) => .ok ((name, JsonValue.insert state.2 name v), s)

/-- One turn of the loop of `loadArray`: a value, pushed back. -/
@[grind] def arrayTurn (value : Parser UInt8 ParseError JsonValue) (items : List JsonValue) :
    Parser UInt8 ParseError (List JsonValue) := fun s =>
  match value s with
  | .error e => .error e
  | .ok (v, s) => .ok (items ++ [v], s)

mutual

/-- `loadSection`, with room for `d` frames: a varint count of named entries. -/
@[grind] def loadSection : Nat → Parser UInt8 ParseError JsonValue
  | 0, _ => .error .stackOverflow
  | d + 1, s =>
    match readVarint s with
    | .error e => .error e
    | .ok (count, s) =>
      match iterate (sectionTurn (loadEntry d)) count ([], []) s with
      | .error e => .error e
      | .ok ((_, sec), s) => .ok (.object sec, s)

/-- `loadValue(stream, type)`: an array value is an array of items of type
array. -/
@[grind] def loadValue : Nat → UInt8 → Parser UInt8 ParseError JsonValue
  | 0, _, _ => .error .stackOverflow
  | d + 1, type, s =>
    if type = BIN_KV_SERIALIZE_TYPE_INT64 then readIntegerJson 8 true s
    else if type = BIN_KV_SERIALIZE_TYPE_INT32 then readIntegerJson 4 true s
    else if type = BIN_KV_SERIALIZE_TYPE_INT16 then readIntegerJson 2 true s
    else if type = BIN_KV_SERIALIZE_TYPE_INT8 then readIntegerJson 1 true s
    else if type = BIN_KV_SERIALIZE_TYPE_UINT64 then readIntegerJson 8 false s
    else if type = BIN_KV_SERIALIZE_TYPE_UINT32 then readIntegerJson 4 false s
    else if type = BIN_KV_SERIALIZE_TYPE_UINT16 then readIntegerJson 2 false s
    else if type = BIN_KV_SERIALIZE_TYPE_UINT8 then readIntegerJson 1 false s
    else if type = BIN_KV_SERIALIZE_TYPE_DOUBLE then readDoubleJson s
    else if type = BIN_KV_SERIALIZE_TYPE_BOOL then
      match readByte s with
      | .error e => .error e
      | .ok (b, s) => .ok (.bool (b ≠ 0), s)
    else if type = BIN_KV_SERIALIZE_TYPE_STRING then readStringJson s
    else if type = BIN_KV_SERIALIZE_TYPE_OBJECT then loadSection d s
    else if type = BIN_KV_SERIALIZE_TYPE_ARRAY then loadArray d type s
    else .error (.exception "Unknown data type")

/-- `loadEntry`: a type byte, whose array flag makes the entry an array of
items of the type without the flag. -/
@[grind] def loadEntry : Nat → Parser UInt8 ParseError JsonValue
  | 0, _ => .error .stackOverflow
  | d + 1, s =>
    match readByte s with
    | .error e => .error e
    | .ok (type, s) =>
      if type &&& BIN_KV_SERIALIZE_FLAG_ARRAY ≠ 0 then
        loadArray d (type &&& ~~~BIN_KV_SERIALIZE_FLAG_ARRAY) s
      else loadValue d type s

/-- `loadArray(stream, itemType)`: a varint count of values of the type. -/
@[grind] def loadArray : Nat → UInt8 → Parser UInt8 ParseError JsonValue
  | 0, _, _ => .error .stackOverflow
  | d + 1, itemType, s =>
    match readVarint s with
    | .error e => .error e
    | .ok (count, s) =>
      match iterate (arrayTurn (loadValue d itemType)) count [] s with
      | .error e => .error e
      | .ok (items, s) => .ok (.array items, s)

end

/-- `parseBinary(stream)`, with room for `d` frames: the header, its two
signatures and version checked, then the root section. What follows the section
is not looked at. -/
def parseBinary (d : Nat) (s : List UInt8) : Except ParseError JsonValue :=
  match readBytes 9 s with
  | .error e => .error e
  | .ok (hdr, s) =>
    if littleEndian (hdr.take 4) ≠ PORTABLE_STORAGE_SIGNATUREA ∨
        littleEndian ((hdr.drop 4).take 4) ≠ PORTABLE_STORAGE_SIGNATUREB then
      .error (.exception "Invalid binary storage signature")
    else if hdr.getD 8 0 ≠ PORTABLE_STORAGE_FORMAT_VER then
      .error (.exception "Unknown binary storage format version")
    else
      match loadSection d s with
      | .error e => .error e
      | .ok (v, _) => .ok v

end KVBinary

end Cn
