import ConcealCore.Spec.KVBinary
import ConcealCore.Lib.ByteFile

/-!
# Writing the portable-storage binary format

`KVBinaryOutputStreamSerializer` is the `ISerializer` the P2P commands are
written with. The calls a `serialize` makes (`beginObject`, `endObject`,
`beginArray`, `endArray`, and one `operator()` or `binary` for each value)
build in memory the bytes that `dump` writes after the storage header. The
serializer keeps a stack of levels, one for each open object or array, and a
stack of memory streams, one for each open object. An entry of an object is
written with its name and its type and counted in the object's level. An entry
of an array is written bare, after a preamble (the array's name, its type with
the array flag, and its size) that the first entry writes. The count of an
object is known only at `endObject`, which writes it in front of the object's
bytes into the stream of the object around it.

The stacks are lists with the innermost level first. A `throw` ends the run
with its message (`WriteError.exception`); the serializer is not used after
one. A call the source leaves undefined (`back()` of an empty stack) ends the
run with `WriteError.undefined`: the `assert`s of the release build check
nothing. A number is written in the bytes of its type, low first, as on the
little-endian hosts the daemon runs on, and a `double` as the bits of its IEEE
value.
-/

namespace Cn

namespace KVBinary

open ByteFile

def PORTABLE_RAW_SIZE_MARK_INT64 : UInt8 := 3

/-- How a run of the writer ends short of its bytes. -/
inductive WriteError
  /-- A `std::runtime_error`, with its `what()`. -/
  | exception (what : String)
  /-- A call on an empty stack, which the source leaves undefined. -/
  | undefined
  deriving DecidableEq, Repr

/-- `packVarint<T>(s, type_or, pv)`: `pv` shifted two bits up with the size
mark in the two low bits, in the `width` bytes of `T`; the cast to `T` keeps
the low bytes. -/
def packVarint (width : Nat) (typeOr : UInt8) (pv : Nat) : List UInt8 :=
  leBytes width (pv <<< 2 ||| typeOr.toNat)

/-- `writeArraySize(s, val)`: the fewest of one, two, four or eight bytes that
hold the value shifted by two. -/
def writeArraySize (val : Nat) : Except WriteError (List UInt8) :=
  if val ≤ 63 then .ok (packVarint 1 PORTABLE_RAW_SIZE_MARK_BYTE val)
  else if val ≤ 16383 then .ok (packVarint 2 PORTABLE_RAW_SIZE_MARK_WORD val)
  else if val ≤ 1073741823 then .ok (packVarint 4 PORTABLE_RAW_SIZE_MARK_DWORD val)
  else if val > 4611686018427387903 then .error (.exception "failed to pack varint - too big amount")
  else .ok (packVarint 8 PORTABLE_RAW_SIZE_MARK_INT64 val)

/-- `writeElementName(s, name)`: a length byte, then the name. -/
def writeElementName (name : List UInt8) : Except WriteError (List UInt8) :=
  if name.length > 255 then .error (.exception "Element name is too long")
  else .ok (UInt8.ofNat name.length :: name)

/-- `KVBinaryStorageBlockHeader` as `dump` fills it in, packed: the two
signatures and the format version. -/
def storageBlockHeader : List UInt8 :=
  leBytes 4 PORTABLE_STORAGE_SIGNATUREA ++ leBytes 4 PORTABLE_STORAGE_SIGNATUREB ++ [PORTABLE_STORAGE_FORMAT_VER]

/-- `KVBinaryOutputStreamSerializer::State`. -/
inductive State
  | root
  | object
  | arrayPrefix
  | array
  deriving DecidableEq, Repr

/-- `KVBinaryOutputStreamSerializer::Level`: an object counts its entries; an
array holds the size it was given. -/
structure Level where
  state : State
  name : List UInt8
  count : Nat
  deriving DecidableEq, Repr

structure KVBinaryOutputStreamSerializer where
  /-- `m_objectsStack`: the bytes of each open object, innermost first. -/
  objectsStack : List (List UInt8)
  /-- `m_stack`, innermost first. -/
  stack : List Level
  deriving DecidableEq, Repr

/-- A value an `operator()` of `ISerializer` takes: a number of one of its
types, a `double` by its bits, a `bool`, or a string. -/
inductive Scalar
  | uint8 (value : UInt8)
  | int16 (value : Int16)
  | uint16 (value : UInt16)
  | int32 (value : Int32)
  | uint32 (value : UInt32)
  | int64 (value : Int64)
  | uint64 (value : UInt64)
  | double (bits : UInt64)
  | bool (value : Bool)
  | string (value : List UInt8)
  deriving DecidableEq, Repr

/-- The calls of `ISerializer` a `serialize` makes on the writer;
`binary(std::string&)` is `binary` of the string's bytes. -/
inductive Call
  | beginObject (name : List UInt8)
  | endObject
  | beginArray (size : Nat) (name : List UInt8)
  | endArray
  | value (v : Scalar) (name : List UInt8)
  | binary (value : List UInt8) (name : List UInt8)
  deriving DecidableEq, Repr

namespace KVBinaryOutputStreamSerializer

/-- The serializer the constructor makes: `beginObject(std::string())` on
empty stacks opens the root object. -/
def init : KVBinaryOutputStreamSerializer := ⟨[[]], [⟨.object, [], 0⟩]⟩

variable (ser : KVBinaryOutputStreamSerializer)

/-- `write(stream(), ...)`: bytes appended to the stream of the innermost open
object. -/
def write (bytes : List UInt8) : Except WriteError KVBinaryOutputStreamSerializer :=
  match ser.objectsStack with
  | [] => .error .undefined
  | out :: outs => .ok { ser with objectsStack := (out ++ bytes) :: outs }

/-- `checkArrayPreamble(type)`: at the first entry of an array, the array's
name, the entry's type with the array flag and the array's size; the array then
takes its entries. -/
@[grind] def checkArrayPreamble (type : UInt8) : Except WriteError KVBinaryOutputStreamSerializer :=
  match ser.stack with
  | [] => .ok ser
  | level :: levels =>
    if level.state = .arrayPrefix then do
      let name ← writeElementName level.name
      let size ← writeArraySize level.count
      let ser ← ser.write (name ++ [BIN_KV_SERIALIZE_FLAG_ARRAY ||| type] ++ size)
      pure { ser with stack := { level with state := .array } :: levels }
    else .ok ser

/-- `writeElementPrefix(type, name)`: in an object, the entry's name and type,
and the entry counted; in an array, nothing. An entry without a name is counted
and not written. -/
@[grind] def writeElementPrefix (type : UInt8) (name : List UInt8) : Except WriteError KVBinaryOutputStreamSerializer := do
  let ser ← ser.checkArrayPreamble type
  match ser.stack with
  | [] => .error .undefined
  | level :: levels =>
    if level.state = .array then pure ser
    else
      let ser ← if name.isEmpty then pure ser
        else do
          let nameBytes ← writeElementName name
          ser.write (nameBytes ++ [type])
      pure { ser with stack := { level with count := level.count + 1 } :: levels }

/-- `operator()(value, name)` of a number or a `bool`: the prefix, then
`writePod` of the value. -/
def writeValue (type : UInt8) (bytes : List UInt8) (name : List UInt8) :
    Except WriteError KVBinaryOutputStreamSerializer := do
  let ser ← ser.writeElementPrefix type name
  ser.write bytes

def writeUInt8 (value : UInt8) (name : List UInt8) : Except WriteError KVBinaryOutputStreamSerializer :=
  ser.writeValue BIN_KV_SERIALIZE_TYPE_UINT8 (leBytes 1 value.toNat) name

def writeUInt16 (value : UInt16) (name : List UInt8) : Except WriteError KVBinaryOutputStreamSerializer :=
  ser.writeValue BIN_KV_SERIALIZE_TYPE_UINT16 (leBytes 2 value.toNat) name

def writeInt16 (value : Int16) (name : List UInt8) : Except WriteError KVBinaryOutputStreamSerializer :=
  ser.writeValue BIN_KV_SERIALIZE_TYPE_INT16 (leBytes 2 value.toUInt16.toNat) name

def writeUInt32 (value : UInt32) (name : List UInt8) : Except WriteError KVBinaryOutputStreamSerializer :=
  ser.writeValue BIN_KV_SERIALIZE_TYPE_UINT32 (leBytes 4 value.toNat) name

def writeInt32 (value : Int32) (name : List UInt8) : Except WriteError KVBinaryOutputStreamSerializer :=
  ser.writeValue BIN_KV_SERIALIZE_TYPE_INT32 (leBytes 4 value.toUInt32.toNat) name

def writeInt64 (value : Int64) (name : List UInt8) : Except WriteError KVBinaryOutputStreamSerializer :=
  ser.writeValue BIN_KV_SERIALIZE_TYPE_INT64 (leBytes 8 value.toUInt64.toNat) name

def writeUInt64 (value : UInt64) (name : List UInt8) : Except WriteError KVBinaryOutputStreamSerializer :=
  ser.writeValue BIN_KV_SERIALIZE_TYPE_UINT64 (leBytes 8 value.toNat) name

/-- A `bool` is one byte, `1` or `0`. -/
def writeBool (value : Bool) (name : List UInt8) : Except WriteError KVBinaryOutputStreamSerializer :=
  ser.writeValue BIN_KV_SERIALIZE_TYPE_BOOL [if value then 1 else 0] name

def writeDouble (bits : UInt64) (name : List UInt8) : Except WriteError KVBinaryOutputStreamSerializer :=
  ser.writeValue BIN_KV_SERIALIZE_TYPE_DOUBLE (leBytes 8 bits.toNat) name

/-- `operator()(std::string&, name)`: the prefix, the size, the bytes. -/
def writeString (value : List UInt8) (name : List UInt8) : Except WriteError KVBinaryOutputStreamSerializer := do
  let ser ← ser.writeElementPrefix BIN_KV_SERIALIZE_TYPE_STRING name
  let size ← writeArraySize value.length
  ser.write (size ++ value)

/-- `binary(value, size, name)`: a block of bytes is written as a string, and
an empty one not at all. -/
def binary (value : List UInt8) (name : List UInt8) : Except WriteError KVBinaryOutputStreamSerializer :=
  if value.length > 0 then ser.writeString value name else .ok ser

/-- `beginObject(name)`: a level and a stream for the object, after the
preamble of the array it is the first entry of. -/
@[grind] def beginObject (name : List UInt8) : Except WriteError KVBinaryOutputStreamSerializer := do
  let ser ← ser.checkArrayPreamble BIN_KV_SERIALIZE_TYPE_OBJECT
  pure ⟨[] :: ser.objectsStack, ⟨.object, name, 0⟩ :: ser.stack⟩

/-- `endObject()`: the object's level and stream closed, and the object written
as an entry of the level around it: its count, then its bytes. -/
def endObject : Except WriteError KVBinaryOutputStreamSerializer :=
  match ser.stack, ser.objectsStack with
  | level :: levels, objStream :: outs => do
    let ser ← (⟨outs, levels⟩ : KVBinaryOutputStreamSerializer).writeElementPrefix
      BIN_KV_SERIALIZE_TYPE_OBJECT level.name
    let size ← writeArraySize level.count
    ser.write (size ++ objStream)
  | _, _ => .error .undefined

/-- `beginArray(size, name)`: a level that holds the size until the first
entry writes the preamble. -/
def beginArray (size : Nat) (name : List UInt8) : Except WriteError KVBinaryOutputStreamSerializer :=
  .ok { ser with stack := ⟨.arrayPrefix, name, size⟩ :: ser.stack }

/-- `endArray()`: the array's level closed. An array whose preamble was written
counts as an entry of the object around it; one with no entry leaves nothing. -/
def endArray : Except WriteError KVBinaryOutputStreamSerializer :=
  match ser.stack with
  | level :: parent :: levels =>
    if parent.state = .object ∧ level.state = .array then
      .ok { ser with stack := { parent with count := parent.count + 1 } :: levels }
    else .ok { ser with stack := parent :: levels }
  | _ => .error .undefined

/-- One call on the serializer, by the overload it selects. -/
@[grind] def apply : Call → Except WriteError KVBinaryOutputStreamSerializer
  | .beginObject name => ser.beginObject name
  | .endObject => ser.endObject
  | .beginArray size name => ser.beginArray size name
  | .endArray => ser.endArray
  | .value (.uint8 v) name => ser.writeUInt8 v name
  | .value (.int16 v) name => ser.writeInt16 v name
  | .value (.uint16 v) name => ser.writeUInt16 v name
  | .value (.int32 v) name => ser.writeInt32 v name
  | .value (.uint32 v) name => ser.writeUInt32 v name
  | .value (.int64 v) name => ser.writeInt64 v name
  | .value (.uint64 v) name => ser.writeUInt64 v name
  | .value (.double bits) name => ser.writeDouble bits name
  | .value (.bool v) name => ser.writeBool v name
  | .value (.string v) name => ser.writeString v name
  | .binary value name => ser.binary value name

/-- The calls one after the other, stopping at the first that throws. -/
def run (calls : List Call) : Except WriteError KVBinaryOutputStreamSerializer :=
  calls.foldlM apply ser

/-- `dump(target)`: the header, the count of the root and the root's bytes. The
release build does not check that only the root is open: the count is that of
the outermost level and the bytes those of the innermost stream. -/
def dump : Except WriteError (List UInt8) :=
  match ser.stack.getLast?, ser.objectsStack with
  | some root, out :: _ => do
    let size ← writeArraySize root.count
    pure (storageBlockHeader ++ size ++ out)
  | _, _ => .error .undefined

end KVBinaryOutputStreamSerializer

end KVBinary

end Cn
