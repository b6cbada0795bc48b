import ConcealCore.Spec.KVBinaryOutput

/-!
# Documents of the portable-storage format

What a `serialize` writes with `KVBinaryOutputStreamSerializer` is a document
(`Doc`): scalars, objects of named entries, and arrays of entries.
`Doc.calls` are the calls its `serialize` makes, an array's entries without a
name as `serializeContainer` makes them. `Doc.toJsonValue` is what the document
means as the `JsonValue` the reader builds: an object is its entries inserted
into a `std::map`, a number the `int64_t` it is cast to, a `double` its bits.
The format's grammar (`Doc.entryBytes`, `Doc.valueBytes`) sits between the
two sides, and `Doc.wellFormed` says which documents both sides take.
-/

namespace Cn

namespace KVBinary

open ByteFile

/-- A value as the calls of its `serialize` describe it. -/
inductive Doc
  | scalar (v : Scalar)
  | object (members : List (List UInt8 × Doc))
  | array (items : List Doc)

/-- The largest count `writeArraySize` packs. -/
@[grind] def MAX_PACKED_SIZE : Nat := 4611686018427387903

/-- The bytes `writeArraySize` writes for a count it packs. -/
def sizeBytes (val : Nat) : List UInt8 :=
  if val ≤ 63 then packVarint 1 PORTABLE_RAW_SIZE_MARK_BYTE val
  else if val ≤ 16383 then packVarint 2 PORTABLE_RAW_SIZE_MARK_WORD val
  else if val ≤ 1073741823 then packVarint 4 PORTABLE_RAW_SIZE_MARK_DWORD val
  else packVarint 8 PORTABLE_RAW_SIZE_MARK_INT64 val

/-- The bytes `writeElementName` writes for a name it takes. -/
def nameBytes (name : List UInt8) : List UInt8 := UInt8.ofNat name.length :: name

namespace Scalar

/-- The type `operator()` writes for the value. -/
@[grind] def type : Scalar → UInt8
  | .uint8 _ => BIN_KV_SERIALIZE_TYPE_UINT8
  | .int16 _ => BIN_KV_SERIALIZE_TYPE_INT16
  | .uint16 _ => BIN_KV_SERIALIZE_TYPE_UINT16
  | .int32 _ => BIN_KV_SERIALIZE_TYPE_INT32
  | .uint32 _ => BIN_KV_SERIALIZE_TYPE_UINT32
  | .int64 _ => BIN_KV_SERIALIZE_TYPE_INT64
  | .uint64 _ => BIN_KV_SERIALIZE_TYPE_UINT64
  | .double _ => BIN_KV_SERIALIZE_TYPE_DOUBLE
  | .bool _ => BIN_KV_SERIALIZE_TYPE_BOOL
  | .string _ => BIN_KV_SERIALIZE_TYPE_STRING

/-- The bytes `operator()` writes after the value's prefix. -/
@[grind] def bytes : Scalar → List UInt8
  | .uint8 v => leBytes 1 v.toNat
  | .int16 v => leBytes 2 v.toUInt16.toNat
  | .uint16 v => leBytes 2 v.toNat
  | .int32 v => leBytes 4 v.toUInt32.toNat
  | .uint32 v => leBytes 4 v.toNat
  | .int64 v => leBytes 8 v.toUInt64.toNat
  | .uint64 v => leBytes 8 v.toNat
  | .double bits => leBytes 8 bits.toNat
  | .bool v => [if v then 1 else 0]
  | .string s => sizeBytes s.length ++ s

/-- The value as a `JsonValue`: a number as the `int64_t` it is cast to. -/
def toJsonValue : Scalar → JsonValue
  | .uint8 v => .integer (Int64.ofNat v.toNat)
  | .int16 v => .integer (Int64.ofInt v.toInt)
  | .uint16 v => .integer (Int64.ofNat v.toNat)
  | .int32 v => .integer (Int64.ofInt v.toInt)
  | .uint32 v => .integer (Int64.ofNat v.toNat)
  | .int64 v => .integer v
  | .uint64 v => .integer (Int64.ofNat v.toNat)
  | .double bits => .real bits
  | .bool v => .bool v
  | .string s => .string s

/-- A string is at most the 128 MiB `readString` takes. -/
def fits : Scalar → Bool
  | .string s => decide (s.length ≤ 128 * 1024 * 1024)
  | _ => true

end Scalar

namespace Doc

/-- The type of the document as the entry of an array. -/
@[grind] def itemType : Doc → UInt8
  | .scalar v => v.type
  | .object _ => BIN_KV_SERIALIZE_TYPE_OBJECT
  | .array _ => BIN_KV_SERIALIZE_TYPE_ARRAY

/-- Not an array: what an array can hold. -/
@[grind] def isItem : Doc → Bool
  | .array _ => false
  | _ => true

/-- The type an array's preamble writes: that of its first entry. -/
def firstType : List Doc → UInt8
  | [] => 0
  | d :: _ => d.itemType

mutual

/-- The calls of `serialize` for a document under a name: an `operator()`; an
object's `beginObject`, entries and `endObject`; an array's `beginArray`,
entries without a name and `endArray`. -/
def calls (name : List UInt8) : Doc → List Call
  | .scalar v => [.value v name]
  | .object members => .beginObject name :: membersCalls members ++ [.endObject]
  | .array items => .beginArray items.length name :: itemsCalls items ++ [.endArray]

def membersCalls : List (List UInt8 × Doc) → List Call
  | [] => []
  | (name, d) :: members => calls name d ++ membersCalls members

def itemsCalls : List Doc → List Call
  | [] => []
  | d :: items => calls [] d ++ itemsCalls items

end

mutual

/-- The nesting of objects and arrays. -/
def depth : Doc → Nat
  | .scalar _ => 0
  | .object members => membersDepth members + 1
  | .array items => itemsDepth items + 1

def membersDepth : List (List UInt8 × Doc) → Nat
  | [] => 0
  | (_, d) :: members => max (depth d) (membersDepth members)

def itemsDepth : List Doc → Nat
  | [] => 0
  | d :: items => max (depth d) (itemsDepth items)

end

mutual

/-- What the document means as the `JsonValue` the reader builds. -/
def toJsonValue : Doc → JsonValue
  | .scalar v => v.toJsonValue
  | .object members => .object (membersJson members [])
  | .array items => .array (itemsJson items)

/-- The entries inserted, one after the other, into the members `acc`. -/
def membersJson : List (List UInt8 × Doc) → List (List UInt8 × JsonValue) → List (List UInt8 × JsonValue)
  | [], acc => acc
  | (name, d) :: members, acc => membersJson members (JsonValue.insert acc name (toJsonValue d))

def itemsJson : List Doc → List JsonValue
  | [] => []
  | d :: items => toJsonValue d :: itemsJson items

end

mutual

/-- The documents both sides take: the entries of an object have names of one
to 255 bytes; an array has entries, all of the type of its first and none an
array; no count is past what `writeArraySize` packs and no string longer than
`readString` takes. -/
@[grind] def wellFormed : Doc → Bool
  | .scalar v => v.fits
  | .object members => decide (members.length ≤ MAX_PACKED_SIZE) && membersWellFormed members
  | .array items => !items.isEmpty && decide (items.length ≤ MAX_PACKED_SIZE) &&
      itemsWellFormed (firstType items) items

def membersWellFormed : List (List UInt8 × Doc) → Bool
  | [] => true
  | (name, d) :: members => !name.isEmpty && decide (name.length ≤ 255) && wellFormed d &&
      membersWellFormed members

def itemsWellFormed (type : UInt8) : List Doc → Bool
  | [] => true
  | d :: items => isItem d && itemType d == type && wellFormed d && itemsWellFormed type items

end

mutual

/-- The bytes of an entry after its name: its type and its value; for an array,
the type of its entries with the array flag, the count and the entries. -/
def entryBytes : Doc → List UInt8
  | .scalar v => v.type :: v.bytes
  | .object members => BIN_KV_SERIALIZE_TYPE_OBJECT :: (sizeBytes members.length ++ membersBytes members)
  | .array items => (BIN_KV_SERIALIZE_FLAG_ARRAY ||| firstType items) :: (sizeBytes items.length ++ itemsBytes items)

/-- The bytes of an entry of an array: a scalar's, or an object's count and
entries. -/
def valueBytes : Doc → List UInt8
  | .scalar v => v.bytes
  | .object members => sizeBytes members.length ++ membersBytes members
  | .array _ => []

def membersBytes : List (List UInt8 × Doc) → List UInt8
  | [] => []
  | (name, d) :: members => nameBytes name ++ entryBytes d ++ membersBytes members

def itemsBytes : List Doc → List UInt8
  | [] => []
  | d :: items => valueBytes d ++ itemsBytes items

end

/-- Induction over documents, with the entries of an object or an array as the
smaller cases. -/
theorem rec_members {motive : Doc → Prop} (scalar : ∀ v, motive (.scalar v))
    (object : ∀ members, (∀ m ∈ members, motive m.2) → motive (.object members))
    (array : ∀ items, (∀ d ∈ items, motive d) → motive (.array items)) : ∀ d, motive d := by
  intro d
  exact go d
where
  go : ∀ d, motive d
    | .scalar v => scalar v
    | .object members => object members (goMembers members)
    | .array items => array items (goItems items)
  goMembers : ∀ members : List (List UInt8 × Doc), ∀ m ∈ members, motive m.2
    | [] => fun _ h => absurd h List.not_mem_nil
    | (_, d) :: members => fun m h =>
      (List.mem_cons.mp h).elim (fun hm => hm ▸ go d) (goMembers members m)
  goItems : ∀ items : List Doc, ∀ e ∈ items, motive e
    | [] => fun _ h => absurd h List.not_mem_nil
    | d :: items => fun e h =>
      (List.mem_cons.mp h).elim (fun he => he ▸ go d) (goItems items e)

/-! Each list the mutual definitions walk is a `flatMap`, `foldl` or `map`, and
each list condition a statement about every element. -/

theorem membersCalls_eq (members : List (List UInt8 × Doc)) :
    membersCalls members = members.flatMap fun m => calls m.1 m.2 := by
  induction members with
  | nil => rfl
  | cons m members ih => simp [membersCalls, ih]

theorem itemsCalls_eq (items : List Doc) : itemsCalls items = items.flatMap (calls []) := by
  induction items with
  | nil => rfl
  | cons d items ih => simp [itemsCalls, ih]

theorem membersBytes_eq (members : List (List UInt8 × Doc)) :
    membersBytes members = members.flatMap fun m => nameBytes m.1 ++ entryBytes m.2 := by
  induction members with
  | nil => rfl
  | cons m members ih => simp [membersBytes, ih]

theorem itemsBytes_eq (items : List Doc) : itemsBytes items = items.flatMap valueBytes := by
  induction items with
  | nil => rfl
  | cons d items ih => simp [itemsBytes, ih]

theorem membersJson_eq (members : List (List UInt8 × Doc)) (acc : List (List UInt8 × JsonValue)) :
    membersJson members acc = members.foldl (fun acc m => JsonValue.insert acc m.1 (toJsonValue m.2)) acc := by
  induction members generalizing acc with
  | nil => rfl
  | cons m members ih => simp [membersJson, ih]

theorem membersWellFormed_iff {members : List (List UInt8 × Doc)} :
    membersWellFormed members = true ↔
      ∀ m ∈ members, m.1 ≠ [] ∧ m.1.length ≤ 255 ∧ wellFormed m.2 = true := by
  induction members with
  | nil => simp [membersWellFormed]
  | cons m members ih => simp [membersWellFormed, ih, and_assoc]

theorem itemsWellFormed_iff {type : UInt8} {items : List Doc} :
    itemsWellFormed type items = true ↔
      ∀ d ∈ items, isItem d = true ∧ itemType d = type ∧ wellFormed d = true := by
  induction items with
  | nil => simp [itemsWellFormed]
  | cons d items ih => simp [itemsWellFormed, ih, and_assoc]

theorem depth_le_membersDepth {members : List (List UInt8 × Doc)} {m : List UInt8 × Doc} (hm : m ∈ members) :
    depth m.2 ≤ membersDepth members := by
  induction members with
  | nil => exact absurd hm List.not_mem_nil
  | cons m' members ih =>
    rcases List.mem_cons.mp hm with rfl | hm
    · exact le_max_left _ _
    · exact le_trans (ih hm) (le_max_right _ _)

theorem depth_le_itemsDepth {items : List Doc} {d : Doc} (hd : d ∈ items) : depth d ≤ itemsDepth items := by
  induction items with
  | nil => exact absurd hd List.not_mem_nil
  | cons d' items ih =>
    rcases List.mem_cons.mp hd with rfl | hd
    · exact le_max_left _ _
    · exact le_trans (ih hd) (le_max_right _ _)

end Doc

end KVBinary

end Cn
