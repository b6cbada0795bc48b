import ConcealCore.Lib.ByteFile

/-!
# The swapped vector

`SwappedVector<T>` keeps the blocks of the chain on disk. The items file holds
the items' serializations one after the other; the index file holds their count
(eight bytes) and then each item's size (four bytes), from which `open`
rebuilds where each item starts (`m_offsets`). At most `poolSize` decoded items
are kept in memory (`m_items`), in the order of `m_cache`, least recently used
first; `operator[]` answers from there and otherwise reads the item from its
offset and caches it, pushing out the oldest one when the pool is full.

`push_back` writes the item at the end of the items file, its size and the new
count to the index file, and caches it; `pop_back` writes the count and drops
the last item's cache entry; `clear` writes a zero count. `replace` writes the
item's bytes over the old ones at the item's offset and nothing else: the
cache, the recorded size and the following items stay as they were.

The files are byte lists and the binary serializer of `T` is a parameter
(`Codec`). The streams' fail states are not modelled: every write succeeds.
-/

namespace Cn

open ByteFile

/-- The binary serializer of `T` as `serialize(item, archive)` runs it: the
bytes it writes, and what it reads from the start of some bytes, with the rest;
a read that fails throws its own text. -/
structure Codec (T : Type) where
  write : T → List UInt8
  read : List UInt8 → Except String (T × List UInt8)

/-- The two files of a swapped vector on disk; `none` where a file does not
exist. -/
structure SwappedFiles where
  items : Option (List UInt8)
  indexes : Option (List UInt8)

/-- An opened `SwappedVector<T>`: the contents of `m_itemsFile` and
`m_indexesFile`, `m_poolSize`, `m_offsets`, `m_itemsFileSize`, and `m_items` in
the order of `m_cache`. -/
structure SwappedVector (T : Type) where
  itemsFile : List UInt8
  indexesFile : List UInt8
  poolSize : ℕ
  offsets : List ℕ
  itemsFileSize : ℕ
  cache : List (ℕ × T)

namespace SwappedVector

variable {T : Type} (codec : Codec T)

/-- The loop of `open` over the item sizes of the index file: each item starts
where the ones before it end; `none` where the file ends first. -/
@[grind] def openFiles.loop : ℕ → List UInt8 → List ℕ → ℕ → Option (List ℕ × ℕ)
  | 0, _, offsets, itemsFileSize => some (offsets, itemsFileSize)
  | count + 1, b0 :: b1 :: b2 :: b3 :: rest, offsets, itemsFileSize =>
    openFiles.loop count rest (offsets ++ [itemsFileSize]) (itemsFileSize + ofLEBytes [b0, b1, b2, b3])
  | _ + 1, _, _, _ => none

/-- `open(itemFileName, indexFileName, poolSize)`: the opened vector, or `none`
where it returns `false`. Where both files exist, the count and the sizes are
read from the index file. Otherwise the files are created with a count of zero;
an items file that exists is kept, its stream being open already when the
source tries to create it, and an index file that exists without an items file
makes the count's write fail for the same reason. -/
def openFiles (files : SwappedFiles) (poolSize : ℕ) : Option (SwappedVector T) :=
  if poolSize = 0 then none
  else
    match files.items, files.indexes with
    | some itemsFile, some indexesFile =>
      if indexesFile.length < 8 then none
      else
        match openFiles.loop (ofLEBytes (indexesFile.take 8)) (indexesFile.drop 8) [] 0 with
        | none => none
        | some (offsets, itemsFileSize) => some ⟨itemsFile, indexesFile, poolSize, offsets, itemsFileSize, []⟩
    | some itemsFile, none => some ⟨itemsFile, leBytes 8 0, poolSize, [], 0, []⟩
    | none, some _ => none
    | none, none => some ⟨[], leBytes 8 0, poolSize, [], 0, []⟩

/-- `close()`: the files as they are left on disk. -/
def close (v : SwappedVector T) : SwappedFiles := ⟨some v.itemsFile, some v.indexesFile⟩

/-- `size()`. -/
def size (v : SwappedVector T) : ℕ := v.offsets.length

/-- `prepare(index)`, with the item stored in the entry it makes: the oldest
entry is pushed out when the pool is full, and the new one is the most recent. -/
def prepare (index : ℕ) (item : T) (v : SwappedVector T) : SwappedVector T :=
  { v with cache := (if v.cache.length = v.poolSize then v.cache.tail else v.cache) ++ [(index, item)] }

/-- `operator[](index)`: the item and the vector after. A cached item is made the
most recent; another is read from its offset and cached. -/
def get (index : ℕ) (v : SwappedVector T) : Except String (T × SwappedVector T) :=
  match v.cache.find? (·.1 = index) with
  | some (_, item) => .ok (item, { v with cache := v.cache.filter (·.1 ≠ index) ++ [(index, item)] })
  | none =>
    match v.offsets[index]? with
    | none => .error "SwappedVector::operator[]"
    | some offset => do
      let (item, _) ← codec.read (v.itemsFile.drop offset)
      pure (item, v.prepare index item)

/-- `push_back(item)`: the item's bytes at the end of the items file, its size
(as a `uint32_t`) and the new count in the index file, and the item cached. -/
@[grind] def pushBack (item : T) (v : SwappedVector T) : SwappedVector T :=
  let bytes := codec.write item
  let itemsFileSize := v.itemsFileSize + bytes.length
  -- `static_cast<uint32_t>(itemsFileSize - m_itemsFileSize)`, four bytes
  let indexesFile := writeAt v.indexesFile (8 + 4 * v.offsets.length) (leBytes 4 (itemsFileSize - v.itemsFileSize))
  let indexesFile := writeAt indexesFile 0 (leBytes 8 (v.offsets.length + 1))
  prepare v.offsets.length item
    { v with
      itemsFile := writeAt v.itemsFile v.itemsFileSize bytes
      indexesFile := indexesFile
      offsets := v.offsets ++ [v.itemsFileSize]
      itemsFileSize := itemsFileSize }

/-- `pop_back()`: the new count in the index file, the end of the items set
back to the last item's offset, and that item's cache entry dropped. `back()` of an empty
vector is undefined; the model leaves it as it is. -/
@[grind] def popBack (v : SwappedVector T) : SwappedVector T :=
  match v.offsets.getLast? with
  | none => v
  | some last =>
    { v with
      indexesFile := writeAt v.indexesFile 0 (leBytes 8 (v.offsets.length - 1))
      offsets := v.offsets.dropLast
      itemsFileSize := last
      cache := v.cache.filter (·.1 ≠ v.offsets.length - 1) }

/-- `clear()`: a zero count in the index file, and nothing cached. -/
def clear (v : SwappedVector T) : SwappedVector T :=
  { v with indexesFile := writeAt v.indexesFile 0 (leBytes 8 0), offsets := [], itemsFileSize := 0, cache := [] }

/-- `replace(index, item)`: the item's bytes written at the old item's offset,
and nothing else changed. An index out of range is undefined in the source; the
model leaves the vector as it is. -/
def replace (index : ℕ) (item : T) (v : SwappedVector T) : SwappedVector T :=
  match v.offsets[index]? with
  | none => v
  | some offset => { v with itemsFile := writeAt v.itemsFile offset (codec.write item) }

/-! ## Runs -/

/-- A call on an opened vector. `reopen` is `close()` and then `open` of the
same files with the same pool size. -/
inductive Op (T : Type) where
  | pushBack (item : T)
  | popBack
  | clear
  | replace (index : ℕ) (item : T)
  | get (index : ℕ)
  | size
  | reopen

/-- What a call returns: `size()` and `operator[]`. -/
inductive Observation (T : Type) where
  | size (n : ℕ)
  | item (value : T)
deriving DecidableEq, Repr

/-- How a run stops early: a call throws, or `open` returns `false`. -/
inductive Failure where
  | thrown (what : String)
  | openFailed
deriving DecidableEq, Repr

/-- A run of calls: what they return, in order, and the vector after. -/
def run : SwappedVector T → List (Op T) → Except Failure (List (Observation T) × SwappedVector T)
  | v, [] => .ok ([], v)
  | v, .pushBack item :: ops => run (v.pushBack codec item) ops
  | v, .popBack :: ops => run v.popBack ops
  | v, .clear :: ops => run v.clear ops
  | v, .replace index item :: ops => run (v.replace codec index item) ops
  | v, .get index :: ops =>
    match v.get codec index with
    | .error what => .error (.thrown what)
    | .ok (item, v) => (run v ops).map fun (obs, w) => (.item item :: obs, w)
  | v, .size :: ops => (run v ops).map fun (obs, w) => (.size v.size :: obs, w)
  | v, .reopen :: ops =>
    match openFiles v.close v.poolSize with
    | none => .error .openFailed
    | some v => run v ops

end SwappedVector

/-- What a `std::vector<T>` returns to the same calls, and the vector after;
`none` where a call's precondition fails (an index out of range, a pop of an
empty vector), where the source's behaviour is undefined. -/
def vectorRun {T : Type} : List T → List (SwappedVector.Op T) → Option (List (SwappedVector.Observation T) × List T)
  | v, [] => some ([], v)
  | v, .pushBack item :: ops => vectorRun (v ++ [item]) ops
  | v, .popBack :: ops => if v.isEmpty then none else vectorRun v.dropLast ops
  | _, .clear :: ops => vectorRun [] ops
  | v, .replace index item :: ops => if index < v.length then vectorRun (v.set index item) ops else none
  | v, .get index :: ops =>
    match v[index]? with
    | none => none
    | some item => (vectorRun v ops).map fun (obs, w) => (.item item :: obs, w)
  | v, .size :: ops => (vectorRun v ops).map fun (obs, w) => (.size v.length :: obs, w)
  | v, .reopen :: ops => vectorRun v ops

end Cn
