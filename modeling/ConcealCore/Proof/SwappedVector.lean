import ConcealCore.Spec.SwappedVector

/-!
# The swapped vector against `std::vector`

`Holds codec v items` says that the files, offsets and cache of `v` hold the
vector `items`: the items file starts with the items' serializations in order,
the index file with their count and sizes, the offsets are where each item
starts, and every cached item is the item at its index.

Every call but `replace` keeps it (`Holds.pushBack`, `Holds.popBack`,
`Holds.clear`, `Holds.get`, `Holds.reopen`), with the answer `std::vector`
gives; so a run of them from freshly created files answers as `std::vector`
does (`run_refines`). `replace` keeps it only for an item that is not cached
and whose serialization has the old one's length (`Holds.replace`): it writes
the bytes and leaves the cache, so a cached item is answered stale
(`get_replace_of_cached`), and a longer item runs into the next one.
-/

namespace Cn

/-- The serializer reads back what it writes, and exactly that. -/
def Codec.RoundTrips {T : Type} (codec : Codec T) : Prop :=
  ∀ item rest, codec.read (codec.write item ++ rest) = .ok (item, rest)

namespace SwappedVector

open ByteFile

variable {T : Type} {codec : Codec T}

/-- The sizes of the items' serializations. -/
@[grind] def itemSizes (codec : Codec T) (items : List T) : List ℕ := items.map fun item => (codec.write item).length

/-- The start of the index file for these items: the count, then each size. -/
@[grind] def indexBytes (codec : Codec T) (items : List T) : List UInt8 :=
  leBytes 8 items.length ++ (itemSizes codec items).flatMap (leBytes 4)

/-- A cache of at most `poolSize` entries of distinct indices, each with the
item at its index. -/
structure CacheOf (items : List T) (poolSize : ℕ) (cache : List (ℕ × T)) : Prop where
  cached : ∀ e ∈ cache, items[e.1]? = some e.2
  nodup : (cache.map Prod.fst).Nodup
  length_le : cache.length ≤ poolSize

/-- The state of `v` holds the vector `items`. -/
structure Holds (codec : Codec T) (v : SwappedVector T) (items : List T) : Prop where
  offsets : v.offsets = offsetsFrom 0 (itemSizes codec items)
  itemsFileSize : v.itemsFileSize = (items.flatMap codec.write).length
  itemsFile : items.flatMap codec.write <+: v.itemsFile
  indexesFile : indexBytes codec items <+: v.indexesFile
  sizes : ∀ item ∈ items, (codec.write item).length < 2 ^ 32
  count : items.length < 2 ^ 64
  cache : CacheOf items v.poolSize v.cache
  poolSize_pos : 0 < v.poolSize

/-! ## The cache -/

namespace CacheOf

variable {items : List T} {poolSize : ℕ} {cache : List (ℕ × T)}

theorem nil (items : List T) (poolSize : ℕ) : CacheOf items poolSize [] :=
  ⟨by simp, List.nodup_nil, Nat.zero_le _⟩

theorem lt_length (h : CacheOf items poolSize cache) {e : ℕ × T} (he : e ∈ cache) : e.1 < items.length := by
  have := h.cached e he
  exact (List.getElem?_eq_some_iff.mp this).1

/-- `prepare`: a new entry for an index not cached, after the oldest entry is
pushed out of a full pool. -/
theorem prepare (h : CacheOf items poolSize cache) (hpos : 0 < poolSize) {index : ℕ} {item : T}
    (hfresh : index ∉ cache.map Prod.fst) (hitem : items[index]? = some item) :
    CacheOf items poolSize ((if cache.length = poolSize then cache.tail else cache) ++ [(index, item)]) := by
  -- what is kept of the old entries is a sublist of them
  have hsub : List.Sublist (if cache.length = poolSize then cache.tail else cache) cache := by
    split
    · exact List.tail_sublist cache
    · exact List.Sublist.refl cache
  refine ⟨?_, ?_, ?_⟩
  · intro e he
    rcases List.mem_append.mp he with he | he
    · exact h.cached e (hsub.subset he)
    · rw [List.mem_singleton.mp he]
      exact hitem
  · rw [List.map_append, List.nodup_append]
    refine ⟨(hsub.map Prod.fst).nodup h.nodup, List.nodup_singleton _, ?_⟩
    intro a ha b hb hab
    rw [List.map_singleton, List.mem_singleton] at hb
    have hindex : a = index := hab.trans hb
    exact hfresh (hindex ▸ (hsub.map Prod.fst).subset ha)
  · have := h.length_le
    split
    · simp only [List.length_append, List.length_tail, List.length_singleton]
      omega
    · simp only [List.length_append, List.length_singleton]
      omega

/-- A hit: the entry is made the most recent. -/
theorem touch (h : CacheOf items poolSize cache) {index : ℕ} {item : T} (hmem : (index, item) ∈ cache) :
    CacheOf items poolSize (cache.filter (·.1 ≠ index) ++ [(index, item)]) := by
  have hsub : List.Sublist (cache.filter (·.1 ≠ index)) cache := List.filter_sublist
  refine ⟨?_, ?_, ?_⟩
  · intro e he
    rcases List.mem_append.mp he with he | he
    · exact h.cached e (hsub.subset he)
    · rw [List.mem_singleton.mp he]
      exact h.cached _ hmem
  · rw [List.map_append, List.nodup_append]
    refine ⟨(hsub.map Prod.fst).nodup h.nodup, List.nodup_singleton _, ?_⟩
    intro a ha b hb
    rw [List.map_singleton, List.mem_singleton] at hb
    obtain ⟨e, he, rfl⟩ := List.mem_map.mp ha
    have hne := (List.mem_filter.mp he).2
    simp only [ne_eq, decide_eq_true_eq] at hne
    rw [hb]
    exact hne
  · -- the entry is among the old ones, so the filter drops at least one
    have hlt : (cache.filter (·.1 ≠ index)).length < cache.length :=
      List.length_filter_lt_length_iff_exists.mpr ⟨_, hmem, by simp⟩
    simp only [List.length_append, List.length_singleton]
    have := h.length_le
    omega

/-- An entry stays right when the vector grows. -/
theorem append (h : CacheOf items poolSize cache) (item : T) : CacheOf (items ++ [item]) poolSize cache := by
  refine ⟨fun e he => ?_, h.nodup, h.length_le⟩
  rw [List.getElem?_append_left (h.lt_length he)]
  exact h.cached e he

/-- `pop_back`: the last item's entry dropped. -/
theorem dropLast (h : CacheOf (items ++ [item]) poolSize cache) :
    CacheOf items poolSize (cache.filter (·.1 ≠ items.length)) := by
  have hsub : List.Sublist (cache.filter (·.1 ≠ items.length)) cache := List.filter_sublist
  refine ⟨fun e he => ?_, (hsub.map Prod.fst).nodup h.nodup, le_trans hsub.length_le h.length_le⟩
  have hne := (List.mem_filter.mp he).2
  simp only [ne_eq, decide_eq_true_eq] at hne
  have hlt := h.lt_length (hsub.subset he)
  rw [List.length_append, List.length_singleton] at hlt
  have hcached := h.cached e (hsub.subset he)
  rwa [List.getElem?_append_left (by omega)] at hcached

end CacheOf

/-! ## The layout of the files -/

section Layout

variable (codec : Codec T)

@[simp] theorem itemSizes_nil : itemSizes codec [] = [] := rfl

theorem itemSizes_append_singleton (items : List T) (item : T) :
    itemSizes codec (items ++ [item]) = itemSizes codec items ++ [(codec.write item).length] := by
  simp [itemSizes]

@[simp] theorem length_itemSizes (items : List T) : (itemSizes codec items).length = items.length := by
  simp [itemSizes]

/-- The end of the items is the sum of their sizes. -/
theorem length_flatMap_write (items : List T) :
    (items.flatMap codec.write).length = (itemSizes codec items).sum := by
  simp [itemSizes, List.length_flatMap]

theorem length_indexBytes (items : List T) : (indexBytes codec items).length = 8 + 4 * items.length := by
  simp [indexBytes, List.length_flatMap, itemSizes, Function.comp_def, List.map_const', mul_comm]

theorem indexBytes_append_singleton (items : List T) (item : T) :
    indexBytes codec (items ++ [item]) =
      leBytes 8 (items.length + 1) ++ (itemSizes codec items).flatMap (leBytes 4) ++
        leBytes 4 (codec.write item).length := by
  simp [indexBytes, itemSizes_append_singleton]

/-- Item `i` starts after the items before it. -/
theorem getElem_offsetsFrom_itemSizes (items : List T) {i : ℕ}
    (hi : i < (offsetsFrom 0 (itemSizes codec items)).length) :
    (offsetsFrom 0 (itemSizes codec items))[i] = ((items.take i).flatMap codec.write).length := by
  rw [getElem_offsetsFrom, length_flatMap_write, itemSizes, itemSizes, List.map_take, Nat.zero_add]

end Layout

/-! ## The calls, field by field -/

section Fields

variable (codec : Codec T) (v : SwappedVector T) (index : ℕ) (item : T)

@[simp] theorem cache_prepare :
    (v.prepare index item).cache = (if v.cache.length = v.poolSize then v.cache.tail else v.cache) ++ [(index, item)] :=
  rfl

/-- `prepare` changes only the cache. -/
theorem prepare_eq : v.prepare index item = { v with cache := (v.prepare index item).cache } := rfl

@[simp] theorem poolSize_pushBack : (v.pushBack codec item).poolSize = v.poolSize := rfl

@[simp] theorem offsets_pushBack : (v.pushBack codec item).offsets = v.offsets ++ [v.itemsFileSize] := rfl

@[simp] theorem itemsFileSize_pushBack :
    (v.pushBack codec item).itemsFileSize = v.itemsFileSize + (codec.write item).length := rfl

@[simp] theorem itemsFile_pushBack :
    (v.pushBack codec item).itemsFile = writeAt v.itemsFile v.itemsFileSize (codec.write item) := rfl

@[simp] theorem indexesFile_pushBack :
    (v.pushBack codec item).indexesFile =
      writeAt (writeAt v.indexesFile (8 + 4 * v.offsets.length)
        (leBytes 4 (v.itemsFileSize + (codec.write item).length - v.itemsFileSize))) 0
        (leBytes 8 (v.offsets.length + 1)) := rfl

@[simp] theorem cache_pushBack :
    (v.pushBack codec item).cache =
      (if v.cache.length = v.poolSize then v.cache.tail else v.cache) ++ [(v.offsets.length, item)] := rfl

theorem popBack_of_getLast? {last : ℕ} (hlast : v.offsets.getLast? = some last) :
    v.popBack =
      { v with
        indexesFile := writeAt v.indexesFile 0 (leBytes 8 (v.offsets.length - 1))
        offsets := v.offsets.dropLast
        itemsFileSize := last
        cache := v.cache.filter (·.1 ≠ v.offsets.length - 1) } := by
  rw [popBack, hlast]

/-- `replace` writes the items file only. -/
theorem replace_of_getElem? {offset : ℕ} (hoffset : v.offsets[index]? = some offset) :
    v.replace codec index item = { v with itemsFile := writeAt v.itemsFile offset (codec.write item) } := by
  rw [replace, hoffset]

@[simp] theorem cache_replace : (v.replace codec index item).cache = v.cache := by
  unfold replace
  split <;> rfl

end Fields

/-! ## Each call keeps the layout -/

namespace Holds

variable {v : SwappedVector T} {items : List T}

theorem length_offsets (h : Holds codec v items) : v.offsets.length = items.length := by
  rw [h.offsets, length_offsetsFrom, length_itemSizes]

theorem withCache (h : Holds codec v items) {cache : List (ℕ × T)} (hc : CacheOf items v.poolSize cache) :
    Holds codec { v with cache := cache } items :=
  ⟨h.offsets, h.itemsFileSize, h.itemsFile, h.indexesFile, h.sizes, h.count, hc, h.poolSize_pos⟩

/-- No entry is cached at the vector's length or beyond. -/
theorem not_mem_cache (h : Holds codec v items) {index : ℕ} (hle : items.length ≤ index) :
    index ∉ v.cache.map Prod.fst := by
  intro hmem
  obtain ⟨e, he, rfl⟩ := List.mem_map.mp hmem
  have := h.cache.lt_length he
  omega

/-- `push_back` appends the item. -/
theorem pushBack (h : Holds codec v items) (item : T) (hsize : (codec.write item).length < 2 ^ 32)
    (hcount : items.length + 1 < 2 ^ 64) : Holds codec (v.pushBack codec item) (items ++ [item]) := by
  have hlen := h.length_offsets
  have hend : v.itemsFileSize = (itemSizes codec items).sum := by
    rw [h.itemsFileSize, length_flatMap_write]
  refine ⟨?_, ?_, ?_, ?_, ?_, ?_, ?_, ?_⟩
  · -- the new item starts at the old end
    rw [offsets_pushBack, h.offsets, itemSizes_append_singleton, offsetsFrom_append_singleton, hend,
      Nat.zero_add]
  · rw [itemsFileSize_pushBack, h.itemsFileSize, List.flatMap_append, List.length_append, List.flatMap_singleton]
  · rw [itemsFile_pushBack, h.itemsFileSize, List.flatMap_append, List.flatMap_singleton]
    exact append_prefix_writeAt _ h.itemsFile
  · -- the size goes after the old ones, then the count is written over the old one
    rw [indexesFile_pushBack, hlen, Nat.add_sub_cancel_left, indexBytes_append_singleton]
    have hsizes : indexBytes codec items ++ leBytes 4 (codec.write item).length <+:
        writeAt v.indexesFile (8 + 4 * items.length) (leBytes 4 (codec.write item).length) := by
      rw [← length_indexBytes codec items]
      exact append_prefix_writeAt _ h.indexesFile
    rw [indexBytes, List.append_assoc] at hsizes
    have hcount' := overwrite_front hsizes ((length_leBytes 8 (items.length + 1)).trans (length_leBytes 8 _).symm)
    simpa [List.append_assoc] using hcount'
  · intro x hx
    rcases List.mem_append.mp hx with hx | hx
    · exact h.sizes x hx
    · rw [List.mem_singleton.mp hx]
      exact hsize
  · rw [List.length_append, List.length_singleton]
    exact hcount
  · rw [cache_pushBack, poolSize_pushBack, hlen]
    exact (h.cache.append item).prepare h.poolSize_pos (h.not_mem_cache le_rfl) (by simp)
  · exact h.poolSize_pos

/-- `pop_back` drops the last item. -/
theorem popBack {item : T} (h : Holds codec v (items ++ [item])) : Holds codec v.popBack items := by
  have hoffsets := h.offsets
  rw [itemSizes_append_singleton, offsetsFrom_append_singleton, Nat.zero_add] at hoffsets
  have hlast : v.offsets.getLast? = some (itemSizes codec items).sum := by
    rw [hoffsets, List.getLast?_concat]
  have hlen : v.offsets.length = items.length + 1 := by
    rw [h.length_offsets, List.length_append, List.length_singleton]
  rw [popBack_of_getLast? v hlast, hlen, Nat.add_sub_cancel]
  refine ⟨?_, ?_, ?_, ?_, ?_, ?_, ?_, h.poolSize_pos⟩
  · show v.offsets.dropLast = _
    rw [hoffsets, List.dropLast_concat]
  · show (itemSizes codec items).sum = _
    rw [length_flatMap_write]
  · -- the items file is kept; the last item is past the new end
    have hitems := h.itemsFile
    rw [List.flatMap_append] at hitems
    exact (List.prefix_append _ _).trans hitems
  · -- the count is written over the old one; the last size is past the new end
    have hindexes := h.indexesFile
    rw [indexBytes_append_singleton, List.append_assoc] at hindexes
    have hcount := overwrite_front hindexes ((length_leBytes 8 items.length).trans (length_leBytes 8 _).symm)
    rw [← List.append_assoc] at hcount
    exact (List.prefix_append _ _).trans hcount
  · intro x hx
    exact h.sizes x (List.mem_append_left _ hx)
  · have := h.count
    rw [List.length_append, List.length_singleton] at this
    omega
  · exact h.cache.dropLast

/-- `clear` empties the vector. -/
theorem clear (h : Holds codec v items) : Holds codec v.clear [] := by
  refine ⟨rfl, rfl, List.nil_prefix, ?_, by simp, by simp, CacheOf.nil [] _, h.poolSize_pos⟩
  -- the zero count is written over the old one
  have hindexes := h.indexesFile
  rw [indexBytes] at hindexes
  have hcount := overwrite_front hindexes ((length_leBytes 8 0).trans (length_leBytes 8 _).symm)
  show indexBytes codec [] <+: writeAt v.indexesFile 0 (leBytes 8 0)
  rw [indexBytes, itemSizes_nil, List.flatMap_nil, List.length_nil, List.append_nil]
  exact (List.prefix_append _ _).trans hcount

/-- `operator[]` within the vector answers the item at the index. -/
theorem get (h : Holds codec v items) (hcodec : codec.RoundTrips) {index : ℕ} (hi : index < items.length) :
    ∃ w, v.get codec index = .ok (items[index], w) ∧ Holds codec w items := by
  cases hfind : v.cache.find? (·.1 = index) with
  | some e =>
    -- a hit: the cached item is the item at its index
    obtain ⟨key, item⟩ := e
    have hmem := List.mem_of_find?_eq_some hfind
    have hkey : key = index := by simpa using List.find?_some hfind
    subst hkey
    have hitem : items[key]? = some item := h.cache.cached _ hmem
    rw [List.getElem?_eq_getElem hi, Option.some.injEq] at hitem
    refine ⟨_, ?_, h.withCache (h.cache.touch hmem)⟩
    rw [SwappedVector.get, hfind, hitem]
  | none =>
    -- a miss: the item is read from its offset
    have hfresh : index ∉ v.cache.map Prod.fst := by
      intro hmem
      obtain ⟨e, he, hkey⟩ := List.mem_map.mp hmem
      exact List.find?_eq_none.mp hfind e he (by simp [hkey])
    have hlen : index < (offsetsFrom 0 (itemSizes codec items)).length := by simpa using hi
    have hoffset : v.offsets[index]? = some ((items.take index).flatMap codec.write).length := by
      rw [h.offsets, List.getElem?_eq_getElem hlen, getElem_offsetsFrom_itemSizes]
    obtain ⟨rest, hrest⟩ := h.itemsFile
    have hat : v.itemsFile.drop ((items.take index).flatMap codec.write).length =
        codec.write items[index] ++ ((items.drop (index + 1)).flatMap codec.write ++ rest) := by
      have hle : ((items.take index).flatMap codec.write).length ≤ (items.flatMap codec.write).length := by
        rw [flatMap_eq_take_getElem_drop codec.write items hi, List.append_assoc, List.length_append]
        omega
      rw [← hrest, List.drop_append_of_le_length hle, drop_flatMap_take codec.write items hi, List.append_assoc]
    have hread := hcodec items[index] ((items.drop (index + 1)).flatMap codec.write ++ rest)
    refine ⟨v.prepare index items[index], ?_, ?_⟩
    · rw [SwappedVector.get, hfind]
      simp only [hoffset, hat, hread]
      rfl
    · rw [prepare_eq]
      exact h.withCache (h.cache.prepare h.poolSize_pos hfresh (List.getElem?_eq_getElem hi))

/-- `replace` of an item that is not cached, by one whose serialization has the
same length, sets the item. -/
theorem replace (h : Holds codec v items) {index : ℕ} (hi : index < items.length) {item : T}
    (hfresh : index ∉ v.cache.map Prod.fst) (hlen : (codec.write item).length = (codec.write items[index]).length) :
    Holds codec (v.replace codec index item) (items.set index item) := by
  have hsizes : itemSizes codec (items.set index item) = itemSizes codec items := by
    rw [itemSizes, List.map_set, hlen, ← List.map_set, List.set_getElem_self]
    rfl
  have hlen' : index < (offsetsFrom 0 (itemSizes codec items)).length := by simpa using hi
  have hoffset : v.offsets[index]? = some ((items.take index).flatMap codec.write).length := by
    rw [h.offsets, List.getElem?_eq_getElem hlen', getElem_offsetsFrom_itemSizes]
  have hi' : index < (items.set index item).length := by simpa using hi
  rw [replace_of_getElem? codec v index item hoffset]
  refine ⟨?_, ?_, ?_, ?_, ?_, ?_, ?_, h.poolSize_pos⟩
  · show v.offsets = _
    rw [hsizes]
    exact h.offsets
  · show v.itemsFileSize = _
    rw [length_flatMap_write, hsizes, ← length_flatMap_write]
    exact h.itemsFileSize
  · -- the new bytes over the old ones, with the items around them kept
    have hitems := h.itemsFile
    rw [flatMap_eq_take_getElem_drop codec.write items hi] at hitems
    show (items.set index item).flatMap codec.write <+: writeAt v.itemsFile _ (codec.write item)
    rw [flatMap_eq_take_getElem_drop codec.write _ hi', List.take_set_of_le le_rfl,
      List.drop_set_of_lt (Nat.lt_succ_self index), List.getElem_set_self]
    exact overwrite_prefix hitems hlen
  · show indexBytes codec (items.set index item) <+: v.indexesFile
    rw [indexBytes, hsizes, List.length_set]
    exact h.indexesFile
  · intro x hx
    rcases List.mem_or_eq_of_mem_set hx with hx | rfl
    · exact h.sizes x hx
    · rw [hlen]
      exact h.sizes _ (List.getElem_mem hi)
  · rw [List.length_set]
    exact h.count
  · -- every cached entry is at another index
    refine ⟨fun e he => ?_, h.cache.nodup, h.cache.length_le⟩
    have hne : e.1 ≠ index := fun heq => hfresh (heq ▸ List.mem_map_of_mem he)
    rw [List.getElem?_set_ne (Ne.symm hne)]
    exact h.cache.cached e he

end Holds

/-! ## Opening -/

/-- The loop of `open` reads back the sizes the index file holds, each below
`2 ^ 32`. -/
theorem openFiles_loop_sizes :
    ∀ (sizes offsets : List ℕ) (itemsFileSize : ℕ) (rest : List UInt8), (∀ s ∈ sizes, s < 2 ^ 32) →
      openFiles.loop sizes.length (sizes.flatMap (leBytes 4) ++ rest) offsets itemsFileSize =
        some (offsets ++ offsetsFrom itemsFileSize sizes, itemsFileSize + sizes.sum) := by
  intro sizes
  induction sizes with
  | nil =>
    intro offsets itemsFileSize rest _
    simp [openFiles.loop, offsetsFrom]
  | cons s sizes ih =>
    intro offsets itemsFileSize rest hsizes
    -- the four bytes of the first size
    obtain ⟨b0, b1, b2, b3, hbytes⟩ : ∃ b0 b1 b2 b3, leBytes 4 s = [b0, b1, b2, b3] := ⟨_, _, _, _, rfl⟩
    have hvalue : ofLEBytes [b0, b1, b2, b3] = s := by
      rw [← hbytes]
      exact ofLEBytes_leBytes_of_lt (by have := hsizes s List.mem_cons_self; norm_num at this ⊢; omega)
    rw [List.flatMap_cons, hbytes, List.length_cons]
    simp only [List.cons_append, List.nil_append]
    rw [openFiles.loop, hvalue, ih _ _ _ fun s' hs' => hsizes s' (List.mem_cons_of_mem s hs')]
    simp [offsetsFrom, Nat.add_assoc]

/-- `open` of new files: an empty vector. -/
theorem openFiles_new (codec : Codec T) {poolSize : ℕ} (hpos : 0 < poolSize) :
    ∃ v, openFiles (T := T) ⟨none, none⟩ poolSize = some v ∧ Holds codec v [] := by
  refine ⟨⟨[], leBytes 8 0, poolSize, [], 0, []⟩, by rw [openFiles, if_neg (by omega)], ?_⟩
  exact ⟨rfl, rfl, List.nil_prefix, by simp [indexBytes], by simp, by simp, CacheOf.nil _ _, hpos⟩

/-- `close()` and `open` of the same files: the same vector, nothing cached. -/
theorem Holds.reopen {v : SwappedVector T} {items : List T} (h : Holds codec v items) :
    ∃ w, openFiles v.close v.poolSize = some w ∧ Holds codec w items := by
  obtain ⟨rest, hrest⟩ := h.indexesFile
  have hlong : ¬v.indexesFile.length < 8 := by
    rw [← hrest, List.length_append, length_indexBytes]
    omega
  have htake : v.indexesFile.take 8 = leBytes 8 items.length := by
    rw [← hrest, indexBytes, List.append_assoc]
    exact List.take_left' (length_leBytes 8 _)
  have hdrop : v.indexesFile.drop 8 = (itemSizes codec items).flatMap (leBytes 4) ++ rest := by
    rw [← hrest, indexBytes, List.append_assoc]
    exact List.drop_left' (length_leBytes 8 _)
  have hcount : ofLEBytes (leBytes 8 items.length) = items.length :=
    ofLEBytes_leBytes_of_lt (by have := h.count; norm_num at this ⊢; omega)
  have hsizes : ∀ s ∈ itemSizes codec items, s < 2 ^ 32 := by
    intro s hs
    obtain ⟨item, hitem, rfl⟩ := List.mem_map.mp hs
    exact h.sizes item hitem
  have hloop := openFiles_loop_sizes (itemSizes codec items) [] 0 rest hsizes
  rw [length_itemSizes, List.nil_append, Nat.zero_add] at hloop
  refine ⟨⟨v.itemsFile, v.indexesFile, v.poolSize, offsetsFrom 0 (itemSizes codec items),
    (itemSizes codec items).sum, []⟩, ?_, ?_⟩
  · rw [openFiles, if_neg (Nat.pos_iff_ne_zero.mp h.poolSize_pos)]
    simp only [close, if_neg hlong, htake, hcount, hdrop, hloop]
  · exact ⟨rfl, (length_flatMap_write codec items).symm, h.itemsFile, h.indexesFile, h.sizes, h.count,
      CacheOf.nil _ _, h.poolSize_pos⟩

/-! ## Runs -/

/-- The calls `run_refines` covers: all but `replace`, with a pushed item's
serialization below `2 ^ 32` bytes, the width of its recorded size. -/
def Op.Covered (codec : Codec T) : Op T → Prop
  | .pushBack item => (codec.write item).length < 2 ^ 32
  | .replace _ _ => False
  | _ => True

/-- **The refinement without `replace`.** From a state that holds `items`, a run
of covered calls answers what `std::vector` answers and ends in a state that
holds the vector's end. Induction on the calls, one step lemma per call. -/
theorem run_refines (hcodec : codec.RoundTrips) :
    ∀ (ops : List (Op T)) (v : SwappedVector T) (items : List T) (obs : List (Observation T)) (items' : List T),
      Holds codec v items → (∀ op ∈ ops, op.Covered codec) → items.length + ops.length < 2 ^ 64 →
      vectorRun items ops = some (obs, items') → ∃ w, run codec v ops = .ok (obs, w) ∧ Holds codec w items' := by
  intro ops
  induction ops with
  | nil =>
    intro v items obs items' h _ _ hvec
    obtain ⟨rfl, rfl⟩ := Prod.mk.inj (Option.some.inj hvec).symm
    exact ⟨v, rfl, h⟩
  | cons op ops ih =>
    intro v items obs items' h hcovered hcount hvec
    have hops : ∀ op ∈ ops, op.Covered codec := fun o ho => hcovered o (List.mem_cons_of_mem _ ho)
    have hop := hcovered op List.mem_cons_self
    rw [List.length_cons] at hcount
    cases op with
    | pushBack item =>
      exact ih _ _ obs items' (h.pushBack item hop (by omega)) hops (by simp; omega) hvec
    | popBack =>
      -- `std::vector` pops only a non-empty vector
      have hne : items ≠ [] := by
        rintro rfl
        simp [vectorRun] at hvec
      obtain ⟨init, last, rfl⟩ : ∃ init last, items = init ++ [last] :=
        ⟨items.dropLast, items.getLast hne, (List.dropLast_append_getLast hne).symm⟩
      simp only [vectorRun, List.dropLast_concat] at hvec
      rw [if_neg (by simp)] at hvec
      exact ih _ _ obs items' h.popBack hops (by simp at hcount; omega) hvec
    | clear =>
      exact ih _ _ obs items' h.clear hops (by simp; omega) hvec
    | replace index item =>
      exact hop.elim
    | get index =>
      -- `std::vector` reads only within the vector
      simp only [vectorRun] at hvec
      cases hitem : items[index]? with
      | none =>
        rw [hitem] at hvec
        exact absurd hvec (by simp)
      | some item =>
        rw [hitem] at hvec
        obtain ⟨hi, rfl⟩ := List.getElem?_eq_some_iff.mp hitem
        obtain ⟨⟨obs', items''⟩, hrest, heq⟩ := Option.map_eq_some_iff.mp hvec
        obtain ⟨rfl, rfl⟩ := Prod.mk.inj heq
        obtain ⟨w, hget, hw⟩ := h.get hcodec hi
        obtain ⟨w', hrun, hw'⟩ := ih w items obs' items'' hw hops (by omega) hrest
        refine ⟨w', ?_, hw'⟩
        simp only [run, hget, hrun]
        rfl
    | size =>
      simp only [vectorRun] at hvec
      obtain ⟨⟨obs', items''⟩, hrest, heq⟩ := Option.map_eq_some_iff.mp hvec
      obtain ⟨rfl, rfl⟩ := Prod.mk.inj heq
      obtain ⟨w, hrun, hw⟩ := ih v items obs' items'' h hops (by omega) hrest
      refine ⟨w, ?_, hw⟩
      simp only [run, hrun, size, h.length_offsets]
      rfl
    | reopen =>
      obtain ⟨w, hopen, hw⟩ := h.reopen
      obtain ⟨w', hrun, hw'⟩ := ih w items obs items' hw hops (by omega) hvec
      refine ⟨w', ?_, hw'⟩
      simp only [run, hopen, hrun]

/-- From new files, a run of covered calls answers what `std::vector` answers. -/
theorem run_refines_new (hcodec : codec.RoundTrips) {poolSize : ℕ} (hpos : 0 < poolSize) {ops : List (Op T)}
    (hcovered : ∀ op ∈ ops, op.Covered codec) (hcount : ops.length < 2 ^ 64) {obs : List (Observation T)}
    {items : List T} (hvec : vectorRun [] ops = some (obs, items)) :
    ∃ v w, openFiles ⟨none, none⟩ poolSize = some v ∧ run codec v ops = .ok (obs, w) ∧ Holds codec w items := by
  obtain ⟨v, hopen, hv⟩ := openFiles_new codec hpos
  obtain ⟨w, hrun, hw⟩ := run_refines hcodec ops v [] obs items hv hcovered (by simpa using hcount) hvec
  exact ⟨v, w, hopen, hrun, hw⟩

/-! ## `replace` and the cache -/

/-- `replace` leaves the cache: a cached item is answered as it was before. -/
theorem Holds.get_replace_of_cached {v : SwappedVector T} {items : List T} (h : Holds codec v items) {index : ℕ}
    (hi : index < items.length) (hcached : index ∈ v.cache.map Prod.fst) (item : T) :
    ∃ w, (v.replace codec index item).get codec index = .ok (items[index], w) := by
  obtain ⟨e, he, hkey⟩ := List.mem_map.mp hcached
  -- the entry the lookup finds is the one at the index
  obtain ⟨found, hfind⟩ : ∃ found, v.cache.find? (·.1 = index) = some found :=
    Option.isSome_iff_exists.mp (List.find?_isSome.mpr ⟨e, he, by simp [hkey]⟩)
  obtain ⟨key, old⟩ := found
  have hmem := List.mem_of_find?_eq_some hfind
  have hfound : key = index := by simpa using List.find?_some hfind
  subst hfound
  have hold : items[key]? = some old := h.cache.cached _ hmem
  rw [List.getElem?_eq_getElem hi, Option.some.injEq] at hold
  exact ⟨_, by rw [SwappedVector.get, cache_replace, hfind, hold]⟩

/-- A byte, serialized as itself, as the binary serializer writes a `uint8_t`;
reading past the end throws the stream's text. -/
def byteCodec : Codec UInt8 where
  write item := [item]
  read
    | item :: rest => .ok (item, rest)
    | [] => .error "Reading from IInputStream failed"

theorem byteCodec_roundTrips : byteCodec.RoundTrips := fun _ _ => rfl

/-- A byte pushed, replaced while it is cached, then read. -/
def staleReplace : List (Op UInt8) := [.pushBack 1, .replace 0 2, .get 0]

theorem replace_keeps_stale_cache (poolSize : ℕ) (hpool : 0 < poolSize) :
    byteCodec.RoundTrips ∧ vectorRun [] staleReplace = some ([.item 2], [2]) ∧
      ∃ v w, openFiles ⟨none, none⟩ poolSize = some v ∧ run byteCodec v staleReplace = .ok ([.item 1], w) := by
  obtain ⟨v, hopen, hv⟩ := openFiles_new byteCodec hpool
  -- the pushed byte is cached at index 0
  have hpushed := hv.pushBack 1 (by decide) (by norm_num)
  have hcached : 0 ∈ (v.pushBack byteCodec 1).cache.map Prod.fst := by
    rw [cache_pushBack, hv.length_offsets]
    simp
  obtain ⟨w, hget⟩ := hpushed.get_replace_of_cached (by simp) hcached 2
  refine ⟨byteCodec_roundTrips, rfl, v, w, hopen, ?_⟩
  simp only [staleReplace, run, hget]
  rfl

/-- With a pool of one item: the vector reads back 2, the opened files 1. -/
theorem replace_keeps_stale_cache_poolOne :
    0 < 1 ∧ byteCodec.RoundTrips ∧ vectorRun [] staleReplace = some ([.item 2], [2]) ∧
      ∃ v w, openFiles ⟨none, none⟩ 1 = some v ∧ run byteCodec v staleReplace = .ok ([.item 1], w) :=
  ⟨by decide, replace_keeps_stale_cache 1 (by decide)⟩

end SwappedVector

end Cn
