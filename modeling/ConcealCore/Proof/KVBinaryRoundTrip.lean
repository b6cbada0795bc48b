import ConcealCore.Spec.KVBinaryDoc
import ConcealCore.Proof.ParseTermination

/-!
# The portable-storage round trip

The writer and the reader of the portable-storage format, each against the
grammar of `Spec/KVBinaryDoc`:

* `Doc.writes`: the calls of a well-formed document, from an open object or an
  array whose preamble is written, append the grammar's bytes of the document
  and count it;
* `Doc.reads`: `loadEntry` and `loadValue` read the grammar's bytes back as the
  document's value, with room for three frames for each level of nesting;
* `dump_run_membersCalls`: what `dump` writes for a root object;
* `parseBinary_dump`: **the round trip** of `dump` and `parseBinary`.
-/

namespace Cn

namespace KVBinary

open ByteFile Descent

/-! ## The writer, call by call -/

theorem writeArraySize_of_le {val : Nat} (h : val ≤ MAX_PACKED_SIZE) : writeArraySize val = .ok (sizeBytes val) := by
  have hle : ¬ val > 4611686018427387903 := by unfold MAX_PACKED_SIZE at h; omega
  unfold writeArraySize sizeBytes
  split_ifs <;> rfl

theorem writeElementName_of_le {name : List UInt8} (h : name.length ≤ 255) :
    writeElementName name = .ok (nameBytes name) := by
  rw [writeElementName, if_neg (by omega)]
  rfl

/-- The preamble of an array of `count` entries of type `type`. -/
def preambleBytes (name : List UInt8) (type : UInt8) (count : Nat) : List UInt8 :=
  nameBytes name ++ [BIN_KV_SERIALIZE_FLAG_ARRAY ||| type] ++ sizeBytes count

namespace KVBinaryOutputStreamSerializer

variable {out : List UInt8} {outs : List (List UInt8)} {levels : List Level}

@[simp] theorem write_cons (stack : List Level) (bytes : List UInt8) :
    (⟨out :: outs, stack⟩ : KVBinaryOutputStreamSerializer).write bytes = .ok ⟨(out ++ bytes) :: outs, stack⟩ := rfl

theorem checkArrayPreamble_of_ne {objectsStack : List (List UInt8)} {level : Level}
    (h : level.state ≠ .arrayPrefix) (type : UInt8) :
    (⟨objectsStack, level :: levels⟩ : KVBinaryOutputStreamSerializer).checkArrayPreamble type =
      .ok ⟨objectsStack, level :: levels⟩ := by
  simp [checkArrayPreamble, h]

/-- The first entry of an array writes the preamble. -/
theorem checkArrayPreamble_arrayPrefix {name : List UInt8} {count : Nat} (hname : name.length ≤ 255)
    (hcount : count ≤ MAX_PACKED_SIZE) (type : UInt8) :
    (⟨out :: outs, ⟨.arrayPrefix, name, count⟩ :: levels⟩ : KVBinaryOutputStreamSerializer).checkArrayPreamble type =
      .ok ⟨(out ++ preambleBytes name type count) :: outs, ⟨.array, name, count⟩ :: levels⟩ := by
  simp only [checkArrayPreamble, if_true, writeElementName_of_le hname, writeArraySize_of_le hcount, bind,
    Except.bind, write_cons, pure, Except.pure, preambleBytes, List.append_assoc]

/-- An entry of an object: its name and type, and the entry counted. -/
theorem writeElementPrefix_object {name entryName : List UInt8} {count : Nat} (hne : entryName ≠ [])
    (hlen : entryName.length ≤ 255) (type : UInt8) :
    (⟨out :: outs, ⟨.object, name, count⟩ :: levels⟩ : KVBinaryOutputStreamSerializer).writeElementPrefix type
        entryName =
      .ok ⟨(out ++ nameBytes entryName ++ [type]) :: outs, ⟨.object, name, count + 1⟩ :: levels⟩ := by
  have hempty : entryName.isEmpty = false := List.isEmpty_eq_false_iff.mpr hne
  have hpreamble : (⟨out :: outs, ⟨.object, name, count⟩ :: levels⟩ : KVBinaryOutputStreamSerializer).checkArrayPreamble
      type = .ok ⟨out :: outs, ⟨.object, name, count⟩ :: levels⟩ := checkArrayPreamble_of_ne (by simp) type
  simp only [writeElementPrefix, hpreamble, bind, Except.bind, reduceCtorEq, if_false, hempty,
    Bool.false_eq_true, writeElementName_of_le hlen, write_cons, pure, Except.pure, List.append_assoc]

/-- An entry of an array whose preamble is written: nothing. -/
theorem writeElementPrefix_array {objectsStack : List (List UInt8)} {name : List UInt8} {count : Nat}
    (type : UInt8) (entryName : List UInt8) :
    (⟨objectsStack, ⟨.array, name, count⟩ :: levels⟩ : KVBinaryOutputStreamSerializer).writeElementPrefix type
        entryName =
      .ok ⟨objectsStack, ⟨.array, name, count⟩ :: levels⟩ := by
  have hpreamble : (⟨objectsStack, ⟨.array, name, count⟩ :: levels⟩ : KVBinaryOutputStreamSerializer).checkArrayPreamble
      type = .ok ⟨objectsStack, ⟨.array, name, count⟩ :: levels⟩ := checkArrayPreamble_of_ne (by simp) type
  simp only [writeElementPrefix, hpreamble, bind, Except.bind, if_true, pure, Except.pure]

/-- The first entry of an array: the preamble, then as an entry of the array. -/
theorem writeElementPrefix_arrayPrefix {name : List UInt8} {count : Nat} (hname : name.length ≤ 255)
    (hcount : count ≤ MAX_PACKED_SIZE) (type : UInt8) (entryName : List UInt8) :
    (⟨out :: outs, ⟨.arrayPrefix, name, count⟩ :: levels⟩ : KVBinaryOutputStreamSerializer).writeElementPrefix type
        entryName =
      .ok ⟨(out ++ preambleBytes name type count) :: outs, ⟨.array, name, count⟩ :: levels⟩ := by
  have harray := @writeElementPrefix_array levels ((out ++ preambleBytes name type count) :: outs) name count
    type entryName
  simp only [writeElementPrefix, checkArrayPreamble_arrayPrefix hname hcount, bind, Except.bind] at harray ⊢
  exact harray

/-- `operator()` of any value: the prefix, then the value's bytes. -/
theorem apply_value (ser : KVBinaryOutputStreamSerializer) {v : Scalar} (hfits : v.fits = true)
    (name : List UInt8) :
    ser.apply (.value v name) = (ser.writeElementPrefix v.type name).bind (·.write v.bytes) := by
  cases v with
  | string s =>
    -- the one overload with its own body: a size in front of the bytes
    have hsize : s.length ≤ MAX_PACKED_SIZE := by
      simp only [Scalar.fits, decide_eq_true_eq] at hfits
      unfold MAX_PACKED_SIZE
      omega
    simp only [apply, writeString, writeArraySize_of_le hsize, bind, Except.bind, Scalar.type, Scalar.bytes]
  | _ => rfl

@[simp] theorem apply_beginObject_object {name entryName : List UInt8} {count : Nat} :
    (⟨out :: outs, ⟨.object, name, count⟩ :: levels⟩ : KVBinaryOutputStreamSerializer).apply
        (.beginObject entryName) =
      .ok ⟨[] :: out :: outs, ⟨.object, entryName, 0⟩ :: ⟨.object, name, count⟩ :: levels⟩ := by
  simp [apply, beginObject, checkArrayPreamble]

@[simp] theorem apply_beginObject_array {name entryName : List UInt8} {count : Nat} :
    (⟨out :: outs, ⟨.array, name, count⟩ :: levels⟩ : KVBinaryOutputStreamSerializer).apply
        (.beginObject entryName) =
      .ok ⟨[] :: out :: outs, ⟨.object, entryName, 0⟩ :: ⟨.array, name, count⟩ :: levels⟩ := by
  simp [apply, beginObject, checkArrayPreamble]

/-- `endObject`: the object as an entry of the level around it. -/
theorem apply_endObject {object : List UInt8} {entryName : List UInt8} {entries : Nat} {parent : Level}
    (hentries : entries ≤ MAX_PACKED_SIZE) :
    (⟨object :: out :: outs, ⟨.object, entryName, entries⟩ :: parent :: levels⟩ :
        KVBinaryOutputStreamSerializer).apply .endObject =
      ((⟨out :: outs, parent :: levels⟩ : KVBinaryOutputStreamSerializer).writeElementPrefix
        BIN_KV_SERIALIZE_TYPE_OBJECT entryName).bind (·.write (sizeBytes entries ++ object)) := by
  simp only [apply, endObject, writeArraySize_of_le hentries, bind, Except.bind]

@[simp] theorem apply_beginArray (ser : KVBinaryOutputStreamSerializer) (size : Nat) (name : List UInt8) :
    ser.apply (.beginArray size name) = .ok { ser with stack := ⟨.arrayPrefix, name, size⟩ :: ser.stack } := rfl

/-- `endArray` after an entry: the array counted in the object around it. -/
@[simp] theorem apply_endArray_array {objectsStack : List (List UInt8)} {name arrayName : List UInt8}
    {count size : Nat} :
    (⟨objectsStack, ⟨.array, arrayName, size⟩ :: ⟨.object, name, count⟩ :: levels⟩ :
        KVBinaryOutputStreamSerializer).apply .endArray =
      .ok ⟨objectsStack, ⟨.object, name, count + 1⟩ :: levels⟩ := by
  simp [apply, endArray]

/-- `endArray` without an entry: nothing counted. -/
@[simp] theorem apply_endArray_arrayPrefix {objectsStack : List (List UInt8)} {arrayName : List UInt8}
    {size : Nat} {parent : Level} :
    (⟨objectsStack, ⟨.arrayPrefix, arrayName, size⟩ :: parent :: levels⟩ :
        KVBinaryOutputStreamSerializer).apply .endArray =
      .ok ⟨objectsStack, parent :: levels⟩ := by
  simp [apply, endArray]

end KVBinaryOutputStreamSerializer

/-! ## The writer over a document -/

open KVBinaryOutputStreamSerializer

/-- What the calls of a document do to the writer: as an entry of an object,
they append its name and its entry's bytes and count it; as an entry of an
array whose preamble is written, they append its value's bytes. -/
structure Doc.Writes (d : Doc) : Prop where
  member : ∀ {out : List UInt8} {outs : List (List UInt8)} {levels : List Level} {name entryName : List UInt8}
    {count : Nat}, entryName ≠ [] → entryName.length ≤ 255 →
    (d.calls entryName).foldlM apply ⟨out :: outs, ⟨.object, name, count⟩ :: levels⟩ =
      .ok ⟨(out ++ nameBytes entryName ++ d.entryBytes) :: outs, ⟨.object, name, count + 1⟩ :: levels⟩
  item : d.isItem = true → ∀ {out : List UInt8} {outs : List (List UInt8)} {levels : List Level}
    {name : List UInt8} {count : Nat},
    (d.calls []).foldlM apply ⟨out :: outs, ⟨.array, name, count⟩ :: levels⟩ =
      .ok ⟨(out ++ d.valueBytes) :: outs, ⟨.array, name, count⟩ :: levels⟩

variable {out : List UInt8} {outs : List (List UInt8)} {levels : List Level}

/-- The entries of an open object, one after the other. -/
theorem run_membersCalls_of {members : List (List UInt8 × Doc)}
    (h : ∀ m ∈ members, m.1 ≠ [] ∧ m.1.length ≤ 255 ∧ m.2.Writes) (name : List UInt8) (count : Nat) :
    (Doc.membersCalls members).foldlM apply ⟨out :: outs, ⟨.object, name, count⟩ :: levels⟩ =
      .ok ⟨(out ++ Doc.membersBytes members) :: outs, ⟨.object, name, count + members.length⟩ :: levels⟩ := by
  have hfold : ∀ (ms : List (List UInt8 × Doc)) (o : List UInt8) (k : Nat),
      ms.foldl (fun p m => (p.1 ++ nameBytes m.1 ++ m.2.entryBytes, p.2 + 1)) (o, k) =
        (o ++ Doc.membersBytes ms, k + ms.length) := by
    intro ms
    induction ms with
    | nil => simp [Doc.membersBytes]
    | cons m ms ih =>
      intro o k
      obtain ⟨mname, md⟩ := m
      rw [List.foldl_cons, ih]
      simp only [Doc.membersBytes, List.length_cons, List.append_assoc, Prod.mk.injEq, true_and]
      omega
  have hrun := foldlM_flatMap (f := apply) (fun m : List UInt8 × Doc => m.2.calls m.1)
    (fun p : List UInt8 × Nat => (⟨p.1 :: outs, ⟨.object, name, p.2⟩ :: levels⟩ :
      KVBinaryOutputStreamSerializer))
    (fun p m => (p.1 ++ nameBytes m.1 ++ m.2.entryBytes, p.2 + 1)) (l := members)
    (fun m hm _ => (h m hm).2.2.member (h m hm).1 (h m hm).2.1) (out, count)
  rw [Doc.membersCalls_eq, hrun, hfold]

/-- The entries of an array whose preamble is written, one after the other. -/
theorem run_itemsCalls_of {items : List Doc} (h : ∀ d ∈ items, d.isItem = true ∧ d.Writes) (name : List UInt8)
    (count : Nat) :
    (Doc.itemsCalls items).foldlM apply ⟨out :: outs, ⟨.array, name, count⟩ :: levels⟩ =
      .ok ⟨(out ++ Doc.itemsBytes items) :: outs, ⟨.array, name, count⟩ :: levels⟩ := by
  have hfold : ∀ (ds : List Doc) (o : List UInt8), ds.foldl (fun o d => o ++ d.valueBytes) o = o ++ Doc.itemsBytes ds := by
    intro ds
    induction ds with
    | nil => simp [Doc.itemsBytes]
    | cons d ds ih => intro o; simp [ih, Doc.itemsBytes]
  have hrun := foldlM_flatMap (f := apply) (Doc.calls []) (fun o : List UInt8 =>
      (⟨o :: outs, ⟨.array, name, count⟩ :: levels⟩ : KVBinaryOutputStreamSerializer))
    (fun o d => o ++ d.valueBytes) (l := items) (fun d hd _ => (h d hd).2.item (h d hd).1) out
  rw [Doc.itemsCalls_eq, hrun, hfold]

/-- The first entry of an array writes the preamble with its own type, and is
then an entry like the others. -/
theorem run_calls_arrayPrefix {d : Doc} (hitem : d.isItem = true) (hwf : d.wellFormed = true) {name : List UInt8}
    {count : Nat} (hname : name.length ≤ 255) (hcount : count ≤ MAX_PACKED_SIZE) :
    (d.calls []).foldlM apply ⟨out :: outs, ⟨.arrayPrefix, name, count⟩ :: levels⟩ =
      (d.calls []).foldlM apply ⟨(out ++ preambleBytes name d.itemType count) :: outs, ⟨.array, name, count⟩ :: levels⟩ := by
  cases d with
  | scalar v =>
    have hfits : v.fits = true := by simpa [Doc.wellFormed] using hwf
    simp only [Doc.calls, List.foldlM_cons, apply_value _ hfits, writeElementPrefix_arrayPrefix hname hcount,
      writeElementPrefix_array, Doc.itemType]
  | object members =>
    simp only [Doc.calls, List.cons_append, List.foldlM_cons, apply, beginObject,
      checkArrayPreamble_arrayPrefix hname hcount, Doc.itemType, bind, Except.bind, pure, Except.pure]
    rfl
  | array items => simp [Doc.isItem] at hitem

/-- **The writer writes the grammar.** Every well-formed document, by induction
over its entries. -/
theorem Doc.writes (d : Doc) : d.wellFormed = true → d.Writes := by
  induction d using Doc.rec_members with
  | scalar v =>
    intro hwf
    have hfits : v.fits = true := by simpa [Doc.wellFormed] using hwf
    refine ⟨fun hne hlen => ?_, fun _ => ?_⟩
    · simp [Doc.calls, apply_value _ hfits, writeElementPrefix_object hne hlen, Doc.entryBytes, Except.bind]
    · simp [Doc.calls, apply_value _ hfits, writeElementPrefix_array, Doc.valueBytes, Except.bind]
  | object members ih =>
    intro hwf
    simp only [Doc.wellFormed, Bool.and_eq_true, decide_eq_true_eq, Doc.membersWellFormed_iff] at hwf
    obtain ⟨hcount, hmembers⟩ := hwf
    have hentries : ∀ m ∈ members, m.1 ≠ [] ∧ m.1.length ≤ 255 ∧ m.2.Writes := fun m hm =>
      ⟨(hmembers m hm).1, (hmembers m hm).2.1, ih m hm (hmembers m hm).2.2⟩
    -- `beginObject`, the entries into the new level, and `endObject` into the level around it
    refine ⟨fun hne hlen => ?_, fun _ => ?_⟩
    · simp [Doc.calls, List.foldlM_append, run_membersCalls_of hentries, apply_endObject hcount,
        writeElementPrefix_object hne hlen, Doc.entryBytes, bind, Except.bind, pure, Except.pure]
    · simp [Doc.calls, List.foldlM_append, run_membersCalls_of hentries, apply_endObject hcount,
        writeElementPrefix_array, Doc.valueBytes, bind, Except.bind, pure, Except.pure]
  | array items ih =>
    intro hwf
    simp only [Doc.wellFormed, Bool.and_eq_true, Bool.not_eq_true', List.isEmpty_eq_false_iff,
      decide_eq_true_eq, Doc.itemsWellFormed_iff] at hwf
    obtain ⟨⟨hne, hcount⟩, hitems⟩ := hwf
    obtain ⟨first, rest, rfl⟩ := List.exists_cons_of_ne_nil hne
    have hfirst := hitems first List.mem_cons_self
    have hrest : ∀ d ∈ rest, d.isItem = true ∧ d.Writes := fun d hd =>
      ⟨(hitems d (List.mem_cons_of_mem _ hd)).1,
        ih d (List.mem_cons_of_mem _ hd) (hitems d (List.mem_cons_of_mem _ hd)).2.2⟩
    refine ⟨fun {out outs levels name entryName count} hname hlen => ?_, fun h => by simp [Doc.isItem] at h⟩
    -- the first entry writes the preamble; then every entry its value
    have hcalls : (first :: rest).length ≤ MAX_PACKED_SIZE := hcount
    simp only [Doc.calls, Doc.itemsCalls, List.cons_append, List.foldlM_cons, apply_beginArray, List.foldlM_append,
      bind, Except.bind]
    rw [run_calls_arrayPrefix hfirst.1 hfirst.2.2 hlen hcalls,
      (ih first List.mem_cons_self hfirst.2.2).item hfirst.1]
    simp [run_itemsCalls_of hrest, Doc.entryBytes, Doc.itemsBytes, Doc.firstType, preambleBytes, pure,
      Except.pure]

/-! ## The reader, field by field -/

theorem littleEndian_eq_ofLEBytes (bs : List UInt8) : littleEndian bs = ofLEBytes bs := by
  induction bs with
  | nil => rfl
  | cons b bs ih => rw [littleEndian, ofLEBytes, ih]

theorem readBytes_append {bs : List UInt8} {size : Nat} (h : bs.length = size) (rest : List UInt8) :
    readBytes size (bs ++ rest) = .ok (bs, rest) := by
  subst h
  simp [readBytes]

/-- A packed count reads back, whatever its width. -/
theorem readVarint_packVarint (width : Nat) {mark : UInt8} {n : Nat} (hmark : mark.toNat < 4)
    (hleft : bytesLeft mark = width) (hfit : 4 * n + mark.toNat < 256 ^ (width + 1)) (rest : List UInt8) :
    readVarint (packVarint (width + 1) mark n ++ rest) = .ok (n, rest) := by
  have hvalue : n <<< 2 ||| mark.toNat = 4 * n + mark.toNat := by
    rw [← Nat.shiftLeft_add_eq_or_of_lt (by omega), Nat.shiftLeft_eq]
    omega
  -- the low byte carries the mark, and with the bytes after it the whole value
  have hlow : (UInt8.ofNat ((4 * n + mark.toNat) % 256)).toNat = (4 * n + mark.toNat) % 256 := by
    rw [UInt8.toNat_ofNat', Nat.mod_mod_of_dvd _ (by norm_num)]
  have hmask : UInt8.ofNat ((4 * n + mark.toNat) % 256) &&& PORTABLE_RAW_SIZE_MARK_MASK = mark := by
    apply UInt8.toNat_inj.mp
    rw [UInt8.toNat_and, hlow, show PORTABLE_RAW_SIZE_MARK_MASK.toNat = 2 ^ 2 - 1 from rfl,
      Nat.and_two_pow_sub_one_eq_mod]
    omega
  have hwhole : (4 * n + mark.toNat) % 256 + 256 * ((4 * n + mark.toNat) / 256 % 256 ^ width) =
      4 * n + mark.toNat := by
    rw [← Nat.mod_mul, ← pow_succ', Nat.mod_eq_of_lt hfit]
  simp only [readVarint, packVarint, hvalue, leBytes, List.cons_append, readByte, hmask, hleft,
    readBytes_append (length_leBytes _ _), littleEndian_eq_ofLEBytes, ofLEBytes_leBytes, hlow, hwhole]
  congr
  omega

/-- A count `writeArraySize` packs reads back. -/
theorem readVarint_sizeBytes {n : Nat} (h : n ≤ MAX_PACKED_SIZE) (rest : List UInt8) :
    readVarint (sizeBytes n ++ rest) = .ok (n, rest) := by
  unfold MAX_PACKED_SIZE at h
  unfold sizeBytes
  split_ifs
  · exact readVarint_packVarint 0 (by decide) (by decide)
      (by rw [show PORTABLE_RAW_SIZE_MARK_BYTE.toNat = 0 from rfl]; norm_num; omega) rest
  · exact readVarint_packVarint 1 (by decide) (by decide)
      (by rw [show PORTABLE_RAW_SIZE_MARK_WORD.toNat = 1 from rfl]; norm_num; omega) rest
  · exact readVarint_packVarint 3 (by decide) (by decide)
      (by rw [show PORTABLE_RAW_SIZE_MARK_DWORD.toNat = 2 from rfl]; norm_num; omega) rest
  · exact readVarint_packVarint 7 (by decide) (by decide)
      (by rw [show PORTABLE_RAW_SIZE_MARK_INT64.toNat = 3 from rfl]; norm_num; omega) rest

/-- A name of one to 255 bytes reads back, whatever name came before it. -/
theorem readName_nameBytes (previous : List UInt8) {name : List UInt8} (hne : name ≠ [])
    (hlen : name.length ≤ 255) (rest : List UInt8) :
    readName previous (nameBytes name ++ rest) = .ok (name, rest) := by
  have hpos : 0 < name.length := List.length_pos_iff.mpr hne
  have hsize : (UInt8.ofNat name.length).toNat = name.length := by
    rw [UInt8.toNat_ofNat']
    omega
  have hnz : UInt8.ofNat name.length ≠ 0 := fun h0 => by
    rw [h0] at hsize
    simp at hsize
    omega
  simp only [readName, nameBytes, List.cons_append, readByte, ne_eq, hnz, not_false_eq_true, if_true, hsize,
    readBytes_append rfl]

theorem readIntegerJson_leBytes {width n : Nat} (hn : n < 256 ^ width) (rest : List UInt8) :
    readIntegerJson width false (leBytes width n ++ rest) = .ok (.integer (Int64.ofNat n), rest) := by
  simp [readIntegerJson, readBytes_append (length_leBytes _ _), littleEndian_eq_ofLEBytes, ofLEBytes_leBytes_of_lt hn, Int64.ofInt_eq_ofNat]

theorem readIntegerJson_leBytes_toInt (width : Nat) (hw : 0 < width) (x : BitVec (8 * width)) (rest : List UInt8) :
    readIntegerJson width true (leBytes width x.toNat ++ rest) = .ok (.integer (Int64.ofInt x.toInt), rest) := by
  have hlt : x.toNat < 256 ^ width := by
    have := x.isLt
    rwa [pow_mul] at this
  simp only [readIntegerJson, readBytes_append (length_leBytes _ _), littleEndian_eq_ofLEBytes, ofLEBytes_leBytes_of_lt hlt]
  -- the reader's sign test on the top bit is the `2 * x < 2 ^ w` of `BitVec.toInt`
  have hpow : 2 ^ (8 * width) = 2 * 2 ^ (8 * width - 1) := by
    rw [← pow_succ']
    congr 1
    omega
  have hval : (if 2 ^ (8 * width - 1) ≤ x.toNat then (x.toNat : Int) - 2 ^ (8 * width) else x.toNat) =
      if 2 * x.toNat < 2 ^ (8 * width) then (x.toNat : Int) else x.toNat - ((2 ^ (8 * width) : Nat) : Int) := by
    rw [show (2 : Int) ^ (8 * width) = ((2 ^ (8 * width) : Nat) : Int) by push_cast; rfl]
    split_ifs <;> omega
  simp only [BitVec.toInt_eq_toNat_cond, true_and, hval]


/-- A scalar reads back as the value it means, with room for one frame. -/
theorem Scalar.loadValue_bytes {v : Scalar} (hfits : v.fits = true) (k : Nat) (rest : List UInt8) :
    loadValue (k + 1) v.type (v.bytes ++ rest) = .ok (v.toJsonValue, rest) := by
  cases v with
  | uint8 v =>
    show readIntegerJson 1 false (leBytes 1 v.toNat ++ rest) = _
    exact readIntegerJson_leBytes v.toNat_lt rest
  | int16 v =>
    show readIntegerJson 2 true (leBytes 2 v.toUInt16.toNat ++ rest) = _
    exact readIntegerJson_leBytes_toInt 2 (by decide) v.toBitVec rest
  | uint16 v =>
    show readIntegerJson 2 false (leBytes 2 v.toNat ++ rest) = _
    exact readIntegerJson_leBytes v.toNat_lt rest
  | int32 v =>
    show readIntegerJson 4 true (leBytes 4 v.toUInt32.toNat ++ rest) = _
    exact readIntegerJson_leBytes_toInt 4 (by decide) v.toBitVec rest
  | uint32 v =>
    show readIntegerJson 4 false (leBytes 4 v.toNat ++ rest) = _
    exact readIntegerJson_leBytes v.toNat_lt rest
  | int64 v =>
    have hv : Int64.ofInt v.toBitVec.toInt = v := Int64.ofInt_toInt v
    show readIntegerJson 8 true (leBytes 8 v.toBitVec.toNat ++ rest) = .ok (.integer v, rest)
    rw [readIntegerJson_leBytes_toInt 8 (by decide) v.toBitVec rest, hv]
  | uint64 v =>
    show readIntegerJson 8 false (leBytes 8 v.toNat ++ rest) = _
    exact readIntegerJson_leBytes v.toNat_lt rest
  | double bits =>
    have hlt : bits.toNat < 256 ^ 8 := bits.toNat_lt
    show readDoubleJson (leBytes 8 bits.toNat ++ rest) = _
    simp [readDoubleJson, readBytes_append (length_leBytes _ _), littleEndian_eq_ofLEBytes,
      ofLEBytes_leBytes_of_lt hlt, Scalar.toJsonValue]
  | bool b => cases b <;> rfl
  | string s =>
    have hlen : s.length ≤ 128 * 1024 * 1024 := by simpa [Scalar.fits] using hfits
    have hsize : s.length ≤ MAX_PACKED_SIZE := by unfold MAX_PACKED_SIZE; omega
    show readStringJson ((sizeBytes s.length ++ s) ++ rest) = _
    rw [List.append_assoc]
    simp only [readStringJson, readString, readVarint_sizeBytes hsize,
      if_neg (show ¬ s.length > 128 * 1024 * 1024 by omega), readBytes_append rfl, Scalar.toJsonValue]

/-- The item types have no array flag; with it, the flag is seen and taken off. -/
theorem Doc.itemType_and_flag (d : Doc) : d.itemType &&& BIN_KV_SERIALIZE_FLAG_ARRAY = 0 := by
  cases d with
  | scalar v => cases v <;> simp only [Doc.itemType, Scalar.type] <;> decide
  | object _ => simp only [Doc.itemType]; decide
  | array _ => simp only [Doc.itemType]; decide

theorem Doc.flag_itemType (d : Doc) :
    (BIN_KV_SERIALIZE_FLAG_ARRAY ||| d.itemType) &&& BIN_KV_SERIALIZE_FLAG_ARRAY ≠ 0 ∧
      (BIN_KV_SERIALIZE_FLAG_ARRAY ||| d.itemType) &&& ~~~BIN_KV_SERIALIZE_FLAG_ARRAY = d.itemType := by
  cases d with
  | scalar v => cases v <;> simp only [Doc.itemType, Scalar.type] <;> decide
  | object _ => simp only [Doc.itemType]; decide
  | array _ => simp only [Doc.itemType]; decide

theorem loadEntry_value {type : UInt8} (h : type &&& BIN_KV_SERIALIZE_FLAG_ARRAY = 0) (k : Nat) (s : List UInt8) :
    loadEntry (k + 1) (type :: s) = loadValue k type s := by
  simp [loadEntry, readByte, h]

theorem loadEntry_array {type : UInt8} (h : type &&& BIN_KV_SERIALIZE_FLAG_ARRAY ≠ 0) (k : Nat) (s : List UInt8) :
    loadEntry (k + 1) (type :: s) = loadArray k (type &&& ~~~BIN_KV_SERIALIZE_FLAG_ARRAY) s := by
  simp [loadEntry, readByte, h]

/-- One turn of `loadSection` on a named entry. -/
theorem sectionTurn_nameBytes {entry : Parser UInt8 ParseError JsonValue} {name bytes : List UInt8} {v : JsonValue}
    (hne : name ≠ []) (hlen : name.length ≤ 255) (hentry : ∀ rest, entry (bytes ++ rest) = .ok (v, rest))
    (state : List UInt8 × List (List UInt8 × JsonValue)) (rest : List UInt8) :
    sectionTurn entry state (nameBytes name ++ bytes ++ rest) = .ok ((name, JsonValue.insert state.2 name v), rest) := by
  simp only [sectionTurn, List.append_assoc, readName_nameBytes state.1 hne hlen, hentry]

theorem foldl_insert_snd (members : List (List UInt8 × Doc)) (state : List UInt8 × List (List UInt8 × JsonValue)) :
    (members.foldl (fun x m => (m.1, JsonValue.insert x.2 m.1 m.2.toJsonValue)) state).2 =
      Doc.membersJson members state.2 := by
  induction members generalizing state with
  | nil => rfl
  | cons m members ih => rw [List.foldl_cons, ih, Doc.membersJson_eq, Doc.membersJson_eq]; rfl

theorem foldl_push (items : List Doc) (acc : List JsonValue) :
    items.foldl (fun acc d => acc ++ [d.toJsonValue]) acc = acc ++ Doc.itemsJson items := by
  induction items generalizing acc with
  | nil => simp [Doc.itemsJson]
  | cons d items ih => simp [ih, Doc.itemsJson]

/-- A section of entries each of which reads back. -/
theorem loadSection_membersBytes {members : List (List UInt8 × Doc)} {k : Nat} (hcount : members.length ≤ MAX_PACKED_SIZE)
    (h : ∀ m ∈ members, m.1 ≠ [] ∧ m.1.length ≤ 255 ∧
      ∀ rest, loadEntry k (m.2.entryBytes ++ rest) = .ok (m.2.toJsonValue, rest)) (rest : List UInt8) :
    loadSection (k + 1) (sizeBytes members.length ++ Doc.membersBytes members ++ rest) =
      .ok ((Doc.object members).toJsonValue, rest) := by
  have hturn : ∀ m ∈ members, ∀ (state : List UInt8 × List (List UInt8 × JsonValue)) rest,
      sectionTurn (loadEntry k) state ((nameBytes m.1 ++ m.2.entryBytes) ++ rest) =
        .ok ((m.1, JsonValue.insert state.2 m.1 m.2.toJsonValue), rest) := fun m hm state rest =>
    sectionTurn_nameBytes (h m hm).1 (h m hm).2.1 (h m hm).2.2 state rest
  rw [loadSection, List.append_assoc, readVarint_sizeBytes hcount]
  simp only [Doc.membersBytes_eq, iterate_flatMap hturn, foldl_insert_snd, Doc.toJsonValue]

/-- An array of values each of which reads back. -/
theorem loadArray_itemsBytes {items : List Doc} {k : Nat} {type : UInt8} (hcount : items.length ≤ MAX_PACKED_SIZE)
    (h : ∀ d ∈ items, ∀ rest, loadValue k type (d.valueBytes ++ rest) = .ok (d.toJsonValue, rest)) (rest : List UInt8) :
    loadArray (k + 1) type (sizeBytes items.length ++ Doc.itemsBytes items ++ rest) =
      .ok (.array (Doc.itemsJson items), rest) := by
  have hturn : ∀ d ∈ items, ∀ (acc : List JsonValue) rest,
      arrayTurn (loadValue k type) acc (d.valueBytes ++ rest) = .ok (acc ++ [d.toJsonValue], rest) :=
    fun d hd acc rest => by simp only [arrayTurn, h d hd]
  rw [loadArray, List.append_assoc, readVarint_sizeBytes hcount]
  simp only [Doc.itemsBytes_eq, iterate_flatMap hturn, foldl_push, List.nil_append]

/-! ## The reader over a document -/

/-- What the reader does with the bytes of a document: as an entry, with room
for three frames a level and two more, it reads the entry's bytes back as the
document's value; as an entry of an array, with one frame less, its value's
bytes. -/
structure Doc.Reads (d : Doc) : Prop where
  entry : ∀ {budget : Nat}, 3 * d.depth + 2 ≤ budget → ∀ rest : List UInt8,
    loadEntry budget (d.entryBytes ++ rest) = .ok (d.toJsonValue, rest)
  value : d.isItem = true → ∀ {budget : Nat}, 3 * d.depth + 1 ≤ budget → ∀ rest : List UInt8,
    loadValue budget d.itemType (d.valueBytes ++ rest) = .ok (d.toJsonValue, rest)

/-- The entries of a section, each of which reads back. -/
theorem loadSection_of_reads {members : List (List UInt8 × Doc)} (hcount : members.length ≤ MAX_PACKED_SIZE)
    (h : ∀ m ∈ members, m.1 ≠ [] ∧ m.1.length ≤ 255 ∧ m.2.Reads) {k : Nat} (hk : 3 * Doc.membersDepth members + 2 ≤ k)
    (rest : List UInt8) :
    loadSection (k + 1) (sizeBytes members.length ++ Doc.membersBytes members ++ rest) =
      .ok ((Doc.object members).toJsonValue, rest) :=
  loadSection_membersBytes hcount (fun m hm => ⟨(h m hm).1, (h m hm).2.1,
    (h m hm).2.2.entry (by have := Doc.depth_le_membersDepth hm; omega)⟩) rest

/-- **The reader reads the grammar.** Every well-formed document, by induction
over its entries. -/
theorem Doc.reads (d : Doc) : d.wellFormed = true → d.Reads := by
  induction d using Doc.rec_members with
  | scalar v =>
    intro hwf
    have hfits : v.fits = true := by simpa [Doc.wellFormed] using hwf
    refine ⟨fun {budget} hb rest => ?_, fun _ {budget} hb rest => ?_⟩
    · obtain ⟨k, rfl⟩ : ∃ k, budget = k + 1 + 1 := ⟨budget - 2, by omega⟩
      have hflag : v.type &&& BIN_KV_SERIALIZE_FLAG_ARRAY = 0 := Doc.itemType_and_flag (.scalar v)
      rw [Doc.entryBytes, List.cons_append, loadEntry_value hflag]
      exact v.loadValue_bytes hfits k rest
    · obtain ⟨k, rfl⟩ : ∃ k, budget = k + 1 := ⟨budget - 1, by omega⟩
      exact v.loadValue_bytes hfits k rest
  | object members ih =>
    intro hwf
    simp only [Doc.wellFormed, Bool.and_eq_true, decide_eq_true_eq, Doc.membersWellFormed_iff] at hwf
    obtain ⟨hcount, hmembers⟩ := hwf
    have hentries : ∀ m ∈ members, m.1 ≠ [] ∧ m.1.length ≤ 255 ∧ m.2.Reads := fun m hm =>
      ⟨(hmembers m hm).1, (hmembers m hm).2.1, ih m hm (hmembers m hm).2.2⟩
    -- the members are read two frames further down than the object's value
    refine ⟨fun {budget} hb rest => ?_, fun _ {budget} hb rest => ?_⟩
    · obtain ⟨k, rfl⟩ : ∃ k, budget = k + 1 + 1 + 1 := ⟨budget - 3, by simp only [Doc.depth] at hb; omega⟩
      have hflag : BIN_KV_SERIALIZE_TYPE_OBJECT &&& BIN_KV_SERIALIZE_FLAG_ARRAY = 0 :=
        Doc.itemType_and_flag (.object members)
      rw [Doc.entryBytes, List.cons_append, loadEntry_value hflag, loadValue_object]
      exact loadSection_of_reads hcount hentries (by simp only [Doc.depth] at hb; omega) rest
    · obtain ⟨k, rfl⟩ : ∃ k, budget = k + 1 + 1 := ⟨budget - 2, by simp only [Doc.depth] at hb; omega⟩
      rw [Doc.valueBytes, Doc.itemType, loadValue_object]
      exact loadSection_of_reads hcount hentries (by simp only [Doc.depth] at hb; omega) rest
  | array items ih =>
    intro hwf
    simp only [Doc.wellFormed, Bool.and_eq_true, Bool.not_eq_true', List.isEmpty_eq_false_iff,
      decide_eq_true_eq, Doc.itemsWellFormed_iff] at hwf
    obtain ⟨⟨hne, hcount⟩, hitems⟩ := hwf
    obtain ⟨first, rest, rfl⟩ := List.exists_cons_of_ne_nil hne
    -- every entry has the type of the first, which the preamble carries
    have hvalues : ∀ {k}, 3 * Doc.itemsDepth (first :: rest) + 1 ≤ k → ∀ d ∈ first :: rest,
        ∀ rest, loadValue k first.itemType (d.valueBytes ++ rest) = .ok (d.toJsonValue, rest) := by
      intro k hk d hd
      have htype : d.itemType = first.itemType := by
        rw [(hitems d hd).2.1, (hitems first List.mem_cons_self).2.1]
      rw [← htype]
      exact (ih d hd (hitems d hd).2.2).value (hitems d hd).1 (by have := Doc.depth_le_itemsDepth hd; omega)
    refine ⟨fun {budget} hb bytes => ?_, fun h => by simp [Doc.isItem] at h⟩
    obtain ⟨k, rfl⟩ : ∃ k, budget = k + 1 + 1 := ⟨budget - 2, by simp only [Doc.depth] at hb; omega⟩
    obtain ⟨hflag, hunflag⟩ := Doc.flag_itemType first
    rw [Doc.entryBytes, Doc.firstType, List.cons_append, loadEntry_array hflag, hunflag]
    exact loadArray_itemsBytes hcount (hvalues (by simp only [Doc.depth] at hb; omega)) bytes

/-! ## The round trip -/

theorem storageBlockHeader_eq : storageBlockHeader = storageHeader := by decide

/-- What `dump` writes after the calls of the entries of a well-formed root
object: the header, the count of the entries and their bytes. -/
theorem dump_run_membersCalls {members : List (List UInt8 × Doc)} (hwf : (Doc.object members).wellFormed = true) :
    (init.run (Doc.membersCalls members)).bind dump =
      .ok (storageBlockHeader ++ sizeBytes members.length ++ Doc.membersBytes members) := by
  simp only [Doc.wellFormed, Bool.and_eq_true, decide_eq_true_eq, Doc.membersWellFormed_iff] at hwf
  obtain ⟨hcount, hmembers⟩ := hwf
  have hentries : ∀ m ∈ members, m.1 ≠ [] ∧ m.1.length ≤ 255 ∧ m.2.Writes := fun m hm =>
    ⟨(hmembers m hm).1, (hmembers m hm).2.1, m.2.writes (hmembers m hm).2.2⟩
  have hrun : (Doc.membersCalls members).foldlM apply init =
      .ok ⟨([] ++ Doc.membersBytes members) :: [], ⟨.object, [], 0 + members.length⟩ :: []⟩ :=
    run_membersCalls_of hentries [] 0
  simp only [run, hrun, Except.bind, dump, List.getLast?_singleton, Nat.zero_add, writeArraySize_of_le hcount,
    List.nil_append, bind, pure, Except.pure]

/-- **The round trip.** The bytes `dump` writes for a well-formed root object
are read back by `parseBinary`, with room for three frames a level, as the
object's value. -/
theorem parseBinary_dump {members : List (List UInt8 × Doc)} (hwf : (Doc.object members).wellFormed = true)
    {d : Nat} (hd : 3 * (Doc.object members).depth ≤ d) :
    ∃ bytes, (init.run (Doc.membersCalls members)).bind dump = .ok bytes ∧
      parseBinary d bytes = .ok (Doc.object members).toJsonValue := by
  refine ⟨_, dump_run_membersCalls hwf, ?_⟩
  simp only [Doc.wellFormed, Bool.and_eq_true, decide_eq_true_eq, Doc.membersWellFormed_iff] at hwf
  obtain ⟨hcount, hmembers⟩ := hwf
  obtain ⟨k, rfl⟩ : ∃ k, d = k + 1 := ⟨d - 1, by simp only [Doc.depth] at hd; omega⟩
  have hsection := loadSection_of_reads (k := k) hcount
    (fun m hm => ⟨(hmembers m hm).1, (hmembers m hm).2.1, m.2.reads (hmembers m hm).2.2⟩)
    (by simp only [Doc.depth] at hd; omega) []
  rw [List.append_nil] at hsection
  rw [storageBlockHeader_eq, List.append_assoc, parseBinary_storageHeader, hsection]

/-- A root object holding an array of two `int16_t`, one negative. -/
theorem parseBinary_dump_int16Array :
    (Doc.object [([97], .array [.scalar (.int16 (-3)), .scalar (.int16 5)])]).wellFormed = true ∧
      3 * (Doc.object [([97], .array [.scalar (.int16 (-3)), .scalar (.int16 5)])]).depth ≤ 6 ∧
      ∃ bytes, (init.run (Doc.membersCalls [([97], .array [.scalar (.int16 (-3)), .scalar (.int16 5)])])).bind dump =
          .ok bytes ∧
        parseBinary 6 bytes = .ok (Doc.object [([97], .array [.scalar (.int16 (-3)), .scalar (.int16 5)])]).toJsonValue :=
  ⟨by decide, by decide, parseBinary_dump (by decide) (by decide)⟩

end KVBinary

end Cn
