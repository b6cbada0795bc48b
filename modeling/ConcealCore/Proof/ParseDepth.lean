import ConcealCore.Spec.KVBinary

/-!
# How deep the parsers recurse

Neither parser counts its depth, and nothing bounds it but the input. A Levin
body of `n + 14` bytes, one entry holding an array of arrays `n` deep, takes
`2 n + 3` frames of `loadSection`, `loadEntry`, `loadValue` and `loadArray`
(`parseBinary_nestedPayload`); a JSON text of `n + 1` brackets and as many
closing ones takes `2 n + 2` frames of `operator>>` and `readArray`
(`fromString_brackets`). On a stack with room for fewer, either parse crashes
(`parse_recursion_depth_unbounded`).
-/

namespace Cn

open Descent JsonValue

/-- An array holding the next, `n` deep, around an empty array. -/
def tower : Nat → JsonValue
  | 0 => .array []
  | n + 1 => .array [tower n]

@[simp] theorem depth_tower (n : Nat) : (tower n).depth = n + 1 := by
  induction n with
  | zero => rfl
  | succ n ih => simp [tower, depth, depthItems, ih]

namespace KVBinary

/-- A varint of one byte: its two low bits are clear. -/
theorem readVarint_byte {b : UInt8} (hb : b &&& PORTABLE_RAW_SIZE_MARK_MASK = PORTABLE_RAW_SIZE_MARK_BYTE)
    (s : List UInt8) : readVarint (b :: s) = .ok (b.toNat / 4, s) := by
  simp [readVarint, readByte, readBytes, bytesLeft, hb, littleEndian]

/-- An array value is an array of arrays. -/
theorem loadValue_array (d : Nat) (s : List UInt8) :
    loadValue (d + 1) BIN_KV_SERIALIZE_TYPE_ARRAY s = loadArray d BIN_KV_SERIALIZE_TYPE_ARRAY s := by
  rw [loadValue]
  rfl

/-- The counts of arrays of arrays `n` deep: `n` ones and a zero, as varints. -/
def nestedCounts (n : Nat) : List UInt8 := List.replicate n 4 ++ [0]

theorem nestedCounts_succ (n : Nat) : nestedCounts (n + 1) = 4 :: nestedCounts n := rfl

/-- **Arrays of arrays `n` deep take `2 n + 1` frames**, by induction on `n`:
each level is a `loadArray` and the `loadValue` of its one item. -/
theorem loadArray_nestedCounts (n : Nat) :
    ∀ (d : Nat) (rest : List UInt8), loadArray d BIN_KV_SERIALIZE_TYPE_ARRAY (nestedCounts n ++ rest) =
      if 2 * n + 1 ≤ d then .ok (tower n, rest) else .error .stackOverflow := by
  have hone : (4 : UInt8).toNat / 4 = 0 + 1 := by decide
  induction n with
  | zero =>
    rintro (_ | d) rest
    · rfl
    · simp only [nestedCounts, List.replicate_zero, List.nil_append, List.cons_append, loadArray,
        readVarint_byte (by decide : (0 : UInt8) &&& _ = _)]
      rfl
  | succ n ih =>
    rintro (_ | _ | d) rest
    · rfl
    · -- the item's `loadValue` has no room left
      simp only [nestedCounts_succ, List.cons_append, loadArray,
        readVarint_byte (by decide : (4 : UInt8) &&& _ = _), hone, iterate_succ, arrayTurn]
      rfl
    · simp only [nestedCounts_succ, List.cons_append, loadArray,
        readVarint_byte (by decide : (4 : UInt8) &&& _ = _), hone, iterate_succ, arrayTurn,
        loadValue_array, ih d rest]
      by_cases hd : 2 * n + 1 ≤ d
      · rw [if_pos hd, if_pos (by omega)]
        rfl
      · rw [if_neg hd, if_neg (by omega)]

/-- The header of a portable-storage body: both signatures and version 1. -/
def storageHeader : List UInt8 := [0x01, 0x11, 0x01, 0x01, 0x01, 0x01, 0x02, 0x01, 0x01]

/-- A body holding one entry, `a`, an array of arrays `n` deep. -/
def nestedPayload (n : Nat) : List UInt8 :=
  storageHeader ++ [4, 1, 'a'.toUInt8, BIN_KV_SERIALIZE_FLAG_ARRAY ||| BIN_KV_SERIALIZE_TYPE_ARRAY] ++
    nestedCounts n

theorem length_nestedPayload (n : Nat) : (nestedPayload n).length = n + 14 := by
  simp only [nestedPayload, storageHeader, nestedCounts, List.length_append, List.length_cons,
    List.length_replicate, List.length_nil]
  omega

/-- Past a good header `parseBinary` is its root section. -/
theorem parseBinary_storageHeader (d : Nat) (s : List UInt8) :
    parseBinary d (storageHeader ++ s) = match loadSection d s with
      | .error e => .error e
      | .ok (v, _) => .ok v := by
  have hread : readBytes 9 (storageHeader ++ s) = .ok (storageHeader, s) := by
    simp [readBytes, storageHeader]
  have hsig : ¬ (littleEndian (storageHeader.take 4) ≠ PORTABLE_STORAGE_SIGNATUREA ∨
      littleEndian ((storageHeader.drop 4).take 4) ≠ PORTABLE_STORAGE_SIGNATUREB) := by decide
  have hver : ¬ storageHeader.getD 8 0 ≠ PORTABLE_STORAGE_FORMAT_VER := by decide
  rw [parseBinary, hread]
  dsimp only
  exact (if_neg hsig).trans ((if_neg hver).trans rfl)

/-- A one-byte name. -/
theorem readName_one (name : List UInt8) (c : UInt8) (s : List UInt8) :
    readName name (1 :: c :: s) = .ok ([c], s) := by
  simp [readName, readByte, readBytes]

/-- An entry with the array flag on the array type is an array of arrays. -/
theorem loadEntry_arrayOfArrays (d : Nat) (s : List UInt8) :
    loadEntry (d + 1) ((BIN_KV_SERIALIZE_FLAG_ARRAY ||| BIN_KV_SERIALIZE_TYPE_ARRAY) :: s) =
      loadArray d BIN_KV_SERIALIZE_TYPE_ARRAY s := by
  rw [loadEntry]
  rfl

/-- **The body takes `2 n + 3` frames**: the root section, its entry, and the
arrays. -/
theorem parseBinary_nestedPayload (n d : Nat) :
    parseBinary d (nestedPayload n) =
      if 2 * n + 3 ≤ d then .ok (.object [(['a'.toUInt8], tower n)]) else .error .stackOverflow := by
  have hone : (4 : UInt8).toNat / 4 = 0 + 1 := by decide
  have hbody := loadArray_nestedCounts n
  rw [nestedPayload, List.append_assoc, parseBinary_storageHeader]
  rcases d with _ | _ | d
  · rfl
  · simp only [List.cons_append, List.nil_append, loadSection,
      readVarint_byte (by decide : (4 : UInt8) &&& _ = _), hone, iterate_succ, sectionTurn, readName_one]
    rfl
  · simp only [List.cons_append, List.nil_append, loadSection,
      readVarint_byte (by decide : (4 : UInt8) &&& _ = _), hone, iterate_succ, sectionTurn, readName_one,
      loadEntry_arrayOfArrays]
    rw [← List.append_nil (nestedCounts n), hbody d []]
    by_cases hd : 2 * n + 1 ≤ d
    · rw [if_pos hd, if_pos (by omega)]
      rfl
    · rw [if_neg hd, if_neg (by omega)]

end KVBinary

namespace JsonValue

variable (toReal : List UInt8 → UInt64)

/-- `n` opening brackets and as many closing ones. -/
def brackets (n : Nat) : List UInt8 := List.replicate n '['.toUInt8 ++ List.replicate n ']'.toUInt8

theorem length_brackets (n : Nat) : (brackets n).length = 2 * n := by
  simp only [brackets, List.length_append, List.length_replicate]
  omega

theorem brackets_succ_append (n : Nat) (rest : List UInt8) :
    brackets (n + 1) ++ rest = '['.toUInt8 :: (brackets n ++ ']'.toUInt8 :: rest) := by
  rw [brackets, brackets, List.replicate_succ, List.replicate_succ']
  simp

theorem readValue_openBracket (d : Nat) (s : List UInt8) :
    readValue toReal (d + 1) ('['.toUInt8 :: s) = readArray toReal d s := by
  rw [readValue]
  rfl

theorem readArray_closeBracket (d : Nat) (s : List UInt8) :
    readArray toReal (d + 1) (']'.toUInt8 :: s) = .ok (array [], s) := by
  rw [readArray]
  rfl

/-- An array that does not start with `]` is read item by item. -/
theorem readArray_openBracket (d : Nat) (s : List UInt8) :
    readArray toReal (d + 1) ('['.toUInt8 :: s) =
      match loopUntil (arrayTurn (readValue toReal d)) .turnsExhausted (s.length + 2) [] ('['.toUInt8 :: s) with
      | .error e => .error e
      | .ok (items, r) => .ok (array items, r) := by
  rw [readArray]
  rfl

/-- **Brackets `n + 1` deep take `2 n + 2` frames**, by induction on `n`: each
level is an `operator>>` and the `readArray` it calls. -/
theorem readValue_brackets (n : Nat) :
    ∀ (d : Nat) (rest : List UInt8), readValue toReal d (brackets (n + 1) ++ rest) =
      if 2 * n + 2 ≤ d then .ok (tower n, rest) else .error .stackOverflow := by
  induction n with
  | zero =>
    rintro (_ | _ | d) rest
    · rfl
    · rfl
    · rw [brackets_succ_append, readValue_openBracket]
      exact readArray_closeBracket toReal d rest
  | succ n ih =>
    rintro (_ | _ | d) rest
    · rfl
    · rfl
    · rw [brackets_succ_append, readValue_openBracket]
      have hinner := brackets_succ_append n (']'.toUInt8 :: rest)
      rw [hinner, readArray_openBracket, ← hinner, loopUntil_succ, arrayTurn, ih d (']'.toUInt8 :: rest)]
      by_cases hd : 2 * n + 2 ≤ d
      · rw [if_pos hd, if_pos (by omega)]
        rfl
      · rw [if_neg hd, if_neg (by omega)]

theorem fromString_brackets (n d : Nat) :
    fromString toReal d (brackets (n + 1)) =
      if 2 * n + 2 ≤ d then .ok (tower n) else .error .stackOverflow := by
  rw [fromString, ← List.append_nil (brackets (n + 1)), readValue_brackets]
  by_cases hd : 2 * n + 2 ≤ d
  · simp only [if_pos hd]
  · simp only [if_neg hd]

end JsonValue

/-- **No constant bounds how deep the parsers recurse.** For every number `C`
of frames there is a Levin body of `C + 14` bytes, within
`LEVIN_DEFAULT_MAX_PACKET_SIZE` for every `C` up to `10⁸ - 14`, on which
`parseBinary` overflows a stack of `C` frames, though with `2 C + 3` it reads a
value `C + 2` deep; and a request body of `2 C + 2` bytes on which
`JsonValue::fromString` overflows it, though with `2 C + 2` frames it reads a
value `C + 1` deep. -/
theorem parse_recursion_depth_unbounded (toReal : List UInt8 → UInt64) (C : Nat) :
    (KVBinary.nestedPayload C).length = C + 14 ∧
    KVBinary.parseBinary C (KVBinary.nestedPayload C) = .error .stackOverflow ∧
    (∃ v, KVBinary.parseBinary (2 * C + 3) (KVBinary.nestedPayload C) = .ok v ∧ v.depth = C + 2) ∧
    (JsonValue.brackets (C + 1)).length = 2 * C + 2 ∧
    JsonValue.fromString toReal C (JsonValue.brackets (C + 1)) = .error .stackOverflow ∧
    (∃ v, JsonValue.fromString toReal (2 * C + 2) (JsonValue.brackets (C + 1)) = .ok v ∧ v.depth = C + 1) := by
  refine ⟨KVBinary.length_nestedPayload C, ?_, ⟨.object [(['a'.toUInt8], tower C)], ?_, ?_⟩, JsonValue.length_brackets (C + 1), ?_,
    ⟨tower C, ?_, depth_tower C⟩⟩
  · rw [KVBinary.parseBinary_nestedPayload, if_neg (by omega)]
  · rw [KVBinary.parseBinary_nestedPayload, if_pos (Nat.le_refl _)]
  · simp [depth, depthMembers]
  · rw [JsonValue.fromString_brackets, if_neg (by omega)]
  · rw [JsonValue.fromString_brackets, if_pos (Nat.le_refl _)]

end Cn
