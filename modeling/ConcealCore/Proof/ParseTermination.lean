import ConcealCore.Proof.ParseDepth

/-!
# The parsers end, within a stack linear in the input

Every nested call of either parser reads a byte first, or is called by one
that did. So a stack with room for `2 n` frames is enough for a Levin body of
`n` bytes, and `2 n + 1` for a JSON text, on which either parser returns a
value or throws (`parseBinary_ne_of_le`, `fromString_ne_of_le`), and more room
changes nothing (`parseBinary_succ`, `fromString_succ`): both parsers terminate
(`parseBinary_terminates`, `fromString_terminates`). With
`parse_recursion_depth_unbounded`, the depth either parser needs is linear in
its input.

Each fact is proved level by level: a structure over the mutually recursive
functions at one budget, carried from `d` to `d + 1` by the step lemmas of the
loops (`iterate_avoids`, `loopUntil_avoids`, `iterate_congr`,
`loopUntil_congr`).
-/

namespace Cn

open Descent

/-- An error that is not a thrown exception: a budget that ran out. -/
def NotThrown (e : ParseError) : Prop := ∀ what, e ≠ .exception what

theorem notThrown_stackOverflow : NotThrown .stackOverflow := fun _ h => by cases h

theorem notThrown_turnsExhausted : NotThrown .turnsExhausted := fun _ h => by cases h

/-- A reader of one scalar value: it consumes its input and throws nothing but
exceptions. -/
structure ScalarReader (read : Parser UInt8 ParseError JsonValue) : Prop where
  consumes : Consumes read
  ne : ∀ e, NotThrown e → ∀ s, read s ≠ .error e

namespace KVBinary

/-! ## The readers -/

theorem readByte_shrinks : Shrinks readByte := by
  rintro (_ | ⟨b, s⟩) a r h
  · cases h
  · cases h
    exact Nat.lt_succ_self _

theorem readBytes_consumes (n : Nat) : Consumes (readBytes n) := by
  intro s a r h
  unfold readBytes at h
  split at h
  · cases h
    simp
  · cases h

theorem readBytes_shrinks {n : Nat} (hn : 0 < n) : Shrinks (readBytes n) := by
  intro s a r h
  unfold readBytes at h
  split at h
  · cases h
    simp only [List.length_drop]
    omega
  · cases h

theorem readVarint_shrinks : Shrinks readVarint := by
  rintro (_ | ⟨b, s⟩) v r h
  · cases h
  · unfold readVarint at h
    dsimp only [readByte] at h
    generalize bytesLeft _ = k at h
    rcases hread : readBytes k s with e | ⟨rest, s'⟩ <;> rw [hread] at h
    · cases h
    · obtain ⟨-, rfl⟩ := Prod.mk.inj (Except.ok.inj h)
      exact Nat.lt_succ_of_le (readBytes_consumes k s rest _ hread)

theorem readName_shrinks (name : List UInt8) : Shrinks (readName name) := by
  rintro (_ | ⟨b, s⟩) a r h
  · cases h
  · unfold readName at h
    dsimp only [readByte] at h
    split at h
    · exact Nat.lt_succ_of_le (readBytes_consumes _ s a r h)
    · cases h
      exact Nat.lt_succ_self _

theorem readString_shrinks : Shrinks readString := by
  intro s a r h
  unfold readString at h
  rcases hv : readVarint s with e | ⟨size, s'⟩ <;> rw [hv] at h
  · cases h
  · dsimp only at h
    split at h
    · cases h
    · exact Nat.lt_of_le_of_lt (readBytes_consumes size s' a r h) (readVarint_shrinks s size s' hv)

theorem readStringJson_shrinks : Shrinks readStringJson := by
  intro s a r h
  unfold readStringJson at h
  rcases hv : readString s with e | ⟨str, s'⟩ <;> rw [hv] at h
  · cases h
  · obtain ⟨-, rfl⟩ := Prod.mk.inj (Except.ok.inj h)
    exact readString_shrinks s str _ hv

theorem readIntegerJson_shrinks {width : Nat} (hw : 0 < width) (signed : Bool) :
    Shrinks (readIntegerJson width signed) := by
  intro s a r h
  unfold readIntegerJson at h
  rcases hv : readBytes width s with e | ⟨bytes, s'⟩ <;> rw [hv] at h
  · cases h
  · obtain ⟨-, rfl⟩ := Prod.mk.inj (Except.ok.inj h)
    exact readBytes_shrinks hw s bytes _ hv

theorem readDoubleJson_shrinks : Shrinks readDoubleJson := by
  intro s a r h
  unfold readDoubleJson at h
  rcases hv : readBytes 8 s with e | ⟨bytes, s'⟩ <;> rw [hv] at h
  · cases h
  · obtain ⟨-, rfl⟩ := Prod.mk.inj (Except.ok.inj h)
    exact readBytes_shrinks (by decide) s bytes _ hv

/-! ## The errors a reader never throws -/

section Readers

variable {e : ParseError} (he : NotThrown e)
include he

theorem readBytes_ne (n : Nat) (s : List UInt8) : readBytes n s ≠ .error e := by
  unfold readBytes
  split
  · exact ok_ne_error
  · exact fun h => he _ (Except.error.inj h).symm

theorem readByte_ne (s : List UInt8) : readByte s ≠ .error e := by
  rcases s with _ | ⟨b, s⟩
  · exact fun h => he _ (Except.error.inj h).symm
  · exact ok_ne_error

theorem readVarint_ne (s : List UInt8) : readVarint s ≠ .error e := by
  unfold readVarint
  rcases hb : readByte s with e' | ⟨b, s'⟩
  · exact error_ne hb (readByte_ne he s)
  · dsimp only
    rcases hr : readBytes (bytesLeft (b &&& PORTABLE_RAW_SIZE_MARK_MASK)) s' with e'' | ⟨rest, s''⟩
    · exact error_ne hr (readBytes_ne he _ s')
    · exact ok_ne_error

theorem readString_ne (s : List UInt8) : readString s ≠ .error e := by
  unfold readString
  rcases hv : readVarint s with e' | ⟨size, s'⟩
  · exact error_ne hv (readVarint_ne he s)
  · dsimp only
    split
    · exact fun h => he _ (Except.error.inj h).symm
    · exact readBytes_ne he size s'

theorem readStringJson_ne (s : List UInt8) : readStringJson s ≠ .error e := by
  unfold readStringJson
  rcases hv : readString s with e' | ⟨str, s'⟩
  · exact error_ne hv (readString_ne he s)
  · exact ok_ne_error

theorem readName_ne (name s : List UInt8) : readName name s ≠ .error e := by
  unfold readName
  rcases hb : readByte s with e' | ⟨len, s'⟩
  · exact error_ne hb (readByte_ne he s)
  · dsimp only
    split
    · exact readBytes_ne he _ s'
    · exact ok_ne_error

theorem readIntegerJson_ne (width : Nat) (signed : Bool) (s : List UInt8) :
    readIntegerJson width signed s ≠ .error e := by
  unfold readIntegerJson
  rcases hv : readBytes width s with e' | ⟨bytes, s'⟩
  · exact error_ne hv (readBytes_ne he width s)
  · exact ok_ne_error

theorem readDoubleJson_ne (s : List UInt8) : readDoubleJson s ≠ .error e := by
  unfold readDoubleJson
  rcases hv : readBytes 8 s with e' | ⟨bytes, s'⟩
  · exact error_ne hv (readBytes_ne he 8 s)
  · exact ok_ne_error

end Readers

/-! ## The loops' turns -/

section Turns

variable {e : ParseError}

theorem sectionTurn_consumes {entry : Parser UInt8 ParseError JsonValue} (h : Consumes entry)
    (st : List UInt8 × List (List UInt8 × JsonValue)) : Consumes (sectionTurn entry st) := by
  intro s a r hs
  unfold sectionTurn at hs
  rcases hn : readName st.1 s with e' | ⟨name, s₁⟩ <;> rw [hn] at hs
  · cases hs
  · dsimp only at hs
    rcases hv : entry s₁ with e' | ⟨v, s₂⟩ <;> rw [hv] at hs
    · cases hs
    · obtain ⟨-, rfl⟩ := Prod.mk.inj (Except.ok.inj hs)
      exact Nat.le_trans (h s₁ v _ hv) (Nat.le_of_lt (readName_shrinks _ s name s₁ hn))

theorem arrayTurn_consumes {value : Parser UInt8 ParseError JsonValue} (h : Consumes value)
    (items : List JsonValue) : Consumes (arrayTurn value items) := by
  intro s a r hs
  unfold arrayTurn at hs
  rcases hv : value s with e' | ⟨v, s₁⟩ <;> rw [hv] at hs
  · cases hs
  · obtain ⟨-, rfl⟩ := Prod.mk.inj (Except.ok.inj hs)
    exact h s v _ hv

/-- A turn of `loadSection` reads a name first, so its entry sees a byte less. -/
theorem sectionTurn_avoids (he : NotThrown e) {entry : Parser UInt8 ParseError JsonValue} {n : Nat}
    (h : Avoids entry e n) (st : List UInt8 × List (List UInt8 × JsonValue)) :
    Avoids (sectionTurn entry st) e (n + 1) := by
  intro s hs
  unfold sectionTurn
  rcases hn : readName st.1 s with e' | ⟨name, s₁⟩
  · exact error_ne hn (readName_ne he _ s)
  · dsimp only
    have hlt := readName_shrinks _ s name s₁ hn
    rcases hv : entry s₁ with e' | ⟨v, s₂⟩
    · exact error_ne hv (h s₁ (by omega))
    · exact ok_ne_error

theorem arrayTurn_avoids {value : Parser UInt8 ParseError JsonValue} {n : Nat} (h : Avoids value e n)
    (items : List JsonValue) : Avoids (arrayTurn value items) e n := by
  intro s hs
  unfold arrayTurn
  rcases hv : value s with e' | ⟨v, s₁⟩
  · exact error_ne hv (h s hs)
  · exact ok_ne_error

theorem sectionTurn_congr {entry entry' : Parser UInt8 ParseError JsonValue}
    (h : ∀ s, entry s ≠ .error e → entry' s = entry s) (st : List UInt8 × List (List UInt8 × JsonValue))
    (s : List UInt8) (hne : sectionTurn entry st s ≠ .error e) : sectionTurn entry' st s = sectionTurn entry st s := by
  unfold sectionTurn at hne ⊢
  rcases hn : readName st.1 s with e' | ⟨name, s₁⟩
  · rfl
  · rw [hn] at hne
    dsimp only at hne ⊢
    have hentry : entry s₁ ≠ .error e := fun hv => hne (by rw [hv])
    rw [h s₁ hentry]

theorem arrayTurn_congr {value value' : Parser UInt8 ParseError JsonValue}
    (h : ∀ s, value s ≠ .error e → value' s = value s) (items : List JsonValue)
    (s : List UInt8) (hne : arrayTurn value items s ≠ .error e) : arrayTurn value' items s = arrayTurn value items s := by
  unfold arrayTurn at hne ⊢
  have hvalue : value s ≠ .error e := fun hv => hne (by rw [hv])
  rw [h s hvalue]

end Turns

/-! ## The scalars -/

theorem readIntegerJson_scalar {width : Nat} (hw : 0 < width) (signed : Bool) :
    ScalarReader (readIntegerJson width signed) :=
  ⟨(readIntegerJson_shrinks hw signed).consumes, fun _ he => readIntegerJson_ne he width signed⟩

theorem readDoubleJson_scalar : ScalarReader readDoubleJson :=
  ⟨readDoubleJson_shrinks.consumes, fun _ he => readDoubleJson_ne he⟩

theorem readStringJson_scalar : ScalarReader readStringJson :=
  ⟨readStringJson_shrinks.consumes, fun _ he => readStringJson_ne he⟩

/-- Every type but an object or an array is read as a scalar, whatever the budget. -/
theorem loadValue_succ_scalar {type : UInt8} (hobj : type ≠ BIN_KV_SERIALIZE_TYPE_OBJECT)
    (harr : type ≠ BIN_KV_SERIALIZE_TYPE_ARRAY) (d : Nat) (s : List UInt8) :
    loadValue (d + 1) type s = loadValue 1 type s := by
  rw [loadValue, loadValue]
  simp only [hobj, harr, if_false]

theorem loadValue_object (d : Nat) (s : List UInt8) :
    loadValue (d + 1) BIN_KV_SERIALIZE_TYPE_OBJECT s = loadSection d s := by
  rw [loadValue]
  rfl

/-- The switch of `loadValue` at a budget of one frame, type by type. -/
theorem scalarReader_loadValue_one {type : UInt8} (hobj : type ≠ BIN_KV_SERIALIZE_TYPE_OBJECT)
    (harr : type ≠ BIN_KV_SERIALIZE_TYPE_ARRAY) : ScalarReader (loadValue 1 type) := by
  by_cases h1 : type = BIN_KV_SERIALIZE_TYPE_INT64
  · rw [show loadValue 1 type = readIntegerJson 8 true from funext fun s => by rw [loadValue, if_pos h1]]
    exact readIntegerJson_scalar (by decide) true
  by_cases h2 : type = BIN_KV_SERIALIZE_TYPE_INT32
  · rw [show loadValue 1 type = readIntegerJson 4 true from funext fun s => by rw [loadValue, if_neg h1, if_pos h2]]
    exact readIntegerJson_scalar (by decide) true
  by_cases h3 : type = BIN_KV_SERIALIZE_TYPE_INT16
  · rw [show loadValue 1 type = readIntegerJson 2 true from funext fun s => by rw [loadValue, if_neg h1, if_neg h2, if_pos h3]]
    exact readIntegerJson_scalar (by decide) true
  by_cases h4 : type = BIN_KV_SERIALIZE_TYPE_INT8
  · rw [show loadValue 1 type = readIntegerJson 1 true from funext fun s => by rw [loadValue, if_neg h1, if_neg h2, if_neg h3, if_pos h4]]
    exact readIntegerJson_scalar (by decide) true
  by_cases h5 : type = BIN_KV_SERIALIZE_TYPE_UINT64
  · rw [show loadValue 1 type = readIntegerJson 8 false from funext fun s => by rw [loadValue, if_neg h1, if_neg h2, if_neg h3, if_neg h4, if_pos h5]]
    exact readIntegerJson_scalar (by decide) false
  by_cases h6 : type = BIN_KV_SERIALIZE_TYPE_UINT32
  · rw [show loadValue 1 type = readIntegerJson 4 false from funext fun s => by rw [loadValue, if_neg h1, if_neg h2, if_neg h3, if_neg h4, if_neg h5, if_pos h6]]
    exact readIntegerJson_scalar (by decide) false
  by_cases h7 : type = BIN_KV_SERIALIZE_TYPE_UINT16
  · rw [show loadValue 1 type = readIntegerJson 2 false from funext fun s => by rw [loadValue, if_neg h1, if_neg h2, if_neg h3, if_neg h4, if_neg h5, if_neg h6, if_pos h7]]
    exact readIntegerJson_scalar (by decide) false
  by_cases h8 : type = BIN_KV_SERIALIZE_TYPE_UINT8
  · rw [show loadValue 1 type = readIntegerJson 1 false from funext fun s => by rw [loadValue, if_neg h1, if_neg h2, if_neg h3, if_neg h4, if_neg h5, if_neg h6, if_neg h7, if_pos h8]]
    exact readIntegerJson_scalar (by decide) false
  by_cases h9 : type = BIN_KV_SERIALIZE_TYPE_DOUBLE
  · rw [show loadValue 1 type = readDoubleJson from funext fun s => by rw [loadValue, if_neg h1, if_neg h2, if_neg h3, if_neg h4, if_neg h5, if_neg h6, if_neg h7, if_neg h8, if_pos h9]]
    exact readDoubleJson_scalar
  by_cases h10 : type = BIN_KV_SERIALIZE_TYPE_BOOL
  · -- a byte, true unless zero
    refine ⟨fun s a r hs => ?_, fun e he s => ?_⟩
    · rw [loadValue, if_neg h1, if_neg h2, if_neg h3, if_neg h4, if_neg h5, if_neg h6, if_neg h7, if_neg h8, if_neg h9, if_pos h10] at hs
      rcases s with _ | ⟨b, s⟩ <;> cases hs
      exact Nat.le_succ _
    · rw [loadValue, if_neg h1, if_neg h2, if_neg h3, if_neg h4, if_neg h5, if_neg h6, if_neg h7, if_neg h8, if_neg h9, if_pos h10]
      rcases s with _ | ⟨b, s⟩
      · exact fun h => he _ (Except.error.inj h).symm
      · exact ok_ne_error
  by_cases h11 : type = BIN_KV_SERIALIZE_TYPE_STRING
  · rw [show loadValue 1 type = readStringJson from funext fun s => by rw [loadValue, if_neg h1, if_neg h2, if_neg h3, if_neg h4, if_neg h5, if_neg h6, if_neg h7, if_neg h8, if_neg h9, if_neg h10, if_pos h11]]
    exact readStringJson_scalar
  -- any other type is unknown
  refine ⟨fun s a r hs => ?_, fun e he s => ?_⟩
  · rw [loadValue, if_neg h1, if_neg h2, if_neg h3, if_neg h4, if_neg h5, if_neg h6, if_neg h7, if_neg h8, if_neg h9, if_neg h10, if_neg h11, if_neg hobj, if_neg harr] at hs
    cases hs
  · rw [loadValue, if_neg h1, if_neg h2, if_neg h3, if_neg h4, if_neg h5, if_neg h6, if_neg h7, if_neg h8, if_neg h9, if_neg h10, if_neg h11, if_neg hobj, if_neg harr]
    exact fun h => he _ (Except.error.inj h).symm

/-! ## Level by level

Each fact about the four functions at budget `d + 1` rests on the same fact at
`d`, so each is a structure over the four proved by induction on the budget. -/

/-- At budget `d` the four functions never return more bytes than they were given. -/
structure ConsumesAt (d : Nat) : Prop where
  sec : Consumes (loadSection d)
  value : ∀ type, Consumes (loadValue d type)
  entry : Consumes (loadEntry d)
  array : ∀ itemType, Consumes (loadArray d itemType)

theorem ConsumesAt.succ {d : Nat} (h : ConsumesAt d) : ConsumesAt (d + 1) where
  sec := by
    intro s a r hs
    rw [loadSection] at hs
    rcases hv : readVarint s with e | ⟨count, s₁⟩ <;> rw [hv] at hs
    · cases hs
    · dsimp only at hs
      rcases hi : iterate (sectionTurn (loadEntry d)) count ([], []) s₁ with e | ⟨⟨name, sec⟩, s₂⟩ <;>
        rw [hi] at hs
      · cases hs
      · obtain ⟨-, rfl⟩ := Prod.mk.inj (Except.ok.inj hs)
        have := iterate_consumes (sectionTurn_consumes h.entry) count _ s₁ _ _ hi
        have := readVarint_shrinks s count s₁ hv
        omega
  value := by
    intro type s a r hs
    by_cases hobj : type = BIN_KV_SERIALIZE_TYPE_OBJECT
    · subst hobj
      rw [loadValue_object] at hs
      exact h.sec s a r hs
    by_cases harr : type = BIN_KV_SERIALIZE_TYPE_ARRAY
    · subst harr
      rw [loadValue_array] at hs
      exact h.array _ s a r hs
    rw [loadValue_succ_scalar hobj harr] at hs
    exact (scalarReader_loadValue_one hobj harr).consumes s a r hs
  entry := by
    rintro (_ | ⟨type, s⟩) a r hs
    · cases hs
    · rw [loadEntry] at hs
      dsimp only [readByte] at hs
      split at hs
      · exact Nat.le_succ_of_le (h.array _ s a r hs)
      · exact Nat.le_succ_of_le (h.value _ s a r hs)
  array := by
    intro itemType s a r hs
    rw [loadArray] at hs
    rcases hv : readVarint s with e | ⟨count, s₁⟩ <;> rw [hv] at hs
    · cases hs
    · dsimp only at hs
      rcases hi : iterate (arrayTurn (loadValue d itemType)) count [] s₁ with e | ⟨items, s₂⟩ <;>
        rw [hi] at hs
      · cases hs
      · obtain ⟨-, rfl⟩ := Prod.mk.inj (Except.ok.inj hs)
        have := iterate_consumes (arrayTurn_consumes (h.value itemType)) count _ s₁ _ _ hi
        have := readVarint_shrinks s count s₁ hv
        omega

theorem consumesAt : ∀ d, ConsumesAt d
  | 0 => ⟨fun _ _ _ h => (by cases h), fun _ _ _ _ h => (by cases h), fun _ _ _ h => (by cases h),
      fun _ _ _ _ h => (by cases h)⟩
  | d + 1 => (consumesAt d).succ

/-- At budget `d` none of the four functions fails with `e` on an input short
enough: twice its length and a frame, or two for `loadValue`, which may recurse
before it reads. -/
structure FitsAt (e : ParseError) (d : Nat) : Prop where
  sec : ∀ m, 2 * m + 1 ≤ d → Avoids (loadSection d) e m
  value : ∀ type m, 2 * m + 2 ≤ d → Avoids (loadValue d type) e m
  entry : ∀ m, 2 * m + 1 ≤ d → Avoids (loadEntry d) e m
  array : ∀ itemType m, 2 * m + 1 ≤ d → Avoids (loadArray d itemType) e m

theorem FitsAt.succ {e : ParseError} (he : NotThrown e) {d : Nat} (h : FitsAt e d) : FitsAt e (d + 1) where
  sec := by
    intro m hm s hs
    rw [loadSection]
    rcases hv : readVarint s with e' | ⟨count, s₁⟩
    · exact error_ne hv (readVarint_ne he s)
    · dsimp only
      have hlt := readVarint_shrinks s count s₁ hv
      -- each turn starts within the bytes after the count, and its entry sees one less
      have hturn : ∀ st, Avoids (sectionTurn (loadEntry d) st) e (s₁.length - 1 + 1) :=
        sectionTurn_avoids he (h.entry (s₁.length - 1) (by omega))
      rcases hi : iterate (sectionTurn (loadEntry d)) count ([], []) s₁ with e' | ⟨⟨name, sec⟩, s₂⟩
      · exact error_ne hi
          (iterate_avoids hturn (sectionTurn_consumes (consumesAt d).entry) count _ s₁ (by omega))
      · exact ok_ne_error
  value := by
    intro type m hm s hs
    by_cases hobj : type = BIN_KV_SERIALIZE_TYPE_OBJECT
    · subst hobj
      rw [loadValue_object]
      exact h.sec m (by omega) s hs
    by_cases harr : type = BIN_KV_SERIALIZE_TYPE_ARRAY
    · subst harr
      rw [loadValue_array]
      exact h.array _ m (by omega) s hs
    rw [loadValue_succ_scalar hobj harr]
    exact (scalarReader_loadValue_one hobj harr).ne e he s
  entry := by
    rintro m hm (_ | ⟨type, s⟩) hs
    · exact fun h' => he _ (Except.error.inj h').symm
    · rw [List.length_cons] at hs
      rw [loadEntry]
      dsimp only [readByte]
      split
      · exact h.array _ (m - 1) (by omega) s (by omega)
      · exact h.value _ (m - 1) (by omega) s (by omega)
  array := by
    intro itemType m hm s hs
    rw [loadArray]
    rcases hv : readVarint s with e' | ⟨count, s₁⟩
    · exact error_ne hv (readVarint_ne he s)
    · dsimp only
      have hlt := readVarint_shrinks s count s₁ hv
      have hturn : ∀ items, Avoids (arrayTurn (loadValue d itemType) items) e s₁.length :=
        arrayTurn_avoids (h.value itemType s₁.length (by omega))
      rcases hi : iterate (arrayTurn (loadValue d itemType)) count [] s₁ with e' | ⟨items, s₂⟩
      · exact error_ne hi
          (iterate_avoids hturn (arrayTurn_consumes ((consumesAt d).value itemType)) count _ s₁ (Nat.le_refl _))
      · exact ok_ne_error

theorem fitsAt {e : ParseError} (he : NotThrown e) : ∀ d, FitsAt e d
  | 0 => ⟨fun _ hm => absurd hm (by omega), fun _ _ hm => absurd hm (by omega), fun _ hm => absurd hm (by omega),
      fun _ _ hm => absurd hm (by omega)⟩
  | d + 1 => (fitsAt he d).succ he

/-- From budget `d` to `d + 1` the four functions change only where they overflowed. -/
structure StableAt (d : Nat) : Prop where
  sec : ∀ s, loadSection d s ≠ .error .stackOverflow → loadSection (d + 1) s = loadSection d s
  value : ∀ type s, loadValue d type s ≠ .error .stackOverflow →
    loadValue (d + 1) type s = loadValue d type s
  entry : ∀ s, loadEntry d s ≠ .error .stackOverflow → loadEntry (d + 1) s = loadEntry d s
  array : ∀ itemType s, loadArray d itemType s ≠ .error .stackOverflow →
    loadArray (d + 1) itemType s = loadArray d itemType s

theorem StableAt.succ {d : Nat} (h : StableAt d) : StableAt (d + 1) where
  sec := by
    intro s hne
    rw [loadSection] at hne ⊢
    rw [loadSection]
    rcases hv : readVarint s with e' | ⟨count, s₁⟩
    · rfl
    · rw [hv] at hne
      dsimp only at hne ⊢
      have hi : iterate (sectionTurn (loadEntry d)) count ([], []) s₁ ≠ .error .stackOverflow :=
        fun hi => hne (by rw [hi])
      rw [iterate_congr (sectionTurn_congr h.entry) count _ s₁ hi]
  value := by
    intro type s hne
    by_cases hobj : type = BIN_KV_SERIALIZE_TYPE_OBJECT
    · subst hobj
      rw [loadValue_object] at hne
      rw [loadValue_object, loadValue_object]
      exact h.sec s hne
    by_cases harr : type = BIN_KV_SERIALIZE_TYPE_ARRAY
    · subst harr
      rw [loadValue_array] at hne
      rw [loadValue_array, loadValue_array]
      exact h.array _ s hne
    rw [loadValue_succ_scalar hobj harr (d + 1), loadValue_succ_scalar hobj harr d]
  entry := by
    rintro (_ | ⟨type, s⟩) hne
    · rfl
    · rw [loadEntry] at hne ⊢
      rw [loadEntry]
      dsimp only [readByte] at hne ⊢
      by_cases hflag : type &&& BIN_KV_SERIALIZE_FLAG_ARRAY ≠ 0
      · rw [if_pos hflag] at hne ⊢
        rw [if_pos hflag]
        exact h.array _ s hne
      · rw [if_neg hflag] at hne ⊢
        rw [if_neg hflag]
        exact h.value _ s hne
  array := by
    intro itemType s hne
    rw [loadArray] at hne ⊢
    rw [loadArray]
    rcases hv : readVarint s with e' | ⟨count, s₁⟩
    · rfl
    · rw [hv] at hne
      dsimp only at hne ⊢
      have hi : iterate (arrayTurn (loadValue d itemType)) count [] s₁ ≠ .error .stackOverflow :=
        fun hi => hne (by rw [hi])
      rw [iterate_congr (arrayTurn_congr (h.value itemType)) count _ s₁ hi]

theorem stableAt : ∀ d, StableAt d
  | 0 => ⟨fun _ h => (h rfl).elim, fun _ _ h => (h rfl).elim, fun _ h => (h rfl).elim,
      fun _ _ h => (h rfl).elim⟩
  | d + 1 => (stableAt d).succ

/-! ## `parseBinary` -/

/-- **`parseBinary` neither overflows nor runs out of turns** on a stack with
room for twice as many frames as its input has bytes. -/
theorem parseBinary_ne_of_le {d : Nat} {s : List UInt8} (hd : 2 * s.length ≤ d) {e : ParseError}
    (he : NotThrown e) : parseBinary d s ≠ .error e := by
  unfold parseBinary
  rcases hr : readBytes 9 s with e' | ⟨hdr, s₁⟩
  · exact error_ne hr (readBytes_ne he 9 s)
  · dsimp only
    have hlt := readBytes_shrinks (by decide) s hdr s₁ hr
    split
    · exact fun h => he _ (Except.error.inj h).symm
    split
    · exact fun h => he _ (Except.error.inj h).symm
    rcases hl : loadSection d s₁ with e' | ⟨v, s₂⟩
    · exact error_ne hl ((fitsAt he d).sec s₁.length (by omega) s₁ (Nat.le_refl _))
    · exact ok_ne_error

/-- More room changes nothing once `parseBinary` does not overflow. -/
theorem parseBinary_succ {d : Nat} {s : List UInt8} (h : parseBinary d s ≠ .error .stackOverflow) :
    parseBinary (d + 1) s = parseBinary d s := by
  unfold parseBinary at h ⊢
  rcases hr : readBytes 9 s with e' | ⟨hdr, s₁⟩
  · rfl
  · rw [hr] at h
    dsimp only at h ⊢
    split
    · rfl
    rename_i hsig
    rw [if_neg hsig] at h
    split
    · rfl
    rename_i hver
    rw [if_neg hver] at h
    have hl : loadSection d s₁ ≠ .error .stackOverflow := fun hl => h (by rw [hl])
    rw [(stableAt d).sec s₁ hl]

/-- **`parseBinary` terminates**: every stack with room for twice as many frames
as the body has bytes gives the same result, a value or an exception. -/
theorem parseBinary_terminates (s : List UInt8) :
    ∃ r : Except ParseError JsonValue, (∀ d, 2 * s.length ≤ d → parseBinary d s = r) ∧
      ((∃ v, r = .ok v) ∨ ∃ what, r = .error (.exception what)) := by
  refine ⟨parseBinary (2 * s.length) s, fun d hd => ?_, ?_⟩
  · -- by induction on the room beyond twice the length
    obtain ⟨k, rfl⟩ := Nat.exists_eq_add_of_le hd
    induction k with
    | zero => rfl
    | succ k ih =>
      rw [← Nat.add_assoc, parseBinary_succ (parseBinary_ne_of_le (by omega) notThrown_stackOverflow),
        ih (by omega)]
  · rcases h : parseBinary (2 * s.length) s with e | v
    · cases e with
      | exception what => exact .inr ⟨what, rfl⟩
      | stackOverflow => exact absurd h (parseBinary_ne_of_le (Nat.le_refl _) notThrown_stackOverflow)
      | turnsExhausted => exact absurd h (parseBinary_ne_of_le (Nat.le_refl _) notThrown_turnsExhausted)
    · exact .inl ⟨v, rfl⟩

end KVBinary

namespace JsonValue

/-! ## The readers of text -/

theorem readNonWsChar_shrinks : Shrinks readNonWsChar := by
  intro s
  induction s with
  | nil => intro a r h; cases h
  | cons c s ih =>
    intro a r h
    unfold readNonWsChar at h
    split at h
    · exact Nat.lt_succ_of_lt (ih a r h)
    · cases h
      exact Nat.lt_succ_self _

theorem readStringToken_cons (c : UInt8) (s : List UInt8) : readStringToken (c :: s) =
    if c = quotationMark then .ok ([], s)
    else if c = reverseSolidus then
      match s with
      | [] => .error unexpectedEnd
      | c' :: s' =>
        match readStringToken s' with
        | .error e => .error e
        | .ok (value, r) => .ok (c :: c' :: value, r)
    else
      match readStringToken s with
      | .error e => .error e
      | .ok (value, r) => .ok (c :: value, r) :=
  (readStringToken.eq_def (c :: s)).trans rfl

theorem readStringToken_shrinks : Shrinks readStringToken := by
  intro s
  induction s using readStringToken.induct with
  | case1 => intro a r h; cases h
  | case2 s =>
    intro a r h
    rw [readStringToken_cons, if_pos rfl] at h
    cases h
    exact Nat.lt_succ_self _
  | case3 hne =>
    intro a r h
    rw [readStringToken_cons, if_neg hne, if_pos rfl] at h
    cases h
  | case4 c s e hs hne _ =>
    intro a r h
    rw [readStringToken_cons, if_neg hne, if_pos rfl] at h
    dsimp only at h
    rw [hs] at h
    cases h
  | case5 c s value r' hs hne ih =>
    intro a r h
    have hlt := ih value r' hs
    rw [readStringToken_cons, if_neg hne, if_pos rfl] at h
    dsimp only at h
    rw [hs] at h
    obtain ⟨-, rfl⟩ := Prod.mk.inj (Except.ok.inj h)
    simp only [List.length_cons]
    omega
  | case6 c s hq hb e hs _ =>
    intro a r h
    rw [readStringToken_cons, if_neg hq, if_neg hb, hs] at h
    cases h
  | case7 c s hq hb value r' hs ih =>
    intro a r h
    have hlt := ih value r' hs
    rw [readStringToken_cons, if_neg hq, if_neg hb, hs] at h
    obtain ⟨-, rfl⟩ := Prod.mk.inj (Except.ok.inj h)
    exact Nat.lt_succ_of_lt hlt

theorem readLiteral_consumes (rest : List UInt8) (value : JsonValue) : Consumes (readLiteral rest value) := by
  intro s a r h
  unfold readLiteral at h
  split at h
  · cases h
    simp
  · cases h

theorem length_readSign_le (s : List UInt8) : (readSign s).2.length ≤ s.length := by
  rcases s with _ | ⟨i, s⟩
  · exact Nat.le_refl _
  · rw [readSign]
    split
    · exact Nat.le_succ _
    · exact Nat.le_refl _

theorem readExponent_consumes : Consumes readExponent := by
  rintro (_ | ⟨c, s⟩) a r h
  · obtain ⟨-, rfl⟩ := Prod.mk.inj (Except.ok.inj h)
    exact Nat.le_refl _
  · rw [readExponent] at h
    by_cases hc : c ≠ 'e'.toUInt8
    · rw [if_pos hc] at h
      obtain ⟨-, rfl⟩ := Prod.mk.inj (Except.ok.inj h)
      exact Nat.le_refl _
    rw [if_neg hc] at h
    have hsign := length_readSign_le s
    rcases hrs : readSign s with ⟨sign, _ | ⟨i, s'⟩⟩ <;> rw [hrs] at h hsign
    · cases h
    · dsimp only at h
      split at h
      · obtain ⟨-, rfl⟩ := Prod.mk.inj (Except.ok.inj h)
        have : ((i :: s').dropWhile isDigit).length ≤ (i :: s').length := (List.dropWhile_suffix _).length_le
        simp only [List.length_cons] at hsign this ⊢
        omega
      · cases h

section Number

variable (toReal : List UInt8 → UInt64)

theorem readNumber_consumes (c : UInt8) : Consumes (readNumber toReal c) := by
  intro s a r h
  have hdrop : (s.dropWhile isDigitOrDot).length ≤ s.length := (List.dropWhile_suffix _).length_le
  unfold readNumber at h
  dsimp only at h
  by_cases hdots : (c :: s.takeWhile isDigitOrDot).count '.'.toUInt8 > 0
  · rw [if_pos hdots] at h
    by_cases hmany : (c :: s.takeWhile isDigitOrDot).count '.'.toUInt8 > 1
    · rw [if_pos hmany] at h
      cases h
    · rw [if_neg hmany] at h
      rcases hx : readExponent (s.dropWhile isDigitOrDot) with e | ⟨exponent, r'⟩ <;> rw [hx] at h
      · cases h
      · obtain ⟨-, rfl⟩ := Prod.mk.inj (Except.ok.inj h)
        exact Nat.le_trans (readExponent_consumes _ _ _ hx) hdrop
  · rw [if_neg hdots] at h
    split at h
    · cases h
    · obtain ⟨-, rfl⟩ := Prod.mk.inj (Except.ok.inj h)
      exact hdrop

theorem readString_consumes : Consumes (readString) := by
  intro s a r h
  unfold readString at h
  rcases hv : readStringToken s with e | ⟨value, r'⟩ <;> rw [hv] at h
  · cases h
  · obtain ⟨-, rfl⟩ := Prod.mk.inj (Except.ok.inj h)
    exact Nat.le_of_lt (readStringToken_shrinks s value _ hv)

end Number

section Readers

variable {e : ParseError} (he : NotThrown e)
include he

theorem readNonWsChar_ne (s : List UInt8) : readNonWsChar s ≠ .error e := by
  induction s with
  | nil => exact fun h => he _ (Except.error.inj h).symm
  | cons c s ih =>
    unfold readNonWsChar
    split
    · exact ih
    · exact ok_ne_error

theorem readStringToken_ne (s : List UInt8) : readStringToken s ≠ .error e := by
  induction s using readStringToken.induct with
  | case1 => exact fun h => he _ (Except.error.inj h).symm
  | case2 s =>
    rw [readStringToken_cons, if_pos rfl]
    exact ok_ne_error
  | case3 hne =>
    rw [readStringToken_cons, if_neg hne, if_pos rfl]
    exact fun h => he _ (Except.error.inj h).symm
  | case4 c s e' hs hne ih =>
    rw [readStringToken_cons, if_neg hne, if_pos rfl]
    dsimp only
    rw [hs]
    exact error_ne hs ih
  | case5 c s value r hs hne _ =>
    rw [readStringToken_cons, if_neg hne, if_pos rfl]
    dsimp only
    rw [hs]
    exact ok_ne_error
  | case6 c s hq hb e' hs ih =>
    rw [readStringToken_cons, if_neg hq, if_neg hb, hs]
    exact error_ne hs ih
  | case7 c s hq hb value r hs _ =>
    rw [readStringToken_cons, if_neg hq, if_neg hb, hs]
    exact ok_ne_error

theorem readLiteral_ne (rest : List UInt8) (value : JsonValue) (s : List UInt8) :
    readLiteral rest value s ≠ .error e := by
  unfold readLiteral
  split
  · exact ok_ne_error
  · exact fun h => he _ (Except.error.inj h).symm

theorem readExponent_ne (s : List UInt8) : readExponent s ≠ .error e := by
  rcases s with _ | ⟨c, s⟩
  · exact ok_ne_error
  · rw [readExponent]
    split
    · exact ok_ne_error
    · rcases readSign s with ⟨sign, _ | ⟨i, s'⟩⟩
      · exact fun h => he _ (Except.error.inj h).symm
      · dsimp only
        split
        · exact ok_ne_error
        · exact fun h => he _ (Except.error.inj h).symm

theorem readNumber_ne (toReal : List UInt8 → UInt64) (c : UInt8) (s : List UInt8) :
    readNumber toReal c s ≠ .error e := by
  unfold readNumber
  dsimp only
  split
  · split
    · exact fun h => he _ (Except.error.inj h).symm
    · rcases hx : readExponent (s.dropWhile isDigitOrDot) with e' | ⟨exponent, r⟩
      · exact error_ne hx (readExponent_ne he _)
      · exact ok_ne_error
  · split
    · exact fun h => he _ (Except.error.inj h).symm
    · exact ok_ne_error

theorem readString_ne (s : List UInt8) : readString s ≠ .error e := by
  unfold readString
  rcases hv : readStringToken s with e' | ⟨value, r⟩
  · exact error_ne hv (readStringToken_ne he s)
  · exact ok_ne_error

end Readers

theorem readLiteral_scalar (rest : List UInt8) (value : JsonValue) : ScalarReader (readLiteral rest value) :=
  ⟨readLiteral_consumes rest value, fun _ he => readLiteral_ne he rest value⟩

theorem readNumber_scalar (toReal : List UInt8 → UInt64) (c : UInt8) : ScalarReader (readNumber toReal c) :=
  ⟨readNumber_consumes toReal c, fun _ he => readNumber_ne he toReal c⟩

theorem readString_scalar : ScalarReader readString :=
  ⟨readString_consumes, fun _ he => readString_ne he⟩

theorem unableToParse_scalar : ScalarReader (fun _ => .error unableToParse) :=
  ⟨fun _ _ _ h => (by cases h), fun _ he _ h => he _ (Except.error.inj h).symm⟩

/-! ## The loops' turns -/

section Turns

variable {e : ParseError}

theorem arrayTurn_shrinks {item : Parser UInt8 ParseError JsonValue} (h : Consumes item)
    (items : List JsonValue) : Shrinks (arrayTurn item items) := by
  intro s a r hs
  unfold arrayTurn at hs
  rcases hv : item s with e' | ⟨v, s₁⟩ <;> rw [hv] at hs
  · cases hs
  dsimp only at hs
  rcases hc : readNonWsChar s₁ with e' | ⟨c, s₂⟩ <;> rw [hc] at hs
  · cases hs
  dsimp only at hs
  have h₁ := h s v s₁ hv
  have h₂ := readNonWsChar_shrinks s₁ c s₂ hc
  split at hs
  · obtain ⟨-, rfl⟩ := Prod.mk.inj (Except.ok.inj hs)
    omega
  split at hs
  · cases hs
  · obtain ⟨-, rfl⟩ := Prod.mk.inj (Except.ok.inj hs)
    omega

theorem arrayTurn_avoids (he : NotThrown e) {item : Parser UInt8 ParseError JsonValue} {n : Nat}
    (h : Avoids item e n) (items : List JsonValue) : Avoids (arrayTurn item items) e n := by
  intro s hs
  unfold arrayTurn
  rcases hv : item s with e' | ⟨v, s₁⟩
  · exact error_ne hv (h s hs)
  dsimp only
  rcases hc : readNonWsChar s₁ with e' | ⟨c, s₂⟩
  · exact error_ne hc (readNonWsChar_ne he s₁)
  dsimp only
  split
  · exact ok_ne_error
  split
  · exact fun h => he _ (Except.error.inj h).symm
  · exact ok_ne_error

theorem arrayTurn_congr {item item' : Parser UInt8 ParseError JsonValue}
    (h : ∀ s, item s ≠ .error e → item' s = item s) (items : List JsonValue) (s : List UInt8)
    (hne : arrayTurn item items s ≠ .error e) : arrayTurn item' items s = arrayTurn item items s := by
  unfold arrayTurn at hne ⊢
  have hitem : item s ≠ .error e := fun hv => hne (by rw [hv])
  rw [h s hitem]

theorem objectTurn_shrinks {member : Parser UInt8 ParseError JsonValue} (h : Consumes member)
    (st : UInt8 × List (List UInt8 × JsonValue)) : Shrinks (objectTurn member st) := by
  intro s a r hs
  unfold objectTurn at hs
  split at hs
  · cases hs
  rcases h₁ : readStringToken s with e' | ⟨name, s₁⟩ <;> rw [h₁] at hs
  · cases hs
  dsimp only at hs
  rcases h₂ : readNonWsChar s₁ with e' | ⟨c, s₂⟩ <;> rw [h₂] at hs
  · cases hs
  dsimp only at hs
  split at hs
  · cases hs
  rcases h₃ : member s₂ with e' | ⟨v, s₃⟩ <;> rw [h₃] at hs
  · cases hs
  dsimp only at hs
  rcases h₄ : readNonWsChar s₃ with e' | ⟨c', s₄⟩ <;> rw [h₄] at hs
  · cases hs
  dsimp only at hs
  -- the name, the colon and the byte after the value each take a byte
  have := readStringToken_shrinks s name s₁ h₁
  have := readNonWsChar_shrinks s₁ c s₂ h₂
  have := h s₂ v s₃ h₃
  have := readNonWsChar_shrinks s₃ c' s₄ h₄
  split at hs
  · obtain ⟨-, rfl⟩ := Prod.mk.inj (Except.ok.inj hs)
    omega
  split at hs
  · cases hs
  rcases h₅ : readNonWsChar s₄ with e' | ⟨c'', s₅⟩ <;> rw [h₅] at hs
  · cases hs
  · have := readNonWsChar_shrinks s₄ c'' s₅ h₅
    obtain ⟨-, rfl⟩ := Prod.mk.inj (Except.ok.inj hs)
    omega

theorem objectTurn_avoids (he : NotThrown e) {member : Parser UInt8 ParseError JsonValue} {n : Nat}
    (h : Avoids member e n) (st : UInt8 × List (List UInt8 × JsonValue)) :
    Avoids (objectTurn member st) e (n + 1) := by
  intro s hs
  unfold objectTurn
  split
  · exact fun h => he _ (Except.error.inj h).symm
  rcases h₁ : readStringToken s with e' | ⟨name, s₁⟩
  · exact error_ne h₁ (readStringToken_ne he s)
  dsimp only
  rcases h₂ : readNonWsChar s₁ with e' | ⟨c, s₂⟩
  · exact error_ne h₂ (readNonWsChar_ne he s₁)
  dsimp only
  split
  · exact fun h => he _ (Except.error.inj h).symm
  have := readStringToken_shrinks s name s₁ h₁
  have := readNonWsChar_shrinks s₁ c s₂ h₂
  rcases h₃ : member s₂ with e' | ⟨v, s₃⟩
  · exact error_ne h₃ (h s₂ (by omega))
  dsimp only
  rcases h₄ : readNonWsChar s₃ with e' | ⟨c', s₄⟩
  · exact error_ne h₄ (readNonWsChar_ne he s₃)
  dsimp only
  split
  · exact ok_ne_error
  split
  · exact fun h => he _ (Except.error.inj h).symm
  rcases h₅ : readNonWsChar s₄ with e' | ⟨c'', s₅⟩
  · exact error_ne h₅ (readNonWsChar_ne he s₄)
  · exact ok_ne_error

theorem objectTurn_congr {member member' : Parser UInt8 ParseError JsonValue}
    (h : ∀ s, member s ≠ .error e → member' s = member s) (st : UInt8 × List (List UInt8 × JsonValue))
    (s : List UInt8) (hne : objectTurn member st s ≠ .error e) :
    objectTurn member' st s = objectTurn member st s := by
  unfold objectTurn at hne ⊢
  split
  · rfl
  rename_i hq
  rw [if_neg hq] at hne
  rcases h₁ : readStringToken s with e' | ⟨name, s₁⟩
  · rfl
  rw [h₁] at hne
  dsimp only at hne ⊢
  rcases h₂ : readNonWsChar s₁ with e' | ⟨c, s₂⟩
  · rfl
  rw [h₂] at hne
  dsimp only at hne ⊢
  split
  · rfl
  rename_i hc
  rw [if_neg hc] at hne
  have hmember : member s₂ ≠ .error e := fun hv => hne (by rw [hv])
  rw [h s₂ hmember]

end Turns

/-! ## `operator>>` one level up -/

section Levels

variable (toReal : List UInt8 → UInt64)

/-- **What `operator>>` does with room for one more frame**, by the first byte
that is not white space: fail for want of one, read an array or an object at
the budget below, or read a scalar the same way at every budget. -/
theorem readValue_succ_cases (s : List UInt8) :
    (∃ e, readNonWsChar s = .error e ∧ ∀ d, readValue toReal (d + 1) s = .error e) ∨
    (∃ s₁, readNonWsChar s = .ok ('['.toUInt8, s₁) ∧ ∀ d, readValue toReal (d + 1) s = readArray toReal d s₁) ∨
    (∃ s₁, readNonWsChar s = .ok ('{'.toUInt8, s₁) ∧ ∀ d, readValue toReal (d + 1) s = readObject toReal d s₁) ∨
    (∃ c s₁ read, readNonWsChar s = .ok (c, s₁) ∧ ScalarReader read ∧ ∀ d, readValue toReal (d + 1) s = read s₁) := by
  rcases hc : readNonWsChar s with e | ⟨c, s₁⟩
  · exact .inl ⟨e, rfl, fun d => by rw [readValue, hc]⟩
  by_cases hb : c = '['.toUInt8
  · subst hb
    exact .inr (.inl ⟨s₁, rfl, fun d => by rw [readValue, hc]; rfl⟩)
  by_cases ho : c = '{'.toUInt8
  · subst ho
    exact .inr (.inr (.inl ⟨s₁, rfl, fun d => by rw [readValue, hc]; rfl⟩))
  refine .inr (.inr (.inr ?_))
  -- the other bytes of the chain, one by one
  by_cases ht : c = 't'.toUInt8
  · exact ⟨c, s₁, _, rfl, readLiteral_scalar _ (bool true), fun d => by
      rw [readValue, hc]; dsimp only; rw [if_neg hb, if_pos ht]⟩
  by_cases hf : c = 'f'.toUInt8
  · exact ⟨c, s₁, _, rfl, readLiteral_scalar _ (bool false), fun d => by
      rw [readValue, hc]; dsimp only; rw [if_neg hb, if_neg ht, if_pos hf]⟩
  by_cases hn : c = '-'.toUInt8 ∨ isDigit c
  · exact ⟨c, s₁, _, rfl, readNumber_scalar toReal c, fun d => by
      rw [readValue, hc]; dsimp only; rw [if_neg hb, if_neg ht, if_neg hf, if_pos hn]⟩
  by_cases hl : c = 'n'.toUInt8
  · exact ⟨c, s₁, _, rfl, readLiteral_scalar _ nil, fun d => by
      rw [readValue, hc]; dsimp only; rw [if_neg hb, if_neg ht, if_neg hf, if_neg hn, if_pos hl]⟩
  by_cases hq : c = quotationMark
  · exact ⟨c, s₁, _, rfl, readString_scalar, fun d => by
      rw [readValue, hc]; dsimp only
      rw [if_neg hb, if_neg ht, if_neg hf, if_neg hn, if_neg hl, if_neg ho, if_pos hq]⟩
  · exact ⟨c, s₁, _, rfl, unableToParse_scalar, fun d => by
      rw [readValue, hc]; dsimp only
      rw [if_neg hb, if_neg ht, if_neg hf, if_neg hn, if_neg hl, if_neg ho, if_neg hq]⟩

/-- At budget `d` the three functions never return more bytes than they were given. -/
structure ConsumesAt (d : Nat) : Prop where
  value : Consumes (readValue toReal d)
  array : Consumes (readArray toReal d)
  object : Consumes (readObject toReal d)

theorem ConsumesAt.succ {d : Nat} (h : ConsumesAt toReal d) : ConsumesAt toReal (d + 1) where
  value := by
    intro s a r hs
    rcases readValue_succ_cases toReal s with ⟨e, -, hv⟩ | ⟨s₁, hc, hv⟩ | ⟨s₁, hc, hv⟩ | ⟨c, s₁, read, hc, hread, hv⟩ <;>
      rw [hv] at hs
    · cases hs
    · exact Nat.le_of_lt (Nat.lt_of_le_of_lt (h.array s₁ a r hs) (readNonWsChar_shrinks s _ s₁ hc))
    · exact Nat.le_of_lt (Nat.lt_of_le_of_lt (h.object s₁ a r hs) (readNonWsChar_shrinks s _ s₁ hc))
    · exact Nat.le_of_lt (Nat.lt_of_le_of_lt (hread.consumes s₁ a r hs) (readNonWsChar_shrinks s c s₁ hc))
  array := by
    intro s a r hs
    rw [readArray] at hs
    rcases hc : readNonWsChar s with e | ⟨c, s₁⟩ <;> rw [hc] at hs
    · cases hs
    dsimp only at hs
    have hlt := readNonWsChar_shrinks s c s₁ hc
    split at hs
    · obtain ⟨-, rfl⟩ := Prod.mk.inj (Except.ok.inj hs)
      omega
    rcases hl : loopUntil (arrayTurn (readValue toReal d)) .turnsExhausted (s₁.length + 2) [] (c :: s₁) with
      e | ⟨items, r'⟩ <;> rw [hl] at hs
    · cases hs
    · obtain ⟨-, rfl⟩ := Prod.mk.inj (Except.ok.inj hs)
      have := loopUntil_consumes (fun items => (arrayTurn_shrinks h.value items).consumes) _ _ _ _ _ hl
      simp only [List.length_cons] at this
      omega
  object := by
    intro s a r hs
    rw [readObject] at hs
    rcases hc : readNonWsChar s with e | ⟨c, s₁⟩ <;> rw [hc] at hs
    · cases hs
    dsimp only at hs
    have hlt := readNonWsChar_shrinks s c s₁ hc
    split at hs
    · obtain ⟨-, rfl⟩ := Prod.mk.inj (Except.ok.inj hs)
      omega
    rcases hl : loopUntil (objectTurn (readValue toReal d)) .turnsExhausted (s₁.length + 1) (c, []) s₁ with
      e | ⟨members, r'⟩ <;> rw [hl] at hs
    · cases hs
    · obtain ⟨-, rfl⟩ := Prod.mk.inj (Except.ok.inj hs)
      have := loopUntil_consumes (fun st => (objectTurn_shrinks h.value st).consumes) _ _ _ _ _ hl
      omega

theorem consumesAt : ∀ d, ConsumesAt toReal d
  | 0 => ⟨fun _ _ _ h => (by cases h), fun _ _ _ h => (by cases h), fun _ _ _ h => (by cases h)⟩
  | d + 1 => (consumesAt d).succ

/-- At budget `d` none of the three functions fails with `e` on an input short
enough: twice its length and a frame for `operator>>`, which reads before it
recurses, and a frame more for the other two, which put a byte back. -/
structure FitsAt (e : ParseError) (d : Nat) : Prop where
  value : ∀ m, 2 * m + 1 ≤ d → Avoids (readValue toReal d) e m
  array : ∀ m, 2 * m + 2 ≤ d → Avoids (readArray toReal d) e m
  object : ∀ m, 2 * m + 2 ≤ d → Avoids (readObject toReal d) e m

theorem FitsAt.succ {e : ParseError} (he : NotThrown e) {d : Nat} (h : FitsAt toReal e d) :
    FitsAt toReal e (d + 1) where
  value := by
    intro m hm s hs
    rcases readValue_succ_cases toReal s with ⟨e', hc, hv⟩ | ⟨s₁, hc, hv⟩ | ⟨s₁, hc, hv⟩ | ⟨c, s₁, read, hc, hread, hv⟩ <;>
      rw [hv]
    · exact error_ne hc (readNonWsChar_ne he s)
    · have := readNonWsChar_shrinks s _ s₁ hc
      exact h.array s₁.length (by omega) s₁ (Nat.le_refl _)
    · have := readNonWsChar_shrinks s _ s₁ hc
      exact h.object s₁.length (by omega) s₁ (Nat.le_refl _)
    · exact hread.ne e he s₁
  array := by
    intro m hm s hs
    rw [readArray]
    rcases hc : readNonWsChar s with e' | ⟨c, s₁⟩
    · exact error_ne hc (readNonWsChar_ne he s)
    dsimp only
    have hlt := readNonWsChar_shrinks s c s₁ hc
    split
    · exact ok_ne_error
    -- the loop starts on the byte put back, and every item fits below
    have hturn : ∀ items, Avoids (arrayTurn (readValue toReal d) items) e (s₁.length + 1) :=
      arrayTurn_avoids he (h.value (s₁.length + 1) (by omega))
    rcases hl : loopUntil (arrayTurn (readValue toReal d)) .turnsExhausted (s₁.length + 2) [] (c :: s₁) with
      e' | ⟨items, r⟩
    · exact error_ne hl (loopUntil_avoids hturn
        (fun items s _ s' hx => arrayTurn_shrinks (consumesAt toReal d).value items s _ s' hx)
        _ _ (c :: s₁) (Nat.le_refl _) (Nat.lt_succ_self _))
    · exact ok_ne_error
  object := by
    intro m hm s hs
    rw [readObject]
    rcases hc : readNonWsChar s with e' | ⟨c, s₁⟩
    · exact error_ne hc (readNonWsChar_ne he s)
    dsimp only
    have hlt := readNonWsChar_shrinks s c s₁ hc
    split
    · exact ok_ne_error
    have hturn : ∀ st, Avoids (objectTurn (readValue toReal d) st) e s₁.length := fun st =>
      (objectTurn_avoids he (h.value s₁.length (by omega)) st).mono (Nat.le_succ _)
    rcases hl : loopUntil (objectTurn (readValue toReal d)) .turnsExhausted (s₁.length + 1) (c, []) s₁ with
      e' | ⟨members, r⟩
    · exact error_ne hl (loopUntil_avoids hturn
        (fun st s _ s' hx => objectTurn_shrinks (consumesAt toReal d).value st s _ s' hx)
        _ _ s₁ (Nat.le_refl _) (Nat.lt_succ_self _))
    · exact ok_ne_error

theorem fitsAt {e : ParseError} (he : NotThrown e) : ∀ d, FitsAt toReal e d
  | 0 => ⟨fun _ hm => absurd hm (by omega), fun _ hm => absurd hm (by omega), fun _ hm => absurd hm (by omega)⟩
  | d + 1 => (fitsAt he d).succ toReal he

/-- From budget `d` to `d + 1` the three functions change only where they overflowed. -/
structure StableAt (d : Nat) : Prop where
  value : ∀ s, readValue toReal d s ≠ .error .stackOverflow → readValue toReal (d + 1) s = readValue toReal d s
  array : ∀ s, readArray toReal d s ≠ .error .stackOverflow → readArray toReal (d + 1) s = readArray toReal d s
  object : ∀ s, readObject toReal d s ≠ .error .stackOverflow →
    readObject toReal (d + 1) s = readObject toReal d s

theorem StableAt.succ {d : Nat} (h : StableAt toReal d) : StableAt toReal (d + 1) where
  value := by
    intro s hne
    rcases readValue_succ_cases toReal s with ⟨e', -, hv⟩ | ⟨s₁, -, hv⟩ | ⟨s₁, -, hv⟩ | ⟨c, s₁, read, -, -, hv⟩
    · rw [hv, hv]
    · rw [hv] at hne
      rw [hv, hv]
      exact h.array s₁ hne
    · rw [hv] at hne
      rw [hv, hv]
      exact h.object s₁ hne
    · rw [hv, hv]
  array := by
    intro s hne
    rw [readArray] at hne ⊢
    rw [readArray]
    rcases hc : readNonWsChar s with e' | ⟨c, s₁⟩
    · rfl
    rw [hc] at hne
    dsimp only at hne ⊢
    split
    · rfl
    rename_i hb
    rw [if_neg hb] at hne
    have hl : loopUntil (arrayTurn (readValue toReal d)) .turnsExhausted (s₁.length + 2) [] (c :: s₁) ≠
        .error .stackOverflow := fun hl => hne (by rw [hl])
    rw [loopUntil_congr (arrayTurn_congr h.value) _ _ _ hl]
  object := by
    intro s hne
    rw [readObject] at hne ⊢
    rw [readObject]
    rcases hc : readNonWsChar s with e' | ⟨c, s₁⟩
    · rfl
    rw [hc] at hne
    dsimp only at hne ⊢
    split
    · rfl
    rename_i hb
    rw [if_neg hb] at hne
    have hl : loopUntil (objectTurn (readValue toReal d)) .turnsExhausted (s₁.length + 1) (c, []) s₁ ≠
        .error .stackOverflow := fun hl => hne (by rw [hl])
    rw [loopUntil_congr (objectTurn_congr h.value) _ _ _ hl]

theorem stableAt : ∀ d, StableAt toReal d
  | 0 => ⟨fun _ h => (h rfl).elim, fun _ h => (h rfl).elim, fun _ h => (h rfl).elim⟩
  | d + 1 => (stableAt d).succ

end Levels

/-! ## `fromString` -/

section FromString

variable (toReal : List UInt8 → UInt64)

/-- **`fromString` neither overflows nor runs out of turns** on a stack with
room for a frame more than twice as many as its text has bytes. -/
theorem fromString_ne_of_le {d : Nat} {s : List UInt8} (hd : 2 * s.length + 1 ≤ d) {e : ParseError}
    (he : NotThrown e) : fromString toReal d s ≠ .error e := by
  unfold fromString
  rcases hv : readValue toReal d s with e' | ⟨v, r⟩
  · exact error_ne hv ((fitsAt toReal he d).value s.length hd s (Nat.le_refl _))
  · exact ok_ne_error

/-- More room changes nothing once `fromString` does not overflow. -/
theorem fromString_succ {d : Nat} {s : List UInt8} (h : fromString toReal d s ≠ .error .stackOverflow) :
    fromString toReal (d + 1) s = fromString toReal d s := by
  unfold fromString at h ⊢
  have hv : readValue toReal d s ≠ .error .stackOverflow := fun hv => h (by rw [hv])
  rw [(stableAt toReal d).value s hv]

/-- **`fromString` terminates**: every stack with room for a frame more than
twice as many as the text has bytes gives the same result, a value or an
exception. -/
theorem fromString_terminates (s : List UInt8) :
    ∃ r : Except ParseError JsonValue, (∀ d, 2 * s.length + 1 ≤ d → fromString toReal d s = r) ∧
      ((∃ v, r = .ok v) ∨ ∃ what, r = .error (.exception what)) := by
  refine ⟨fromString toReal (2 * s.length + 1) s, fun d hd => ?_, ?_⟩
  · -- by induction on the room beyond the bound
    obtain ⟨k, rfl⟩ := Nat.exists_eq_add_of_le hd
    induction k with
    | zero => rfl
    | succ k ih =>
      rw [← Nat.add_assoc, fromString_succ toReal (fromString_ne_of_le toReal (by omega) notThrown_stackOverflow),
        ih (by omega)]
  · rcases h : fromString toReal (2 * s.length + 1) s with e | v
    · cases e with
      | exception what => exact .inr ⟨what, rfl⟩
      | stackOverflow => exact absurd h (fromString_ne_of_le toReal (Nat.le_refl _) notThrown_stackOverflow)
      | turnsExhausted => exact absurd h (fromString_ne_of_le toReal (Nat.le_refl _) notThrown_turnsExhausted)
    · exact .inl ⟨v, rfl⟩

end FromString

end JsonValue

end Cn
