import ConcealCore.Spec.TransactionExtra
import ConcealCore.Proof.Format

/-!
# Writing the extra and parsing it back

`writeTransactionExtra` appends each field's bytes (`extraFieldBytes`, what the
visitor writes for the field alone) and `parseTransactionExtra` reads each of
them back with the reader of its tag (`readExtraField_extraFieldBytes`). Two
limits decide which fields survive the trip (`TransactionExtraField.Fits`):
the writers refuse a padding above 255 bytes and a nonce above 255 bytes, and
the string reader refuses a message above `MAX_SIZE` bytes, which
`append_message_to_extra` writes all the same. A padding, which the parser
reads to the end of the extra, must come last (`ExtraLayout`).

* `writeTransactionExtra_parses_back`: fields laid out so are written, and parse
  back to themselves.
* `oversized_message_not_parsed_back`: a message one byte above the limit is
  written but fails the parse.
-/

open Codec

namespace Cn

/-- The limits a field must keep to be written and read back: a padding of 1 to
`TX_EXTRA_PADDING_MAX_COUNT` bytes, a nonce of at most
`TX_EXTRA_NONCE_MAX_COUNT`, a message within the string reader's `MAX_SIZE`. -/
def TransactionExtraField.Fits : TransactionExtraField → Prop
  | .padding size => 1 ≤ size ∧ size ≤ TX_EXTRA_PADDING_MAX_COUNT
  | .nonce bytes => bytes.length ≤ TX_EXTRA_NONCE_MAX_COUNT
  | .message bytes => bytes.length ≤ MAX_SIZE
  | _ => True

/-- Whether a field is a padding. -/
@[grind] def TransactionExtraField.isPadding : TransactionExtraField → Bool
  | .padding _ => true
  | _ => false

/-- Fields the parser reads back: each fits, and a padding comes only last. -/
structure ExtraLayout (fields : List TransactionExtraField) : Prop where
  fits : ∀ f ∈ fields, f.Fits
  paddingLast : ∀ f ∈ fields.dropLast, f.isPadding = false

theorem ExtraLayout.tail {f : TransactionExtraField} {fields : List TransactionExtraField}
    (h : ExtraLayout (f :: fields)) : ExtraLayout fields := by
  refine ⟨fun g hg => h.fits g (List.mem_cons_of_mem f hg), fun g hg => h.paddingLast g ?_⟩
  cases fields with
  | nil => simp at hg
  | cons g' fields => exact List.mem_cons_of_mem f hg

/-- A padding followed by another field is not laid out. -/
theorem ExtraLayout.head_isPadding {f g : TransactionExtraField} {fields : List TransactionExtraField}
    (h : ExtraLayout (f :: g :: fields)) : f.isPadding = false :=
  h.paddingLast f (by simp)

/-- The bytes the visitor writes for a field alone. -/
@[grind] def extraFieldBytes (field : TransactionExtraField) : List UInt8 := (extraSerializerVisitor [] field).getD []

/-! ## The writer -/

/-- The visitor appends the field's bytes to whatever the extra holds. -/
theorem extraSerializerVisitor_of_fits (extra : List UInt8) {field : TransactionExtraField} (h : field.Fits) :
    extraSerializerVisitor extra field = some (extra ++ extraFieldBytes field) := by
  cases field with
  | padding size =>
    have hsize : ¬size > TX_EXTRA_PADDING_MAX_COUNT := Nat.not_lt.mpr h.2
    simp [extraSerializerVisitor, extraFieldBytes, hsize]
  | nonce nonce =>
    have hlen : ¬nonce.length > TX_EXTRA_NONCE_MAX_COUNT := Nat.not_lt.mpr h
    simp [extraSerializerVisitor, extraFieldBytes, addExtraNonceToTransactionExtra, hlen]
  | publicKey _ | mergeMiningTag _ _ | message _ | ttl _ =>
    simp [extraSerializerVisitor, extraFieldBytes, addTransactionPublicKeyToExtra,
      appendMergeMiningTagToExtra, appendMessageToExtra, appendTTLToExtra]

/-- Fields that fit are all written, one after the other. -/
theorem writeTransactionExtra_of_fits (extra : List UInt8) {fields : List TransactionExtraField}
    (h : ∀ f ∈ fields, f.Fits) :
    writeTransactionExtra extra fields = (true, extra ++ fields.flatMap extraFieldBytes) := by
  induction fields generalizing extra with
  | nil => simp [writeTransactionExtra]
  | cons f fields ih =>
    rw [writeTransactionExtra, extraSerializerVisitor_of_fits extra (h f (by simp))]
    dsimp only
    rw [ih _ (fun g hg => h g (List.mem_cons_of_mem f hg)), List.flatMap_cons, List.append_assoc]

/-! ## The parser, field by field -/

/-- The TTL's varint is short enough for its size to be one `uint8_t` varint. -/
theorem length_writeVarint_lt (v : UInt64) : (writeVarint v.toNat).length < 256 := by
  have := Varint.length_write_le (v := v.toNat) (k := 9) (lt_of_lt_of_le v.toNat_lt (by norm_num))
  unfold writeVarint
  omega

/-- A field other than a padding is its tag, then a body its tag's reader
reads back. -/
theorem readExtraField_extraFieldBytes {field : TransactionExtraField} (h : field.Fits)
    (hp : field.isPadding = false) :
    ∃ tag body, extraFieldBytes field = tag :: body ∧
      ∀ rest, readExtraField tag (body ++ rest) = some (some field, rest) := by
  cases field with
  | padding size => cases hp
  | publicKey publicKey =>
    refine ⟨_, _, rfl, fun rest => ?_⟩
    simp [readExtraField, TX_EXTRA_TAG_PUBKEY]
  | nonce nonce =>
    refine ⟨TX_EXTRA_NONCE, UInt8.ofNat nonce.length :: nonce, by simp [extraFieldBytes, extraSerializerVisitor,
      addExtraNonceToTransactionExtra, Nat.not_lt.mpr (show nonce.length ≤ TX_EXTRA_NONCE_MAX_COUNT from h)],
      fun rest => ?_⟩
    have hsize : (UInt8.ofNat nonce.length).toNat = nonce.length :=
      Varint.toNat_ofNat_lt (lt_of_le_of_lt (show nonce.length ≤ 255 from h) (by decide))
    simp [readExtraField, TX_EXTRA_NONCE, readExtraNonce, readTokens, hsize]
  | mergeMiningTag depth merkleRoot =>
    refine ⟨_, _, rfl, fun rest => ?_⟩
    -- the tag's string: the depth's varint and the 32 bytes of the root
    have hfield : (writeVarint depth.toNat ++ merkleRoot.bytes).length ≤ MAX_SIZE := by
      have := length_writeVarint_lt depth
      simp only [List.length_append, Hash.bytes, Vector.length_toList, MAX_SIZE]
      omega
    have hroot : readHash merkleRoot.bytes = some (merkleRoot, []) := by
      simpa using readHash_write merkleRoot []
    simp [readExtraField, TX_EXTRA_MERGE_MINING_TAG, readMergeMiningTag, mergeMiningTagBinaryArray,
      readString_readsBack _ hfield rest, hroot]
  | message data =>
    refine ⟨_, _, rfl, fun rest => ?_⟩
    simp [readExtraField, TX_EXTRA_MESSAGE_TAG, readString_readsBack _ (show data.length ≤ MAX_SIZE from h) rest]
  | ttl ttl =>
    refine ⟨_, _, rfl, fun rest => ?_⟩
    have hsize : (writeVarint ttl.toNat).length = (UInt8.ofNat (writeVarint ttl.toNat).length).toNat :=
      (Varint.toNat_ofNat_lt (length_writeVarint_lt ttl)).symm
    simp only [readExtraField, TX_EXTRA_TTL, readExtraTTL]
    rw [List.append_assoc, hsize, readUInt8_write]
    simp

/-- The last padding: its tag, then zeros to the end of the extra. -/
theorem readExtraField_padding {size : ℕ} (h : 1 ≤ size ∧ size ≤ TX_EXTRA_PADDING_MAX_COUNT) :
    ∃ body, extraFieldBytes (.padding size) = 0 :: body ∧
      readExtraField 0 body = some (some (.padding size), []) := by
  obtain ⟨k, rfl⟩ : ∃ k, size = k + 1 := ⟨size - 1, by omega⟩
  have hfits : ¬k + 1 > TX_EXTRA_PADDING_MAX_COUNT := Nat.not_lt.mpr h.2
  refine ⟨List.replicate k 0, by simp [extraFieldBytes, extraSerializerVisitor, hfits, List.replicate_succ], ?_⟩
  have hk : k ≤ TX_EXTRA_PADDING_MAX_COUNT := by omega
  simp [readExtraField, readPadding, Nat.min_eq_left hk, Nat.add_comm 1 k, h.2]

/-! ## The parser's loop -/

/-- Every field writes its tag at least. -/
theorem length_extraFieldBytes_pos {field : TransactionExtraField} (h : field.Fits) :
    0 < (extraFieldBytes field).length := by
  by_cases hp : field.isPadding = false
  · obtain ⟨tag, body, hbytes, -⟩ := readExtraField_extraFieldBytes h hp
    simp [hbytes]
  · cases field with
    | padding size =>
      obtain ⟨body, hbytes, -⟩ := readExtraField_padding h
      simp [hbytes]
    | _ => simp [TransactionExtraField.isPadding] at hp

/-- The loop reads the fields back, one pass per field; the induction is on
the fields, with the last padding read to the end. -/
theorem parseTransactionExtra_loop_fields {fields : List TransactionExtraField} (h : ExtraLayout fields)
    (fuel : ℕ) (hfuel : (fields.flatMap extraFieldBytes).length ≤ fuel) (acc : List TransactionExtraField) :
    parseTransactionExtra.loop fuel (fields.flatMap extraFieldBytes) acc = (true, acc ++ fields) := by
  induction fields generalizing fuel acc with
  | nil =>
    cases fuel <;> simp [parseTransactionExtra.loop]
  | cons f fields ih =>
    have hf := h.fits f (by simp)
    rw [List.flatMap_cons, List.length_append] at hfuel
    obtain ⟨fuel, rfl⟩ : ∃ k, fuel = k + 1 := ⟨fuel - 1, by have := length_extraFieldBytes_pos hf; omega⟩
    by_cases hp : f.isPadding = false
    · -- a field with its own reader, then the rest of the fields
      obtain ⟨tag, body, hbytes, hread⟩ := readExtraField_extraFieldBytes hf hp
      rw [hbytes] at hfuel
      rw [List.flatMap_cons, hbytes, List.cons_append, parseTransactionExtra.loop, hread]
      dsimp only
      rw [List.length_cons] at hfuel
      rw [ih h.tail fuel (by omega), Option.toList_some, List.append_assoc, List.singleton_append]
    · -- a padding: the last field, read to the end
      cases f with
      | padding size =>
        cases fields with
        | cons g fields => exact absurd h.head_isPadding hp
        | nil =>
          obtain ⟨body, hbytes, hread⟩ := readExtraField_padding hf
          rw [List.flatMap_cons, hbytes, List.flatMap_nil, List.append_nil, parseTransactionExtra.loop, hread]
          cases fuel <;> simp [parseTransactionExtra.loop]
      | _ => simp [TransactionExtraField.isPadding] at hp

theorem writeTransactionExtra_parses_back {fields : List TransactionExtraField} (h : ExtraLayout fields) :
    (writeTransactionExtra [] fields).1 = true ∧
      parseTransactionExtra (writeTransactionExtra [] fields).2 = (true, fields) := by
  rw [writeTransactionExtra_of_fits [] h.fits, List.nil_append]
  exact ⟨rfl, parseTransactionExtra_loop_fields h _ le_rfl []⟩

/-- The fields of a coinbase with a TTL, a message and a padding, which all
parse back. -/
def sampleExtraFields : List TransactionExtraField :=
  [.publicKey ⟨Vector.replicate 32 7⟩, .nonce [1, 2, 3], .mergeMiningTag 300 nullHash, .message [9, 9], .ttl 1000000,
    .padding 5]

theorem writeTransactionExtra_parses_back_sampleExtraFields :
    ExtraLayout sampleExtraFields ∧ (writeTransactionExtra [] sampleExtraFields).1 = true ∧
      parseTransactionExtra (writeTransactionExtra [] sampleExtraFields).2 = (true, sampleExtraFields) := by
  have h : ExtraLayout sampleExtraFields := by
    constructor
    · simp [sampleExtraFields, TransactionExtraField.Fits, TX_EXTRA_PADDING_MAX_COUNT, TX_EXTRA_NONCE_MAX_COUNT, MAX_SIZE]
    · simp [sampleExtraFields, TransactionExtraField.isPadding]
  exact ⟨h, writeTransactionExtra_parses_back h⟩

/-! ## A message above the string limit -/

theorem readExtraField_message (bs : List UInt8) :
    readExtraField TX_EXTRA_MESSAGE_TAG bs = (readString bs).map fun (data, bs) => (some (.message data), bs) :=
  rfl

theorem writeTransactionExtra_message (data : List UInt8) :
    writeTransactionExtra [] [.message data] = (true, appendMessageToExtra [] data) := rfl

/-- A message longer than `MAX_SIZE`: its size is read back, and refused. -/
theorem parseTransactionExtra_message_over_limit {data : List UInt8} (hover : MAX_SIZE < data.length)
    (hfit : data.length < 2 ^ 64) : parseTransactionExtra (appendMessageToExtra [] data) = (false, []) := by
  have hsize : readVarint 64 (serializeAsBinary data) = some (data.length, data) :=
    readVarint_readsBack 64 _ hfit data
  have hread : readExtraField TX_EXTRA_MESSAGE_TAG (serializeAsBinary data) = none := by
    rw [readExtraField_message, Option.map_eq_none_iff]
    unfold readString
    rw [hsize]
    simp [hover]
  unfold parseTransactionExtra appendMessageToExtra
  rw [List.nil_append, List.length_cons, parseTransactionExtra.loop, hread]

/-- A message one byte longer than the string reader accepts. -/
def oversizedMessage : TransactionExtraField := .message (List.replicate (MAX_SIZE + 1) 0)

theorem oversized_message_not_parsed_back :
    writeTransactionExtra [] [oversizedMessage] = (true, appendMessageToExtra [] (List.replicate (MAX_SIZE + 1) 0)) ∧
      parseTransactionExtra (writeTransactionExtra [] [oversizedMessage]).2 = (false, []) := by
  have hwrite : writeTransactionExtra [] [oversizedMessage] =
      (true, appendMessageToExtra [] (List.replicate (MAX_SIZE + 1) 0)) :=
    writeTransactionExtra_message _
  refine ⟨hwrite, ?_⟩
  have hlen : (List.replicate (MAX_SIZE + 1) (0 : UInt8)).length = MAX_SIZE + 1 := List.length_replicate
  rw [hwrite]
  exact parseTransactionExtra_message_over_limit (by rw [hlen]; exact Nat.lt_succ_self _) (by rw [hlen]; decide)

end Cn
