import ConcealCore.Spec.Deserialization
import ConcealCore.Spec.Crypto

/-!
# The binary format round trip

The readers of `Deserialization` against the writers of `Serialization`, built
up from the `Codec` rules: each reader gives back what its writer writes
(`*_readsBack`) and accepts nothing else (`*_canonical`), the sizes of arrays
and strings bounded by the reader's limit.
-/

open Codec

namespace Cn

/-! ### Integers, records and sizes -/

theorem readVarint_readsBack (bits : Nat) : ReadsBack writeVarint (readVarint bits) (· < 2 ^ bits) := by
  intro v hv rest
  simp only [readVarint, writeVarint, Varint.read_write hv]

theorem readVarint_canonical (bits : Nat) : Canonical writeVarint (readVarint bits) (· < 2 ^ bits) := by
  intro bs v rest h
  unfold readVarint at h
  split at h
  · rename_i r hr
    cases h
    obtain ⟨hbs, hv⟩ := Varint.read_canonical hr
    exact ⟨hv, hbs⟩
  · cases h

@[simp] theorem readUInt8_write (v : UInt8) (rest : List UInt8) :
    readUInt8 (writeVarint v.toNat ++ rest) = some (v, rest) :=
  map_readsBack (readVarint_readsBack 8) v ⟨v.toNat_lt, UInt8.ofNat_toNat⟩ rest

@[simp] theorem readUInt16_write (v : UInt16) (rest : List UInt8) :
    readUInt16 (writeVarint v.toNat ++ rest) = some (v, rest) :=
  map_readsBack (readVarint_readsBack 16) v ⟨v.toNat_lt, UInt16.ofNat_toNat⟩ rest

@[simp] theorem readUInt32_write (v : UInt32) (rest : List UInt8) :
    readUInt32 (writeVarint v.toNat ++ rest) = some (v, rest) :=
  map_readsBack (readVarint_readsBack 32) v ⟨v.toNat_lt, UInt32.ofNat_toNat⟩ rest

@[simp] theorem readUInt64_write (v : UInt64) (rest : List UInt8) :
    readUInt64 (writeVarint v.toNat ++ rest) = some (v, rest) :=
  map_readsBack (readVarint_readsBack 64) v ⟨v.toNat_lt, UInt64.ofNat_toNat⟩ rest

theorem readUInt8_canonical : Canonical (fun v : UInt8 => writeVarint v.toNat) readUInt8 (fun _ => True) :=
  fun bs v rest h => ⟨trivial,
    (map_canonical (readVarint_canonical 8) (fun _ ha => UInt8.toNat_ofNat_of_lt' ha) bs v rest h).2⟩

theorem readUInt16_canonical : Canonical (fun v : UInt16 => writeVarint v.toNat) readUInt16 (fun _ => True) :=
  fun bs v rest h => ⟨trivial,
    (map_canonical (readVarint_canonical 16) (fun _ ha => UInt16.toNat_ofNat_of_lt' ha) bs v rest h).2⟩

theorem readUInt32_canonical : Canonical (fun v : UInt32 => writeVarint v.toNat) readUInt32 (fun _ => True) :=
  fun bs v rest h => ⟨trivial,
    (map_canonical (readVarint_canonical 32) (fun _ ha => UInt32.toNat_ofNat_of_lt' ha) bs v rest h).2⟩

theorem readUInt64_canonical : Canonical (fun v : UInt64 => writeVarint v.toNat) readUInt64 (fun _ => True) :=
  fun bs v rest h => ⟨trivial,
    (map_canonical (readVarint_canonical 64) (fun _ ha => UInt64.toNat_ofNat_of_lt' ha) bs v rest h).2⟩

theorem readUInt8_readsBack : ReadsBack (fun v : UInt8 => writeVarint v.toNat) readUInt8 (fun _ => True) :=
  fun v _ rest => readUInt8_write v rest

theorem readUInt32_readsBack : ReadsBack (fun v : UInt32 => writeVarint v.toNat) readUInt32 (fun _ => True) :=
  fun v _ rest => readUInt32_write v rest

/-- **`readVarint` at each width.** For `uint8_t`, `uint16_t`, `uint32_t` and
`uint64_t`, the varint of every value reads back as that value and consumes
exactly its bytes, and whatever the reader accepts starts with the varint of the
value it returns: the overflow test and the final-zero test leave no other
encoding. -/
theorem readVarint_each_width_round_trip :
    (∀ (x : UInt8) rest, readUInt8 (writeVarint x.toNat ++ rest) = some (x, rest)) ∧
      (∀ (x : UInt16) rest, readUInt16 (writeVarint x.toNat ++ rest) = some (x, rest)) ∧
      (∀ (x : UInt32) rest, readUInt32 (writeVarint x.toNat ++ rest) = some (x, rest)) ∧
      (∀ (x : UInt64) rest, readUInt64 (writeVarint x.toNat ++ rest) = some (x, rest)) ∧
      (∀ bs (x : UInt8) rest, readUInt8 bs = some (x, rest) → bs = writeVarint x.toNat ++ rest) ∧
      (∀ bs (x : UInt16) rest, readUInt16 bs = some (x, rest) → bs = writeVarint x.toNat ++ rest) ∧
      (∀ bs (x : UInt32) rest, readUInt32 bs = some (x, rest) → bs = writeVarint x.toNat ++ rest) ∧
      ∀ bs (x : UInt64) rest, readUInt64 bs = some (x, rest) → bs = writeVarint x.toNat ++ rest :=
  ⟨readUInt8_write, readUInt16_write, readUInt32_write, readUInt64_write,
    fun bs x rest h => (readUInt8_canonical bs x rest h).2, fun bs x rest h => (readUInt16_canonical bs x rest h).2,
    fun bs x rest h => (readUInt32_canonical bs x rest h).2, fun bs x rest h => (readUInt64_canonical bs x rest h).2⟩

/-- Three hundred as a `uint16_t`: `0xAC 0x02`, and nothing else reads as it. -/
theorem readVarint_each_width_round_trip_threeHundred :
    readUInt16 [0xAC, 0x02] = some (300, []) ∧ [0xAC, 0x02] = writeVarint (300 : UInt16).toNat ++ [] := by
  have hread : readUInt16 [0xAC, 0x02] = some (300, []) := by decide
  exact ⟨hread, readVarint_each_width_round_trip.2.2.2.2.2.1 _ _ _ hread⟩

@[simp] theorem readPod_write {n : Nat} (v : Vector UInt8 n) (rest : List UInt8) :
    readPod n (v.toList ++ rest) = some (v, rest) := by
  have hlen : n ≤ (v.toList ++ rest).length := by simp
  rw [readPod, dif_pos hlen]
  simp [Vector.toArray_toList]

theorem readPod_canonical (n : Nat) : Canonical (·.toList) (readPod n) (fun _ => True) := by
  intro bs v rest h
  unfold readPod at h
  split at h
  · simp only [Option.some.injEq, Prod.mk.injEq] at h
    obtain ⟨rfl, rfl⟩ := h
    simp
  · cases h

theorem readPod_readsBack (n : Nat) : ReadsBack (·.toList) (readPod n) (fun _ => True) :=
  fun v _ rest => readPod_write v rest

@[simp] theorem readHash_write (h : Hash) (rest : List UInt8) : readHash (h.bytes ++ rest) = some (h, rest) :=
  map_readsBack (readPod_readsBack 32) h ⟨trivial, rfl⟩ rest

@[simp] theorem readPublicKey_write (k : PublicKey) (rest : List UInt8) :
    readPublicKey (k.bytes ++ rest) = some (k, rest) :=
  map_readsBack (readPod_readsBack 32) k ⟨trivial, rfl⟩ rest

@[simp] theorem readKeyImage_write (k : KeyImage) (rest : List UInt8) :
    readKeyImage (k.bytes ++ rest) = some (k, rest) :=
  map_readsBack (readPod_readsBack 32) k ⟨trivial, rfl⟩ rest

@[simp] theorem readSignature_write (s : Signature) (rest : List UInt8) :
    readSignature (s.bytes ++ rest) = some (s, rest) :=
  map_readsBack (readPod_readsBack 64) s ⟨trivial, rfl⟩ rest

theorem readHash_canonical : Canonical Hash.bytes readHash (fun _ => True) :=
  (map_canonical (readPod_canonical 32) (fun _ _ => rfl)).mono fun _ _ => trivial

theorem readPublicKey_canonical : Canonical PublicKey.bytes readPublicKey (fun _ => True) :=
  (map_canonical (readPod_canonical 32) (fun _ _ => rfl)).mono fun _ _ => trivial

theorem readKeyImage_canonical : Canonical KeyImage.bytes readKeyImage (fun _ => True) :=
  (map_canonical (readPod_canonical 32) (fun _ _ => rfl)).mono fun _ _ => trivial

theorem readSignature_canonical : Canonical Signature.bytes readSignature (fun _ => True) :=
  (map_canonical (readPod_canonical 64) (fun _ _ => rfl)).mono fun _ _ => trivial

theorem uint32OfBytes_binaryUInt32 (v : UInt32) : uint32OfBytes (binaryUInt32 v) = v := by
  apply UInt32.toNat_inj.mp
  have hv := v.toNat_lt
  simp only [binaryUInt32, uint32OfBytes, UInt32.toNat_ofNat', UInt32.toNat_toUInt8,
    UInt32.toNat_shiftRight, UInt32.reduceToNat, Nat.shiftRight_eq_div_pow, Nat.reduceMod, Nat.reducePow]
  omega

theorem binaryUInt32_uint32OfBytes {b : List UInt8} (hb : b.length = 4) :
    binaryUInt32 (uint32OfBytes b) = b := by
  match b, hb with
  | [b0, b1, b2, b3], _ =>
    have h0 := b0.toNat_lt
    have h1 := b1.toNat_lt
    have h2 := b2.toNat_lt
    have h3 := b3.toNat_lt
    simp only [binaryUInt32, uint32OfBytes, List.cons.injEq, and_true, ← UInt8.toNat_inj,
      UInt32.toNat_toUInt8, UInt32.toNat_shiftRight, UInt32.toNat_ofNat', UInt32.reduceToNat,
      Nat.shiftRight_eq_div_pow, Nat.reduceMod, Nat.reducePow]
    omega

@[simp] theorem readNonce_write (v : UInt32) (rest : List UInt8) :
    readNonce (binaryUInt32 v ++ rest) = some (v, rest) :=
  map_readsBack (readTokens_readsBack 4) v ⟨rfl, uint32OfBytes_binaryUInt32 v⟩ rest

theorem readNonce_canonical : Canonical binaryUInt32 readNonce (fun _ => True) :=
  (map_canonical (readTokens_canonical 4) fun _ hb => binaryUInt32_uint32OfBytes hb).mono
    fun _ _ => trivial

/-! ### Arrays and strings -/

section Array

variable {α : Type} {enc : α → List UInt8} {read : Reader UInt8 α} {P : α → Prop}

theorem readArray_readsBack (h : ReadsBack enc read P) :
    ReadsBack (serializeVector enc) (readArray read) (fun l => l.length ≤ MAX_SIZE ∧ ∀ a ∈ l, P a) := by
  rintro l ⟨hlen, hP⟩ rest
  have hsize : readVarint 64 (writeVarint l.length ++ (l.flatMap enc ++ rest)) =
      some (l.length, l.flatMap enc ++ rest) :=
    readVarint_readsBack 64 _ (lt_of_le_of_lt hlen (by decide)) _
  have hcount := readCount_readsBack h l.length l ⟨rfl, hP⟩ rest
  simp only [readArray, beginArray, serializeVector, List.append_assoc, hsize]
  simp [hcount, Nat.not_lt.mpr hlen]

theorem readArray_canonical (h : Canonical enc read P) :
    Canonical (serializeVector enc) (readArray read) (fun l => l.length ≤ MAX_SIZE ∧ ∀ a ∈ l, P a) := by
  intro bs l rest hr
  unfold readArray beginArray at hr
  rcases hsize : readVarint 64 bs with _ | ⟨size, mid⟩
  · simp [hsize] at hr
  · obtain ⟨-, rfl⟩ := readVarint_canonical 64 bs size mid hsize
    by_cases hle : size > MAX_SIZE
    · simp [hsize, hle] at hr
    · simp only [hsize, hle, Option.bind_eq_bind, Option.bind_some, if_false] at hr
      obtain ⟨⟨hlen, hP⟩, rfl⟩ := readCount_canonical h size mid l rest hr
      refine ⟨⟨by omega, hP⟩, ?_⟩
      simp [serializeVector, hlen]

end Array

theorem readString_readsBack :
    ReadsBack serializeAsBinary readString (·.length ≤ MAX_SIZE) := by
  intro blob hlen rest
  have hsize : readVarint 64 (writeVarint blob.length ++ (blob ++ rest)) = some (blob.length, blob ++ rest) :=
    readVarint_readsBack 64 _ (lt_of_le_of_lt hlen (by decide)) _
  have htokens : readTokens blob.length (blob ++ rest) = some (blob, rest) :=
    readTokens_readsBack blob.length blob rfl rest
  simp only [readString, serializeAsBinary, List.append_assoc, hsize]
  simp [Nat.not_lt.mpr hlen, htokens]

theorem readString_canonical : Canonical serializeAsBinary readString (·.length ≤ MAX_SIZE) := by
  intro bs blob rest hr
  unfold readString at hr
  rcases hsize : readVarint 64 bs with _ | ⟨size, mid⟩
  · simp [hsize] at hr
  · obtain ⟨-, rfl⟩ := readVarint_canonical 64 bs size mid hsize
    by_cases hle : size > MAX_SIZE
    · simp [hsize, hle] at hr
    · simp only [hsize, hle, Option.bind_eq_bind, Option.bind_some, if_false] at hr
      obtain ⟨hlen, rfl⟩ := readTokens_canonical size mid blob rest hr
      refine ⟨by omega, ?_⟩
      simp [serializeAsBinary, hlen]

/-! ### Inputs and outputs -/

/-- The sizes of an input that the reader accepts. -/
def TransactionInput.Fits : TransactionInput → Prop
  | .key i => i.outputIndexes.length ≤ MAX_SIZE
  | _ => True

/-- The sizes of an output that the reader accepts. -/
def TransactionOutput.Fits (o : TransactionOutput) : Prop :=
  match o.target with
  | .multisignature m => m.keys.length ≤ MAX_SIZE
  | _ => True

instance : DecidablePred TransactionInput.Fits := fun i => by
  cases i <;> unfold TransactionInput.Fits <;> infer_instance

instance : DecidablePred TransactionOutput.Fits := fun o => by
  unfold TransactionOutput.Fits
  split <;> infer_instance

theorem readTransactionInput_readsBack :
    ReadsBack serializeTransactionInput readTransactionInput TransactionInput.Fits := by
  rintro (⟨blockIndex⟩ | ⟨amount, outputIndexes, keyImage⟩ | ⟨amount, signatureCount, outputIndex, term⟩)
    hfit rest
  · simp [serializeTransactionInput, TransactionInput.tag, serializeBaseInput, readTransactionInput,
      readTokens, readBaseInput]
  · have hidx := readArray_readsBack readUInt32_readsBack outputIndexes ⟨hfit, fun _ _ => trivial⟩
      (keyImage.bytes ++ rest)
    simp [serializeTransactionInput, TransactionInput.tag, serializeKeyInput, readTransactionInput,
      readTokens, readKeyInput, List.append_assoc, hidx]
  · simp [serializeTransactionInput, TransactionInput.tag, serializeMultisignatureInput,
      readTransactionInput, readTokens, readMultisignatureInput, List.append_assoc]

theorem readTransactionOutput_readsBack :
    ReadsBack serializeTransactionOutput readTransactionOutput TransactionOutput.Fits := by
  rintro ⟨amount, ⟨key⟩ | ⟨keys, requiredSignatureCount, term⟩⟩ hfit rest
  · simp [serializeTransactionOutput, serializeTransactionOutputTarget, TransactionOutputTarget.tag,
      serializeKeyOutput, readTransactionOutput, readTransactionOutputTarget, readTokens, readKeyOutput,
      List.append_assoc]
  · have hkeys := readArray_readsBack (fun k _ rest => readPublicKey_write k rest) keys
      ⟨hfit, fun _ _ => trivial⟩ (writeVarint requiredSignatureCount.toNat ++ (writeVarint term.toNat ++ rest))
    simp [serializeTransactionOutput, serializeTransactionOutputTarget, TransactionOutputTarget.tag,
      serializeMultisignatureOutput, readTransactionOutput, readTransactionOutputTarget, readTokens,
      readMultisignatureOutput, List.append_assoc, hkeys]

theorem readBaseInput_canonical : Canonical serializeBaseInput readBaseInput (fun _ => True) := by
  intro bs i rest hr
  simp only [readBaseInput, Option.bind_eq_bind, Option.bind_eq_some_iff, Prod.exists, Option.pure_def,
    Option.some.injEq, Prod.mk.injEq] at hr
  obtain ⟨blockIndex, r, h1, rfl, rfl⟩ := hr
  obtain ⟨-, rfl⟩ := readUInt32_canonical bs blockIndex r h1
  exact ⟨trivial, rfl⟩

theorem readKeyInput_canonical :
    Canonical serializeKeyInput readKeyInput (·.outputIndexes.length ≤ MAX_SIZE) := by
  intro bs i rest hr
  simp only [readKeyInput, Option.bind_eq_bind, Option.bind_eq_some_iff, Prod.exists, Option.pure_def,
    Option.some.injEq, Prod.mk.injEq] at hr
  obtain ⟨amount, r1, h1, outputIndexes, r2, h2, keyImage, r3, h3, rfl, rfl⟩ := hr
  obtain ⟨-, rfl⟩ := readUInt64_canonical bs amount r1 h1
  obtain ⟨⟨hlen, -⟩, rfl⟩ := readArray_canonical readUInt32_canonical r1 outputIndexes r2 h2
  obtain ⟨-, rfl⟩ := readKeyImage_canonical r2 keyImage r3 h3
  exact ⟨hlen, by simp [serializeKeyInput]⟩

theorem readMultisignatureInput_canonical :
    Canonical serializeMultisignatureInput readMultisignatureInput (fun _ => True) := by
  intro bs i rest hr
  simp only [readMultisignatureInput, Option.bind_eq_bind, Option.bind_eq_some_iff, Prod.exists,
    Option.pure_def, Option.some.injEq, Prod.mk.injEq] at hr
  obtain ⟨amount, r1, h1, signatureCount, r2, h2, outputIndex, r3, h3, term, r4, h4, rfl, rfl⟩ := hr
  obtain ⟨-, rfl⟩ := readUInt64_canonical bs amount r1 h1
  obtain ⟨-, rfl⟩ := readUInt8_canonical r1 signatureCount r2 h2
  obtain ⟨-, rfl⟩ := readUInt32_canonical r2 outputIndex r3 h3
  obtain ⟨-, rfl⟩ := readUInt32_canonical r3 term r4 h4
  exact ⟨trivial, by simp [serializeMultisignatureInput]⟩

theorem readTransactionInput_canonical :
    Canonical serializeTransactionInput readTransactionInput TransactionInput.Fits := by
  intro bs i rest hr
  unfold readTransactionInput at hr
  rcases htag : readTokens 1 bs with _ | ⟨tag, mid⟩
  · simp [htag] at hr
  · obtain ⟨-, rfl⟩ := readTokens_canonical 1 bs tag mid htag
    simp only [htag, Option.bind_eq_bind, Option.bind_some] at hr
    -- one case per tag; an unknown tag fails
    split at hr
    · simp only [Option.map_eq_some_iff, Prod.exists, Prod.mk.injEq] at hr
      obtain ⟨v, r, hv, rfl, rfl⟩ := hr
      obtain ⟨-, rfl⟩ := readBaseInput_canonical mid v r hv
      exact ⟨trivial, rfl⟩
    · simp only [Option.map_eq_some_iff, Prod.exists, Prod.mk.injEq] at hr
      obtain ⟨v, r, hv, rfl, rfl⟩ := hr
      obtain ⟨hfit, rfl⟩ := readKeyInput_canonical mid v r hv
      exact ⟨hfit, rfl⟩
    · simp only [Option.map_eq_some_iff, Prod.exists, Prod.mk.injEq] at hr
      obtain ⟨v, r, hv, rfl, rfl⟩ := hr
      obtain ⟨-, rfl⟩ := readMultisignatureInput_canonical mid v r hv
      exact ⟨trivial, rfl⟩
    · cases hr

theorem readMultisignatureOutput_canonical :
    Canonical serializeMultisignatureOutput readMultisignatureOutput (·.keys.length ≤ MAX_SIZE) := by
  intro bs o rest hr
  simp only [readMultisignatureOutput, Option.bind_eq_bind, Option.bind_eq_some_iff, Prod.exists,
    Option.pure_def, Option.some.injEq, Prod.mk.injEq] at hr
  obtain ⟨keys, r1, h1, requiredSignatureCount, r2, h2, term, r3, h3, rfl, rfl⟩ := hr
  obtain ⟨⟨hlen, -⟩, rfl⟩ := readArray_canonical readPublicKey_canonical bs keys r1 h1
  obtain ⟨-, rfl⟩ := readUInt8_canonical r1 requiredSignatureCount r2 h2
  obtain ⟨-, rfl⟩ := readUInt32_canonical r2 term r3 h3
  exact ⟨hlen, by simp [serializeMultisignatureOutput]⟩

theorem readTransactionOutput_canonical :
    Canonical serializeTransactionOutput readTransactionOutput TransactionOutput.Fits := by
  intro bs o rest hr
  simp only [readTransactionOutput, Option.bind_eq_bind, Option.bind_eq_some_iff, Prod.exists,
    Option.pure_def, Option.some.injEq, Prod.mk.injEq] at hr
  obtain ⟨amount, r1, h1, target, r2, h2, rfl, rfl⟩ := hr
  obtain ⟨-, rfl⟩ := readUInt64_canonical bs amount r1 h1
  unfold readTransactionOutputTarget at h2
  rcases htag : readTokens 1 r1 with _ | ⟨tag, mid⟩
  · simp [htag] at h2
  · obtain ⟨-, rfl⟩ := readTokens_canonical 1 r1 tag mid htag
    simp only [htag, Option.bind_eq_bind, Option.bind_some] at h2
    split at h2
    · simp only [readKeyOutput, Option.bind_eq_bind, Option.map_eq_some_iff, Option.bind_eq_some_iff,
        Prod.exists, Option.pure_def, Option.some.injEq, Prod.mk.injEq] at h2
      obtain ⟨_, _, ⟨key, r, hk, rfl, rfl⟩, rfl, rfl⟩ := h2
      obtain ⟨-, rfl⟩ := readPublicKey_canonical mid key r hk
      exact ⟨trivial, by simp [serializeTransactionOutput, serializeTransactionOutputTarget,
        TransactionOutputTarget.tag, serializeKeyOutput]⟩
    · simp only [Option.map_eq_some_iff, Prod.exists, Prod.mk.injEq] at h2
      obtain ⟨v, r, hv, rfl, rfl⟩ := h2
      obtain ⟨hfit, rfl⟩ := readMultisignatureOutput_canonical mid v r hv
      exact ⟨hfit, by simp [serializeTransactionOutput, serializeTransactionOutputTarget,
        TransactionOutputTarget.tag]⟩
    · cases h2

/-! ### Transactions -/

/-- The sizes of a transaction prefix that the reader accepts. -/
def TransactionPrefix.Fits (p : TransactionPrefix) : Prop :=
  p.inputs.length ≤ MAX_SIZE ∧ p.outputs.length ≤ MAX_SIZE ∧ p.extra.length ≤ MAX_SIZE ∧
    (∀ i ∈ p.inputs, i.Fits) ∧ ∀ o ∈ p.outputs, o.Fits

instance : DecidablePred TransactionPrefix.Fits := fun p => by
  unfold TransactionPrefix.Fits
  infer_instance

/-- One entry of signatures per input, with the number of signatures the input needs. -/
def SignaturesMatch (tx : Transaction) : Prop :=
  List.Forall₂ (fun input signatures => signatures.length = getSignaturesCount input) tx.inputs tx.signatures

instance : DecidablePred SignaturesMatch := fun tx => by
  unfold SignaturesMatch
  infer_instance

theorem readTransactionPrefix_readsBack :
    ReadsBack (fun p => (serializeTransactionPrefix p).bytes) readTransactionPrefix
      (fun p => p.version ≤ TRANSACTION_VERSION_2 ∧ p.Fits) := by
  rintro ⟨version, unlockTime, inputs, outputs, extra⟩ ⟨hv, hin, hout, hextra, hfi, hfo⟩ rest
  have hnot : ¬ TRANSACTION_VERSION_2 < version := UInt8.not_lt.mpr hv
  have hins := readArray_readsBack readTransactionInput_readsBack inputs ⟨hin, hfi⟩
    (serializeVector serializeTransactionOutput outputs ++ (serializeAsBinary extra ++ rest))
  have houts := readArray_readsBack readTransactionOutput_readsBack outputs ⟨hout, hfo⟩
    (serializeAsBinary extra ++ rest)
  have hex := readString_readsBack extra hextra rest
  simp [serializeTransactionPrefix, hnot, Written.bytes, readTransactionPrefix, List.append_assoc,
    hins, houts, hex]

theorem readTransactionPrefix_canonical :
    Canonical (fun p => (serializeTransactionPrefix p).bytes) readTransactionPrefix
      (fun p => p.version ≤ TRANSACTION_VERSION_2 ∧ p.Fits) := by
  intro bs p rest hr
  unfold readTransactionPrefix at hr
  rcases hver : readUInt8 bs with _ | ⟨version, r1⟩
  · simp [hver] at hr
  · obtain ⟨-, rfl⟩ := readUInt8_canonical bs version r1 hver
    by_cases hv : TRANSACTION_VERSION_2 < version
    · simp [hver, hv] at hr
    · simp only [hver, hv, if_false, Option.bind_eq_bind, Option.bind_some, Option.bind_eq_some_iff,
        Prod.exists, Option.pure_def, Option.some.injEq, Prod.mk.injEq] at hr
      obtain ⟨unlockTime, r2, h2, inputs, r3, h3, outputs, r4, h4, extra, r5, h5, rfl, rfl⟩ := hr
      obtain ⟨-, rfl⟩ := readUInt64_canonical r1 unlockTime r2 h2
      obtain ⟨⟨hin, hfi⟩, rfl⟩ := readArray_canonical readTransactionInput_canonical r2 inputs r3 h3
      obtain ⟨⟨hout, hfo⟩, rfl⟩ := readArray_canonical readTransactionOutput_canonical r3 outputs r4 h4
      obtain ⟨hextra, rfl⟩ := readString_canonical r4 extra r5 h5
      refine ⟨⟨UInt8.not_lt.mp hv, hin, hout, hextra, hfi, hfo⟩, ?_⟩
      simp [serializeTransactionPrefix, hv, Written.bytes, List.append_assoc]

/-- The signature bytes of a transaction: every signature of every input, in order. -/
def signatureBytes (signatures : List (List Signature)) : List UInt8 :=
  signatures.flatMap (·.flatMap Signature.bytes)

@[simp] theorem signatureBytes_nil : signatureBytes [] = [] := rfl

@[simp] theorem signatureBytes_cons (s : List Signature) (ss : List (List Signature)) :
    signatureBytes (s :: ss) = s.flatMap Signature.bytes ++ signatureBytes ss := rfl

/-- The writer's signature loop, when signatures are expected and match the inputs. -/
theorem serializeSignatures_of_match {inputs : List TransactionInput} {signatures : List (List Signature)}
    (hm : List.Forall₂ (fun input s => s.length = getSignaturesCount input) inputs signatures)
    (acc : List UInt8) :
    serializeSignatures false inputs signatures acc = .ok (acc ++ signatureBytes signatures) := by
  induction hm generalizing acc with
  | nil => simp [serializeSignatures, signatureBytes]
  | cons hlen _ ih =>
    rw [serializeSignatures, if_neg Bool.false_ne_true, if_neg (by simp [hlen])]
    simp [ih, List.append_assoc]

/-- A prefix of a version the writer allows serializes without throwing. -/
theorem serializeTransactionPrefix_ok {p : TransactionPrefix} (hv : p.version ≤ TRANSACTION_VERSION_2) :
    serializeTransactionPrefix p = .ok (serializeTransactionPrefix p).bytes := by
  unfold serializeTransactionPrefix
  rw [if_neg (UInt8.not_lt.mpr hv)]
  rfl

/-- A transaction whose signatures match its inputs serializes without throwing. -/
theorem serializeTransaction_of_match {tx : Transaction} (hv : tx.version ≤ TRANSACTION_VERSION_2)
    (hm : SignaturesMatch tx) :
    serializeTransaction tx =
      .ok ((serializeTransactionPrefix tx.toTransactionPrefix).bytes ++ signatureBytes tx.signatures) := by
  unfold serializeTransaction
  rw [serializeTransactionPrefix_ok hv]
  unfold SignaturesMatch at hm
  cases hs : tx.signatures with
  | nil =>
    -- no signatures: the inputs are none either
    rw [hs] at hm
    have hin : tx.inputs = [] := List.forall₂_nil_right_iff.mp hm
    simp [hin, serializeSignatures, signatureBytes, Written.bytes]
  | cons s ss =>
    have hlen : tx.inputs.length = tx.signatures.length := hm.length_eq
    rw [hs] at hm hlen
    simp [hlen, serializeSignatures_of_match hm, Written.bytes]

theorem readSignatures_readsBack {inputs : List TransactionInput} {signatures : List (List Signature)}
    (hm : List.Forall₂ (fun input s => s.length = getSignaturesCount input) inputs signatures)
    (rest : List UInt8) :
    readSignatures inputs (signatureBytes signatures ++ rest) = some (signatures, rest) := by
  induction hm with
  | nil => rfl
  | @cons input s inputs ss hlen _ ih =>
    have hs := readCount_readsBack (fun sig _ rest => readSignature_write sig rest) (getSignaturesCount input)
      s ⟨hlen, fun _ _ => trivial⟩ (signatureBytes ss ++ rest)
    rw [signatureBytes_cons, List.append_assoc]
    simp [readSignatures, hs, ih]

theorem readSignatures_canonical (inputs : List TransactionInput) (bs : List UInt8)
    (signatures : List (List Signature)) (rest : List UInt8)
    (hr : readSignatures inputs bs = some (signatures, rest)) :
    List.Forall₂ (fun input s => s.length = getSignaturesCount input) inputs signatures ∧
      bs = signatureBytes signatures ++ rest := by
  induction inputs generalizing bs signatures with
  | nil =>
    simp only [readSignatures, Option.some.injEq, Prod.mk.injEq] at hr
    obtain ⟨rfl, rfl⟩ := hr
    exact ⟨List.Forall₂.nil, rfl⟩
  | cons input inputs ih =>
    simp only [readSignatures, Option.bind_eq_bind, Option.bind_eq_some_iff, Prod.exists,
      Option.pure_def, Option.some.injEq, Prod.mk.injEq] at hr
    obtain ⟨s, r1, h1, ss, r2, h2, rfl, rfl⟩ := hr
    obtain ⟨⟨hlen, -⟩, rfl⟩ := readCount_canonical readSignature_canonical _ bs s r1 h1
    obtain ⟨hm, rfl⟩ := ih r1 ss h2
    exact ⟨List.Forall₂.cons hlen hm, by simp [List.append_assoc]⟩

/-- What `fromBinaryArray` reads back: the version the reader allows, the sizes
within its limit, and one entry of signatures per input. -/
def Transaction.InFormat (tx : Transaction) : Prop :=
  tx.version ≤ TRANSACTION_VERSION_2 ∧ tx.Fits ∧ SignaturesMatch tx

instance : DecidablePred Transaction.InFormat := fun tx => by
  unfold Transaction.InFormat
  infer_instance

theorem readTransaction_readsBack :
    ReadsBack (fun tx => (serializeTransaction tx).bytes) readTransaction Transaction.InFormat := by
  rintro tx ⟨hv, hfit, hm⟩ rest
  show readTransaction ((serializeTransaction tx).bytes ++ rest) = some (tx, rest)
  rw [serializeTransaction_of_match hv hm, Written.bytes, List.append_assoc]
  have hp := readTransactionPrefix_readsBack tx.toTransactionPrefix ⟨hv, hfit⟩
    (signatureBytes tx.signatures ++ rest)
  have hs := readSignatures_readsBack hm rest
  simp [readTransaction, hp, hs]

theorem readTransaction_canonical :
    Canonical (fun tx => (serializeTransaction tx).bytes) readTransaction Transaction.InFormat := by
  intro bs tx rest hr
  simp only [readTransaction, Option.bind_eq_bind, Option.bind_eq_some_iff, Prod.exists,
    Option.pure_def, Option.some.injEq, Prod.mk.injEq] at hr
  obtain ⟨p, r1, h1, signatures, r2, h2, rfl, rfl⟩ := hr
  obtain ⟨⟨hv, hfit⟩, rfl⟩ := readTransactionPrefix_canonical bs p r1 h1
  obtain ⟨hm, rfl⟩ := readSignatures_canonical p.inputs r1 signatures r2 h2
  have hm' : SignaturesMatch { p with signatures } := hm
  refine ⟨⟨hv, hfit, hm'⟩, ?_⟩
  show (serializeTransactionPrefix p).bytes ++ (signatureBytes signatures ++ r2) =
    (serializeTransaction { p with signatures }).bytes ++ r2
  rw [serializeTransaction_of_match hv hm']
  simp [Written.bytes, List.append_assoc]

/-! ### Blocks -/

/-- A header of a version the writer allows serializes without throwing. -/
theorem serializeBlockHeader_ok {h : BlockHeader} (hv : h.majorVersion ≤ BLOCK_MAJOR_VERSION_8) :
    serializeBlockHeader h = .ok (serializeBlockHeader h).bytes := by
  unfold serializeBlockHeader
  rw [if_neg (UInt8.not_lt.mpr hv)]
  rfl

theorem readBlockHeader_readsBack :
    ReadsBack (fun h => (serializeBlockHeader h).bytes) readBlockHeader
      (·.majorVersion ≤ BLOCK_MAJOR_VERSION_8) := by
  rintro ⟨majorVersion, minorVersion, nonce, timestamp, previousBlockHash⟩ hv rest
  have hnot : ¬ majorVersion > BLOCK_MAJOR_VERSION_8 := UInt8.not_lt.mpr hv
  simp [serializeBlockHeader, hnot, Written.bytes, readBlockHeader, List.append_assoc]

theorem readBlockHeader_canonical :
    Canonical (fun h => (serializeBlockHeader h).bytes) readBlockHeader
      (·.majorVersion ≤ BLOCK_MAJOR_VERSION_8) := by
  intro bs h rest hr
  unfold readBlockHeader at hr
  rcases hver : readUInt8 bs with _ | ⟨majorVersion, r1⟩
  · simp [hver] at hr
  · obtain ⟨-, rfl⟩ := readUInt8_canonical bs majorVersion r1 hver
    by_cases hv : majorVersion > BLOCK_MAJOR_VERSION_8
    · simp [hver, hv] at hr
    · simp only [hver, hv, if_false, Option.bind_eq_bind, Option.bind_some, Option.bind_eq_some_iff,
        Prod.exists, Option.pure_def, Option.some.injEq, Prod.mk.injEq] at hr
      obtain ⟨minorVersion, r2, h2, timestamp, r3, h3, previousBlockHash, r4, h4, nonce, r5, h5,
        rfl, rfl⟩ := hr
      obtain ⟨-, rfl⟩ := readUInt8_canonical r1 minorVersion r2 h2
      obtain ⟨-, rfl⟩ := readUInt64_canonical r2 timestamp r3 h3
      obtain ⟨-, rfl⟩ := readHash_canonical r3 previousBlockHash r4 h4
      obtain ⟨-, rfl⟩ := readNonce_canonical r4 nonce r5 h5
      refine ⟨UInt8.not_lt.mp hv, ?_⟩
      simp [serializeBlockHeader, hv, Written.bytes, List.append_assoc]

/-- What `fromBinaryArray` reads back of a block: a major version the reader
allows, a coinbase it reads back, and at most the limit of transaction hashes. -/
def Block.InFormat (b : Block) : Prop :=
  b.majorVersion ≤ BLOCK_MAJOR_VERSION_8 ∧ b.baseTransaction.InFormat ∧
    b.transactionHashes.length ≤ MAX_SIZE

/-- A block in the format serializes without throwing. -/
theorem serializeBlock_of_inFormat {b : Block} (hb : b.InFormat) :
    serializeBlock b = .ok ((serializeBlockHeader b.toBlockHeader).bytes ++
      (serializeTransaction b.baseTransaction).bytes ++ serializeVector Hash.bytes b.transactionHashes) := by
  obtain ⟨hv, ⟨htv, -, hm⟩, -⟩ := hb
  unfold serializeBlock
  rw [serializeBlockHeader_ok hv, serializeTransaction_of_match htv hm]
  rfl

theorem readBlock_readsBack :
    ReadsBack (fun b => (serializeBlock b).bytes) readBlock Block.InFormat := by
  intro b hb rest
  show readBlock ((serializeBlock b).bytes ++ rest) = some (b, rest)
  obtain ⟨hv, htx, hlen⟩ := hb
  rw [serializeBlock_of_inFormat ⟨hv, htx, hlen⟩, Written.bytes, List.append_assoc, List.append_assoc]
  have hh := readBlockHeader_readsBack b.toBlockHeader hv
    ((serializeTransaction b.baseTransaction).bytes ++ (serializeVector Hash.bytes b.transactionHashes ++ rest))
  have ht := readTransaction_readsBack b.baseTransaction htx
    (serializeVector Hash.bytes b.transactionHashes ++ rest)
  have hs := readArray_readsBack (fun h _ rest => readHash_write h rest) b.transactionHashes
    ⟨hlen, fun _ _ => trivial⟩ rest
  simp [readBlock, hh, ht, hs]

theorem readBlock_canonical :
    Canonical (fun b => (serializeBlock b).bytes) readBlock Block.InFormat := by
  intro bs b rest hr
  simp only [readBlock, Option.bind_eq_bind, Option.bind_eq_some_iff, Prod.exists,
    Option.pure_def, Option.some.injEq, Prod.mk.injEq] at hr
  obtain ⟨header, r1, h1, baseTransaction, r2, h2, transactionHashes, r3, h3, rfl, rfl⟩ := hr
  obtain ⟨hv, rfl⟩ := readBlockHeader_canonical bs header r1 h1
  obtain ⟨htx, rfl⟩ := readTransaction_canonical r1 baseTransaction r2 h2
  obtain ⟨⟨hlen, -⟩, rfl⟩ := readArray_canonical readHash_canonical r2 transactionHashes r3 h3
  have hb : Block.InFormat { header with baseTransaction, transactionHashes } := ⟨hv, htx, hlen⟩
  refine ⟨hb, ?_⟩
  show (serializeBlockHeader header).bytes ++ ((serializeTransaction baseTransaction).bytes ++
      (serializeVector Hash.bytes transactionHashes ++ r3)) =
    (serializeBlock { header with baseTransaction, transactionHashes }).bytes ++ r3
  rw [serializeBlock_of_inFormat hb]
  simp [Written.bytes, List.append_assoc]

/-! ### The round trip -/

/-- **The binary format is a bijection on its image.** Transactions and blocks
in the format come back from `fromBinaryArray(toBinaryArray(x))`; and every
byte string `fromBinaryArray` accepts is exactly what `toBinaryArray` writes
for the value read, so the hash of the bytes is the object hash of the value. -/
theorem fromBinaryArray_toBinaryArray (c : Crypto) :
    (∀ tx : Transaction, tx.InFormat →
      fromBinaryArrayTransaction (serializeTransaction tx).bytes = some tx) ∧
    (∀ b : Block, b.InFormat → fromBinaryArrayBlock (serializeBlock b).bytes = some b) ∧
    (∀ bs tx, fromBinaryArrayTransaction bs = some tx →
      serializeTransaction tx = .ok bs ∧ transactionHash c tx = c.cnFastHash bs) ∧
    (∀ bs b, fromBinaryArrayBlock bs = some b → serializeBlock b = .ok bs) := by
  refine ⟨fun tx htx => readAll_writes readTransaction_readsBack htx,
    fun b hb => readAll_writes readBlock_readsBack hb, ?_, ?_⟩
  · intro bs tx hr
    obtain ⟨⟨hv, -, hm⟩, hbs⟩ := writes_of_readAll readTransaction_canonical hr
    have hser : serializeTransaction tx = .ok bs := by
      rw [serializeTransaction_of_match hv hm] at hbs ⊢
      rw [hbs]
      rfl
    exact ⟨hser, by rw [transactionHash, hser, getObjectHash]⟩
  · intro bs b hr
    obtain ⟨hb, hbs⟩ := writes_of_readAll readBlock_canonical hr
    rw [serializeBlock_of_inFormat hb] at hbs ⊢
    rw [hbs]
    rfl

/-- A coinbase paying one key output, with its empty signature entry. -/
def sampleCoinbase : Transaction :=
  { version := TRANSACTION_VERSION_1, unlockTime := 10, inputs := [.base ⟨5⟩],
    outputs := [⟨100, .key ⟨default⟩⟩], extra := [1, 2], signatures := [[]] }

theorem fromBinaryArray_toBinaryArray_sampleCoinbase :
    sampleCoinbase.InFormat ∧
      fromBinaryArrayTransaction (serializeTransaction sampleCoinbase).bytes = some sampleCoinbase :=
  have hin : sampleCoinbase.InFormat := by decide
  ⟨hin, (fromBinaryArray_toBinaryArray paddedCrypto).1 sampleCoinbase hin⟩

/-! ### The size limit -/

/-- A string over the limit is refused, even as `toBinaryArray` wrote it. -/
theorem readString_of_gt {blob : List UInt8} (hlen : MAX_SIZE < blob.length)
    (h64 : blob.length < 2 ^ 64) (rest : List UInt8) :
    readString (serializeAsBinary blob ++ rest) = none := by
  have hsize : readVarint 64 (writeVarint blob.length ++ (blob ++ rest)) = some (blob.length, blob ++ rest) :=
    readVarint_readsBack 64 _ h64 _
  simp only [readString, serializeAsBinary, List.append_assoc, hsize]
  simp [hlen]

/-- A prefix whose inputs and outputs the reader accepts but whose `extra` is
over the limit is refused at the `extra`. -/
theorem readTransactionPrefix_of_extra_gt {p : TransactionPrefix}
    (hv : p.version ≤ TRANSACTION_VERSION_2)
    (hin : p.inputs.length ≤ MAX_SIZE ∧ ∀ i ∈ p.inputs, i.Fits)
    (hout : p.outputs.length ≤ MAX_SIZE ∧ ∀ o ∈ p.outputs, o.Fits)
    (hextra : MAX_SIZE < p.extra.length) (h64 : p.extra.length < 2 ^ 64) (rest : List UInt8) :
    readTransactionPrefix ((serializeTransactionPrefix p).bytes ++ rest) = none := by
  obtain ⟨version, unlockTime, inputs, outputs, extra⟩ := p
  have hnot : ¬ TRANSACTION_VERSION_2 < version := UInt8.not_lt.mpr hv
  have hins := readArray_readsBack readTransactionInput_readsBack inputs hin
    (serializeVector serializeTransactionOutput outputs ++ (serializeAsBinary extra ++ rest))
  have houts := readArray_readsBack readTransactionOutput_readsBack outputs hout
    (serializeAsBinary extra ++ rest)
  have hex := readString_of_gt hextra h64 rest
  simp [serializeTransactionPrefix, hnot, Written.bytes, readTransactionPrefix, List.append_assoc,
    hins, houts, hex]

/-- So `fromBinaryArray` refuses the bytes of such a transaction, though
`toBinaryArray` writes them without throwing. -/
theorem fromBinaryArrayTransaction_of_extra_gt {tx : Transaction}
    (hv : tx.version ≤ TRANSACTION_VERSION_2) (hm : SignaturesMatch tx)
    (hin : tx.inputs.length ≤ MAX_SIZE ∧ ∀ i ∈ tx.inputs, i.Fits)
    (hout : tx.outputs.length ≤ MAX_SIZE ∧ ∀ o ∈ tx.outputs, o.Fits)
    (hextra : MAX_SIZE < tx.extra.length) (h64 : tx.extra.length < 2 ^ 64) :
    fromBinaryArrayTransaction (serializeTransaction tx).bytes = none := by
  have hp := readTransactionPrefix_of_extra_gt hv hin hout hextra h64 (signatureBytes tx.signatures)
  rw [serializeTransaction_of_match hv hm, Written.bytes]
  simp [fromBinaryArrayTransaction, readAll, readTransaction, hp]

/-- A version-1 transaction with no inputs, no outputs and an `extra` one byte
over the limit. -/
def oversizedExtraTransaction : Transaction :=
  { version := TRANSACTION_VERSION_1, unlockTime := 0, inputs := [], outputs := [],
    extra := List.replicate (MAX_SIZE + 1) 0, signatures := [] }

/-- The transaction meets the version and signature conditions, `toBinaryArray`
writes it, and `fromBinaryArray` refuses what it wrote. -/
theorem fromBinaryArray_refuses_oversizedExtraTransaction :
    oversizedExtraTransaction.version ≤ TRANSACTION_VERSION_2 ∧
      SignaturesMatch oversizedExtraTransaction ∧
      serializeTransaction oversizedExtraTransaction =
        .ok (serializeTransaction oversizedExtraTransaction).bytes ∧
      fromBinaryArrayTransaction (serializeTransaction oversizedExtraTransaction).bytes = none := by
  have hv : oversizedExtraTransaction.version ≤ TRANSACTION_VERSION_2 := by decide
  have hm : SignaturesMatch oversizedExtraTransaction := List.Forall₂.nil
  -- the length of the extra is taken from the lemma, never by evaluating the list
  have hextra : oversizedExtraTransaction.extra.length = MAX_SIZE + 1 := List.length_replicate
  have hin : oversizedExtraTransaction.inputs.length ≤ MAX_SIZE ∧
      ∀ i ∈ oversizedExtraTransaction.inputs, i.Fits :=
    ⟨Nat.zero_le _, fun _ h => absurd h List.not_mem_nil⟩
  have hout : oversizedExtraTransaction.outputs.length ≤ MAX_SIZE ∧
      ∀ o ∈ oversizedExtraTransaction.outputs, o.Fits :=
    ⟨Nat.zero_le _, fun _ h => absurd h List.not_mem_nil⟩
  refine ⟨hv, hm, ?_, fromBinaryArrayTransaction_of_extra_gt hv hm hin hout (by omega)
    (by rw [hextra]; decide)⟩
  rw [serializeTransaction_of_match hv hm]
  rfl

end Cn
