import Mathlib

/-!
# Files as byte lists

A file that a program seeks in and writes to is a list of bytes: `writeAt file
pos bytes` writes `bytes` from `pos` on, over what was there and past the end,
with zeros in any gap between the end and `pos`. A fixed-width number is
written low byte first (`leBytes w v`), as a program writes the bytes of a
machine integer on a little-endian host, and read back by `ofLEBytes`. A row of
records written one after the other starts each record at the sum of the sizes
before it (`offsetsFrom`).

* `prefix_writeAt_of_le`, `append_prefix_writeAt`, `overwrite_prefix`,
  `overwrite_front`: a write
  keeps what lies before it, and what it writes follows; a write of the same
  length over a record keeps what lies after it.
* `ofLEBytes_leBytes`: the bytes of `v` read back as `v` modulo `256 ^ w`;
  `leBytes_ofLEBytes`: bytes read as a number and written back are the same.
* `flatMap_eq_take_getElem_drop`, `drop_flatMap_take`: a row of records around
  record `i`, and its rest from the offset of record `i`.
-/

namespace ByteFile

/-! ## Writing at a position -/

/-- `bytes` written from `pos` on, zeros filling any gap after the end. -/
def writeAt (file : List UInt8) (pos : ℕ) (bytes : List UInt8) : List UInt8 :=
  file.take pos ++ List.replicate (pos - file.length) 0 ++ bytes ++ file.drop (pos + bytes.length)

variable {p file : List UInt8}

/-- Writing from the end of a prefix: the prefix, then the bytes. -/
theorem writeAt_of_isPrefix (bytes : List UInt8) (hp : p <+: file) :
    writeAt file p.length bytes = p ++ bytes ++ file.drop (p.length + bytes.length) := by
  have htake : file.take p.length = p := (List.prefix_iff_eq_take.mp hp).symm
  have hgap : p.length - file.length = 0 := Nat.sub_eq_zero_of_le hp.length_le
  rw [writeAt, htake, hgap, List.replicate_zero, List.append_nil]

theorem append_prefix_writeAt (bytes : List UInt8) (hp : p <+: file) : p ++ bytes <+: writeAt file p.length bytes := by
  rw [writeAt_of_isPrefix bytes hp]
  exact List.prefix_append _ _

/-- A write at or after the end of a prefix keeps the prefix. -/
theorem prefix_writeAt_of_le {pos : ℕ} (bytes : List UInt8) (hp : p <+: file) (hle : p.length ≤ pos) :
    p <+: writeAt file pos bytes := by
  have htake : p <+: file.take pos := List.prefix_take_iff.mpr ⟨hp, hle⟩
  rw [writeAt, List.append_assoc, List.append_assoc]
  exact htake.trans (List.prefix_append _ _)

/-- A write of the same length over a record keeps what lies around it. -/
theorem overwrite_prefix {old q bytes : List UInt8} (h : p ++ old ++ q <+: file) (hlen : bytes.length = old.length) :
    p ++ bytes ++ q <+: writeAt file p.length bytes := by
  have hp : p <+: file := by
    rw [List.append_assoc] at h
    exact (List.prefix_append p _).trans h
  rw [writeAt_of_isPrefix bytes hp]
  obtain ⟨rest, rfl⟩ := h
  have hdrop : (p ++ old ++ q ++ rest).drop (p.length + bytes.length) = q ++ rest := by
    rw [List.append_assoc (p ++ old)]
    exact List.drop_left' (by simp [hlen])
  rw [hdrop]
  exact ⟨rest, by simp⟩

/-- A write of the same length over the start of a file. -/
theorem overwrite_front {old q bytes : List UInt8} (h : old ++ q <+: file) (hlen : bytes.length = old.length) :
    bytes ++ q <+: writeAt file 0 bytes := by
  have h' : [] ++ old ++ q <+: file := by rwa [List.nil_append]
  simpa using overwrite_prefix h' hlen

/-! ## Little-endian numbers -/

/-- The `w` bytes of `v`, low first. -/
@[grind] def leBytes : ℕ → ℕ → List UInt8
  | 0, _ => []
  | w + 1, v => UInt8.ofNat (v % 256) :: leBytes w (v / 256)

/-- The number whose bytes, low first, these are. -/
@[grind] def ofLEBytes : List UInt8 → ℕ
  | [] => 0
  | b :: bs => b.toNat + 256 * ofLEBytes bs

@[simp] theorem length_leBytes (w v : ℕ) : (leBytes w v).length = w := by
  induction w generalizing v with
  | zero => rfl
  | succ w ih => simp [leBytes, ih]

theorem ofLEBytes_leBytes (w v : ℕ) : ofLEBytes (leBytes w v) = v % 256 ^ w := by
  induction w generalizing v with
  | zero => simp [leBytes, ofLEBytes, Nat.mod_one]
  | succ w ih =>
    -- the low byte, then the rest of `v` one byte up
    have hbyte : (UInt8.ofNat (v % 256)).toNat = v % 256 := by
      rw [UInt8.toNat_ofNat', Nat.mod_mod_of_dvd _ (by norm_num)]
    rw [leBytes, ofLEBytes, hbyte, ih, pow_succ', Nat.mod_mul]

theorem ofLEBytes_leBytes_of_lt {w v : ℕ} (h : v < 256 ^ w) : ofLEBytes (leBytes w v) = v := by
  rw [ofLEBytes_leBytes, Nat.mod_eq_of_lt h]

theorem ofLEBytes_lt (bs : List UInt8) : ofLEBytes bs < 256 ^ bs.length := by
  induction bs with
  | nil => simp [ofLEBytes]
  | cons b bs ih =>
    have hb := b.toNat_lt
    rw [ofLEBytes, List.length_cons, pow_succ']
    omega

/-- Bytes read as a number and written back in as many bytes. -/
theorem leBytes_ofLEBytes (bs : List UInt8) : leBytes bs.length (ofLEBytes bs) = bs := by
  induction bs with
  | nil => rfl
  | cons b bs ih =>
    have hb := b.toNat_lt
    have hlow : (b.toNat + 256 * ofLEBytes bs) % 256 = b.toNat := by omega
    have hhigh : (b.toNat + 256 * ofLEBytes bs) / 256 = ofLEBytes bs := by omega
    rw [List.length_cons, ofLEBytes, leBytes, hlow, hhigh, ih, UInt8.ofNat_toNat]

/-! ## Rows of records -/

/-- Where each record of a row starts, the first at `start`, from the records'
sizes. -/
@[grind] def offsetsFrom (start : ℕ) : List ℕ → List ℕ
  | [] => []
  | size :: sizes => start :: offsetsFrom (start + size) sizes

@[simp] theorem length_offsetsFrom (start : ℕ) (sizes : List ℕ) : (offsetsFrom start sizes).length = sizes.length := by
  induction sizes generalizing start with
  | nil => rfl
  | cons size sizes ih => simp [offsetsFrom, ih]

/-- One more record starts where the others end. -/
theorem offsetsFrom_append_singleton (start : ℕ) (sizes : List ℕ) (size : ℕ) :
    offsetsFrom start (sizes ++ [size]) = offsetsFrom start sizes ++ [start + sizes.sum] := by
  induction sizes generalizing start with
  | nil => simp [offsetsFrom]
  | cons s sizes ih => simp [offsetsFrom, ih, Nat.add_assoc]

theorem getElem_offsetsFrom (start : ℕ) (sizes : List ℕ) {i : ℕ} (hi : i < (offsetsFrom start sizes).length) :
    (offsetsFrom start sizes)[i] = start + (sizes.take i).sum := by
  induction sizes generalizing start i with
  | nil => simp at hi
  | cons size sizes ih =>
    cases i with
    | zero => simp [offsetsFrom]
    | succ i =>
      simp only [offsetsFrom, List.getElem_cons_succ, List.take_succ_cons, List.sum_cons]
      rw [ih]
      omega

/-- A row of records around record `i`. -/
theorem flatMap_eq_take_getElem_drop {α β : Type*} (f : α → List β) (xs : List α) {i : ℕ} (hi : i < xs.length) :
    xs.flatMap f = (xs.take i).flatMap f ++ f xs[i] ++ (xs.drop (i + 1)).flatMap f := by
  rw [List.append_assoc, ← List.flatMap_cons, ← List.drop_eq_getElem_cons hi, ← List.flatMap_append,
    List.take_append_drop]

/-- The rest of a row of records from the offset of record `i`: record `i`, then
the records after it. -/
theorem drop_flatMap_take {α β : Type*} (f : α → List β) (xs : List α) {i : ℕ} (hi : i < xs.length) :
    (xs.flatMap f).drop ((xs.take i).flatMap f).length = f xs[i] ++ (xs.drop (i + 1)).flatMap f := by
  rw [flatMap_eq_take_getElem_drop f xs hi, List.append_assoc, List.drop_left]

end ByteFile
