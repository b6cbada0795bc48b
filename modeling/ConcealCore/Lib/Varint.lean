import Mathlib

/-!
# Unsigned LEB128 varints with a width bound

The base-128 little-endian varint: seven payload bits per byte, low group
first, the continuation bit `0x80` on every byte but the last. The reader takes
the width `bits` of the target integer and rejects every byte sequence that the
writer would not produce for a value below `2 ^ bits`: a group that does not fit
(`overflow`) and a final zero group after the first (`unrepresentable`).

* `read_write`: reading back what the writer emits for `v < 2 ^ bits` gives `v`
  and consumes exactly those bytes, whatever follows.
* `read_canonical`: whatever the reader accepts is the writer's output for the
  value it returns, and that value is below `2 ^ bits`.
-/

namespace Varint

/-- Why the reader stops. -/
inductive Error where
  | endOfInput
  | overflow
  | unrepresentable
deriving DecidableEq, Repr

/-- The writer's loop with explicit fuel. The byte `value | 0x80` truncated to
eight bits is `value % 0x80 + 0x80`. -/
@[grind] def write.loop : Nat → Nat → List UInt8
  | 0, value => [UInt8.ofNat value]
  | fuel + 1, value =>
    if value < 0x80 then [UInt8.ofNat value]
    else UInt8.ofNat (value % 0x80 + 0x80) :: write.loop fuel (value / 0x80)

/-- The varint of `value`. The value itself is enough fuel: every step that
recurses divides it by `0x80`. -/
def write (value : Nat) : List UInt8 := write.loop value value

/-- The reader's loop: `shift` is the bit position of the next group and `acc`
the bits read so far. -/
@[grind] def read.loop (bits : Nat) : Nat → Nat → List UInt8 → Except Error (Nat × List UInt8)
  | _, _, [] => .error .endOfInput
  | shift, acc, piece :: rest =>
    if bits - 7 ≤ shift ∧ 2 ^ (bits - shift) ≤ piece.toNat then .error .overflow
    else
      let acc := (acc ||| (piece.toNat % 0x80) <<< shift) % 2 ^ bits
      if piece.toNat < 0x80 then
        if piece.toNat = 0 ∧ shift ≠ 0 then .error .unrepresentable
        else .ok (acc, rest)
      else read.loop bits (shift + 7) acc rest

/-- Read a varint for an integer of `bits` bits from the front of `bs`. -/
def read (bits : Nat) (bs : List UInt8) : Except Error (Nat × List UInt8) :=
  read.loop bits 0 0 bs

theorem write.loop_fuel : ∀ (f g v : Nat), v ≤ f → v ≤ g → write.loop f v = write.loop g v := by
  intro f
  induction f with
  | zero =>
    intro g v hf _
    obtain rfl : v = 0 := by omega
    cases g <;> simp [write.loop]
  | succ f ih =>
    intro g v hf hg
    cases g with
    | zero => obtain rfl : v = 0 := by omega
              simp [write.loop]
    | succ g =>
      simp only [write.loop]
      split
      · rfl
      · rw [ih g (v / 0x80) (by omega) (by omega)]

/-- One step of the writer. -/
theorem write_eq (v : Nat) :
    write v = if v < 0x80 then [UInt8.ofNat v]
      else UInt8.ofNat (v % 0x80 + 0x80) :: write (v / 0x80) := by
  unfold write
  cases v with
  | zero => simp [write.loop]
  | succ n =>
    simp only [write.loop]
    split
    · rfl
    · rw [write.loop_fuel n ((n + 1) / 0x80) _ (by omega) le_rfl]

theorem write_ne_nil (v : Nat) : write v ≠ [] := by
  rw [write_eq]
  split <;> simp

/-- A value below `2 ^ (7 (k + 1))` takes at most `k + 1` bytes. -/
theorem length_write_le {v k : Nat} (h : v < 2 ^ (7 * (k + 1))) : (write v).length ≤ k + 1 := by
  induction k generalizing v with
  | zero =>
    rw [write_eq, if_pos (by simpa using h)]
    simp
  | succ k ih =>
    rw [write_eq]
    split
    · simp
    · -- the bytes after the first hold the value's higher groups
      have hdiv : v / 0x80 < 2 ^ (7 * (k + 1)) := by
        rw [Nat.div_lt_iff_lt_mul (by norm_num)]
        calc v < 2 ^ (7 * (k + 1 + 1)) := h
          _ = 2 ^ (7 * (k + 1)) * 0x80 := by rw [Nat.mul_succ, Nat.pow_add]
      rw [List.length_cons]
      have := ih hdiv
      omega

theorem write_of_lt {v : Nat} (h : v < 0x80) : write v = [UInt8.ofNat v] := by
  rw [write_eq, if_pos h]

theorem write_of_ge {v : Nat} (h : 0x80 ≤ v) :
    write v = UInt8.ofNat (v % 0x80 + 0x80) :: write (v / 0x80) := by
  rw [write_eq, if_neg (by omega)]

/-- Or-ing a group in above the bits already read is adding it. -/
theorem or_shiftLeft_eq_add {acc p s : Nat} (h : acc < 2 ^ s) :
    acc ||| p <<< s = acc + p * 2 ^ s := by
  rw [Nat.shiftLeft_eq, Nat.lor_comm, Nat.mul_comm, ← Nat.two_pow_add_eq_or_of_lt h]
  omega

theorem toNat_ofNat_lt {n : Nat} (h : n < 256) : (UInt8.ofNat n).toNat = n := by
  rw [UInt8.toNat_ofNat', Nat.mod_eq_of_lt (by simpa using h)]

theorem pow_le_of_mul_lt {w s bits acc : Nat} (hw : 0x80 ≤ w) (h : acc + w * 2 ^ s < 2 ^ bits) :
    s + 7 < bits := by
  have h1 : 2 ^ (s + 7) ≤ w * 2 ^ s := by
    rw [show 2 ^ (s + 7) = 0x80 * 2 ^ s by rw [Nat.pow_add, Nat.mul_comm]]
    exact Nat.mul_le_mul_right _ hw
  have h2 : 2 ^ (s + 7) < 2 ^ bits := by omega
  have h3 := (Nat.pow_lt_pow_iff_right (by norm_num : 1 < 2)).1 h2
  by_contra hc
  have : bits = s + 7 := by omega
  subst this; omega

/-- A group below the width bound passes the overflow test. -/
theorem not_overflow {w s bits acc : Nat} (hw : w < 0x80) (h : acc + w * 2 ^ s < 2 ^ bits)
    (hs : s ≠ 0 → w ≠ 0) : ¬(bits - 7 ≤ s ∧ 2 ^ (bits - s) ≤ w) := by
  rintro ⟨-, hle⟩
  rcases Nat.eq_zero_or_pos w with rfl | hpos
  · exact absurd hle (Nat.not_le.2 (Nat.two_pow_pos _))
  · have hsb : s ≤ bits := by
      by_contra hc
      have : 2 ^ bits < 2 ^ s := Nat.pow_lt_pow_right (by norm_num) (by omega)
      have : 2 ^ s ≤ w * 2 ^ s := Nat.le_mul_of_pos_left _ hpos
      omega
    have : 2 ^ bits ≤ w * 2 ^ s := by
      calc 2 ^ bits = 2 ^ (bits - s) * 2 ^ s := by rw [← Nat.pow_add, Nat.sub_add_cancel hsb]
        _ ≤ w * 2 ^ s := Nat.mul_le_mul_right _ hle
    omega

theorem loop_write (bits : Nat) (rest : List UInt8) :
    ∀ (w s acc : Nat), acc < 2 ^ s → (s ≠ 0 → w ≠ 0) → acc + w * 2 ^ s < 2 ^ bits →
      read.loop bits s acc (write w ++ rest) = .ok (acc + w * 2 ^ s, rest) := by
  intro w
  induction w using Nat.strong_induction_on with
  | _ w ih =>
    intro s acc hacc hw hfit
    by_cases hlt : w < 0x80
    · -- the last byte: the group itself, with no continuation bit
      rw [write_of_lt hlt, List.singleton_append, read.loop, toNat_ofNat_lt (by omega),
        if_neg (not_overflow hlt hfit hw), if_pos hlt, if_neg (by omega),
        Nat.mod_eq_of_lt hlt, or_shiftLeft_eq_add hacc, Nat.mod_eq_of_lt hfit]
    · -- a byte with the continuation bit: the group `w % 0x80` below the rest
      have hs7 := pow_le_of_mul_lt (by omega) hfit
      have hpiece : (UInt8.ofNat (w % 0x80 + 0x80)).toNat = w % 0x80 + 0x80 :=
        toNat_ofNat_lt (by omega)
      have hacc' : acc + w % 0x80 * 2 ^ s < 2 ^ (s + 7) := by
        have : w % 0x80 * 2 ^ s ≤ 127 * 2 ^ s := Nat.mul_le_mul_right _ (by omega)
        rw [Nat.pow_add]; omega
      have hsplit : acc + w * 2 ^ s = acc + w % 0x80 * 2 ^ s + w / 0x80 * 2 ^ (s + 7) := by
        have := Nat.div_add_mod w 0x80
        rw [Nat.pow_add]
        calc acc + w * 2 ^ s = acc + (0x80 * (w / 0x80) + w % 0x80) * 2 ^ s := by rw [this]
          _ = _ := by ring
      rw [write_of_ge (by omega), List.cons_append, read.loop, hpiece,
        if_neg (fun h => by have := h.1; omega), if_neg (by omega),
        show (w % 0x80 + 0x80) % 0x80 = w % 0x80 by omega, or_shiftLeft_eq_add hacc,
        Nat.mod_eq_of_lt (by omega), ih (w / 0x80) (by omega) (s + 7) _ hacc' (fun _ => by omega)
          (by rw [← hsplit]; exact hfit), ← hsplit]

/-- **Round trip.** The reader gives back every value below the width bound and
consumes exactly its varint. -/
theorem read_write {bits v : Nat} (h : v < 2 ^ bits) (rest : List UInt8) :
    read bits (write v ++ rest) = .ok (v, rest) := by
  have := loop_write bits rest v 0 0 (by norm_num) (fun h => absurd rfl h) (by simpa using h)
  simpa [read] using this

/-- A last group that passes the overflow test fits the width. -/
theorem last_fits {acc p s bits : Nat} (hacc : acc < 2 ^ s) (hbits : acc < 2 ^ bits) (hp : p < 0x80)
    (hov : ¬(bits - 7 ≤ s ∧ 2 ^ (bits - s) ≤ p)) (hz : p = 0 → s = 0) :
    acc + p * 2 ^ s < 2 ^ bits := by
  by_cases hsb : bits - 7 ≤ s
  · have hpl : p < 2 ^ (bits - s) := by omega
    by_cases hs : s ≤ bits
    · have : (p + 1) * 2 ^ s ≤ 2 ^ (bits - s) * 2 ^ s := Nat.mul_le_mul_right _ hpl
      rw [← Nat.pow_add, Nat.sub_add_cancel hs, Nat.add_mul] at this
      omega
    · have h1 : 2 ^ (bits - s) = 1 := by rw [show bits - s = 0 by omega]; rfl
      obtain rfl : p = 0 := by omega
      simpa using hbits
  · have h1 : p * 2 ^ s ≤ 127 * 2 ^ s := Nat.mul_le_mul_right _ (by omega)
    have h2 : 2 ^ (s + 7) = 128 * 2 ^ s := by rw [Nat.pow_add, Nat.mul_comm]
    have h3 : 2 ^ (s + 7) ≤ 2 ^ bits := Nat.pow_le_pow_right (by norm_num) (by omega)
    omega

theorem loop_canonical (bits : Nat) :
    ∀ (bs : List UInt8) (s acc v : Nat) (rest : List UInt8), acc < 2 ^ s → acc < 2 ^ bits →
      read.loop bits s acc bs = .ok (v, rest) →
      ∃ w, bs = write w ++ rest ∧ v = acc + w * 2 ^ s ∧ (s ≠ 0 → w ≠ 0) ∧ v < 2 ^ bits := by
  intro bs
  induction bs with
  | nil => intro s acc v rest _ _ h; simp [read.loop] at h
  | cons piece bs ih =>
    intro s acc v rest hacc hbits h
    have hp := piece.toNat_lt
    simp only [read.loop] at h
    split at h
    · cases h
    rename_i hov
    rw [or_shiftLeft_eq_add hacc] at h
    split at h
    · -- the last byte
      rename_i hlt
      split at h
      · cases h
      rename_i hz
      simp only [Except.ok.injEq, Prod.mk.injEq] at h
      obtain ⟨rfl, rfl⟩ := h
      rw [Nat.mod_eq_of_lt hlt]
      have hfit := last_fits hacc hbits hlt hov (fun h0 => by by_contra hs; exact hz ⟨h0, hs⟩)
      refine ⟨piece.toNat, ?_, Nat.mod_eq_of_lt hfit, fun hs h0 => hz ⟨h0, hs⟩,
        Nat.mod_lt _ (by positivity)⟩
      rw [write_of_lt hlt, List.singleton_append, UInt8.ofNat_toNat]
    · -- a byte with the continuation bit
      rename_i hge
      have hs7 : s + 7 < bits := by
        by_contra hc
        exact hov ⟨by omega, le_trans (Nat.pow_le_pow_right (by norm_num) (show bits - s ≤ 7 by omega))
          (show 2 ^ 7 ≤ piece.toNat by omega)⟩
      have hacc' : acc + piece.toNat % 0x80 * 2 ^ s < 2 ^ (s + 7) := by
        have : piece.toNat % 0x80 * 2 ^ s ≤ 127 * 2 ^ s := Nat.mul_le_mul_right _ (by omega)
        rw [Nat.pow_add]; omega
      have hbits' : acc + piece.toNat % 0x80 * 2 ^ s < 2 ^ bits :=
        lt_of_lt_of_le hacc' (Nat.pow_le_pow_right (by norm_num) (by omega))
      rw [Nat.mod_eq_of_lt hbits'] at h
      obtain ⟨w, hbs, hv, hw, hvb⟩ := ih (s + 7) _ v rest hacc' hbits' h
      have hw0 := hw (by omega)
      refine ⟨piece.toNat % 0x80 + 0x80 * w, ?_, ?_, ?_, hvb⟩
      · rw [write_of_ge (by omega), List.cons_append, hbs,
          show (piece.toNat % 0x80 + 0x80 * w) / 0x80 = w by omega,
          show (piece.toNat % 0x80 + 0x80 * w) % 0x80 + 0x80 = piece.toNat by omega,
          UInt8.ofNat_toNat]
      · rw [hv, Nat.pow_add]; ring
      · intro _; omega

/-- **Canonicity.** Every byte sequence the reader accepts starts with the
writer's output for the value read, and that value fits the width. -/
theorem read_canonical {bits v : Nat} {bs rest : List UInt8} (h : read bits bs = .ok (v, rest)) :
    bs = write v ++ rest ∧ v < 2 ^ bits := by
  obtain ⟨w, hbs, hv, -, hvb⟩ :=
    loop_canonical bits bs 0 0 v rest (by norm_num) (by positivity) h
  simp only [Nat.zero_add, pow_zero, Nat.mul_one] at hv
  subst hv
  exact ⟨hbs, hvb⟩

end Varint
