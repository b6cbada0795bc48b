import ConcealCore.Spec.Amount

/-!
# Reading amounts

What `parseAmount` accepts, said without its loop: after trimming, the digits
`ip`, optionally a point and the digits `fp`, whose fraction has at most
`numberOfDecimalPlaces` digits once its trailing zeros are gone, and whose value
`ip.fp` times `10 ^ numberOfDecimalPlaces` is below `2 ^ 64`; that product is
the amount (`parseAmount_eq_some_iff_of_split`). The loop drops trailing zeros
only while the fraction is too long, so it keeps the first
`numberOfDecimalPlaces` digits of the fraction, and the string it reads is
empty when the integer part is empty and so are those digits. With no decimal
places that refuses `".0"`, a string of a digit and one point whose value is
zero (`parseAmount_rejects_point_zero`).

`formatAmount` writes what `parseAmount` reads back, for every number of places
(`parseAmount_formatAmount`).
-/

namespace Cn

open Decimal

/-- The number written `ip.fp`. -/
@[grind] def decimalValue (ip fp : List Char) : ℚ := value ip + value fp / 10 ^ fp.length

/-- `t` is the digits `ip`, or the digits `ip`, a point and the digits `fp`. -/
def DecimalForm (t ip fp : List Char) : Prop :=
  (t = ip ++ '.' :: fp ∨ (t = ip ∧ fp = [])) ∧ ∀ c ∈ ip ++ fp, c.isDigit = true

/-- The fraction without its trailing zeros. -/
def fractionDigits (fp : List Char) : List Char := fp.rdropWhile (· == '0')

/-! ## Values -/

theorem decimalValue_append_zeros (ip fq : List Char) (z : ℕ) :
    decimalValue ip (fq ++ List.replicate z '0') = decimalValue ip fq := by
  have hten : (10 : ℚ) ^ z ≠ 0 := pow_ne_zero _ (by norm_num)
  have hten' : (10 : ℚ) ^ fq.length ≠ 0 := pow_ne_zero _ (by norm_num)
  simp only [decimalValue, value_append, value_replicate_zero, List.length_append, List.length_replicate,
    add_zero, pow_add]
  push_cast
  field_simp

/-- A fraction of `k` digits, moved `k` places up, is a whole number. -/
theorem decimalValue_mul_pow_length (ip fp : List Char) :
    decimalValue ip fp * 10 ^ fp.length = value (ip ++ fp) := by
  have hten : (10 : ℚ) ^ fp.length ≠ 0 := pow_ne_zero _ (by norm_num)
  rw [decimalValue, value_append]
  push_cast
  field_simp

/-- The digits the parser reads: the fraction padded with zeros to `d` places. -/
theorem value_pad (ip fq : List Char) {d : ℕ} (hq : fq.length ≤ d) :
    (value (ip ++ fq ++ List.replicate (d - fq.length) '0') : ℚ) = decimalValue ip fq * 10 ^ d := by
  have hlen : (fq ++ List.replicate (d - fq.length) '0').length = d := by simp; omega
  rw [List.append_assoc, ← decimalValue_mul_pow_length, hlen, decimalValue_append_zeros]

/-! ## Characters -/

theorem point_not_isDigit : ('.').isDigit = false := rfl

theorem zero_isDigit : ('0').isDigit = true := rfl

theorem not_isSpace_of_isDigit {c : Char} (h : c.isDigit = true) : isSpace c = false := by
  by_contra hs
  simp only [isSpace, Bool.not_eq_false, Bool.or_eq_true, decide_eq_true_eq] at hs
  rcases hs with ((((rfl | rfl) | rfl) | rfl) | rfl) | rfl <;> simp at h

theorem trim_of_not_isSpace {s : List Char} (h : ∀ c ∈ s, isSpace c = false) : trim s = s := by
  have hfront : ∀ l : List Char, (∀ c ∈ l, isSpace c = false) → l.dropWhile isSpace = l := fun l hl =>
    List.dropWhile_eq_self_iff.mpr fun hpos => by simp [hl _ (List.getElem_mem hpos)]
  rw [trim, hfront s h, hfront s.reverse (fun c hc => h c (List.mem_reverse.mp hc)), List.reverse_reverse]

/-! ## Where the point is -/

/-- A string is its digits before the first point, the point and the rest, or
has no point. -/
theorem exists_split (t : List Char) :
    ∃ ip fp, (t = ip ++ '.' :: fp ∨ (t = ip ∧ fp = [])) ∧ '.' ∉ ip := by
  induction t with
  | nil => exact ⟨[], [], Or.inr ⟨rfl, rfl⟩, List.not_mem_nil⟩
  | cons c cs ih =>
    by_cases hc : c = '.'
    · exact ⟨[], cs, Or.inl (by simp [hc]), List.not_mem_nil⟩
    · obtain ⟨ip, fp, hsplit, hip⟩ := ih
      refine ⟨c :: ip, fp, ?_, by simp [hip, Ne.symm hc]⟩
      rcases hsplit with rfl | ⟨rfl, rfl⟩
      · exact Or.inl rfl
      · exact Or.inr ⟨rfl, rfl⟩

theorem findIdx?_point {ip fp : List Char} (hip : '.' ∉ ip) :
    (ip ++ '.' :: fp).findIdx? (· == '.') = some ip.length := by
  rw [List.findIdx?_eq_some_iff_getElem]
  refine ⟨by simp, by simp, fun j hj => ?_⟩
  rw [List.getElem_append_left hj]
  intro hpoint
  exact hip (by simpa using (beq_iff_eq.mp hpoint) ▸ List.getElem_mem hj)

theorem findIdx?_no_point {t : List Char} (ht : '.' ∉ t) : t.findIdx? (· == '.') = none := by
  rw [List.findIdx?_eq_none_iff]
  intro c hc
  simp only [beq_eq_false_iff_ne]
  rintro rfl
  exact ht hc

/-! ## The loop over the trailing zeros -/

theorem length_fractionDigits_le (fp : List Char) : (fractionDigits fp).length ≤ fp.length :=
  (List.rdropWhile_prefix _ fp).length_le

/-- Past the fraction's digits there are only zeros. -/
theorem drop_eq_replicate_zero {fp : List Char} {k : ℕ} (hk : (fractionDigits fp).length ≤ k) :
    fp.drop k = List.replicate (fp.length - k) '0' := by
  have hsplit := (List.rdropWhile_append_rtakeWhile (p := (· == '0')) (l := fp)).symm
  rw [List.eq_replicate_iff, List.length_drop]
  refine ⟨rfl, fun c hc => ?_⟩
  unfold fractionDigits at hk
  rw [hsplit, List.drop_append, List.drop_eq_nil_of_le hk, List.nil_append] at hc
  have hzero := List.mem_rtakeWhile_imp (p := fun x => x == '0') (List.mem_of_mem_drop hc)
  exact beq_iff_eq.mp hzero

/-- **The loop.** Dropping zeros while the fraction is longer than `d` keeps
its first `d` digits, or all its digits up to the last that is not a zero when
there are more. -/
theorem dropZeros_eq (d : ℕ) (ip fp : List Char) :
    parseAmount.dropZeros d fp.length (ip ++ '.' :: fp) =
      (ip ++ '.' :: fp.take (max d (fractionDigits fp).length),
        (fp.take (max d (fractionDigits fp).length)).length) := by
  induction fp using List.reverseRecOn with
  | nil => simp [parseAmount.dropZeros]
  | append_singleton fs c ih =>
    have hlast : (ip ++ '.' :: (fs ++ [c])).getLast? = some c := by
      rw [← List.cons_append, ← List.append_assoc, List.getLast?_concat]
    have hinit : (ip ++ '.' :: (fs ++ [c])).dropLast = ip ++ '.' :: fs := by
      rw [← List.cons_append, ← List.append_assoc, List.dropLast_concat]
    rw [List.length_append, List.length_singleton, parseAmount.dropZeros, hlast]
    split
    · -- a zero past the allowed places goes, and the fraction's digits stay the same
      next hdrop =>
      obtain ⟨hd, hc⟩ := hdrop
      obtain rfl : c = '0' := Option.some.inj hc
      have hdig : fractionDigits (fs ++ ['0']) = fractionDigits fs :=
        List.rdropWhile_concat_pos _ _ _ (by rfl)
      have hle : max d (fractionDigits fs).length ≤ fs.length := by
        have := length_fractionDigits_le fs
        omega
      rw [hinit, ih, hdig, List.take_append_of_le_length hle]
    · -- the loop stops with the whole fraction
      next hstop =>
      have hall : fs.length + 1 ≤ max d (fractionDigits (fs ++ [c])).length := by
        by_cases hc : c = '0'
        · subst hc
          have : ¬d < fs.length + 1 := fun h => hstop ⟨h, rfl⟩
          omega
        · have hdig : fractionDigits (fs ++ [c]) = fs ++ [c] :=
            List.rdropWhile_concat_neg _ _ _ (by simpa using hc)
          rw [hdig]
          simp
      rw [List.take_of_length_le (by simpa using hall)]
      simp

/-! ## What the parser reads -/

theorem finish_eq {d f : ℕ} (u : List Char) (hf : f ≤ d) :
    parseAmount.finish d u f =
      if u ≠ [] ∧ ∀ c ∈ u, c.isDigit = true then fromString (u ++ List.replicate (d - f) '0') else none := by
  have hpad : (if f < d then u ++ List.replicate (d - f) '0' else u) = u ++ List.replicate (d - f) '0' := by
    split
    · rfl
    · rw [show d - f = 0 by omega, List.replicate_zero, List.append_nil]
  rw [parseAmount.finish, hpad]
  by_cases hu : u = []
  · simp [hu]
  · by_cases hdig : ∀ c ∈ u, c.isDigit = true
    · have hall : u.all Char.isDigit = true := List.all_eq_true.mpr hdig
      rw [if_neg (by simpa using hu), if_neg (by simp [hall]), if_pos ⟨hu, hdig⟩]
    · have hall : u.all Char.isDigit = false := by simpa [List.all_eq_false] using hdig
      rw [if_neg (by simpa using hu), if_pos (by simp [hall]), if_neg (fun h => hdig h.2)]

theorem fromString_eq_some {v : List Char} {a : UInt64} :
    fromString v = some a ↔ value v < 2 ^ 64 ∧ a.toNat = value v := by
  unfold fromString
  split
  · next hlt =>
    constructor
    · rintro ⟨⟩
      exact ⟨hlt, UInt64.toNat_ofNat_of_lt' hlt⟩
    · rintro ⟨-, ha⟩
      rw [← ha, UInt64.ofNat_toNat]
  · next hge => exact ⟨fun h => (Option.some_ne_none a h.symm).elim, fun h => absurd h.1 hge⟩

/-- The parser on a string split at its first point, or without one: the
fraction's first digits, as many as allowed or up to its last non-zero, then
the end. -/
theorem parseAmount_eq_of_split {d : ℕ} {s ip fp : List Char}
    (hsplit : trim s = ip ++ '.' :: fp ∨ (trim s = ip ∧ fp = [])) (hip : '.' ∉ ip) :
    parseAmount d s =
      if d < (fp.take (max d (fractionDigits fp).length)).length then none
      else parseAmount.finish d (ip ++ fp.take (max d (fractionDigits fp).length))
        (fp.take (max d (fractionDigits fp).length)).length := by
  rcases hsplit with hpoint | ⟨hnone, rfl⟩
  · have hfrac : (ip ++ '.' :: fp).length - ip.length - 1 = fp.length := by simp
    rw [parseAmount, hpoint, findIdx?_point hip]
    simp only
    rw [hfrac, dropZeros_eq]
    simp only
    rw [List.eraseIdx_append_of_length_le le_rfl, Nat.sub_self, List.eraseIdx_cons_zero]
  · have hno : '.' ∉ trim s := by rw [hnone]; exact hip
    rw [parseAmount, findIdx?_no_point hno, hnone]
    simp

/-- **What `parseAmount` accepts.** For a string split at its first point (or
without one): it is read exactly when both parts are digits, the integer part
or the first `d` fraction digits are not empty, the fraction has at most `d`
digits once its trailing zeros are gone, and its value times `10 ^ d` fits a
`uint64_t`; the amount is that product. -/
theorem parseAmount_eq_some_iff_of_split {d : ℕ} {s ip fp : List Char} {a : UInt64}
    (hsplit : trim s = ip ++ '.' :: fp ∨ (trim s = ip ∧ fp = [])) (hip : '.' ∉ ip) :
    parseAmount d s = some a ↔
      (∀ c ∈ ip ++ fp, c.isDigit = true) ∧ ip ++ fp.take d ≠ [] ∧ (fractionDigits fp).length ≤ d ∧
        decimalValue ip fp * 10 ^ d < 2 ^ 64 ∧ (a.toNat : ℚ) = decimalValue ip fp * 10 ^ d := by
  rw [parseAmount_eq_of_split hsplit hip]
  have hle := length_fractionDigits_le fp
  by_cases hfrac : (fractionDigits fp).length ≤ d
  · -- the loop keeps exactly the first `d` digits, and the rest are zeros
    have hmax : max d (fractionDigits fp).length = d := max_eq_left hfrac
    have htake : (fp.take d).length ≤ d := by simp
    have hzeros := drop_eq_replicate_zero hfrac
    have hfp : fp = fp.take d ++ List.replicate (fp.length - d) '0' := by rw [← hzeros, List.take_append_drop]
    have hdigits : (∀ c ∈ ip ++ fp.take d, c.isDigit = true) ↔ ∀ c ∈ ip ++ fp, c.isDigit = true := by
      constructor
      · intro h c hc
        rw [hfp, ← List.append_assoc] at hc
        rcases List.mem_append.mp hc with hc | hc
        · exact h c hc
        · rw [(List.mem_replicate.mp hc).2]
          exact zero_isDigit
      · intro h c hc
        rcases List.mem_append.mp hc with hc | hc
        · exact h c (List.mem_append_left _ hc)
        · exact h c (List.mem_append_right _ (List.mem_of_mem_take hc))
    have hval : decimalValue ip fp = decimalValue ip (fp.take d) := by
      conv_lhs => rw [hfp]
      rw [decimalValue_append_zeros]
    rw [hmax, if_neg (by omega), finish_eq _ htake, ← hdigits]
    split
    · next hok =>
      obtain ⟨hne, hdig⟩ := hok
      rw [fromString_eq_some, hval, ← value_pad ip (fp.take d) htake]
      constructor
      · rintro ⟨hlt, ha⟩
        exact ⟨hdig, hne, hfrac, by exact_mod_cast hlt, by exact_mod_cast ha⟩
      · rintro ⟨-, -, -, hlt, ha⟩
        exact ⟨by exact_mod_cast hlt, by exact_mod_cast ha⟩
    · next hno =>
      simp only [reduceCtorEq, false_iff, not_and]
      intro hd hne
      exact absurd ⟨hne, hd⟩ hno
  · -- the fraction keeps a digit past the allowed places
    have hlong : d < (fp.take (max d (fractionDigits fp).length)).length := by simp; omega
    rw [if_pos hlong]
    simp only [reduceCtorEq, false_iff, not_and]
    intro _ _ h
    exact absurd h hfrac

/-! ## Writing amounts -/

/-- The digits `formatAmount` puts the point into: the amount's numeral padded
to `d + 1` digits. -/
theorem formatAmount_eq (d : ℕ) (amount : UInt64) :
    ∃ s : List Char, (∀ c ∈ s, c.isDigit = true) ∧ d + 1 ≤ s.length ∧ value s = amount.toNat ∧
      formatAmount d amount = s.take (s.length - d) ++ '.' :: s.drop (s.length - d) := by
  have hdig := isDigit_of_mem_toDecimal amount.toNat
  by_cases hshort : (toDecimal amount.toNat).length < d + 1
  · refine ⟨List.replicate (d + 1 - (toDecimal amount.toNat).length) '0' ++ toDecimal amount.toNat, ?_, ?_, ?_, ?_⟩
    · intro c hc
      rcases List.mem_append.mp hc with hc | hc
      · rw [(List.mem_replicate.mp hc).2]
        exact zero_isDigit
      · exact hdig c hc
    · simp
      omega
    · rw [value_append, value_replicate_zero, zero_mul, zero_add, value_toDecimal]
    · simp only [formatAmount, if_pos hshort]
  · exact ⟨toDecimal amount.toNat, hdig, by omega, value_toDecimal _, by simp only [formatAmount, if_neg hshort]⟩

theorem parseAmount_formatAmount (d : ℕ) (amount : UInt64) : parseAmount d (formatAmount d amount) = some amount := by
  obtain ⟨s, hdig, hlen, hval, hformat⟩ := formatAmount_eq d amount
  have hfp : (s.drop (s.length - d)).length = d := by simp; omega
  have hsplit : s.take (s.length - d) ++ s.drop (s.length - d) = s := List.take_append_drop _ _
  -- digits and one point: nothing to trim
  have htrim : trim (formatAmount d amount) = s.take (s.length - d) ++ '.' :: s.drop (s.length - d) := by
    rw [hformat]
    apply trim_of_not_isSpace
    intro c hc
    simp only [List.mem_append, List.mem_cons] at hc
    rcases hc with hc | rfl | hc
    · exact not_isSpace_of_isDigit (hdig c (List.mem_of_mem_take hc))
    · rfl
    · exact not_isSpace_of_isDigit (hdig c (List.mem_of_mem_drop hc))
  have hip : '.' ∉ s.take (s.length - d) := fun hmem => by
    simpa [point_not_isDigit] using hdig '.' (List.mem_of_mem_take hmem)
  have hvalue : decimalValue (s.take (s.length - d)) (s.drop (s.length - d)) * 10 ^ d = amount.toNat := by
    have hmul := decimalValue_mul_pow_length (s.take (s.length - d)) (s.drop (s.length - d))
    rw [hfp, hsplit, hval] at hmul
    exact hmul
  refine (parseAmount_eq_some_iff_of_split (Or.inl htrim) hip).mpr ⟨?_, ?_, ?_, ?_, hvalue.symm⟩
  · rw [hsplit]
    exact hdig
  · -- the integer part has a digit
    have : 0 < (s.take (s.length - d)).length := by simp; omega
    intro hnil
    simp [← List.length_eq_zero_iff] at hnil
    omega
  · exact (length_fractionDigits_le _).trans hfp.le
  · rw [hvalue]
    exact_mod_cast amount.toNat_lt

/-! ## Amounts as text: the round trip and the grammar -/

/-- **Amounts as text.** For every number of decimal places, `parseAmount`
reads back every amount `formatAmount` writes; and it accepts a string exactly
when, trimmed, it is digits with at most one point, with a digit before the
point or among the first `d` after it, at most `d` fraction digits once its
trailing zeros are gone, and a value times `10 ^ d` below `2 ^ 64`, which is
then the amount. -/
theorem parseAmount_formatAmount_and_grammar :
    (∀ d amount, parseAmount d (formatAmount d amount) = some amount) ∧
      ∀ d s a, parseAmount d s = some a ↔
        ∃ ip fp, DecimalForm (trim s) ip fp ∧ ip ++ fp.take d ≠ [] ∧ (fractionDigits fp).length ≤ d ∧
          decimalValue ip fp * 10 ^ d < 2 ^ 64 ∧ (a.toNat : ℚ) = decimalValue ip fp * 10 ^ d := by
  refine ⟨fun d amount => parseAmount_formatAmount d amount, fun d s a => ⟨fun h => ?_, ?_⟩⟩
  · -- split at the first point, and read the conditions off the parser
    obtain ⟨ip, fp, hsplit, hip⟩ := exists_split (trim s)
    obtain ⟨hdig, hne, hfrac, hlt, ha⟩ := (parseAmount_eq_some_iff_of_split hsplit hip).mp h
    exact ⟨ip, fp, ⟨hsplit, hdig⟩, hne, hfrac, hlt, ha⟩
  · rintro ⟨ip, fp, ⟨hsplit, hdig⟩, hne, hfrac, hlt, ha⟩
    -- digits hold no point, so the split is at the first point
    have hip : '.' ∉ ip := fun hmem => by
      simpa [point_not_isDigit] using hdig '.' (List.mem_append_left _ hmem)
    exact (parseAmount_eq_some_iff_of_split hsplit hip).mpr ⟨hdig, hne, hfrac, hlt, ha⟩

/-- With no decimal places, `".0"` is a digit after one point, with no
fraction digit once its zero is gone and the value zero, yet `parseAmount`
refuses it: the loop drops the zero, and the string left without the point is
empty. -/
theorem parseAmount_rejects_point_zero :
    parseAmount 0 ['.', '0'] = none ∧ DecimalForm (trim ['.', '0']) [] ['0'] ∧ ([] ++ ['0'] : List Char) ≠ [] ∧
      (fractionDigits ['0']).length ≤ 0 ∧ decimalValue [] ['0'] * 10 ^ 0 = 0 := by
  have htrim : trim ['.', '0'] = [] ++ '.' :: ['0'] := by decide
  have hdig : ∀ c ∈ ([] ++ ['0'] : List Char), c.isDigit = true := by
    intro c hc
    rw [List.nil_append, List.mem_singleton] at hc
    rw [hc]
    exact zero_isDigit
  refine ⟨by decide, ⟨Or.inl htrim, hdig⟩, by decide, by decide, ?_⟩
  simp [decimalValue, value, digitVal]

end Cn
