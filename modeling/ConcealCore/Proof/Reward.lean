import ConcealCore.Lib.WideArith
import ConcealCore.Spec.IntUtil
import ConcealCore.Spec.Currency

/-!
# The block reward and its penalty

The limb arithmetic of `int-util.h` is exact: `mul128` gives the 128-bit
product (`IntUtil.mul128_eq`) and `div128_32` the quotient of long division
(`IntUtil.div128_32_eq`). Over it, `getPenalizedAmount` is the penalty
`a s (2M - s) / M²` over the naturals (`getPenalizedAmount_eq`), whose shape
comes from `s (2M - s) = M² - (s - M)²`.

`getBlockReward_eq_penalized`: the reward is the penalized base reward and fee,
and the emission change is the reward less the fee as integers, for fees below
`2 ^ 63`; `getBlockReward_wraps_large_fee` shows a larger fee wrapping the
emission change.
-/

namespace Cn

open WideArith

namespace IntUtil

@[simp] theorem toNat_hiDword (x : UInt64) : (hiDword x).toNat = x.toNat / 2 ^ 32 := toNat_shiftRight_32 x

@[simp] theorem toNat_loDword (x : UInt64) : (loDword x).toNat = x.toNat % 2 ^ 32 := toNat_and_low x

/-- The halves, the four partial products and the two carries of `mul128`
add up to the product. -/
theorem mul128_exact (x y : UInt64) :
    (mul128 x y).1.toNat + (mul128 x y).2.toNat * 2 ^ 64 = x.toNat * y.toNat := by
  have hx := x.toNat_lt
  have hy := y.toNat_lt
  -- the halves and their four products, none of which wraps
  obtain ⟨A, hA, hAlt⟩ : ∃ A, (hiDword x).toNat = A ∧ A < 2 ^ 32 := ⟨_, toNat_hiDword x, by omega⟩
  obtain ⟨B, hB, hBlt⟩ : ∃ B, (loDword x).toNat = B ∧ B < 2 ^ 32 := ⟨_, toNat_loDword x, by omega⟩
  obtain ⟨C, hC, hClt⟩ : ∃ C, (hiDword y).toNat = C ∧ C < 2 ^ 32 := ⟨_, toNat_hiDword y, by omega⟩
  obtain ⟨D, hD, hDlt⟩ : ∃ D, (loDword y).toNat = D ∧ D < 2 ^ 32 := ⟨_, toNat_loDword y, by omega⟩
  have hxy : x.toNat * y.toNat = A * C * 2 ^ 64 + (A * D + B * C) * 2 ^ 32 + B * D := by
    rw [mul_halves, ← toNat_hiDword, ← toNat_loDword, ← toNat_hiDword, ← toNat_loDword, hA, hB, hC, hD]
  have hac : (hiDword x * hiDword y).toNat = A * C := by
    rw [toNat_mul_of_lt _ _ (by rw [hA, hC]; exact mul_lt_of_halves hAlt hClt), hA, hC]
  have had : (hiDword x * loDword y).toNat = A * D := by
    rw [toNat_mul_of_lt _ _ (by rw [hA, hD]; exact mul_lt_of_halves hAlt hDlt), hA, hD]
  have hbc : (loDword x * hiDword y).toNat = B * C := by
    rw [toNat_mul_of_lt _ _ (by rw [hB, hC]; exact mul_lt_of_halves hBlt hClt), hB, hC]
  have hbd : (loDword x * loDword y).toNat = B * D := by
    rw [toNat_mul_of_lt _ _ (by rw [hB, hD]; exact mul_lt_of_halves hBlt hDlt), hB, hD]
  have hxy' : x.toNat * y.toNat < 2 ^ 128 :=
    calc x.toNat * y.toNat < 2 ^ 64 * 2 ^ 64 := Nat.mul_lt_mul'' hx hy
      _ = 2 ^ 128 := by norm_num
  have hP : A * D + B * C < 2 ^ 65 := by
    have := mul_lt_of_halves hAlt hDlt
    have := mul_lt_of_halves hBlt hClt
    omega
  unfold mul128
  dsimp only
  generalize hiDword x * hiDword y = ac at hac ⊢
  generalize hiDword x * loDword y = ad at had ⊢
  generalize loDword x * hiDword y = bc at hbc ⊢
  generalize loDword x * loDword y = bd at hbd ⊢
  -- the middle sum `ad + bc`, whose carry is the wrap it detects
  have hadbc : (ad + bc).toNat = (A * D + B * C) % 2 ^ 64 := by rw [UInt64.toNat_add, had, hbc]
  have hcarry : (if ad + bc < ad then (1 : UInt64) else 0).toNat = (A * D + B * C) / 2 ^ 64 := by
    by_cases h : 2 ^ 64 ≤ A * D + B * C
    · rw [if_pos ((add_lt_left_iff ad bc).mpr (by rwa [had, hbc]))]
      show 1 = _
      omega
    · rw [if_neg (fun h' => h (by rwa [add_lt_left_iff, had, hbc] at h'))]
      show 0 = _
      omega
  generalize ad + bc = adbc at hadbc hcarry ⊢
  -- the low word, whose carry is again detected by the wrap
  have hshift : (adbc <<< 32).toNat = (A * D + B * C) % 2 ^ 32 * 2 ^ 32 := by
    rw [toNat_shiftLeft_32, hadbc]
    omega
  have hlo : (bd + adbc <<< 32).toNat = (B * D + (A * D + B * C) % 2 ^ 32 * 2 ^ 32) % 2 ^ 64 := by
    rw [UInt64.toNat_add, hbd, hshift]
  have hlocarry : (if bd + adbc <<< 32 < bd then (1 : UInt64) else 0).toNat =
      (B * D + (A * D + B * C) % 2 ^ 32 * 2 ^ 32) / 2 ^ 64 := by
    have hQ : B * D + (A * D + B * C) % 2 ^ 32 * 2 ^ 32 < 2 ^ 65 := by
      have := mul_lt_of_halves hBlt hDlt
      omega
    by_cases h : 2 ^ 64 ≤ B * D + (A * D + B * C) % 2 ^ 32 * 2 ^ 32
    · rw [if_pos ((add_lt_left_iff _ _).mpr (by rwa [hbd, hshift]))]
      show 1 = _
      omega
    · rw [if_neg (fun h' => h (by rwa [add_lt_left_iff, hbd, hshift] at h'))]
      show 0 = _
      omega
  generalize bd + adbc <<< 32 = lo at hlo hlocarry ⊢
  -- the high word: the exact sum, below `2 ^ 64` since the product is below `2 ^ 128`
  have hcarryShift : ((if adbc < ad then (1 : UInt64) else 0) <<< 32).toNat = (A * D + B * C) / 2 ^ 64 * 2 ^ 32 := by
    rw [toNat_shiftLeft_32, hcarry]
    omega
  have hhalf : (adbc >>> 32).toNat = (A * D + B * C) % 2 ^ 64 / 2 ^ 32 := by
    rw [toNat_shiftRight_32, hadbc]
  have hS : A * C + (A * D + B * C) % 2 ^ 64 / 2 ^ 32 + (A * D + B * C) / 2 ^ 64 * 2 ^ 32 +
      (B * D + (A * D + B * C) % 2 ^ 32 * 2 ^ 32) / 2 ^ 64 < 2 ^ 64 := by
    omega
  have h₁ : (ac + adbc >>> 32).toNat = A * C + (A * D + B * C) % 2 ^ 64 / 2 ^ 32 := by
    rw [toNat_add_of_lt _ _ (by rw [hac, hhalf]; omega), hac, hhalf]
  have h₂ : (ac + adbc >>> 32 + (if adbc < ad then (1 : UInt64) else 0) <<< 32).toNat =
      A * C + (A * D + B * C) % 2 ^ 64 / 2 ^ 32 + (A * D + B * C) / 2 ^ 64 * 2 ^ 32 := by
    rw [toNat_add_of_lt _ _ (by rw [h₁, hcarryShift]; omega), h₁, hcarryShift]
  rw [toNat_add_of_lt _ _ (by rw [h₂, hlocarry]; omega), h₂, hlocarry, hlo, hxy]
  omega
/-- The source's `mul128` computes the 128-bit product. -/
theorem mul128_eq (x y : UInt64) : mul128 x y = Cn.mul128 x y := by
  have h := mul128_exact x y
  have hlo := (mul128 x y).1.toNat_lt
  have hlo' : (mul128 x y).1.toNat = x.toNat * y.toNat % 2 ^ 64 := by omega
  have hhi' : (mul128 x y).2.toNat = x.toNat * y.toNat / 2 ^ 64 := by omega
  have hhi := (mul128 x y).2.toNat_lt
  refine Prod.ext ?_ ?_
  · apply UInt64.toNat_inj.mp
    rw [hlo', Cn.mul128, UInt64.toNat_ofNat', Nat.mod_mod]
  · apply UInt64.toNat_inj.mp
    rw [hhi', Cn.mul128, UInt64.toNat_ofNat', Nat.mod_eq_of_lt (by omega)]

/-- One digit of the long division. -/
theorem divWithReminder_digit {digit : UInt64} {divisor remainder : UInt32} (hr : remainder.toNat < divisor.toNat)
    (hdigit : digit.toNat < 2 ^ 32) :
    (divWithReminder digit divisor remainder).1.toNat = (remainder.toNat * 2 ^ 32 + digit.toNat) / divisor.toNat ∧
      (divWithReminder digit divisor remainder).2.toNat =
        (remainder.toNat * 2 ^ 32 + digit.toNat) % divisor.toNat := by
  have hd32 := divisor.toNat_lt
  have hr32 := remainder.toNat_lt
  have hdividend : (digit ||| remainder.toUInt64 <<< 32).toNat = remainder.toNat * 2 ^ 32 + digit.toNat := by
    rw [UInt64.or_comm, toNat_shiftLeft_32_or _ _ hdigit, UInt32.toNat_toUInt64, Nat.mod_eq_of_lt hr32]
  refine ⟨?_, ?_⟩
  · rw [divWithReminder, UInt64.toNat_div, hdividend, UInt32.toNat_toUInt64]
  · have hmod := Nat.mod_lt (remainder.toNat * 2 ^ 32 + digit.toNat) (show 0 < divisor.toNat by omega)
    rw [divWithReminder, UInt64.toNat_toUInt32, UInt64.toNat_mod, hdividend, UInt32.toNat_toUInt64,
      Nat.mod_eq_of_lt (by omega)]

/-- The source's `div128_32` is long division: the quotient in two words and the remainder. -/
theorem div128_32_exact (hi lo : UInt64) {divisor : UInt32} (hd : 0 < divisor.toNat) :
    (div128_32 hi lo divisor).2.1.toNat * 2 ^ 64 + (div128_32 hi lo divisor).2.2.toNat =
        (hi.toNat * 2 ^ 64 + lo.toNat) / divisor.toNat ∧
      (div128_32 hi lo divisor).1.toNat = (hi.toNat * 2 ^ 64 + lo.toNat) % divisor.toNat := by
  have hhi := hi.toNat_lt
  have hlo := lo.toNat_lt
  -- the four digits, high first, each divided under the remainder of the one before
  obtain ⟨hq₃, hr₁⟩ := @divWithReminder_digit (hiDword hi) divisor 0 hd
    (by rw [toNat_hiDword]; omega)
  rcases h₃ : divWithReminder (hiDword hi) divisor 0 with ⟨q₃, r₁⟩
  simp only [h₃, toNat_hiDword, UInt32.toNat_zero, Nat.zero_mul, Nat.zero_add] at hq₃ hr₁
  have hr₁d : r₁.toNat < divisor.toNat := by rw [hr₁]; exact Nat.mod_lt _ hd
  obtain ⟨hq₂, hr₂⟩ := @divWithReminder_digit (loDword hi) divisor r₁ hr₁d (by rw [toNat_loDword]; omega)
  rcases h₂ : divWithReminder (loDword hi) divisor r₁ with ⟨q₂, r₂⟩
  simp only [h₂, toNat_loDword] at hq₂ hr₂
  have hr₂d : r₂.toNat < divisor.toNat := by rw [hr₂]; exact Nat.mod_lt _ hd
  obtain ⟨hq₁, hr₁'⟩ := @divWithReminder_digit (hiDword lo) divisor r₂ hr₂d (by rw [toNat_hiDword]; omega)
  rcases h₁ : divWithReminder (hiDword lo) divisor r₂ with ⟨q₁, r₃⟩
  simp only [h₁, toNat_hiDword] at hq₁ hr₁'
  have hr₃d : r₃.toNat < divisor.toNat := by rw [hr₁']; exact Nat.mod_lt _ hd
  obtain ⟨hq₀, hr₀⟩ := @divWithReminder_digit (loDword lo) divisor r₃ hr₃d (by rw [toNat_loDword]; omega)
  rcases h₀ : divWithReminder (loDword lo) divisor r₃ with ⟨q₀, r₄⟩
  simp only [h₀, toNat_loDword] at hq₀ hr₀
  -- each quotient digit is a digit
  have hq₃d : q₃.toNat < 2 ^ 32 := by rw [hq₃]; exact Nat.lt_of_le_of_lt (Nat.div_le_self _ _) (by omega)
  have hq₂d : q₂.toNat < 2 ^ 32 := by rw [hq₂]; exact digit_div_lt hr₁d (by omega)
  have hq₁d : q₁.toNat < 2 ^ 32 := by rw [hq₁]; exact digit_div_lt hr₂d (by omega)
  have hq₀d : q₀.toNat < 2 ^ 32 := by rw [hq₀]; exact digit_div_lt hr₃d (by omega)
  -- the numbers the leading digits spell, divided step by step
  have hM₂ := div_digit_step (hi.toNat / 2 ^ 32) (hi.toNat % 2 ^ 32) hd
  have hM₂' := mod_digit_step (hi.toNat / 2 ^ 32) (hi.toNat % 2 ^ 32) divisor.toNat
  have hM₃ := div_digit_step hi.toNat (lo.toNat / 2 ^ 32) hd
  have hM₃' := mod_digit_step hi.toNat (lo.toNat / 2 ^ 32) divisor.toNat
  have hM₄ := div_digit_step (hi.toNat * 2 ^ 32 + lo.toNat / 2 ^ 32) (lo.toNat % 2 ^ 32) hd
  have hM₄' := mod_digit_step (hi.toNat * 2 ^ 32 + lo.toNat / 2 ^ 32) (lo.toNat % 2 ^ 32) divisor.toNat
  have hsplit : hi.toNat / 2 ^ 32 * 2 ^ 32 + hi.toNat % 2 ^ 32 = hi.toNat := Nat.div_add_mod' _ _
  have hN : hi.toNat * 2 ^ 64 + lo.toNat = (hi.toNat * 2 ^ 32 + lo.toNat / 2 ^ 32) * 2 ^ 32 + lo.toNat % 2 ^ 32 := by
    rw [Nat.add_mul, Nat.add_assoc, Nat.div_add_mod']
    ring
  rw [hsplit] at hM₂ hM₂'
  unfold div128_32
  simp only [h₃, h₂, h₁, h₀]
  rw [toNat_shiftLeft_32_or _ _ hq₂d, toNat_shiftLeft_32_or _ _ hq₀d, Nat.mod_eq_of_lt hq₃d,
    Nat.mod_eq_of_lt hq₁d, hN, hM₄, hM₄', hM₃, hM₃', hM₂, hM₂', hq₃, hq₂, hq₁, hq₀, hr₀, hr₁', hr₂, hr₁]
  refine ⟨?_, rfl⟩
  ring

theorem div128_32_eq (hi lo : UInt64) {divisor : UInt32} (hd : 0 < divisor.toNat) :
    (div128_32 hi lo divisor).2 = Cn.div128_32 hi lo divisor := by
  obtain ⟨hq, -⟩ := div128_32_exact hi lo hd
  have hlo := (div128_32 hi lo divisor).2.2.toNat_lt
  have hhi := (div128_32 hi lo divisor).2.1.toNat_lt
  refine Prod.ext ?_ ?_
  · apply UInt64.toNat_inj.mp
    rw [Cn.div128_32, UInt64.toNat_ofNat', ← hq, Nat.mod_eq_of_lt (by omega)]
    omega
  · apply UInt64.toNat_inj.mp
    rw [Cn.div128_32, UInt64.toNat_ofNat', ← hq, Nat.mod_mod]
    omega

end IntUtil

/-! ### The penalty over the naturals -/

/-- The penalty of `getPenalizedAmount` over the naturals: the amount scaled by
`s (2M - s) / M²` for a block of size `s` above the median `M`. -/
@[grind] def penalized (a M s : ℕ) : ℕ := if s ≤ M then a else a * (s * (2 * M - s)) / M ^ 2

/-- The size factor `s (2M - s)` is `M² - (s - M)²` above the median (both
truncate to `0` past `2M`). -/
theorem sizeFactor_eq {M s : ℕ} (h : M ≤ s) : s * (2 * M - s) = M * M - (s - M) * (s - M) := by
  by_cases h2 : s ≤ 2 * M
  · obtain ⟨t, rfl⟩ := Nat.exists_eq_add_of_le h
    rw [show 2 * M - (M + t) = M - t by omega, Nat.add_sub_cancel_left, Nat.mul_self_sub_mul_self_eq]
  · have hle : M * M ≤ (s - M) * (s - M) := Nat.mul_self_le_mul_self (by omega)
    rw [show 2 * M - s = 0 by omega, Nat.mul_zero, Nat.sub_eq_zero_of_le hle]

theorem sizeFactor_le {M s : ℕ} (h : M ≤ s) : s * (2 * M - s) ≤ M ^ 2 := by
  rw [sq, sizeFactor_eq h]
  exact Nat.sub_le _ _

/-- The scaled amount is at most the amount. -/
theorem scaled_le (a : ℕ) {M s : ℕ} (h : M ≤ s) : a * (s * (2 * M - s)) / M ^ 2 ≤ a := by
  rcases Nat.eq_zero_or_pos M with hM | hM
  · simp [hM]
  · calc a * (s * (2 * M - s)) / M ^ 2 ≤ a * M ^ 2 / M ^ 2 :=
        Nat.div_le_div_right (Nat.mul_le_mul_left _ (sizeFactor_le h))
      _ = a := Nat.mul_div_cancel _ (by positivity)

theorem penalized_le (a M s : ℕ) : penalized a M s ≤ a := by
  unfold penalized
  split_ifs with hs
  · exact le_rfl
  · exact scaled_le a (by omega)

theorem penalized_lt {a M s : ℕ} (ha : 0 < a) (hs : M < s) : penalized a M s < a := by
  unfold penalized
  rw [if_neg (by omega)]
  rcases Nat.eq_zero_or_pos M with hM | hM
  · simp [hM, ha]
  · have hfactor : s * (2 * M - s) < M ^ 2 := by
      rw [sq, sizeFactor_eq hs.le]
      exact Nat.sub_lt (Nat.mul_pos hM hM) (Nat.mul_pos (by omega) (by omega))
    rw [Nat.div_lt_iff_lt_mul (by positivity)]
    exact Nat.mul_lt_mul_of_pos_left hfactor ha

/-- The penalty does not grow with the block. -/
theorem penalized_antitone (a M : ℕ) {s s' : ℕ} (h : s ≤ s') : penalized a M s' ≤ penalized a M s := by
  unfold penalized
  by_cases hs' : s' ≤ M
  · rw [if_pos hs', if_pos (by omega)]
  · rw [if_neg hs']
    by_cases hs : s ≤ M
    · rw [if_pos hs]
      exact scaled_le a (by omega)
    · rw [if_neg hs]
      apply Nat.div_le_div_right
      apply Nat.mul_le_mul_left
      rw [sizeFactor_eq (by omega), sizeFactor_eq (by omega)]
      exact Nat.sub_le_sub_left (Nat.mul_self_le_mul_self (by omega)) _

theorem penalized_double (a : ℕ) {M : ℕ} (hM : 0 < M) : penalized a M (2 * M) = 0 := by
  unfold penalized
  rw [if_neg (by omega), Nat.sub_self, Nat.mul_zero, Nat.mul_zero, Nat.zero_div]

/-! ### `getPenalizedAmount` and `getBlockReward` -/

/-- **`getPenalizedAmount` is the penalty over the naturals**, for a median
below `2 ^ 32` and a block at most twice as large: the size factor does not
wrap, and the 128-bit product and the two divisions by the median are exact. -/
theorem getPenalizedAmount_eq {a M s : UInt64} (hM : M.toNat < 2 ^ 32) (hs : s.toNat ≤ 2 * M.toNat) :
    (getPenalizedAmount a M s).toNat = penalized a.toNat M.toNat s.toNat := by
  unfold getPenalizedAmount penalized
  by_cases ha : a = 0
  · subst ha
    simp
  rw [if_neg ha]
  by_cases hsM : s ≤ M
  · rw [if_pos hsM, if_pos (UInt64.le_iff_toNat_le.mp hsM)]
  rw [if_neg hsM, if_neg (fun h => hsM (UInt64.le_iff_toNat_le.mpr h))]
  have hMs : M.toNat < s.toNat := Nat.lt_of_not_le (fun h => hsM (UInt64.le_iff_toNat_le.mpr h))
  have ha64 := a.toNat_lt
  -- the size factor, computed without wrap
  have h2M : (2 * M).toNat = 2 * M.toNat := toNat_mul_of_lt _ _ (by simp; omega)
  have hsub : (2 * M - s).toNat = 2 * M.toNat - s.toNat := by
    rw [UInt64.toNat_sub_of_le _ _ (UInt64.le_iff_toNat_le.mpr (by omega)), h2M]
  have hbound : s.toNat * (2 * M.toNat - s.toNat) ≤ M.toNat ^ 2 := sizeFactor_le hMs.le
  have hM2 : M.toNat ^ 2 < 2 ^ 64 := by
    calc M.toNat ^ 2 = M.toNat * M.toNat := sq _
      _ < 2 ^ 64 := WideArith.mul_lt_of_halves hM hM
  have hfactor : (s * (2 * M - s)).toNat = s.toNat * (2 * M.toNat - s.toNat) := by
    rw [toNat_mul_of_lt _ _ (by rw [hsub]; omega), hsub]
  -- the product fills at most two words, and each quotient fits the next step
  have hprod : a.toNat * (s.toNat * (2 * M.toNat - s.toNat)) < 2 ^ 128 :=
    calc a.toNat * (s.toNat * (2 * M.toNat - s.toNat)) < 2 ^ 64 * 2 ^ 64 :=
          Nat.mul_lt_mul'' ha64 (by omega)
      _ = 2 ^ 128 := by norm_num
  have hMd : (M.toUInt32).toNat = M.toNat := by rw [UInt64.toNat_toUInt32, Nat.mod_eq_of_lt hM]
  have hq : a.toNat * (s.toNat * (2 * M.toNat - s.toNat)) / M.toNat < 2 ^ 128 :=
    lt_of_le_of_lt (Nat.div_le_self _ _) hprod
  have hfinal : a.toNat * (s.toNat * (2 * M.toNat - s.toNat)) / M.toNat ^ 2 < 2 ^ 64 :=
    lt_of_le_of_lt (scaled_le _ hMs.le) ha64
  simp only [Cn.mul128, Cn.div128_32, UInt64.toNat_ofNat', hfactor, hMd]
  rw [join_split hprod, join_split hq, Nat.div_div_eq_div_mul, ← Nat.pow_two, Nat.mod_mod,
    Nat.mod_eq_of_lt hfinal]

namespace Currency

variable (cur : Currency)

/-- The base reward is at most the foundation grant. -/
theorem baseRewardFunction_le (alreadyGeneratedCoins : UInt64) (height : UInt32) :
    (cur.baseRewardFunction alreadyGeneratedCoins height).toNat ≤ FOUNDATION_TRUST.toNat := by
  unfold baseRewardFunction
  split
  · exact le_rfl
  · -- capped by `MAX_BLOCK_REWARD`, whatever the schedule gives
    dsimp only
    generalize (if height.toUInt64 > cur.upgradeHeightV8 then _ else _) = baseReward
    rw [UInt64.toNat_min, UInt64.toNat_min]
    exact (min_le_left _ _).trans ((min_le_right _ _).trans (by decide))

/-- **The reward and its penalty.** For a median below `2 ^ 32`, a full-reward zone in that range, and fees below `2 ^ 63`: with `M`
the median raised to the full-reward zone, `getBlockReward` refuses the block
exactly when it is more than `2 M`; otherwise the reward is the penalized base
reward plus the penalized fee, and the emission change is the reward less the
fee, as integers. The penalty never exceeds the amount, is below a positive
amount past `M`, does not grow with the block, and leaves nothing at `2 M`. -/
theorem getBlockReward_eq_penalized (hzone : 0 < cur.blockGrantedFullRewardZone.toNat)
    (hzone32 : cur.blockGrantedFullRewardZone.toNat < 2 ^ 32)
    {medianSize currentBlockSize alreadyGeneratedCoins fee : UInt64} {height : UInt32}
    (hmedian : medianSize.toNat < 2 ^ 32) (hfee : fee.toNat < 2 ^ 63) :
    ((cur.getBlockReward medianSize currentBlockSize alreadyGeneratedCoins fee height).isNone ↔
      2 * max medianSize.toNat cur.blockGrantedFullRewardZone.toNat < currentBlockSize.toNat) ∧
    (∀ reward emissionChange,
      cur.getBlockReward medianSize currentBlockSize alreadyGeneratedCoins fee height =
          some (reward, emissionChange) →
        reward.toNat =
            penalized (cur.baseRewardFunction alreadyGeneratedCoins height).toNat
                (max medianSize.toNat cur.blockGrantedFullRewardZone.toNat) currentBlockSize.toNat +
              penalized fee.toNat (max medianSize.toNat cur.blockGrantedFullRewardZone.toNat)
                currentBlockSize.toNat ∧
          emissionChange.toInt = (reward.toNat : ℤ) - fee.toNat) ∧
    (∀ a, penalized a (max medianSize.toNat cur.blockGrantedFullRewardZone.toNat) currentBlockSize.toNat ≤ a) ∧
    (∀ a, 0 < a → max medianSize.toNat cur.blockGrantedFullRewardZone.toNat < currentBlockSize.toNat →
      penalized a (max medianSize.toNat cur.blockGrantedFullRewardZone.toNat) currentBlockSize.toNat < a) ∧
    (∀ a s s', s ≤ s' → penalized a (max medianSize.toNat cur.blockGrantedFullRewardZone.toNat) s' ≤
      penalized a (max medianSize.toNat cur.blockGrantedFullRewardZone.toNat) s) ∧
    (∀ a, penalized a (max medianSize.toNat cur.blockGrantedFullRewardZone.toNat)
      (2 * max medianSize.toNat cur.blockGrantedFullRewardZone.toNat) = 0) := by
  have hM : (max medianSize cur.blockGrantedFullRewardZone).toNat =
      max medianSize.toNat cur.blockGrantedFullRewardZone.toNat := UInt64.toNat_max _ _
  have hM32 : (max medianSize cur.blockGrantedFullRewardZone).toNat < 2 ^ 32 := by
    rw [hM]
    exact max_lt hmedian hzone32
  have h2M : (2 * max medianSize cur.blockGrantedFullRewardZone).toNat =
      2 * max medianSize.toNat cur.blockGrantedFullRewardZone.toNat := by
    rw [toNat_mul_of_lt _ _ (by simp only [UInt64.toNat_ofNat]; omega), hM]
    rfl
  refine ⟨?refused, ?reward, fun a => penalized_le a _ _, fun a ha hs => penalized_lt ha hs,
    fun a s s' h => penalized_antitone a _ h, fun a => penalized_double a (by omega)⟩
  case refused =>
    unfold getBlockReward
    dsimp only
    split_ifs with hbig
    · simpa [UInt64.lt_iff_toNat_lt, h2M] using hbig
    · simpa [UInt64.lt_iff_toNat_lt, h2M] using hbig
  case reward =>
    intro reward emissionChange h
    unfold getBlockReward at h
    dsimp only at h
    split_ifs at h with hbig
    simp only [Option.some.injEq, Prod.mk.injEq] at h
    obtain ⟨rfl, rfl⟩ := h
    have hs2 : currentBlockSize.toNat ≤ 2 * (max medianSize cur.blockGrantedFullRewardZone).toNat := by
      rw [hM, ← h2M]
      exact Nat.le_of_not_lt fun h => hbig (UInt64.lt_iff_toNat_lt.mpr h)
    have hpb := getPenalizedAmount_eq (a := cur.baseRewardFunction alreadyGeneratedCoins height) hM32 hs2
    have hpf := getPenalizedAmount_eq (a := fee) hM32 hs2
    rw [hM] at hpb hpf
    have hbase : (cur.baseRewardFunction alreadyGeneratedCoins height).toNat < 2 ^ 63 :=
      (cur.baseRewardFunction_le _ _).trans_lt (by decide)
    have hpbl := penalized_le (cur.baseRewardFunction alreadyGeneratedCoins height).toNat
      (max medianSize.toNat cur.blockGrantedFullRewardZone.toNat) currentBlockSize.toNat
    have hpfl := penalized_le fee.toNat (max medianSize.toNat cur.blockGrantedFullRewardZone.toNat)
      currentBlockSize.toNat
    -- the fee left after its penalty, which does not wrap
    have hkept : (fee - getPenalizedAmount fee (max medianSize cur.blockGrantedFullRewardZone)
        currentBlockSize).toNat = fee.toNat - penalized fee.toNat
          (max medianSize.toNat cur.blockGrantedFullRewardZone.toNat) currentBlockSize.toNat := by
      rw [UInt64.toNat_sub_of_le _ _ (UInt64.le_iff_toNat_le.mpr (by omega)), hpf]
    have hreward := toNat_add_of_lt (getPenalizedAmount (cur.baseRewardFunction alreadyGeneratedCoins height)
      (max medianSize cur.blockGrantedFullRewardZone) currentBlockSize)
      (getPenalizedAmount fee (max medianSize cur.blockGrantedFullRewardZone) currentBlockSize)
      (by omega)
    refine ⟨by rw [hreward, hpb, hpf], ?_⟩
    rw [toInt_toInt64_sub (by omega) (by omega), hkept, hreward, hpb, hpf]
    omega

end Currency

/-- On mainnet, a block half again as large as the full-reward zone keeps
three quarters of its base reward and of its fee. -/
theorem getBlockReward_eq_penalized_halfOver :
    Currency.mainnet.getBlockReward 0 150000 0 10 2 = some (3750007, 3749997) ∧
      (3750007 : UInt64).toNat =
        penalized (Currency.mainnet.baseRewardFunction 0 2).toNat
            (max (0 : UInt64).toNat Currency.mainnet.blockGrantedFullRewardZone.toNat) (150000 : UInt64).toNat +
          penalized (10 : UInt64).toNat (max (0 : UInt64).toNat Currency.mainnet.blockGrantedFullRewardZone.toNat)
            (150000 : UInt64).toNat := by
  have hreward : Currency.mainnet.getBlockReward 0 150000 0 10 2 = some (3750007, 3749997) := by decide
  obtain ⟨-, hpenalized, -⟩ := @Currency.getBlockReward_eq_penalized Currency.mainnet (by decide) (by decide)
    0 150000 0 10 2 (by decide) (by decide)
  exact ⟨hreward, (hpenalized _ _ hreward).1⟩

/-- **Counterexample at a fee past `2 ^ 63`.** On mainnet, a block of twice the
full-reward zone is paid nothing and keeps nothing of its fee; with a fee of
`2 ^ 63 + 1` the emission change, `0 - (fee - 0)` read as an `int64_t`,
comes out as `2 ^ 63 - 1` instead of `-(2 ^ 63 + 1)`. -/
theorem getBlockReward_wraps_large_fee :
    Currency.mainnet.getBlockReward 0 200000 0 9223372036854775809 2 = some (0, 9223372036854775807) ∧
      (9223372036854775807 : Int64).toInt ≠ ((0 : UInt64).toNat : ℤ) - (9223372036854775809 : UInt64).toNat := by
  decide

end Cn
