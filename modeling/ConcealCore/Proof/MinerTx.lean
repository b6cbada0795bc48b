import ConcealCore.Spec.MinerTx
import ConcealCore.Lib.WideArith

/-!
# The coinbase pays exactly the block reward

`decompose_amount_into_digits` runs in two phases. While the digits read so
far sum to at most the dust threshold they join the dust (`loop_join`). At the
first digit that would cross it, the dust is handed over (if any) and the digit
becomes a chunk (`loop_split`); from there on every nonzero digit is at least
`10 ^ k`, above the digit that crossed, so it crosses too: the dust never grows
again and no amount is lost (`loop_splitPhase`). `loop_joinPhase` carries the
first phase into the second.

* `decomposeAmountIntoDigits_spec`: at most one dust, within the threshold; the
  chunks are single digits at rising powers of ten; the parts sum to the amount.
* `mergeOutAmounts_spec`: merging keeps `min n maxOuts` amounts, with the same
  sum.
* `minerTxOutputs_summary`: the output loop sums what it is given, wrapping;
  `summaryAmounts_eq_amount`: on a merged decomposition that sum is the amount.
* `decompose_amount_into_digits_pays_reward`: all of it for the coinbase; the
  `summaryAmounts == blockReward` check of `constructMinerTx` cannot fail
  (`constructMinerTx_eq_some`).
-/

namespace Cn

/-! ## The calls -/

@[simp] theorem DecomposedPart.value_chunk (value : UInt64) : (DecomposedPart.chunk value).value = value := rfl

@[simp] theorem DecomposedPart.value_dust (value : UInt64) : (DecomposedPart.dust value).value = value := rfl

/-- The amount of a call of the dust handler. -/
def DecomposedPart.dust? : DecomposedPart → Option UInt64
  | .dust value => some value
  | .chunk _ => none

/-- The amount of a call of the chunk handler. -/
def DecomposedPart.chunk? : DecomposedPart → Option UInt64
  | .chunk value => some value
  | .dust _ => none

@[simp] theorem DecomposedPart.dust?_dust (value : UInt64) : (DecomposedPart.dust value).dust? = some value := rfl

@[simp] theorem DecomposedPart.dust?_chunk (value : UInt64) : (DecomposedPart.chunk value).dust? = none := rfl

@[simp] theorem DecomposedPart.chunk?_chunk (value : UInt64) : (DecomposedPart.chunk value).chunk? = some value := rfl

@[simp] theorem DecomposedPart.chunk?_dust (value : UInt64) : (DecomposedPart.dust value).chunk? = none := rfl

/-- Amounts `d * 10 ^ e` with `1 ≤ d ≤ 9` and exponents rising strictly from
`k` on. -/
inductive DigitChunks : ℕ → List ℕ → Prop
  | nil (k : ℕ) : DigitChunks k []
  | cons {k e d : ℕ} {values : List ℕ} (hd : 1 ≤ d ∧ d ≤ 9) (he : k ≤ e) (h : DigitChunks (e + 1) values) :
      DigitChunks k (d * 10 ^ e :: values)

theorem DigitChunks.mono {k k' : ℕ} {values : List ℕ} (hk : k' ≤ k) (h : DigitChunks k values) :
    DigitChunks k' values := by
  cases h with
  | nil => exact .nil k'
  | cons hd he h => exact .cons hd (le_trans hk he) h

/-- What the calls of one run of the loop add up to, by handler. -/
structure Decomposition (dustThreshold k total : ℕ) (parts : List DecomposedPart) : Prop where
  dust_once : (parts.filterMap DecomposedPart.dust?).length ≤ 1
  dust_range : ∀ v ∈ parts.filterMap DecomposedPart.dust?, 0 < v.toNat ∧ v.toNat ≤ dustThreshold
  chunks : DigitChunks k ((parts.filterMap DecomposedPart.chunk?).map UInt64.toNat)
  sum : (parts.map fun p => p.value.toNat).sum = total

theorem Decomposition.nil (dustThreshold k : ℕ) : Decomposition dustThreshold k 0 [] :=
  ⟨by simp, by simp, by simpa using DigitChunks.nil k, by simp⟩

/-- The dust handed over alone. -/
theorem Decomposition.dust {dustThreshold k : ℕ} {v : UInt64} (hpos : 0 < v.toNat) (hle : v.toNat ≤ dustThreshold) :
    Decomposition dustThreshold k v.toNat [.dust v] := by
  refine ⟨by simp [DecomposedPart.dust?], ?_, ?_, by simp⟩
  · simp only [List.filterMap_cons, DecomposedPart.dust?, List.filterMap_nil, List.mem_singleton]
    rintro w rfl
    exact ⟨hpos, hle⟩
  · simp only [List.filterMap_cons, DecomposedPart.chunk?, List.filterMap_nil, List.map_nil]
    exact .nil k

theorem Decomposition.mono {dustThreshold k k' total : ℕ} {parts : List DecomposedPart} (hk : k' ≤ k)
    (h : Decomposition dustThreshold k total parts) : Decomposition dustThreshold k' total parts :=
  ⟨h.dust_once, h.dust_range, h.chunks.mono hk, h.sum⟩

/-! ## One turn of the loop -/

section Turn

variable {dustThreshold amount : UInt64} {isDustHandled : Bool} {dust order : UInt64}

theorem loop_zero : decomposeAmountIntoDigits.loop dustThreshold 0 isDustHandled dust order = ([], isDustHandled, dust) := by
  rw [decomposeAmountIntoDigits.loop, dif_pos rfl]

/-- A digit that keeps the dust within the threshold joins it. -/
theorem loop_join (h : amount ≠ 0) (hjoin : dust + amount % 10 * order ≤ dustThreshold) :
    decomposeAmountIntoDigits.loop dustThreshold amount isDustHandled dust order =
      decomposeAmountIntoDigits.loop dustThreshold (amount / 10) isDustHandled (dust + amount % 10 * order)
        (order * 10) := by
  rw [decomposeAmountIntoDigits.loop, dif_neg h, if_pos hjoin]

/-- A digit that would cross the threshold: the dust is handed over once, and
the digit is a chunk unless it is zero. -/
theorem loop_split (h : amount ≠ 0) (hsplit : ¬dust + amount % 10 * order ≤ dustThreshold) :
    decomposeAmountIntoDigits.loop dustThreshold amount isDustHandled dust order =
      let rest := decomposeAmountIntoDigits.loop dustThreshold (amount / 10) (isDustHandled || dust ≠ 0) dust
        (order * 10)
      ((if !isDustHandled ∧ dust ≠ 0 then [DecomposedPart.dust dust] else []) ++
        (if amount % 10 * order ≠ 0 then [DecomposedPart.chunk (amount % 10 * order)] else []) ++ rest.1, rest.2) := by
  rw [decomposeAmountIntoDigits.loop, dif_neg h, if_neg hsplit]
  by_cases hcall : !isDustHandled ∧ dust ≠ 0
  · have hhandled : (isDustHandled || dust ≠ 0) = true := by simp at hcall; simp [hcall.2]
    simp only [if_pos hcall, hhandled]
  · have hhandled : (isDustHandled || dust ≠ 0) = isDustHandled := by
      cases isDustHandled <;> simp_all
    simp only [if_neg hcall, hhandled]

end Turn

/-! ## The arithmetic of a turn -/

section Digits

variable {amount dust : UInt64} {a k : ℕ}

theorem order_mul_ten (k : ℕ) : UInt64.ofNat (10 ^ k) * 10 = UInt64.ofNat (10 ^ (k + 1)) := by
  apply UInt64.toNat_inj.mp
  rw [UInt64.toNat_mul, UInt64.toNat_ofNat', UInt64.toNat_ofNat', show (10 : UInt64).toNat = 10 from rfl,
    Nat.mod_mul_mod, ← pow_succ]

theorem pos_of_ne_zero (ha : amount.toNat = a) (h0 : amount ≠ 0) : 0 < a := by
  rcases Nat.eq_zero_or_pos a with rfl | h
  · exact absurd (UInt64.toNat_inj.mp ha) h0
  · exact h

/-- The chunk of a turn is exact while the dust and the amount left, at the
current order, fit in 64 bits. -/
theorem toNat_chunk (ha : amount.toNat = a) (hfit : dust.toNat + a * 10 ^ k < 2 ^ 64) (h0 : amount ≠ 0) :
    (amount % 10 * UInt64.ofNat (10 ^ k)).toNat = a % 10 * 10 ^ k := by
  have hpos := pos_of_ne_zero ha h0
  have hk : 10 ^ k < 2 ^ 64 := by
    have := Nat.le_mul_of_pos_left (10 ^ k) hpos
    omega
  have hle : a % 10 * 10 ^ k ≤ a * 10 ^ k := Nat.mul_le_mul_right _ (Nat.mod_le _ _)
  rw [UInt64.toNat_mul, UInt64.toNat_mod, UInt64.toNat_ofNat', Nat.mod_eq_of_lt hk, ha,
    show (10 : UInt64).toNat = 10 from rfl, Nat.mod_eq_of_lt (by omega)]

theorem toNat_dust_add_chunk (ha : amount.toNat = a) (hfit : dust.toNat + a * 10 ^ k < 2 ^ 64) (h0 : amount ≠ 0) :
    (dust + amount % 10 * UInt64.ofNat (10 ^ k)).toNat = dust.toNat + a % 10 * 10 ^ k := by
  have hle : a % 10 * 10 ^ k ≤ a * 10 ^ k := Nat.mul_le_mul_right _ (Nat.mod_le _ _)
  rw [WideArith.toNat_add_of_lt _ _ (by rw [toNat_chunk ha hfit h0]; omega), toNat_chunk ha hfit h0]

theorem chunk_eq_zero_iff (ha : amount.toNat = a) (hfit : dust.toNat + a * 10 ^ k < 2 ^ 64) (h0 : amount ≠ 0) :
    amount % 10 * UInt64.ofNat (10 ^ k) = 0 ↔ a % 10 = 0 := by
  rw [← UInt64.toNat_inj, toNat_chunk ha hfit h0, UInt64.toNat_zero, Nat.mul_eq_zero]
  exact ⟨fun h => h.resolve_right (by positivity), Or.inl⟩

/-- The amount left after a turn, at the next order, with the digit of the turn. -/
theorem div_ten_mul_pow (a k : ℕ) : a / 10 * 10 ^ (k + 1) + a % 10 * 10 ^ k = a * 10 ^ k := by
  have := Nat.div_add_mod a 10
  calc a / 10 * 10 ^ (k + 1) + a % 10 * 10 ^ k = (10 * (a / 10) + a % 10) * 10 ^ k := by ring
    _ = a * 10 ^ k := by rw [this]

/-- A digit is below the next power of ten. -/
theorem digit_mul_pow_lt (a k : ℕ) : a % 10 * 10 ^ k < 10 ^ (k + 1) := by
  rw [pow_succ, Nat.mul_comm (10 ^ k) 10]
  exact Nat.mul_lt_mul_of_pos_right (Nat.mod_lt a (by norm_num)) (by positivity)

theorem toNat_div_ten (ha : amount.toNat = a) : (amount / 10).toNat = a / 10 := by
  rw [UInt64.toNat_div, ha]
  rfl

end Digits

/-! ## The two phases -/

/-- **After the split.** Once every nonzero digit crosses the threshold and no
dust is pending, each nonzero digit is handed over as a chunk and the dust and
its flag stay as they are. Induction on the amount left. -/
theorem loop_splitPhase (dustThreshold : UInt64) (isDustHandled : Bool) (dust : UInt64) (a : ℕ) :
    ∀ (amount : UInt64) (k : ℕ) (calls : List DecomposedPart) (final : Bool × UInt64),
      amount.toNat = a → dust.toNat + a * 10 ^ k < 2 ^ 64 → dustThreshold.toNat < dust.toNat + 10 ^ k →
      (isDustHandled = true ∨ dust = 0) →
      decomposeAmountIntoDigits.loop dustThreshold amount isDustHandled dust (UInt64.ofNat (10 ^ k)) = (calls, final) →
      final = (isDustHandled, dust) ∧ calls.filterMap DecomposedPart.dust? = [] ∧
        DigitChunks k ((calls.filterMap DecomposedPart.chunk?).map UInt64.toNat) ∧
        (calls.map fun p => p.value.toNat).sum = a * 10 ^ k := by
  induction a using Nat.strong_induction_on with
  | _ a ih =>
    intro amount k calls final ha hfit hcross hpending hrun
    by_cases h0 : amount = 0
    · subst h0
      rw [loop_zero] at hrun
      obtain ⟨rfl, rfl⟩ := Prod.mk.inj hrun
      simp only [UInt64.toNat_zero] at ha
      subst ha
      exact ⟨rfl, rfl, .nil k, by simp⟩
    have hpos := pos_of_ne_zero ha h0
    have hsum := toNat_dust_add_chunk ha hfit h0
    have hdigits := div_ten_mul_pow a k
    -- the rest of the loop, from the next digit
    have hrest := ih (a / 10) (by omega) (amount / 10) (k + 1) _ _ (toNat_div_ten ha) (by omega)
      (by have := Nat.pow_le_pow_right (show 0 < 10 by norm_num) (Nat.le_succ k); omega) hpending rfl
    obtain ⟨hfinal, hnodust, hchunks, hrestsum⟩ := hrest
    -- no dust call is pending: a turn adds at most its chunk
    have hnocall : ¬((!isDustHandled) = true ∧ dust ≠ 0) := by
      rcases hpending with h | h <;> simp [h]
    have hhandled : (isDustHandled || decide (dust ≠ 0)) = isDustHandled := by
      rcases hpending with h | h <;> simp [h]
    by_cases hdigit : a % 10 = 0
    · -- a zero digit: nothing is handed over, whichever branch runs
      have hzero := (chunk_eq_zero_iff ha hfit h0).mpr hdigit
      rw [hdigit, Nat.zero_mul, Nat.add_zero] at hdigits
      by_cases hjoin : dust + amount % 10 * UInt64.ofNat (10 ^ k) ≤ dustThreshold
      · rw [loop_join h0 hjoin, hzero, UInt64.add_zero, order_mul_ten] at hrun
        rw [hrun] at hfinal hnodust hchunks hrestsum
        exact ⟨hfinal, hnodust, hchunks.mono (Nat.le_succ k), by rw [hrestsum]; omega⟩
      · rw [loop_split h0 hjoin] at hrun
        simp only [if_neg hnocall, hzero, hhandled, ne_eq, not_true_eq_false, if_false, List.nil_append,
          order_mul_ten] at hrun
        obtain ⟨rfl, rfl⟩ := Prod.mk.inj hrun
        exact ⟨hfinal, hnodust, hchunks.mono (Nat.le_succ k), by rw [hrestsum]; omega⟩
    · -- a nonzero digit crosses the threshold and is a chunk
      have hk : 10 ^ k ≤ a % 10 * 10 ^ k := Nat.le_mul_of_pos_left _ (by omega)
      have hcrossed : ¬dust + amount % 10 * UInt64.ofNat (10 ^ k) ≤ dustThreshold := by
        rw [UInt64.le_iff_toNat_le, hsum]
        omega
      have hnonzero : amount % 10 * UInt64.ofNat (10 ^ k) ≠ 0 := fun hz =>
        hdigit ((chunk_eq_zero_iff ha hfit h0).mp hz)
      rw [loop_split h0 hcrossed] at hrun
      simp only [if_neg hnocall, if_pos hnonzero, hhandled, List.nil_append, order_mul_ten] at hrun
      obtain ⟨rfl, rfl⟩ := Prod.mk.inj hrun
      refine ⟨hfinal, ?_, ?_, ?_⟩
      · simp only [List.singleton_append, List.filterMap_cons, DecomposedPart.dust?]
        exact hnodust
      · simp only [List.singleton_append, List.filterMap_cons, DecomposedPart.chunk?, List.map_cons,
          toNat_chunk ha hfit h0]
        exact .cons ⟨by omega, by omega⟩ le_rfl hchunks
      · simp only [List.singleton_append, List.map_cons, List.sum_cons, DecomposedPart.value_chunk,
          toNat_chunk ha hfit h0, hrestsum]
        linarith

/-- The calls of a split: the dust if there is any, the digit that crossed the
threshold, then calls without dust and with chunks above it. -/
theorem Decomposition.split {dustThreshold k total d : ℕ} {dust c : UInt64} {restCalls : List DecomposedPart}
    (hdust : dust.toNat ≤ dustThreshold) (hc : c.toNat = d * 10 ^ k) (hd : 1 ≤ d ∧ d ≤ 9)
    (hnodust : restCalls.filterMap DecomposedPart.dust? = [])
    (hchunks : DigitChunks (k + 1) ((restCalls.filterMap DecomposedPart.chunk?).map UInt64.toNat))
    (htotal : dust.toNat + d * 10 ^ k + (restCalls.map fun p => p.value.toNat).sum = total) :
    Decomposition dustThreshold k total
      ((if dust ≠ 0 then [DecomposedPart.dust dust] else []) ++ [DecomposedPart.chunk c] ++ restCalls) := by
  set parts := (if dust ≠ 0 then [DecomposedPart.dust dust] else []) ++ [DecomposedPart.chunk c] ++ restCalls
    with hparts
  -- the three pieces, by handler
  have hdusts : parts.filterMap DecomposedPart.dust? = if dust ≠ 0 then [dust] else [] := by
    rw [hparts]
    split <;> simp only [List.cons_append, List.nil_append, List.filterMap_cons, DecomposedPart.dust?_dust,
      DecomposedPart.dust?_chunk, hnodust]
  have hchunks' : (parts.filterMap DecomposedPart.chunk?).map UInt64.toNat =
      d * 10 ^ k :: (restCalls.filterMap DecomposedPart.chunk?).map UInt64.toNat := by
    rw [hparts]
    split <;> simp only [List.cons_append, List.nil_append, List.filterMap_cons, DecomposedPart.chunk?_dust,
      DecomposedPart.chunk?_chunk, List.map_cons, hc]
  have hsum : (parts.map fun p => p.value.toNat).sum =
      dust.toNat + d * 10 ^ k + (restCalls.map fun p => p.value.toNat).sum := by
    rw [hparts]
    split
    · simp [hc, Nat.add_assoc]
    · simp_all
  refine ⟨?_, ?_, ?_, ?_⟩
  · rw [hdusts]
    split <;> simp
  · rw [hdusts]
    split
    next hd0 =>
      rintro v hv
      obtain rfl := List.mem_singleton.mp hv
      exact ⟨Nat.pos_of_ne_zero fun h => hd0 (UInt64.toNat_inj.mp h), hdust⟩
    · simp
  · rw [hchunks']
    exact .cons hd le_rfl hchunks
  · rw [hsum, htotal]

/-- **Before the split.** From dust within the threshold and no call made, the
calls of the rest of the loop, with the dust it leaves pending, decompose the
dust and the amount left. Induction on the amount left. -/
theorem loop_joinPhase (dustThreshold : UInt64) (a : ℕ) :
    ∀ (amount dust : UInt64) (k : ℕ) (calls : List DecomposedPart) (isDustHandled : Bool) (finalDust : UInt64),
      amount.toNat = a → dust.toNat + a * 10 ^ k < 2 ^ 64 → dust ≤ dustThreshold →
      decomposeAmountIntoDigits.loop dustThreshold amount false dust (UInt64.ofNat (10 ^ k)) =
        (calls, isDustHandled, finalDust) →
      Decomposition dustThreshold.toNat k (dust.toNat + a * 10 ^ k)
        (calls ++ if !isDustHandled ∧ finalDust ≠ 0 then [DecomposedPart.dust finalDust] else []) := by
  induction a using Nat.strong_induction_on with
  | _ a ih =>
    intro amount dust k calls isDustHandled finalDust ha hfit hdust hrun
    have hd := UInt64.le_iff_toNat_le.mp hdust
    by_cases h0 : amount = 0
    · -- the end: the dust is handed over if there is any
      subst h0
      rw [loop_zero] at hrun
      obtain ⟨rfl, hfinal⟩ := Prod.mk.inj hrun
      obtain ⟨rfl, rfl⟩ := Prod.mk.inj hfinal
      simp only [UInt64.toNat_zero] at ha
      subst ha
      by_cases hd0 : dust = 0
      · subst hd0
        simpa using Decomposition.nil dustThreshold.toNat k
      · have hpos : 0 < dust.toNat := pos_of_ne_zero rfl hd0
        simpa [hd0] using Decomposition.dust (k := k) hpos hd
    have hpos := pos_of_ne_zero ha h0
    have hsum := toNat_dust_add_chunk ha hfit h0
    have hdigits := div_ten_mul_pow a k
    by_cases hjoin : dust + amount % 10 * UInt64.ofNat (10 ^ k) ≤ dustThreshold
    · -- the digit joins the dust
      rw [loop_join h0 hjoin, order_mul_ten] at hrun
      have hrest := ih (a / 10) (by omega) (amount / 10) _ (k + 1) calls isDustHandled finalDust (toNat_div_ten ha)
        (by rw [hsum]; omega) hjoin hrun
      rw [hsum, Nat.add_assoc, Nat.add_comm (a % 10 * 10 ^ k), hdigits] at hrest
      exact hrest.mono (Nat.le_succ k)
    · -- the split: the dust, then the digit as a chunk, then the second phase
      have hcross : dustThreshold.toNat < dust.toNat + a % 10 * 10 ^ k := by
        rw [UInt64.le_iff_toNat_le, hsum] at hjoin
        omega
      have hdigit : a % 10 ≠ 0 := fun h => by rw [h, Nat.zero_mul] at hcross; omega
      have hnonzero : amount % 10 * UInt64.ofNat (10 ^ k) ≠ 0 := fun hz =>
        hdigit ((chunk_eq_zero_iff ha hfit h0).mp hz)
      have hnext := digit_mul_pow_lt a k
      rw [loop_split h0 hjoin, order_mul_ten] at hrun
      simp only [if_pos hnonzero] at hrun
      generalize hrest : decomposeAmountIntoDigits.loop dustThreshold (amount / 10) (false || dust ≠ 0) dust
        (UInt64.ofNat (10 ^ (k + 1))) = rest at hrun
      obtain ⟨restCalls, restFinal⟩ := rest
      obtain ⟨hfinal, hnodust, hchunks, hrestsum⟩ :=
        loop_splitPhase dustThreshold (false || dust ≠ 0) dust (a / 10) (amount / 10) (k + 1) restCalls restFinal
          (toNat_div_ten ha) (by omega) (by omega) (by by_cases hd0 : dust = 0 <;> simp [hd0]) hrest
      obtain ⟨rfl, hfinal'⟩ := Prod.mk.inj hrun
      rw [hfinal] at hfinal'
      obtain ⟨rfl, rfl⟩ := Prod.mk.inj hfinal'
      -- the dust handled now is never handed over again
      have hpending : (if (!(false || decide (dust ≠ 0))) = true ∧ dust ≠ 0 then [DecomposedPart.dust dust]
          else []) = [] := by
        by_cases hd0 : dust = 0 <;> simp [hd0]
      have hfirst : (if (!false) = true ∧ dust ≠ 0 then [DecomposedPart.dust dust] else []) =
          if dust ≠ 0 then [DecomposedPart.dust dust] else [] := by
        simp
      dsimp only
      rw [hpending, List.append_nil, hfirst]
      exact Decomposition.split hd (toNat_chunk ha hfit h0) ⟨by omega, by omega⟩ hnodust hchunks
        (by rw [hrestsum]; omega)

/-- **The decomposition.** `decompose_amount_into_digits` hands over at most one
dust, within the threshold, and single digits at strictly rising powers of ten;
together they are the amount. -/
theorem decomposeAmountIntoDigits_spec (amount dustThreshold : UInt64) :
    Decomposition dustThreshold.toNat 0 amount.toNat (decomposeAmountIntoDigits amount dustThreshold) := by
  unfold decomposeAmountIntoDigits
  by_cases h0 : amount = 0
  · rw [if_pos h0, h0]
    exact Decomposition.nil _ 0
  rw [if_neg h0]
  -- the loop starts with no dust at order `10 ^ 0`
  rcases hrun : decomposeAmountIntoDigits.loop dustThreshold amount false 0 1 with ⟨calls, isDustHandled, finalDust⟩
  have h := loop_joinPhase dustThreshold amount.toNat amount 0 0 calls isDustHandled finalDust rfl
    (by simpa using amount.toNat_lt) UInt64.zero_le hrun
  simpa using h

/-- `decomposeAmount`: the amounts pushed add up to the amount. -/
theorem decomposeAmount_sum (amount dustThreshold : UInt64) :
    ((decomposeAmount amount dustThreshold).map UInt64.toNat).sum = amount.toNat := by
  rw [decomposeAmount, List.map_map]
  exact (decomposeAmountIntoDigits_spec amount dustThreshold).sum

/-! ## Merging the outputs -/

section Merge

variable {maxOuts : UInt64}

theorem mergeOutAmounts_of_le {outAmounts : List UInt64} (h : outAmounts.length ≤ maxOuts.toNat) :
    mergeOutAmounts maxOuts outAmounts = outAmounts := by
  rw [mergeOutAmounts, if_neg (by omega)]

/-- One turn of the merge: the last amount is added to the one before it. -/
theorem mergeOutAmounts_append_pair {pre : List UInt64} {beforeLast last : UInt64}
    (h : maxOuts.toNat < pre.length + 2) :
    mergeOutAmounts maxOuts (pre ++ [beforeLast, last]) = mergeOutAmounts maxOuts (pre ++ [beforeLast + last]) := by
  rw [mergeOutAmounts, if_pos (by simpa using h)]
  split
  next last' beforeLast' rest hrev =>
    simp only [List.reverse_append, List.reverse_cons, List.reverse_nil, List.nil_append, List.cons_append,
      List.cons.injEq] at hrev
    obtain ⟨rfl, rfl, rfl⟩ := hrev
    simp
  -- the reversed list starts with `last` and `beforeLast`: the short cases cannot occur
  next hnil => simp at hnil
  next _ hone => simp at hone

theorem exists_eq_append_pair {l : List UInt64} (h : 2 ≤ l.length) : ∃ pre b c, l = pre ++ [b, c] := by
  rcases hrev : l.reverse with _ | ⟨c, _ | ⟨b, rest⟩⟩
  · simp_all
  · have := congrArg List.length hrev
    simp only [List.length_reverse, List.length_singleton] at this
    omega
  · refine ⟨rest.reverse, b, c, ?_⟩
    rw [← List.reverse_reverse l, hrev]
    simp

/-- **The merge.** With `1 ≤ maxOuts`, merging leaves `min n maxOuts` amounts
and, while the sum fits in 64 bits, the same sum. Induction on the count. -/
theorem mergeOutAmounts_spec (hmax : 1 ≤ maxOuts.toNat) :
    ∀ (n : ℕ) (outAmounts : List UInt64), outAmounts.length = n → (outAmounts.map UInt64.toNat).sum < 2 ^ 64 →
      (mergeOutAmounts maxOuts outAmounts).length = min n maxOuts.toNat ∧
        ((mergeOutAmounts maxOuts outAmounts).map UInt64.toNat).sum = (outAmounts.map UInt64.toNat).sum := by
  intro n
  induction n with
  | zero =>
    intro outAmounts hlen _
    rw [mergeOutAmounts_of_le (by omega), hlen]
    exact ⟨by simp, rfl⟩
  | succ n ih =>
    intro outAmounts hlen hsum
    by_cases hle : n + 1 ≤ maxOuts.toNat
    · rw [mergeOutAmounts_of_le (by omega), hlen]
      exact ⟨by omega, rfl⟩
    -- over the limit: there are two amounts to merge
    obtain ⟨pre, b, c, rfl⟩ := exists_eq_append_pair (l := outAmounts) (by omega)
    simp only [List.length_append, List.length_cons, List.length_nil] at hlen
    simp only [List.map_append, List.map_cons, List.map_nil, List.sum_append, List.sum_cons, List.sum_nil] at hsum
    have hbc : (b + c).toNat = b.toNat + c.toNat := WideArith.toNat_add_of_lt b c (by omega)
    rw [mergeOutAmounts_append_pair (by omega)]
    obtain ⟨hlen', hsum'⟩ := ih (pre ++ [b + c]) (by simp; omega)
      (by simp only [List.map_append, List.map_cons, List.map_nil, List.sum_append, List.sum_cons, List.sum_nil,
        hbc]; omega)
    refine ⟨by rw [hlen']; omega, ?_⟩
    rw [hsum']
    simp only [List.map_append, List.map_cons, List.map_nil, List.sum_append, List.sum_cons, List.sum_nil, hbc]
    omega

end Merge

/-! ## The outputs -/

section Outputs

variable (ops : KeyOps) (txkey : KeyPair) (minerAddress : AccountPublicAddress)

/-- **The output loop.** Where every key is derived, the loop makes one output
per amount, with that amount, and `summaryAmounts` grows by their wrapping sum. -/
theorem minerTxOutputs_summary :
    ∀ (outAmounts : List UInt64) (no : ℕ) (summaryAmounts : UInt64) (outputs : List TransactionOutput)
      (final : UInt64),
      minerTxOutputs ops txkey minerAddress no summaryAmounts outAmounts = some (outputs, final) →
      final = summaryAmounts + outAmounts.sum ∧ outputs.map TransactionOutput.amount = outAmounts := by
  intro outAmounts
  induction outAmounts with
  | nil =>
    intro no summaryAmounts outputs final h
    simp only [minerTxOutputs, Option.some.injEq, Prod.mk.injEq] at h
    obtain ⟨rfl, rfl⟩ := h
    simp
  | cons amount outAmounts ih =>
    intro no summaryAmounts outputs final h
    simp only [minerTxOutputs, Option.bind_eq_bind, Option.bind_eq_some_iff, Option.pure_def,
      Option.some.injEq] at h
    obtain ⟨derivation, -, key, -, ⟨restOutputs, restFinal⟩, hrest, heq⟩ := h
    obtain ⟨rfl, rfl⟩ := Prod.mk.inj heq
    obtain ⟨hfinal, hamounts⟩ := ih (no + 1) (summaryAmounts + amount) restOutputs restFinal hrest
    refine ⟨by rw [hfinal, List.sum_cons, UInt64.add_assoc], ?_⟩
    simp [hamounts]

end Outputs

/-! ## The coinbase -/

/-- The merged decomposition of an amount, paid out by the output loop, sums to
the amount: with the wrapping sum of `summaryAmounts` taken modulo `2 ^ 64`, the
exact sum is the amount itself. -/
theorem summaryAmounts_eq_amount {amount dustThreshold maxOuts : UInt64} (hmax : 1 ≤ maxOuts)
    {ops : KeyOps} {txkey : KeyPair} {minerAddress : AccountPublicAddress} {outputs : List TransactionOutput}
    {summaryAmounts : UInt64}
    (h : minerTxOutputs ops txkey minerAddress 0 0 (mergeOutAmounts maxOuts (decomposeAmount amount dustThreshold)) =
      some (outputs, summaryAmounts)) :
    summaryAmounts = amount := by
  have hmax' : 1 ≤ maxOuts.toNat := UInt64.le_iff_toNat_le.mp hmax
  have hsum := decomposeAmount_sum amount dustThreshold
  obtain ⟨-, hmerged⟩ := mergeOutAmounts_spec hmax' _ _ rfl (by rw [hsum]; exact amount.toNat_lt)
  obtain ⟨hfinal, -⟩ := minerTxOutputs_summary ops txkey minerAddress _ 0 0 outputs summaryAmounts h
  apply UInt64.toNat_inj.mp
  rw [hfinal, UInt64.zero_add, WideArith.toNat_sum, hmerged, hsum, Nat.mod_eq_of_lt amount.toNat_lt]

theorem decompose_amount_into_digits_pays_reward (amount dustThreshold maxOuts : UInt64) (hmax : 1 ≤ maxOuts) :
    Decomposition dustThreshold.toNat 0 amount.toNat (decomposeAmountIntoDigits amount dustThreshold) ∧
      ((decomposeAmount amount dustThreshold).map UInt64.toNat).sum = amount.toNat ∧
      (mergeOutAmounts maxOuts (decomposeAmount amount dustThreshold)).length ≤ maxOuts.toNat ∧
      ((mergeOutAmounts maxOuts (decomposeAmount amount dustThreshold)).map UInt64.toNat).sum = amount.toNat ∧
      ∀ (ops : KeyOps) (txkey : KeyPair) (minerAddress : AccountPublicAddress) (outputs : List TransactionOutput)
        (summaryAmounts : UInt64),
        minerTxOutputs ops txkey minerAddress 0 0 (mergeOutAmounts maxOuts (decomposeAmount amount dustThreshold)) =
          some (outputs, summaryAmounts) →
        summaryAmounts = amount ∧
          outputs.map TransactionOutput.amount = mergeOutAmounts maxOuts (decomposeAmount amount dustThreshold) := by
  have hmax' : 1 ≤ maxOuts.toNat := UInt64.le_iff_toNat_le.mp hmax
  have hsum := decomposeAmount_sum amount dustThreshold
  obtain ⟨hlen, hmerged⟩ := mergeOutAmounts_spec hmax' _ _ rfl (by rw [hsum]; exact amount.toNat_lt)
  refine ⟨decomposeAmountIntoDigits_spec amount dustThreshold, hsum, by rw [hlen]; exact min_le_right _ _,
    by rw [hmerged, hsum], ?_⟩
  intro ops txkey minerAddress outputs summaryAmounts h
  exact ⟨summaryAmounts_eq_amount hmax h, (minerTxOutputs_summary ops txkey minerAddress _ 0 0 outputs _ h).2⟩

theorem decompose_amount_into_digits_pays_reward_sample :
    (1 : UInt64) ≤ 3 ∧
      ((mergeOutAmounts 3 (decomposeAmount 62387455827 DEFAULT_DUST_THRESHOLD)).map UInt64.toNat).sum =
        (62387455827 : UInt64).toNat :=
  ⟨by decide, (decompose_amount_into_digits_pays_reward 62387455827 DEFAULT_DUST_THRESHOLD 3 (by decide)).2.2.2.1⟩

/-- Where the extra is written, the reward is computed and every key is
derived, `constructMinerTx` builds the coinbase: its last check cannot fail. -/
theorem constructMinerTx_eq_some (ops : KeyOps) (txkey : KeyPair) (minerAddress : AccountPublicAddress)
    (cur : Currency) (height : UInt32) (medianSize alreadyGeneratedCoins currentBlockSize fee : UInt64)
    (tx : Transaction) (extraNonce : List UInt8) (maxOuts : UInt64) {extra : List UInt8}
    {blockReward : UInt64} {emissionChange : Int64} {outputs : List TransactionOutput} {summaryAmounts : UInt64}
    (hextra : (if extraNonce.isEmpty then some (addTransactionPublicKeyToExtra [] txkey.publicKey)
      else addExtraNonceToTransactionExtra (addTransactionPublicKeyToExtra [] txkey.publicKey) extraNonce) = some extra)
    (hreward : cur.getBlockReward medianSize currentBlockSize alreadyGeneratedCoins fee height =
      some (blockReward, emissionChange))
    (hmax : 1 ≤ maxOuts)
    (houts : minerTxOutputs ops txkey minerAddress 0 0
      (mergeOutAmounts maxOuts (decomposeAmount blockReward DEFAULT_DUST_THRESHOLD)) = some (outputs, summaryAmounts)) :
    constructMinerTx ops txkey minerAddress cur height medianSize alreadyGeneratedCoins currentBlockSize fee tx
        extraNonce maxOuts =
      some { tx with
        version := TRANSACTION_VERSION_1
        unlockTime := height.toUInt64 + cur.minedMoneyUnlockWindow
        inputs := [.base ⟨height⟩]
        outputs := outputs
        extra := extra } := by
  have hsummary := summaryAmounts_eq_amount hmax houts
  rw [decomposeAmount] at houts
  -- the source's do block branches on the nonce first; split also settles the
  -- `1 <= maxOuts` check from `hmax`
  simp only [constructMinerTx]
  split
  next hne =>
    rw [if_pos hne, Option.some.injEq] at hextra
    subst hextra
    simp only [Option.bind_eq_bind, Option.bind_some, hreward, houts, hsummary,
      not_true_eq_false, if_false]
  next hne =>
    rw [if_neg hne] at hextra
    simp only [Option.bind_eq_bind, hextra, Option.bind_some, hreward, houts, hsummary,
      not_true_eq_false, if_false]

end Cn
