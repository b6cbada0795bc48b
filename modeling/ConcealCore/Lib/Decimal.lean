import Mathlib

/-!
# Decimal numerals

A decimal numeral is a list of digit characters, most significant first.
`value s` is the number it writes, leading zeros allowed; `toDecimal n` is the
numeral of `n` without leading zeros, `"0"` for zero, as a C++ program prints a
number.

* `value_toDecimal`: the numeral of `n` has value `n`.
* `value_append`, `value_replicate_zero`: the value of a numeral followed by
  more digits, and zeros in front change nothing.
* `value_lt`: a numeral of `k` digits is below `10 ^ k`.
-/

namespace Decimal

/-- The digit a character stands for, when it is one. -/
def digitVal (c : Char) : ℕ := c.toNat - '0'.toNat

/-- The number a list of digits writes, most significant first. -/
@[grind] def value (s : List Char) : ℕ := s.foldl (fun v c => 10 * v + digitVal c) 0

/-- The loop of `toDecimal` with explicit fuel. -/
@[grind] def toDecimal.loop : ℕ → ℕ → List Char
  | 0, n => [Nat.digitChar n]
  | fuel + 1, n => if n < 10 then [Nat.digitChar n] else toDecimal.loop fuel (n / 10) ++ [Nat.digitChar (n % 10)]

/-- The numeral of `n`, most significant digit first, without leading zeros.
The number itself is enough fuel: every step that goes on divides it by ten. -/
def toDecimal (n : ℕ) : List Char := toDecimal.loop n n

theorem digitChar_isDigit : ∀ d < 10, (Nat.digitChar d).isDigit = true := by decide

theorem digitVal_digitChar : ∀ d < 10, digitVal (Nat.digitChar d) = d := by decide

theorem digitVal_lt {c : Char} (h : c.isDigit = true) : digitVal c < 10 := by
  simp only [Char.isDigit, Bool.and_eq_true, decide_eq_true_eq] at h
  obtain ⟨h0, h9⟩ := h
  have h0' : '0'.toNat ≤ c.toNat := h0
  have h9' : c.toNat ≤ '9'.toNat := h9
  simp only [digitVal]
  simp only [Char.reduceToNat] at h0' h9' ⊢
  omega

/-! ## Values -/

theorem foldl_value (s : List Char) (acc : ℕ) :
    s.foldl (fun v c => 10 * v + digitVal c) acc = acc * 10 ^ s.length + value s := by
  induction s generalizing acc with
  | nil => simp [value]
  | cons c cs ih =>
    -- both folds go on from their first digit
    have hcons : value (c :: cs) = digitVal c * 10 ^ cs.length + value cs := by
      rw [value, List.foldl_cons, ih, Nat.mul_zero, Nat.zero_add]
    rw [List.foldl_cons, ih, hcons, List.length_cons, pow_succ]
    ring

@[simp] theorem value_nil : value [] = 0 := rfl

theorem value_append (s t : List Char) : value (s ++ t) = value s * 10 ^ t.length + value t := by
  rw [value, List.foldl_append, ← value, foldl_value]

theorem value_append_singleton (s : List Char) (c : Char) : value (s ++ [c]) = 10 * value s + digitVal c := by
  rw [value_append]
  simp [value, mul_comm]

@[simp] theorem value_replicate_zero (k : ℕ) : value (List.replicate k '0') = 0 := by
  induction k with
  | zero => rfl
  | succ k ih =>
    rw [List.replicate_succ', value_append_singleton, ih]
    rfl

theorem value_lt {s : List Char} (h : ∀ c ∈ s, c.isDigit = true) : value s < 10 ^ s.length := by
  induction s using List.reverseRecOn with
  | nil => simp
  | append_singleton s c ih =>
    have hs := ih fun x hx => h x (List.mem_append_left _ hx)
    have hc := digitVal_lt (h c (List.mem_append_right _ (List.mem_singleton_self c)))
    rw [value_append_singleton, List.length_append, List.length_singleton, pow_succ]
    omega

/-! ## The numeral of a number -/

theorem toDecimal.loop_fuel : ∀ (f g n : ℕ), n ≤ f → n ≤ g → toDecimal.loop f n = toDecimal.loop g n := by
  intro f
  induction f with
  | zero =>
    intro g n hf _
    obtain rfl : n = 0 := by omega
    cases g <;> simp [toDecimal.loop]
  | succ f ih =>
    intro g n hf hg
    cases g with
    | zero =>
      obtain rfl : n = 0 := by omega
      simp [toDecimal.loop]
    | succ g =>
      simp only [toDecimal.loop]
      split
      · rfl
      · rw [ih g (n / 10) (by omega) (by omega)]

/-- The recursion `toDecimal` unfolds by. -/
theorem toDecimal_eq (n : ℕ) :
    toDecimal n = if n < 10 then [Nat.digitChar n] else toDecimal (n / 10) ++ [Nat.digitChar (n % 10)] := by
  cases n with
  | zero => rfl
  | succ n =>
    rw [toDecimal, toDecimal.loop]
    split
    · rfl
    · rw [toDecimal, toDecimal.loop_fuel n ((n + 1) / 10) _ (by omega) le_rfl]

theorem isDigit_of_mem_toDecimal (n : ℕ) : ∀ c ∈ toDecimal n, c.isDigit = true := by
  induction n using Nat.strong_induction_on with
  | _ n ih =>
    rw [toDecimal_eq]
    split
    · next hn =>
      simpa using digitChar_isDigit n hn
    · next hn =>
      intro c hc
      rcases List.mem_append.mp hc with hc | hc
      · exact ih (n / 10) (by omega) c hc
      · rw [List.mem_singleton.mp hc]
        exact digitChar_isDigit _ (Nat.mod_lt _ (by norm_num))

theorem value_toDecimal (n : ℕ) : value (toDecimal n) = n := by
  induction n using Nat.strong_induction_on with
  | _ n ih =>
    rw [toDecimal_eq]
    split
    · next hn =>
      simp [value, digitVal_digitChar n hn]
    · next hn =>
      -- the numeral of `n / 10`, then the last digit
      rw [value_append_singleton, ih (n / 10) (by omega), digitVal_digitChar _ (Nat.mod_lt _ (by norm_num))]
      omega

end Decimal
