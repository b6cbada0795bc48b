import Mathlib

/-!
# Words split in halves, and their carries

Facts about 64-bit unsigned words for code that multiplies and divides them
through their 32-bit halves: the value of a half and of a half shifted into
place, a digit joined under a shifted one, the carry that a wrapping addition
signals by coming out below an operand, the wrapping sum of a list, and the schoolbook product of two
numbers written in base `2 ^ 32`.
-/

namespace WideArith

theorem toNat_shiftRight_32 (x : UInt64) : (x >>> 32).toNat = x.toNat / 2 ^ 32 := by
  rw [UInt64.toNat_shiftRight, Nat.shiftRight_eq_div_pow]
  rfl

theorem toNat_and_low (x : UInt64) : (x &&& 0xFFFFFFFF).toNat = x.toNat % 2 ^ 32 := by
  rw [UInt64.toNat_and, ← Nat.and_two_pow_sub_one_eq_mod]
  rfl

theorem toNat_shiftLeft_32 (x : UInt64) : (x <<< 32).toNat = x.toNat % 2 ^ 32 * 2 ^ 32 := by
  rw [UInt64.toNat_shiftLeft, Nat.shiftLeft_eq]
  show x.toNat * 2 ^ 32 % 2 ^ 64 = _
  rw [show (2 : Nat) ^ 64 = 2 ^ 32 * 2 ^ 32 by norm_num, Nat.mul_mod_mul_right]

/-- A digit below `2 ^ 32` joined under a word shifted up by 32 bits. -/
theorem toNat_shiftLeft_32_or (x q : UInt64) (hq : q.toNat < 2 ^ 32) :
    ((x <<< 32) ||| q).toNat = x.toNat % 2 ^ 32 * 2 ^ 32 + q.toNat := by
  rw [UInt64.toNat_or, toNat_shiftLeft_32, Nat.mul_comm (x.toNat % 2 ^ 32),
    ← Nat.two_pow_add_eq_or_of_lt hq]

/-- A wrapping sum comes out below its first operand exactly when it carried. -/
theorem add_lt_left_iff (a b : UInt64) : a + b < a ↔ 2 ^ 64 ≤ a.toNat + b.toNat := by
  have ha := a.toNat_lt
  have hb := b.toNat_lt
  rw [UInt64.lt_iff_toNat_lt, UInt64.toNat_add]
  constructor
  · intro h
    by_contra hc
    rw [Nat.mod_eq_of_lt (by omega)] at h
    omega
  · intro h
    rw [Nat.mod_eq_sub_mod h, Nat.mod_eq_of_lt (by omega)]
    omega

theorem toNat_add_of_lt (a b : UInt64) (h : a.toNat + b.toNat < 2 ^ 64) :
    (a + b).toNat = a.toNat + b.toNat := by
  rw [UInt64.toNat_add, Nat.mod_eq_of_lt h]

/-- A wrapping sum of a list is its exact sum, modulo `2 ^ 64`. -/
theorem toNat_sum (l : List UInt64) : l.sum.toNat = (l.map UInt64.toNat).sum % 2 ^ 64 := by
  induction l with
  | nil => rfl
  | cons a l ih => rw [List.sum_cons, UInt64.toNat_add, ih, List.map_cons, List.sum_cons, Nat.add_mod_mod]

theorem toNat_mul_of_lt (a b : UInt64) (h : a.toNat * b.toNat < 2 ^ 64) :
    (a * b).toNat = a.toNat * b.toNat := by
  rw [UInt64.toNat_mul, Nat.mod_eq_of_lt h]

/-- The product of two halves fits in a word. -/
theorem mul_lt_of_halves {x y : Nat} (hx : x < 2 ^ 32) (hy : y < 2 ^ 32) : x * y < 2 ^ 64 :=
  calc x * y < 2 ^ 32 * 2 ^ 32 := Nat.mul_lt_mul'' hx hy
    _ = 2 ^ 64 := by norm_num

/-- The schoolbook product in base `2 ^ 32`. -/
theorem mul_halves (x y : Nat) :
    x * y = x / 2 ^ 32 * (y / 2 ^ 32) * 2 ^ 64 +
      (x / 2 ^ 32 * (y % 2 ^ 32) + x % 2 ^ 32 * (y / 2 ^ 32)) * 2 ^ 32 + x % 2 ^ 32 * (y % 2 ^ 32) := by
  conv_lhs => rw [← Nat.div_add_mod x (2 ^ 32), ← Nat.div_add_mod y (2 ^ 32)]
  ring

/-- A number followed by one digit in base `2 ^ 32`, with the number split by `d`. -/
theorem digit_split (M D d : Nat) :
    M * 2 ^ 32 + D = (M % d * 2 ^ 32 + D) + d * (M / d * 2 ^ 32) := by
  conv_lhs => rw [← Nat.mod_add_div M d]
  ring

/-- One step of long division in base `2 ^ 32`: the quotient of a number
followed by a digit is the quotient of the number followed by the quotient of
its remainder followed by the digit. -/
theorem div_digit_step (M D : Nat) {d : Nat} (hd : 0 < d) :
    (M * 2 ^ 32 + D) / d = M / d * 2 ^ 32 + (M % d * 2 ^ 32 + D) / d := by
  rw [digit_split M D d, Nat.add_mul_div_left _ _ hd]
  ring

theorem mod_digit_step (M D d : Nat) : (M * 2 ^ 32 + D) % d = (M % d * 2 ^ 32 + D) % d := by
  rw [digit_split M D d, Nat.add_mul_mod_self_left]

/-- A digit of the quotient is a digit when the remainder before it is below the divisor. -/
theorem digit_div_lt {r D d : Nat} (hr : r < d) (hD : D < 2 ^ 32) : (r * 2 ^ 32 + D) / d < 2 ^ 32 := by
  rw [Nat.div_lt_iff_lt_mul (by omega)]
  calc r * 2 ^ 32 + D < (r + 1) * 2 ^ 32 := by omega
    _ ≤ d * 2 ^ 32 := Nat.mul_le_mul_right _ hr
    _ = 2 ^ 32 * d := Nat.mul_comm _ _

/-- The value of a word pair read back from a number below `2 ^ 128`. -/
theorem join_split {n : ℕ} (h : n < 2 ^ 128) : n / 2 ^ 64 % 2 ^ 64 * 2 ^ 64 + n % 2 ^ 64 % 2 ^ 64 = n := by
  omega

/-- An `int64_t` read from the bits of a `uint64_t`. -/
theorem toInt_toInt64 (x : UInt64) :
    x.toInt64.toInt = if 2 * x.toNat < 2 ^ 64 then (x.toNat : ℤ) else x.toNat - 2 ^ 64 := by
  rw [← Int64.toInt_toBitVec, UInt64.toBitVec_toInt64, BitVec.toInt_eq_toNat_cond, UInt64.toNat_toBitVec]
  rfl

/-- The difference of two words below `2 ^ 63`, read as an `int64_t`, is the
difference of the integers. -/
theorem toInt_toInt64_sub {x y : UInt64} (hx : x.toNat < 2 ^ 63) (hy : y.toNat < 2 ^ 63) :
    (x - y).toInt64.toInt = (x.toNat : ℤ) - y.toNat := by
  rw [toInt_toInt64, UInt64.toNat_sub]
  by_cases h : y.toNat ≤ x.toNat
  · rw [show 2 ^ 64 - y.toNat + x.toNat = (x.toNat - y.toNat) + 2 ^ 64 by omega, Nat.add_mod_right,
      Nat.mod_eq_of_lt (by omega), if_pos (by omega)]
    omega
  · rw [Nat.mod_eq_of_lt (by omega), if_neg (by omega)]
    omega

end WideArith
