import Mathlib

/-!
# Fixed-width digits

A codec with blocks of a fixed width writes a number as exactly `n` digits of
base `b`, most significant first and padded with zero digits: `digits b n v`.
`value b ds` reads digits back in the same order, and is Mathlib's
`Nat.ofDigits` of the reversed list, which reads the least significant first.

* `value_digits`: reading back the `n` digits of `v` gives `v` modulo `b ^ n`.
* `digits_value`: a list of digits below `b` is the `n` digits of its value,
  `n` its length; together the two make `digits b n` a bijection between the
  values below `b ^ n` and the digit lists of length `n`.
* `digits_eq_map_range`: the digit at place `i` is `v / b ^ (n - 1 - i) % b`,
  as a codec that shifts each byte out computes it.
-/

namespace FixedDigits

variable {b : ℕ}

/-- The `n` lowest base-`b` digits of `v`, most significant first. -/
def digits (b : ℕ) : ℕ → ℕ → List ℕ
  | 0, _ => []
  | n + 1, v => digits b n (v / b) ++ [v % b]

/-- The value of base-`b` digits, most significant first. -/
@[grind] def value (b : ℕ) (ds : List ℕ) : ℕ := ds.foldl (fun acc d => acc * b + d) 0

@[simp] theorem digits_zero (v : ℕ) : digits b 0 v = [] := rfl

theorem digits_succ (n v : ℕ) : digits b (n + 1) v = digits b n (v / b) ++ [v % b] := rfl

@[simp] theorem length_digits (n v : ℕ) : (digits b n v).length = n := by
  induction n generalizing v with
  | zero => rfl
  | succ n ih => simp [digits_succ, ih]

@[simp] theorem value_nil : value b [] = 0 := rfl

theorem value_append_singleton (ds : List ℕ) (d : ℕ) : value b (ds ++ [d]) = value b ds * b + d := by
  simp [value, List.foldl_append]

/-- Most significant first is least significant first, reversed. -/
theorem value_eq_ofDigits (ds : List ℕ) : value b ds = Nat.ofDigits b ds.reverse := by
  induction ds using List.reverseRecOn with
  | nil => rfl
  | append_singleton ds d ih =>
    rw [value_append_singleton, List.reverse_append, List.reverse_singleton, List.singleton_append,
      Nat.ofDigits_cons, ih]
    ring

theorem value_digits (n v : ℕ) : value b (digits b n v) = v % b ^ n := by
  induction n generalizing v with
  | zero => simp [Nat.mod_one]
  | succ n ih =>
    -- `v % b ^ (n + 1)` splits at its lowest digit
    rw [digits_succ, value_append_singleton, ih, pow_succ, mul_comm (b ^ n) b, Nat.mod_mul]
    ring

/-- The digits of zero are zeros. -/
theorem digits_of_zero (n : ℕ) : digits b n 0 = List.replicate n 0 := by
  induction n with
  | zero => rfl
  | succ n ih => rw [digits_succ, Nat.zero_div, ih, Nat.zero_mod, List.replicate_succ']

/-- The `i`-th of the `n` digits, counted from the most significant. -/
theorem digits_eq_map_range (n v : ℕ) : digits b n v = (List.range n).map fun i => v / b ^ (n - 1 - i) % b := by
  induction n generalizing v with
  | zero => rfl
  | succ n ih =>
    rw [digits_succ, ih, List.range_succ, List.map_append, List.map_singleton, Nat.add_sub_cancel,
      Nat.sub_self, pow_zero, Nat.div_one]
    congr 1
    apply List.map_congr_left
    intro i hi
    rw [List.mem_range] at hi
    rw [Nat.div_div_eq_div_mul, ← pow_succ']
    congr 3
    omega

theorem digits_lt (hb : 0 < b) (n v : ℕ) : ∀ d ∈ digits b n v, d < b := by
  induction n generalizing v with
  | zero => simp
  | succ n ih =>
    intro d hd
    rw [digits_succ, List.mem_append, List.mem_singleton] at hd
    rcases hd with hd | rfl
    · exact ih (v / b) d hd
    · exact Nat.mod_lt v hb

theorem value_lt {ds : List ℕ} (hb : 1 < b) (h : ∀ d ∈ ds, d < b) : value b ds < b ^ ds.length := by
  rw [value_eq_ofDigits, ← List.length_reverse]
  exact Nat.ofDigits_lt_base_pow_length hb (fun d hd => h d (List.mem_reverse.mp hd))

/-- Digits below the base are the digits of their value. -/
theorem digits_value {ds : List ℕ} (h : ∀ d ∈ ds, d < b) : digits b ds.length (value b ds) = ds := by
  induction ds using List.reverseRecOn with
  | nil => rfl
  | append_singleton ds d ih =>
    have hd : d < b := h d (by simp)
    have hb : 0 < b := by omega
    have hval : (value b ds * b + d) / b = value b ds := by
      rw [Nat.add_comm, Nat.add_mul_div_right _ _ hb, Nat.div_eq_of_lt hd, Nat.zero_add]
    rw [List.length_append, List.length_singleton, digits_succ, value_append_singleton, hval,
      Nat.add_comm (value b ds * b), Nat.add_mul_mod_self_right, Nat.mod_eq_of_lt hd,
      ih (fun x hx => h x (List.mem_append_left _ hx))]

/-- The digits of a value below `b ^ n` read back to it. -/
theorem value_digits_of_lt {n v : ℕ} (hv : v < b ^ n) : value b (digits b n v) = v := by
  rw [value_digits, Nat.mod_eq_of_lt hv]

/-- The `m + n` digits of `v` are the `m` digits above the lowest `n`, then those. -/
theorem digits_add (m n v : ℕ) : digits b (m + n) v = digits b m (v / b ^ n) ++ digits b n v := by
  induction n generalizing v with
  | zero => simp
  | succ n ih =>
    rw [← Nat.add_assoc, digits_succ, ih, digits_succ, List.append_assoc, Nat.div_div_eq_div_mul,
      ← pow_succ']

end FixedDigits
