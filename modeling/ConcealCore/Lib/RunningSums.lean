import Mathlib

/-!
# Running sums and differences

`sumsFrom acc l` are the running sums of `l` after `acc`, and `diffsFrom prev l`
the difference of each element from the one before it, `prev` standing before
the first. In an additive group each undoes the other (`diffsFrom_sumsFrom`,
`sumsFrom_diffsFrom`); over `ℕ` the running sums never go down
(`pairwise_sumsFrom`). Modulo `n` over `ℕ`, with the difference written
`(n - a + b) % n`, the two steps undo each other as well
(`sub_add_mod_of_add_mod`, `add_mod_of_sub_add_mod`).

The running sums are what `List.scanl` lists after the start (`scanl_add`). The loop that
takes the differences in place, back to front with `a[i] -= a[i - 1]`, reads
at each step an entry not yet updated, and so leaves `diffsFrom 0`
(`foldl_subtractDown`).
-/

namespace RunningSums

variable {α : Type*}

/-- The running sums of a list after `acc`. -/
@[grind] def sumsFrom [Add α] : α → List α → List α
  | _, [] => []
  | acc, x :: xs => (acc + x) :: sumsFrom (acc + x) xs

/-- Each element less the one before it, `prev` before the first. -/
@[grind] def diffsFrom [Sub α] : α → List α → List α
  | _, [] => []
  | prev, x :: xs => (x - prev) :: diffsFrom x xs

@[simp] theorem length_sumsFrom [Add α] (acc : α) (l : List α) : (sumsFrom acc l).length = l.length := by
  induction l generalizing acc with
  | nil => rfl
  | cons x xs ih => simp [sumsFrom, ih]

@[simp] theorem length_diffsFrom [Sub α] (prev : α) (l : List α) : (diffsFrom prev l).length = l.length := by
  induction l generalizing prev with
  | nil => rfl
  | cons x xs ih => simp [diffsFrom, ih]

/-- `List.scanl` with addition keeps the start in front of the running sums. -/
theorem scanl_add [Add α] (acc : α) (l : List α) : l.scanl (· + ·) acc = acc :: sumsFrom acc l := by
  induction l generalizing acc with
  | nil => rfl
  | cons x xs ih => rw [List.scanl_cons, ih (acc + x), sumsFrom]

/-- The entry just after a prefix. -/
theorem getD_append_cons {p rest : List α} {x d : α} {i : ℕ} (hi : i = p.length) : (p ++ x :: rest).getD i d = x := by
  subst hi
  simp

/-- Setting the entry just after a prefix. -/
theorem set_append_cons {p rest : List α} {x y : α} {i : ℕ} (hi : i = p.length) :
    (p ++ x :: rest).set i y = p ++ y :: rest := by
  subst hi
  simp [List.set_append_right]

section Group

variable [AddCommGroup α]

theorem diffsFrom_sumsFrom (acc : α) (l : List α) : diffsFrom acc (sumsFrom acc l) = l := by
  induction l generalizing acc with
  | nil => rfl
  | cons x xs ih => simp [sumsFrom, diffsFrom, ih]

theorem sumsFrom_diffsFrom (prev : α) (l : List α) : sumsFrom prev (diffsFrom prev l) = l := by
  induction l generalizing prev with
  | nil => rfl
  | cons x xs ih => simp [sumsFrom, diffsFrom, ih]

/-! ## Differences in place -/

/-- **Back to front.** After the entries `n - 1, …, j` were updated, the list
holds its first `j` elements and then the differences from `j - 1` on. -/
theorem foldr_subtractDown_drop (l : List α) :
    ∀ m j, 1 ≤ j → j + m = l.length →
      (List.range' j m).foldr (fun i res => res.set i (res.getD i 0 - res.getD (i - 1) 0)) l =
        l.take j ++ diffsFrom (l.getD (j - 1) 0) (l.drop j) := by
  intro m
  induction m with
  | zero =>
    intro j _ hj
    have hend : l.length ≤ j := by omega
    rw [List.take_of_length_le hend, List.drop_of_length_le hend, diffsFrom, List.append_nil]
    rfl
  | succ m ih =>
    intro j hj hm
    have hj' : j < l.length := by omega
    have htake : l.take (j + 1) = l.take j ++ [l[j]] := List.take_succ_eq_append_getElem hj'
    have hdrop : l.drop j = l[j] :: l.drop (j + 1) := List.drop_eq_getElem_cons hj'
    have hlen : j = (l.take j).length := by simp; omega
    rw [List.range'_succ, List.foldr_cons, ih (j + 1) (by omega) (by omega), htake, List.append_assoc,
      List.singleton_append]
    -- the entry `j` is still the element, and so is the entry `j - 1` below it
    have hprev : (l.take j ++ l[j] :: diffsFrom (l.getD (j + 1 - 1) 0) (l.drop (j + 1))).getD (j - 1) 0 =
        l.getD (j - 1) 0 := by
      rw [List.getD_append _ _ _ _ (by omega), List.getD_eq_getElem _ _ (by omega), List.getElem_take,
        List.getD_eq_getElem _ _ (by omega)]
    rw [getD_append_cons hlen, hprev, set_append_cons hlen, hdrop, diffsFrom, Nat.add_sub_cancel,
      List.getD_eq_getElem _ _ hj']

/-- The loop `for (i = size - 1; i != 0; i--) a[i] -= a[i - 1]` leaves the
differences. -/
theorem foldl_subtractDown (l : List α) :
    (List.range' 1 (l.length - 1)).reverse.foldl (fun res i => res.set i (res.getD i 0 - res.getD (i - 1) 0)) l =
      diffsFrom 0 l := by
  rw [List.foldl_reverse]
  cases l with
  | nil => rfl
  | cons x xs =>
    rw [foldr_subtractDown_drop _ _ 1 le_rfl (by simp; omega)]
    simp [diffsFrom]

end Group

/-! ## Running sums of naturals -/

theorem le_of_mem_sumsFrom {acc y : ℕ} {l : List ℕ} (h : y ∈ sumsFrom acc l) : acc ≤ y := by
  induction l generalizing acc with
  | nil => simp [sumsFrom] at h
  | cons x xs ih =>
    rcases List.mem_cons.mp h with rfl | h
    · omega
    · have := ih h
      omega

/-- Running sums of naturals never go down. -/
theorem pairwise_sumsFrom (acc : ℕ) (l : List ℕ) : (sumsFrom acc l).Pairwise (· ≤ ·) := by
  induction l generalizing acc with
  | nil => exact List.Pairwise.nil
  | cons x xs ih =>
    refine List.Pairwise.cons (fun y hy => le_of_mem_sumsFrom hy) (ih (acc + x))

/-! ## Running sums modulo `n` in `ℕ`

Unsigned code that keeps running sums modulo `n` writes the difference of `b`
from `a` as `(n - a + b) % n`, which needs `a ≤ n` to mean it. -/

section Modular

variable {n a b : ℕ}

/-- The difference from `a` of the next running sum is the term added. -/
theorem sub_add_mod_of_add_mod (ha : a ≤ n) : (n - a + (b + a) % n) % n = b % n := by
  rw [Nat.add_mod_mod, show n - a + (b + a) = b + n by omega, Nat.add_mod_right]

/-- Adding back the difference of `b` from `a` gives `b`. -/
theorem add_mod_of_sub_add_mod (ha : a ≤ n) (hb : b < n) : ((n - a + b) % n + a) % n = b := by
  rw [Nat.mod_add_mod, show n - a + b + a = b + n by omega, Nat.add_mod_right, Nat.mod_eq_of_lt hb]

end Modular

end RunningSums
