import Mathlib

/-!
# Exponentially spaced heights

To say where its chain stands, a node lists the heights `e - 1, e - 2, e - 4,
…, e - 2 ^ k` below its height `e`, for every `2 ^ k ≤ e` (`powerSteps`), and
the genesis height `0` after them when the last is not `0`
(`sparseHeights`). A peer whose chain agrees up to height `f < e` takes the
first of them at or below `f`. That one is at most `e - 1 - f` below `f`
(`find?_sparseHeights`): the first step that reaches below the fork is the
first power of two past the distance `e - f`, less than twice it.
-/

namespace SparseHeights

/-- The heights `e - 2 ^ k` for every `2 ^ k ≤ e`, largest first. -/
def powerSteps (e : ℕ) : List ℕ := (List.range (Nat.log 2 e + 1)).map (e - 2 ^ ·)

/-- `powerSteps e`, and the genesis height `0` when the last step is not `0`. -/
def sparseHeights (e : ℕ) : List ℕ :=
  if e - 2 ^ Nat.log 2 e = 0 then powerSteps e else powerSteps e ++ [0]

theorem getLast?_powerSteps (e : ℕ) : (powerSteps e).getLast? = some (e - 2 ^ Nat.log 2 e) := by
  rw [powerSteps, List.range_succ, List.map_append, List.map_singleton, List.getLast?_concat]

theorem lt_of_mem_sparseHeights {e x : ℕ} (he : 0 < e) (hx : x ∈ sparseHeights e) : x < e := by
  have hsteps : ∀ y ∈ powerSteps e, y < e := by
    intro y hy
    obtain ⟨k, -, rfl⟩ := List.mem_map.mp hy
    have := Nat.one_le_two_pow (n := k)
    omega
  unfold sparseHeights at hx
  split at hx
  · exact hsteps x hx
  · rcases List.mem_append.mp hx with hx | hx
    · exact hsteps x hx
    · rw [List.mem_singleton.mp hx]
      exact he

/-! ## The first height at or below the fork -/

section Find

variable {e f : ℕ}

/-- The steps split at the `c`-th: those before it, it, and those after it. -/
theorem powerSteps_split {c : ℕ} (hc : c ≤ Nat.log 2 e) :
    powerSteps e = (List.range c).map (e - 2 ^ ·) ++ (e - 2 ^ c) :: (List.range' (c + 1) (Nat.log 2 e - c)).map (e - 2 ^ ·) := by
  have hrange : List.range (Nat.log 2 e + 1) = List.range c ++ c :: List.range' (c + 1) (Nat.log 2 e - c) := by
    rw [List.range_eq_range', List.range_eq_range', show Nat.log 2 e + 1 = c + (Nat.log 2 e - c + 1) by omega,
      ← List.range'_append, List.range'_succ]
    simp
  rw [powerSteps, hrange, List.map_append, List.map_cons]

/-- Every step before the first power of two past `e - f` stays above `f`. -/
theorem not_le_of_lt_clog {k : ℕ} (hk : k < Nat.clog 2 (e - f)) : ¬ e - 2 ^ k ≤ f := by
  have hpow := (Nat.lt_clog_iff_pow_lt (by norm_num)).mp hk
  generalize 2 ^ k = p at hpow ⊢
  omega

/-- **The doubling.** The first height at or below `f` is at most `e - 1 - f`
below it. -/
theorem find?_sparseHeights (hf : f < e) :
    ∃ o, (sparseHeights e).find? (fun x => decide (x ≤ f)) = some o ∧ f - o ≤ e - 1 - f := by
  set c := Nat.clog 2 (e - f) with hcdef
  have hpow_c : e - f ≤ 2 ^ c := Nat.le_pow_clog (by norm_num) _
  have hlog : 2 ^ Nat.log 2 e ≤ e := Nat.pow_log_le_self 2 (by omega)
  have hlog' : e < 2 ^ (Nat.log 2 e + 1) := Nat.lt_pow_succ_log_self (by norm_num) e
  have hbefore : ∀ k < c, ∀ x, x = e - 2 ^ k → decide (x ≤ f) = false := by
    intro k hk x hx
    simpa [hx] using not_le_of_lt_clog hk
  by_cases hc : c ≤ Nat.log 2 e
  · -- the `c`-th step is the first at or below `f`
    have hfound : (powerSteps e).find? (fun x => decide (x ≤ f)) = some (e - 2 ^ c) := by
      rw [powerSteps_split hc, List.find?_append, List.find?_eq_none.mpr, Option.none_or,
        List.find?_cons_of_pos (by simp; omega)]
      intro x hx
      obtain ⟨k, hk, rfl⟩ := List.mem_map.mp hx
      simpa using hbefore k (List.mem_range.mp hk) _ rfl
    have hsparse : (sparseHeights e).find? (fun x => decide (x ≤ f)) = some (e - 2 ^ c) := by
      unfold sparseHeights
      split
      · exact hfound
      · rw [List.find?_append, hfound, Option.some_or]
    refine ⟨e - 2 ^ c, hsparse, ?_⟩
    -- the step before it was still above `f`, so `2 ^ c < 2 * (e - f)`
    rcases Nat.eq_zero_or_pos c with h0 | hpos
    · rw [h0, pow_zero] at hpow_c ⊢
      omega
    · have hprev : 2 ^ (c - 1) < e - f := (Nat.lt_clog_iff_pow_lt (by norm_num)).mp (by omega)
      have hdouble : 2 ^ c = 2 * 2 ^ (c - 1) := by
        rw [← pow_succ']
        congr 1
        omega
      omega
  · -- no step reaches `f`: the genesis does, and the fork is in the lower half
    have hnone : (powerSteps e).find? (fun x => decide (x ≤ f)) = none := by
      apply List.find?_eq_none.mpr
      intro x hx
      obtain ⟨k, hk, rfl⟩ := List.mem_map.mp hx
      simpa using hbefore k (by have := List.mem_range.mp hk; omega) _ rfl
    have hlast : 2 ^ Nat.log 2 e < e - f := (Nat.lt_clog_iff_pow_lt (by norm_num)).mp (by omega)
    have hsparse : (sparseHeights e).find? (fun x => decide (x ≤ f)) = some 0 := by
      unfold sparseHeights
      rw [if_neg (by omega), List.find?_append, hnone, Option.none_or]
      simp
    refine ⟨0, hsparse, ?_⟩
    rw [pow_succ] at hlog'
    omega

end Find

end SparseHeights
