import ConcealCore.Spec.Difficulty
import ConcealCore.Proof.AltDifficulty
import ConcealCore.Lib.WideArith

/-!
# What the difficulty algorithms return

* `cutBounds_spec`: for a window of `2 ≤ length ≤ w` entries and a cut with
  `2 c ≤ w - 2`, the centred slice lies in the window and holds two entries at
  least, so every read of the sorted window is in range.
* `nextDifficultyUnversioned_eq`: the overload without a version returns 1 on
  a window of at most one block, and otherwise the work of the centred slice
  per target time over its time span, rounded up (`ceilDifficulty`), or 0 when
  the product or the rounding does not fit in 64 bits.
* `lwma1Difficulty_eq_zero_of_slow`: LWMA-1 caps each solve time at `6 T`; when
  all 60 reach the cap and the blocks average a difficulty of 6 or less, the
  weighted average truncates to 0. `pushBlock` refuses every block while the
  next difficulty is 0, and the window that gives it never moves again. On the
  testnet, whose first blocks after the eighth upgrade get the guess 10, 21
  blocks twelve minutes apart get there (`lwma1Difficulty_zero_on_testnet`).
* `lwma1Difficulty_wraps_below_guard`: the guard of LWMA-1 against overflow
  switches at an average of `2000000 N² T = 8.64 · 10^11`, but the product it
  guards wraps from `2 ^ 64 / (N (N + 1) T 99) ≈ 4.24 · 10^11` on.
-/

namespace Cn

namespace Currency

open WideArith

/-! ## The slice of the window -/

/-- The length of the centred slice, `window - 2 cut`, computed without wrapping. -/
theorem toNat_window_sub {window cut : UInt64} (hc : 2 * cut.toNat ≤ window.toNat - 2) :
    (window - 2 * cut).toNat = window.toNat - 2 * cut.toNat := by
  have hw := window.toNat_lt
  have h2c : (2 * cut).toNat = 2 * cut.toNat := by
    rw [UInt64.toNat_mul, show (2 : UInt64).toNat = 2 from rfl, Nat.mod_eq_of_lt (by omega)]
  rw [UInt64.toNat_sub_of_le _ _ (UInt64.le_iff_toNat_le.2 (by omega)), h2c]

/-- **The centred slice.** For a window no longer than `window` and a cut with
`2 cut ≤ window - 2`, the slice starts at `(length - (window - 2 cut) + 1) / 2`
(at `0` when the window is no longer than `window - 2 cut`) and holds
`min length (window - 2 cut)` entries. -/
theorem cutBounds_toNat {length window cut : UInt64} (hw : length.toNat ≤ window.toNat)
    (hc : 2 * cut.toNat ≤ window.toNat - 2) :
    (cutBounds length window cut).1.toNat = (length.toNat - (window.toNat - 2 * cut.toNat) + 1) / 2 ∧
      (cutBounds length window cut).2.toNat =
        (cutBounds length window cut).1.toNat + min length.toNat (window.toNat - 2 * cut.toNat) := by
  have hm := toNat_window_sub hc
  have hl := length.toNat_lt
  unfold cutBounds
  split
  · -- a short window is taken whole
    rename_i hle
    rw [UInt64.le_iff_toNat_le, hm] at hle
    simp only [UInt64.toNat_zero]
    omega
  · -- a longer window: `cutBegin` centres `window - 2 cut` entries in it
    rename_i hgt
    rw [UInt64.le_iff_toNat_le, hm] at hgt
    have hsub : (length - (window - 2 * cut)).toNat = length.toNat - (window.toNat - 2 * cut.toNat) := by
      rw [UInt64.toNat_sub_of_le _ _ (UInt64.le_iff_toNat_le.2 (by omega)), hm]
    have hbegin : ((length - (window - 2 * cut) + 1) / 2).toNat =
        (length.toNat - (window.toNat - 2 * cut.toNat) + 1) / 2 := by
      rw [UInt64.toNat_div, toNat_add_of_lt _ _ (by rw [hsub]; simp; omega), hsub]
      rfl
    dsimp only
    rw [toNat_add_of_lt _ _ (by rw [hbegin, hm]; omega), hbegin, hm]
    omega

/-- **The centred slice lies in the window.** With `2 ≤ length ≤ window` and
`2 cut ≤ window - 2`, the slice `[cutBegin, cutEnd)` has two entries at least
and ends inside the window. -/
theorem cutBounds_spec {length window cut : UInt64} (h2 : 2 ≤ length.toNat)
    (hw : length.toNat ≤ window.toNat) (hc : 2 * cut.toNat ≤ window.toNat - 2) :
    (cutBounds length window cut).1.toNat + 2 ≤ (cutBounds length window cut).2.toNat ∧
      (cutBounds length window cut).2.toNat ≤ length.toNat := by
  obtain ⟨hbegin, hend⟩ := cutBounds_toNat hw hc
  rw [hend, hbegin]
  omega

/-! ## The overload without a version -/

/-- The work `work` done over `span` seconds per target time `target`, rounded
up, or `0` when the product or the rounding does not fit in 64 bits. -/
def ceilDifficulty (work target span : ℕ) : ℕ :=
  if 2 ^ 64 ≤ work * target + span - 1 then 0 else work * target ⌈/⌉ span

/-- Some work over a positive span gives a positive difficulty, unless it overflows. -/
theorem ceilDifficulty_eq_zero_iff {work target span : ℕ} (hw : 0 < work) (ht : 0 < target)
    (hs : 0 < span) : ceilDifficulty work target span = 0 ↔ 2 ^ 64 ≤ work * target + span - 1 := by
  unfold ceilDifficulty
  split
  · rename_i h
    simp only [true_iff]
    exact h
  · rename_i h
    simp only [h, iff_false]
    have hpos : 1 ≤ work * target := Nat.mul_pos hw ht
    rw [Nat.ceilDiv_eq_add_pred_div]
    exact (Nat.div_pos (by omega) hs).ne'

/-- The tail both overloads end with: `mul128`, the test for overflow, and the
division rounded up. -/
theorem ceilTail_toNat {totalWork target timeSpan low high : UInt64} (hs : 0 < timeSpan.toNat)
    (hm : mul128 totalWork target = (low, high)) :
    (if high ≠ 0 ∨ low + timeSpan - 1 < low then 0 else (low + timeSpan - 1) / timeSpan).toNat =
      ceilDifficulty totalWork.toNat target.toNat timeSpan.toNat := by
  have hprod : totalWork.toNat * target.toNat < 2 ^ 64 * 2 ^ 64 :=
    Nat.mul_lt_mul'' totalWork.toNat_lt target.toNat_lt
  have hlow : low.toNat = totalWork.toNat * target.toNat % 2 ^ 64 := by
    rw [show low = (mul128 totalWork target).1 by rw [hm]]
    simp [mul128]
  have hhigh : high.toNat = totalWork.toNat * target.toNat / 2 ^ 64 := by
    rw [show high = (mul128 totalWork target).2 by rw [hm]]
    simp only [mul128, UInt64.toNat_ofNat']
    exact Nat.mod_eq_of_lt (Nat.div_lt_of_lt_mul hprod)
  have hs1 : (timeSpan - 1).toNat = timeSpan.toNat - 1 :=
    UInt64.toNat_sub_of_le _ _ (UInt64.le_iff_toNat_le.2 hs)
  -- `low + timeSpan - 1` wraps exactly when `low + (timeSpan - 1)` does
  have hassoc : low + timeSpan - 1 = low + (timeSpan - 1) := by
    rw [UInt64.sub_eq_add_neg, UInt64.sub_eq_add_neg, UInt64.add_assoc]
  have hlt := low.toNat_lt
  have hcond : (high ≠ 0 ∨ low + timeSpan - 1 < low) ↔
      2 ^ 64 ≤ totalWork.toNat * target.toNat + timeSpan.toNat - 1 := by
    rw [hassoc, add_lt_left_iff, hs1, ne_eq, ← UInt64.toNat_inj, hhigh, UInt64.toNat_zero, hlow]
    omega
  unfold ceilDifficulty
  by_cases hov : 2 ^ 64 ≤ totalWork.toNat * target.toNat + timeSpan.toNat - 1
  · rw [if_pos (hcond.2 hov), if_pos hov]
    rfl
  · have hfit : totalWork.toNat * target.toNat < 2 ^ 64 := by omega
    have hsum : (low + timeSpan - 1).toNat = totalWork.toNat * target.toNat + timeSpan.toNat - 1 := by
      rw [hassoc, toNat_add_of_lt _ _ (by rw [hlow, Nat.mod_eq_of_lt hfit, hs1]; omega), hlow,
        Nat.mod_eq_of_lt hfit, hs1]
      omega
    rw [if_neg (mt hcond.1 hov), if_neg hov, UInt64.toNat_div, hsum, Nat.ceilDiv_eq_add_pred_div]

/-- The work of the slice `[cutBegin, cutEnd)`: the cumulative difficulty at
its last block less the one at its first. -/
def sliceWork (cumulativeDifficulties : List UInt64) (cutBegin cutEnd : ℕ) : ℕ :=
  (cumulativeDifficulties.getD (cutEnd - 1) 0).toNat - (cumulativeDifficulties.getD cutBegin 0).toNat

/-- The time the slice `[cutBegin, cutEnd)` of the sorted timestamps spans, one
second at least. -/
def sliceSpan (sorted : List UInt64) (cutBegin cutEnd : ℕ) : ℕ :=
  max 1 ((sorted.getD (cutEnd - 1) 0).toNat - (sorted.getD cutBegin 0).toNat)

/-- `resize(window)` on a longer vector, and no resize on a shorter one, both
leave its first `window` entries. -/
theorem take_of_resize {l l' : List UInt64} (hlen : l.length = l'.length) (hsize : l.length < 2 ^ 64)
    (window : UInt64) :
    (if l.length.toUInt64 > window then l'.take window.toNat else l') = l'.take window.toNat := by
  split
  · rfl
  · rename_i h
    rw [gt_iff_lt, UInt64.lt_iff_toNat_lt, not_lt, Nat.toUInt64, UInt64.toNat_ofNat',
      Nat.mod_eq_of_lt hsize] at h
    rw [List.take_of_length_le (by omega)]

/-- On a slice with two entries at least inside both windows, the span is read
from the sorted timestamps without wrapping, and the work is positive. -/
theorem spanAndWork_spec {sorted cumulativeDifficulties : List UInt64} {cutBegin cutEnd : UInt64}
    (hsorted : sorted.Pairwise (· ≤ ·)) (hinc : cumulativeDifficulties.Pairwise (· < ·))
    (hb : cutBegin.toNat + 2 ≤ cutEnd.toNat) (hs : cutEnd.toNat ≤ sorted.length)
    (hc : cutEnd.toNat ≤ cumulativeDifficulties.length) :
    (spanAndWork sorted cumulativeDifficulties cutBegin cutEnd).1.toNat =
        sliceSpan sorted cutBegin.toNat cutEnd.toNat ∧
      (spanAndWork sorted cumulativeDifficulties cutBegin cutEnd).2.toNat =
        sliceWork cumulativeDifficulties cutBegin.toNat cutEnd.toNat ∧
      0 < sliceWork cumulativeDifficulties cutBegin.toNat cutEnd.toNat := by
  have hend : (cutEnd - 1).toNat = cutEnd.toNat - 1 :=
    UInt64.toNat_sub_of_le _ _ (UInt64.le_iff_toNat_le.2 (by simp; omega))
  -- the first and the last entry of the slice, in order
  have hts : sorted.getD cutBegin.toNat 0 ≤ sorted.getD (cutEnd.toNat - 1) 0 := by
    rw [List.getD_eq_getElem _ _ (by omega), List.getD_eq_getElem _ _ (by omega)]
    exact List.pairwise_iff_getElem.1 hsorted _ _ _ _ (by omega)
  have hcd : cumulativeDifficulties.getD cutBegin.toNat 0 < cumulativeDifficulties.getD (cutEnd.toNat - 1) 0 := by
    rw [List.getD_eq_getElem _ _ (by omega), List.getD_eq_getElem _ _ (by omega)]
    exact List.pairwise_iff_getElem.1 hinc _ _ _ _ (by omega)
  rw [UInt64.le_iff_toNat_le] at hts
  rw [UInt64.lt_iff_toNat_lt] at hcd
  unfold spanAndWork sliceSpan sliceWork
  dsimp only
  rw [hend]
  refine ⟨?_, UInt64.toNat_sub_of_le _ _ (UInt64.le_iff_toNat_le.2 (by omega)), by omega⟩
  have hsub := UInt64.toNat_sub_of_le _ _ (UInt64.le_iff_toNat_le.2 hts)
  split
  · rename_i h0
    rw [← UInt64.toNat_inj, hsub, UInt64.toNat_zero] at h0
    rw [UInt64.toNat_one]
    omega
  · rename_i h0
    rw [← UInt64.toNat_inj, hsub, UInt64.toNat_zero] at h0
    rw [hsub]
    omega

/-- `sort` of `std::vector<uint64_t>`: the merge sort leaves the timestamps in order. -/
theorem sorted_mergeSort_le (l : List UInt64) : (l.mergeSort (· ≤ ·)).Pairwise (· ≤ ·) := by
  refine (@List.pairwise_mergeSort UInt64 (fun a b => decide (a ≤ b)) ?_ ?_ l).imp ?_
  · intro a b c hab hbc
    simp only [decide_eq_true_eq] at hab hbc ⊢
    exact UInt64.le_trans hab hbc
  · intro a b
    simpa using UInt64.le_total a b
  · intro a b h
    exact of_decide_eq_true h

/-- **`nextDifficulty(timestamps, cumulativeDifficulties)`.** For a window
`w` and a cut with `2 c ≤ w - 2`, and vectors of equal length whose
cumulative difficulties increase strictly: at most one block in the first `w`
gives 1; otherwise the centred slice lies in the window and holds two entries
at least, its work is positive, and the result is that work per target time
over the slice's span of the sorted timestamps, rounded up, or 0 exactly when
the product or the rounding overflows. -/
theorem nextDifficultyUnversioned_eq (cur : Currency)
    (hc : 2 * cur.difficultyCut.toNat ≤ cur.difficultyWindow.toNat - 2)
    {timestamps cumulativeDifficulties : List UInt64} (hsize : timestamps.length < 2 ^ 64)
    (hlen : timestamps.length = cumulativeDifficulties.length)
    (hinc : cumulativeDifficulties.Pairwise (· < ·)) :
    (min cur.difficultyWindow.toNat timestamps.length ≤ 1 →
      cur.nextDifficultyUnversioned timestamps cumulativeDifficulties = 1) ∧
    ∀ cutBegin cutEnd : UInt64, 2 ≤ min cur.difficultyWindow.toNat timestamps.length →
      cutBounds (min cur.difficultyWindow.toNat timestamps.length).toUInt64 cur.difficultyWindow
        cur.difficultyCut = (cutBegin, cutEnd) →
      cutBegin.toNat + 2 ≤ cutEnd.toNat ∧ cutEnd.toNat ≤ min cur.difficultyWindow.toNat timestamps.length ∧
      cutBegin.toNat = (min cur.difficultyWindow.toNat timestamps.length -
        (cur.difficultyWindow.toNat - 2 * cur.difficultyCut.toNat) + 1) / 2 ∧
      cutEnd.toNat - cutBegin.toNat =
        min (min cur.difficultyWindow.toNat timestamps.length) (cur.difficultyWindow.toNat - 2 * cur.difficultyCut.toNat) ∧
      0 < sliceWork cumulativeDifficulties cutBegin.toNat cutEnd.toNat ∧
      (cur.nextDifficultyUnversioned timestamps cumulativeDifficulties).toNat =
        ceilDifficulty (sliceWork cumulativeDifficulties cutBegin.toNat cutEnd.toNat) cur.difficultyTarget.toNat
          (sliceSpan ((timestamps.take cur.difficultyWindow.toNat).mergeSort (· ≤ ·)) cutBegin.toNat
            cutEnd.toNat) ∧
      (0 < cur.difficultyTarget.toNat →
        (cur.nextDifficultyUnversioned timestamps cumulativeDifficulties = 0 ↔
          2 ^ 64 ≤ sliceWork cumulativeDifficulties cutBegin.toNat cutEnd.toNat * cur.difficultyTarget.toNat +
            sliceSpan ((timestamps.take cur.difficultyWindow.toNat).mergeSort (· ≤ ·)) cutBegin.toNat
              cutEnd.toNat - 1)) := by
  have hn : (timestamps.take cur.difficultyWindow.toNat).length.toUInt64.toNat =
      min cur.difficultyWindow.toNat timestamps.length := by
    rw [List.length_take, Nat.toUInt64, UInt64.toNat_ofNat', Nat.mod_eq_of_lt (by omega)]
  unfold nextDifficultyUnversioned
  dsimp only
  rw [take_of_resize hlen hsize, take_of_resize rfl hsize]
  constructor
  · intro h1
    rw [if_pos (UInt64.le_iff_toNat_le.2 (by rw [hn]; simpa using h1))]
  · intro cutBegin cutEnd h2 hcb
    have hlen' : (min cur.difficultyWindow.toNat timestamps.length).toUInt64.toNat =
        min cur.difficultyWindow.toNat timestamps.length := by
      rw [Nat.toUInt64, UInt64.toNat_ofNat', Nat.mod_eq_of_lt (by omega)]
    have hcut := cutBounds_spec (by rw [hlen']; exact h2) (by rw [hlen']; omega) hc
    simp only [hcb, hlen'] at hcut
    obtain ⟨hbegin, hend⟩ := cutBounds_toNat (by rw [hlen']; omega) hc
    simp only [hcb, hlen'] at hbegin hend
    have hsorted := sorted_mergeSort_le (timestamps.take cur.difficultyWindow.toNat)
    have hinc' : (cumulativeDifficulties.take cur.difficultyWindow.toNat).Pairwise (· < ·) :=
      List.Pairwise.sublist (List.take_sublist _ _) hinc
    obtain ⟨hspan, hwork, hpos⟩ := spanAndWork_spec hsorted hinc' hcut.1
      (by rw [List.length_mergeSort, List.length_take]; exact hcut.2)
      (by rw [List.length_take, ← hlen]; exact hcut.2)
    have hwork' : sliceWork (cumulativeDifficulties.take cur.difficultyWindow.toNat) cutBegin.toNat cutEnd.toNat =
        sliceWork cumulativeDifficulties cutBegin.toNat cutEnd.toNat := by
      unfold sliceWork
      simp only [List.getD_eq_getElem?_getD, List.getElem?_take]
      rw [if_pos (by omega), if_pos (by omega)]
    rw [hwork'] at hwork hpos
    refine ⟨hcut.1, hcut.2, hbegin, by omega, hpos, ?_⟩
    have hnot : ¬ (List.take cur.difficultyWindow.toNat timestamps).length.toUInt64 ≤ 1 := by
      rw [UInt64.le_iff_toNat_le, hn]
      simp only [UInt64.toNat_one]
      omega
    rw [if_neg hnot, List.length_take, hcb]
    dsimp only
    rcases hsw : spanAndWork ((timestamps.take cur.difficultyWindow.toNat).mergeSort (· ≤ ·))
      (cumulativeDifficulties.take cur.difficultyWindow.toNat) cutBegin cutEnd with ⟨timeSpan, totalWork⟩
    rw [hsw] at hspan hwork
    dsimp only at hspan hwork ⊢
    rcases hm : mul128 totalWork cur.difficultyTarget with ⟨low, high⟩
    dsimp only
    have hval := ceilTail_toNat (by rw [hspan]; unfold sliceSpan; omega) hm
    rw [hspan, hwork] at hval
    refine ⟨hval, fun ht => ?_⟩
    rw [← ceilDifficulty_eq_zero_iff hpos ht (by unfold sliceSpan; omega), ← hval, ← UInt64.toNat_inj,
      UInt64.toNat_zero]

/-- Four blocks on mainnet: the work 6 over 300 seconds, at a target of 120
seconds, is 2.4 per target time, rounded up to 3. -/
theorem nextDifficultyUnversioned_four_blocks :
    (mainnet.nextDifficultyUnversioned [0, 100, 250, 300] [1, 2, 4, 7]).toNat = 3 := by
  have h := ((@nextDifficultyUnversioned_eq mainnet (by decide) [0, 100, 250, 300] [1, 2, 4, 7]
    (by decide) rfl (by decide)).2 0 4 (by decide) (by decide)).2.2.2.2.2.1
  rw [h, List.mergeSort_of_pairwise (by decide)]
  decide

/-- At a target of 0 seconds the overload without a version returns 0 for four
blocks whose work times the target, plus the span, is far below `2 ^ 64`:
the 0 is no sign of an overflow there. -/
theorem nextDifficultyUnversioned_zero_target :
    ({ mainnet with difficultyTarget := 0 } : Currency).nextDifficultyUnversioned [0, 100, 250, 300] [1, 2, 4, 7] = 0 ∧
      sliceWork [1, 2, 4, 7] 0 4 * 0 + sliceSpan [0, 100, 250, 300] 0 4 - 1 < 2 ^ 64 := by
  refine ⟨?_, by decide⟩
  have hsort : ([0, 100, 250, 300] : List UInt64).mergeSort (fun a b => decide (a ≤ b)) = [0, 100, 250, 300] :=
    List.mergeSort_of_pairwise (by decide)
  -- four blocks: no resize, and the window is already in order
  have hshort : ((0 + 1 + 1 + 1 + 1 : Nat).toUInt64 > (720 : UInt64)) = False := eq_false (by decide)
  unfold nextDifficultyUnversioned
  simp only [mainnet, List.length_cons, List.length_nil, hshort, if_false, hsort]
  decide

/-! ## LWMA-1 -/

/-- The loop of LWMA-1 over the blocks `1 .. n`: the last timestamp, and the
sum of the solve times weighted by their index. -/
def lwma1Loop (timestamps : List UInt64) (n : ℕ) : UInt64 × UInt64 :=
  (List.range' 1 n).foldl (fun (acc : UInt64 × UInt64) i =>
    let (previousTimestamp, L) := acc
    let (thisTimestamp, ST) := lwmaStep 120 previousTimestamp (timestamps.getD i 0)
    (thisTimestamp, L + i.toUInt64 * ST))
    (timestamps.getD 0 0 - 120, 0)

/-- What LWMA-1 does after its loop: the floor on `L`, the average work of the
60 blocks, the division guarded for large averages, and the rounding. -/
def lwma1Tail (cumulativeDifficulties : List UInt64) (L : UInt64) : UInt64 :=
  let T : UInt64 := 120
  let N : UInt64 := 60
  let L := if L < N * N * T / 20 then N * N * T / 20 else L
  let avgD := (cumulativeDifficulties.getD N.toNat 0 - cumulativeDifficulties.getD 0 0) / N
  let nextD :=
    if avgD > 2000000 * N * N * T then avgD / (200 * L) * (N * (N + 1) * T * 99)
    else avgD * N * (N + 1) * T * 99 / (200 * L)
  roundDifficulty nextD

/-- `lwma1Difficulty` is its loop over the 60 blocks, then its tail. -/
theorem lwma1Difficulty_eq_tail (timestamps cumulativeDifficulties : List UInt64) :
    lwma1Difficulty timestamps cumulativeDifficulties =
      lwma1Tail cumulativeDifficulties (lwma1Loop timestamps 60).2 := rfl

theorem lwma1Loop_zero (timestamps : List UInt64) :
    lwma1Loop timestamps 0 = (timestamps.getD 0 0 - 120, 0) := rfl

/-- One more turn of the loop: the solve time of block `n + 1`, weighted by `n + 1`. -/
theorem lwma1Loop_succ (timestamps : List UInt64) (n : ℕ) :
    lwma1Loop timestamps (n + 1) =
      ((lwmaStep 120 (lwma1Loop timestamps n).1 (timestamps.getD (n + 1) 0)).1,
        (lwma1Loop timestamps n).2 +
          (n + 1).toUInt64 * (lwmaStep 120 (lwma1Loop timestamps n).1 (timestamps.getD (n + 1) 0)).2) := by
  unfold lwma1Loop
  rw [List.range'_concat, List.foldl_append, Nat.one_mul, Nat.add_comm 1 n]
  rfl

/-- A solve time of `6 T = 720` seconds or more counts as 720. -/
theorem lwmaStep_of_slow {previousTimestamp timestamp : UInt64}
    (h : previousTimestamp.toNat + 720 ≤ timestamp.toNat) :
    lwmaStep 120 previousTimestamp timestamp = (timestamp, 720) := by
  have hgt : timestamp > previousTimestamp := UInt64.lt_iff_toNat_lt.2 (by omega)
  unfold lwmaStep
  rw [if_pos hgt]
  dsimp only
  congr 1
  apply UInt64.toNat_inj.1
  rw [UInt64.toNat_min, UInt64.toNat_sub_of_le _ _ (UInt64.le_of_lt hgt)]
  simp only [UInt64.toNat_mul, UInt64.toNat_ofNat]
  omega

/-- **Slow blocks.** When every one of the 60 solve times is `6 T` or more, the
loop weighs each as `6 T`: after `n` blocks it sits at timestamp `n` with
`L = 720 (1 + .. + n) = 360 n (n + 1)`. -/
theorem lwma1Loop_of_slow {timestamps : List UInt64} (hfirst : 120 ≤ (timestamps.getD 0 0).toNat)
    (hslow : ∀ i < 60, (timestamps.getD i 0).toNat + 720 ≤ (timestamps.getD (i + 1) 0).toNat) :
    ∀ n ≤ 60, (lwma1Loop timestamps n).1.toNat ≤ (timestamps.getD n 0).toNat ∧
      (lwma1Loop timestamps n).2.toNat = 360 * n * (n + 1)
  | 0, _ => by
    have h120 : (120 : UInt64) ≤ timestamps.getD 0 0 := UInt64.le_iff_toNat_le.2 hfirst
    rw [lwma1Loop_zero]
    dsimp only
    rw [UInt64.toNat_sub_of_le _ _ h120]
    simp
  | n + 1, hn => by
    obtain ⟨hprev, hL⟩ := lwma1Loop_of_slow hfirst hslow n (by omega)
    have hgap := hslow n (by omega)
    rw [lwma1Loop_succ, lwmaStep_of_slow (by omega)]
    dsimp only
    refine ⟨le_rfl, ?_⟩
    -- `L` stays far below `2 ^ 64`: `360 n (n + 1) ≤ 360 * 60 * 61`
    have hsq : n * (n + 1) ≤ 60 * 61 := Nat.mul_le_mul (by omega) (by omega)
    have hassoc : 360 * n * (n + 1) = 360 * (n * (n + 1)) := by ring
    have hn1 : (n + 1).toUInt64.toNat = n + 1 := by
      rw [Nat.toUInt64, UInt64.toNat_ofNat', Nat.mod_eq_of_lt (by omega)]
    have hstep : ((n + 1).toUInt64 * 720).toNat = (n + 1) * 720 := by
      rw [toNat_mul_of_lt _ _ (by rw [hn1]; simp; omega), hn1]
      rfl
    rw [toNat_add_of_lt _ _ (by rw [hL, hstep]; omega), hL, hstep]
    ring

/-- The rounding leaves a zero difficulty at zero. -/
theorem roundDifficulty_zero : roundDifficulty 0 = 0 := by decide

/-- **LWMA-1 returns 0 on slow blocks of low difficulty.** When each of the 60
solve times is `6 T` or more, the loop weighs them as `L = 1317600`; an average
difficulty of 6 or less then gives `next_D = avg_D · 43480800 / 263520000 = 0`,
and the rounding leaves it there. -/
theorem lwma1Difficulty_eq_zero_of_slow {timestamps cumulativeDifficulties : List UInt64}
    (hfirst : 120 ≤ (timestamps.getD 0 0).toNat)
    (hslow : ∀ i < 60, (timestamps.getD i 0).toNat + 720 ≤ (timestamps.getD (i + 1) 0).toNat)
    (hwork : cumulativeDifficulties.getD 0 0 ≤ cumulativeDifficulties.getD 60 0)
    (hlow : (cumulativeDifficulties.getD 60 0).toNat - (cumulativeDifficulties.getD 0 0).toNat < 420) :
    lwma1Difficulty timestamps cumulativeDifficulties = 0 := by
  have hL : (lwma1Loop timestamps 60).2 = 1317600 :=
    UInt64.toNat_inj.1 (lwma1Loop_of_slow hfirst hslow 60 le_rfl).2
  rw [lwma1Difficulty_eq_tail, hL]
  unfold lwma1Tail
  dsimp only
  have hfloor : (if (1317600 : UInt64) < 60 * 60 * 120 / 20 then 60 * 60 * 120 / 20 else 1317600) =
      (1317600 : UInt64) := by decide
  rw [hfloor, show UInt64.toNat 60 = 60 from rfl]
  generalize hA : (cumulativeDifficulties.getD 60 0 - cumulativeDifficulties.getD 0 0) / 60 = avgD
  -- the average work of the 60 blocks is at most 6
  have havg : avgD.toNat ≤ 6 := by
    rw [← hA, UInt64.toNat_div, UInt64.toNat_sub_of_le _ _ hwork]
    simp only [UInt64.toNat_ofNat, Nat.reducePow, Nat.reduceMod]
    omega
  have hsmall : ¬ avgD > 2000000 * 60 * 60 * 120 := by
    rw [gt_iff_lt, UInt64.lt_iff_toNat_lt, show (2000000 * 60 * 60 * 120 : UInt64).toNat = 864000000000 from rfl]
    omega
  -- no product wraps for an average of at most 6: check the seven of them
  have hzero : avgD * 60 * (60 + 1) * 120 * 99 / (200 * 1317600) = 0 := by
    have hall : ∀ k : Fin 7, (k.val.toUInt64 * 60 * (60 + 1) * 120 * 99 / (200 * 1317600) : UInt64) = 0 := by
      decide
    simpa using hall ⟨avgD.toNat, by omega⟩
  rw [if_neg hsmall, hzero, roundDifficulty_zero]

/-- Sixty-one timestamps twelve minutes apart. -/
def slowTimestamps : List UInt64 := (List.range 61).map fun i => (1600000000 + 720 * i).toUInt64

/-- The window 21 blocks after the testnet's guessed blocks: 39 blocks of the
guessed difficulty 10, then 21 blocks of difficulty 1, the difficulty LWMA-1
gives after slow blocks of difficulty 10. -/
def testnetSlowCumulativeDifficulties : List UInt64 :=
  (List.range 61).map fun i => (if i ≤ 39 then 10 * i else 390 + (i - 39)).toUInt64

/-- On the testnet, 21 blocks twelve minutes apart after the 60 guessed blocks
bring the next difficulty to 0. -/
theorem lwma1Difficulty_zero_on_testnet :
    testnetCurrency.nextDifficultyForIndex 152 slowTimestamps testnetSlowCumulativeDifficulties = 0 := by
  rw [nextDifficultyForIndex_eight (by decide) (by decide) (by decide),
    nextDifficultyLWMA1_of_ge (by decide) (by decide)]
  exact lwma1Difficulty_eq_zero_of_slow (by decide) (by decide) (by decide)
    (by decide)

/-- Sixty-one timestamps two minutes apart, the target spacing. -/
def steadyTimestamps : List UInt64 := (List.range 61).map fun i => (1600000000 + 120 * i).toUInt64

/-- Cumulative difficulties of blocks of difficulty `5 · 10^11`. -/
def heavyCumulativeDifficulties : List UInt64 := (List.range 61).map fun i => (500000000000 * i).toUInt64

/-- **LWMA-1 wraps below its guard.** Blocks of difficulty `5 · 10^11` at the
target spacing: the average is below `2000000 N² T`, so the code multiplies it
by `N (N + 1) T 99` first, and that product passes `2 ^ 64`. The code returns
`75 · 10^9`; the formula over the naturals gives `494729655925` before rounding. -/
theorem lwma1Difficulty_wraps_below_guard :
    (lwma1Loop steadyTimestamps 60).2 = 219720 ∧
    (heavyCumulativeDifficulties.getD 60 0 - heavyCumulativeDifficulties.getD 0 0) / 60 = 500000000000 ∧
    ¬ (500000000000 : UInt64) > 2000000 * 60 * 60 * 120 ∧
    2 ^ 64 ≤ 500000000000 * 60 * 61 * 120 * 99 ∧
    lwma1Difficulty steadyTimestamps heavyCumulativeDifficulties = 75000000000 ∧
    500000000000 * 60 * 61 * 120 * 99 / (200 * 219720) = 494729655925 := by
  refine ⟨by decide +kernel, by decide, by decide, by decide, by decide +kernel, by decide⟩

end Currency

end Cn
