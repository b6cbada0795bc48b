import ConcealCore.Lib.RunningSums
import ConcealCore.Spec.Validation

/-!
# Relative and absolute output offsets

A key input names the outputs it mixes by their global indexes, stored as
offsets relative to the one before. `relative_output_offsets_to_absolute` is
the running sums of the offsets (`relativeOutputOffsetsToAbsolute_eq`), and
`absolute_output_offsets_to_relative` the differences of the sorted indexes
(`absoluteOutputOffsetsToRelative_eq`), both in `uint32_t` arithmetic.

The differences of a sorted list add back up to it in any group, wrapping or
not, so encoding and decoding any indexes gives them sorted
(`relative_absolute_eq_mergeSort`). The other way round the sort must leave the
running sums alone: it does when they do not wrap, since running sums of
naturals never go down (`pairwise_sumsFrom_of_lt`).
-/

namespace Cn

open RunningSums

/-- The order `std::sort` puts output indexes in. -/
theorem pairwise_mergeSort_le (xs : List UInt32) : (xs.mergeSort fun a b => decide (a ≤ b)).Pairwise (· ≤ ·) :=
  List.pairwise_mergeSort' (· ≤ ·) xs

theorem relativeOutputOffsetsToAbsolute_eq (off : List UInt32) :
    relativeOutputOffsetsToAbsolute off = sumsFrom 0 off := by
  rw [relativeOutputOffsetsToAbsolute, scanl_add, List.tail_cons]

theorem absoluteOutputOffsetsToRelative_eq (off : List UInt32) :
    absoluteOutputOffsetsToRelative off = diffsFrom 0 (off.mergeSort fun a b => decide (a ≤ b)) := by
  unfold absoluteOutputOffsetsToRelative
  split
  · next hempty =>
    rw [List.length_eq_zero_iff.mp hempty, List.mergeSort_nil]
    rfl
  · exact foldl_subtractDown _

/-- Decoding the encoded indexes gives them sorted, for any indexes. -/
theorem relative_absolute_eq_mergeSort (xs : List UInt32) :
    relativeOutputOffsetsToAbsolute (absoluteOutputOffsetsToRelative xs) = xs.mergeSort fun a b => decide (a ≤ b) := by
  rw [absoluteOutputOffsetsToRelative_eq, relativeOutputOffsetsToAbsolute_eq, sumsFrom_diffsFrom]

/-- Running sums that do not wrap are the running sums of the values. -/
theorem map_toNat_sumsFrom (acc : UInt32) (l : List UInt32) (h : acc.toNat + (l.map UInt32.toNat).sum < 2 ^ 32) :
    (sumsFrom acc l).map UInt32.toNat = sumsFrom acc.toNat (l.map UInt32.toNat) := by
  induction l generalizing acc with
  | nil => rfl
  | cons x xs ih =>
    simp only [List.map_cons, List.sum_cons] at h
    have hadd : (acc + x).toNat = acc.toNat + x.toNat := by
      rw [UInt32.toNat_add, Nat.mod_eq_of_lt (by omega)]
    simp only [sumsFrom, List.map_cons, hadd]
    rw [ih (acc + x) (by omega), hadd]

/-- Running sums that do not wrap never go down. -/
theorem pairwise_sumsFrom_of_lt (r : List UInt32) (h : (r.map UInt32.toNat).sum < 2 ^ 32) :
    (sumsFrom 0 r).Pairwise (· ≤ ·) := by
  have hnat := pairwise_sumsFrom 0 (r.map UInt32.toNat)
  rw [← UInt32.toNat_zero, ← map_toNat_sumsFrom 0 r (by simpa using h), List.pairwise_map] at hnat
  exact hnat.imp UInt32.le_iff_toNat_le.mpr

/-- **Output offsets.** Encoding any indexes and decoding them gives them
sorted ascending; decoding relative offsets whose running sums stay below
`2 ^ 32` and encoding them again gives them back. -/
theorem outputOffsets_round_trip :
    (∀ xs : List UInt32,
      (relativeOutputOffsetsToAbsolute (absoluteOutputOffsetsToRelative xs)).Perm xs ∧
        (relativeOutputOffsetsToAbsolute (absoluteOutputOffsetsToRelative xs)).Pairwise (· ≤ ·)) ∧
      ∀ r : List UInt32, (∀ i, ((r.take i).map UInt32.toNat).sum < 2 ^ 32) →
        absoluteOutputOffsetsToRelative (relativeOutputOffsetsToAbsolute r) = r := by
  refine ⟨fun xs => ?_, fun r hbound => ?_⟩
  · rw [relative_absolute_eq_mergeSort]
    exact ⟨List.mergeSort_perm _ _, pairwise_mergeSort_le xs⟩
  · -- the running sums are sorted already, so the sort keeps them
    have hsorted := pairwise_sumsFrom_of_lt r (by simpa using hbound r.length)
    rw [relativeOutputOffsetsToAbsolute_eq, absoluteOutputOffsetsToRelative_eq,
      List.mergeSort_eq_self (· ≤ ·) hsorted, diffsFrom_sumsFrom]

theorem outputOffsets_round_trip_sample :
    (∀ i, (([5, 0, 7] : List UInt32).take i |>.map UInt32.toNat).sum < 2 ^ 32) ∧
      absoluteOutputOffsetsToRelative (relativeOutputOffsetsToAbsolute [5, 0, 7]) = [5, 0, 7] := by
  have hbound : ∀ i, (([5, 0, 7] : List UInt32).take i |>.map UInt32.toNat).sum < 2 ^ 32 := by
    intro i
    rcases i with _ | _ | _ | i <;> simp
  exact ⟨hbound, outputOffsets_round_trip.2 _ hbound⟩

end Cn
