import ConcealCore.Spec.Mnemonics

/-!
# The English word list

`WordList::English` holds 1626 words (`length_englishWords`), each a nonempty
run of the lowercase letters `a` to `z` (`lowercase_of_mem_englishWords`), in
strictly increasing byte order, so that no word comes twice
(`nodup_englishWords`). Evaluating the check `wordsInOrder` gives all of it
(`wordsInOrder_englishWords`); it is evaluated on runs of 201 words that
overlap in one word (`wordsInOrder_of_take_drop`), each run checked on its own.
-/

namespace Cn

namespace Mnemonics

/-- A nonempty word of the letters `a` to `z`. -/
def isLowercaseWord (w : List UInt8) : Bool := w != [] && w.all fun c => 97 ≤ c.toNat && c.toNat ≤ 122

/-- Every word is lowercase, and each comes before the next in byte order. -/
def wordsInOrder : List (List UInt8) → Bool
  | [] => true
  | [w] => isLowercaseWord w
  | w :: v :: ws => isLowercaseWord w && decide (w.map UInt8.toNat < v.map UInt8.toNat) && wordsInOrder (v :: ws)

theorem wordsInOrder_spec {l : List (List UInt8)} (h : wordsInOrder l = true) :
    (∀ w ∈ l, isLowercaseWord w = true) ∧ (l.map (·.map UInt8.toNat)).IsChain (· < ·) := by
  induction l using wordsInOrder.induct with
  | case1 => simp
  | case2 w =>
    have hw : isLowercaseWord w = true := h
    simp [hw]
  | case3 w v ws ih =>
    simp only [wordsInOrder, Bool.and_eq_true, decide_eq_true_eq] at h
    obtain ⟨⟨hw, hlt⟩, hrest⟩ := h
    obtain ⟨hall, hchain⟩ := ih hrest
    refine ⟨?_, ?_⟩
    · intro x hx
      rcases List.mem_cons.mp hx with rfl | hx
      · exact hw
      · exact hall x hx
    · rw [List.map_cons]
      exact List.isChain_cons_cons.mpr ⟨hlt, hchain⟩

/-- The check holds of a list when it holds of its first `n + 1` words and of
all but its first `n`: the two parts share the word at `n`. -/
theorem wordsInOrder_of_take_drop {l : List (List UInt8)} (n : ℕ) (htake : wordsInOrder (l.take (n + 1)) = true)
    (hdrop : wordsInOrder (l.drop n) = true) : wordsInOrder l = true := by
  induction l using wordsInOrder.induct generalizing n with
  | case1 => rfl
  | case2 w => simpa using htake
  | case3 w v ws ih =>
    cases n with
    | zero => simpa using hdrop
    | succ k =>
      simp only [List.take_succ_cons, wordsInOrder, Bool.and_eq_true] at htake
      obtain ⟨hhead, hrest⟩ := htake
      simp only [wordsInOrder, Bool.and_eq_true, hhead, true_and]
      exact ih k (by simpa using hrest) (by simpa using hdrop)

/-- The whole list, checked by evaluation, 200 words at a time. -/
theorem wordsInOrder_englishWords : wordsInOrder englishWords = true := by
  iterate 8 refine wordsInOrder_of_take_drop 200 (by decide +kernel) ?_
  decide +kernel

theorem length_englishWords : englishWords.length = 1626 := by decide +kernel

theorem lowercase_of_mem_englishWords {w : List UInt8} (hw : w ∈ englishWords) :
    w ≠ [] ∧ ∀ c ∈ w, 97 ≤ c.toNat ∧ c.toNat ≤ 122 := by
  have hlower := (wordsInOrder_spec wordsInOrder_englishWords).1 w hw
  simp only [isLowercaseWord, Bool.and_eq_true, bne_iff_ne, ne_eq, List.all_eq_true,
    decide_eq_true_eq] at hlower
  exact hlower

theorem nodup_englishWords : englishWords.Nodup := by
  have hchain := (wordsInOrder_spec wordsInOrder_englishWords).2
  -- strictly increasing in byte order, so pairwise distinct
  have hdistinct := (List.isChain_iff_pairwise.mp hchain).imp ne_of_lt
  exact List.Nodup.of_map _ hdistinct

theorem getD_englishWords_mem {i : ℕ} (hi : i < 1626) : englishWords.getD i [] ∈ englishWords := by
  rw [List.getD_eq_getElem _ _ (by rw [length_englishWords]; exact hi)]
  exact List.getElem_mem _

/-- A word of the list is found at its own position. -/
theorem idxOf_getD_englishWords {i : ℕ} (hi : i < 1626) : englishWords.idxOf (englishWords.getD i []) = i := by
  have hi' : i < englishWords.length := by rw [length_englishWords]; exact hi
  rw [List.getD_eq_getElem _ _ hi', List.Nodup.idxOf_getElem nodup_englishWords]

end Mnemonics

end Cn
