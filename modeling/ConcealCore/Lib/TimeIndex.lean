import Mathlib

/-!
# Lists kept in order of a time stamp

An index ordered by a time stamp, with equal stamps allowed, is a list sorted by
`time`: `insertAfter time a l` puts `a` after every element whose stamp is not
later than its own, where an ordered container of equal keys links a new one,
and `dropOldest n l` erases the first element, the oldest, while more than `n`
remain.

* `perm_insertAfter`, `pairwise_insertAfter`: an insertion adds the element and
  keeps the order; `insertAfter_of_le`: the newest element goes last.
* `dropOldest_sublist`, `length_dropOldest`: the erasures keep a part of the
  list, of at most `n` elements; `dropOldest_of_length_le` changes nothing when
  there are no more than `n`.
* `foldl_eq_self`: an index rebuilt by inserting the elements of a list one by
  one is that list when each insertion appends; `insertAfter_of_isPrefix`: in a
  list in order of the stamp, each insertion does.
-/

namespace TimeIndex

variable {α : Type*} (time : α → ℕ)

/-- `a` inserted after every element stamped no later than it. -/
@[grind] def insertAfter (a : α) : List α → List α
  | [] => [a]
  | b :: l => if time a < time b then a :: b :: l else b :: insertAfter a l

/-- The oldest elements erased one by one while more than `n` remain. -/
@[grind] def dropOldest (n : ℕ) : List α → List α
  | [] => []
  | a :: l => if n < (a :: l).length then dropOldest n l else a :: l

variable {time}

theorem perm_insertAfter (a : α) (l : List α) : (insertAfter time a l).Perm (a :: l) := by
  induction l with
  | nil => rfl
  | cons b l ih =>
    rw [insertAfter]
    split
    · rfl
    · exact (ih.cons b).trans (List.Perm.swap a b l)

theorem mem_insertAfter {a x : α} {l : List α} : x ∈ insertAfter time a l ↔ x = a ∨ x ∈ l := by
  rw [(perm_insertAfter a l).mem_iff, List.mem_cons]

theorem length_insertAfter (a : α) (l : List α) : (insertAfter time a l).length = l.length + 1 :=
  (perm_insertAfter a l).length_eq

/-- **An insertion keeps the order by stamp.** -/
theorem pairwise_insertAfter (a : α) {l : List α} (hl : l.Pairwise fun x y => time x ≤ time y) :
    (insertAfter time a l).Pairwise fun x y => time x ≤ time y := by
  induction l with
  | nil => exact List.pairwise_singleton _ a
  | cons b l ih =>
    obtain ⟨hb, hl⟩ := List.pairwise_cons.mp hl
    rw [insertAfter]
    split
    · next hlt =>
      -- `a` goes first: it is older than `b`, and `b` than the rest
      refine List.pairwise_cons.mpr ⟨fun x hx => ?_, List.pairwise_cons.mpr ⟨hb, hl⟩⟩
      rcases List.mem_cons.mp hx with rfl | hx
      · exact hlt.le
      · exact (hlt.trans_le (hb x hx)).le
    · next hge =>
      refine List.pairwise_cons.mpr ⟨fun x hx => ?_, ih hl⟩
      rcases mem_insertAfter.mp hx with rfl | hx
      · exact Nat.le_of_not_lt hge
      · exact hb x hx

/-- An element stamped no earlier than all goes last. -/
theorem insertAfter_of_le {a : α} {l : List α} (h : ∀ x ∈ l, time x ≤ time a) : insertAfter time a l = l ++ [a] := by
  induction l with
  | nil => rfl
  | cons b l ih =>
    rw [insertAfter, if_neg (Nat.not_lt.mpr (h b List.mem_cons_self)),
      ih fun x hx => h x (List.mem_cons_of_mem b hx), List.cons_append]

theorem dropOldest_sublist (n : ℕ) (l : List α) : (dropOldest n l).Sublist l := by
  induction l with
  | nil => exact List.Sublist.slnil
  | cons a l ih =>
    rw [dropOldest]
    split
    · exact ih.cons a
    · exact List.Sublist.refl _

/-- The erasures stop at `n` elements. -/
theorem length_dropOldest (n : ℕ) (l : List α) : (dropOldest n l).length = min l.length n := by
  induction l with
  | nil => simp [dropOldest]
  | cons a l ih =>
    rw [dropOldest]
    split
    · next hlong =>
      rw [ih]
      rw [List.length_cons] at hlong ⊢
      omega
    · next hshort =>
      rw [List.length_cons] at hshort ⊢
      omega

theorem dropOldest_of_length_le {n : ℕ} {l : List α} (h : l.length ≤ n) : dropOldest n l = l := by
  cases l with
  | nil => rfl
  | cons a l =>
    rw [dropOldest, if_neg (by omega)]

/-! ## Rebuilding an index -/

/-- **An index rebuilt by insertions.** Inserting the elements of `l` one by
one into an empty index gives `l` back when inserting an element into the ones
before it appends it. -/
theorem foldl_eq_self {f : List α → α → List α} {l : List α} (h : ∀ p a, p ++ [a] <+: l → f p a = p ++ [a]) :
    l.foldl f [] = l := by
  induction l using List.reverseRecOn with
  | nil => rfl
  | append_singleton l a ih =>
    have hl : l.foldl f [] = l := ih fun p b hp => h p b (hp.trans (List.prefix_append l [a]))
    rw [List.foldl_append, hl, List.foldl_cons, List.foldl_nil]
    exact h l a (List.prefix_refl _)

/-- In a list in order of `r`, every element before `a` is related to it. -/
theorem rel_of_isPrefix {r : α → α → Prop} {l p : List α} {a : α} (hl : l.Pairwise r) (hp : p ++ [a] <+: l) :
    ∀ x ∈ p, r x a := by
  have hpa := List.pairwise_append.mp (hl.sublist hp.sublist)
  exact fun x hx => hpa.2.2 x hx a (List.mem_singleton_self a)

/-- In a list of distinct keys, no element before `a` has the key of `a`. -/
theorem key_ne_of_isPrefix {β : Type*} {key : α → β} {l p : List α} {a : α} (hl : (l.map key).Nodup)
    (hp : p ++ [a] <+: l) : ∀ x ∈ p, key x ≠ key a := by
  have hpa := hl.sublist (hp.sublist.map key)
  rw [List.map_append, List.nodup_append] at hpa
  exact fun x hx => hpa.2.2 (key x) (List.mem_map_of_mem hx) (key a) (List.mem_singleton_self (key a))

/-- In a list in order of the stamp, an element inserted into the ones before
it goes last. -/
theorem insertAfter_of_isPrefix {l p : List α} {a : α} (hl : l.Pairwise fun x y => time x ≤ time y)
    (hp : p ++ [a] <+: l) : insertAfter time a p = p ++ [a] :=
  insertAfter_of_le (rel_of_isPrefix hl hp)

end TimeIndex
