import Mathlib

/-!
# Maps from keys to vectors used as stacks

A hash map from keys to vectors, where a key is present exactly while its
vector is non-empty: `pushBack` creates the vector on first use
(`operator[]`), `popBack` removes the last element and erases the key when the
vector empties, and `modifyAt` rewrites one element in place.

* `popBack_pushBack`: popping what was just pushed restores the map, provided
  no key maps to an empty vector (`NoEmpty`).
* `NoEmpty` is kept by all three operations.
* `modifyAll_modifyAll`: rewriting a list of positions with an idempotent `f`
  and then with a `g` that absorbs `f` restores the map when `g` fixes the old
  elements. The proof goes through the element view `elem` and `ext_elem`.
-/

namespace KeyedStack

variable {α β : Type} [DecidableEq α]

/-- `m[k].push_back(x)`: `operator[]` creates an empty vector for a new key. -/
@[grind] def pushBack (m : α → Option (List β)) (k : α) (x : β) : α → Option (List β) :=
  Function.update m k (some ((m k).getD [] ++ [x]))

/-- `pop_back` on `m[k]`, then `erase(k)` if the vector is now empty. -/
@[grind] def popBack (m : α → Option (List β)) (k : α) : α → Option (List β) :=
  match m k with
  | some l => Function.update m k (if l.dropLast = [] then none else some l.dropLast)
  | none => m

/-- `m[k][i] = f(m[k][i])` on a key that is present. -/
@[grind] def modifyAt (m : α → Option (List β)) (k : α) (i : Nat) (f : β → β) : α → Option (List β) :=
  match m k with
  | some l => Function.update m k (some (l.modify i f))
  | none => m

/-- No key maps to an empty vector. -/
def NoEmpty (m : α → Option (List β)) : Prop := ∀ k, m k ≠ some []

@[simp] theorem pushBack_self (m : α → Option (List β)) (k : α) (x : β) :
    pushBack m k x k = some ((m k).getD [] ++ [x]) := by
  simp [pushBack]

@[simp] theorem pushBack_of_ne {m : α → Option (List β)} {k k' : α} (x : β) (h : k' ≠ k) :
    pushBack m k x k' = m k' := by
  simp [pushBack, Function.update_of_ne h]

theorem popBack_of_ne {m : α → Option (List β)} {k k' : α} (h : k' ≠ k) :
    popBack m k k' = m k' := by
  cases hk : m k <;> simp [popBack, hk, Function.update_of_ne h]

theorem modifyAt_of_ne {m : α → Option (List β)} {k k' : α} (i : Nat) (f : β → β) (h : k' ≠ k) :
    modifyAt m k i f k' = m k' := by
  cases hk : m k <;> simp [modifyAt, hk, Function.update_of_ne h]

/-- **Pop after push.** -/
theorem popBack_pushBack {m : α → Option (List β)} {k : α} (x : β) (h : m k ≠ some []) :
    popBack (pushBack m k x) k = m := by
  unfold popBack
  rw [pushBack_self]
  simp only [List.dropLast_concat]
  rw [pushBack, Function.update_idem]
  conv_rhs => rw [← Function.update_eq_self k m]
  congr 1
  cases hk : m k with
  | none => simp
  | some l =>
    rw [hk] at h
    have hl : l ≠ [] := fun e => h (by rw [e])
    simp [hl]

theorem noEmpty_pushBack {m : α → Option (List β)} (hm : NoEmpty m) (k : α) (x : β) :
    NoEmpty (pushBack m k x) := by
  intro k'
  by_cases h : k' = k
  · subst h; simp
  · rw [pushBack_of_ne x h]; exact hm k'

/-- The element at position `j` of the vector at key `k`, if any. -/
def elem (m : α → Option (List β)) (k : α) (j : Nat) : Option β :=
  (m k).bind fun l => l[j]?

/-- `modifyAt` at every `(key, position)` of `ps`, in order. -/
def modifyAll (m : α → Option (List β)) (ps : List (α × Nat)) (f : β → β) :
    α → Option (List β) :=
  ps.foldl (fun m p => modifyAt m p.1 p.2 f) m

omit [DecidableEq α] in
/-- Two maps with vectors of the same lengths and the same elements are equal. -/
theorem ext_elem {m₁ m₂ : α → Option (List β)}
    (hl : ∀ k, (m₁ k).map List.length = (m₂ k).map List.length)
    (he : ∀ k j, elem m₁ k j = elem m₂ k j) : m₁ = m₂ := by
  funext k
  have hk := hl k
  cases h₁ : m₁ k with
  | none => cases h₂ : m₂ k <;> simp_all
  | some l₁ =>
    cases h₂ : m₂ k with
    | none => simp_all
    | some l₂ =>
      congr 1
      apply List.ext_getElem?
      intro j
      simpa [elem, h₁, h₂] using he k j

theorem modifyAt_apply (m : α → Option (List β)) (k : α) (i : Nat) (f : β → β) (k' : α) :
    modifyAt m k i f k' = if k' = k then (m k').map (List.modify · i f) else m k' := by
  by_cases h : k' = k
  · subst h
    cases hk : m k' <;> simp [modifyAt, hk]
  · simp [modifyAt_of_ne i f h, h]

@[simp] theorem length_modifyAt (m : α → Option (List β)) (k : α) (i : Nat) (f : β → β) (k' : α) :
    (modifyAt m k i f k').map List.length = (m k').map List.length := by
  rw [modifyAt_apply]
  split <;> simp [Option.map_map, Function.comp_def]

theorem elem_modifyAt (m : α → Option (List β)) (k : α) (i : Nat) (f : β → β) (k' : α) (j : Nat) :
    elem (modifyAt m k i f) k' j = if k' = k ∧ i = j then (elem m k' j).map f else elem m k' j := by
  unfold elem
  rw [modifyAt_apply]
  by_cases hk : k' = k
  · cases m k' with
    | none => simp
    | some l => by_cases hj : i = j <;> simp [hk, hj]
  · simp [hk]

@[simp] theorem length_modifyAll (f : β → β) (k : α) :
    ∀ (ps : List (α × Nat)) (m : α → Option (List β)),
      (modifyAll m ps f k).map List.length = (m k).map List.length
  | [], _ => rfl
  | p :: ps, m => by
    rw [modifyAll, List.foldl_cons, ← modifyAll, length_modifyAll f k ps, length_modifyAt]

/-- With `f` idempotent, the positions named in `ps` end up rewritten once. -/
theorem elem_modifyAll {f : β → β} (hf : ∀ b, f (f b) = f b) (k : α) (j : Nat) :
    ∀ (ps : List (α × Nat)) (m : α → Option (List β)),
      elem (modifyAll m ps f) k j = if (k, j) ∈ ps then (elem m k j).map f else elem m k j
  | [], _ => by simp [modifyAll]
  | p :: ps, m => by
    rw [modifyAll, List.foldl_cons, ← modifyAll, elem_modifyAll hf k j ps, elem_modifyAt]
    obtain ⟨k₀, i₀⟩ := p
    by_cases hp : k = k₀ ∧ i₀ = j
    · obtain ⟨rfl, rfl⟩ := hp
      cases elem m k i₀ <;> simp [hf]
    · have hne : (k, j) ≠ (k₀, i₀) := fun e => hp ⟨congrArg Prod.fst e, (congrArg Prod.snd e).symm⟩
      simp only [hp, if_false, List.mem_cons, hne, false_or]

omit [DecidableEq α] in
theorem noEmpty_iff_length (m : α → Option (List β)) :
    NoEmpty m ↔ ∀ k, (m k).map List.length ≠ some 0 := by
  refine forall_congr' fun k => ?_
  cases m k <;> simp

theorem noEmpty_modifyAll {m : α → Option (List β)} (hm : NoEmpty m) (ps : List (α × Nat))
    (f : β → β) : NoEmpty (modifyAll m ps f) := by
  rw [noEmpty_iff_length] at hm ⊢
  intro k
  rw [length_modifyAll]
  exact hm k

/-- **Rewriting positions and rewriting them back.** `f` is idempotent, `g`
absorbs it, and `g` fixes every element that `ps` names. -/
theorem modifyAll_modifyAll {m : α → Option (List β)} {ps : List (α × Nat)} {f g : β → β}
    (hf : ∀ b, f (f b) = f b) (hg : ∀ b, g (g b) = g b) (hgf : ∀ b, g (f b) = g b)
    (hfix : ∀ p ∈ ps, ∀ b, elem m p.1 p.2 = some b → g b = b) :
    modifyAll (modifyAll m ps f) ps g = m := by
  apply ext_elem
  · intro k
    rw [length_modifyAll, length_modifyAll]
  · intro k j
    rw [elem_modifyAll hg, elem_modifyAll hf]
    by_cases hp : (k, j) ∈ ps
    · simp only [hp, if_true, Option.map_map]
      cases hb : elem m k j with
      | none => rfl
      | some b => simp [hgf, hfix (k, j) hp b hb]
    · simp [hp]

end KeyedStack
