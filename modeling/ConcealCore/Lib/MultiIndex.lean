import Mathlib

/-!
# The indexes of a multi-index container, as lists

A `boost::multi_index_container` holds each element once and indexes it
several ways. Modelled as a list:

* a unique hashed index inserts an element only when no element has its key
  (`emplace`), and erasing by a key removes every element with that key while
  the keys are distinct (`eraseP_key_eq_filter`), so erasing an element by
  its key takes out just that element (`perm_cons_eraseP`). A loop whose turns
  each take out at most their own element keeps what every turn keeps
  (`foldl_inv`);
* an ordered non-unique index links a new element after every element whose
  key is at or below its own (`insert`). That keeps the list sorted
  (`sorted_insert`) and every other element where it was (`sublist_insert`),
  and an element of a sorted list at or below the new key ends up before the
  new one (`pair_insert`). Replacing an element in place keeps the list
  sorted when the new key still fits between its neighbours
  (`sorted_replace`).
-/

namespace MultiIndex

variable {α : Type}

/-! ## A unique index -/

section Unique

variable {κ : Type} [DecidableEq κ] (key : α → κ)

/-- `emplace` into a unique index: the element goes in at the end unless an
element with its key is there. -/
def emplace (x : α) (l : List α) : List α :=
  if l.any (fun y => key y = key x) then l else l ++ [x]

theorem emplace_of_not_mem {x : α} {l : List α} (h : key x ∉ l.map key) : emplace key x l = l ++ [x] := by
  unfold emplace
  rw [if_neg]
  simpa using h

theorem emplace_of_mem {x : α} {l : List α} (h : key x ∈ l.map key) : emplace key x l = l := by
  unfold emplace
  rw [if_pos]
  simpa using h

theorem nodup_emplace {x : α} {l : List α} (h : (l.map key).Nodup) : ((emplace key x l).map key).Nodup := by
  by_cases hx : key x ∈ l.map key
  · rwa [emplace_of_mem key hx]
  · rw [emplace_of_not_mem key hx, List.map_append, List.map_singleton]
    exact h.append (List.nodup_singleton _) (List.disjoint_singleton.mpr hx)

/-- A map that keeps every key commutes with `emplace`. -/
theorem map_emplace (g : α → α) (hg : ∀ y, key (g y) = key y) (x : α) (l : List α) :
    (emplace key x l).map g = emplace key (g x) (l.map g) := by
  have hany : (l.map g).any (fun y => key y = key (g x)) = l.any (fun y => key y = key x) := by
    rw [List.any_map]
    congr 1
    funext y
    simp [hg]
  unfold emplace
  rw [hany]
  split <;> simp

/-- Erasing by the key of an element takes one copy of the key out. -/
theorem perm_map_eraseP {l : List α} {x : α} (hx : x ∈ l) :
    (l.map key).Perm (key x :: (l.eraseP (fun y => key y = key x)).map key) := by
  obtain ⟨a, l₁, l₂, -, ha, rfl, herase⟩ := List.exists_of_eraseP hx (p := fun y => key y = key x) (by simp)
  have hkey : key a = key x := by simpa using ha
  rw [herase, List.map_append, List.map_cons, List.map_append, hkey]
  exact List.perm_middle

/-- Erasing an element by its key takes out that element, while the keys are distinct. -/
theorem perm_cons_eraseP {l : List α} (h : (l.map key).Nodup) {x : α} (hx : x ∈ l) :
    l.Perm (x :: l.eraseP (fun y => key y = key x)) := by
  obtain ⟨a, l₁, l₂, -, ha, rfl, herase⟩ := List.exists_of_eraseP hx (p := fun y => key y = key x) (by simp)
  have hax : a = x := List.inj_on_of_nodup_map h (by simp) hx (by simpa using ha)
  rw [herase, hax]
  exact List.perm_middle

omit [DecidableEq κ] in
/-- **A loop over elements of a unique index**, each turn taking out at most
its own element: when every turn on an element still there keeps `P` and the
elements of the other keys, a loop over elements of distinct keys, all there
when it starts, keeps `P`. -/
theorem foldl_inv {σ : Type} (P : σ → Prop) (mem : σ → α → Prop) (step : σ → α → σ)
    (hstep : ∀ s x, P s → mem s x → P (step s x) ∧ ∀ y, mem s y → key y ≠ key x → mem (step s x) y) :
    ∀ {l : List α} {s : σ}, (l.map key).Nodup → P s → (∀ x ∈ l, mem s x) → P (l.foldl step s)
  | [], _, _, hs, _ => hs
  | x :: xs, s, hnodup, hs, hmem => by
    rw [List.map_cons, List.nodup_cons] at hnodup
    obtain ⟨hs', hkeep⟩ := hstep s x hs (hmem x List.mem_cons_self)
    rw [List.foldl_cons]
    -- the rest is still there: each has a key other than `x`'s
    refine foldl_inv P mem step hstep hnodup.2 hs' fun y hy => hkeep y (hmem y (List.mem_cons_of_mem x hy)) ?_
    exact fun hyx => hnodup.1 (hyx ▸ List.mem_map_of_mem hy)

/-- Erasing by a key removes every element with it, while the keys are distinct. -/
theorem eraseP_key_eq_filter {l : List α} (h : (l.map key).Nodup) (k : κ) :
    l.eraseP (fun y => key y = k) = l.filter (fun y => key y ≠ k) := by
  induction l with
  | nil => rfl
  | cons y ys ih =>
    rw [List.map_cons, List.nodup_cons] at h
    by_cases hy : key y = k
    · -- `y` is the one element with the key
      rw [List.eraseP_cons_of_pos (by simpa using hy), List.filter_cons_of_neg (by simpa using hy),
        eq_comm, List.filter_eq_self]
      intro z hz
      have hzk : key z ≠ k := fun hz' => h.1 (hy ▸ hz' ▸ List.mem_map_of_mem hz)
      simpa using hzk
    · rw [List.eraseP_cons_of_neg (by simpa using hy), List.filter_cons_of_pos (by simpa using hy), ih h.2]

/-- Erasing by key the elements a filter selects leaves exactly the others,
while the keys are distinct. -/
theorem filter_key_not_mem_filter {l : List α} (h : (l.map key).Nodup) (p : α → Bool) :
    l.filter (fun y => key y ∉ (l.filter p).map key) = l.filter (fun y => !p y) := by
  apply List.filter_congr
  intro y hy
  -- the key of `y` is selected exactly when `y` is, as no other element has it
  have hiff : key y ∈ (l.filter p).map key ↔ p y = true := by
    constructor
    · intro hk
      obtain ⟨z, hz, hzk⟩ := List.mem_map.mp hk
      have hzy : z = y := List.inj_on_of_nodup_map h (List.mem_of_mem_filter hz) hy hzk
      exact hzy ▸ (List.mem_filter.mp hz).2
    · intro hp
      exact List.mem_map_of_mem (List.mem_filter.mpr ⟨hy, hp⟩)
  simp [hiff]

end Unique

/-! ## An ordered non-unique index -/

section Ordered

variable {β : Type} [LinearOrder β] (f : α → β)

/-- `emplace` into an ordered non-unique index: after every element whose key
is at or below the new one's. -/
def insert (v : α) : List α → List α
  | [] => [v]
  | u :: us => if f v < f u then v :: u :: us else u :: insert v us

/-- The list is sorted by key, as the index iterates it. -/
def Sorted (l : List α) : Prop := l.Pairwise (fun a b => f a ≤ f b)

theorem perm_insert (v : α) (l : List α) : (insert f v l).Perm (v :: l) := by
  induction l with
  | nil => exact .refl _
  | cons u us ih =>
    unfold insert
    split
    · exact .refl _
    · exact (ih.cons u).trans (.swap v u us)

theorem mem_insert {v x : α} {l : List α} : x ∈ insert f v l ↔ x = v ∨ x ∈ l := by
  rw [(perm_insert f v l).mem_iff, List.mem_cons]

/-- The other elements keep their order. -/
theorem sublist_insert (v : α) (l : List α) : l.Sublist (insert f v l) := by
  induction l with
  | nil => exact List.nil_sublist _
  | cons u us ih =>
    unfold insert
    split
    · exact List.sublist_cons_self v _
    · exact ih.cons_cons u

theorem sorted_insert {v : α} {l : List α} (h : Sorted f l) : Sorted f (insert f v l) := by
  induction l with
  | nil => simp [insert, Sorted]
  | cons u us ih =>
    rw [Sorted, List.pairwise_cons] at h
    unfold insert
    split
    · rename_i hlt
      refine List.pairwise_cons.mpr ⟨?_, List.pairwise_cons.mpr h⟩
      intro x hx
      rcases List.mem_cons.mp hx with rfl | hx
      · exact hlt.le
      · exact hlt.le.trans (h.1 x hx)
    · rename_i hge
      refine List.pairwise_cons.mpr ⟨?_, ih h.2⟩
      intro x hx
      rcases (mem_insert f).mp hx with rfl | hx
      · exact not_lt.mp hge
      · exact h.1 x hx

/-- **An element at or below the new key stays before the new element.** -/
theorem pair_insert {v a : α} {l : List α} (h : Sorted f l) (ha : a ∈ l) (hle : f a ≤ f v) :
    [a, v].Sublist (insert f v l) := by
  induction l with
  | nil => cases ha
  | cons u us ih =>
    rw [Sorted, List.pairwise_cons] at h
    unfold insert
    split
    · -- the new element would go before `u`, which is at or below `a`
      rename_i hlt
      exfalso
      rcases List.mem_cons.mp ha with rfl | ha
      · exact absurd hle (not_le.mpr hlt)
      · exact absurd (hlt.trans_le (h.1 a ha)) (not_lt.mpr hle)
    · rcases List.mem_cons.mp ha with rfl | ha
      · exact (List.singleton_sublist.mpr ((mem_insert f).mpr (.inl rfl))).cons_cons a
      · exact (ih h.2 ha).cons u

theorem le_of_mem_getLast? {l : List α} (h : Sorted f l) {x b : α} (hx : x ∈ l) (hb : b ∈ l.getLast?) :
    f x ≤ f b := by
  have hl : l = l.dropLast ++ [b] := (List.dropLast_append_getLast? b hb).symm
  rw [hl, List.mem_append, List.mem_singleton] at hx
  rw [Sorted, hl, List.pairwise_append] at h
  rcases hx with hx | rfl
  · exact h.2.2 x hx b (List.mem_singleton_self b)
  · exact le_rfl

/-- **Replacing in place keeps the order** when the new key still fits
between the neighbours. -/
theorem sorted_replace {before after : List α} {u v : α} (h : Sorted f (before ++ u :: after))
    (hlo : ∀ b ∈ before.getLast?, f b ≤ f v) (hhi : ∀ a ∈ after.head?, f v ≤ f a) :
    Sorted f (before ++ v :: after) := by
  rw [Sorted, List.pairwise_append, List.pairwise_cons] at h
  obtain ⟨hbefore, ⟨-, hafter⟩, hacross⟩ := h
  -- the new element is at or below everything after it
  have hv : ∀ y ∈ after, f v ≤ f y := by
    cases after with
    | nil => simp
    | cons a rest =>
      rw [List.pairwise_cons] at hafter
      have hva : f v ≤ f a := hhi a rfl
      intro y hy
      rcases List.mem_cons.mp hy with rfl | hy
      · exact hva
      · exact hva.trans (hafter.1 y hy)
  refine List.pairwise_append.mpr ⟨hbefore, List.pairwise_cons.mpr ⟨hv, hafter⟩, ?_⟩
  intro x hx y hy
  rcases List.mem_cons.mp hy with rfl | hy
  · obtain ⟨b, hb⟩ := Option.isSome_iff_exists.mp (List.getLast?_isSome.mpr (List.ne_nil_of_mem hx))
    exact (le_of_mem_getLast? f hbefore hx hb).trans (hlo b hb)
  · exact hacross x hx y (List.mem_cons_of_mem u hy)

/-- In `V ++ a :: R`, with `a` in neither part, what comes before `a` is in `V`. -/
theorem mem_of_pair_sublist {a b : α} {R : List α} :
    ∀ {V : List α}, [b, a].Sublist (V ++ a :: R) → a ∉ V → a ∉ R → b ∈ V
  | [], h, _, haR => by
    rcases List.sublist_cons_iff.mp h with h | ⟨r, hr, hsub⟩
    · exact absurd (h.subset (by simp)) haR
    · obtain ⟨rfl, rfl⟩ := List.cons.inj hr
      exact absurd (hsub.subset (by simp)) haR
  | v :: V, h, haV, haR => by
    rcases List.sublist_cons_iff.mp h with h | ⟨r, hr, -⟩
    · exact List.mem_cons_of_mem v (mem_of_pair_sublist h (fun ha => haV (List.mem_cons_of_mem v ha)) haR)
    · obtain ⟨rfl, -⟩ := List.cons.inj hr
      exact List.mem_cons_self

end Ordered

end MultiIndex
