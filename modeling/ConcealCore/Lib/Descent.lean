import Mathlib

/-!
# Recursive descent over a token string

A `Parser` takes a value from the front of a token string and returns it with
the tokens after it, or fails with an error. Recursive descent repeats parsers
in loops: `iterate` runs a step a given number of turns, threading a state, and
`loopUntil` runs a step until the step stops, with a bound on its turns that
fails with a given error when it is reached.

A step that never gives back more tokens than it took (`Consumes`) can be
repeated: the loops consume too (`iterate_consumes`, `loopUntil_consumes`), and
an error the step never gives on inputs up to some length the loops never give
either (`iterate_avoids`, `loopUntil_avoids`). Two steps that agree wherever the
first does not fail with some error give loops that agree in the same way
(`iterate_congr`, `loopUntil_congr`): this is how a parser with a budget is
shown not to depend on the budget once it suffices.

A turn that reads one element from the front of the tokens, from any state,
makes `iterate` read a whole list written element after element
(`iterate_flatMap`). On the writing side, calls that move each state of a
family to another state of it run over the calls of a list the same way
(`foldlM_flatMap`).
-/

namespace Descent

variable {τ ε σ α β : Type}

/-- A value from the front of a token string with the tokens after it, or an error. -/
abbrev Parser (τ ε α : Type) := List τ → Except ε (α × List τ)

/-- `n` turns of a step that threads a state, stopping at the first error. -/
def iterate (p : σ → Parser τ ε σ) : Nat → σ → Parser τ ε σ
  | 0, x, s => .ok (x, s)
  | n + 1, x, s =>
    match p x s with
    | .error e => .error e
    | .ok (x', s') => iterate p n x' s'

/-- Turns of a step that continues with a new state (`inl`) or stops with a
result (`inr`), at most `n` of them: the error `stuck` when they run out. -/
def loopUntil (p : σ → Parser τ ε (σ ⊕ β)) (stuck : ε) : Nat → σ → Parser τ ε β
  | 0, _, _ => .error stuck
  | n + 1, x, s =>
    match p x s with
    | .error e => .error e
    | .ok (.inl x', s') => loopUntil p stuck n x' s'
    | .ok (.inr b, s') => .ok (b, s')

/-- `p` never returns more tokens than it was given. -/
def Consumes (p : Parser τ ε α) : Prop :=
  ∀ s a r, p s = .ok (a, r) → r.length ≤ s.length

/-- `p` returns fewer tokens than it was given. -/
def Shrinks (p : Parser τ ε α) : Prop :=
  ∀ s a r, p s = .ok (a, r) → r.length < s.length

theorem Shrinks.consumes {p : Parser τ ε α} (h : Shrinks p) : Consumes p :=
  fun s a r hp => Nat.le_of_lt (h s a r hp)

/-- `p` never fails with `e` on an input of at most `n` tokens. -/
def Avoids (p : Parser τ ε α) (e : ε) (n : Nat) : Prop :=
  ∀ s : List τ, s.length ≤ n → p s ≠ .error e

theorem Avoids.mono {p : Parser τ ε α} {e : ε} {n m : Nat} (h : Avoids p e n) (hm : m ≤ n) :
    Avoids p e m :=
  fun s hs => h s (Nat.le_trans hs hm)

/-- A value is not an error. -/
theorem ok_ne_error {a : α} {e : ε} : (.ok a : Except ε α) ≠ .error e := by
  intro h
  cases h

/-- An error a step passes on is the step's own. -/
theorem error_ne {p : Except ε α} {e e' : ε} (hp : p = .error e') (hne : p ≠ .error e) :
    (.error e' : Except ε β) ≠ .error e :=
  fun h => hne (hp.trans (congrArg Except.error (Except.error.inj h)))

section Iterate

variable {p q : σ → Parser τ ε σ}

@[simp] theorem iterate_zero (x : σ) (s : List τ) : iterate p 0 x s = .ok (x, s) := rfl

theorem iterate_succ (n : Nat) (x : σ) (s : List τ) :
    iterate p (n + 1) x s = match p x s with
      | .error e => .error e
      | .ok (x', s') => iterate p n x' s' := rfl

theorem iterate_consumes (hp : ∀ x, Consumes (p x)) : ∀ n x, Consumes (iterate p n x)
  | 0, _, s, _, r, h => by
    cases h
    exact Nat.le_refl _
  | n + 1, x, s, a, r, h => by
    rw [iterate_succ] at h
    split at h
    · cases h
    · rename_i x' s' hx
      exact Nat.le_trans (iterate_consumes hp n x' s' a r h) (hp x s x' s' hx)

theorem iterate_avoids {e : ε} {m : Nat} (hp : ∀ x, Avoids (p x) e m) (hc : ∀ x, Consumes (p x)) :
    ∀ n x, Avoids (iterate p n x) e m
  | 0, _, _, _ => ok_ne_error
  | n + 1, x, s, hs => by
    rw [iterate_succ]
    split
    · rename_i e' he
      rintro ⟨⟩
      exact hp x s hs he
    · rename_i x' s' hx
      exact iterate_avoids hp hc n x' s' (Nat.le_trans (hc x s x' s' hx) hs)

/-- Steps that agree wherever the first does not fail with `e` give loops that do. -/
theorem iterate_congr {e : ε} (h : ∀ x s, p x s ≠ .error e → q x s = p x s) :
    ∀ n x s, iterate p n x s ≠ .error e → iterate q n x s = iterate p n x s
  | 0, _, _, _ => rfl
  | n + 1, x, s, hne => by
    rw [iterate_succ] at hne
    rw [iterate_succ, iterate_succ]
    -- the first turn of `p` does not fail with `e`, so `q` takes it too
    have hpx : p x s ≠ .error e := fun hpe => hne (by rw [hpe])
    rw [h x s hpx]
    rcases hres : p x s with e' | ⟨x', s'⟩
    · rfl
    · rw [hres] at hne
      exact iterate_congr h n x' s' hne

/-- `l.length` turns read the elements of `l` one after the other, each turn
reading its element from whatever state the turns before it left. -/
theorem iterate_flatMap {enc : α → List τ} {f : σ → α → σ} {l : List α}
    (h : ∀ a ∈ l, ∀ x rest, p x (enc a ++ rest) = .ok (f x a, rest)) (x : σ) (rest : List τ) :
    iterate p l.length x (l.flatMap enc ++ rest) = .ok (l.foldl f x, rest) := by
  induction l generalizing x with
  | nil => rfl
  | cons a l ih =>
    have hhead := h a List.mem_cons_self x (l.flatMap enc ++ rest)
    rw [List.length_cons, iterate_succ, List.flatMap_cons, List.append_assoc, hhead]
    exact ih (fun b hb => h b (List.mem_cons_of_mem a hb)) (f x a)

end Iterate

section Runs

variable {β γ : Type} {f : σ → β → Except ε σ}

/-- Calls that take each state `S c` of a family to `S (next c a)` run over the
calls of the elements of a list one after the other. -/
theorem foldlM_flatMap (calls : α → List β) (S : γ → σ) (next : γ → α → γ) {l : List α}
    (h : ∀ a ∈ l, ∀ c, (calls a).foldlM f (S c) = .ok (S (next c a))) (c : γ) :
    (l.flatMap calls).foldlM f (S c) = .ok (S (l.foldl next c)) := by
  induction l generalizing c with
  | nil => rfl
  | cons a l ih =>
    rw [List.flatMap_cons, List.foldlM_append, h a List.mem_cons_self c]
    exact ih (fun b hb => h b (List.mem_cons_of_mem a hb)) (next c a)

end Runs

section LoopUntil

variable {p q : σ → Parser τ ε (σ ⊕ β)} {stuck : ε}

theorem loopUntil_succ (n : Nat) (x : σ) (s : List τ) :
    loopUntil p stuck (n + 1) x s = match p x s with
      | .error e => .error e
      | .ok (.inl x', s') => loopUntil p stuck n x' s'
      | .ok (.inr b, s') => .ok (b, s') := rfl

theorem loopUntil_consumes (hp : ∀ x, Consumes (p x)) : ∀ n x, Consumes (loopUntil p stuck n x)
  | 0, _, _, _, _, h => by cases h
  | n + 1, x, s, a, r, h => by
    rw [loopUntil_succ] at h
    split at h
    · cases h
    · rename_i x' s' hx
      exact Nat.le_trans (loopUntil_consumes hp n x' s' a r h) (hp x s _ s' hx)
    · rename_i b s' hx
      cases h
      exact hp x s _ _ hx

/-- A loop given more turns than its input has tokens, whose continuing turns
take a token each, never runs out of turns, and fails only as its step does. -/
theorem loopUntil_avoids {e : ε} {m : Nat} (hp : ∀ x, Avoids (p x) e m)
    (hshrink : ∀ x s x' s', p x s = .ok (.inl x', s') → s'.length < s.length) :
    ∀ n x s, s.length ≤ m → s.length < n → loopUntil p stuck n x s ≠ .error e
  | 0, _, _, _, hn => absurd hn (Nat.not_lt_zero _)
  | n + 1, x, s, hs, hn => by
    rw [loopUntil_succ]
    split
    · rename_i e' he
      rintro ⟨⟩
      exact hp x s hs he
    · rename_i x' s' hx
      have := hshrink x s x' s' hx
      exact loopUntil_avoids hp hshrink n x' s' (by omega) (by omega)
    · exact ok_ne_error

theorem loopUntil_congr {e : ε} (h : ∀ x s, p x s ≠ .error e → q x s = p x s) :
    ∀ n x s, loopUntil p stuck n x s ≠ .error e → loopUntil q stuck n x s = loopUntil p stuck n x s
  | 0, _, _, _ => rfl
  | n + 1, x, s, hne => by
    rw [loopUntil_succ] at hne
    rw [loopUntil_succ, loopUntil_succ]
    have hpx : p x s ≠ .error e := fun hpe => hne (by rw [hpe])
    rw [h x s hpx]
    rcases hres : p x s with e' | ⟨x' | b, s'⟩
    · rfl
    · rw [hres] at hne
      exact loopUntil_congr h n x' s' hne
    · rfl

end LoopUntil

end Descent
