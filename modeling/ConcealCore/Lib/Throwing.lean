import Mathlib

/-!
# Loops whose body may throw

C++ code that mutates an object in place and throws part way keeps every
change made before the throw. A call on a state `σ` is then modelled as
returning the new state, or the exception with the state the throw leaves:
`Except (ε × σ) σ`. `forEach` runs such a body over a list, stopping at the
first throw.

A property of the state that every turn keeps, on return and on throw, holds of
the state the loop returns or throws with (`forEach_ok_inv`, `forEach_error_inv`);
stated of `after`, the state a call leaves either way, the rule is one statement
(`forEach_after_inv`). A loop that returns returned from every turn
(`forEach_cons_ok`), so what every returning turn keeps holds when it returns
(`forEach_returning_inv`).
A loop over a concatenation is the loop over the first part, then over the
second (`forEach_append`).
-/

namespace Throwing

variable {α σ ε : Type}

/-- The turns of `body` over a list, threading the state and stopping at the
first throw. -/
def forEach (body : α → σ → Except (ε × σ) σ) : List α → σ → Except (ε × σ) σ
  | [], s => .ok s
  | a :: as, s =>
    match body a s with
    | .error e => .error e
    | .ok s' => forEach body as s'

/-- The state a call leaves, whether it returns or throws. -/
def after : Except (ε × σ) σ → σ
  | .ok s => s
  | .error e => e.2

@[simp] theorem after_ok (s : σ) : after (.ok s : Except (ε × σ) σ) = s := rfl

@[simp] theorem after_error (e : ε) (s : σ) : after (.error (e, s) : Except (ε × σ) σ) = s := rfl

section ForEach

variable {body : α → σ → Except (ε × σ) σ}

@[simp] theorem forEach_nil (s : σ) : forEach body [] s = .ok s := rfl

theorem forEach_cons (a : α) (as : List α) (s : σ) :
    forEach body (a :: as) s = match body a s with
      | .error e => .error e
      | .ok s' => forEach body as s' := rfl

/-- A loop that returns returned from its first turn, and from the rest. -/
theorem forEach_cons_ok {a : α} {as : List α} {s s' : σ} (h : forEach body (a :: as) s = .ok s') :
    ∃ s₁, body a s = .ok s₁ ∧ forEach body as s₁ = .ok s' := by
  rw [forEach_cons] at h
  split at h
  · cases h
  · exact ⟨_, ‹_›, h⟩

theorem forEach_append (l₁ l₂ : List α) (s : σ) :
    forEach body (l₁ ++ l₂) s = match forEach body l₁ s with
      | .error e => .error e
      | .ok s' => forEach body l₂ s' := by
  induction l₁ generalizing s with
  | nil => rfl
  | cons a as ih =>
    rw [List.cons_append, forEach_cons, forEach_cons]
    cases body a s with
    | error e => rfl
    | ok s' => exact ih s'

variable (P : σ → Prop)

/-- **The invariant rule of a throwing loop**: what every turn keeps, on
return and on throw, holds at the end of the loop, whichever way it ends. -/
theorem forEach_inv (hok : ∀ a s s', P s → body a s = .ok s' → P s')
    (herr : ∀ a s e s', P s → body a s = .error (e, s') → P s') :
    ∀ (l : List α) (s : σ), P s →
      (∀ s', forEach body l s = .ok s' → P s') ∧ (∀ e s', forEach body l s = .error (e, s') → P s')
  | [], s, hs => ⟨fun s' h => (by cases h; exact hs), fun e s' h => (by cases h)⟩
  | a :: as, s, hs => by
    rw [forEach_cons]
    rcases hb : body a s with ⟨e, s₁⟩ | s₁
    · refine ⟨fun s' h => (by cases h), fun e' s' h => ?_⟩
      obtain ⟨-, rfl⟩ := Prod.mk.inj (Except.error.inj h)
      exact herr a s e s₁ hs hb
    · exact forEach_inv hok herr as s₁ (hok a s s₁ hs hb)

theorem forEach_ok_inv (hok : ∀ a s s', P s → body a s = .ok s' → P s')
    (herr : ∀ a s e s', P s → body a s = .error (e, s') → P s') {l : List α} {s s' : σ} (hs : P s)
    (h : forEach body l s = .ok s') : P s' :=
  (forEach_inv P hok herr l s hs).1 s' h

theorem forEach_error_inv (hok : ∀ a s s', P s → body a s = .ok s' → P s')
    (herr : ∀ a s e s', P s → body a s = .error (e, s') → P s') {l : List α} {s s' : σ} {e : ε}
    (hs : P s) (h : forEach body l s = .error (e, s')) : P s' :=
  (forEach_inv P hok herr l s hs).2 e s' h

/-- **The invariant rule of a loop that returns**: what every returning turn
keeps holds at its end. -/
theorem forEach_returning_inv (hok : ∀ a s s', P s → body a s = .ok s' → P s') :
    ∀ {l : List α} {s s' : σ}, P s → forEach body l s = .ok s' → P s'
  | [], _, _, hs, h => by
    cases h
    exact hs
  | _ :: _, _, _, hs, h => by
    obtain ⟨s₁, h₁, hrest⟩ := forEach_cons_ok h
    exact forEach_returning_inv hok (hok _ _ s₁ hs h₁) hrest

/-- **The invariant rule on the state left**: what every call of the body
leaves, returning or throwing, the loop leaves. -/
theorem forEach_after_inv (h : ∀ a s, P s → P (after (body a s))) : ∀ (l : List α) (s : σ), P s →
    P (after (forEach body l s))
  | [], s, hs => hs
  | a :: as, s, hs => by
    have ha := h a s hs
    rw [forEach_cons]
    cases hb : body a s with
    | error e =>
      rw [hb] at ha
      exact ha
    | ok s' =>
      rw [hb] at ha
      exact forEach_after_inv h as s' ha

end ForEach

end Throwing
