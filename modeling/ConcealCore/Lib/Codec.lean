import Mathlib

/-!
# Readers of token strings and their round trips

A `Reader` takes a value from the front of a token string and returns it with
the tokens after it, or fails. Two properties relate a reader to a writer
`enc`, both over the values satisfying a predicate `P`:

* `ReadsBack enc read P`: reading what `enc` writes for a value satisfying `P`
  gives that value back and consumes exactly its tokens, whatever follows.
* `Canonical enc read P`: whatever `read` accepts is what `enc` writes for the
  value read, and that value satisfies `P`.

`readAll` reads a whole string; `readAll_writes` and `writes_of_readAll` turn
the two properties into the round trip and its converse for whole strings.
The readers of a fixed number of tokens (`readTokens`) and of a fixed number of
values (`readCount`) have both properties, and a reader mapped through a
conversion (`map`) keeps them.
-/

namespace Codec

variable {σ α : Type}

/-- A value read from the front of a token string, with the tokens after it. -/
abbrev Reader (σ α : Type) := List σ → Option (α × List σ)

/-- `read` gives back what `enc` writes, for the values satisfying `P`. -/
def ReadsBack (enc : α → List σ) (read : Reader σ α) (P : α → Prop) : Prop :=
  ∀ a, P a → ∀ rest, read (enc a ++ rest) = some (a, rest)

/-- `read` accepts only what `enc` writes, and only values satisfying `P`. -/
def Canonical (enc : α → List σ) (read : Reader σ α) (P : α → Prop) : Prop :=
  ∀ bs a rest, read bs = some (a, rest) → P a ∧ bs = enc a ++ rest

theorem ReadsBack.mono {enc : α → List σ} {read : Reader σ α} {P Q : α → Prop}
    (h : ReadsBack enc read P) (hQ : ∀ a, Q a → P a) : ReadsBack enc read Q :=
  fun a ha rest => h a (hQ a ha) rest

theorem Canonical.mono {enc : α → List σ} {read : Reader σ α} {P Q : α → Prop}
    (h : Canonical enc read P) (hQ : ∀ a, P a → Q a) : Canonical enc read Q := by
  intro bs a rest hr
  obtain ⟨hP, hbs⟩ := h bs a rest hr
  exact ⟨hQ a hP, hbs⟩

/-- Read a value that takes the whole string. -/
def readAll (read : Reader σ α) (bs : List σ) : Option α :=
  match read bs with
  | some (a, []) => some a
  | _ => none

theorem readAll_writes {enc : α → List σ} {read : Reader σ α} {P : α → Prop}
    (h : ReadsBack enc read P) {a : α} (ha : P a) : readAll read (enc a) = some a := by
  have := h a ha []
  rw [List.append_nil] at this
  rw [readAll, this]

theorem writes_of_readAll {enc : α → List σ} {read : Reader σ α} {P : α → Prop}
    (h : Canonical enc read P) {bs : List σ} {a : α} (hr : readAll read bs = some a) :
    P a ∧ bs = enc a := by
  unfold readAll at hr
  split at hr
  · rename_i a' hread
    cases hr
    obtain ⟨hP, hbs⟩ := h bs a [] hread
    exact ⟨hP, by rw [hbs, List.append_nil]⟩
  · cases hr

/-! ### Fixed numbers of tokens and of values -/

/-- The next `n` tokens. -/
def readTokens (n : Nat) : Reader σ (List σ) := fun bs =>
  if n ≤ bs.length then some (bs.take n, bs.drop n) else none

theorem readTokens_readsBack (n : Nat) : ReadsBack id (@readTokens σ n) (·.length = n) := by
  intro a ha rest
  simp [readTokens, ha]

theorem readTokens_canonical (n : Nat) : Canonical id (@readTokens σ n) (·.length = n) := by
  intro bs a rest h
  unfold readTokens at h
  split at h
  · rename_i hn
    simp only [Option.some.injEq, Prod.mk.injEq] at h
    obtain ⟨rfl, rfl⟩ := h
    exact ⟨List.length_take_of_le hn, (List.take_append_drop n bs).symm⟩
  · cases h

/-- `n` values, one after the other. -/
def readCount (read : Reader σ α) : Nat → Reader σ (List α)
  | 0, bs => some ([], bs)
  | n + 1, bs => do
    let (a, bs) ← read bs
    let (as, bs) ← readCount read n bs
    pure (a :: as, bs)

section Count

variable {enc : α → List σ} {read : Reader σ α} {P : α → Prop}

theorem readCount_readsBack (h : ReadsBack enc read P) (n : Nat) :
    ReadsBack (·.flatMap enc) (readCount read n) (fun l => l.length = n ∧ ∀ a ∈ l, P a) := by
  induction n with
  | zero =>
    rintro l ⟨hl, -⟩ rest
    rw [List.length_eq_zero_iff.mp hl]
    rfl
  | succ n ih =>
    rintro (_ | ⟨a, l⟩) ⟨hl, hP⟩ rest
    · cases hl
    · -- the head, then the other `n` values
      have ha : read (enc a ++ (l.flatMap enc ++ rest)) = some (a, l.flatMap enc ++ rest) :=
        h a (hP a List.mem_cons_self) _
      have hl' : readCount read n (l.flatMap enc ++ rest) = some (l, rest) :=
        ih l ⟨by simpa using hl, fun b hb => hP b (List.mem_cons_of_mem a hb)⟩ rest
      simp [readCount, List.append_assoc, ha, hl']

theorem readCount_canonical (h : Canonical enc read P) (n : Nat) :
    Canonical (·.flatMap enc) (readCount read n) (fun l => l.length = n ∧ ∀ a ∈ l, P a) := by
  induction n with
  | zero =>
    intro bs l rest hr
    simp only [readCount, Option.some.injEq, Prod.mk.injEq] at hr
    obtain ⟨rfl, rfl⟩ := hr
    simp
  | succ n ih =>
    intro bs l rest hr
    simp only [readCount, Option.bind_eq_bind, Option.bind_eq_some_iff, Option.pure_def,
      Option.some.injEq] at hr
    obtain ⟨⟨a, mid⟩, ha, ⟨l', rest'⟩, hl', hpair⟩ := hr
    cases hpair
    obtain ⟨hPa, rfl⟩ := h bs a mid ha
    obtain ⟨⟨hlen, hPl⟩, rfl⟩ := ih mid l' rest' hl'
    refine ⟨⟨by simp [hlen], ?_⟩, by simp [List.append_assoc]⟩
    intro b hb
    rcases List.mem_cons.mp hb with rfl | hb
    · exact hPa
    · exact hPl b hb

end Count

/-! ### Mapping a reader -/

/-- The reader that converts what `read` reads by `f`. -/
def map {β : Type} (f : α → β) (read : Reader σ α) : Reader σ β := fun bs =>
  (read bs).map fun (a, rest) => (f a, rest)

section Map

variable {β : Type} {enc : α → List σ} {read : Reader σ α} {P : α → Prop} {f : α → β} {g : β → α}

/-- Reading through `f` gives back the values that `f` recovers from `g`. -/
theorem map_readsBack (h : ReadsBack enc read P) :
    ReadsBack (fun b => enc (g b)) (map f read) (fun b => P (g b) ∧ f (g b) = b) := by
  rintro b ⟨hP, hfg⟩ rest
  simp [map, h (g b) hP rest, hfg]

/-- What the mapped reader accepts is written by `enc ∘ g`, provided `g`
undoes `f` on the values `read` accepts. -/
theorem map_canonical (h : Canonical enc read P) (hgf : ∀ a, P a → g (f a) = a) :
    Canonical (fun b => enc (g b)) (map f read) (fun b => ∃ a, P a ∧ f a = b) := by
  intro bs b rest hr
  simp only [map, Option.map_eq_some_iff, Prod.exists, Prod.mk.injEq] at hr
  obtain ⟨a, rest', hread, rfl, rfl⟩ := hr
  obtain ⟨hP, hbs⟩ := h bs a rest' hread
  refine ⟨⟨a, hP, rfl⟩, ?_⟩
  show bs = enc (g (f a)) ++ rest'
  rw [hgf a hP, hbs]

end Map

end Codec
