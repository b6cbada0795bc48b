import ConcealCore.Lib.SparseHeights
import ConcealCore.Spec.BlockIndex

/-!
# Synchronising through the sparse chain

`buildSparseChain` of the id at height `h` is the ids at the heights
`SparseHeights.sparseHeights (h + 1)`: `h, h - 1, h - 3, …, h + 1 - 2 ^ k`,
then the genesis (`buildSparseChain_eq`), as long as `h + 1` does not wrap
in `uint32_t`. A node whose chain agrees with the sender's up to height `f`,
and holds none of its later blocks, answers with the first of those heights at
or below `f` (`findSupplement_eq`), which the doubling argument puts at most
as far below the fork as the sender is above it
(`findSupplement_buildSparseChain`).

From `2 ^ 32` blocks on, heights wrap: the id at height `2 ^ 32` has height `0`,
and its sparse chain is the genesis id alone
(`buildSparseChain_wraps_at_two_pow_32`).
-/

namespace Cn

namespace BlockIndex

open SparseHeights

variable {index : List Hash}

/-! ## Heights -/

theorem getBlockHeight_getElem (hnodup : index.Nodup) {i : ℕ} (hi : i < index.length) :
    getBlockHeight index index[i] = some i.toUInt32 := by
  rw [getBlockHeight, if_pos (List.getElem_mem hi), List.Nodup.idxOf_getElem hnodup]

theorem getBlockHeight_of_not_mem {h : Hash} (hh : h ∉ index) : getBlockHeight index h = none :=
  if_neg hh

/-! ## The loop of `buildSparseChain` -/

/-- From `i = 2 ^ j` on, the loop lists the ids `2 ^ k` below the end for
`k = j, …, log₂ e`, given fuel for them. -/
theorem loop_pow (e : ℕ) (he : e ≠ 0) :
    ∀ fuel j, Nat.log 2 e + 1 - j ≤ fuel →
      buildSparseChain.loop index e fuel (2 ^ j) =
        ((List.range' j (Nat.log 2 e + 1 - j)).map (e - 2 ^ ·)).map (index.getD · default) := by
  intro fuel
  induction fuel with
  | zero =>
    intro j hj
    rw [show Nat.log 2 e + 1 - j = 0 by omega]
    rfl
  | succ fuel ih =>
    intro j hj
    rw [buildSparseChain.loop]
    split
    · -- `2 ^ j ≤ e`: the id `2 ^ j` below the end, then the loop from `2 ^ (j + 1)`
      next hle =>
      have hj' : j ≤ Nat.log 2 e := Nat.le_log_of_pow_le (by norm_num) hle
      rw [← pow_succ, ih (j + 1) (by omega), show Nat.log 2 e + 1 - j = (Nat.log 2 e + 1 - (j + 1)) + 1 by omega,
        List.range'_succ]
      rfl
    · -- past the end: nothing more
      next hlt =>
      have hj' : Nat.log 2 e < j := Nat.log_lt_of_lt_pow he (by omega)
      rw [show Nat.log 2 e + 1 - j = 0 by omega]
      rfl

theorem loop_eq_powerSteps (e : ℕ) (he : e ≠ 0) :
    buildSparseChain.loop index e e 1 = (powerSteps e).map (index.getD · default) := by
  have hfuel : Nat.log 2 e + 1 - 0 ≤ e := by
    have := Nat.log_lt_self 2 he
    omega
  rw [show (1 : ℕ) = 2 ^ 0 from rfl, loop_pow e he e 0 hfuel, powerSteps, List.range_eq_range', Nat.sub_zero]

/-- **The sparse chain.** The ids at the heights `sparseHeights (h + 1)`, for
a height whose successor fits a `uint32_t`. -/
theorem buildSparseChain_eq (hnodup : index.Nodup) (hlen : index.length < 2 ^ 32) {h : ℕ} (hh : h < index.length) :
    buildSparseChain index index[h] = (sparseHeights (h + 1)).map (index.getD · default) := by
  have hend : (h.toUInt32 + 1).toNat = h + 1 := by
    have hsize : h < UInt32.size := show h < 2 ^ 32 by omega
    rw [UInt32.toNat_add, Nat.toUInt32_eq, UInt32.toNat_ofNat_of_lt' hsize, UInt32.toNat_one]
    omega
  have hsteps : buildSparseChain.loop index (h + 1) (h + 1) 1 = (powerSteps (h + 1)).map (index.getD · default) :=
    loop_eq_powerSteps (h + 1) (by omega)
  -- the last step is the genesis exactly when it is height `0`
  have hlastStep : h + 1 - 2 ^ Nat.log 2 (h + 1) < index.length := by
    have := Nat.one_le_two_pow (n := Nat.log 2 (h + 1))
    omega
  have hgenesis : (index.getD (h + 1 - 2 ^ Nat.log 2 (h + 1)) default = index.getD 0 default) ↔
      h + 1 - 2 ^ Nat.log 2 (h + 1) = 0 := by
    rw [List.getD_eq_getElem _ _ hlastStep, List.getD_eq_getElem _ _ (by omega), hnodup.getElem_inj_iff]
  rw [buildSparseChain, getBlockHeight_getElem hnodup hh]
  simp only [hend, hsteps, List.getLast?_map, getLast?_powerSteps, Option.map_some, Option.some.injEq, hgenesis]
  unfold sparseHeights
  split <;> simp

/-! ## Finding the supplement -/

/-- A search through `map`ped values that are found exactly where `p` holds. -/
theorem findSome?_eq_map_find? {β : Type} (l : List ℕ) (g : ℕ → Option β) (p : ℕ → Bool) (φ : ℕ → β)
    (hg : ∀ x ∈ l, g x = if p x then some (φ x) else none) :
    l.findSome? g = (l.find? p).map φ := by
  induction l with
  | nil => rfl
  | cons x xs ih =>
    rw [List.findSome?_cons, List.find?_cons, hg x List.mem_cons_self]
    have ih' := ih fun y hy => hg y (List.mem_cons_of_mem x hy)
    cases hp : p x
    · simpa using ih'
    · simp

section Fork

variable {A B : List Hash} {f : ℕ}

/-- Below the fork the two chains agree, and above it `A` holds none of `B`'s
ids: `A` finds `B`'s id at height `x` exactly when `x ≤ f`. -/
theorem getBlockHeight_fork (hA : A.Nodup) (hfA : f < A.length) (hshare : A.take (f + 1) = B.take (f + 1))
    (hfresh : ∀ j (hj : j < B.length), f < j → B[j] ∉ A) {x : ℕ} (hx : x < B.length) :
    getBlockHeight A (B.getD x default) = if x ≤ f then some x.toUInt32 else none := by
  rw [List.getD_eq_getElem _ _ hx]
  split
  · next hle =>
    have hxA : x < A.length := by omega
    have hsame : B[x] = A[x] := by
      have := congrArg (fun l : List Hash => l[x]?) hshare
      simp only [List.getElem?_take, if_pos (show x < f + 1 by omega)] at this
      rw [List.getElem?_eq_getElem hxA, List.getElem?_eq_getElem hx] at this
      exact (Option.some.inj this).symm
    rw [hsame, getBlockHeight_getElem hA hxA]
  · next hgt => exact getBlockHeight_of_not_mem (hfresh x hx (by omega))

/-- `A` answers `B`'s sparse chain with the first of its heights at or below
the fork. -/
theorem findSupplement_eq (hA : A.Nodup) (hfA : f < A.length) (hshare : A.take (f + 1) = B.take (f + 1))
    (hfresh : ∀ j (hj : j < B.length), f < j → B[j] ∉ A) (hpos : 0 < B.length) :
    findSupplement A ((sparseHeights B.length).map (B.getD · default)) =
      ((sparseHeights B.length).find? fun x => decide (x ≤ f)).map Nat.toUInt32 := by
  rw [findSupplement, List.findSome?_map]
  apply findSome?_eq_map_find?
  intro x hx
  rw [Function.comp_apply, getBlockHeight_fork hA hfA hshare hfresh (lt_of_mem_sparseHeights hpos hx)]
  simp

end Fork

/-! ## Chains for the examples -/

/-- A made-up id for height `n`: the bytes of `n`, low first. -/
def heightId (n : ℕ) : Hash := ⟨Vector.ofFn fun i : Fin 32 => UInt8.ofNat (n / 256 ^ i.val)⟩

theorem heightId_injOn {m n : ℕ} (hm : m < 2 ^ 40) (hn : n < 2 ^ 40) (h : heightId m = heightId n) : m = n := by
  have hbyte : ∀ i : Fin 32, m / 256 ^ i.val % 256 = n / 256 ^ i.val % 256 := by
    intro i
    have := congrArg (fun x : Hash => (x.data[i.val]).toNat) h
    simpa [heightId, UInt8.toNat_ofNat] using this
  have h0 := hbyte 0
  have h1 := hbyte 1
  have h2 := hbyte 2
  have h3 := hbyte 3
  have h4 := hbyte 4
  simp only [Fin.val_zero, Fin.val_one, Fin.val_two, pow_zero, pow_one, Nat.div_one] at h0 h1 h2 h3 h4
  norm_num at h2 h3 h4
  omega

/-! ## Synchronisation from a sparse chain -/

/-- **Synchronisation.** For two chains of distinct ids that agree on their
first `f + 1` ids, `B` of fewer than `2 ^ 32`, where `A` holds none of `B`'s
later ids: `A` finds a height `o ≤ f` in `B`'s sparse chain from its tip, where
the chains agree, at most as far below the fork as `B`'s tip is above it; and
the sparse chain of the id at height `h` lists the ids at `h + 1 - 2 ^ k` for
every `2 ^ k ≤ h + 1`, then the genesis id unless it is last. -/
theorem findSupplement_buildSparseChain (A B : List Hash) (hA : A.Nodup) (hB : B.Nodup) (hlen : B.length < 2 ^ 32)
    (f : ℕ) (hfA : f < A.length) (hfB : f < B.length) (hshare : A.take (f + 1) = B.take (f + 1))
    (hfresh : ∀ j (hj : j < B.length), f < j → B[j] ∉ A) :
    (∃ o, findSupplement A (buildSparseChain B (B.getD (B.length - 1) default)) = some o.toUInt32 ∧ o ≤ f ∧
        A.getD o default = B.getD o default ∧ f - o ≤ (B.length - 1) - f) ∧
      ∀ h (hh : h < B.length), buildSparseChain B B[h] =
        ((List.range (Nat.log 2 (h + 1) + 1)).map fun k => B.getD (h + 1 - 2 ^ k) default) ++
          if h + 1 - 2 ^ Nat.log 2 (h + 1) = 0 then [] else [B.getD 0 default] := by
  refine ⟨?_, fun h hh => ?_⟩
  · have htip : B.getD (B.length - 1) default = B[B.length - 1] := List.getD_eq_getElem _ _ (by omega)
    have hchain := buildSparseChain_eq hB hlen (show B.length - 1 < B.length by omega)
    rw [Nat.sub_add_cancel (by omega)] at hchain
    obtain ⟨o, hfind, hbound⟩ := find?_sparseHeights (show f < B.length from hfB)
    have hle : o ≤ f := by simpa using List.find?_some hfind
    refine ⟨o, ?_, hle, ?_, hbound⟩
    · rw [htip, hchain, findSupplement_eq hA hfA hshare hfresh (by omega), hfind, Option.map_some]
    · -- below the fork the chains agree
      have := congrArg (fun l : List Hash => l.getD o default) hshare
      simpa [List.getD_eq_getElem?_getD, List.getElem?_take, show o < f + 1 by omega] using this
  · rw [buildSparseChain_eq hB hlen hh, sparseHeights, powerSteps]
    split <;> simp [Function.comp_def]

/-- Two chains forking after height `1`: six blocks, and the first two of
them with a block of its own. -/
def sampleMain : List Hash := (List.range 6).map heightId

def sampleFork : List Hash := [heightId 0, heightId 1, heightId 100]

theorem findSupplement_buildSparseChain_sampleFork :
    ∃ o, findSupplement sampleFork (buildSparseChain sampleMain (sampleMain.getD (sampleMain.length - 1) default)) =
        some o.toUInt32 ∧ o ≤ 1 ∧ sampleFork.getD o default = sampleMain.getD o default ∧
        1 - o ≤ (sampleMain.length - 1) - 1 :=
  (findSupplement_buildSparseChain sampleFork sampleMain (by decide) (by decide) (by decide) 1 (by decide) (by decide)
    (by decide) (by decide)).1

/-! ## From `2 ^ 32` blocks on -/

/-- A chain of `2 ^ 32 + 1` made-up blocks. -/
def tallChain : List Hash := (List.range (2 ^ 32 + 1)).map heightId

theorem tallChain_nodup : tallChain.Nodup := by
  apply List.Nodup.map_on _ List.nodup_range
  intro m hm n hn h
  exact heightId_injOn (by simp at hm; omega) (by simp at hn; omega) h

/-- At height `2 ^ 32` the height wraps to `0` in `uint32_t`: the sparse chain
of the tip of `tallChain` is the genesis id alone, and a node holding the same
chain answers it with height `0`, `2 ^ 32` below the fork at the tip. -/
theorem buildSparseChain_wraps_at_two_pow_32 :
    tallChain.Nodup ∧ tallChain.length = 2 ^ 32 + 1 ∧
      buildSparseChain tallChain (tallChain.getD (2 ^ 32) default) = [tallChain.getD 0 default] ∧
      findSupplement tallChain (buildSparseChain tallChain (tallChain.getD (2 ^ 32) default)) = some 0 ∧
      tallChain.getD (2 ^ 32) default ≠ tallChain.getD 0 default := by
  have hlen : tallChain.length = 2 ^ 32 + 1 := by simp [tallChain]
  have htip : tallChain.getD (2 ^ 32) default = tallChain[2 ^ 32] := List.getD_eq_getElem _ _ (by omega)
  have hgen : tallChain.getD 0 default = tallChain[0] := List.getD_eq_getElem _ _ (by omega)
  -- the tip's height `2 ^ 32` is `0` as a `uint32_t`
  have hheight : getBlockHeight tallChain (tallChain.getD (2 ^ 32) default) = some 0 := by
    rw [htip, getBlockHeight_getElem tallChain_nodup]
    rfl
  have hchain : buildSparseChain tallChain (tallChain.getD (2 ^ 32) default) = [tallChain.getD 0 default] := by
    rw [buildSparseChain, hheight]
    simp [buildSparseChain.loop]
  refine ⟨tallChain_nodup, hlen, hchain, ?_, ?_⟩
  · rw [hchain, findSupplement, List.findSome?_singleton, hgen, getBlockHeight_getElem tallChain_nodup]
    rfl
  · rw [htip, hgen, Ne, tallChain_nodup.getElem_inj_iff]
    norm_num

end BlockIndex

end Cn
