import ConcealCore.Spec.Blockchain

/-!
# The deposit index holds the prefix sums of the surviving blocks

`DepositIndex` counts the blocks pushed and not popped, and keeps an entry with
the running deposited amount and the running paid interest at each of them
whose amount is not zero. A query at a height reads the last entry at or below
it, which `std::upper_bound` finds by bisection.

Every index the operations reach from the empty one is `replay L`, the index
that pushing the surviving blocks `L` in order builds (`run_eq_replay`): a pop
undoes the last push, and `popBlocks from` leaves the replay of the first
`from` blocks. A replay's entries are sorted by height and below its block
count (`replay_sorted`), so the bisection finds the leading run of entries at
or below the height, and every query is a prefix sum of `L` (`run_queries`).
The interest sums skip each block whose amount is zero: such a block gets no
entry, and the next entry adds its own interest to the last entry's.
-/

namespace Cn

/-- On a list where an element satisfying `p` is preceded only by such
elements, the leading run of `p` is all of them. -/
theorem takeWhile_eq_filter_of_pairwise {α : Type} {p : α → Bool} {l : List α}
    (h : l.Pairwise (fun a b => p b → p a)) : l.takeWhile p = l.filter p := by
  induction l with
  | nil => rfl
  | cons a l ih =>
    rw [List.pairwise_cons] at h
    by_cases ha : p a
    · rw [List.takeWhile_cons_of_pos ha, List.filter_cons_of_pos ha, ih h.2]
    · rw [List.takeWhile_cons_of_neg ha, List.filter_cons_of_neg ha, eq_comm, List.filter_eq_nil_iff]
      exact fun b hb hpb => ha (h.1 b hb hpb)

namespace DepositIndex

attribute [ext] DepositIndex

/-! ## One push -/

theorem index_pushBlock (d : DepositIndex) (amount : Int64) (interest : UInt64) :
    (d.pushBlock amount interest).index = if amount ≠ 0 then
      d.index ++ [⟨d.blockCount, amount + d.fullDepositAmount, interest + d.fullInterestAmount⟩]
    else d.index := by
  unfold pushBlock fullDepositAmount fullInterestAmount
  cases d.index.getLast? <;> rfl

@[simp] theorem blockCount_pushBlock (d : DepositIndex) (amount : Int64) (interest : UInt64) :
    (d.pushBlock amount interest).blockCount = d.blockCount + 1 := rfl

/-- A pop undoes a push, on an index whose entries are all below its count. -/
theorem popBlock_pushBlock {d : DepositIndex} (hd : ∀ e ∈ d.index, e.height ≠ d.blockCount)
    (amount : Int64) (interest : UInt64) : (d.pushBlock amount interest).popBlock = d := by
  obtain ⟨index, blockCount⟩ := d
  unfold popBlock
  rw [index_pushBlock, blockCount_pushBlock, UInt32.add_sub_cancel]
  by_cases ha : amount ≠ 0
  · simp [ha]
  · rw [if_neg ha]
    -- the last entry, if any, is below the count and stays
    cases hl : index.getLast? with
    | none => rfl
    | some e => simp [hd e (List.mem_of_getLast? hl)]

/-! ## Replaying the surviving blocks -/

/-- The index that pushing the blocks `L` in order on an empty index builds. -/
def replay (L : List (Int64 × UInt64)) : DepositIndex :=
  L.foldl (fun d p => d.pushBlock p.1 p.2) ⟨[], 0⟩

@[simp] theorem replay_nil : replay [] = ⟨[], 0⟩ := rfl

@[simp] theorem replay_append_singleton (L : List (Int64 × UInt64)) (p : Int64 × UInt64) :
    replay (L ++ [p]) = (replay L).pushBlock p.1 p.2 := by
  unfold replay
  rw [List.foldl_append]
  rfl

theorem blockCount_replay (L : List (Int64 × UInt64)) : (replay L).blockCount = L.length.toUInt32 := by
  induction L using List.reverseRecOn with
  | nil => rfl
  | append_singleton L p ih => simp [ih]

theorem toNat_blockCount_replay {L : List (Int64 × UInt64)} (hL : L.length < 2 ^ 32) :
    (replay L).blockCount.toNat = L.length := by
  rw [blockCount_replay]
  simp only [Nat.toUInt32, UInt32.toNat_ofNat']
  omega

/-- Every entry of a replay is at one of its blocks. -/
theorem height_lt_of_mem_replay {L : List (Int64 × UInt64)} (hL : L.length < 2 ^ 32) :
    ∀ e ∈ (replay L).index, e.height.toNat < L.length := by
  induction L using List.reverseRecOn with
  | nil => simp
  | append_singleton L p ih =>
    have hL' : L.length < 2 ^ 32 := by simp at hL; omega
    intro e he
    rw [replay_append_singleton, index_pushBlock] at he
    simp only [List.length_append, List.length_singleton]
    split at he
    · rcases List.mem_append.1 he with he | he
      · exact Nat.lt_succ_of_lt (ih hL' e he)
      · rw [List.mem_singleton.1 he, toNat_blockCount_replay hL']
        omega
    · exact Nat.lt_succ_of_lt (ih hL' e he)

theorem height_ne_of_mem_replay {L : List (Int64 × UInt64)} (hL : L.length < 2 ^ 32) :
    ∀ e ∈ (replay L).index, e.height ≠ (replay L).blockCount := by
  intro e he h
  have := height_lt_of_mem_replay hL e he
  rw [h, toNat_blockCount_replay hL] at this
  omega

/-- **The index stays sorted.** The entries of a replay increase strictly in
height, which `std::upper_bound` needs of the range it bisects. -/
theorem replay_sorted {L : List (Int64 × UInt64)} (hL : L.length < 2 ^ 32) :
    (replay L).index.Pairwise (fun e e' => e.height < e'.height) := by
  induction L using List.reverseRecOn with
  | nil => simp
  | append_singleton L p ih =>
    have hL' : L.length < 2 ^ 32 := by simp at hL; omega
    rw [replay_append_singleton, index_pushBlock]
    split
    · refine List.pairwise_append.2 ⟨ih hL', List.pairwise_singleton _ _, ?_⟩
      -- the new entry is at the count, above every entry before it
      intro e he e' he'
      rw [List.mem_singleton.1 he', UInt32.lt_iff_toNat_lt, toNat_blockCount_replay hL']
      exact height_lt_of_mem_replay hL' e he
    · exact ih hL'

theorem fullDepositAmount_replay (L : List (Int64 × UInt64)) :
    (replay L).fullDepositAmount = (L.map Prod.fst).sum := by
  induction L using List.reverseRecOn with
  | nil => rfl
  | append_singleton L p ih =>
    rw [List.map_append, List.sum_append, List.map_singleton, List.sum_singleton, ← ih,
      replay_append_singleton]
    unfold fullDepositAmount
    rw [index_pushBlock]
    by_cases ha : p.1 ≠ 0
    · rw [if_pos ha, List.getLast?_concat, Int64.add_comm]
      rfl
    · rw [if_neg ha, not_not.1 ha, Int64.add_zero]

/-- The running interest is the interest of the blocks whose amount is not zero. -/
theorem fullInterestAmount_replay (L : List (Int64 × UInt64)) :
    (replay L).fullInterestAmount = ((L.filter (fun p => p.1 ≠ 0)).map Prod.snd).sum := by
  induction L using List.reverseRecOn with
  | nil => rfl
  | append_singleton L p ih =>
    rw [List.filter_append, replay_append_singleton]
    unfold fullInterestAmount
    rw [index_pushBlock]
    by_cases ha : p.1 ≠ 0
    · rw [if_pos ha, List.getLast?_concat, List.filter_singleton, decide_eq_true ha, cond_true,
        List.map_append, List.sum_append, List.map_singleton, List.sum_singleton, ← ih, UInt64.add_comm]
    · rw [if_neg ha, List.filter_singleton, decide_eq_false ha, cond_false, List.append_nil, ← ih]
      rfl

/-- The entries of a replay below height `k` are those of the replay of its
first `k` blocks. -/
theorem filter_replay {L : List (Int64 × UInt64)} (hL : L.length < 2 ^ 32) (k : ℕ) :
    (replay L).index.filter (fun e => e.height.toNat < k) = (replay (L.take k)).index := by
  induction L using List.reverseRecOn with
  | nil => simp
  | append_singleton L p ih =>
    have hL' : L.length < 2 ^ 32 := by simp at hL; omega
    by_cases hk : k ≤ L.length
    · -- the new block is at or above `k`: its entry, if any, is filtered out
      rw [List.take_append_of_le_length hk, ← ih hL', replay_append_singleton, index_pushBlock]
      split
      · rw [List.filter_append, List.filter_singleton, toNat_blockCount_replay hL',
          decide_eq_false (by omega), cond_false, List.append_nil]
      · rfl
    · -- every block is below `k`
      rw [List.take_of_length_le (by simp; omega), List.filter_eq_self]
      intro e he
      have := height_lt_of_mem_replay hL e he
      simp only [List.length_append, List.length_singleton] at this
      exact decide_eq_true (by omega)

/-- The leading run of entries at or below `height`, which `upperBound`
measures, is the replay of the blocks up to `height`. -/
theorem takeWhile_replay {L : List (Int64 × UInt64)} (hL : L.length < 2 ^ 32) (height : UInt32) :
    (replay L).index.takeWhile (fun e => e.height ≤ height) = (replay (L.take (height.toNat + 1))).index := by
  rw [takeWhile_eq_filter_of_pairwise, ← filter_replay hL]
  · apply List.filter_congr
    intro e _
    simp only [UInt32.le_iff_toNat_le]
    exact decide_eq_decide.2 Nat.lt_succ_iff.symm
  · refine (replay_sorted hL).imp ?_
    intro e e' hlt hle
    have h₁ := UInt32.lt_iff_toNat_lt.1 hlt
    have h₂ := UInt32.le_iff_toNat_le.1 (of_decide_eq_true hle)
    exact decide_eq_true (UInt32.le_iff_toNat_le.2 (by omega))

theorem take_upperBound (d : DepositIndex) (height : UInt32) :
    d.index.take (d.upperBound height) = d.index.takeWhile (fun e => e.height ≤ height) :=
  (List.prefix_iff_eq_take.1 (List.takeWhile_prefix _)).symm

/-! ## The operations on a replay -/

theorem pushBlock_replay (L : List (Int64 × UInt64)) (amount : Int64) (interest : UInt64) :
    (replay L).pushBlock amount interest = replay (L ++ [(amount, interest)]) := by
  rw [replay_append_singleton]

theorem popBlock_replay {L : List (Int64 × UInt64)} (hL : L.length < 2 ^ 32) (hne : L ≠ []) :
    (replay L).popBlock = replay L.dropLast := by
  obtain ⟨L', p, rfl⟩ : ∃ L' p, L = L' ++ [p] :=
    ⟨L.dropLast, L.getLast hne, (List.dropLast_append_getLast hne).symm⟩
  have hL' : L'.length < 2 ^ 32 := by simp at hL; omega
  rw [replay_append_singleton, popBlock_pushBlock (height_ne_of_mem_replay hL'), List.dropLast_concat]

/-- The entries at or below `k` of a replay: those of its first `k` blocks, and
block `k`'s own if it has one. -/
theorem takeWhile_replay_of_lt {L : List (Int64 × UInt64)} (hL : L.length < 2 ^ 32) {k : UInt32}
    (hk : k.toNat < L.length) :
    (replay L).index.takeWhile (fun e => e.height ≤ k) =
      ((replay (L.take k.toNat)).pushBlock L[k.toNat].1 L[k.toNat].2).index := by
  rw [takeWhile_replay hL, List.take_succ_eq_append_getElem hk, replay_append_singleton]

/-- **`popBlocks` keeps the first `from` blocks.** The step back from the upper
bound erases the entry of block `from` exactly when there is one. -/
theorem popBlocks_replay {L : List (Int64 × UInt64)} (hL : L.length < 2 ^ 32) (fromHeight : UInt32) :
    ((replay L).popBlocks fromHeight).1 = replay (L.take fromHeight.toNat) := by
  unfold popBlocks
  by_cases hge : fromHeight ≥ (replay L).blockCount
  · rw [if_pos hge, List.take_of_length_le]
    rw [ge_iff_le, UInt32.le_iff_toNat_le, toNat_blockCount_replay hL] at hge
    exact hge
  · rw [if_neg hge]
    rw [ge_iff_le, UInt32.le_iff_toNat_le, toNat_blockCount_replay hL, not_le] at hge
    have hL' : (L.take fromHeight.toNat).length < 2 ^ 32 := by simp; omega
    have hcount : (replay (L.take fromHeight.toNat)).blockCount = fromHeight := by
      apply UInt32.toNat_inj.1
      rw [toNat_blockCount_replay hL', List.length_take]
      omega
    have hP := takeWhile_replay_of_lt hL hge
    -- the upper bound ends the run at or below `from`, which ends with block `from`'s entry if any
    have hub : (replay L).upperBound fromHeight =
        ((replay (L.take fromHeight.toNat)).pushBlock L[fromHeight.toNat].1 L[fromHeight.toNat].2).index.length := by
      unfold upperBound
      rw [hP]
    have hrun := take_upperBound (replay L) fromHeight
    rw [hub, hP] at hrun
    have hQ := height_ne_of_mem_replay hL'
    rw [hcount] at hQ
    ext1
    · dsimp only
      rw [hub, hrun, index_pushBlock]
      rw [index_pushBlock] at hrun
      by_cases ha : L[fromHeight.toNat].1 ≠ 0
      · -- block `from` has an entry, at `from`: step back onto it
        rw [if_pos ha] at hrun ⊢
        rw [List.getLast?_concat]
        dsimp only
        rw [hcount, if_neg (not_not.2 rfl), List.length_append, List.length_singleton, Nat.add_sub_cancel]
        have h := congrArg (List.take (replay (L.take fromHeight.toNat)).index.length) hrun
        rw [List.take_take, List.length_append, List.length_singleton,
          min_eq_left (Nat.le_succ _), List.take_left] at h
        exact h
      · -- block `from` has none: the run ends below `from` and stays
        rw [if_neg ha] at hrun ⊢
        cases hl : (replay (L.take fromHeight.toNat)).index.getLast? with
        | none => exact hrun
        | some e =>
          dsimp only
          rw [if_pos (hQ e (List.mem_of_getLast? hl))]
          exact hrun
    · -- `blockCount -= blockCount - from` leaves `from`
      show (replay L).blockCount - ((replay L).blockCount - fromHeight) =
        (replay (L.take fromHeight.toNat)).blockCount
      have hle : fromHeight ≤ (replay L).blockCount := by
        rw [UInt32.le_iff_toNat_le, toNat_blockCount_replay hL]
        omega
      rw [hcount]
      apply UInt32.toNat_inj.1
      rw [UInt32.toNat_sub_of_le _ _ (UInt32.sub_le hle), UInt32.toNat_sub_of_le _ _ hle,
        toNat_blockCount_replay hL]
      omega

/-! ## The queries on a replay -/

theorem eq_nil_of_blockCount_replay {L : List (Int64 × UInt64)} (hL : L.length < 2 ^ 32)
    (h0 : (replay L).blockCount = 0) : L = [] := by
  have h := toNat_blockCount_replay hL
  rw [h0] at h
  exact List.eq_nil_of_length_eq_zero h.symm

/-- `depositAmountAtHeight(height)` on a replay: the amounts of the blocks up to
`height`, all of them above the last. -/
theorem depositAmountAtHeight_replay {L : List (Int64 × UInt64)} (hL : L.length < 2 ^ 32) (height : UInt32) :
    (replay L).depositAmountAtHeight height = ((L.take (height.toNat + 1)).map Prod.fst).sum := by
  unfold depositAmountAtHeight
  by_cases h0 : (replay L).blockCount = 0
  · rw [if_pos h0, eq_nil_of_blockCount_replay hL h0]
    rfl
  · rw [if_neg h0, take_upperBound, takeWhile_replay hL, ← fullDepositAmount_replay]
    rfl

/-- `depositInterestAtHeight(height)` on a replay: the interest of the blocks up
to `height` whose amount is not zero. -/
theorem depositInterestAtHeight_replay {L : List (Int64 × UInt64)} (hL : L.length < 2 ^ 32) (height : UInt32) :
    (replay L).depositInterestAtHeight height =
      (((L.take (height.toNat + 1)).filter (fun p => p.1 ≠ 0)).map Prod.snd).sum := by
  unfold depositInterestAtHeight
  by_cases h0 : (replay L).blockCount = 0
  · rw [if_pos h0, eq_nil_of_blockCount_replay hL h0]
    rfl
  · rw [if_neg h0, take_upperBound, takeWhile_replay hL, ← fullInterestAmount_replay]
    rfl

/-! ## Runs of operations -/

/-- The calls that change a `DepositIndex`. -/
inductive Op
  | pushBlock (amount : Int64) (interest : UInt64)
  | popBlock
  | popBlocks (fromHeight : UInt32)
deriving Repr, DecidableEq

namespace Op

/-- One call on the index. -/
@[grind] def apply : Op → DepositIndex → DepositIndex
  | pushBlock amount interest, d => d.pushBlock amount interest
  | popBlock, d => d.popBlock
  | popBlocks fromHeight, d => (d.popBlocks fromHeight).1

/-- What a call leaves of the blocks pushed: a push appends its block, a pop
removes the last one, `popBlocks(from)` keeps the first `from`. -/
def survivors : Op → List (Int64 × UInt64) → List (Int64 × UInt64)
  | pushBlock amount interest, L => L ++ [(amount, interest)]
  | popBlock, L => L.dropLast
  | popBlocks fromHeight, L => L.take fromHeight.toNat

/-- The calls the callers make: `popBlock()` only while `size() > 0`, and a push
only while the `uint32_t` count has room for it. -/
def admitted : Op → List (Int64 × UInt64) → Bool
  | pushBlock _ _, L => L.length + 1 < 2 ^ 32
  | popBlock, L => !L.isEmpty
  | popBlocks _, _ => true

/-- **One call on a replay is the replay of what it leaves.** -/
theorem apply_replay {o : Op} {L : List (Int64 × UInt64)} (hL : L.length < 2 ^ 32)
    (ho : o.admitted L = true) : o.apply (replay L) = replay (o.survivors L) := by
  cases o with
  | pushBlock amount interest => exact pushBlock_replay L amount interest
  | popBlock => exact popBlock_replay hL (by simpa [admitted] using ho)
  | popBlocks fromHeight => exact popBlocks_replay hL fromHeight

theorem length_survivors_lt {o : Op} {L : List (Int64 × UInt64)} (hL : L.length < 2 ^ 32)
    (ho : o.admitted L = true) : (o.survivors L).length < 2 ^ 32 := by
  cases o with
  | pushBlock amount interest => simpa [admitted, survivors] using ho
  | popBlock =>
    simp only [survivors, List.length_dropLast]
    omega
  | popBlocks fromHeight =>
    simp only [survivors, List.length_take]
    omega

end Op

/-- Every call of `ops` is admitted where it is made, from the blocks `L`. -/
def admits : List (Int64 × UInt64) → List Op → Bool
  | _, [] => true
  | L, o :: ops => o.admitted L && admits (o.survivors L) ops

/-- The index after the calls `ops`, from the empty one. -/
def run (ops : List Op) : DepositIndex := ops.foldl (fun d o => o.apply d) ⟨[], 0⟩

/-- The blocks that survive the calls `ops`. -/
def survivorsOf (ops : List Op) : List (Int64 × UInt64) := ops.foldl (fun L o => o.survivors L) []

/-- The run lemma: admitted calls from a replay keep it a replay, with room in the count. -/
theorem foldl_apply_replay (ops : List Op) {L : List (Int64 × UInt64)} (hL : L.length < 2 ^ 32)
    (hops : admits L ops = true) :
    ops.foldl (fun d o => o.apply d) (replay L) = replay (ops.foldl (fun L o => o.survivors L) L) ∧
      (ops.foldl (fun L o => o.survivors L) L).length < 2 ^ 32 := by
  induction ops generalizing L with
  | nil => exact ⟨rfl, hL⟩
  | cons o ops ih =>
    simp only [admits, Bool.and_eq_true] at hops
    rw [List.foldl_cons, List.foldl_cons, Op.apply_replay hL hops.1]
    exact ih (Op.length_survivors_lt hL hops.1) hops.2

/-- **Every reachable index is the replay of its surviving blocks.** -/
theorem run_eq_replay (ops : List Op) (hops : admits [] ops = true) :
    run ops = replay (survivorsOf ops) ∧ (survivorsOf ops).length < 2 ^ 32 :=
  foldl_apply_replay ops (by decide : ([] : List (Int64 × UInt64)).length < 2 ^ 32) hops

/-- **What the index answers after any calls.** The count is the number of
surviving blocks and the amounts are their prefix sums; the interest sums count
only the blocks whose amount is not zero. -/
theorem run_queries (ops : List Op) (hops : admits [] ops = true) (height : UInt32) :
    (run ops).size.toNat = (survivorsOf ops).length ∧
    (run ops).depositAmountAtHeight height = (((survivorsOf ops).take (height.toNat + 1)).map Prod.fst).sum ∧
    (run ops).depositInterestAtHeight height =
      ((((survivorsOf ops).take (height.toNat + 1)).filter (fun p => p.1 ≠ 0)).map Prod.snd).sum ∧
    (run ops).fullDepositAmount = ((survivorsOf ops).map Prod.fst).sum ∧
    (run ops).fullInterestAmount = (((survivorsOf ops).filter (fun p => p.1 ≠ 0)).map Prod.snd).sum := by
  obtain ⟨hrun, hL⟩ := run_eq_replay ops hops
  rw [hrun]
  exact ⟨toNat_blockCount_replay hL, depositAmountAtHeight_replay hL height,
    depositInterestAtHeight_replay hL height, fullDepositAmount_replay _, fullInterestAmount_replay _⟩

/-- **A block whose amount is zero loses its interest.** A block with a
deposit of 10 and interest 1, then a block whose withdrawals and new deposits
cancel and that pays interest 5: the index answers 1 for the interest at and
after the second block, of the 6 paid. -/
theorem zero_amount_block_loses_interest :
    (run [.pushBlock 10 1, .pushBlock 0 5]).fullInterestAmount = 1 ∧
    (run [.pushBlock 10 1, .pushBlock 0 5]).depositInterestAtHeight 1 = 1 ∧
    ((survivorsOf [.pushBlock 10 1, .pushBlock 0 5]).map Prod.snd).sum = 6 := by
  have h := run_queries [.pushBlock 10 1, .pushBlock 0 5] (by decide) 1
  exact ⟨h.2.2.2.2.trans (by decide), h.2.2.1.trans (by decide), by decide⟩

end DepositIndex

end Cn
