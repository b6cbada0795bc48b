import ConcealCore.Spec.Blockchain

/-!
# Rolling the chain back

`rollbackBlockchainTo` removes blocks with `removeLastBlock`, which takes a
block's transactions out of the caches and the block out of `m_blocks` and the
block index, but, unlike `popBlock`, never calls `m_depositIndex.popBlock()`.

* `removeLastBlock_depositIndex_of_ok`, `rollbackLoop_depositIndex`: whatever
  the outcome, the deposit index is left as it is.
* `rollbackLoop_length`: a loop that returns `true` leaves `height + 1` blocks.
* `rollbackBlockchainTo_desyncs_depositIndex`: so a successful rollback of at
  least one block breaks `m_depositIndex.size() == m_blocks.size()`.
-/

namespace Cn

namespace Blockchain

variable {c : Crypto} {s s' : Blockchain}

theorem removeLastBlock_depositIndex_of_ok {b : Bool} (h : removeLastBlock c s = .ok (b, s')) :
    s'.depositIndex = s.depositIndex := by
  unfold removeLastBlock at h
  split at h
  · simp only [Except.ok.injEq, Prod.mk.injEq] at h
    rw [← h.2]
  · split at h
    · cases h
    · simp only [Except.ok.injEq, Prod.mk.injEq] at h
      rw [← h.2]

theorem removeLastBlock_depositIndex_of_error (h : removeLastBlock c s = .error s') :
    s'.depositIndex = s.depositIndex := by
  unfold removeLastBlock at h
  split at h
  · cases h
  · split at h
    · simp only [Except.error.injEq] at h
      rw [← h]
    · cases h

/-- A removal that reports success drops the last block. -/
theorem removeLastBlock_blocks_of_ok (h : removeLastBlock c s = .ok (true, s')) :
    s'.blocks = s.blocks.dropLast := by
  unfold removeLastBlock at h
  split at h
  · simp at h
  · split at h
    · cases h
    · simp only [Except.ok.injEq, Prod.mk.injEq] at h
      rw [← h.2]

/-- **The rollback loop keeps the deposit index**, on every path: the loop ends,
`removeLastBlock` reports an empty chain, or `popTransactions` throws. -/
theorem rollbackLoop_depositIndex (height : UInt32) (fuel : Nat) (s : Blockchain) :
    (rollbackLoop c height fuel s).2.depositIndex = s.depositIndex := by
  induction fuel generalizing s with
  | zero => rfl
  | succ fuel ih =>
    rw [rollbackLoop]
    split
    · split
      · rename_i s' h
        rw [ih, removeLastBlock_depositIndex_of_ok h]
      · rename_i s' h
        exact removeLastBlock_depositIndex_of_ok h
      · rename_i s' h
        exact removeLastBlock_depositIndex_of_error h
    · rfl

/-- **A successful rollback loop leaves `m` blocks**, `m` being `height + 1`,
when it starts from at least `m` blocks and its fuel covers the excess. -/
theorem rollbackLoop_length {height : UInt32} {m : Nat} (hm : (height + 1).toUInt64.toNat = m) :
    ∀ fuel s, s.blocks.length < 2 ^ 64 → m ≤ s.blocks.length → s.blocks.length ≤ fuel + m →
      (rollbackLoop c height fuel s).1 = true → (rollbackLoop c height fuel s).2.blocks.length = m := by
  intro fuel
  induction fuel with
  | zero =>
    intro s _ hge hle _
    simp only [rollbackLoop]
    omega
  | succ fuel ih =>
    intro s hlt hge hle hok
    rw [rollbackLoop] at hok ⊢
    by_cases hgt : s.blocks.length.toUInt64 > (height + 1).toUInt64
    · rw [if_pos hgt] at hok ⊢
      have hgt' : m < s.blocks.length := by
        rw [GT.gt, UInt64.lt_iff_toNat_lt] at hgt
        simp only [Nat.toUInt64_eq, UInt64.toNat_ofNat', Nat.reducePow] at hgt
        omega
      rcases hr : removeLastBlock c s with s' | ⟨_ | _, s'⟩
      · simp only [hr, Bool.false_eq_true] at hok
      · simp only [hr, Bool.false_eq_true] at hok
      · simp only [hr] at hok ⊢
        -- one block fewer: still at least `m`, and the fuel still covers the excess
        have hs' : s'.blocks.length = s.blocks.length - 1 := by
          rw [removeLastBlock_blocks_of_ok hr, List.length_dropLast]
        exact ih s' (by omega) (by omega) (by omega) hok
    · rw [if_neg hgt]
      have hle' : s.blocks.length ≤ m := by
        rw [GT.gt, UInt64.lt_iff_toNat_lt] at hgt
        simp only [Nat.toUInt64_eq, UInt64.toNat_ofNat', Nat.reducePow] at hgt
        omega
      simp only
      omega

/-- **Rolling back desynchronises the deposit index.** From a state where the
deposit index counts as many blocks as `m_blocks` holds, a rollback that
removes at least one block and reports success leaves the two sizes apart. -/
theorem rollbackBlockchainTo_desyncs_depositIndex (s : Blockchain) (height : UInt32)
    (hsize : s.depositIndex.size.toNat = s.blocks.length)
    (hheight : height.toNat + 1 < s.blocks.length)
    (hok : (s.rollbackBlockchainTo c height).1 = true) :
    (s.rollbackBlockchainTo c height).2.depositIndex.size.toNat ≠
      (s.rollbackBlockchainTo c height).2.blocks.length := by
  have hlen : s.blocks.length < 2 ^ 32 := hsize ▸ UInt32.toNat_lt _
  have hm : (height + 1).toUInt64.toNat = height.toNat + 1 := by
    simp only [UInt32.toNat_toUInt64, UInt32.toNat_add, UInt32.toNat_one]
    omega
  -- the early exit is not taken: `height` is below the current height
  have hbelow : ¬ height.toUInt64 ≥ s.blocks.length.toUInt64 := by
    rw [GE.ge, UInt64.le_iff_toNat_le]
    simp only [Nat.toUInt64_eq, UInt64.toNat_ofNat', UInt32.toNat_toUInt64, Nat.reducePow]
    omega
  unfold rollbackBlockchainTo at hok ⊢
  rw [if_neg hbelow] at hok ⊢
  rw [rollbackLoop_depositIndex, rollbackLoop_length hm _ _ (by omega) (by omega) (by omega) hok, hsize]
  omega

/-- A block holding only its coinbase, which pays nothing. -/
def coinbaseEntry (height : UInt32) : BlockEntry :=
  let tx : Transaction := { (default : Transaction) with version := 1, inputs := [.base ⟨height⟩] }
  { (default : BlockEntry) with
    bl := { (default : Block) with majorVersion := 1, baseTransaction := tx }
    height
    transactions := [⟨tx, []⟩] }

/-- The genesis block and one more, with the caches and the deposit index
`pushBlock` leaves. -/
def twoBlockChain : Blockchain :=
  { Blockchain.empty with
    transactionMap := fun h =>
      if h = transactionHash paddedCrypto (coinbaseEntry 0).bl.baseTransaction then some ⟨0, 0⟩
      else if h = transactionHash paddedCrypto (coinbaseEntry 1).bl.baseTransaction then some ⟨1, 0⟩
      else none
    blocks := [coinbaseEntry 0, coinbaseEntry 1]
    blockIndex := [getBlockHash paddedCrypto (coinbaseEntry 0).bl, getBlockHash paddedCrypto (coinbaseEntry 1).bl]
    depositIndex := ⟨[], 2⟩ }

/-- `rollbackBlockchainTo(0)` on the two-block chain succeeds and leaves one
block against a deposit index of two. -/
theorem rollbackBlockchainTo_desyncs_depositIndex_twoBlockChain :
    twoBlockChain.depositIndex.size.toNat = twoBlockChain.blocks.length ∧
      (0 : UInt32).toNat + 1 < twoBlockChain.blocks.length ∧
      (twoBlockChain.rollbackBlockchainTo paddedCrypto 0).1 = true ∧
      (twoBlockChain.rollbackBlockchainTo paddedCrypto 0).2.depositIndex.size.toNat ≠
        (twoBlockChain.rollbackBlockchainTo paddedCrypto 0).2.blocks.length :=
  have hsize : twoBlockChain.depositIndex.size.toNat = twoBlockChain.blocks.length := by decide
  have hheight : (0 : UInt32).toNat + 1 < twoBlockChain.blocks.length := by decide
  have hok : (twoBlockChain.rollbackBlockchainTo paddedCrypto 0).1 = true := by decide
  ⟨hsize, hheight, hok, rollbackBlockchainTo_desyncs_depositIndex twoBlockChain 0 hsize hheight hok⟩

end Blockchain

end Cn
