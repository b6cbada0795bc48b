import ConcealCore.Spec.TransactionCaches
import ConcealCore.Spec.Crypto
import ConcealCore.Spec.Interest
import ConcealCore.Spec.Difficulty

/-!
# The blockchain state and its block-level cache operations

`Blockchain` is the main chain (`m_blocks`, one `BlockEntry` per block with its
transactions and their global output indexes), the block index, the deposit
index, the alternative blocks and the four transaction caches. This module
holds the operations that move whole blocks in and out of the caches without
validating them: `pushBlock(const BlockEntry&)`, `popTransactions`,
`removeLastBlock` and `rollbackBlockchainTo`, `rebuildCache`, and the
difficulty of the next block, on the main chain and on an alternative one.

Exceptions keep the state the throw leaves: a function that can throw returns
`Except Blockchain Blockchain` (or a caller's catch turns the throw into its
result). The indexes that only serve queries (timestamps, generated
transactions, payment ids, orphans) are not modelled.
-/

namespace Cn

/-- `Blockchain::TransactionEntry`. -/
structure TransactionEntry where
  tx : Transaction
  globalOutputIndexes : List UInt32
deriving Repr, Inhabited

/-- `Blockchain::BlockEntry`. -/
structure BlockEntry where
  bl : Block
  height : UInt32
  blockCumulativeSize : UInt64
  cumulativeDifficulty : UInt64
  alreadyGeneratedCoins : UInt64
  transactions : List TransactionEntry
deriving Repr, Inhabited

/-- `DepositIndex::DepositIndexEntry`: the running totals after a block that
changed the deposits. -/
structure DepositIndexEntry where
  height : UInt32
  amount : Int64
  interest : UInt64
deriving Repr, Inhabited

/-- `DepositIndex`: an entry per block that changed the deposited amount, and
the number of blocks seen. -/
structure DepositIndex where
  index : List DepositIndexEntry
  blockCount : UInt32
deriving Repr, Inhabited

namespace DepositIndex

/-- `DepositIndex::pushBlock(amount, interest)`: an entry only when the amount
changes; the block is counted either way. -/
def pushBlock (d : DepositIndex) (amount : Int64) (interest : UInt64) : DepositIndex :=
  let (lastAmount, lastInterest) := match d.index.getLast? with
    | some e => (e.amount, e.interest)
    | none => (0, 0)
  { index := if amount ≠ 0 then d.index ++ [⟨d.blockCount, amount + lastAmount, interest + lastInterest⟩]
      else d.index
    blockCount := d.blockCount + 1 }

/-- `DepositIndex::popBlock()`: uncount the last block and drop its entry. -/
def popBlock (d : DepositIndex) : DepositIndex :=
  let blockCount := d.blockCount - 1
  { index := match d.index.getLast? with
      | some e => if e.height = blockCount then d.index.dropLast else d.index
      | none => d.index
    blockCount }

/-- `DepositIndex::size()`. -/
def size (d : DepositIndex) : UInt32 := d.blockCount

/-- `fullDepositAmount()`: the running amount of the last entry. -/
def fullDepositAmount (d : DepositIndex) : Int64 :=
  match d.index.getLast? with
  | some e => e.amount
  | none => 0

/-- `fullInterestAmount()`: the running interest of the last entry. -/
def fullInterestAmount (d : DepositIndex) : UInt64 :=
  match d.index.getLast? with
  | some e => e.interest
  | none => 0

/-- `upperBound(height)`: the position of the first entry above `height`.
`std::upper_bound` bisects the index for the point where `height < e.height`
starts to hold; on an index sorted by height that is the length of its leading
run of entries at or below `height`. -/
def upperBound (d : DepositIndex) (height : UInt32) : Nat :=
  (d.index.takeWhile (fun e => e.height ≤ height)).length

/-- `popBlocks(from)`: erase the entries from the upper bound of `from` on,
stepping back onto an entry exactly at `from` so that it goes too, and count
the blocks down to `from`; the number of blocks popped. -/
def popBlocks (d : DepositIndex) (fromHeight : UInt32) : DepositIndex × UInt32 :=
  if fromHeight ≥ d.blockCount then (d, 0)
  else
    let it := d.upperBound fromHeight
    let it := match (d.index.take it).getLast? with
      | some e => if e.height ≠ fromHeight then it else it - 1
      | none => it
    let diff := d.blockCount - fromHeight
    ({ index := d.index.take it, blockCount := d.blockCount - diff }, diff)

/-- `depositAmountAtHeight(height)`: the running amount of the last entry at or
below `height`. -/
def depositAmountAtHeight (d : DepositIndex) (height : UInt32) : Int64 :=
  if d.blockCount = 0 then 0
  else match (d.index.take (d.upperBound height)).getLast? with
    | some e => e.amount
    | none => 0

/-- `depositInterestAtHeight(height)`: the running interest of the last entry
at or below `height`. -/
def depositInterestAtHeight (d : DepositIndex) (height : UInt32) : UInt64 :=
  if d.blockCount = 0 then 0
  else match (d.index.take (d.upperBound height)).getLast? with
    | some e => e.interest
    | none => 0

@[simp] theorem size_pushBlock (d : DepositIndex) (amount : Int64) (interest : UInt64) :
    (d.pushBlock amount interest).size = d.size + 1 := rfl

@[simp] theorem size_popBlock (d : DepositIndex) : d.popBlock.size = d.size - 1 := rfl

end DepositIndex

/-- The state of `Blockchain` that the modelled operations read and write. -/
structure Blockchain extends Caches where
  blocks : List BlockEntry
  /-- `m_blockIndex`: the block hashes in chain order, each at most once. -/
  blockIndex : List Hash
  depositIndex : DepositIndex
  /-- `m_alternative_chains`. -/
  alternativeChains : Hash → Option BlockEntry
  /-- `m_current_block_cumul_sz_limit`. -/
  currentBlockCumulSzLimit : UInt64

/-- A freshly constructed `Blockchain`, before `init` pushes the genesis block. -/
@[grind] def Blockchain.empty : Blockchain :=
  { Caches.empty with
    blocks := []
    blockIndex := []
    depositIndex := ⟨[], 0⟩
    alternativeChains := fun _ => none
    currentBlockCumulSzLimit := 0 }

/-- `BlockIndex::push`: the index is `hashed_unique`, so a hash already there is
not pushed again. -/
def blockIndexPush (blockIndex : List Hash) (h : Hash) : List Hash :=
  if h ∈ blockIndex then blockIndex else blockIndex ++ [h]

namespace Blockchain

variable (c : Crypto) (cur : Currency)

/-- `getCurrentBlockchainHeight()`: the number of blocks, as the `uint32_t` it returns. -/
def getCurrentBlockchainHeight (s : Blockchain) : UInt32 := s.blocks.length.toUInt32

/-- `getTailId()`: the hash of the last block, `NULL_HASH` on an empty chain. -/
def getTailId (s : Blockchain) : Hash :=
  if s.blocks = [] then nullHash else s.blockIndex.getLast?.getD nullHash

/-- `pushToDepositIndex(block, interest)`: the change of the deposited amount
(new deposit outputs minus spent deposit inputs) as an `int64_t`. -/
def pushToDepositIndex (s : Blockchain) (block : BlockEntry) (interest : UInt64) : Blockchain :=
  let deposit : Int64 := block.transactions.foldl (fun deposit entry =>
    let deposit := entry.tx.inputs.foldl (fun deposit input =>
      match input with
      | .multisignature i => if i.term > 0 then deposit - i.amount.toInt64 else deposit
      | _ => deposit) deposit
    entry.tx.outputs.foldl (fun deposit output =>
      match output.target with
      | .multisignature o => if o.term > 0 then deposit + output.amount.toInt64 else deposit
      | _ => deposit) deposit) 0
  { s with depositIndex := s.depositIndex.pushBlock deposit interest }

/-- `pushBlock(const BlockEntry&)`: append the entry and its hash. -/
def pushBlockEntry (s : Blockchain) (block : BlockEntry) : Blockchain :=
  { s with blocks := s.blocks ++ [block], blockIndex := blockIndexPush s.blockIndex (getBlockHash c block.bl) }

/-- `popTransaction` of a list of transactions and hashes, in order, stopping at
the first throw. -/
def popTransactionList (caches : Caches) : List (Transaction × Hash) → Except Caches Caches
  | [] => .ok caches
  | (tx, h) :: rest =>
    match popTransaction caches tx h with
    | .ok caches => popTransactionList caches rest
    | .error caches => .error caches

/-- `popTransactions(block, minerTransactionHash)`: the transactions after the
coinbase from the last one down, each with its hash in `transactionHashes`,
then the coinbase. -/
def popTransactions (caches : Caches) (block : BlockEntry) (minerTransactionHash : Hash) :
    Except Caches Caches :=
  popTransactionList caches
    ((((block.transactions.drop 1).map (·.tx)).zip block.bl.transactionHashes).reverse ++
      [(block.bl.baseTransaction, minerTransactionHash)])

/-- `removeLastBlock()`: `false` on an empty chain; else the transactions of the
last block leave the caches and the block leaves `m_blocks` and the block
index. The deposit index is left as it is. A throw of `popTransactions` escapes. -/
@[grind] def removeLastBlock (s : Blockchain) : Except Blockchain (Bool × Blockchain) :=
  match s.blocks.getLast? with
  | none => .ok (false, s)
  | some last =>
    match popTransactions s.toCaches last (transactionHash c last.bl.baseTransaction) with
    | .error caches => .error { s with toCaches := caches }
    | .ok caches =>
      .ok (true, { s with toCaches := caches, blocks := s.blocks.dropLast, blockIndex := s.blockIndex.dropLast })

/-- The loop of `rollbackBlockchainTo`: remove blocks while more than
`height + 1` remain. `fuel` bounds the loop by the number of blocks. -/
def rollbackLoop (height : UInt32) : Nat → Blockchain → Bool × Blockchain
  | 0, s => (true, s)
  | fuel + 1, s =>
    if s.blocks.length.toUInt64 > (height + 1).toUInt64 then
      match removeLastBlock c s with
      | .ok (true, s') => rollbackLoop height fuel s'
      | .ok (false, s') => (false, s')
      -- the `catch` of `rollbackBlockchainTo`
      | .error s' => (false, s')
    else (true, s)

/-- `rollbackBlockchainTo(height)`: nothing to do at or above the current
height; else remove blocks until `height + 1` are left. -/
def rollbackBlockchainTo (s : Blockchain) (height : UInt32) : Bool × Blockchain :=
  if height.toUInt64 ≥ s.blocks.length.toUInt64 then (true, s)
  else rollbackLoop c height s.blocks.length s

/-! ### `rebuildCache` -/

/-- One input of `rebuildCache`: a key image is inserted if absent; a
multisignature input marks its output used, and stops the rebuild (`none`)
when the output does not exist. -/
def rebuildInput (b : UInt32) (caches : Caches) (input : TransactionInput) : Option Caches :=
  match input with
  | .key k =>
    some (if (caches.spentKeys k.keyImage).isSome then caches
      else { caches with spentKeys := Function.update caches.spentKeys k.keyImage (some b) })
  | .multisignature i =>
    if multisignatureInputInRange caches.multisignatureOutputs i then
      some { caches with
        multisignatureOutputs := KeyedStack.modifyAt caches.multisignatureOutputs i.amount
          i.outputIndex.toNat (fun u => { u with isUsed := true }) }
    else none
  | .base _ => some caches

/-- The inputs of one transaction in `rebuildCache`, stopping at the first failure. -/
def rebuildInputs (b : UInt32) (caches : Caches) : List TransactionInput → Option Caches
  | [] => some caches
  | input :: inputs =>
    match rebuildInput b caches input with
    | some caches => rebuildInputs b caches inputs
    | none => none

/-- One transaction of `rebuildCache`: its hash is entered if absent, then its
inputs and its outputs (with the same 16-bit output indexes as `pushTransaction`). -/
def rebuildTransaction (b : UInt32) (t : Nat) (caches : Caches) (tx : Transaction) :
    Option Caches :=
  let transactionIndex : TransactionIndex := ⟨b, UInt16.ofNat t⟩
  let h := transactionHash c tx
  let caches := if (caches.transactionMap h).isSome then caches
    else { caches with transactionMap := Function.update caches.transactionMap h (some transactionIndex) }
  (rebuildInputs b caches tx.inputs).map fun caches =>
    (pushOutputs transactionIndex caches tx.outputs.zipIdx).1

/-- The blocks of `rebuildCache`, from height `b` on. -/
def rebuildBlocks (b : UInt32) (s : Blockchain) : List BlockEntry → Bool × Blockchain
  | [] => (true, s)
  | block :: blocks =>
    let s := { s with blockIndex := blockIndexPush s.blockIndex (getBlockHash c block.bl) }
    let step := block.transactions.zipIdx.foldl (fun (acc : Option (Caches × UInt64)) (entry, t) =>
      acc.bind fun (caches, interest) =>
        (rebuildTransaction c b t caches entry.tx).map fun caches =>
          (caches, interest + cur.calculateTotalTransactionInterest entry.tx.toTransactionPrefix b))
      (some (s.toCaches, 0))
    match step with
    | none => (false, s)
    | some (caches, interest) =>
      rebuildBlocks (b + 1) (pushToDepositIndex { s with toCaches := caches } block interest) blocks

/-- `rebuildCache()`: clear the block index and the four caches, then enter
every block of `m_blocks` in order. The deposit index is not cleared. -/
def rebuildCache (s : Blockchain) : Bool × Blockchain :=
  rebuildBlocks c cur 0 { s with toCaches := Caches.empty, blockIndex := [] } s.blocks

/-! ### Difficulty -/

/-- The window of `getDifficultyForNextBlock()`: the last blocks, as many as
the version at `m_blocks.size()` counts, the genesis block skipped. -/
def nextBlockWindow (s : Blockchain) : List UInt64 × List UInt64 :=
  let size := s.blocks.length.toUInt64
  let blockMajorVersion := cur.getBlockMajorVersionForHeight size
  let offset := size - min size (cur.difficultyBlocksCountByBlockVersion blockMajorVersion)
  let offset := if offset = 0 then 1 else offset
  let window := s.blocks.drop offset.toNat
  (window.map (·.bl.timestamp), window.map (·.cumulativeDifficulty))

/-- `getDifficultyForNextBlock()`: the window above, at height `m_blocks.size()`. -/
def getDifficultyForNextBlock (s : Blockchain) : UInt64 :=
  let (timestamps, cumulativeDifficulties) := s.nextBlockWindow cur
  cur.nextDifficultyForIndex s.blocks.length.toUInt64 timestamps cumulativeDifficulties

/-- `m_alternative_chains[h]`: the stored entry (a default one when absent,
which `operator[]` would insert). -/
def altEntry (s : Blockchain) (h : Hash) : BlockEntry := (s.alternativeChains h).getD default

/-- The window of `get_next_difficulty_for_alternative_chain`: for a short
alternative chain, the main-chain blocks below its fork (the genesis block
skipped) followed by the alternative blocks; else the last alternative blocks.
`none` is the "internal error" exit, which returns `false`, that is `0`. -/
def alternativeWindow (s : Blockchain) (altChain : List Hash) (bei : BlockEntry) :
    Option (List UInt64 × List UInt64) :=
  let size := s.blocks.length.toUInt64
  let count := cur.difficultyBlocksCountByBlockVersion (cur.getBlockMajorVersionForHeight size)
  let alt := altChain.map s.altEntry
  if altChain.length.toUInt64 < count then
    let stop : UInt64 := match alt with
      | first :: _ => first.height.toUInt64
      | [] => bei.height.toUInt64
    let mainCount := min (count - min count altChain.length.toUInt64) stop
    let start := stop - mainCount
    let start := if start = 0 then 1 else start
    let main := (s.blocks.drop start.toNat).take (stop - start).toNat
    if altChain.length + main.length > count.toNat then none
    else some (main.map (·.bl.timestamp) ++ alt.map (·.bl.timestamp),
      main.map (·.cumulativeDifficulty) ++ alt.map (·.cumulativeDifficulty))
  else
    let last := alt.drop (alt.length - count.toNat)
    some (last.map (·.bl.timestamp), last.map (·.cumulativeDifficulty))

/-- `get_next_difficulty_for_alternative_chain(alt_chain, bei)`: the window
above, at height `m_blocks.size()`, the height of the main chain's next block. -/
def getNextDifficultyForAlternativeChain (s : Blockchain) (altChain : List Hash) (bei : BlockEntry) :
    UInt64 :=
  match s.alternativeWindow cur altChain bei with
  | none => 0
  | some (timestamps, cumulativeDifficulties) =>
    cur.nextDifficultyForIndex s.blocks.length.toUInt64 timestamps cumulativeDifficulties

end Blockchain

end Cn
