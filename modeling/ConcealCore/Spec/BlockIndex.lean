import ConcealCore.Spec.Blockchain

/-!
# The block index

`BlockIndex` keeps the main chain's block ids in chain order, each once (a
`multi_index_container`, sequenced and hashed unique); its model is the list
`Blockchain.blockIndex`. The height of an id is its position, cast to
`uint32_t`. `buildSparseChain` lists the ids a node sends a peer to say where
its chain stands, and `findSupplement` takes the first of a peer's ids that the
index holds.
-/

namespace Cn

namespace BlockIndex

/-- `getBlockHeight(h, height)`: the position of the id, as a `uint32_t`. -/
def getBlockHeight (index : List Hash) (h : Hash) : Option UInt32 :=
  if h ∈ index then some (index.idxOf h).toUInt32 else none

/-- `findSupplement(ids, offset)`: the height of the first of the ids that the
index holds. -/
def findSupplement (index : List Hash) (ids : List Hash) : Option UInt32 :=
  ids.findSome? (getBlockHeight index)

/-- The loop of `buildSparseChain` with explicit fuel: `i` runs over `1, 2, 4,
…` while it is at most `sparseChainEnd`. -/
@[grind] def buildSparseChain.loop (index : List Hash) (sparseChainEnd : ℕ) : ℕ → ℕ → List Hash
  | 0, _ => []
  | fuel + 1, i =>
    if i ≤ sparseChainEnd then
      index.getD (sparseChainEnd - i) default :: buildSparseChain.loop index sparseChainEnd fuel (i * 2)
    else []

/-- `buildSparseChain(startBlockId)`: the ids `i` blocks below the end of the
chain up to the start block, for `i = 1, 2, 4, …`, then the genesis id unless
it is last. `startBlockHeight + 1` is computed in `uint32_t`; `sparseChainEnd`
turns of the loop are more than it makes. For an id the index does not hold the
result is empty and its `back()` undefined: the model appends the genesis id. -/
def buildSparseChain (index : List Hash) (startBlockId : Hash) : List Hash :=
  let result := match getBlockHeight index startBlockId with
    | some startBlockHeight =>
      let sparseChainEnd := (startBlockHeight + 1).toNat
      buildSparseChain.loop index sparseChainEnd sparseChainEnd 1
    | none => []
  if result.getLast? = some (index.getD 0 default) then result else result ++ [index.getD 0 default]

end BlockIndex

/-- `Blockchain::findBlockchainSupplement(qblock_ids)`: the height of the first
of a peer's ids on the main chain. The peer's list ends with the genesis id (an
`assert`), so it is always found; the model returns `none` otherwise. -/
def Blockchain.findBlockchainSupplement (s : Blockchain) (qblockIds : List Hash) : Option UInt32 :=
  BlockIndex.findSupplement s.blockIndex qblockIds

end Cn
