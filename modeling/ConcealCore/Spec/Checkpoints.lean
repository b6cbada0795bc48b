import ConcealCore.Spec.Types

/-!
# Checkpoints

`Checkpoints` pins block hashes at given heights (`m_points`, a `std::map`, so
its entries come in increasing height). A block at a checkpoint height must
have the pinned hash (`check_block`). Up to the last checkpoint the node is in
the checkpoint zone, where `pushBlock` checks the checkpoint in place of the
proof of work. An alternative block is refused at or below the last checkpoint
the main chain has passed, and also when it is deeper than the unlock window
below the tip outside the zone (`is_alternative_block_allowed`).

The DNS checkpoints that `handle_alternative_block` asks for are not modelled:
the set stays as the node was started with.
-/

namespace Cn

/-- `CRYPTONOTE_MINED_MONEY_UNLOCK_WINDOW`, as `is_alternative_block_allowed` uses it. -/
def CRYPTONOTE_MINED_MONEY_UNLOCK_WINDOW : UInt32 := 10

/-- `Checkpoints::m_points`: the pinned hashes, in increasing height. -/
structure Checkpoints where
  points : List (UInt32 × Hash)
  sorted : points.Pairwise (fun a b => a.1 < b.1)

namespace Checkpoints

/-- A node started without checkpoints. -/
@[grind] def empty : Checkpoints := ⟨[], List.Pairwise.nil⟩

variable (cp : Checkpoints)

/-- `m_points.find(height)`. -/
def find (height : UInt32) : Option Hash :=
  (cp.points.find? (·.1 = height)).map (·.2)

/-- `is_in_checkpoint_zone(height)`: there is a checkpoint at or above `height`. -/
def isInCheckpointZone (height : UInt32) : Bool :=
  match cp.points.getLast? with
  | none => false
  | some (last, _) => height ≤ last

/-- `check_block(height, h, is_a_checkpoint)`: whether the block passes, and
whether its height has a checkpoint. -/
def checkBlock (height : UInt32) (h : Hash) : Bool × Bool :=
  match cp.find height with
  | none => (true, false)
  | some expected => (expected = h, true)

/-- `is_alternative_block_allowed(blockchain_height, block_height)`. The last
checkpoint at or below the chain height is the entry before
`m_points.upper_bound(blockchain_height)`. -/
def isAlternativeBlockAllowed (blockchainHeight blockHeight : UInt32) : Bool :=
  if blockHeight = 0 then false
  else
    let lowestHeight :=
      if blockchainHeight < CRYPTONOTE_MINED_MONEY_UNLOCK_WINDOW then 0
      else blockchainHeight - CRYPTONOTE_MINED_MONEY_UNLOCK_WINDOW
    if blockHeight < lowestHeight ∧ !cp.isInCheckpointZone blockHeight then false
    else
      match (cp.points.filter (·.1 ≤ blockchainHeight)).getLast? with
      | none => true
      | some (checkpointHeight, _) => checkpointHeight < blockHeight

end Checkpoints

end Cn
