import Vsys.Chain.Forks

/-!
# Following a checkpoint

`processCheckpoint` rolls the chain back to the first item, in the order of the list, that agrees with
the local block at its height, if the first local item disagrees.  `isBlockValid` looks at every item
in any order, so a checkpoint whose items come in another order can leave blocks that it forbids.
-/

namespace Vsys

open Lib

section Platform

variable [Platform]

/-- The local block at the height of an item. -/
def localBlock (blocks : List Block) (height : Int32) : Option Block :=
  if 0 < height.toInt then blocks[height.toInt.toNat - 1]? else none

/-- The items of a checkpoint at local heights, with the local blocks. -/
def localItems (blocks : List Block) (items : List BlockCheckpoint) :
    List (BlockCheckpoint × Block) :=
  items.filterMap fun item => (localBlock blocks item.height).map fun block => (item, block)

namespace History

variable {h : History} {blocks : List Block}

theorem Stores.blockAt_height (hs : h.Stores blocks) (height : Int32) :
    h.blockAt height.toInt.toNat = .ok (localBlock blocks height) := by
  unfold localBlock
  split
  · rename_i hpos
    obtain ⟨i, hi⟩ : ∃ i, height.toInt.toNat = i + 1 := ⟨height.toInt.toNat - 1, by omega⟩
    rw [hi, Nat.add_sub_cancel]
    cases hb : blocks[i]? with
    | none => exact hs.blockAt_of_absent (.inr (Nat.lt_succ_of_le (List.getElem?_eq_none_iff.mp hb)))
    | some b => exact hs.blockAt_succ hb
  · exact hs.blockAt_of_absent (.inl (by omega))

theorem Stores.existingItems (hs : h.Stores blocks) (items : List BlockCheckpoint) :
    Coordinator.existingItems h items = .ok (localItems blocks items) := by
  have hread : (items.mapM fun item => do
      let block ← h.blockAt item.height.toInt.toNat
      .ok (block.map fun block => (item, block)))
      = (.ok (items.map fun item =>
          (localBlock blocks item.height).map fun block => (item, block)) :
            Result (List (Option (BlockCheckpoint × Block)))) := by
    refine mapM_eq_ok_of_forall₂ (List.forall₂_map_right_iff.mpr (List.forall₂_same.mpr ?_))
    intro item _
    rw [hs.blockAt_height, ok_bind]
  rw [Coordinator.existingItems, hread, ok_bind, List.filterMap_map]
  rfl

end History

namespace Coordinator

variable {settings : UpdaterSettings} {u u' : BlockchainUpdaterImpl} {blocks : List Block}
  {cp : Checkpoint}

/-- The service of a node turns every checkpoint away, and the chain stays as it is. -/
theorem processCheckpoint_refused {publicKey : ByteStr} {c : CheckpointServiceImpl}
    (hc : CheckpointServiceImpl.Reached publicKey c) :
    processCheckpoint settings (CheckpointServiceImpl.service publicKey) cp (c, u)
      = (left (.genericError "Checkpoint already applied"), (c, u)) := by
  have hset : (CheckpointServiceImpl.service publicKey).set cp c
      = (left (.genericError "Checkpoint already applied"), c) :=
    CheckpointServiceImpl.set_of_get_eq_none hc.get_eq_none
  refine Action.bind_of_error ?_
  rw [Action.onPart_apply]
  dsimp only
  rw [hset]
  rfl

end Coordinator

end Platform

namespace Sample

open Coordinator

theorem firstNode_scored : firstNode.history.Scored [genesisBlock] := by
  obtain ⟨s, bytes, hscore, hparse, hpush⟩ := BlockchainUpdaterImpl.processBlock_history
    History.stores_empty storable_genesisBlock processBlock_genesisBlock
  obtain rfl : s = 0 := Except.ok.inj (hscore.symm.trans rfl)
  rw [Node.history, hpush]
  exact History.scored_empty.push hparse List.not_mem_nil

theorem secondNode_scored : secondNode.history.Scored [genesisBlock, secondBlock] :=
  processBlock_scored firstNode_scored storable_secondBlock (by decide) processBlock_secondBlock

theorem thirdNode_scored : thirdNode.history.Scored [genesisBlock, secondBlock, rewardBlock] :=
  processBlock_scored secondNode_scored storable_rewardBlock (by decide) processBlock_rewardBlock

/-- A checkpoint for the second block and against the third, in the given order. -/
def checkpoint (lowestFirst : Bool) : Checkpoint where
  items :=
    if lowestFirst then [⟨2, signature 2⟩, ⟨3, signature 5⟩] else [⟨3, signature 5⟩, ⟨2, signature 2⟩]
  signature := signature 7

end Sample

end Vsys
