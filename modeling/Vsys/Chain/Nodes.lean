import Vsys.Chain.Coordinator
import Vsys.Chain.Layers
import Vsys.Chain.Scores

/-!
# What a node keeps

The calls of the coordinator change the updater of the node by `processBlock` and `removeAfter`
only, so what these two keep, every node that can be reached has.
-/

namespace Vsys

open Lib

section Platform

variable [Platform]

namespace BlockchainUpdaterImpl

variable {settings : UpdaterSettings} {history : History}

/-- Persisting a range of blocks leaves the history. -/
theorem keeps_persistRange (range : Nat × Nat) :
    Action.Keeps (fun u => u.history = history) (persistRange settings range) :=
  Action.Keeps.get.bind fun _ => (Action.Keeps.ofExcept _).bind fun _ =>
    Action.Keeps.modify fun _ h => h

/-- Rebuilding the layers leaves the history. -/
theorem keeps_updatePersistedAndInMemory :
    Action.Keeps (fun u => u.history = history) (updatePersistedAndInMemory settings) :=
  Action.Keeps.get.bind fun _ =>
    (Action.Keeps.forEach fun range _ => keeps_persistRange range).bind fun _ =>
      Action.Keeps.get.bind fun _ => (Action.Keeps.ofExcept _).bind fun _ =>
        Action.Keeps.modify fun _ h => h

/-- Cutting the layers leaves the history alone. -/
theorem keeps_rollBackLayers (height : Nat) :
    Action.Keeps (fun u => u.history = history) (rollBackLayers settings height) := by
  refine Action.Keeps.get.bind fun u => ?_
  split
  · refine Action.Keeps.bind ?_ fun _ => keeps_updatePersistedAndInMemory
    exact Action.Keeps.modify fun _ h => h
  split
  · dsimp only
    split
    · exact (Action.Keeps.ofExcept _).bind fun _ => Action.Keeps.modify fun _ h => h
    · refine Action.Keeps.bind ?_ fun _ => ?_
      · exact Action.Keeps.modify fun _ h => h
      split
      · exact (Action.Keeps.ofExcept _).bind fun _ => Action.Keeps.modify fun _ h => h
      · exact Action.Keeps.pure ()
  · exact Action.Keeps.pure ()

/-- A rollback to a block of the history takes the blocks above it off, even when the layers cannot
be cut. -/
theorem removeAfter_history (settings : UpdaterSettings) {u : BlockchainUpdaterImpl}
    {blockId : ByteStr} {height : Nat} (h : u.history.heightOf blockId = some height) :
    (removeAfter settings blockId u).2.history
      = (u.history.discardBlocks (u.history.height - height)).2 := by
  rw [removeAfter, Action.bind_of_ok (Action.get_apply u)]
  simp only [h]
  split
  · rename_i hsame
    rw [hsame, Nat.sub_self]
    rfl
  · rw [Action.bind_of_ok (Action.modify_apply _ u)]
    exact ((keeps_rollBackLayers height).bind fun _ => Action.Keeps.pure _) _ rfl

/-- Shifting the layers leaves the history. -/
@[simp]
theorem shiftLayers_history (u : BlockchainUpdaterImpl) :
    (shiftLayers settings u).history = u.history := by
  unfold shiftLayers
  split
  · rfl
  · rfl

/-- A block that is processed is on top of the history, with its score added. -/
theorem processBlock_history {u u' : BlockchainUpdaterImpl} {blocks : List Block} {b : Block}
    (hs : u.history.Stores blocks) (hb : b.Storable)
    (h : processBlock settings b u = (.ok (), u')) :
    ∃ s bytes, u.history.score = .ok s ∧ Block.parseBytes bytes = .ok b ∧
      u'.history = u.history.push b bytes (s + b.blockScore) := by
  rw [processBlock_apply] at h
  dsimp only at h
  split at h
  · rename_i d history' happend
    obtain ⟨-, rfl⟩ := Prod.mk.inj h
    rw [shiftLayers_history] at happend
    exact History.appendBlock_score hs hb happend
  · obtain ⟨h, -⟩ := Prod.mk.inj h
    cases h

/-- A block that is turned away leaves the history alone. -/
theorem processBlock_history_of_error {u u' : BlockchainUpdaterImpl} {b : Block} {e : Fault}
    (h : processBlock settings b u = (.error e, u')) : u'.history = u.history := by
  rw [processBlock_apply] at h
  dsimp only at h
  split at h
  · obtain ⟨h, -⟩ := Prod.mk.inj h
    cases h
  · obtain ⟨-, rfl⟩ := Prod.mk.inj h
    exact shiftLayers_history u

/-- An updater whose history stores some blocks. -/
def Indexed (u : BlockchainUpdaterImpl) : Prop := ∃ blocks, u.history.Indexed blocks

/-- An empty chain is indexed by its blocks. -/
theorem indexed_empty : Indexed empty := ⟨[], History.indexed_empty⟩

/-- Processing a block that can be stored keeps the chain indexed by its blocks. -/
theorem keeps_indexed_processBlock {b : Block} (hb : b.Storable) :
    Action.Keeps Indexed (processBlock settings b) := by
  rintro u ⟨blocks, hs⟩
  cases h : processBlock settings b u with
  | mk outcome u' =>
      cases outcome with
      | ok x =>
          obtain ⟨s, bytes, -, hparse, hpush⟩ := processBlock_history hs.stores hb h
          exact ⟨blocks ++ [b], hpush ▸ hs.push hparse _⟩
      | error e => exact ⟨blocks, processBlock_history_of_error h ▸ hs⟩

/-- Removing the blocks behind one keeps the chain indexed by its blocks. -/
theorem keeps_indexed_removeAfter (blockId : ByteStr) :
    Action.Keeps Indexed (removeAfter settings blockId) := by
  rintro u ⟨blocks, hs⟩
  cases hheight : u.history.heightOf blockId with
  | none =>
      rw [removeAfter, Action.bind_of_ok (Action.get_apply u)]
      simp only [hheight]
      exact ⟨blocks, hs⟩
  | some height =>
      obtain ⟨i, b, rfl, hb, -⟩ := hs.stores.known blockId height hheight
      have hlt := (List.getElem?_eq_some_iff.mp hb).1
      have hcount : u.history.height - (i + 1) = (blocks.drop (i + 1)).length := by
        rw [List.length_drop, hs.stores.height]
      rw [← List.take_append_drop (i + 1) blocks] at hs
      refine ⟨blocks.take (i + 1), ?_⟩
      rw [removeAfter_history settings hheight, hcount]
      exact hs.discardBlocks.1

end BlockchainUpdaterImpl

namespace Coordinator

variable {settings : VsysSettings} {I : BlockchainUpdaterImpl → Prop}

/-- An action of the node that keeps `I` of its updater. -/
def KeepsUpdater {α : Type} (I : BlockchainUpdaterImpl → Prop) (x : Action Fault Node α) : Prop :=
  Action.Keeps (fun n => I n.blockchainUpdater) x

/-- Reading the clock keeps what holds of the chain. -/
theorem keeps_correctedTime : KeepsUpdater I (correctedTime settings) :=
  Action.Keeps.get.bind fun _ => Action.Keeps.bind (Action.Keeps.modify fun _ h => h) fun _ =>
    Action.Keeps.pure _

/-- An action on the chain keeps for the node what it keeps for the chain. -/
theorem keeps_onUpdater {α : Type} {x : Action Fault BlockchainUpdaterImpl α}
    (h : Action.Keeps I x) : KeepsUpdater I (onUpdater x) := fun n hn => h n.blockchainUpdater hn

/-- An action on the pool keeps what holds of the chain. -/
theorem keeps_onUtx {α : Type} (x : Action Fault UtxPool α) : KeepsUpdater I (onUtx x) :=
  fun _ hn => hn

/-- Asking for the score keeps what holds of the chain. -/
theorem keeps_score : KeepsUpdater I score :=
  Action.Keeps.get.bind fun _ => Action.Keeps.ofExcept _

/-- Putting a transaction back into the pool keeps what holds of the chain. -/
theorem keeps_putBack (tx : Transaction) : KeepsUpdater I (putBack settings tx) :=
  keeps_correctedTime.bind fun _ => Action.Keeps.get.bind fun _ => keeps_onUtx _

/-- Switching the mining on or off keeps what holds of the chain. -/
theorem keeps_updateBlockchainReadinessFlag (settings : VsysSettings) :
    KeepsUpdater I (updateBlockchainReadinessFlag settings) :=
  keeps_correctedTime.bind fun _ => Action.Keeps.get.bind fun _ =>
    (Action.Keeps.ofExcept _).bind fun _ => (Action.Keeps.ofExcept _).bind fun _ =>
      Action.Keeps.modify fun _ h => h

/-- Appending a block keeps what processing it keeps. -/
theorem keeps_appendBlock {b : Block}
    (h : Action.Keeps I (BlockchainUpdaterImpl.processBlock settings.updater b)) :
    KeepsUpdater I (appendBlock settings b) :=
  Action.Keeps.get.bind fun _ => (Action.Keeps.ofExcept _).bind fun _ =>
    keeps_correctedTime.bind fun _ => (Action.Keeps.ofExcept _).bind fun _ =>
      (keeps_onUpdater h).bind fun _ => keeps_correctedTime.bind fun _ => keeps_onUtx _

/-- Taking a block in keeps what processing it keeps. -/
theorem keeps_processBlock {b : Block} (isLocal : Bool)
    (h : Action.Keeps I (BlockchainUpdaterImpl.processBlock settings.updater b)) :
    KeepsUpdater I (processBlock settings b isLocal) := by
  intro n hn
  have happend := ((keeps_appendBlock h).bind fun _ => keeps_score) n hn
  unfold processBlock
  dsimp only
  split
  · exact happend
  · split
    · exact ((keeps_updateBlockchainReadinessFlag settings).bind fun _ =>
        Action.Keeps.ofExcept _) _ happend
    · exact happend

/-- What follows the score in a switch to a fork. -/
theorem keeps_afterSwitch (settings : VsysSettings) (dropped : List Transaction) (newScore : Int) :
    KeepsUpdater I (do
      Action.forEach (putBack settings) dropped
      updateBlockchainReadinessFlag settings
      pure newScore) := by
  refine Action.Keeps.bind (Action.Keeps.forEach fun tx _ => keeps_putBack tx) fun _ => ?_
  exact (keeps_updateBlockchainReadinessFlag settings).bind fun _ => Action.Keeps.pure _

/-- Taking a branch in keeps what processing its blocks and removing blocks keep. -/
theorem keeps_processFork {newBlocks : List Block}
    (hprocess : ∀ b ∈ newBlocks,
      Action.Keeps I (BlockchainUpdaterImpl.processBlock settings.updater b))
    (hremove : ∀ id, Action.Keeps I (BlockchainUpdaterImpl.removeAfter settings.updater id)) :
    KeepsUpdater I (processFork settings newBlocks) := by
  refine Action.Keeps.get.bind fun n => ?_
  dsimp only
  split
  · exact keeps_score
  split
  · exact Action.Keeps.ofExcept _
  · refine (Action.Keeps.ofExcept _).bind fun _ => (keeps_onUpdater (hremove _)).bind fun _ => ?_
    refine Action.Keeps.bind (Action.Keeps.forEach fun b hb => keeps_appendBlock ?_) fun _ => ?_
    · exact hprocess b ((List.dropWhile_suffix _).mem hb)
    · exact keeps_score.bind fun newScore => keeps_afterSwitch settings _ newScore

/-- Following a checkpoint keeps what removing blocks keeps. -/
theorem keeps_makeBlockchainCompliantWith {settings : UpdaterSettings} (checkpoint : Checkpoint)
    (hremove : ∀ id, Action.Keeps I (BlockchainUpdaterImpl.removeAfter settings id)) :
    Action.Keeps I (makeBlockchainCompliantWith settings checkpoint) := by
  refine Action.Keeps.get.bind fun u => (Action.Keeps.ofExcept _).bind fun existing => ?_
  dsimp only
  split
  · exact Action.Keeps.pure ()
  · refine (Action.Keeps.ofExcept _).bind fun _ => (Action.Keeps.ofExcept _).bind fun last => ?_
    cases last with
    | none => exact Action.Keeps.pure ()
    | some last =>
        intro u hu
        have hnext := hremove last.uniqueId u hu
        dsimp only
        generalize BlockchainUpdaterImpl.removeAfter settings last.uniqueId u = run at hnext ⊢
        obtain ⟨outcome, u'⟩ := run
        match outcome with
        | .ok _ => exact hnext
        | .error (.left _) => exact hnext
        | .error (.raised _) => exact hnext

/-- Taking a checkpoint in keeps what removing blocks keeps. -/
theorem keeps_processCheckpoint {σ : Type} {settings : UpdaterSettings} (service : CheckpointService σ)
    (checkpoint : Checkpoint)
    (hremove : ∀ id, Action.Keeps I (BlockchainUpdaterImpl.removeAfter settings id)) :
    Action.Keeps (fun s => I s.2) (processCheckpoint settings service checkpoint) :=
  Action.Keeps.bind (fun _ hs => hs) fun _ =>
    Action.Keeps.bind (fun s hs => keeps_makeBlockchainCompliantWith checkpoint hremove s.2 hs)
      fun _ => Action.Keeps.get.bind fun _ => Action.Keeps.ofExcept _

/-- The calls of the coordinator. -/
inductive Call
  | processBlock (newBlock : Block) (isLocal : Bool)
  | processFork (newBlocks : List Block)
  | processCheckpoint (newCheckpoint : Checkpoint)

namespace Call

/-- What a call does. -/
def run (settings : VsysSettings) : Call → Action Fault Node Int
  | .processBlock newBlock isLocal => Coordinator.processBlock settings newBlock isLocal
  | .processFork newBlocks => Coordinator.processFork settings newBlocks
  | .processCheckpoint newCheckpoint => CoordinatorHandler.processCheckpoint settings newCheckpoint

/-- The blocks a call brings. -/
def blocks : Call → List Block
  | .processBlock newBlock _ => [newBlock]
  | .processFork newBlocks => newBlocks
  | .processCheckpoint _ => []

end Call

/-- The nodes that can be reached: the updater takes a genesis block, and calls of the coordinator
follow, with any outcome, which bring blocks with `P`.  The pool, the checkpoint and the clock may
change in between. -/
inductive Reached (settings : VsysSettings) (P : Block → Prop) : Node → Prop
  | genesis {n : Node} {b : Block} (hb : P b)
      (h : BlockchainUpdaterImpl.processBlock settings.updater b BlockchainUpdaterImpl.empty
        = (.ok (), n.blockchainUpdater)) : Reached settings P n
  | call {n : Node} (hn : Reached settings P n) (c : Call) (hc : ∀ b ∈ c.blocks, P b) :
      Reached settings P (c.run settings n).2
  | elsewhere {n n' : Node} (hn : Reached settings P n)
      (h : n'.blockchainUpdater = n.blockchainUpdater) : Reached settings P n'

variable {P : Block → Prop} {n : Node}

/-- What the updater has at the start, and `processBlock` and `removeAfter` keep, it has in every
node that can be reached. -/
theorem Reached.updater (hn : Reached settings P n) (hempty : I BlockchainUpdaterImpl.empty)
    (hprocess : ∀ b, P b → Action.Keeps I (BlockchainUpdaterImpl.processBlock settings.updater b))
    (hremove : ∀ id, Action.Keeps I (BlockchainUpdaterImpl.removeAfter settings.updater id)) :
    I n.blockchainUpdater := by
  induction hn with
  | @genesis n b hb h =>
      have hnext := hprocess b hb _ hempty
      rwa [h] at hnext
  | @call n hn c hc ih =>
      cases c with
      | processBlock newBlock isLocal =>
          exact keeps_processBlock isLocal (hprocess newBlock (hc newBlock List.mem_cons_self)) n ih
      | processFork newBlocks =>
          exact keeps_processFork (fun b hb => hprocess b (hc b hb)) hremove n ih
      | processCheckpoint newCheckpoint =>
          exact keeps_processCheckpoint _ newCheckpoint hremove (n.checkpoint, n.blockchainUpdater) ih
  | elsewhere _ h ih => rwa [h]

/-- The history of a node that can be reached stores a list of blocks. -/
theorem Reached.indexed (hn : Reached settings P n) (hP : ∀ b, P b → b.Storable) :
    ∃ blocks, n.history.Indexed blocks :=
  hn.updater BlockchainUpdaterImpl.indexed_empty
    (fun b hb => BlockchainUpdaterImpl.keeps_indexed_processBlock (hP b hb))
    BlockchainUpdaterImpl.keeps_indexed_removeAfter

end Coordinator

end Platform

namespace Sample

/-- A node with a clock that stands still. -/
def settings : VsysSettings where
  updater := updaterSettings true
  checkpointsPublicKey := []
  utxSettings := ⟨10, 1000, ∅⟩
  maxBlockchainAge := 1000
  clock := fun _ => 10

/-- A node with the first block. -/
def firstNode : Node where
  blockchainUpdater :=
    (BlockchainUpdaterImpl.processBlock settings.updater genesisBlock BlockchainUpdaterImpl.empty).2
  utxStorage := UtxPool.empty
  checkpoint := ⟨none⟩
  blockchainReadiness := false
  readings := 0

/-- The node after the second block. -/
def secondNode : Node := (Coordinator.processBlock settings secondBlock false firstNode).2

/-- A third block with a reward. -/
def rewardBlock : Block :=
  ⟨2, 1, signature 2, ⟨key, signature 3⟩, ⟨2, 11574⟩,
    [⟨.success, 0, .minting ⟨owner, MintingReward, 2, 3, mintingTransaction.amount_eq⟩⟩]⟩

/-- The node after the third block. -/
def thirdNode : Node := (Coordinator.processBlock settings rewardBlock false secondNode).2

/-- The rewarding block can be stored. -/
theorem storable_rewardBlock : rewardBlock.Storable :=
  ⟨okOr rewardBlock.bytes [], eq_ok_okOr (by decide +kernel), by decide +kernel⟩

/-- A successful outcome is paired with the state it leaves. -/
theorem eq_ok_unit {σ : Type} {run : Result Unit × σ} (h : run.1.isOk = true) :
    run = (.ok (), run.2) := by
  have hok : run.1 = .ok (okOr run.1 ()) := eq_ok_okOr h
  exact Prod.fst_eq_iff.mp hok

/-- The genesis block is processed by an empty chain. -/
theorem processBlock_genesisBlock :
    BlockchainUpdaterImpl.processBlock settings.updater genesisBlock BlockchainUpdaterImpl.empty
      = (.ok (), firstNode.blockchainUpdater) := by
  have hok : (BlockchainUpdaterImpl.processBlock settings.updater genesisBlock
      BlockchainUpdaterImpl.empty).1.isOk = true := by decide +kernel
  rw [eq_ok_unit hok, firstNode]

section Reached

variable {P : Block → Prop}

/-- The node with one block is reached. -/
theorem firstNode_reached (h : P genesisBlock) : Coordinator.Reached settings P firstNode :=
  .genesis h processBlock_genesisBlock

/-- The node with two blocks is reached. -/
theorem secondNode_reached (h : P genesisBlock) (h' : P secondBlock) :
    Coordinator.Reached settings P secondNode := by
  rw [secondNode]
  exact (firstNode_reached h).call (.processBlock secondBlock false) fun _ hb =>
    List.mem_singleton.mp hb ▸ h'

/-- The node with three blocks is reached. -/
theorem thirdNode_reached (h : P genesisBlock) (h' : P secondBlock) (h'' : P rewardBlock) :
    Coordinator.Reached settings P thirdNode := by
  rw [thirdNode]
  exact (secondNode_reached h h').call (.processBlock rewardBlock false) fun _ hb =>
    List.mem_singleton.mp hb ▸ h''

end Reached

/-- Processing the second and the third block succeeds, with the scores of the chains. -/
theorem nodes_evaluate :
    (Coordinator.processBlock settings secondBlock false firstNode).1 = .ok 2 ∧
    (Coordinator.processBlock settings rewardBlock false secondNode).1 = .ok 3 := by
  decide +kernel

theorem processBlock_secondBlock :
    Coordinator.processBlock settings secondBlock false firstNode = (.ok 2, secondNode) := by
  rw [secondNode]
  exact Prod.fst_eq_iff.mp nodes_evaluate.1

theorem processBlock_rewardBlock :
    Coordinator.processBlock settings rewardBlock false secondNode = (.ok 3, thirdNode) := by
  rw [thirdNode]
  exact Prod.fst_eq_iff.mp nodes_evaluate.2

end Sample

end Vsys
