import Vsys.Lib.Action
import Vsys.Chain.History
import Vsys.Diffs.BlockDiffer
import Vsys.State.Storage

/-!
# The blockchain updater

`BlockchainUpdaterImpl` keeps the state in three layers: the persisted storage, a bottom diff over
it and a top diff over that.  Blocks go to the top, full tops move down, and a rollback recomputes
the layers it reaches from the blocks of the history.
-/

namespace Vsys

open Lib

variable [Platform]

/-- The settings of the updater and of the storage below it. -/
structure UpdaterSettings where
  functionalitySettings : FunctionalitySettings
  stateSettings : StateSettings
  minimumInMemoryDiffSize : Nat

/-- The state of `BlockchainUpdaterImpl`, of its history and of its storage. -/
structure BlockchainUpdaterImpl where
  persisted : StateStorage
  bottomMemoryDiff : BlockDiff
  topMemoryDiff : BlockDiff
  history : History

namespace BlockchainUpdaterImpl

/-- The updater over an empty database. -/
def empty : BlockchainUpdaterImpl :=
  ⟨StateStorage.empty, BlockDiff.empty, BlockDiff.empty, History.empty⟩

/-- The persisted state under the bottom diff. -/
def bottomState (u : BlockchainUpdaterImpl) : StateReader :=
  CompositeStateReader.reader (StateReaderImpl.reader u.persisted) u.bottomMemoryDiff

/-- `currentPersistedBlocksState`. -/
def currentPersistedBlocksState (u : BlockchainUpdaterImpl) : StateReader :=
  CompositeStateReader.reader u.bottomState u.topMemoryDiff

/-- `ranges`; a step of zero would not end. -/
def ranges (start stop step : Nat) : List (Nat × Nat) :=
  if 0 < step ∧ start + step < stop then
    (start, start + step) :: ranges (start + step) stop step
  else [(start, stop)]
termination_by stop - start

/-- The blocks of the history with heights from `start` on and below `stop`. -/
def readBlocks (history : History) (start stop : Nat) : Result (List Block) :=
  (List.range' start (stop - start)).mapM fun height => do
    let bytes ← getOrRaise .noSuchElement (history.blockBytes height)
    explicitGet (Block.parseBytes bytes)

/-- `unsafeDiffByRange`. -/
def unsafeDiffByRange (fs : FunctionalitySettings) (history : History) (state : StateView)
    (start stop : Nat) : Result BlockDiff := do
  let blocks ← readBlocks history start stop
  let previous ← history.blockAt (start - 1)
  BlockDiffer.unsafeDiffMany fs state (previous.map Block.timestamp) blocks

/-- Persists the diff of the blocks of one range. -/
def persistRange (settings : UpdaterSettings) (range : Nat × Nat) :
    Action Fault BlockchainUpdaterImpl Unit := do
  let u ← Action.get
  let diffToBePersisted ← Action.ofExcept (unsafeDiffByRange settings.functionalitySettings
    u.history (StateReaderImpl.reader u.persisted).toStateView range.1 range.2)
  Action.modify fun u =>
    { u with
      persisted :=
        StateWriterImpl.applyBlockDiff settings.stateSettings u.persisted diffToBePersisted }

/-- `updatePersistedAndInMemory`. -/
def updatePersistedAndInMemory (settings : UpdaterSettings) :
    Action Fault BlockchainUpdaterImpl Unit := do
  let u ← Action.get
  let persistFrom := u.persisted.height + 1
  let persistUpTo := u.history.height + 1 - settings.minimumInMemoryDiffSize
  Action.forEach (persistRange settings)
    (ranges persistFrom persistUpTo settings.minimumInMemoryDiffSize)
  let u ← Action.get
  let bottom ← Action.ofExcept (unsafeDiffByRange settings.functionalitySettings u.history
    (StateReaderImpl.reader u.persisted).toStateView (u.persisted.height + 1)
    (u.history.height + 1))
  Action.modify fun u => { u with bottomMemoryDiff := bottom, topMemoryDiff := BlockDiff.empty }

/-- Moves the layers down one step when the top diff is full. -/
def shiftLayers (settings : UpdaterSettings) (u : BlockchainUpdaterImpl) :
    BlockchainUpdaterImpl :=
  if settings.minimumInMemoryDiffSize ≤ u.topMemoryDiff.heightDiff then
    { u with
      persisted :=
        StateWriterImpl.applyBlockDiff settings.stateSettings u.persisted u.bottomMemoryDiff
      bottomMemoryDiff := u.topMemoryDiff
      topMemoryDiff := BlockDiff.empty }
  else u

/-- The validation `processBlock` passes to the history. -/
def consensusValidation (settings : UpdaterSettings) (u : BlockchainUpdaterImpl)
    (block : Block) : Result BlockDiff := do
  let last ← u.history.lastBlock
  BlockDiffer.fromBlock settings.functionalitySettings u.currentPersistedBlocksState.toStateView
    (last.map Block.timestamp) block

/-- `processBlock`. -/
def processBlock (settings : UpdaterSettings) (block : Block) :
    Action Fault BlockchainUpdaterImpl Unit := do
  Action.modify (shiftLayers settings)
  let u ← Action.get
  let (newBlockDiff, history) ← Action.ofExcept
    (u.history.appendBlock block (consensusValidation settings u block))
  Action.modify fun u =>
    { u with history := history, topMemoryDiff := u.topMemoryDiff.combine newBlockDiff }

/-- What `removeAfter` does to the layers once the history has been cut down to `height`. -/
def rollBackLayers (settings : UpdaterSettings) (height : Nat) :
    Action Fault BlockchainUpdaterImpl Unit := do
  let u ← Action.get
  if height < u.persisted.height then
    Action.modify fun u => { u with persisted := StateStorage.empty }
    updatePersistedAndInMemory settings
  else if u.currentPersistedBlocksState.height ≠ height then
    let persistedPlusBottomHeight := u.persisted.height + u.bottomMemoryDiff.heightDiff
    if persistedPlusBottomHeight < height then
      let newTopDiff ← Action.ofExcept (unsafeDiffByRange settings.functionalitySettings u.history
        u.bottomState.toStateView (persistedPlusBottomHeight + 1) (height + 1))
      Action.modify fun u => { u with topMemoryDiff := newTopDiff }
    else
      Action.modify fun u => { u with topMemoryDiff := BlockDiff.empty }
      if height < persistedPlusBottomHeight then
        let newBottomDiff ← Action.ofExcept (unsafeDiffByRange settings.functionalitySettings
          u.history (StateReaderImpl.reader u.persisted).toStateView (u.persisted.height + 1)
          (height + 1))
        Action.modify fun u => { u with bottomMemoryDiff := newBottomDiff }
      else pure ()
  else pure ()

/-- `removeAfter`. -/
def removeAfter (settings : UpdaterSettings) (blockId : ByteStr) :
    Action Fault BlockchainUpdaterImpl (List Transaction) := do
  let u ← Action.get
  match u.history.heightOf blockId with
  | none =>
      Action.ofExcept (left (.genericError
        s!"Failed to rollback to nonexistent block {Platform.base58 blockId}"))
  | some height =>
      if height = u.history.height then pure []
      else
        let (discardedTransactions, history) :=
          u.history.discardBlocks (u.history.height - height)
        Action.modify fun u => { u with history := history }
        rollBackLayers settings height
        pure discardedTransactions

end BlockchainUpdaterImpl

end Vsys
