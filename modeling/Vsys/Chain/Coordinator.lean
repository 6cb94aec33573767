import Vsys.Chain.CheckpointService
import Vsys.Chain.UtxPool
import Vsys.Chain.Updater

/-!
# The coordinator

What a node does with what it receives: the consensus check, the append of one block, the switch to
the extension of a peer, and the rollback a checkpoint asks for, over the history, the layered state
and the pool together.
-/

namespace Vsys

open Lib

variable [Platform]

/-- The settings of a node. -/
structure VsysSettings where
  updater : UpdaterSettings
  /-- `checkpointsSettings.publicKey`. -/
  checkpointsPublicKey : ByteStr
  utxSettings : UtxSettings
  /-- `intervalAfterLastBlockThenGenerationIsAllowed`, in nanoseconds. -/
  maxBlockchainAge : Int64
  /-- What the clock shows, reading after reading. -/
  clock : Nat → Int64

/-- The components of a node the coordinator works on. -/
structure Node where
  blockchainUpdater : BlockchainUpdaterImpl
  utxStorage : UtxPool
  checkpoint : CheckpointServiceImpl
  blockchainReadiness : Bool
  /-- How often the clock has been read. -/
  readings : Nat

namespace Node

/-- The history of the node. -/
def history (n : Node) : History := n.blockchainUpdater.history

/-- The state reader of the node. -/
def stateReader (n : Node) : StateReader := n.blockchainUpdater.currentPersistedBlocksState

end Node

namespace Coordinator

/-- `MaxTimeDrift`, 15 seconds, in nanoseconds. -/
def MaxTimeDrift : Int64 := 15000000000

/-- `MaxMintTimeFromFuture`, 30 seconds, in nanoseconds. -/
def MaxMintTimeFromFuture : Int64 := 30000000000

/-- Rejects a block that fails a consensus check, with the reason. -/
def consensusCond (block : Block) (p : Prop) [Decidable p] (reason : String) : Result Unit :=
  cond p (.genericError s!"Block {Platform.base58 block.uniqueId} is invalid: {reason}")

/-- The slot of a mint time; without slots it divides by zero. -/
def slotOf (fs : FunctionalitySettings) (mintTime : Int64) : Result Int :=
  if fs.numOfSlots = 0 then raise .arithmetic
  else .ok ((mintTime.toInt.tdiv 1000000000).tdiv (max fs.mintingSpeed 1) |>.tmod fs.numOfSlots)

/-- Whether the transactions but the last are in the order of the pool; transactions are equal when
their identifiers are. -/
def isSorted (block : Block) : Prop :=
  (TransactionsOrdering.sorted block.transactions.dropLast).map Transaction.id
    = block.transactions.dropLast.map Transaction.id

instance (block : Block) : Decidable (isSorted block) :=
  inferInstanceAs (Decidable (_ = _))

/-- `blockConsensusValidation`. -/
def blockConsensusValidation (fs : FunctionalitySettings) (history : History) (state : StateView)
    (currentTs : Int64) (block : Block) : Result Unit := do
  consensusCond block (block.timestamp - currentTs < MaxTimeDrift)
    s!"timestamp {block.timestamp} is from future"
  consensusCond block (isSorted block) "transactions are not sorted"
  let noParent :=
    ValidationError.genericError
      s!"Block {Platform.base58 block.uniqueId} is invalid: history does not contain parent {Platform.base58 block.reference}"
  match ← history.parent block with
  | none => left noParent
  | some parent =>
      match history.heightOf parent.uniqueId with
      | none => left noParent
      | some _ =>
          let generator := block.signerData.generator
          let minterAddress := generator.toAddress
          let mintTime := block.consensusData.mintTime
          let slotid ← slotOf fs mintTime
          let slotAddress := state.slotAddress slotid
          consensusCond block (slotid.tmod SlotGap = 0) s!"InvalidSlotId({slotid})"
          let slotAddress ← getOrRaise .noSuchElement slotAddress
          consensusCond block (minterAddress.address = slotAddress)
            s!"Minting address {minterAddress.address} does not match the slot address {slotAddress} of slot {slotid}"
          let mintBalance := block.consensusData.mintBalance
          let checkedMintBalance ← SPoSCalc.mintingBalance state fs minterAddress state.height
          consensusCond block (mintBalance = checkedMintBalance)
            s!"Block minting average balance {mintBalance} is not equal to exact {checkedMintBalance}"
          let parentMintTime := parent.consensusData.mintTime
          consensusCond block (parentMintTime < mintTime)
            s!"Block mint time {mintTime} is not larger than parent mint time {parentMintTime}"
          consensusCond block (mintTime ≤ currentTs + MaxMintTimeFromFuture)
            s!"Block from future, current time {currentTs}, mint time {mintTime}"
          consensusCond block
            ((block.transactions.filter fun tx => tx.transactionType = .mintingTransaction).length
              = 1)
            "One and only one minting transaction allowed per block"

/-- Reads the clock. -/
def correctedTime (settings : VsysSettings) : Action Fault Node Int64 := do
  let n ← Action.get
  Action.modify fun n => { n with readings := n.readings + 1 }
  pure (settings.clock n.readings)

/-- Runs an action on the updater of the node. -/
def onUpdater {α : Type} (x : Action Fault BlockchainUpdaterImpl α) : Action Fault Node α :=
  Action.onPart Node.blockchainUpdater (fun n u => { n with blockchainUpdater := u }) x

/-- Runs an action on the pool of the node. -/
def onUtx {α : Type} (x : Action Fault UtxPool α) : Action Fault Node α :=
  Action.onPart Node.utxStorage (fun n utx => { n with utxStorage := utx }) x

/-- `appendBlock`. -/
def appendBlock (settings : VsysSettings) (block : Block) : Action Fault Node Unit := do
  let n ← Action.get
  Action.ofExcept (cond
    (n.checkpoint.isBlockValid block.signerData.signature (n.history.height + 1) = true)
    (.genericError
      s!"Block {Platform.base58 block.uniqueId} at height {n.history.height + 1} is not valid w.r.t. checkpoint"))
  let currentTs ← correctedTime settings
  Action.ofExcept (blockConsensusValidation settings.updater.functionalitySettings n.history
    n.stateReader.toStateView currentTs block)
  onUpdater (BlockchainUpdaterImpl.processBlock settings.updater block)
  let now ← correctedTime settings
  onUtx (UtxPool.removeAll settings.utxSettings now block.transactions)

/-- `updateBlockchainReadinessFlag`: a compare-and-set of the flag from `expired` to its
negation. -/
def updateBlockchainReadinessFlag (settings : VsysSettings) : Action Fault Node Unit := do
  let now ← correctedTime settings
  let n ← Action.get
  let last ← Action.ofExcept n.history.lastBlock
  let last ← Action.ofExcept (getOrRaise .noSuchElement last)
  let expired : Bool := now - last.timestamp < settings.maxBlockchainAge
  Action.modify fun n =>
    { n with
      blockchainReadiness := if n.blockchainReadiness = expired then !expired else n.blockchainReadiness }

/-- `history.score()`. -/
def score : Action Fault Node Int := do
  let n ← Action.get
  Action.ofExcept n.history.score

/-- `putIfNew` on the pool of the node, whose outcome nobody reads; only an exception escapes. -/
def putBack (settings : VsysSettings) (tx : Transaction) : Action Fault Node Unit := do
  let now ← correctedTime settings
  let n ← Action.get
  onUtx fun pool =>
    match UtxPool.putIfNew settings.updater.functionalitySettings settings.utxSettings
        n.stateReader.toStateView n.history now tx pool with
    | (.error (.raised e), pool) => (raise e, pool)
    | (_, pool) => (.ok (), pool)

/-- `processFork`. -/
def processFork (settings : VsysSettings) (newBlocks : List Block) : Action Fault Node Int := do
  let n ← Action.get
  let extension := newBlocks.dropWhile fun b => n.history.contains b.uniqueId
  match extension.head? with
  | none => score
  | some first =>
      let lastCommonBlockId := first.reference
      match n.history.heightOf lastCommonBlockId with
      | none => Action.ofExcept (left (.genericError "Fork contains no common parent"))
      | some commonBlockHeight => do
          Action.ofExcept (cond
            (∀ p ∈ extension.zipIdx,
              n.checkpoint.isBlockValid p.1.signerData.signature (commonBlockHeight + 1 + p.2) = true)
            (.genericError "Fork contains block that doesn't match checkpoint, declining fork"))
          let droppedTransactions ←
            onUpdater (BlockchainUpdaterImpl.removeAfter settings.updater lastCommonBlockId)
          Action.forEach (appendBlock settings) extension
          let newScore ← score
          Action.forEach (putBack settings) droppedTransactions
          updateBlockchainReadinessFlag settings
          pure newScore

/-- `processBlock`. -/
def processBlock (settings : VsysSettings) (newBlock : Block) (isLocal : Bool) :
    Action Fault Node Int := fun n =>
  let (newScore, n) := (do appendBlock settings newBlock; score : Action Fault Node Int) n
  match newScore with
  | .error (.raised _) => (newScore, n)
  | _ =>
      if isLocal ∨ newScore.isOk then
        (do updateBlockchainReadinessFlag settings; Action.ofExcept newScore :
          Action Fault Node Int) n
      else (newScore, n)

/-- `existingItems`, each with the block of the history at its height; no block is below height
one. -/
def existingItems (history : History) (items : List BlockCheckpoint) :
    Result (List (BlockCheckpoint × Block)) := do
  let found ← items.mapM fun item => do
    let block ← history.blockAt item.height.toInt.toNat
    .ok (block.map fun block => (item, block))
  .ok (found.filterMap id)

/-- `makeBlockchainCompliantWith`; whether the rollback is refused is not looked at. -/
def makeBlockchainCompliantWith (settings : UpdaterSettings) (checkpoint : Checkpoint) :
    Action Fault BlockchainUpdaterImpl Unit := do
  let u ← Action.get
  let existingItems ← Action.ofExcept (existingItems u.history checkpoint.items)
  let fork := existingItems.takeWhile fun p => p.2.signerData.signature ≠ p.1.signature
  if fork = [] then pure ()
  else
    let genesisBlockHeight : Int32 := 1
    let hh := existingItems.map (fun p => p.1.height) ++ [genesisBlockHeight]
    let height ← Action.ofExcept (getOrRaise .indexOutOfBounds hh[fork.length]?)
    let lastValidBlock ← Action.ofExcept (u.history.blockAt height.toInt.toNat)
    match lastValidBlock with
    | none => pure ()
    | some lastValidBlock => fun u =>
        match BlockchainUpdaterImpl.removeAfter settings lastValidBlock.uniqueId u with
        | (.error (.raised e), u) => (raise e, u)
        | (_, u) => (.ok (), u)

/-- `processCheckpoint`, of any checkpoint service. -/
def processCheckpoint {σ : Type} (settings : UpdaterSettings) (checkpoint : CheckpointService σ)
    (newCheckpoint : Checkpoint) : Action Fault (σ × BlockchainUpdaterImpl) Int := do
  Action.onPart Prod.fst (fun s c => (c, s.2)) (checkpoint.set newCheckpoint)
  Action.onPart Prod.snd (fun s u => (s.1, u)) (makeBlockchainCompliantWith settings newCheckpoint)
  let s ← Action.get
  Action.ofExcept s.2.history.score

end Coordinator

/-- `processCheckpoint` of the `CoordinatorHandler`, with the service and the updater of the node. -/
def CoordinatorHandler.processCheckpoint (settings : VsysSettings) (newCheckpoint : Checkpoint) :
    Action Fault Node Int :=
  Action.onPart (fun n => (n.checkpoint, n.blockchainUpdater))
    (fun n s => { n with checkpoint := s.1, blockchainUpdater := s.2 })
    (Coordinator.processCheckpoint settings.updater
      (CheckpointServiceImpl.service settings.checkpointsPublicKey) newCheckpoint)

end Vsys
