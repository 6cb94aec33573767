import Vsys.Chain.Block
import Vsys.Diffs.Transactions

/-!
# The effect of a block

`BlockDiffer` applies the transactions of a block one after another, each to the state the ones
before it have left, and takes a snapshot of every account whose balance has changed.
-/

namespace Vsys

open Lib

variable [Platform]

namespace BlockDiffer

/-- One transaction of the fold: its status and its fee must be those the block claims. -/
def txStep (settings : FunctionalitySettings) (s : StateView) (prevBlockTimestamp : Option Int64)
    (timestamp : Int64) (currentBlockHeight : Nat) (diff : Diff) (tx : ProcessedTransaction) :
    Result Diff := do
  let newDiff ← TransactionDiffer.apply settings prevBlockTimestamp timestamp currentBlockHeight
    (CompositeStateReader.view s diff.asBlockDiff) tx.transaction
  if newDiff.chargedFee = tx.feeCharged ∧ newDiff.txStatus = tx.status then
    .ok (diff.combine newDiff)
  else
    left (.transactionValidationError .invalidProcessedTransaction tx.transaction.id)

/-- The snapshot of an account with the portfolio diff `portfolioDiff`. -/
def newSnapshot (settings : FunctionalitySettings) (s : StateView) (currentBlockHeight : Nat)
    (acc : Address) (portfolioDiff : Portfolio) : Result Snapshot := do
  let oldPortfolio := s.accountPortfolio acc
  let lastHeight := (s.lastUpdateHeight acc).getD 0
  let lastWeightedBalance := (s.lastUpdateWeightedBalance acc).getD 0
  let newBalance := oldPortfolio.balance + portfolioDiff.balance
  let newEffectiveBalance := oldPortfolio.effectiveBalance + portfolioDiff.effectiveBalance
  let newWeightedBalance ←
    if portfolioDiff.effectiveBalance = 0 ∧ currentBlockHeight = lastHeight then
      .ok lastWeightedBalance
    else
      SPoSCalc.weightedBalaceCalc ((currentBlockHeight : Int) - lastHeight)
        oldPortfolio.effectiveBalance lastWeightedBalance newEffectiveBalance settings
  .ok ⟨lastHeight, newBalance, newEffectiveBalance, newWeightedBalance⟩

/-- The snapshots of the accounts whose balance or effective balance changes.  The weighted balance
is the one step that can raise, and it raises in one way. -/
def newSnapshots (settings : FunctionalitySettings) (s : StateView) (currentBlockHeight : Nat)
    (portfolios : Dict Address Portfolio) : Result (Dict Address SnapshotsByHeight) :=
  let changed := Dict.filterValues
    (fun portfolioDiff => portfolioDiff.balance ≠ 0 ∨ portfolioDiff.effectiveBalance ≠ 0) portfolios
  let snapshots := Dict.mapValues (newSnapshot settings s currentBlockHeight) changed
  if ∀ acc ∈ snapshots.keys, (snapshots.lookup acc).any Except.isOk then
    .ok (Dict.ofFn snapshots.keys fun acc => do
      let snapshot ← snapshots.lookup acc
      let snapshot ← snapshot.toOption
      some (SnapshotsByHeight.singleton currentBlockHeight snapshot))
  else raise .arithmetic

/-- `BlockDiffer.apply`. -/
def apply (settings : FunctionalitySettings) (s : StateView) (prevBlockTimestamp : Option Int64)
    (feesDistribution : Diff) (timestamp : Int64) (txs : List ProcessedTransaction)
    (heightDiff : Nat) : Result BlockDiff := do
  let currentBlockHeight := s.height + 1
  let d ← txs.foldlM (txStep settings s prevBlockTimestamp timestamp currentBlockHeight)
    feesDistribution
  let snapshots ← newSnapshots settings s currentBlockHeight d.portfolios
  .ok ⟨d, heightDiff, snapshots⟩

/-- `BlockDiffer.fromBlock`. -/
def fromBlock (settings : FunctionalitySettings) (s : StateView)
    (prevBlockTimestamp : Option Int64) (block : Block) : Result BlockDiff := do
  block.validateSignatures
  apply settings s prevBlockTimestamp block.feesDistribution block.timestamp block.transactionData 1

/-- One block of `unsafeDiffMany`, over the diff of the blocks before it. -/
def manyStep (settings : FunctionalitySettings) (s : StateView)
    (acc : BlockDiff × Option Int64) (block : Block) : Result (BlockDiff × Option Int64) := do
  let blockDiff ← explicitGet
    (fromBlock settings (CompositeStateReader.view s acc.1) acc.2 block)
  .ok (acc.1.combine blockDiff, some block.timestamp)

/-- `BlockDiffer.unsafeDiffMany`. -/
def unsafeDiffMany (settings : FunctionalitySettings) (s : StateView)
    (prevBlockTimestamp : Option Int64) (blocks : List Block) : Result BlockDiff :=
  Prod.fst <$> blocks.foldlM (manyStep settings s) (BlockDiff.empty, prevBlockTimestamp)

end BlockDiffer

end Vsys
