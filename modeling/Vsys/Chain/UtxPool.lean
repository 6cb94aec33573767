import Mathlib.Data.Prod.Lex
import Mathlib.Data.String.Basic
import Vsys.Lib.Action
import Vsys.Chain.History
import Vsys.Chain.PessimisticPortfolios
import Vsys.Diffs.Transactions

/-!
# The pool of unconfirmed transactions

`TransactionsOrdering.InUTXPool`, and `UtxPool`: transactions enter it when the state accepts them,
and the miner packs a block of those the state still accepts one after another.
-/

namespace Vsys

open Lib

variable [Platform]

namespace TransactionsOrdering

/-- `orderBy` of `InUTXPool`: the fee scale, the fee, the timestamp and the identifier. -/
def orderBy (t : Transaction) : Int ×ₗ Int ×ₗ Int ×ₗ String :=
  let byFeeScale := (-t.assetFee.2.2).toInt
  let byFee := if t.assetFee.1.isSome then 0 else (-t.assetFee.2.1).toInt
  toLex (byFeeScale, toLex (byFee, toLex (t.timestamp.toInt, Platform.base58 t.id)))

/-- `sorted(InUTXPool)`, which is stable. -/
def sorted (txs : List Transaction) : List Transaction :=
  txs.mergeSort fun x y => orderBy x ≤ orderBy y

end TransactionsOrdering

/-- The minimal fees by transaction type and fee asset, from `FeesSettings`. -/
abbrev FeeCalculator := Dict (Byte × Option ByteStr) Int64

/-- `FeeCalculator.enoughFee`. -/
def FeeCalculator.enoughFee (map : FeeCalculator) (tx : Transaction) : Result Unit :=
  let asset := tx.assetFee.1
  let type := tx.transactionType
  match map.lookup (type.id, asset) with
  | some minimumFee =>
      let assetName := (asset.map Platform.base58).getD "VSYS"
      cond (minimumFee ≤ tx.assetFee.2.1)
        (.genericError
          s!"Fee in {assetName} for {type.name} transaction does not exceed minimal value of {minimumFee}")
  | none =>
      let assetText := optionText (asset.map Platform.base58)
      left (.genericError
        s!"Minimum fee is not defined for TransactionAssetFee({type.id}, {assetText})")

/-- `UtxSettings`, the age in nanoseconds, and the minimal fees. -/
structure UtxSettings where
  maxSize : Nat
  maxTransactionAge : Int64
  feeCalculator : FeeCalculator

/-- The transactions of the pool, the outcomes it remembers, and what the transactions take away. -/
structure UtxPool where
  transactions : Dict ByteStr Transaction
  knownTransactions : Dict ByteStr (Except ValidationError Transaction)
  pessimisticPortfolios : PessimisticPortfolios

namespace UtxPool

/-- The pool of a node that has just started. -/
def empty : UtxPool := ⟨∅, ∅, PessimisticPortfolios.empty⟩

/-- The transactions of the pool, as its map lists them. -/
def values (pool : UtxPool) : List Transaction :=
  (Platform.setToList pool.transactions.keys).filterMap pool.transactions.lookup

/-- `isExpired`; the one age that is no duration raises. -/
def isExpired (utxSettings : UtxSettings) (currentTs : Int64) (tx : Transaction) : Result Bool :=
  let age := currentTs - tx.timestamp
  if age = Int64.minValue then raise .illegalArgument
  else .ok (utxSettings.maxTransactionAge < age)

/-- The pool without one of its transactions. -/
def drop (pool : UtxPool) (id : ByteStr) : UtxPool :=
  { pool with
    transactions := pool.transactions.erase id
    pessimisticPortfolios := pool.pessimisticPortfolios.remove id }

/-- `removeExpired`. -/
def removeExpired (utxSettings : UtxSettings) (currentTs : Int64) : Action Fault UtxPool Unit := do
  let pool ← Action.get
  Action.forEach (fun tx => do
    let expired ← Action.ofExcept (isExpired utxSettings currentTs tx)
    if expired then Action.modify fun pool => pool.drop tx.id
    else pure ()) pool.values

/-- What a transaction must pass to enter the pool, and its diff. -/
def validate (fs : FunctionalitySettings) (utxSettings : UtxSettings) (stateReader : StateView)
    (history : History) (currentTs : Int64) (pool : UtxPool) (tx : Transaction) : Result Diff := do
  cond (pool.transactions.keys.card < utxSettings.maxSize)
    (.genericError "Transaction pool size limit is reached")
  cond (tx.transactionType ≠ .mintingTransaction)
    (.genericError "Cannot add MintingTransaction to transaction pool")
  utxSettings.feeCalculator.enoughFee tx
  let last ← history.lastBlock
  TransactionDiffer.apply fs (last.map Block.timestamp) currentTs stateReader.height stateReader tx

/-- The pool after its cache has taken the outcome of a transaction. -/
def remember (utxSettings : UtxSettings) (id : ByteStr) (outcome : Except ValidationError Transaction)
    (pool : UtxPool) : UtxPool :=
  let known := pool.knownTransactions.insert id outcome
  { pool with
    knownTransactions :=
      Dict.ofFn (Platform.cached (2 * utxSettings.maxSize) known.keys) known.lookup }

/-- `putIfNew`. -/
def putIfNew (fs : FunctionalitySettings) (utxSettings : UtxSettings) (stateReader : StateView)
    (history : History) (currentTs : Int64) (tx : Transaction) : Action Fault UtxPool Bool := do
  let pool ← Action.get
  match pool.knownTransactions.lookup tx.id with
  | some (.ok _) => pure false
  | some (.error er) => Action.ofExcept (left er)
  | none =>
      match validate fs utxSettings stateReader history currentTs pool tx with
      | .ok diff =>
          Action.modify fun pool =>
            remember utxSettings tx.id (.ok tx)
              { pool with
                transactions := pool.transactions.insert tx.id tx
                pessimisticPortfolios := pool.pessimisticPortfolios.add tx.id diff }
          pure true
      | .error (.left er) =>
          Action.modify (remember utxSettings tx.id (.error er))
          Action.ofExcept (left er)
      | .error (.raised e) => Action.ofExcept (raise e)

/-- `removeAll`. -/
def removeAll (utxSettings : UtxSettings) (currentTs : Int64) (txs : List Transaction) :
    Action Fault UtxPool Unit := do
  removeExpired utxSettings currentTs
  Action.forEach (fun tx => Action.modify fun pool =>
    { pool.drop tx.id with knownTransactions := pool.knownTransactions.erase tx.id }) txs

/-- `portfolio`. -/
def portfolio (order : SetOrder Portfolio) (stateReader : StateView) (pool : UtxPool)
    (addr : Address) : Portfolio :=
  (stateReader.accountPortfolio addr).combine
    (pool.pessimisticPortfolios.getAggregated order addr)

/-- What the fold of `packUnconfirmed` carries: the invalid identifiers and the valid transactions,
the last first, and the diff of the valid ones. -/
structure Packing where
  invalid : List ByteStr
  valid : List ProcessedTransaction
  diff : Diff

/-- One transaction of the fold of `packUnconfirmed`. -/
def packStep (fs : FunctionalitySettings) (stateReader : StateView)
    (prevBlockTimestamp : Option Int64) (currentTs : Int64) (packing : Packing)
    (tx : Transaction) : Result Packing :=
  if packing.valid.length < Block.MaxTransactionsPerBlockVer1 - 1 then
    match TransactionDiffer.apply fs prevBlockTimestamp currentTs stateReader.height
        (CompositeStateReader.view stateReader packing.diff.asBlockDiff) tx with
    | .ok newDiff =>
        .ok { packing with
          valid := ⟨newDiff.txStatus, newDiff.chargedFee, tx⟩ :: packing.valid
          diff := packing.diff.combine newDiff }
    | .error (.left _) => .ok { packing with invalid := tx.id :: packing.invalid }
    | .error (.raised e) => raise e
  else .ok packing

/-- `packUnconfirmed`. -/
def packUnconfirmed (fs : FunctionalitySettings) (utxSettings : UtxSettings)
    (stateReader : StateView) (history : History) (currentTs : Int64) :
    Action Fault UtxPool (List ProcessedTransaction) := do
  removeExpired utxSettings currentTs
  let last ← Action.ofExcept history.lastBlock
  let pool ← Action.get
  let packing ← Action.ofExcept ((TransactionsOrdering.sorted pool.values).foldlM
    (packStep fs stateReader (last.map Block.timestamp) currentTs) ⟨[], [], Diff.empty⟩)
  Action.modify fun pool => packing.invalid.foldl drop pool
  pure packing.valid.reverse

end UtxPool

end Vsys
