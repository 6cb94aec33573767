import Vsys.State.Reader
import Vsys.Transaction.Parser

/-!
# The persisted state

`StateStorage` is the collection of maps on disk, `StateReaderImpl` reads it, and
`StateWriterImpl.applyBlockDiff` adds a block diff to it.  Transactions and contracts are stored as
bytes and parsed when they are read.
-/

namespace Vsys

open Lib

variable [Platform]

/-- `StateSettings`: whether the listings by transaction type are kept on disk. -/
structure StateSettings where
  txTypeAccountTxIds : Bool
  deriving DecidableEq

/-- `StateStorage`.  Composite keys are tuples, and an account stands for its bytes. -/
structure StateStorage where
  height : Nat
  addressList : Dict Int String
  addressToID : Dict String Int
  transactions : Dict ByteStr (Nat × ByteStr)
  portfolios : Dict Address Portfolio
  assets : Dict ByteStr AssetInfo
  accountTransactionIds : Dict (Address × Nat) ByteStr
  accountTransactionsLengths : Dict Address Nat
  txTypeAccountTxIds : Dict ((TransactionType × Address) × Nat) ByteStr
  txTypeAccTxLengths : Dict (TransactionType × Address) Nat
  balanceSnapshots : Dict (Address × Nat) Snapshot
  aliasToAddress : Dict Alias Address
  orderFills : Dict ByteStr OrderFillInfo
  leaseState : Dict ByteStr Bool
  lastBalanceSnapshotHeight : Dict Address Nat
  lastBalanceSnapshotWeightedBalance : Dict Address Int64
  contracts : Dict ByteStr (Nat × ByteStr × ByteStr)
  accountContractIds : Dict (Address × Nat) ByteStr
  accountContractsLengths : Dict Address Nat
  contractDB : Dict ByteStr ByteStr
  contractTokens : Dict ByteStr Int32
  tokenDB : Dict ByteStr ByteStr
  tokenAccountBalance : Dict ByteStr Int64
  dbEntries : Dict ByteStr ByteStr

namespace StateStorage

/-- The storage `removeEverything` leaves. -/
def empty : StateStorage where
  height := 0
  addressList := ∅
  addressToID := ∅
  transactions := ∅
  portfolios := ∅
  assets := ∅
  accountTransactionIds := ∅
  accountTransactionsLengths := ∅
  txTypeAccountTxIds := ∅
  txTypeAccTxLengths := ∅
  balanceSnapshots := ∅
  aliasToAddress := ∅
  orderFills := ∅
  leaseState := ∅
  lastBalanceSnapshotHeight := ∅
  lastBalanceSnapshotWeightedBalance := ∅
  contracts := ∅
  accountContractIds := ∅
  accountContractsLengths := ∅
  contractDB := ∅
  contractTokens := ∅
  tokenDB := ∅
  tokenAccountBalance := ∅
  dbEntries := ∅

/-- The values of `StateMap.rangeQuery` over the numbered entries of one key. -/
def rangeQuery {K : Type} [DecidableEq K] (m : Dict (K × Nat) ByteStr) (k : K)
    (start stop : Nat) : List ByteStr :=
  (List.range' start (stop - start)).filterMap fun i => m.lookup (k, i)

/-- A listing of `StateReaderImpl`: the entries are numbered from the oldest on, and the newest
come first. -/
def listing {K : Type} [DecidableEq K] (m : Dict (K × Nat) ByteStr) (k : K)
    (totalRecords : Nat) (limit offset : Int) : Nat × List ByteStr :=
  (totalRecords, (rangeQuery m k (totalRecords - limit - offset).toNat
    (totalRecords - offset).toNat).reverse)

end StateStorage

/-- `StateReaderImpl`. -/
def StateReaderImpl.reader (p : StateStorage) : StateReader where
  accountPortfolios := p.portfolios
  transactionInfo := fun id =>
    match p.transactions.lookup id with
    | none => .ok none
    | some (h, bytes) => do
        let tx ← explicitGet (ProcessedTransactionParser.parseBytes bytes)
        .ok (some (h, tx))
  containsTransaction := fun id => (p.transactions.lookup id).isSome
  accountPortfolio := fun a => (p.portfolios.lookup a).getD Portfolio.empty
  assetInfo := fun id => do
    let info ← getOrRaise .noSuchElement (p.assets.lookup id)
    .ok (some info)
  height := p.height
  slotAddress := fun id => p.addressList.lookup id
  addressSlot := fun add => p.addressToID.lookup add
  effectiveSlotAddressSize := p.addressList.keys.card
  aliasesOfAddress := fun a =>
    (p.aliasToAddress.keys.filter fun al => p.aliasToAddress.lookup al = some a).val
  resolveAlias := fun a => p.aliasToAddress.lookup a
  contractContent := fun id =>
    match p.contracts.lookup id with
    | none => .ok none
    | some (h, txId, bytes) => do
        let contract ← explicitGet (Contract.fromBytes bytes)
        .ok (some (h, txId, contract))
  contractInfo := fun id =>
    match p.contractDB.lookup id with
    | none => .ok none
    | some bytes => some <$> explicitGet (DataEntry.fromBytes bytes)
  contractTokens := fun id => (p.contractTokens.lookup id).getD 0
  tokenInfo := fun id =>
    match p.tokenDB.lookup id with
    | none => .ok none
    | some bytes => some <$> explicitGet (DataEntry.fromBytes bytes)
  tokenAccountBalance := fun id => (p.tokenAccountBalance.lookup id).getD 0
  dbGet := fun key => p.dbEntries.lookup key
  isLeaseActive := fun leaseTx => (p.leaseState.lookup (Transaction.lease leaseTx).id).getD false
  activeLeases := (p.leaseState.keys.filter fun id => p.leaseState.lookup id = some true).val
  lastUpdateHeight := fun acc => p.lastBalanceSnapshotHeight.lookup acc
  lastUpdateWeightedBalance := fun acc => p.lastBalanceSnapshotWeightedBalance.lookup acc
  snapshotAtHeight := fun acc h => p.balanceSnapshots.lookup (acc, h)
  filledVolumeAndFee := fun orderId => (p.orderFills.lookup orderId).getD OrderFillInfo.empty
  accountTransactionIds := fun a limit offset =>
    StateStorage.listing p.accountTransactionIds a
      ((p.accountTransactionsLengths.lookup a).getD 0) limit offset
  txTypeAccountTxIds := fun txType a limit offset =>
    StateStorage.listing p.txTypeAccountTxIds (txType, a)
      ((p.txTypeAccTxLengths.lookup (txType, a)).getD 0) limit offset
  accountTransactionsLengths := fun a => (p.accountTransactionsLengths.lookup a).getD 0
  txTypeAccTxLengths := fun txType a => (p.txTypeAccTxLengths.lookup (txType, a)).getD 0

namespace StateWriterImpl

/-- The entries one listing gains: for each key its new identifiers, oldest first, numbered from
the old length on. -/
def newEntries {K : Type} [DecidableEq K] (keys : Finset K) (lengths : Dict K Nat)
    (ids : K → List ByteStr) : Dict (K × Nat) ByteStr :=
  Dict.numbered keys (fun k => (lengths.lookup k).getD 0) fun k => (ids k).reverse

/-- The lengths of one listing that change. -/
def newLengths {K : Type} [DecidableEq K] (keys : Finset K) (lengths : Dict K Nat)
    (ids : K → List ByteStr) : Dict K Nat :=
  Dict.tabulate keys fun k => (lengths.lookup k).getD 0 + (ids k).length

/-- The keys of `Diff.txTypeAccountTxIds`. -/
def txTypeAccounts (d : Diff) : Finset (TransactionType × Address) :=
  d.transactions.keys.biUnion fun id =>
    ((d.transactions.lookup id).map fun t =>
      t.2.2.image fun a => (t.2.1.transaction.transactionType, a)).getD ∅

/-- The snapshots of a block diff under their keys on disk. -/
def snapshotEntries (snapshots : Dict Address SnapshotsByHeight) :
    Dict (Address × Nat) Snapshot :=
  Dict.ofFn
    (snapshots.keys.biUnion fun a =>
      ((snapshots.lookup a).map fun f => f.byHeight.keys.image fun h => (a, h)).getD ∅)
    fun entry => (snapshots.lookup entry.1).bind fun f => f.get entry.2

/-- `StateWriterImpl.applyBlockDiff`. -/
def applyBlockDiff (stateSettings : StateSettings) (p : StateStorage) (blockDiff : BlockDiff) :
    StateStorage :=
  let txsDiff := blockDiff.txsDiff
  let txTypeAccTxIds (key : TransactionType × Address) := txsDiff.txTypeAccountTxIds key.1 key.2
  { height := p.height + blockDiff.heightDiff
    addressList := Dict.assign p.addressList txsDiff.slotids
    addressToID := Dict.assign p.addressToID txsDiff.addToSlot
    transactions := Dict.overlay p.transactions
      (Dict.mapValues (fun _ t => (t.1, t.2.1.bytes)) txsDiff.transactions)
    portfolios :=
      Dict.updateWith Portfolio.combine Portfolio.empty p.portfolios txsDiff.portfolios
    assets := Dict.updateWith AssetInfo.combine AssetInfo.empty p.assets txsDiff.issuedAssets
    accountTransactionIds := Dict.overlay p.accountTransactionIds
      (newEntries txsDiff.accounts p.accountTransactionsLengths txsDiff.accountTransactionIds)
    accountTransactionsLengths := Dict.overlay p.accountTransactionsLengths
      (newLengths txsDiff.accounts p.accountTransactionsLengths txsDiff.accountTransactionIds)
    txTypeAccountTxIds :=
      if stateSettings.txTypeAccountTxIds then
        Dict.overlay p.txTypeAccountTxIds
          (newEntries (txTypeAccounts txsDiff) p.txTypeAccTxLengths txTypeAccTxIds)
      else p.txTypeAccountTxIds
    txTypeAccTxLengths :=
      if stateSettings.txTypeAccountTxIds then
        Dict.overlay p.txTypeAccTxLengths
          (newLengths (txTypeAccounts txsDiff) p.txTypeAccTxLengths txTypeAccTxIds)
      else p.txTypeAccTxLengths
    balanceSnapshots := Dict.overlay p.balanceSnapshots (snapshotEntries blockDiff.snapshots)
    lastBalanceSnapshotHeight := Dict.overlay p.lastBalanceSnapshotHeight
      (Dict.mapValues (fun _ f => f.lastKey) blockDiff.snapshots)
    lastBalanceSnapshotWeightedBalance := Dict.overlay p.lastBalanceSnapshotWeightedBalance
      (Dict.mapValues (fun _ f => f.last.weightedBalance) blockDiff.snapshots)
    aliasToAddress := Dict.overlay p.aliasToAddress txsDiff.aliases
    orderFills :=
      Dict.updateWith OrderFillInfo.combine OrderFillInfo.empty p.orderFills txsDiff.orderFills
    leaseState := Dict.overlay p.leaseState txsDiff.leaseState
    contracts := Dict.overlay p.contracts
      (Dict.mapValues (fun _ c => (c.1, c.2.1, c.2.2.1.bytes)) txsDiff.contracts)
    accountContractIds := Dict.overlay p.accountContractIds
      (newEntries txsDiff.contractAccounts p.accountContractsLengths txsDiff.accountContractIds)
    accountContractsLengths := Dict.overlay p.accountContractsLengths
      (newLengths txsDiff.contractAccounts p.accountContractsLengths txsDiff.accountContractIds)
    contractDB := Dict.overlay p.contractDB txsDiff.contractDB
    contractTokens := Dict.updateWith (· + ·) 0 p.contractTokens txsDiff.contractTokens
    tokenDB := Dict.overlay p.tokenDB txsDiff.tokenDB
    tokenAccountBalance :=
      Dict.updateWith safeSum 0 p.tokenAccountBalance txsDiff.tokenAccountBalance
    dbEntries := Dict.overlay p.dbEntries
      (Dict.mapValues (fun _ e => e.bytes) txsDiff.dbEntries) }

end StateWriterImpl

end Vsys
