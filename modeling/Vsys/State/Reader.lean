import Vsys.State.Diff

/-!
# Reading the state

`StateView` is what a differ can ask a state, and `StateReader` adds the listings the API pages
through.  `CompositeStateReader` lays a block diff over a reader, with a rule for each query: some
add up, some let the newer value win, and the listings put the newer entries first.
-/

namespace Vsys

open Lib

variable [Platform]

/-- The queries of `StateReader` other than the listings of transactions. -/
@[ext]
structure StateView where
  accountPortfolios : Dict Address Portfolio
  transactionInfo : ByteStr → Result (Option (Nat × ProcessedTransaction))
  containsTransaction : ByteStr → Bool
  accountPortfolio : Address → Portfolio
  assetInfo : ByteStr → Result (Option AssetInfo)
  height : Nat
  slotAddress : Int → Option String
  addressSlot : String → Option Int
  effectiveSlotAddressSize : Int
  aliasesOfAddress : Address → Multiset Alias
  resolveAlias : Alias → Option Address
  contractContent : ByteStr → Result (Option (Nat × ByteStr × Contract))
  contractInfo : ByteStr → Result (Option DataEntry)
  contractTokens : ByteStr → Int32
  tokenInfo : ByteStr → Result (Option DataEntry)
  tokenAccountBalance : ByteStr → Int64
  dbGet : ByteStr → Option ByteStr
  isLeaseActive : LeaseTransaction → Bool
  activeLeases : Multiset ByteStr
  lastUpdateHeight : Address → Option Nat
  lastUpdateWeightedBalance : Address → Option Int64
  snapshotAtHeight : Address → Nat → Option Snapshot
  filledVolumeAndFee : ByteStr → OrderFillInfo

/-- `StateReader`: the view and the listings of transactions, with a limit and an offset. -/
@[ext]
structure StateReader extends StateView where
  accountTransactionIds : Address → Int → Int → Nat × List ByteStr
  txTypeAccountTxIds : TransactionType → Address → Int → Int → Nat × List ByteStr
  accountTransactionsLengths : Address → Nat
  txTypeAccTxLengths : TransactionType → Address → Nat

namespace StateView

/-- `findTransaction[LeaseTransaction]`. -/
def findLeaseTransaction (s : StateView) (signature : ByteStr) :
    Result (Option LeaseTransaction) := do
  match ← s.transactionInfo signature with
  | some (_, ⟨_, _, .lease tx⟩) => .ok (some tx)
  | _ => .ok none

/-- `resolveAliasEi`. -/
def resolveAliasEi (s : StateView) : AddressOrAlias → Result Address
  | .address a => .ok a
  | .alias a =>
      match s.resolveAlias a with
      | none => left (.aliasNotExists a.name)
      | some acc => .ok acc

/-- `effectiveBalance`. -/
def effectiveBalance (s : StateView) (account : Address) : Int64 :=
  (s.accountPortfolio account).effectiveBalance

/-- The loop of `minBySnapshot`.  Every step goes from a height to the `prevHeight` of its
snapshot, so the height is fuel enough as long as those fall; a walk that does not fall is the
infinite loop the code warns of. -/
def minBySnapshotLoop (s : StateView) (acc : Address) (atHeight : Nat)
    (bottomNotIncluded : Int) : Nat → Nat → List Snapshot → Result (List Snapshot)
  | 0, _, _ => raise (.exception "CRITICAL: Infinite loop")
  | fuel + 1, deeperHeight, list =>
      if deeperHeight = 0 then
        match s.snapshotAtHeight acc 1 with
        | some genesisSnapshot => .ok (genesisSnapshot :: list)
        | none => .ok (⟨0, 0, 0, 0⟩ :: list)
      else
        match s.snapshotAtHeight acc deeperHeight with
        | some snapshot =>
            if (deeperHeight : Int) ≤ bottomNotIncluded then .ok (snapshot :: list)
            else if snapshot.prevHeight = deeperHeight then
              raise (.exception "CRITICAL: Infinite loop detected")
            else if atHeight < deeperHeight ∧ atHeight < snapshot.prevHeight then
              minBySnapshotLoop s acc atHeight bottomNotIncluded fuel snapshot.prevHeight list
            else
              minBySnapshotLoop s acc atHeight bottomNotIncluded fuel snapshot.prevHeight
                (snapshot :: list)
        | none => raise (.exception "CRITICAL: Cannot lookup referenced height")

/-- The snapshots `minBySnapshot` takes the minimum of. -/
def snapshotsToMin (s : StateView) (acc : Address) (atHeight confirmations : Nat) :
    Result (List Snapshot) :=
  let bottomNotIncluded := (atHeight : Int) - confirmations
  match s.lastUpdateHeight acc with
  | none => .ok [⟨0, 0, 0, 0⟩]
  | some h =>
      if (h : Int) < bottomNotIncluded then
        let pf := s.accountPortfolio acc
        .ok [⟨h, pf.balance, pf.effectiveBalance, (s.lastUpdateWeightedBalance acc).getD 0⟩]
      else minBySnapshotLoop s acc atHeight bottomNotIncluded (h + 1) h []

/-- `minBySnapshot`. -/
def minBySnapshot (s : StateView) (acc : Address) (atHeight confirmations : Nat)
    (extractor : Snapshot → Int64) : Result Int64 := do
  match ← s.snapshotsToMin acc atHeight confirmations with
  | [] => raise .unsupportedOperation
  | first :: rest =>
      .ok (rest.foldl (fun least snapshot => min least (extractor snapshot)) (extractor first))

/-- `effectiveBalanceAtHeightWithConfirmations`. -/
def effectiveBalanceAtHeightWithConfirmations (s : StateView) (acc : Address)
    (atHeight confirmations : Nat) : Result Int64 :=
  s.minBySnapshot acc atHeight confirmations Snapshot.effectiveBalance

/-- The loop of `balanceAtHeight` and `weightedBalanceAtHeight`, with the height it looks up, of
which one more is fuel enough as long as the links of the snapshots lead down. -/
def atHeightLoop (s : StateView) (acc : Address) (height : Int) (extractor : Snapshot → Int64) :
    Nat → Nat → Result Int64
  | 0, _ => raise (.exception "Cannot lookup account")
  | fuel + 1, lookupHeight =>
      match s.snapshotAtHeight acc lookupHeight with
      | none =>
          if lookupHeight = 0 then .ok 0
          else raise (.exception "No history found at requested lookupHeight")
      | some snapshot =>
          if (lookupHeight : Int) ≤ height then .ok (extractor snapshot)
          else atHeightLoop s acc height extractor fuel snapshot.prevHeight

/-- `balanceAtHeight`. -/
def balanceAtHeight (s : StateView) (acc : Address) (height : Int) : Result Int64 :=
  let lastHeight := (s.lastUpdateHeight acc).getD 0
  s.atHeightLoop acc height Snapshot.balance (lastHeight + 1) lastHeight

/-- `weightedBalanceAtHeight`. -/
def weightedBalanceAtHeight (s : StateView) (acc : Address) (height : Int) : Result Int64 :=
  let lastHeight := (s.lastUpdateHeight acc).getD 0
  s.atHeightLoop acc height Snapshot.weightedBalance (lastHeight + 1) lastHeight

end StateView

namespace CompositeStateReader

/-- The queries of `CompositeStateReader` that a differ can ask. -/
def view (inner : StateView) (blockDiff : BlockDiff) : StateView :=
  let txDiff := blockDiff.txsDiff
  { accountPortfolios :=
      Dict.mergeWith Portfolio.combine inner.accountPortfolios txDiff.portfolios
    transactionInfo := fun id =>
      match txDiff.transactions.lookup id with
      | some t => .ok (some (t.1, t.2.1))
      | none => inner.transactionInfo id
    containsTransaction := fun id =>
      (txDiff.transactions.lookup id).isSome || inner.containsTransaction id
    accountPortfolio := fun a =>
      (inner.accountPortfolio a).combine ((txDiff.portfolios.lookup a).getD Portfolio.empty)
    assetInfo := fun id => do
      match ← inner.assetInfo id, txDiff.issuedAssets.lookup id with
      | none, none => .ok none
      | existing, upd =>
          .ok (some ((existing.getD AssetInfo.empty).combine (upd.getD AssetInfo.empty)))
    height := inner.height + blockDiff.heightDiff
    slotAddress := fun id => (txDiff.slotids.lookup id).getD (inner.slotAddress id)
    addressSlot := fun add => (txDiff.addToSlot.lookup add).getD (inner.addressSlot add)
    effectiveSlotAddressSize := inner.effectiveSlotAddressSize + txDiff.slotNum
    aliasesOfAddress := fun a =>
      (txDiff.aliases.keys.filter fun al => txDiff.aliases.lookup al = some a).val
        + inner.aliasesOfAddress a
    resolveAlias := fun a => (txDiff.aliases.lookup a).or (inner.resolveAlias a)
    contractContent := fun id =>
      match txDiff.contracts.lookup id with
      | some t => .ok (some (t.1, t.2.1, t.2.2.1))
      | none => inner.contractContent id
    contractInfo := fun id =>
      match txDiff.contractDB.lookup id with
      | some t => some <$> explicitGet (DataEntry.fromBytes t)
      | none => inner.contractInfo id
    contractTokens := fun id =>
      inner.contractTokens id + (txDiff.contractTokens.lookup id).getD 0
    tokenInfo := fun id =>
      match txDiff.tokenDB.lookup id with
      | some t => some <$> explicitGet (DataEntry.fromBytes t)
      | none => inner.tokenInfo id
    tokenAccountBalance := fun id =>
      safeSum ((txDiff.tokenAccountBalance.lookup id).getD 0) (inner.tokenAccountBalance id)
    dbGet := fun key =>
      ((txDiff.dbEntries.lookup key).map Entry.bytes).or (inner.dbGet key)
    isLeaseActive := fun leaseTx =>
      (txDiff.leaseState.lookup (Transaction.lease leaseTx).id).getD (inner.isLeaseActive leaseTx)
    activeLeases :=
      (txDiff.leaseState.keys.filter fun id => txDiff.leaseState.lookup id = some true).val
        + inner.activeLeases.filter fun id => (txDiff.leaseState.lookup id).getD true = true
    lastUpdateHeight := fun acc =>
      ((blockDiff.snapshots.lookup acc).map SnapshotsByHeight.lastKey).or
        (inner.lastUpdateHeight acc)
    lastUpdateWeightedBalance := fun acc =>
      ((blockDiff.snapshots.lookup acc).map fun f => f.last.weightedBalance).or
        (inner.lastUpdateWeightedBalance acc)
    snapshotAtHeight := fun acc h =>
      ((blockDiff.snapshots.lookup acc).bind fun f => f.get h).or (inner.snapshotAtHeight acc h)
    filledVolumeAndFee := fun orderId =>
      ((txDiff.orderFills.lookup orderId).getD OrderFillInfo.empty).combine
        (inner.filledVolumeAndFee orderId) }

/-- A listing of `CompositeStateReader`: the diff's entries first, then the inner reader's, whose
limit and offset are what the diff's entries leave of them. -/
def listing (fromDiffOrg : List ByteStr) (innerLength : Nat)
    (innerIds : Int → Int → Nat × List ByteStr) (limit offset : Int) : Nat × List ByteStr :=
  let offsetNew := max 0 (offset - fromDiffOrg.length)
  let fromDiff := fromDiffOrg.drop offset.toNat
  if limit ≤ fromDiff.length then
    (fromDiffOrg.length + innerLength, fromDiff.take limit.toNat)
  else
    let fromState := innerIds (limit - fromDiff.length) offsetNew
    (fromDiffOrg.length + fromState.1, fromDiff ++ fromState.2)

/-- `CompositeStateReader`. -/
def reader (inner : StateReader) (blockDiff : BlockDiff) : StateReader where
  toStateView := view inner.toStateView blockDiff
  accountTransactionIds := fun a limit offset =>
    listing (blockDiff.txsDiff.accountTransactionIds a) (inner.accountTransactionsLengths a)
      (inner.accountTransactionIds a) limit offset
  txTypeAccountTxIds := fun txType a limit offset =>
    listing (blockDiff.txsDiff.txTypeAccountTxIds txType a) (inner.txTypeAccTxLengths txType a)
      (inner.txTypeAccountTxIds txType a) limit offset
  accountTransactionsLengths := fun a =>
    (blockDiff.txsDiff.accountTransactionIds a).length + inner.accountTransactionsLengths a
  txTypeAccTxLengths := fun txType a =>
    (blockDiff.txsDiff.txTypeAccountTxIds txType a).length + inner.txTypeAccTxLengths txType a

end CompositeStateReader

end Vsys
