import Mathlib.Data.Finset.Max
import Mathlib.Data.Finset.Union
import Vsys.Lib.Word
import Vsys.Lib.Dict
import Vsys.Transaction.Types

/-!
# Portfolios and diffs

What a transaction and a block change: portfolios that add up with `safeSum`, the maps of a `Diff`
with their rules of combination, and the snapshots a `BlockDiff` adds.
-/

namespace Vsys

open Lib

/-- `safeSum`: the sum, or `Long.MinValue` when it does not fit. -/
def safeSum (x y : Int64) : Int64 := (addExact x y).getD Int64.minValue

/-- `Snapshot`. -/
structure Snapshot where
  prevHeight : Nat
  balance : Int64
  effectiveBalance : Int64
  weightedBalance : Int64
  deriving DecidableEq

/-- `LeaseInfo`. -/
@[ext]
structure LeaseInfo where
  leaseIn : Int64
  leaseOut : Int64
  deriving DecidableEq

/-- `LeaseInfo.empty`. -/
def LeaseInfo.empty : LeaseInfo := ⟨0, 0⟩

/-- `leaseInfoMonoid.combine`. -/
def LeaseInfo.combine (x y : LeaseInfo) : LeaseInfo :=
  ⟨safeSum x.leaseIn y.leaseIn, safeSum x.leaseOut y.leaseOut⟩

/-- `OrderFillInfo`. -/
structure OrderFillInfo where
  volume : Int64
  fee : Int64
  deriving DecidableEq

/-- `OrderFillInfo.empty`. -/
def OrderFillInfo.empty : OrderFillInfo := ⟨0, 0⟩

/-- `orderFillInfoMonoid.combine`. -/
def OrderFillInfo.combine (x y : OrderFillInfo) : OrderFillInfo :=
  ⟨x.volume + y.volume, x.fee + y.fee⟩

/-- `AssetInfo`. -/
structure AssetInfo where
  isReissuable : Bool
  volume : Int64
  deriving DecidableEq

/-- `assetInfoMonoid.empty`. -/
def AssetInfo.empty : AssetInfo := ⟨true, 0⟩

/-- `assetInfoMonoid.combine`. -/
def AssetInfo.combine (x y : AssetInfo) : AssetInfo :=
  ⟨x.isReissuable && y.isReissuable, x.volume + y.volume⟩

/-- `Portfolio`. -/
@[ext]
structure Portfolio where
  balance : Int64
  leaseInfo : LeaseInfo
  assets : Dict ByteStr Int64
  deriving DecidableEq

namespace Portfolio

/-- `portfolioMonoid.empty`. -/
def empty : Portfolio := ⟨0, LeaseInfo.empty, ∅⟩

/-- `portfolioMonoid.combine`. -/
def combine (older newer : Portfolio) : Portfolio :=
  ⟨safeSum older.balance newer.balance, older.leaseInfo.combine newer.leaseInfo,
    Dict.mergeWith safeSum older.assets newer.assets⟩

/-- `effectiveBalance`: what is owned and leased in, less what is leased out. -/
def effectiveBalance (p : Portfolio) : Int64 :=
  safeSum p.balance p.leaseInfo.leaseIn - p.leaseInfo.leaseOut

/-- `spendableBalance`. -/
def spendableBalance (p : Portfolio) : Int64 := p.balance - p.leaseInfo.leaseOut

/-- A portfolio that changes the balance alone. -/
def ofBalance (balance : Int64) : Portfolio := ⟨balance, LeaseInfo.empty, ∅⟩

end Portfolio

variable [Platform]

/-- The effect of a transaction: the optional arguments of `Diff.apply`, with their defaults. -/
@[ext]
structure Changes where
  portfolios : Dict Address Portfolio := ∅
  issuedAssets : Dict ByteStr AssetInfo := ∅
  aliases : Dict Alias Address := ∅
  slotids : Dict Int (Option String) := ∅
  addToSlot : Dict String (Option Int) := ∅
  slotNum : Int := 0
  txStatus : TransactionStatus := .success
  chargedFee : Int64 := 0
  contracts : Dict ByteStr (Nat × ByteStr × Contract × Finset Address) := ∅
  contractDB : Dict ByteStr ByteStr := ∅
  contractTokens : Dict ByteStr Int32 := ∅
  tokenDB : Dict ByteStr ByteStr := ∅
  tokenAccountBalance : Dict ByteStr Int64 := ∅
  dbEntries : Dict ByteStr Entry := ∅
  orderFills : Dict ByteStr OrderFillInfo := ∅
  leaseState : Dict ByteStr Bool := ∅

/-- `Diff`: the transactions with their heights and the accounts they touch, and their effect. -/
@[ext]
structure Diff extends Changes where
  transactions : Dict ByteStr (Nat × ProcessedTransaction × Finset Address)

namespace Diff

/-- `Diff.apply`: the diff of one transaction. -/
def apply (height : Nat) (tx : Transaction) (c : Changes) (relatedAddress : Dict Address Bool) :
    Diff where
  toChanges := c
  transactions := Finmap.singleton tx.id
    (height, ⟨c.txStatus, c.chargedFee, tx⟩, c.portfolios.keys ∪ relatedAddress.keys)

/-- `Diff.empty`. -/
def empty : Diff where
  toChanges := { txStatus := .unprocessed }
  transactions := ∅

/-- `diffMonoid.combine`. -/
def combine (older newer : Diff) : Diff where
  transactions := Dict.overlay older.transactions newer.transactions
  portfolios := Dict.mergeWith Portfolio.combine older.portfolios newer.portfolios
  issuedAssets := Dict.mergeWith AssetInfo.combine older.issuedAssets newer.issuedAssets
  aliases := Dict.overlay older.aliases newer.aliases
  slotids := Dict.overlay older.slotids newer.slotids
  addToSlot := Dict.overlay older.addToSlot newer.addToSlot
  slotNum := older.slotNum + newer.slotNum
  txStatus := newer.txStatus
  chargedFee := newer.chargedFee
  contracts := Dict.overlay older.contracts newer.contracts
  contractDB := Dict.overlay older.contractDB newer.contractDB
  contractTokens := Dict.mergeWith (· + ·) older.contractTokens newer.contractTokens
  tokenDB := Dict.overlay older.tokenDB newer.tokenDB
  tokenAccountBalance :=
    Dict.mergeWith (· + ·) older.tokenAccountBalance newer.tokenAccountBalance
  dbEntries := Dict.overlay older.dbEntries newer.dbEntries
  orderFills := Dict.mergeWith OrderFillInfo.combine older.orderFills newer.orderFills
  leaseState := Dict.overlay older.leaseState newer.leaseState

/-- The transactions of the diff that touch `a` and satisfy `p`. -/
def touching (d : Diff) (a : Address) (p : ProcessedTransaction → Bool) : Finset ByteStr :=
  d.transactions.keys.filter fun id =>
    (d.transactions.lookup id).any fun t => a ∈ t.2.2 ∧ p t.2.1

/-- The sort key of a transaction, `(-height, -timestamp)`. -/
def age (d : Diff) (id : ByteStr) : Int × Int :=
  match d.transactions.lookup id with
  | some (h, p, _) => (-(h : Int), (-p.transaction.timestamp).toInt)
  | none => (0, 0)

/-- `sortBy { case (h, t, _) => (-h, -t) }` of a set of identifiers. -/
def freshHead (d : Diff) (ids : Finset ByteStr) : List ByteStr :=
  (Platform.setToList ids).mergeSort fun x y =>
    (d.age x).1 < (d.age y).1 ∨ ((d.age x).1 = (d.age y).1 ∧ (d.age x).2 ≤ (d.age y).2)

/-- `accountTransactionIds`, newest first; no transactions where the account is none of its
keys. -/
def accountTransactionIds (d : Diff) (a : Address) : List ByteStr :=
  d.freshHead (d.touching a fun _ => true)

/-- `txTypeAccountTxIds`. -/
def txTypeAccountTxIds (d : Diff) (txType : TransactionType) (a : Address) : List ByteStr :=
  d.freshHead (d.touching a fun p => p.transaction.transactionType = txType)

/-- `accountContractIds`, newest first. -/
def accountContractIds (d : Diff) (a : Address) : List ByteStr :=
  let ids := d.contracts.keys.filter fun id =>
    (d.contracts.lookup id).any fun c => a ∈ c.2.2.2
  (Platform.setToList ids).mergeSort fun x y =>
    ((d.contracts.lookup y).map fun c => c.1).getD 0
      ≤ ((d.contracts.lookup x).map fun c => c.1).getD 0

/-- The keys of `accountContractIds`. -/
def contractAccounts (d : Diff) : Finset Address :=
  d.contracts.keys.biUnion fun id => ((d.contracts.lookup id).map fun c => c.2.2.2).getD ∅

/-- The keys of `accountTransactionIds`: the accounts the diff's transactions touch. -/
def accounts (d : Diff) : Finset Address :=
  d.transactions.keys.biUnion fun id => ((d.transactions.lookup id).map fun t => t.2.2).getD ∅

end Diff

/-- A `SortedMap` from heights to snapshots, never empty. -/
@[ext]
structure SnapshotsByHeight where
  byHeight : Dict Nat Snapshot
  nonempty : byHeight.keys.Nonempty

namespace SnapshotsByHeight

/-- The map with one snapshot. -/
def singleton (h : Nat) (s : Snapshot) : SnapshotsByHeight where
  byHeight := Finmap.singleton h s
  nonempty := by rw [Finmap.keys_singleton]; exact Finset.singleton_nonempty h

/-- `++`. -/
def append (f₁ f₂ : SnapshotsByHeight) : SnapshotsByHeight where
  byHeight := Dict.overlay f₁.byHeight f₂.byHeight
  nonempty := by
    rw [Dict.keys_overlay]
    exact f₂.nonempty.mono Finset.subset_union_left

/-- `get`. -/
def get (f : SnapshotsByHeight) (h : Nat) : Option Snapshot := f.byHeight.lookup h

/-- `lastKey`. -/
def lastKey (f : SnapshotsByHeight) : Nat := f.byHeight.keys.max' f.nonempty

/-- The value at `lastKey`. -/
def last (f : SnapshotsByHeight) : Snapshot :=
  (f.byHeight.lookup f.lastKey).get
    (Dict.mem_keys_iff_isSome.mp (f.byHeight.keys.max'_mem f.nonempty))

end SnapshotsByHeight

/-- `BlockDiff`. -/
@[ext]
structure BlockDiff where
  txsDiff : Diff
  heightDiff : Nat
  snapshots : Dict Address SnapshotsByHeight

namespace BlockDiff

/-- `BlockDiff.empty`. -/
def empty : BlockDiff := ⟨Diff.empty, 0, ∅⟩

/-- `blockDiffMonoid.combine`. -/
def combine (older newer : BlockDiff) : BlockDiff where
  txsDiff := older.txsDiff.combine newer.txsDiff
  heightDiff := older.heightDiff + newer.heightDiff
  snapshots := Dict.mergeWith SnapshotsByHeight.append older.snapshots newer.snapshots

end BlockDiff

/-- `asBlockDiff`. -/
def Diff.asBlockDiff (d : Diff) : BlockDiff := ⟨d, 0, ∅⟩

end Vsys
