import Vsys.Lib.Writes
import Vsys.State.Persisting

/-!
# The writes of a diff

`StateWriterImpl.applyBlockDiff` writes a diff put by put: section after section in the order of
the source, the keys of each section in whatever order its map has them, and the height last.  Run
to the end, the writes do what the diff does at once, in every order.
-/

namespace Vsys

open Lib

section Platform

variable [Platform]

namespace StateStorage

/-- `sp().transactions`. -/
def transactionsPart : Part StateStorage (Dict ByteStr (Nat × ByteStr)) :=
  ⟨transactions, fun p m => { p with transactions := m }, fun _ _ => rfl, fun _ _ _ => rfl,
    fun _ => rfl⟩

/-- `sp().orderFills`. -/
def orderFillsPart : Part StateStorage (Dict ByteStr OrderFillInfo) :=
  ⟨orderFills, fun p m => { p with orderFills := m }, fun _ _ => rfl, fun _ _ _ => rfl,
    fun _ => rfl⟩

/-- `sp().portfolios`. -/
def portfoliosPart : Part StateStorage (Dict Address Portfolio) :=
  ⟨portfolios, fun p m => { p with portfolios := m }, fun _ _ => rfl, fun _ _ _ => rfl,
    fun _ => rfl⟩

/-- `sp().assets`. -/
def assetsPart : Part StateStorage (Dict ByteStr AssetInfo) :=
  ⟨assets, fun p m => { p with assets := m }, fun _ _ => rfl, fun _ _ _ => rfl, fun _ => rfl⟩

/-- `sp().accountTransactionIds` and their lengths. -/
def accountTransactionsPart :
    Part StateStorage (Dict (Address × Nat) ByteStr × Dict Address Nat) :=
  ⟨fun p => (p.accountTransactionIds, p.accountTransactionsLengths),
    fun p m => { p with accountTransactionIds := m.1, accountTransactionsLengths := m.2 },
    fun _ _ => rfl, fun _ _ _ => rfl, fun _ => rfl⟩

/-- `sp().txTypeAccountTxIds` and their lengths. -/
def txTypeAccountTxIdsPart : Part StateStorage
    (Dict ((TransactionType × Address) × Nat) ByteStr × Dict (TransactionType × Address) Nat) :=
  ⟨fun p => (p.txTypeAccountTxIds, p.txTypeAccTxLengths),
    fun p m => { p with txTypeAccountTxIds := m.1, txTypeAccTxLengths := m.2 },
    fun _ _ => rfl, fun _ _ _ => rfl, fun _ => rfl⟩

/-- The snapshots, with the last height and the last weighted balance of each account. -/
abbrev SnapshotMaps :=
  Dict (Address × Nat) Snapshot × Dict Address Nat × Dict Address Int64

/-- `sp().balanceSnapshots`, `sp().lastBalanceSnapshotHeight` and
`sp().lastBalanceSnapshotWeightedBalance`. -/
def snapshotsPart : Part StateStorage SnapshotMaps :=
  ⟨fun p => (p.balanceSnapshots, p.lastBalanceSnapshotHeight,
      p.lastBalanceSnapshotWeightedBalance),
    fun p m => { p with
      balanceSnapshots := m.1
      lastBalanceSnapshotHeight := m.2.1
      lastBalanceSnapshotWeightedBalance := m.2.2 },
    fun _ _ => rfl, fun _ _ _ => rfl, fun _ => rfl⟩

/-- `sp().aliasToAddress`. -/
def aliasToAddressPart : Part StateStorage (Dict Alias Address) :=
  ⟨aliasToAddress, fun p m => { p with aliasToAddress := m }, fun _ _ => rfl, fun _ _ _ => rfl,
    fun _ => rfl⟩

/-- `sp().contracts`. -/
def contractsPart : Part StateStorage (Dict ByteStr (Nat × ByteStr × ByteStr)) :=
  ⟨contracts, fun p m => { p with contracts := m }, fun _ _ => rfl, fun _ _ _ => rfl, fun _ => rfl⟩

/-- `sp().accountContractIds` and their lengths. -/
def accountContractsPart : Part StateStorage (Dict (Address × Nat) ByteStr × Dict Address Nat) :=
  ⟨fun p => (p.accountContractIds, p.accountContractsLengths),
    fun p m => { p with accountContractIds := m.1, accountContractsLengths := m.2 },
    fun _ _ => rfl, fun _ _ _ => rfl, fun _ => rfl⟩

/-- `sp().contractDB`. -/
def contractDBPart : Part StateStorage (Dict ByteStr ByteStr) :=
  ⟨contractDB, fun p m => { p with contractDB := m }, fun _ _ => rfl, fun _ _ _ => rfl,
    fun _ => rfl⟩

/-- `sp().contractTokens`. -/
def contractTokensPart : Part StateStorage (Dict ByteStr Int32) :=
  ⟨contractTokens, fun p m => { p with contractTokens := m }, fun _ _ => rfl, fun _ _ _ => rfl,
    fun _ => rfl⟩

/-- `sp().tokenDB`. -/
def tokenDBPart : Part StateStorage (Dict ByteStr ByteStr) :=
  ⟨tokenDB, fun p m => { p with tokenDB := m }, fun _ _ => rfl, fun _ _ _ => rfl, fun _ => rfl⟩

/-- `sp().tokenAccountBalance`. -/
def tokenAccountBalancePart : Part StateStorage (Dict ByteStr Int64) :=
  ⟨tokenAccountBalance, fun p m => { p with tokenAccountBalance := m }, fun _ _ => rfl,
    fun _ _ _ => rfl, fun _ => rfl⟩

/-- `sp().dbEntries`. -/
def dbEntriesPart : Part StateStorage (Dict ByteStr ByteStr) :=
  ⟨dbEntries, fun p m => { p with dbEntries := m }, fun _ _ => rfl, fun _ _ _ => rfl, fun _ => rfl⟩

/-- `sp().leaseState`. -/
def leaseStatePart : Part StateStorage (Dict ByteStr Bool) :=
  ⟨leaseState, fun p m => { p with leaseState := m }, fun _ _ => rfl, fun _ _ _ => rfl,
    fun _ => rfl⟩

/-- `sp().addressList`, which `setSlotAddress` and `releaseSlotAddress` write. -/
def addressListPart : Part StateStorage (Dict Int String) :=
  ⟨addressList, fun p m => { p with addressList := m }, fun _ _ => rfl, fun _ _ _ => rfl,
    fun _ => rfl⟩

/-- `sp().addressToID`, which `setAddressSlot` and `releaseAddressSlot` write. -/
def addressToIDPart : Part StateStorage (Dict String Int) :=
  ⟨addressToID, fun p m => { p with addressToID := m }, fun _ _ => rfl, fun _ _ _ => rfl,
    fun _ => rfl⟩

end StateStorage

namespace StateWriterImpl

open StateStorage

/-- The orders in which `applyBlockDiff` goes through the maps of a diff. -/
structure Schedule (d : BlockDiff) where
  transactions : Enumeration d.txsDiff.transactions.keys
  orderFills : Enumeration d.txsDiff.orderFills.keys
  portfolios : Enumeration d.txsDiff.portfolios.keys
  issuedAssets : Enumeration d.txsDiff.issuedAssets.keys
  accounts : Enumeration d.txsDiff.accounts
  txTypeAccounts : Enumeration (txTypeAccounts d.txsDiff)
  snapshots : Enumeration d.snapshots.keys
  snapshotHeights : ∀ f : SnapshotsByHeight, Enumeration f.byHeight.keys
  aliases : Enumeration d.txsDiff.aliases.keys
  contracts : Enumeration d.txsDiff.contracts.keys
  contractAccounts : Enumeration d.txsDiff.contractAccounts
  contractDB : Enumeration d.txsDiff.contractDB.keys
  contractTokens : Enumeration d.txsDiff.contractTokens.keys
  tokenDB : Enumeration d.txsDiff.tokenDB.keys
  tokenAccountBalance : Enumeration d.txsDiff.tokenAccountBalance.keys
  dbEntries : Enumeration d.txsDiff.dbEntries.keys
  leaseState : Enumeration d.txsDiff.leaseState.keys
  slotids : Enumeration d.txsDiff.slotids.keys
  addToSlot : Enumeration d.txsDiff.addToSlot.keys

/-- Writes one snapshot of an account. -/
def putSnapshot (a : Address) (f : SnapshotsByHeight) (h : Nat) (t : SnapshotMaps) :
    SnapshotMaps :=
  match f.get h with
  | some s => (t.1.insert (a, h) s, t.2)
  | none => t

/-- Writes the last height of an account. -/
def putLastHeight (a : Address) (f : SnapshotsByHeight) (t : SnapshotMaps) : SnapshotMaps :=
  (t.1, t.2.1.insert a f.lastKey, t.2.2)

/-- Writes the last weighted balance of an account. -/
def putLastWeightedBalance (a : Address) (f : SnapshotsByHeight) (t : SnapshotMaps) :
    SnapshotMaps :=
  (t.1, t.2.1, t.2.2.insert a f.last.weightedBalance)

/-- Writes the snapshots of an account, and then its last height and weighted balance. -/
def snapshotWrites (snapshots : Dict Address SnapshotsByHeight)
    (heights : ∀ f : SnapshotsByHeight, Enumeration f.byHeight.keys) (a : Address) :
    List (SnapshotMaps → SnapshotMaps) :=
  match snapshots.lookup a with
  | some f =>
      (heights f).list.map (putSnapshot a f) ++ [putLastHeight a f, putLastWeightedBalance a f]
  | none => []

/-- The old value of a fill and its change as `applyBlockDiff` adds them up. -/
def filled (old : Option OrderFillInfo) (orderFillInfo : OrderFillInfo) : Option OrderFillInfo :=
  match old with
  | some ll => some ⟨ll.volume + orderFillInfo.volume, ll.fee + orderFillInfo.fee⟩
  | none => some ⟨orderFillInfo.volume, orderFillInfo.fee⟩

/-- The writes of the section that comes first. -/
def transactionWrites (d : BlockDiff) (o : Schedule d) : List (StateStorage → StateStorage) :=
  transactionsPart.writes (o.transactions.list.map
    (Dict.change (fun _ t => some (t.1, t.2.1.bytes)) d.txsDiff.transactions))

/-- The writes of the sections between the transactions and the height. -/
def laterWrites (ss : StateSettings) (d : BlockDiff) (o : Schedule d) :
    List (StateStorage → StateStorage) :=
  orderFillsPart.writes (o.orderFills.list.map (Dict.change filled d.txsDiff.orderFills)) ++
  portfoliosPart.writes (o.portfolios.list.map (Dict.change
    (fun old portfolioDiff => some ((old.getD Portfolio.empty).combine portfolioDiff))
    d.txsDiff.portfolios)) ++
  assetsPart.writes (o.issuedAssets.list.map (Dict.change
    (fun old assetInfo => some ((old.getD AssetInfo.empty).combine assetInfo))
    d.txsDiff.issuedAssets)) ++
  accountTransactionsPart.writes (o.accounts.list.flatMap (Dict.growList fun a =>
    (d.txsDiff.accountTransactionIds a).reverse)) ++
  (if ss.txTypeAccountTxIds then
    txTypeAccountTxIdsPart.writes (o.txTypeAccounts.list.flatMap (Dict.growList fun key =>
      (d.txsDiff.txTypeAccountTxIds key.1 key.2).reverse))
  else []) ++
  snapshotsPart.writes (o.snapshots.list.flatMap
    (snapshotWrites d.snapshots o.snapshotHeights)) ++
  aliasToAddressPart.writes (o.aliases.list.map
    (Dict.change (fun _ acc => some acc) d.txsDiff.aliases)) ++
  contractsPart.writes (o.contracts.list.map
    (Dict.change (fun _ c => some (c.1, c.2.1, c.2.2.1.bytes)) d.txsDiff.contracts)) ++
  accountContractsPart.writes (o.contractAccounts.list.flatMap (Dict.growList fun a =>
    (d.txsDiff.accountContractIds a).reverse)) ++
  contractDBPart.writes (o.contractDB.list.map
    (Dict.change (fun _ contractData => some contractData) d.txsDiff.contractDB)) ++
  contractTokensPart.writes (o.contractTokens.list.map (Dict.change
    (fun old tokenNum => some (old.getD 0 + tokenNum)) d.txsDiff.contractTokens)) ++
  tokenDBPart.writes (o.tokenDB.list.map
    (Dict.change (fun _ tokeninfo => some tokeninfo) d.txsDiff.tokenDB)) ++
  tokenAccountBalancePart.writes (o.tokenAccountBalance.list.map (Dict.change
    (fun old balance => some (safeSum (old.getD 0) balance)) d.txsDiff.tokenAccountBalance)) ++
  dbEntriesPart.writes (o.dbEntries.list.map
    (Dict.change (fun _ value => some value.bytes) d.txsDiff.dbEntries)) ++
  leaseStatePart.writes (o.leaseState.list.map
    (Dict.change (fun _ isActive => some isActive) d.txsDiff.leaseState)) ++
  addressListPart.writes (o.slotids.list.map
    (Dict.change (fun _ acc => acc) d.txsDiff.slotids)) ++
  addressToIDPart.writes (o.addToSlot.list.map
    (Dict.change (fun _ id => id) d.txsDiff.addToSlot))

/-- `sp().setHeight`. -/
def heightWrite (d : BlockDiff) (p : StateStorage) : StateStorage :=
  { p with height := p.height + d.heightDiff }

/-- The writes of `applyBlockDiff`, in their order. -/
def writes (ss : StateSettings) (d : BlockDiff) (o : Schedule d) :
    List (StateStorage → StateStorage) :=
  transactionWrites d o ++ laterWrites ss d o ++ [heightWrite d]

/-- Everything `snapshotsPart` keeps of one account. -/
def snapshotRow (t : SnapshotMaps) (a : Address) :
    (Nat → Option Snapshot) × Option Nat × Option Int64 :=
  (fun h => t.1.lookup (a, h), t.2.1.lookup a, t.2.2.lookup a)

theorem ext_snapshotRow {t t' : SnapshotMaps} (h : ∀ a, snapshotRow t a = snapshotRow t' a) :
    t = t' := by
  refine Prod.ext (Finmap.ext_lookup fun entry => ?_) (Prod.ext (Finmap.ext_lookup fun a => ?_)
    (Finmap.ext_lookup fun a => ?_))
  · exact congrFun (congrArg Prod.fst (h entry.1)) entry.2
  · exact congrArg (fun row => row.2.1) (h a)
  · exact congrArg (fun row => row.2.2) (h a)

theorem putSnapshot_eq (a : Address) (f : SnapshotsByHeight) (h : Nat) (t : SnapshotMaps) :
    (putSnapshot a f h t).2 = t.2 ∧ ∀ a' h', (putSnapshot a f h t).1.lookup (a', h')
      = if a' = a ∧ h' = h then (f.get h).or (t.1.lookup (a', h')) else t.1.lookup (a', h') := by
  rw [putSnapshot]
  cases hs : f.get h with
  | none =>
      refine ⟨rfl, fun a' h' => ?_⟩
      rw [Option.none_or, ite_self]
  | some s =>
      refine ⟨rfl, fun a' h' => ?_⟩
      dsimp only
      rw [Dict.lookup_insert_eq, Option.some_or]
      simp only [Prod.mk.injEq]

/-- Writing the snapshots of one account lays them over what was there. -/
theorem writeAll_putSnapshot (a : Address) (f : SnapshotsByHeight)
    (o : Enumeration f.byHeight.keys) (t : SnapshotMaps) :
    (writeAll (o.list.map (putSnapshot a f)) t).2 = t.2 ∧
    ∀ a' h, (writeAll (o.list.map (putSnapshot a f)) t).1.lookup (a', h)
      = if a' = a then (f.get h).or (t.1.lookup (a', h)) else t.1.lookup (a', h) := by
  constructor
  · refine writeAll_keeps (I := fun t' : SnapshotMaps => t'.2 = t.2)
      (fun write hwrite t' ht' => ?_) rfl
    obtain ⟨h, -, rfl⟩ := List.mem_map.mp hwrite
    exact (putSnapshot_eq a f h t').1.trans ht'
  · intro a' h
    have hrows := read_writeAll_map (r := fun (t : SnapshotMaps) h => t.1.lookup (a', h))
      (u := fun h old => if a' = a then (f.get h).or old else old) (w := putSnapshot a f) o.nodup
      (fun h h' t => by
        rw [(putSnapshot_eq a f h t).2]
        by_cases hh : h' = h
        · rw [hh]
          simp only [and_true, if_true]
        · simp only [hh, and_false, if_false]) t h
    rw [hrows]
    split
    · rfl
    · rename_i hh
      have hnone : f.get h = none := Dict.notMem_keys.mp fun hmem => hh (o.mem_list.mpr hmem)
      rw [hnone, Option.none_or, ite_self]

/-- What the writes of an account make of its row. -/
def writtenRow (snapshots : Dict Address SnapshotsByHeight) (a : Address)
    (row : (Nat → Option Snapshot) × Option Nat × Option Int64) :
    (Nat → Option Snapshot) × Option Nat × Option Int64 :=
  (fun h => ((snapshots.lookup a).bind fun f => f.get h).or (row.1 h),
    ((snapshots.lookup a).map SnapshotsByHeight.lastKey).or row.2.1,
    ((snapshots.lookup a).map fun f => f.last.weightedBalance).or row.2.2)

theorem snapshotRow_snapshotWrites (snapshots : Dict Address SnapshotsByHeight)
    (heights : ∀ f : SnapshotsByHeight, Enumeration f.byHeight.keys) (a a' : Address)
    (t : SnapshotMaps) :
    snapshotRow (writeAll (snapshotWrites snapshots heights a) t) a'
      = if a' = a then writtenRow snapshots a (snapshotRow t a) else snapshotRow t a' := by
  rw [snapshotWrites, writtenRow]
  cases hf : snapshots.lookup a with
  | none =>
      by_cases ha : a' = a
      · rw [if_pos ha, ha]
        rfl
      · rw [if_neg ha]
        rfl
  | some f =>
      obtain ⟨hrest, hentries⟩ := writeAll_putSnapshot a f (heights f) t
      dsimp only
      rw [writeAll_append, writeAll_cons, writeAll_cons, writeAll_nil, snapshotRow, putLastHeight,
        putLastWeightedBalance]
      dsimp only
      simp only [hrest, hentries, Dict.lookup_insert_eq]
      split
      · rename_i ha
        rw [ha]
        rfl
      · rfl

/-- The snapshots of all accounts, written one by one. -/
theorem writeAll_snapshots (snapshots : Dict Address SnapshotsByHeight)
    (o : Enumeration snapshots.keys)
    (heights : ∀ f : SnapshotsByHeight, Enumeration f.byHeight.keys) (t : SnapshotMaps) :
    writeAll (o.list.flatMap (snapshotWrites snapshots heights)) t
      = (Dict.overlay t.1 (snapshotEntries snapshots),
        Dict.overlay t.2.1 (Dict.mapValues (fun _ f => f.lastKey) snapshots),
        Dict.overlay t.2.2 (Dict.mapValues (fun _ f => f.last.weightedBalance) snapshots)) := by
  refine ext_snapshotRow fun a => ?_
  rw [read_writeAll_flatMap (r := snapshotRow) (u := writtenRow snapshots) o.nodup
    (fun a a' t ha => by rw [snapshotRow_snapshotWrites, if_neg ha])
    (fun a t => by rw [snapshotRow_snapshotWrites, if_pos rfl])]
  have hrow : snapshotRow (Dict.overlay t.1 (snapshotEntries snapshots),
      Dict.overlay t.2.1 (Dict.mapValues (fun _ f => f.lastKey) snapshots),
      Dict.overlay t.2.2 (Dict.mapValues (fun _ f => f.last.weightedBalance) snapshots)) a
      = writtenRow snapshots a (snapshotRow t a) := by
    rw [snapshotRow, writtenRow, snapshotRow]
    simp only [Dict.lookup_overlay, StateStorage.lookup_snapshotEntries, Dict.lookup_mapValues]
  rw [hrow]
  split
  · rfl
  · rename_i ha
    rw [o.mem_list, Dict.notMem_keys] at ha
    rw [writtenRow, ha]
    rfl

omit [Platform] in
/-- A fill that is read, added to and put back is combined. -/
theorem filled_eq : filled = fun old orderFillInfo =>
    some (OrderFillInfo.combine (old.getD OrderFillInfo.empty) orderFillInfo) := by
  funext old orderFillInfo
  cases old with
  | none => simp [filled, OrderFillInfo.combine, OrderFillInfo.empty]
  | some ll => rfl

omit [Platform] in
/-- A listing that grows by its new identifiers, oldest first. -/
theorem writeAll_listing {K : Type} [DecidableEq K] {keys : Finset K} (o : Enumeration keys)
    (ids : K → List ByteStr) (t : Dict (K × Nat) ByteStr × Dict K Nat) :
    writeAll (o.list.flatMap (Dict.growList fun k => (ids k).reverse)) t
      = (Dict.overlay t.1 (newEntries keys t.2 ids),
        Dict.overlay t.2 (newLengths keys t.2 ids)) := by
  have h := Dict.writeAll_growList o (fun k => (ids k).reverse) t.1 t.2
  simp only [List.length_reverse] at h
  exact h

/-- In whatever order the maps of a diff are gone through, its writes together do what
`applyBlockDiff` does at once. -/
theorem writeAll_writes (ss : StateSettings) (p : StateStorage) (d : BlockDiff) (o : Schedule d) :
    writeAll (writes ss d o) p = applyBlockDiff ss p d := by
  have htransactions (m : Dict ByteStr (Nat × ByteStr)) := Dict.writeAll_overlay (m := m)
    o.transactions fun t => (t.1, t.2.1.bytes)
  have hcontracts (m : Dict ByteStr (Nat × ByteStr × ByteStr)) := Dict.writeAll_overlay (m := m)
    o.contracts fun c => (c.1, c.2.1, c.2.2.1.bytes)
  have hentries (m : Dict ByteStr ByteStr) := Dict.writeAll_overlay (m := m)
    o.dbEntries fun value => value.bytes
  -- from the first section to the last, the storage stays one record of the maps written so far
  cases p
  cases hss : ss.txTypeAccountTxIds
  all_goals
    simp only [writes, transactionWrites, laterWrites, writeAll_append, Part.writeAll_writes,
      writeAll_cons, writeAll_nil, hss, Bool.false_eq_true, if_false, if_true, transactionsPart,
      orderFillsPart, portfoliosPart, assetsPart, accountTransactionsPart, txTypeAccountTxIdsPart,
      snapshotsPart,
      aliasToAddressPart, contractsPart, accountContractsPart, contractDBPart, contractTokensPart,
      tokenDBPart, tokenAccountBalancePart, dbEntriesPart, leaseStatePart, addressListPart,
      addressToIDPart, heightWrite, htransactions, filled_eq, writeAll_listing, writeAll_snapshots,
      hcontracts, hentries, Dict.writeAll_overlay_self, Dict.writeAll_updateWith,
      Dict.writeAll_assign, applyBlockDiff]

variable {ss : StateSettings} {d : BlockDiff} {o : Schedule d} {p : StateStorage} {k : Nat}

/-- A state with this height and these transactions. -/
def Shows (h : Nat) (m : Dict ByteStr (Nat × ByteStr)) (s : StateStorage) : Prop :=
  s.height = h ∧ s.transactions = m

variable {h : Nat} {m : Dict ByteStr (Nat × ByteStr)}

end StateWriterImpl

end Platform

end Vsys
