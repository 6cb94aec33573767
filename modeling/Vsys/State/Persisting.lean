import Vsys.State.Listings
import Vsys.State.Storage

/-!
# Writing a diff to disk

Applying a block diff to the storage and laying it over the reader of the storage give the same
answers, for diffs whose transactions and contracts survive being written and whose slot count is
the change of the number of slots that are taken.
-/

namespace Vsys

open Lib

variable [Platform]

/-- A diff that loses nothing when it is written: its transactions and contracts are read back from
their bytes, it issues no assets, and it counts the slots it takes and gives back. -/
structure BlockDiff.Storable (s : StateView) (d : BlockDiff) : Prop where
  transactions : ∀ id t, d.txsDiff.transactions.lookup id = some t →
    ProcessedTransactionParser.parseBytes t.2.1.bytes = .ok t.2.1
  contracts : ∀ id c, d.txsDiff.contracts.lookup id = some c →
    Contract.fromBytes c.2.2.1.bytes = .ok c.2.2.1
  issuedAssets : d.txsDiff.issuedAssets = ∅
  slots : ∀ slots, s.Occupies slots → ∃ slots', (CompositeStateReader.view s d).Occupies slots' ∧
    (slots'.card : Int) = slots.card + d.txsDiff.slotNum

/-- Every numbered entry of a listing on disk is there, and is a transaction on disk. -/
structure StateStorage.NumberedBy {K : Type} [DecidableEq K] (p : StateStorage)
    (m : Dict (K × Nat) ByteStr) (lengths : Dict K Nat) : Prop where
  complete : ∀ k i, i < (lengths.lookup k).getD 0 → (m.lookup (k, i)).isSome
  known : ∀ k i id, m.lookup (k, i) = some id → (p.transactions.lookup id).isSome

/-- Both listings on disk are numbered. -/
structure StateStorage.Numbered (p : StateStorage) : Prop where
  account : p.NumberedBy p.accountTransactionIds p.accountTransactionsLengths
  txType : p.NumberedBy p.txTypeAccountTxIds p.txTypeAccTxLengths

namespace StateStorage

section Listing

variable {K : Type} [DecidableEq K] {m : Dict (K × Nat) ByteStr} {k : K} {n : Nat}

/-- The entries of one key, newest first. -/
def newestFirst (m : Dict (K × Nat) ByteStr) (k : K) (n : Nat) : List ByteStr :=
  (rangeQuery m k 0 n).reverse

omit [Platform] in
/-- Numbered entries as a function on their numbers. -/
theorem rangeQuery_eq_map (h : ∀ i, i < n → (m.lookup (k, i)).isSome) {start stop : Nat}
    (hstop : stop ≤ n) :
    rangeQuery m k start stop
      = (List.range' start (stop - start)).map fun i => (m.lookup (k, i)).getD [] := by
  rw [rangeQuery, ← List.filterMap_eq_map]
  refine List.filterMap_congr fun i hi => ?_
  obtain ⟨hge, hlt⟩ := List.mem_range'_1.mp hi
  obtain ⟨id, hid⟩ := Option.isSome_iff_exists.mp (h i (by omega))
  rw [Function.comp_apply, hid, Option.getD_some]

omit [Platform] in
/-- A numbered list that is complete has its number of entries. -/
theorem length_newestFirst (h : ∀ i, i < n → (m.lookup (k, i)).isSome) :
    (newestFirst m k n).length = n := by
  rw [newestFirst, rangeQuery_eq_map h le_rfl]
  simp

omit [Platform] in
/-- The pages of a listing on disk. -/
theorem listing_eq_page (h : ∀ i, i < n → (m.lookup (k, i)).isSome) {limit offset : Int}
    (hasked : Nonnegative limit offset) :
    listing m k n limit offset = page (newestFirst m k n) limit offset := by
  obtain ⟨hlimit, hoffset⟩ := hasked
  rw [listing, page, length_newestFirst h, newestFirst, rangeQuery_eq_map h (by omega),
    rangeQuery_eq_map h le_rfl]
  refine Prod.ext rfl ?_
  dsimp only
  apply List.ext_getElem
  · simp
    omega
  · intro i h₁ h₂
    simp only [List.length_reverse, List.length_map, List.length_range'] at h₁
    simp only [List.getElem_reverse, List.getElem_map, List.getElem_take, List.getElem_drop,
      List.length_map, List.length_range']
    rw [List.getElem_range', List.getElem_range']
    congr 3
    omega

omit [Platform] in
/-- A written list is longer by its new entries. -/
theorem lookup_newLengths {keys : Finset K} {lengths : Dict K Nat} {ids : K → List ByteStr}
    (hkeys : k ∉ keys → ids k = []) :
    ((Dict.overlay lengths (StateWriterImpl.newLengths keys lengths ids)).lookup k).getD 0
      = (lengths.lookup k).getD 0 + (ids k).length := by
  rw [StateWriterImpl.newLengths, Dict.lookup_overlay, Dict.lookup_tabulate]
  split
  · rfl
  · rename_i hk
    rw [hkeys hk]
    rfl

omit [Platform] in
/-- The new entries of a written list are numbered behind the old ones. -/
theorem lookup_newEntries {keys : Finset K} (lengths : Dict K Nat) {ids : K → List ByteStr}
    (hkeys : k ∉ keys → ids k = []) (i : Nat) :
    (Dict.overlay m (StateWriterImpl.newEntries keys lengths ids)).lookup (k, i)
      = (if (lengths.lookup k).getD 0 ≤ i then (ids k).reverse[i - (lengths.lookup k).getD 0]?
          else none).or (m.lookup (k, i)) := by
  rw [StateWriterImpl.newEntries, Dict.lookup_overlay, Dict.lookup_numbered]
  congr 1
  by_cases hk : k ∈ keys
  · simp only [hk, true_and]
  · simp [hk, hkeys hk]

omit [Platform] in
/-- Numbered entries with new ones behind them list the new ones first. -/
theorem newestFirst_newEntries {keys : Finset K} {lengths : Dict K Nat} {ids : K → List ByteStr}
    (hkeys : k ∉ keys → ids k = []) :
    newestFirst (Dict.overlay m (StateWriterImpl.newEntries keys lengths ids)) k
        ((lengths.lookup k).getD 0 + (ids k).length)
      = ids k ++ newestFirst m k ((lengths.lookup k).getD 0) := by
  set n := (lengths.lookup k).getD 0 with hn
  have hentry := lookup_newEntries (m := m) lengths hkeys
  rw [← hn] at hentry
  -- The numbers below the old length are the old entries, and those from it on the new ones.
  have hsplit : List.range' 0 (n + (ids k).length - 0)
      = List.range' 0 (n - 0) ++ List.range' n (ids k).length := by
    rw [Nat.sub_zero, Nat.sub_zero, ← List.range'_append_1, Nat.zero_add]
  have hold : (List.range' 0 (n - 0)).filterMap (fun i =>
      (Dict.overlay m (StateWriterImpl.newEntries keys lengths ids)).lookup (k, i))
      = rangeQuery m k 0 n := by
    refine List.filterMap_congr fun i hi => ?_
    have hlt := (List.mem_range'_1.mp hi).2
    rw [hentry, if_neg (by omega)]
    rfl
  have hnew : (List.range' n (ids k).length).filterMap (fun i =>
      (Dict.overlay m (StateWriterImpl.newEntries keys lengths ids)).lookup (k, i))
      = (ids k).reverse := by
    have hsome (i : Nat) (hi : i ∈ List.range' n (ids k).length) :
        (Dict.overlay m (StateWriterImpl.newEntries keys lengths ids)).lookup (k, i)
          = some ((ids k).reverse[i - n]?.getD []) := by
      obtain ⟨hge, hlt⟩ := List.mem_range'_1.mp hi
      have hbound : i - n < (ids k).reverse.length := by
        rw [List.length_reverse]
        omega
      rw [hentry, if_pos hge, List.getElem?_eq_getElem hbound]
      rfl
    have hlength : (ids k).length = (ids k).reverse.length := List.length_reverse.symm
    rw [List.filterMap_congr hsome, List.filterMap_eq_map', hlength]
    generalize (ids k).reverse = l
    apply List.ext_getElem
    · simp
    · intro i h₁ h₂
      simp [List.getElem?_eq_getElem h₂]
  rw [newestFirst, rangeQuery, hsplit, List.filterMap_append, hold, hnew, List.reverse_append,
    List.reverse_reverse]
  rfl

end Listing

section Writing

open CompositeStateReader StateWriterImpl

variable {p : StateStorage} {d : BlockDiff} {stateSettings : StateSettings}

/-- Merging portfolio changes into the stored ones updates each by its change. -/
theorem portfolios_eq (portfolios changes : Dict Address Portfolio) :
    Dict.mergeWith Portfolio.combine portfolios changes
      = Dict.updateWith Portfolio.combine Portfolio.empty portfolios changes := by
  refine Finmap.ext_lookup fun a => ?_
  rw [Dict.lookup_mergeWith, Dict.lookup_updateWith]
  cases portfolios.lookup a <;> cases changes.lookup a <;> simp

/-- The leases a map of lease states has as active. -/
def activeIn (leaseState : Dict ByteStr Bool) : Finset ByteStr :=
  leaseState.keys.filter fun id => leaseState.lookup id = some true

omit [Platform] in
/-- The active leases of a diff are those it leaves active. -/
theorem mem_activeIn {leaseState : Dict ByteStr Bool} {id : ByteStr} :
    id ∈ activeIn leaseState ↔ leaseState.lookup id = some true := by
  rw [activeIn, Finset.mem_filter, Dict.mem_keys_iff_isSome]
  constructor
  · exact And.right
  · intro h
    exact ⟨by rw [h]; rfl, h⟩

/-- The leases that are active over a fitting diff are those written with it. -/
theorem activeLeases_eq (hs : (StateReaderImpl.reader p).Sound)
    (hf : d.Fits (StateReaderImpl.reader p).toStateView) :
    (view (StateReaderImpl.reader p).toStateView d).activeLeases
      = (StateReaderImpl.reader (applyBlockDiff stateSettings p d)).activeLeases := by
  change (activeIn d.txsDiff.leaseState).val + (activeIn p.leaseState).val.filter (fun id =>
      (d.txsDiff.leaseState.lookup id).getD true = true)
    = (activeIn (Dict.overlay p.leaseState d.txsDiff.leaseState)).val
  have hdisjoint : Disjoint (activeIn d.txsDiff.leaseState) ((activeIn p.leaseState).filter
      fun id => (d.txsDiff.leaseState.lookup id).getD true = true) := by
    rw [Finset.disjoint_left]
    intro id hnew hold
    exact notMem_activeLeases hs hf (mem_activeIn.mp hnew) (Finset.mem_filter.mp hold).1
  rw [← Finset.filter_val, ← Finset.disjUnion_val _ _ hdisjoint]
  congr 1
  ext id
  rw [Finset.mem_disjUnion, Finset.mem_filter, mem_activeIn, mem_activeIn, mem_activeIn,
    Dict.lookup_overlay]
  cases d.txsDiff.leaseState.lookup id with
  | none => simp
  | some b => cases b <;> simp

/-- The snapshot entry of an account at a height is its snapshot there. -/
theorem lookup_snapshotEntries (snapshots : Dict Address SnapshotsByHeight) (a : Address)
    (h : Nat) :
    (snapshotEntries snapshots).lookup (a, h) = (snapshots.lookup a).bind fun f => f.get h := by
  rw [snapshotEntries, Dict.lookup_ofFn]
  split
  · rfl
  · rename_i hnot
    cases hf : snapshots.lookup a with
    | none => rfl
    | some f =>
        refine (Dict.notMem_keys.mp fun hmem => hnot ?_).symm
        exact Finset.mem_biUnion.mpr ⟨a, Dict.mem_keys_of_lookup hf, by
          rw [hf]
          exact Finset.mem_image_of_mem _ hmem⟩

/-- The keys of the slots that are taken are as many as the state counts. -/
theorem effectiveSize_eq (hd : d.Storable (StateReaderImpl.reader p).toStateView) :
    (view (StateReaderImpl.reader p).toStateView d).effectiveSlotAddressSize
      = (StateReaderImpl.reader (applyBlockDiff stateSettings p d)).effectiveSlotAddressSize := by
  have hold : (StateReaderImpl.reader p).Occupies p.addressList.keys := fun i =>
    Dict.mem_keys_iff_isSome
  obtain ⟨slots, hslots, hcard⟩ := hd.slots _ hold
  have hnew : slots = (Dict.assign p.addressList d.txsDiff.slotids).keys := by
    ext i
    rw [hslots i, Dict.mem_keys_iff_isSome, Dict.lookup_assign]
    rfl
  rw [hnew] at hcard
  exact hcard.symm

variable (stateSettings) in
/-- A diff laid over the storage, and the storage the diff is written to, but for what is read back
from bytes and the number of slots. -/
theorem view_eq_written_except (hs : (StateReaderImpl.reader p).Sound)
    (hf : d.Fits (StateReaderImpl.reader p).toStateView) (hissued : d.txsDiff.issuedAssets = ∅) :
    let written := (StateReaderImpl.reader (applyBlockDiff stateSettings p d)).toStateView
    { view (StateReaderImpl.reader p).toStateView d with
      transactionInfo := written.transactionInfo
      contractContent := written.contractContent
      effectiveSlotAddressSize := written.effectiveSlotAddressSize } = written := by
  have haliases := hf.aliases
  -- The three exceptions are equal by definition, and every other query is compared on its own.
  apply StateView.ext
  case accountPortfolios => exact portfolios_eq _ _
  case transactionInfo => rfl
  case containsTransaction =>
    funext id
    simp only [view, StateReaderImpl.reader, applyBlockDiff, Dict.lookup_overlay,
      Dict.lookup_mapValues]
    cases d.txsDiff.transactions.lookup id <;> rfl
  case accountPortfolio =>
    funext a
    simp only [view, StateReaderImpl.reader, applyBlockDiff, Dict.lookup_updateWith]
    cases d.txsDiff.portfolios.lookup a <;> simp
  case assetInfo =>
    funext id
    rw [view_assetInfo]
    simp only [StateReaderImpl.reader, applyBlockDiff, hissued, Dict.lookup_updateWith,
      Finmap.lookup_empty, Option.map_none, Option.none_or, Option.merge_none_right]
    exact id_map _
  case height => rfl
  case slotAddress =>
    funext i
    exact (Dict.lookup_assign _ _ _).symm
  case addressSlot =>
    funext a
    exact (Dict.lookup_assign _ _ _).symm
  case effectiveSlotAddressSize => rfl
  case aliasesOfAddress =>
    funext a
    simp only [view, StateReaderImpl.reader, applyBlockDiff, haliases, Dict.overlay_empty]
    exact zero_add _
  case resolveAlias =>
    funext a
    simp only [view, StateReaderImpl.reader, applyBlockDiff, haliases, Dict.overlay_empty]
    rfl
  case contractContent => rfl
  case contractInfo =>
    funext id
    simp only [view, StateReaderImpl.reader, applyBlockDiff, Dict.lookup_overlay]
    cases d.txsDiff.contractDB.lookup id <;> rfl
  case contractTokens =>
    funext id
    simp only [view, StateReaderImpl.reader, applyBlockDiff, Dict.lookup_updateWith]
    cases d.txsDiff.contractTokens.lookup id <;> simp
  case tokenInfo =>
    funext id
    simp only [view, StateReaderImpl.reader, applyBlockDiff, Dict.lookup_overlay]
    cases d.txsDiff.tokenDB.lookup id <;> rfl
  case tokenAccountBalance =>
    funext id
    simp only [view, StateReaderImpl.reader, applyBlockDiff, Dict.lookup_updateWith]
    cases d.txsDiff.tokenAccountBalance.lookup id with
    | none => simp
    | some v => simp [safeSum_comm]
  case dbGet =>
    funext key
    simp only [view, StateReaderImpl.reader, applyBlockDiff, Dict.lookup_overlay,
      Dict.lookup_mapValues]
  case isLeaseActive =>
    funext l
    simp only [view, StateReaderImpl.reader, applyBlockDiff, Dict.lookup_overlay]
    cases d.txsDiff.leaseState.lookup (Transaction.lease l).id <;> rfl
  case activeLeases => exact activeLeases_eq hs hf
  case lastUpdateHeight =>
    funext a
    simp only [view, StateReaderImpl.reader, applyBlockDiff, Dict.lookup_overlay,
      Dict.lookup_mapValues]
  case lastUpdateWeightedBalance =>
    funext a
    simp only [view, StateReaderImpl.reader, applyBlockDiff, Dict.lookup_overlay,
      Dict.lookup_mapValues]
  case snapshotAtHeight =>
    funext a h
    simp only [view, StateReaderImpl.reader, applyBlockDiff, Dict.lookup_overlay,
      lookup_snapshotEntries]
  case filledVolumeAndFee =>
    funext id
    simp only [view, StateReaderImpl.reader, applyBlockDiff, Dict.lookup_updateWith]
    cases d.txsDiff.orderFills.lookup id <;> 
      simp [OrderFillInfo.combine, OrderFillInfo.empty, Int64.add_comm]

/-- A transaction is read back from the written diff if it is in it, and as before otherwise. -/
theorem transactionInfo_written (id : ByteStr) :
    (StateReaderImpl.reader (applyBlockDiff stateSettings p d)).transactionInfo id
      = match d.txsDiff.transactions.lookup id with
        | some t => (fun tx => some (t.1, tx)) <$>
            explicitGet (ProcessedTransactionParser.parseBytes t.2.1.bytes)
        | none => (StateReaderImpl.reader p).transactionInfo id := by
  simp only [StateReaderImpl.reader, applyBlockDiff, Dict.lookup_overlay, Dict.lookup_mapValues]
  cases d.txsDiff.transactions.lookup id <;> rfl

/-- A contract is read back from the written diff if it is in it, and as before otherwise. -/
theorem contractContent_written (id : ByteStr) :
    (StateReaderImpl.reader (applyBlockDiff stateSettings p d)).contractContent id
      = match d.txsDiff.contracts.lookup id with
        | some c => (fun contract => some (c.1, c.2.1, contract)) <$>
            explicitGet (Contract.fromBytes c.2.2.1.bytes)
        | none => (StateReaderImpl.reader p).contractContent id := by
  simp only [StateReaderImpl.reader, applyBlockDiff, Dict.lookup_overlay, Dict.lookup_mapValues]
  cases d.txsDiff.contracts.lookup id <;> rfl

variable (stateSettings) in
/-- A diff laid over the storage, and the storage the diff is written to. -/
theorem view_eq_written (hs : (StateReaderImpl.reader p).Sound)
    (hf : d.Fits (StateReaderImpl.reader p).toStateView)
    (hd : d.Storable (StateReaderImpl.reader p).toStateView) :
    view (StateReaderImpl.reader p).toStateView d
      = (StateReaderImpl.reader (applyBlockDiff stateSettings p d)).toStateView := by
  rw [← view_eq_written_except stateSettings hs hf hd.issuedAssets]
  apply StateView.ext
  case transactionInfo =>
    funext id
    rw [transactionInfo_written]
    cases ht : d.txsDiff.transactions.lookup id with
    | none => simp only [view, ht]
    | some t =>
        simp only [view, ht, hd.transactions id t ht]
        rfl
  case contractContent =>
    funext id
    rw [contractContent_written]
    cases hc : d.txsDiff.contracts.lookup id with
    | none => simp only [view, hc]
    | some c =>
        simp only [view, hc, hd.contracts id c hc]
        rfl
  case effectiveSlotAddressSize => exact effectiveSize_eq hd
  all_goals rfl

/-- A diff has no transaction of an account it does not mention. -/
theorem accountTransactionIds_of_notMem {d : Diff} {a : Address} (h : a ∉ d.accounts) :
    d.accountTransactionIds a = [] := by
  refine List.eq_nil_iff_forall_not_mem.mpr fun id hid => h ?_
  obtain ⟨t, ht, ha, -⟩ := Diff.mem_ids.mp (show id ∈ d.ids none a from hid)
  exact Finset.mem_biUnion.mpr ⟨id, Dict.mem_keys_of_lookup ht, by
    rw [ht]
    exact ha⟩

/-- A diff has no transaction of a type and an account it does not mention. -/
theorem txTypeAccountTxIds_of_notMem {d : Diff} {key : TransactionType × Address}
    (h : key ∉ txTypeAccounts d) : d.txTypeAccountTxIds key.1 key.2 = [] := by
  refine List.eq_nil_iff_forall_not_mem.mpr fun id hid => h ?_
  obtain ⟨t, ht, ha, htype⟩ := Diff.mem_ids.mp (show id ∈ d.ids (some key.1) key.2 from hid)
  refine Finset.mem_biUnion.mpr ⟨id, Dict.mem_keys_of_lookup ht, ?_⟩
  rw [ht]
  exact Finset.mem_image.mpr ⟨key.2, ha, Prod.ext (of_decide_eq_true htype) rfl⟩

/-- The transactions on disk after a diff has been written. -/
theorem known_written {id : ByteStr} :
    ((applyBlockDiff stateSettings p d).transactions.lookup id).isSome
      = ((d.txsDiff.transactions.lookup id).isSome || (p.transactions.lookup id).isSome) := by
  simp only [applyBlockDiff, Dict.lookup_overlay, Dict.lookup_mapValues]
  cases d.txsDiff.transactions.lookup id <;> simp

section Numbered

variable {K : Type} [DecidableEq K] {m : Dict (K × Nat) ByteStr} {lengths : Dict K Nat}

/-- A numbered list that a diff does not touch stays numbered. -/
theorem NumberedBy.keep (h : p.NumberedBy m lengths) :
    (applyBlockDiff stateSettings p d).NumberedBy m lengths where
  complete := h.complete
  known := fun k i id hid => by
    rw [known_written, h.known k i id hid, Bool.or_true]

/-- New entries behind the old ones. -/
theorem NumberedBy.write {keys : Finset K} {ids : K → List ByteStr} (h : p.NumberedBy m lengths)
    (hkeys : ∀ k, k ∉ keys → ids k = [])
    (hids : ∀ k, ∀ id ∈ ids k, (d.txsDiff.transactions.lookup id).isSome) :
    (applyBlockDiff stateSettings p d).NumberedBy
      (Dict.overlay m (newEntries keys lengths ids))
      (Dict.overlay lengths (newLengths keys lengths ids)) where
  complete := fun k i hi => by
    rw [lookup_newLengths (hkeys k)] at hi
    rw [lookup_newEntries lengths (hkeys k)]
    split
    · rw [List.getElem?_eq_getElem (by rw [List.length_reverse]; omega)]
      rfl
    · exact h.complete k i (by omega)
  known := fun k i id hid => by
    rw [lookup_newEntries lengths (hkeys k), Option.or_eq_some_iff] at hid
    rw [known_written, Bool.or_eq_true]
    obtain hnew | ⟨-, hold⟩ := hid
    · split at hnew
      · exact .inl (hids k id (List.mem_reverse.mp (List.mem_of_getElem? hnew)))
      · cases hnew
    · exact .inr (h.known k i id hold)

/-- The listing of numbered entries. -/
theorem NumberedBy.lists (h : p.NumberedBy m lengths) (txType : Option TransactionType)
    (a : Address) (k : K)
    (hlength : (StateReaderImpl.reader p).idsLength txType a = (lengths.lookup k).getD 0)
    (hids : (StateReaderImpl.reader p).ids txType a = listing m k ((lengths.lookup k).getD 0)) :
    (StateReaderImpl.reader p).Lists Nonnegative txType a
      (newestFirst m k ((lengths.lookup k).getD 0)) where
  length := by rw [hlength, length_newestFirst (h.complete k)]
  page := fun limit offset hasked => by rw [hids, listing_eq_page (h.complete k) hasked]
  known := fun id hid => by
    obtain ⟨i, -, hi⟩ := List.mem_filterMap.mp (List.mem_reverse.mp hid)
    exact h.known k i id hi

end Numbered

/-- A listed transaction of a diff is in it. -/
theorem isSome_of_mem_ids {d : Diff} {txType : Option TransactionType} {a : Address} {id : ByteStr}
    (h : id ∈ d.ids txType a) : (d.transactions.lookup id).isSome := by
  obtain ⟨t, ht, -⟩ := Diff.mem_ids.mp h
  rw [ht]
  rfl

/-- With the lists of types switched on, a diff writes its transactions of each type behind the
stored ones. -/
theorem txTypeAccountTxIds_written (h : stateSettings.txTypeAccountTxIds = true) :
    (applyBlockDiff stateSettings p d).txTypeAccountTxIds
      = Dict.overlay p.txTypeAccountTxIds (newEntries (txTypeAccounts d.txsDiff)
          p.txTypeAccTxLengths fun key => d.txsDiff.txTypeAccountTxIds key.1 key.2) :=
  if_pos h

/-- With the lists of types switched on, a diff writes the new length of each list. -/
theorem txTypeAccTxLengths_written (h : stateSettings.txTypeAccountTxIds = true) :
    (applyBlockDiff stateSettings p d).txTypeAccTxLengths
      = Dict.overlay p.txTypeAccTxLengths (newLengths (txTypeAccounts d.txsDiff)
          p.txTypeAccTxLengths fun key => d.txsDiff.txTypeAccountTxIds key.1 key.2) :=
  if_pos h

/-- Writing keeps the listings numbered, with the setting on or off. -/
theorem Numbered.write (h : p.Numbered) : (applyBlockDiff stateSettings p d).Numbered where
  account := h.account.write (fun _ => accountTransactionIds_of_notMem) fun a _ hid =>
    isSome_of_mem_ids (show _ ∈ d.txsDiff.ids none a from hid)
  txType := by
    by_cases hsettings : stateSettings.txTypeAccountTxIds = true
    · rw [txTypeAccountTxIds_written hsettings, txTypeAccTxLengths_written hsettings]
      exact h.txType.write (fun _ => txTypeAccountTxIds_of_notMem) fun key _ hid =>
        isSome_of_mem_ids (show _ ∈ d.txsDiff.ids (some key.1) key.2 from hid)
    · have hids : (applyBlockDiff stateSettings p d).txTypeAccountTxIds = p.txTypeAccountTxIds :=
        if_neg hsettings
      have hlengths : (applyBlockDiff stateSettings p d).txTypeAccTxLengths
          = p.txTypeAccTxLengths := if_neg hsettings
      rw [hids, hlengths]
      exact h.txType.keep

/-- The listing of the storage. -/
theorem Numbered.lists (h : p.Numbered) (txType : Option TransactionType) (a : Address) :
    ∃ l, (StateReaderImpl.reader p).Lists Nonnegative txType a l := by
  cases txType with
  | none => exact ⟨_, h.account.lists none a a rfl rfl⟩
  | some txType => exact ⟨_, h.txType.lists (some txType) a (txType, a) rfl rfl⟩

/-- The storage a diff is written to lists the diff's transactions of an account first. -/
theorem Numbered.account_written (h : p.Numbered) (a : Address) :
    ∃ l, (StateReaderImpl.reader p).Lists Nonnegative none a l ∧
      (StateReaderImpl.reader (applyBlockDiff stateSettings p d)).Lists Nonnegative none a
        (d.txsDiff.ids none a ++ l) := by
  have hwritten : (applyBlockDiff stateSettings p d).Numbered := h.write
  refine ⟨_, h.account.lists none a a rfl rfl, ?_⟩
  have hnew := hwritten.account.lists none a a rfl rfl
  have hkeys : a ∉ d.txsDiff.accounts → d.txsDiff.accountTransactionIds a = [] :=
    accountTransactionIds_of_notMem
  simp only [applyBlockDiff] at hnew ⊢
  rw [lookup_newLengths hkeys, newestFirst_newEntries hkeys] at hnew
  exact hnew

/-- With the setting off it lists what it listed before of one type. -/
theorem Numbered.txType_kept (h : p.Numbered) (hsettings : stateSettings.txTypeAccountTxIds ≠ true)
    (txType : TransactionType) (a : Address) :
    ∃ l, (StateReaderImpl.reader p).Lists Nonnegative (some txType) a l ∧
      (StateReaderImpl.reader (applyBlockDiff stateSettings p d)).Lists Nonnegative (some txType) a
        l := by
  have hwritten : (applyBlockDiff stateSettings p d).Numbered := h.write
  refine ⟨_, h.txType.lists (some txType) a (txType, a) rfl rfl, ?_⟩
  have hnew := hwritten.txType.lists (some txType) a (txType, a) rfl rfl
  have hids : (applyBlockDiff stateSettings p d).txTypeAccountTxIds = p.txTypeAccountTxIds :=
    if_neg hsettings
  have hlengths : (applyBlockDiff stateSettings p d).txTypeAccTxLengths = p.txTypeAccTxLengths :=
    if_neg hsettings
  rwa [hids, hlengths] at hnew

/-- With the setting on, the storage a diff is written to lists the diff's transactions first. -/
theorem Numbered.lists_written (h : p.Numbered) (hsettings : stateSettings.txTypeAccountTxIds = true)
    (txType : Option TransactionType) (a : Address) :
    ∃ l, (StateReaderImpl.reader p).Lists Nonnegative txType a l ∧
      (StateReaderImpl.reader (applyBlockDiff stateSettings p d)).Lists Nonnegative txType a
        (d.txsDiff.ids txType a ++ l) := by
  have hwritten : (applyBlockDiff stateSettings p d).Numbered := h.write
  cases txType with
  | none => exact h.account_written a
  | some txType =>
      refine ⟨_, h.txType.lists (some txType) a (txType, a) rfl rfl, ?_⟩
      have hnew := hwritten.txType.lists (some txType) a (txType, a) rfl rfl
      have hkeys : (txType, a) ∉ txTypeAccounts d.txsDiff →
          d.txsDiff.txTypeAccountTxIds txType a = [] := txTypeAccountTxIds_of_notMem
      rw [txTypeAccountTxIds_written hsettings, txTypeAccTxLengths_written hsettings,
        lookup_newLengths hkeys, newestFirst_newEntries hkeys] at hnew
      exact hnew

/-- A diff laid over the storage and the storage the diff is written to answer alike. -/
theorem sameAnswers_written (hnumbered : p.Numbered)
    (hsettings : stateSettings.txTypeAccountTxIds = true) (hs : (StateReaderImpl.reader p).Sound)
    (hf : d.Fits (StateReaderImpl.reader p).toStateView)
    (hd : d.Storable (StateReaderImpl.reader p).toStateView) :
    SameAnswers Nonnegative (reader (StateReaderImpl.reader p) d)
      (StateReaderImpl.reader (applyBlockDiff stateSettings p d)) where
  view := view_eq_written stateSettings hs hf hd
  ids := fun txType a => by
    obtain ⟨l, hl, hwritten⟩ := hnumbered.lists_written (d := d) hsettings txType a
    exact ⟨_, _, lists_reader hl, hwritten, TieEquiv.refl _⟩

end Writing

end StateStorage

end Vsys
