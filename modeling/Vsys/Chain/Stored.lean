import Vsys.Chain.Identity
import Vsys.Chain.Leases
import Vsys.Diffs.Slots
import Vsys.State.Persisting
import Vsys.Transaction.RoundTrip

/-!
# The state on disk

A state that is reached by writing the diffs of blocks answers as the same diffs would laid over the
state before, as long as the transactions of the blocks can be read back from their bytes and no
genesis transaction takes a slot that is taken.
-/

namespace Vsys

open Lib

section Platform

variable [Platform]

/-- The genesis transactions of a block take slots that no transaction before them takes. -/
def Block.SlotsDistinct (fs : FunctionalitySettings) (b : Block) : Prop :=
  b.transactions.Pairwise fun earlier later => ∀ g slot, later = .genesis g →
    g.takenSlot fs = some slot → earlier.takenSlot fs ≠ some slot

/-- A block whose transactions can be read back, and whose genesis transactions take slots of their
own. -/
structure Block.Persistable (fs : FunctionalitySettings) (b : Block) : Prop where
  readable : ∀ p ∈ b.transactionData, p.transaction.Encodable
  distinct : b.SlotsDistinct fs

/-- No slot is taken before the first block. -/
def StateView.StartsFree (s : StateView) : Prop := s.height = 0 → ∀ i, s.slotAddress i = none

namespace BlockDiffer

variable {fs : FunctionalitySettings} {s : StateView} {L : Finset LeaseTransaction}
  {prev : Option Int64} {timestamp : Int64} {height : Nat} {slots : Finset Int}
  {done : List Transaction} {d d' : Diff} {tx : ProcessedTransaction}

/-- Combined diffs give the slots of the diffs one over the other. -/
theorem slotAddress_combine {d e : BlockDiff} (i : Int) :
    (CompositeStateReader.view s (d.combine e)).slotAddress i
      = (CompositeStateReader.view (CompositeStateReader.view s d) e).slotAddress i := by
  rw [CompositeStateReader.view_slotAddress, CompositeStateReader.view_slotAddress,
    CompositeStateReader.view_slotAddress]
  change ((Dict.overlay d.txsDiff.slotids e.txsDiff.slotids).lookup i).getD _ = _
  rw [Dict.lookup_overlay]
  cases e.txsDiff.slotids.lookup i <;> rfl

/-- The slots after some transactions of a block: as many more as the diff counts, and in the first
block only those the transactions take. -/
def SlotsAfter (fs : FunctionalitySettings) (s : StateView) (slots : Finset Int)
    (done : List Transaction) (d : Diff) : Prop :=
  ∃ slots', (CompositeStateReader.view s d.asBlockDiff).Occupies slots' ∧
    (slots'.card : Int) = slots.card + d.slotNum ∧
    (s.height = 0 → ∀ i ∈ slots', ∃ tx ∈ done, tx.takenSlot fs = some i)

/-- A transaction adds to the slots the one it takes, unless an earlier one took it. -/
theorem SlotsAfter.txStep (h : SlotsAfter fs s slots done d)
    (hstep : txStep fs s prev timestamp (s.height + 1) d tx = .ok d')
    (hdistinct : ∀ earlier ∈ done, ∀ g slot, tx.transaction = .genesis g →
      g.takenSlot fs = some slot → earlier.takenSlot fs ≠ some slot) :
    SlotsAfter fs s slots (done ++ [tx.transaction]) d' := by
  obtain ⟨slots', hslots, hcard, htaken⟩ := h
  obtain ⟨e, happly, -, -, rfl⟩ := txStep_eq_ok hstep
  obtain ⟨-, ⟨c, related, heffect, rfl⟩, -⟩ := TransactionDiffer.apply_eq_ok happly
  have hchange := heffect.slotChange
  have hfresh : ∀ g slot, tx.transaction = .genesis g → g.takenSlot fs = some slot →
      slot ∉ slots' := by
    intro g slot hg hslot hmem
    have hfirst : s.height = 0 := Nat.succ_injective (heffect.height_of_genesis hg)
    obtain ⟨earlier, hearlier, hsame⟩ := htaken hfirst slot hmem
    exact hdistinct earlier hearlier g slot hg hslot hsame
  obtain ⟨slots'', hslots'', hcard', hsub⟩ := SlotChange.occupies
    (d := (Diff.apply (s.height + 1) tx.transaction c related).asBlockDiff) hslots hchange hfresh
  refine ⟨slots'', fun i => ?_, ?_, fun hfirst i hi => ?_⟩
  · rw [asBlockDiff_combine, slotAddress_combine]
    exact hslots'' i
  · rw [hcard', hcard]
    exact Int.add_assoc _ _ _
  · obtain hold | hnew := hsub i hi
    · obtain ⟨earlier, hearlier, hsame⟩ := htaken hfirst i hold
      exact ⟨earlier, List.mem_append_left _ hearlier, hsame⟩
    · exact ⟨tx.transaction, List.mem_append_right _ List.mem_cons_self, hnew⟩

/-- The transactions of a block, one after another. -/
theorem SlotsAfter.foldlM {txs : List ProcessedTransaction} (h : SlotsAfter fs s slots done d)
    (hfold : txs.foldlM (BlockDiffer.txStep fs s prev timestamp (s.height + 1)) d = .ok d')
    (hdistinct : (done ++ txs.map (·.transaction)).Pairwise fun earlier later => ∀ g slot,
      later = .genesis g → g.takenSlot fs = some slot → earlier.takenSlot fs ≠ some slot) :
    SlotsAfter fs s slots (done ++ txs.map (·.transaction)) d' := by
  induction txs generalizing done d with
  | nil =>
      rw [List.foldlM_nil, pure_eq_ok_iff] at hfold
      subst hfold
      simpa using h
  | cons tx txs ih =>
      obtain ⟨u, htx, htxs⟩ := foldlM_cons_eq_ok_iff.mp hfold
      rw [List.map_cons, List.append_cons] at hdistinct ⊢
      refine ih (h.txStep htx fun earlier hearlier => ?_) htxs hdistinct
      have hpair := (List.pairwise_append.mp (List.pairwise_append.mp hdistinct).1).2.2
      exact hpair earlier hearlier tx.transaction List.mem_cons_self

/-- What the diff of some transactions keeps of them. -/
structure Kept (txs : List ProcessedTransaction) (d : Diff) : Prop where
  transactions : ∀ id t, d.transactions.lookup id = some t →
    t.2.1 ∈ txs ∧ t.2.1.transaction.transactionType.id ≤ 10
  contracts : ∀ id c, d.contracts.lookup id = some c →
    ∃ p tx, p ∈ txs ∧ p.transaction = .registerContract tx ∧ c.2.2.1 = tx.contract
  issuedAssets : d.issuedAssets = ∅

/-- The empty diff keeps nothing. -/
theorem kept_empty (txs : List ProcessedTransaction) : Kept txs Diff.empty where
  transactions := fun id t ht => by cases ht
  contracts := fun id c hc => by cases hc
  issuedAssets := rfl

/-- A transaction adds itself and what it creates to what the diff keeps. -/
theorem Kept.txStep {txs : List ProcessedTransaction} (h : Kept txs d) (htx : tx ∈ txs)
    (hstep : txStep fs s prev timestamp height d tx = .ok d') : Kept txs d' := by
  obtain ⟨e, happly, hfee, hstatus, rfl⟩ := txStep_eq_ok hstep
  obtain ⟨-, ⟨c, related, heffect, rfl⟩, -⟩ := TransactionDiffer.apply_eq_ok happly
  constructor
  case transactions =>
    intro id t ht
    change (Dict.overlay _ (Finmap.singleton _ _)).lookup id = some t at ht
    rw [Dict.lookup_overlay, Dict.lookup_singleton] at ht
    split at ht
    · obtain rfl := Option.some.inj ht
      have hsame : (⟨c.txStatus, c.chargedFee, tx.transaction⟩ : ProcessedTransaction) = tx := by
        cases tx with
        | mk status feeCharged transaction => 
            exact congrArg₂ (fun x y => ProcessedTransaction.mk x y transaction) hstatus hfee
      exact ⟨by dsimp only; rw [hsame]; exact htx, heffect.type_le⟩
    · exact h.transactions id t ht
  case contracts =>
    intro id content hcontent
    change (Dict.overlay _ c.contracts).lookup id = some content at hcontent
    rw [Dict.lookup_overlay, Option.or_eq_some_iff] at hcontent
    obtain hnew | ⟨-, hold⟩ := hcontent
    · obtain ⟨reg, hreg, hcontract⟩ := heffect.contract hnew
      exact ⟨tx, reg, htx, hreg, hcontract⟩
    · exact h.contracts id content hold
  case issuedAssets =>
    change Dict.mergeWith _ d.issuedAssets c.issuedAssets = ∅
    rw [h.issuedAssets, heffect.issuedAssets_eq, Dict.mergeWith_empty]

/-- A diff that can be stacked over a state and written under it. -/
structure Storing (s : StateView) (d : BlockDiff) : Prop where
  stackable : Stackable s d
  storable : d.Storable s
  startsFree : (CompositeStateReader.view s d).StartsFree

/-- What is kept of transactions that can be read back is read back. -/
theorem Kept.parse {txs : List ProcessedTransaction} {d : Diff} (h : Kept txs d)
    (hreadable : ∀ p ∈ txs, p.transaction.Encodable) {id : ByteStr}
    {t : Nat × ProcessedTransaction × Finset Address} (ht : d.transactions.lookup id = some t) :
    ProcessedTransactionParser.parseBytes t.2.1.bytes = .ok t.2.1 := by
  obtain ⟨hmem, hlegacy⟩ := h.transactions id t ht
  exact ProcessedTransactionParser.parseBytes_bytes
    (TransactionParser.parseBytes_bytes_of_encodable hlegacy (hreadable _ hmem))

/-- The diff of a block's transactions keeps only them and what they create. -/
theorem foldlM_kept {txs : List ProcessedTransaction}
    (hfold : txs.foldlM (BlockDiffer.txStep fs s prev timestamp height) Diff.empty = .ok d) :
    Kept txs d :=
  foldlM_invariant (I := Kept txs) (fun _ _ _ hmem hkept hstep => hkept.txStep hmem hstep)
    (kept_empty txs) hfold

/-- The diff of a block can be written. -/
theorem fromBlock_storing {b : Block} {d : BlockDiff} (hs : s.Regular L) (hfree : s.StartsFree)
    (hb : b.Persistable fs) (h : fromBlock fs s prev b = .ok d) : Storing s d := by
  have hstackable := fromBlock_stackable hs h
  obtain ⟨diff, snapshots, hfold, -, rfl⟩ := fromBlock_eq_ok h
  have hkept := foldlM_kept hfold
  refine ⟨hstackable, ?_, fun hheight => absurd hheight (Nat.succ_ne_zero s.height)⟩
  constructor
  case transactions => exact fun id t ht => hkept.parse hb.readable ht
  case contracts =>
    intro id c hc
    obtain ⟨p, tx, hmem, hregister, hcontract⟩ := hkept.contracts id c hc
    have hencodable := hb.readable p hmem
    rw [hregister] at hencodable
    rw [hcontract]
    exact hencodable.1.fromBytes_bytes
  case issuedAssets => exact hkept.issuedAssets
  case slots =>
    intro slots hslots
    have hstart : SlotsAfter fs s slots [] Diff.empty := by
      refine ⟨slots, ?_, (Int.add_zero _).symm, fun hheight i hi => ?_⟩
      · exact (CompositeStateReader.view_empty s).symm ▸ hslots
      · rw [hslots i, hfree hheight i] at hi
        cases hi
    obtain ⟨slots', hslots', hcard, -⟩ := hstart.foldlM hfold hb.distinct
    exact ⟨slots', hslots', hcard⟩

/-- The empty diff can be stacked and written. -/
theorem storing_empty (hs : s.Regular L) (hfree : s.StartsFree) : Storing s BlockDiff.empty where
  stackable := stackable_empty hs
  storable :=
    { transactions := fun id t ht => by cases ht
      contracts := fun id c hc => by cases hc
      issuedAssets := rfl
      slots := fun slots hslots => ⟨slots, by rwa [CompositeStateReader.view_empty],
        (Int.add_zero _).symm⟩ }
  startsFree := by rwa [CompositeStateReader.view_empty]

/-- A diff that can be written on what another leaves. -/
theorem Storing.combine {d e : BlockDiff} (hs : s.Regular L) (hd : Storing s d)
    (he : Storing (CompositeStateReader.view s d) e) : Storing s (d.combine e) where
  stackable := hd.stackable.combine hs he.stackable
  storable := by
    constructor
    case transactions =>
      intro id t ht
      rw [CompositeStateReader.lookup_transactions_combine, Option.or_eq_some_iff] at ht
      obtain ht | ⟨-, ht⟩ := ht
      · exact he.storable.transactions id t ht
      · exact hd.storable.transactions id t ht
    case contracts =>
      intro id c hc
      change (Dict.overlay _ _).lookup id = some c at hc
      rw [Dict.lookup_overlay, Option.or_eq_some_iff] at hc
      obtain hc | ⟨-, hc⟩ := hc
      · exact he.storable.contracts id c hc
      · exact hd.storable.contracts id c hc
    case issuedAssets =>
      change Dict.mergeWith _ _ _ = ∅
      rw [hd.storable.issuedAssets, he.storable.issuedAssets, Dict.mergeWith_empty]
    case slots =>
      intro slots hslots
      obtain ⟨slots', hslots', hcard⟩ := hd.storable.slots slots hslots
      obtain ⟨slots'', hslots'', hcard'⟩ := he.storable.slots slots' hslots'
      refine ⟨slots'', fun i => ?_, ?_⟩
      · rw [slotAddress_combine]
        exact hslots'' i
      · rw [hcard', hcard]
        exact Int.add_assoc _ _ _
  startsFree := by
    rw [CompositeStateReader.view_combine hs.sound hd.stackable.fits he.stackable.fits]
    exact he.startsFree

/-- The diff of many blocks can be written. -/
theorem unsafeDiffMany_storing {blocks : List Block} {d : BlockDiff} (hs : s.Regular L)
    (hfree : s.StartsFree) (hblocks : ∀ b ∈ blocks, b.Persistable fs)
    (h : unsafeDiffMany fs s prev blocks = .ok d) : Storing s d := by
  obtain ⟨acc, hfold, rfl⟩ := map_eq_ok_iff.mp h
  refine foldlM_invariant (I := fun acc => Storing s acc.1) ?_ (storing_empty hs hfree) hfold
  intro acc acc' b hb hacc hstep
  obtain ⟨e, he, rfl⟩ := manyStep_eq_ok hstep
  obtain ⟨L', hL'⟩ := hacc.stackable.regular
  exact hacc.combine hs (fromBlock_storing hL' hacc.startsFree (hblocks b hb) he)

/-- A produced diff can be stacked and written. -/
theorem Produces.storing {d : BlockDiff} (hs : s.Regular L) (hfree : s.StartsFree)
    (h : Produces (Block.Persistable fs) fs s d) : Storing s d := by
  obtain ⟨_, _, hb, h⟩ | ⟨_, _, hblocks, h⟩ := h
  · exact fromBlock_storing hs hfree hb h
  · exact unsafeDiffMany_storing hs hfree hblocks h

end BlockDiffer

section Storage

open StateStorage StateWriterImpl

variable {fs : FunctionalitySettings} {ss : StateSettings} {p : StateStorage} {d : BlockDiff}

/-- The states on disk that diffs of admitted blocks are written to, whatever the settings. -/
inductive StoredState (admitted : Block → Prop) (fs : FunctionalitySettings) : StateStorage → Prop
  | empty : StoredState admitted fs StateStorage.empty
  | write (ss : StateSettings) (p : StateStorage) (d : BlockDiff)
      (hp : StoredState admitted fs p)
      (hd : BlockDiffer.Produces admitted fs (StateReaderImpl.reader p).toStateView d) :
      StoredState admitted fs (applyBlockDiff ss p d)

/-- A state on disk that diffs can be written to. -/
structure StateStorage.Writable (p : StateStorage) : Prop where
  regular : ∃ L, (StateReaderImpl.reader p).Regular L
  numbered : p.Numbered
  startsFree : (StateReaderImpl.reader p).StartsFree

/-- The empty storage can be written to. -/
theorem writable_empty : StateStorage.empty.Writable where
  regular := ⟨∅, initialState_regular⟩
  numbered :=
    { account :=
        { complete := fun k i hi => absurd hi (Nat.not_lt_zero i)
          known := fun k i id hid => by cases hid }
      txType :=
        { complete := fun k i hi => absurd hi (Nat.not_lt_zero i)
          known := fun k i id hid => by cases hid } }
  startsFree := fun _ _ => rfl

/-- Writing a diff leaves a state on disk that diffs can be written to. -/
theorem StateStorage.Writable.write (hp : p.Writable)
    (hd : BlockDiffer.Storing (StateReaderImpl.reader p).toStateView d) :
    (applyBlockDiff ss p d).Writable := by
  obtain ⟨L, hL⟩ := hp.regular
  have hview := view_eq_written ss hL.sound hd.stackable.fits hd.storable
  constructor
  case regular => exact hview ▸ hd.stackable.regular
  case numbered => exact hp.numbered.write
  case startsFree => exact hview ▸ hd.startsFree

/-- A stored transaction is read back as a lease exactly when it is that lease. -/
theorem parseBytes_eq_lease_iff {q : ProcessedTransaction}
    (hlegacy : q.transaction.transactionType.id ≤ 10) {status : TransactionStatus} {fee : Int64}
    {l : LeaseTransaction} :
    ProcessedTransactionParser.parseBytes q.bytes = .ok ⟨status, fee, .lease l⟩
      ↔ q = ⟨status, fee, .lease l⟩ := by
  constructor
  · intro h
    obtain ⟨status', fee', transaction⟩ := q
    rw [ProcessedTransactionParser.parseBytes_eq] at h
    obtain ⟨tx, htx, h⟩ := map_eq_ok_iff.mp h
    obtain ⟨rfl, rfl, rfl⟩ := ProcessedTransaction.mk.inj h
    have htype := TransactionParser.type_of_parseBytes_bytes hlegacy htx
    have hencodable : transaction.Encodable := by
      cases transaction with
      | lease l' => exact trivial
      | legacy tx => exact absurd (Int8.le_trans tx.legacy hlegacy) (by decide)
      | _ => cases htype
    rw [TransactionParser.parseBytes_bytes_of_encodable hlegacy hencodable] at htx
    exact congrArg (ProcessedTransaction.mk status' fee') (Except.ok.inj htx)
  · rintro rfl
    exact ProcessedTransactionParser.parseBytes_bytes
      (TransactionParser.parseBytes_bytes_of_encodable hlegacy trivial)

/-- A state that reads its transactions and contracts in another way is regular, as long as it finds
the same leases. -/
theorem StateView.Regular.reread {s : StateView} {L : Finset LeaseTransaction} (hs : s.Regular L)
    {transactionInfo : ByteStr → Result (Option (Nat × ProcessedTransaction))}
    (contractContent : ByteStr → Result (Option (Nat × ByteStr × Contract))) (slots : Int)
    (hleases : ∀ id h status fee l, transactionInfo id = .ok (some (h, ⟨status, fee, .lease l⟩))
      ↔ s.transactionInfo id = .ok (some (h, ⟨status, fee, .lease l⟩))) :
    StateView.Regular { s with
      transactionInfo := transactionInfo
      contractContent := contractContent
      effectiveSlotAddressSize := slots } L where
  sound := ⟨hs.sound.portfolio, hs.sound.portfolios, hs.sound.token, hs.sound.lease,
    hs.sound.lastUpdate⟩
  ledger :=
    { named := fun id h status fee l hl =>
        hs.ledger.named id h status fee l ((hleases id h status fee l).mp hl)
      stored := fun l hl => by
        obtain ⟨h, status, fee, hinfo⟩ := hs.ledger.stored l hl
        exact ⟨h, status, fee, (hleases _ h status fee l).mpr hinfo⟩
      contains := hs.ledger.contains
      active := hs.ledger.active
      parties := hs.ledger.parties
      leaseIn := hs.ledger.leaseIn
      leaseOut := hs.ledger.leaseOut
      noAlias := hs.ledger.noAlias }
  entries := ⟨hs.entries.contractInfo, hs.entries.tokenInfo⟩
  tokens := hs.tokens

/-- What every diff of the differ is, whatever can be read back of it. -/
structure BlockDiffer.Plain (s : StateView) (d : BlockDiff) : Prop where
  stackable : Stackable s d
  legacy : ∀ id t, d.txsDiff.transactions.lookup id = some t →
    t.2.1.transaction.transactionType.id ≤ 10
  issuedAssets : d.txsDiff.issuedAssets = ∅
  startsFree : s.StartsFree → (CompositeStateReader.view s d).StartsFree

namespace BlockDiffer

variable {s : StateView} {L : Finset LeaseTransaction} {prev : Option Int64}

/-- The diff of a block over a regular state is plain. -/
theorem fromBlock_plain {b : Block} (hs : s.Regular L) (h : fromBlock fs s prev b = .ok d) :
    Plain s d := by
  have hstackable := fromBlock_stackable hs h
  obtain ⟨diff, snapshots, hfold, -, rfl⟩ := fromBlock_eq_ok h
  have hkept := foldlM_kept hfold
  exact ⟨hstackable, fun id t ht => (hkept.transactions id t ht).2, hkept.issuedAssets,
    fun _ hheight => absurd hheight (Nat.succ_ne_zero s.height)⟩

/-- Plain diffs one over the other are plain together. -/
theorem Plain.combine {d e : BlockDiff} (hs : s.Regular L) (hd : Plain s d)
    (he : Plain (CompositeStateReader.view s d) e) : Plain s (d.combine e) where
  stackable := hd.stackable.combine hs he.stackable
  legacy := fun id t ht => by
    rw [CompositeStateReader.lookup_transactions_combine, Option.or_eq_some_iff] at ht
    obtain ht | ⟨-, ht⟩ := ht
    · exact he.legacy id t ht
    · exact hd.legacy id t ht
  issuedAssets := by
    change Dict.mergeWith _ _ _ = ∅
    rw [hd.issuedAssets, he.issuedAssets, Dict.mergeWith_empty]
  startsFree := fun hfree => by
    rw [CompositeStateReader.view_combine hs.sound hd.stackable.fits he.stackable.fits]
    exact he.startsFree (hd.startsFree hfree)

/-- A produced diff over a regular state is plain. -/
theorem Produces.plain {admitted : Block → Prop} (hs : s.Regular L)
    (h : Produces admitted fs s d) : Plain s d := by
  obtain ⟨prev, b, -, h⟩ | ⟨prev, blocks, -, h⟩ := h
  · exact fromBlock_plain hs h
  · obtain ⟨acc, hfold, rfl⟩ := map_eq_ok_iff.mp h
    have hstart : Plain s BlockDiff.empty :=
      { stackable := stackable_empty hs
        legacy := fun id t ht => by cases ht
        issuedAssets := rfl
        startsFree := fun hfree => by rwa [CompositeStateReader.view_empty] }
    refine foldlM_invariant (I := fun acc => Plain s acc.1) ?_ hstart hfold
    intro acc acc' b hb hacc hstep
    obtain ⟨e, he, rfl⟩ := manyStep_eq_ok hstep
    obtain ⟨L', hL'⟩ := hacc.stackable.regular
    exact hacc.combine hs (fromBlock_plain hL' he)

end BlockDiffer

/-- A state that is written finds the leases that the diff laid over the state finds. -/
theorem BlockDiffer.Plain.lease_written_iff
    (hd : BlockDiffer.Plain (StateReaderImpl.reader p).toStateView d) (id : ByteStr) (h : Nat)
    (status : TransactionStatus) (fee : Int64) (l : LeaseTransaction) :
    (StateReaderImpl.reader (applyBlockDiff ss p d)).transactionInfo id
        = .ok (some (h, ⟨status, fee, .lease l⟩)) ↔
      (CompositeStateReader.view (StateReaderImpl.reader p).toStateView d).transactionInfo id
        = .ok (some (h, ⟨status, fee, .lease l⟩)) := by
  rw [transactionInfo_written]
  cases ht : d.txsDiff.transactions.lookup id with
  | none =>
      have hinfo : (CompositeStateReader.view (StateReaderImpl.reader p).toStateView d).transactionInfo
          id = (StateReaderImpl.reader p).transactionInfo id := by
        simp only [CompositeStateReader.view, ht]
      rw [hinfo]
  | some t =>
      have hinfo : (CompositeStateReader.view (StateReaderImpl.reader p).toStateView d).transactionInfo
          id = .ok (some (t.1, t.2.1)) := by
        simp only [CompositeStateReader.view, ht]
      rw [hinfo]
      dsimp only
      constructor
      · intro hread
        obtain ⟨q, hq, hread⟩ := map_eq_ok_iff.mp hread
        obtain ⟨rfl, rfl⟩ := Prod.mk.inj (Option.some.inj hread)
        rw [(parseBytes_eq_lease_iff (hd.legacy id t ht)).mp (explicitGet_eq_ok_iff.mp hq)]
      · intro hread
        obtain ⟨rfl, hlease⟩ := Prod.mk.inj (Option.some.inj (Except.ok.inj hread))
        rw [(parseBytes_eq_lease_iff (hd.legacy id t ht)).mpr hlease]
        rfl

/-- Writing any diff of the differ leaves the state as regular as laying it over does. -/
theorem StateView.Regular.written {L L' : Finset LeaseTransaction}
    (hp : (StateReaderImpl.reader p).Regular L)
    (hd : BlockDiffer.Plain (StateReaderImpl.reader p).toStateView d)
    (hL' : (CompositeStateReader.view (StateReaderImpl.reader p).toStateView d).Regular L') :
    (StateReaderImpl.reader (applyBlockDiff ss p d)).Regular L' := by
  have hwritten := view_eq_written_except ss hp.sound hd.stackable.fits hd.issuedAssets
  exact hwritten ▸ hL'.reread _ _ hd.lease_written_iff

/-- Writing a plain diff leaves the state regular. -/
theorem regular_written {L : Finset LeaseTransaction} (hp : (StateReaderImpl.reader p).Regular L)
    (hd : BlockDiffer.Plain (StateReaderImpl.reader p).toStateView d) :
    ∃ L', (StateReaderImpl.reader (applyBlockDiff ss p d)).Regular L' := by
  obtain ⟨L', hL'⟩ := hd.stackable.regular
  exact ⟨L', hp.written hd hL'⟩

/-- Writing any diff of the differ leaves a state on disk that diffs can be written to. -/
theorem StateStorage.Writable.written (hp : p.Writable)
    (hd : BlockDiffer.Plain (StateReaderImpl.reader p).toStateView d) :
    (applyBlockDiff ss p d).Writable := by
  obtain ⟨L, hL⟩ := hp.regular
  constructor
  case regular => exact regular_written hL hd
  case numbered => exact hp.numbered.write
  case startsFree =>
    have hwritten := view_eq_written_except ss hL.sound hd.stackable.fits hd.issuedAssets
    have hfree := hd.startsFree hp.startsFree
    exact hwritten ▸ fun hheight => hfree hheight

/-- The states that are reached by writing diffs to disk and laying diffs over what is on disk. -/
inductive Reachable (fs : FunctionalitySettings) : StateReader → Prop
  | storage (p : StateStorage) (hp : StoredState (fun _ => True) fs p) :
      Reachable fs (StateReaderImpl.reader p)
  | stack (r : StateReader) (d : BlockDiff) (hr : Reachable fs r)
      (hd : BlockDiffer.Produces (fun _ => True) fs r.toStateView d) :
      Reachable fs (CompositeStateReader.reader r d)

/-- A storage that blocks were written to can be written to, whatever the blocks. -/
theorem StoredState.writable {admitted : Block → Prop} (hp : StoredState admitted fs p) :
    p.Writable := by
  induction hp with
  | empty => exact writable_empty
  | write ss p d hp hd ih =>
      obtain ⟨L, hL⟩ := ih.regular
      exact ih.written (hd.plain hL)

/-- With the setting on, a diff the differ makes on a state on disk answers every query alike, laid
over the state and written to it. -/
theorem StoredState.answers_written {admitted : Block → Prop} (hp : StoredState admitted fs p)
    (hd : BlockDiffer.Produces (Block.Persistable fs) fs (StateReaderImpl.reader p).toStateView d)
    (hsettings : ss.txTypeAccountTxIds = true) :
    SameAnswers Nonnegative (CompositeStateReader.reader (StateReaderImpl.reader p) d)
      (StateReaderImpl.reader (applyBlockDiff ss p d)) := by
  have hwritable := hp.writable
  obtain ⟨L, hL⟩ := hwritable.regular
  have hstoring := hd.storing hL hwritable.startsFree
  exact sameAnswers_written hwritable.numbered hsettings hL.sound hstoring.stackable.fits
    hstoring.storable

/-- A reachable reader answers reliably. -/
theorem Reachable.reliable {r : StateReader} (hr : Reachable fs r) : r.Reliable := by
  induction hr with
  | storage p hp => exact ⟨hp.writable.regular, hp.writable.numbered.lists⟩
  | stack r d hr hd ih =>
      obtain ⟨L, hL⟩ := ih.view
      exact ih.stack (hd.stackable hL)

/-- Diffs the differ makes one after the other answer every query alike, stacked and combined, and
combine in any grouping. -/
theorem Reachable.answers_combine {r : StateReader} (hr : Reachable fs r) {d₁ d₂ : BlockDiff}
    (h₁ : BlockDiffer.Produces (fun _ => True) fs r.toStateView d₁)
    (h₂ : BlockDiffer.Produces (fun _ => True) fs (CompositeStateReader.view r.toStateView d₁) d₂) :
    (∀ asked, SameAnswers asked
      (CompositeStateReader.reader (CompositeStateReader.reader r d₁) d₂)
      (CompositeStateReader.reader r (d₁.combine d₂))) ∧
    ∀ d₃, BlockDiffer.Produces (fun _ => True) fs
        (CompositeStateReader.view (CompositeStateReader.view r.toStateView d₁) d₂) d₃ →
      (d₁.combine d₂).combine d₃ = d₁.combine (d₂.combine d₃) := by
  have hreliable := hr.reliable
  obtain ⟨L, hL⟩ := hreliable.view
  -- Each diff was made on the state before it, and fits it.
  have hs₁ := h₁.stackable hL
  obtain ⟨L₁, hL₁⟩ := hs₁.regular
  have hs₂ := h₂.stackable hL₁
  obtain ⟨L₂, hL₂⟩ := hs₂.regular
  refine ⟨fun asked => CompositeStateReader.sameAnswers_combine hreliable.lists hL.sound hs₁.fits
    hs₂.fits hs₁.dated hs₂.dated, fun d₃ h₃ => ?_⟩
  exact CompositeStateReader.combine_assoc hL.sound hs₁.fits hs₂.fits (h₃.stackable hL₂).fits

end Storage

end Platform

namespace Sample

/-- What the first block changes. -/
def genesisDiff : BlockDiff :=
  okOr (BlockDiffer.fromBlock fs initialState.toStateView none genesisBlock) BlockDiff.empty

/-- The genesis block over nothing has the genesis diff. -/
theorem fromBlock_genesisBlock :
    BlockDiffer.fromBlock fs initialState.toStateView none genesisBlock = .ok genesisDiff :=
  eq_ok_okOr (by decide +kernel)

/-- The genesis block can be persisted. -/
theorem genesisBlock_persistable : genesisBlock.Persistable fs where
  readable := fun p hp => by
    obtain rfl := List.mem_singleton.mp hp
    exact trivial
  distinct := List.pairwise_singleton _ _

/-- The storage after the first block. -/
def storedGenesis : StateStorage :=
  StateWriterImpl.applyBlockDiff ⟨true⟩ StateStorage.empty genesisDiff

/-- What the second block changes over the first one on disk. -/
def writtenSecondDiff : BlockDiff :=
  okOr (BlockDiffer.fromBlock fs (StateReaderImpl.reader storedGenesis).toStateView (some 0)
    secondBlock) BlockDiff.empty

/-- The second block over the first one on disk has that diff. -/
theorem fromBlock_secondBlock :
    BlockDiffer.fromBlock fs (StateReaderImpl.reader storedGenesis).toStateView (some 0) secondBlock
      = .ok writtenSecondDiff :=
  eq_ok_okOr (by decide +kernel)

/-- The second block can be persisted. -/
theorem secondBlock_persistable : secondBlock.Persistable fs where
  readable := fun p hp => by
    obtain rfl := List.mem_singleton.mp hp
    exact trivial
  distinct := List.pairwise_singleton _ _

/-- The second block's diff, laid over the first block on disk and written to it. -/
theorem secondDiff_sameAnswers :
    SameAnswers Nonnegative
      (CompositeStateReader.reader (StateReaderImpl.reader storedGenesis) writtenSecondDiff)
      (StateReaderImpl.reader
        (StateWriterImpl.applyBlockDiff ⟨true⟩ storedGenesis writtenSecondDiff)) :=
  (StoredState.write ⟨true⟩ _ _ .empty
    (.inl ⟨none, genesisBlock, genesisBlock_persistable, fromBlock_genesisBlock⟩)).answers_written
    (.inl ⟨some 0, secondBlock, secondBlock_persistable, fromBlock_secondBlock⟩) rfl

/-- What the second block changes. -/
def secondDiff : BlockDiff :=
  okOr (BlockDiffer.fromBlock fs (CompositeStateReader.view initialState.toStateView genesisDiff)
    (some 0) secondBlock) BlockDiff.empty

/-- A third block, with a payment. -/
def thirdBlock : Block :=
  { secondBlock with
    timestamp := 2
    reference := signature 2
    signerData := ⟨key, signature 3⟩
    transactionData := [⟨.success, 100, .payment (payment 2 fullProofs)⟩] }

/-- What it changes. -/
def thirdDiff : BlockDiff :=
  okOr (BlockDiffer.fromBlock fs (CompositeStateReader.view
    (CompositeStateReader.view initialState.toStateView genesisDiff) secondDiff) (some 1) thirdBlock)
    BlockDiff.empty

/-- The diffs of three blocks. -/
theorem genesisDiff_combine :
    SameAnswers (fun _ _ => True)
      (CompositeStateReader.reader (CompositeStateReader.reader initialState genesisDiff) secondDiff)
      (CompositeStateReader.reader initialState (genesisDiff.combine secondDiff)) ∧
    (genesisDiff.combine secondDiff).combine thirdDiff
      = genesisDiff.combine (secondDiff.combine thirdDiff) := by
  have hsecond : BlockDiffer.fromBlock fs (CompositeStateReader.view initialState.toStateView
      genesisDiff) (some 0) secondBlock = .ok secondDiff := eq_ok_okOr (by decide +kernel)
  have h := (Reachable.storage StateStorage.empty .empty).answers_combine
    (.inl ⟨none, genesisBlock, trivial, fromBlock_genesisBlock⟩)
    (.inl ⟨some 0, secondBlock, trivial, hsecond⟩)
  exact ⟨h.1 _, h.2 thirdDiff (.inl ⟨some 1, thirdBlock, trivial, eq_ok_okOr (by decide +kernel)⟩)⟩

/-- A first block with two transactions for one slot. -/
def twiceTaken : Block :=
  { genesisBlock with
    transactionData := [⟨.success, 0, .genesis genesisTransaction⟩,
      ⟨.success, 0, .genesis ⟨owner, 1, 0, 1, by decide⟩⟩] }

/-- What it changes. -/
def twiceTakenDiff : BlockDiff :=
  okOr (BlockDiffer.fromBlock fs initialState.toStateView none twiceTaken) BlockDiff.empty

/-- A registration of a contract that is not permitted, and has no functions. -/
def registration : RegisterContractTransaction.Checked :=
  ⟨⟨⟨[], [], [], [], [], []⟩, [], "", 100, 100, 0, fullProofs, noDescription_length, fee_pos,
    feeScale_eq⟩, noData_valid⟩

/-- A second block with the registration, which fails and is charged. -/
def registering : Block :=
  { secondBlock with
    transactionData := [⟨.contractInvalidFunction, 100, .registerContract registration⟩] }

/-- What it changes. -/
def registeringDiff : BlockDiff :=
  okOr (BlockDiffer.fromBlock fs (StateReaderImpl.reader storedGenesis).toStateView (some 0)
    registering) BlockDiff.empty

/-- Some state on disk and some diff that the differ makes on it, laid over the state and written to
it, give a query other answers. -/
def Disagrees {α : Type} (ss : StateSettings) (query : StateReader → α) : Prop :=
  ∃ p d, StoredState (fun _ => True) fs p ∧
    BlockDiffer.Produces (fun _ => True) fs (StateReaderImpl.reader p).toStateView d ∧
    query (CompositeStateReader.reader (StateReaderImpl.reader p) d)
      ≠ query (StateReaderImpl.reader (StateWriterImpl.applyBlockDiff ss p d))

/-- With the setting off the listings by type are not written; a listing from below its start skips
on disk alone; a slot that is taken twice counts twice in memory alone; and a transaction that
registers a contract that is not permitted is not read back from disk. -/
theorem queries_disagree :
    Disagrees ⟨false⟩ (fun r => r.txTypeAccTxLengths .genesisTransaction owner) ∧
    Disagrees ⟨true⟩ (fun r => r.accountTransactionIds owner 1 (-1)) ∧
    Disagrees ⟨true⟩ (fun r => r.effectiveSlotAddressSize) ∧
    Disagrees ⟨true⟩ (fun r => r.transactionInfo (Transaction.registerContract registration).id) := by
  have hgenesis : BlockDiffer.Produces (fun _ => True) fs initialState.toStateView genesisDiff :=
    .inl ⟨none, genesisBlock, trivial, fromBlock_genesisBlock⟩
  have htwice : BlockDiffer.Produces (fun _ => True) fs initialState.toStateView twiceTakenDiff :=
    .inl ⟨none, twiceTaken, trivial, eq_ok_okOr (by decide +kernel)⟩
  have hregister : BlockDiffer.Produces (fun _ => True) fs
      (StateReaderImpl.reader storedGenesis).toStateView registeringDiff :=
    .inl ⟨some 0, registering, trivial, eq_ok_okOr (by decide +kernel)⟩
  refine ⟨⟨_, _, .empty, hgenesis, ?_⟩, ⟨_, _, .empty, hgenesis, ?_⟩, ⟨_, _, .empty, htwice, ?_⟩,
    ⟨_, _, .write ⟨true⟩ _ _ .empty hgenesis, hregister, ?_⟩⟩
  · decide +kernel
  · decide +kernel
  · decide +kernel
  · decide +kernel

end Sample

end Vsys
