import Vsys.Diffs.BlockDiffer
import Vsys.Diffs.Ledger
import Vsys.State.Listings
import Vsys.State.Storage

/-!
# Replaying a chain

The state a chain stands for: every block's diff stacked over the state before it, from the empty
state on.  A block that is accepted on a regular state leaves a regular one, and its diff fits.
-/

namespace Vsys

open Lib

open scoped Ledger

variable [Platform]

/-- What the transactions of a block bring and take. -/
def Block.issue (b : Block) : Int :=
  (b.transactionData.map fun p => p.transaction.minted - p.feeCharged.toInt).sum

namespace BlockDiffer

variable {fs : FunctionalitySettings} {s : StateView} {L : Finset LeaseTransaction}
  {prev : Option Int64} {timestamp : Int64} {height : Nat}

/-- Combined diffs are combined as diffs of a block. -/
theorem asBlockDiff_combine (d e : Diff) :
    (d.combine e).asBlockDiff = d.asBlockDiff.combine e.asBlockDiff := by
  apply BlockDiff.ext
  · rfl
  · rfl
  · exact (Dict.mergeWith_empty _ _).symm

/-- A transaction is added to a block's diff with its own diff, made over the state so far, with
the recorded fee and status. -/
theorem txStep_eq_ok {d d' : Diff} {tx : ProcessedTransaction}
    (h : txStep fs s prev timestamp height d tx = .ok d') :
    ∃ e, TransactionDiffer.apply fs prev timestamp height
        (CompositeStateReader.view s d.asBlockDiff) tx.transaction = .ok e ∧
      e.chargedFee = tx.feeCharged ∧ e.txStatus = tx.status ∧ d' = d.combine e := by
  obtain ⟨e, he, h⟩ := bind_eq_ok_iff.mp h
  split at h
  · rename_i hclaim
    exact ⟨e, he, hclaim.1, hclaim.2, (Except.ok.inj h).symm⟩
  · cases h

/-- What the transactions of a block keep while they are applied. -/
structure Running (s : StateView) (d : Diff) : Prop where
  fits : d.asBlockDiff.Fits s
  regular : ∃ L, (CompositeStateReader.view s d.asBlockDiff).Regular L

/-- The empty diff over a regular state starts a block. -/
theorem running_empty (hs : s.Regular L) : Running s Diff.empty where
  fits :=
    { portfolio := fun a pf h => by cases h
      token := fun k v h => by cases h
      leaseNew := fun id h => by cases h
      leaseTx := fun id h => by cases h
      snapshot := fun a f h => by cases h
      aliases := rfl }
  regular := ⟨L, by
    have hempty := CompositeStateReader.view_empty s
    exact hempty.symm ▸ hs⟩

/-- One transaction. -/
theorem Running.txStep {d d' : Diff} {tx : ProcessedTransaction} (hs : s.Regular L)
    (hrun : Running s d) (h : txStep fs s prev timestamp height d tx = .ok d') :
    Running s d' ∧ (CompositeStateReader.view s d'.asBlockDiff).supply
      = (CompositeStateReader.view s d.asBlockDiff).supply
        + (tx.transaction.minted - tx.feeCharged.toInt) := by
  obtain ⟨L', hregular⟩ := hrun.regular
  obtain ⟨e, happly, hfee, -, rfl⟩ := txStep_eq_ok h
  obtain ⟨hnew, heffect, hsolvent⟩ := TransactionDiffer.apply_eq_ok happly
  obtain ⟨hfits, hview, hsupply⟩ := heffect.regular hregular hnew hsolvent
  have hstack := CompositeStateReader.view_combine hs.sound hrun.fits hfits
  rw [asBlockDiff_combine, hstack]
  refine ⟨⟨?_, ?_⟩, ?_⟩
  · rw [asBlockDiff_combine]
    exact CompositeStateReader.fits_combine hs.sound hrun.fits hfits
  · rw [asBlockDiff_combine, hstack]
    exact hview
  · rw [hsupply, hfee]
    omega

/-- The transactions of a block. -/
theorem Running.foldlM {d d' : Diff} {txs : List ProcessedTransaction} (hs : s.Regular L)
    (hrun : Running s d)
    (h : txs.foldlM (BlockDiffer.txStep fs s prev timestamp height) d = .ok d') :
    Running s d' ∧ (CompositeStateReader.view s d'.asBlockDiff).supply
      = (CompositeStateReader.view s d.asBlockDiff).supply
        + (txs.map fun p => p.transaction.minted - p.feeCharged.toInt).sum := by
  induction txs generalizing d with
  | nil =>
      rw [List.foldlM_nil, pure_eq_ok_iff] at h
      subst h
      exact ⟨hrun, by simp⟩
  | cons tx txs ih =>
      obtain ⟨u, htx, htxs⟩ := foldlM_cons_eq_ok_iff.mp h
      obtain ⟨hrun', hsupply⟩ := hrun.txStep hs htx
      obtain ⟨hrun'', hsupply'⟩ := ih hrun' htxs
      refine ⟨hrun'', ?_⟩
      rw [hsupply', hsupply, List.map_cons, List.sum_cons]
      omega

/-- Some transactions of the next block, on a regular state. -/
theorem foldlM_regular {d : Diff} {txs : List ProcessedTransaction} (hs : s.Regular L)
    (h : txs.foldlM (BlockDiffer.txStep fs s prev timestamp height) Diff.empty = .ok d) :
    Running s d ∧ (CompositeStateReader.view s d.asBlockDiff).supply
      = s.supply + (txs.map fun p => p.transaction.minted - p.feeCharged.toInt).sum := by
  have hrun := (running_empty hs).foldlM hs h
  have hstart : CompositeStateReader.view s Diff.empty.asBlockDiff = s :=
    CompositeStateReader.view_empty s
  rwa [hstart] at hrun

/-- A block takes a snapshot of an account whose balance or effective balance it changes, and of no
other. -/
theorem newSnapshots_cases {portfolios : Dict Address Portfolio}
    {snapshots : Dict Address SnapshotsByHeight}
    (h : newSnapshots fs s height portfolios = .ok snapshots) (a : Address) :
    (∃ q snapshot, portfolios.lookup a = some q ∧ newSnapshot fs s height a q = .ok snapshot ∧
      snapshots.lookup a = some (SnapshotsByHeight.singleton height snapshot)) ∨
    snapshots.lookup a = none ∧ ((portfolios.lookup a).getD Portfolio.empty).balance = 0 ∧
      ((portfolios.lookup a).getD Portfolio.empty).effectiveBalance = 0 := by
  unfold newSnapshots at h
  simp only at h
  split at h
  · rename_i hall
    obtain rfl := Except.ok.inj h
    rw [Dict.lookup_ofFn]
    split
    · rename_i hmem
      have hok := hall a hmem
      rw [Dict.lookup_mapValues, Dict.lookup_filterValues] at hok ⊢
      cases hq : portfolios.lookup a with
      | none => simp [hq] at hok
      | some q =>
          rw [hq] at hok
          by_cases hchanged : q.balance ≠ 0 ∨ q.effectiveBalance ≠ 0
          · rw [Option.filter_some, if_pos (decide_eq_true hchanged)] at hok ⊢
            cases hsnapshot : newSnapshot fs s height a q with
            | error e => simp [hsnapshot, Except.isOk, Except.toBool] at hok
            | ok snapshot => exact .inl ⟨q, snapshot, rfl, hsnapshot, by simp [hsnapshot]; rfl⟩
          · rw [Option.filter_some, if_neg (by simpa using hchanged)] at hok
            simp at hok
    · rename_i hmem
      rw [Dict.mem_keys_iff_isSome, Dict.lookup_mapValues, Dict.lookup_filterValues] at hmem
      refine .inr ⟨rfl, ?_⟩
      cases hq : portfolios.lookup a with
      | none => exact ⟨rfl, rfl⟩
      | some q => simpa [hq, Option.filter_some] using hmem
  · cases h

/-- Every snapshot a block takes is of its own height. -/
theorem newSnapshots_eq_ok {portfolios : Dict Address Portfolio}
    {snapshots : Dict Address SnapshotsByHeight}
    (h : newSnapshots fs s height portfolios = .ok snapshots) {a : Address}
    {f : SnapshotsByHeight} (hf : snapshots.lookup a = some f) :
    ∃ snapshot, f = SnapshotsByHeight.singleton height snapshot := by
  obtain ⟨_, snapshot, -, -, hlookup⟩ | ⟨hlookup, -⟩ := newSnapshots_cases h a
  · exact ⟨snapshot, Option.some.inj (hf.symm.trans hlookup)⟩
  · rw [hlookup] at hf
    cases hf

/-- The diff of a block is made of the folded diffs of its transactions and of the snapshots for
them. -/
theorem fromBlock_eq_ok {b : Block} {d : BlockDiff} (h : fromBlock fs s prev b = .ok d) :
    ∃ diff snapshots, b.transactionData.foldlM
        (txStep fs s prev b.timestamp (s.height + 1)) Diff.empty = .ok diff ∧
      newSnapshots fs s (s.height + 1) diff.portfolios = .ok snapshots ∧
      d = ⟨diff, 1, snapshots⟩ := by
  obtain ⟨_, -, h⟩ := bind_eq_ok_iff.mp h
  obtain ⟨diff, hdiff, h⟩ := bind_eq_ok_iff.mp h
  obtain ⟨snapshots, hsnapshots, h⟩ := bind_eq_ok_iff.mp h
  exact ⟨diff, snapshots, hdiff, hsnapshots, (Except.ok.inj h).symm⟩

/-- The end of a block leaves a regular state regular. -/
theorem regular_close {L' : Finset LeaseTransaction} {d : Diff}
    {snapshots : Dict Address SnapshotsByHeight} (hs : s.Regular L)
    (hsnapshots : newSnapshots fs s (s.height + 1) d.portfolios = .ok snapshots)
    (h : (CompositeStateReader.view s d.asBlockDiff).Regular L') :
    (CompositeStateReader.view s ⟨d, 1, snapshots⟩).Regular L' where
  sound :=
    { portfolio := h.sound.portfolio
      portfolios := h.sound.portfolios
      token := h.sound.token
      lease := h.sound.lease
      lastUpdate := fun a i hi => by
        rw [CompositeStateReader.view_lastUpdateHeight] at hi
        rw [CompositeStateReader.view_height]
        cases hf : snapshots.lookup a with
        | none =>
            rw [hf] at hi
            exact Nat.le_succ_of_le (hs.sound.lastUpdate a i hi)
        | some f =>
            rw [hf] at hi
            obtain ⟨snapshot, rfl⟩ := newSnapshots_eq_ok hsnapshots hf
            rw [Option.map_some, SnapshotsByHeight.lastKey_singleton, Option.some_or] at hi
            exact (Option.some.inj hi).ge }
  ledger := ⟨h.ledger.named, h.ledger.stored, h.ledger.contains, h.ledger.active, h.ledger.parties,
    h.ledger.leaseIn, h.ledger.leaseOut, h.ledger.noAlias⟩
  entries := ⟨h.entries.contractInfo, h.entries.tokenInfo⟩
  tokens := h.tokens

/-- The diff of an accepted block fits the state, raises its height by one, and leaves a regular
state with the coins the transactions bring and take. -/
theorem fromBlock_regular (hs : s.Regular L) {b : Block} {d : BlockDiff}
    (h : fromBlock fs s prev b = .ok d) :
    d.Fits s ∧ d.heightDiff = 1 ∧ (∃ L', (CompositeStateReader.view s d).Regular L') ∧
      (CompositeStateReader.view s d).supply = s.supply + b.issue := by
  obtain ⟨diff, snapshots, hfold, hsnapshots, rfl⟩ := fromBlock_eq_ok h
  obtain ⟨⟨hfits, L', hregular⟩, hsupply⟩ := foldlM_regular hs hfold
  have hfits' : BlockDiff.Fits s ⟨diff, 1, snapshots⟩ :=
    { portfolio := hfits.portfolio
      token := hfits.token
      leaseNew := hfits.leaseNew
      leaseTx := hfits.leaseTx
      snapshot := fun a f hf i hi => by
        obtain ⟨snapshot, rfl⟩ := newSnapshots_eq_ok hsnapshots hf
        rw [SnapshotsByHeight.singleton, Finmap.keys_singleton, Finset.mem_singleton] at hi
        dsimp only
        omega
      aliases := hfits.aliases }
  exact ⟨hfits', rfl, ⟨L', regular_close hs hsnapshots hregular⟩, hsupply⟩

/-- The transactions of a block's diff are new, and of the block's height. -/
theorem fromBlock_dated {b : Block} {d : BlockDiff} (h : fromBlock fs s prev b = .ok d) :
    d.Dated s := by
  obtain ⟨diff, snapshots, hfold, -, rfl⟩ := fromBlock_eq_ok h
  have hdated := foldlM_invariant
    (I := fun d : Diff => ∀ id t, d.transactions.lookup id = some t →
      s.containsTransaction id = false ∧ t.1 = s.height + 1) ?_ (fun id t ht => by cases ht) hfold
  · exact ⟨fun id t ht => (hdated id t ht).1, fun id t ht => by
      have hheight := (hdated id t ht).2
      dsimp only
      omega⟩
  · intro d d' tx _ hd hstep id t ht
    obtain ⟨e, happly, -, -, rfl⟩ := txStep_eq_ok hstep
    obtain ⟨hnew, ⟨c, related, -, rfl⟩, -⟩ := TransactionDiffer.apply_eq_ok happly
    rw [CompositeStateReader.view_containsTransaction, Bool.or_eq_false_iff] at hnew
    change (Dict.overlay _ (Finmap.singleton _ _)).lookup id = some t at ht
    rw [Dict.lookup_overlay, Dict.lookup_singleton] at ht
    split at ht
    · rename_i hid
      obtain rfl := Option.some.inj ht
      exact ⟨hid ▸ hnew.2, rfl⟩
    · exact hd id t ht

/-- The diffs that can be stacked over a state and combined with others. -/
structure Stackable (s : StateView) (d : BlockDiff) : Prop where
  fits : d.Fits s
  dated : d.Dated s
  regular : ∃ L, (CompositeStateReader.view s d).Regular L

/-- The diff of a block over a regular state can be stacked. -/
theorem fromBlock_stackable (hs : s.Regular L) {b : Block} {d : BlockDiff}
    (h : fromBlock fs s prev b = .ok d) : Stackable s d :=
  let hregular := fromBlock_regular hs h
  ⟨hregular.1, fromBlock_dated h, hregular.2.2.1⟩

/-- A stackable diff on what a stackable diff leaves. -/
theorem Stackable.combine (hs : s.Regular L) {d e : BlockDiff} (hd : Stackable s d)
    (he : Stackable (CompositeStateReader.view s d) e) : Stackable s (d.combine e) where
  fits := CompositeStateReader.fits_combine hs.sound hd.fits he.fits
  dated := CompositeStateReader.dated_combine hd.dated he.dated
  regular := by
    rw [CompositeStateReader.view_combine hs.sound hd.fits he.fits]
    exact he.regular

/-- The empty diff can be stacked over a regular state. -/
theorem stackable_empty (hs : s.Regular L) : Stackable s BlockDiff.empty where
  fits := (running_empty hs).fits
  dated :=
    { fresh := fun id t ht => by cases ht
      height := fun id t ht => by cases ht }
  regular := ⟨L, by
    rw [CompositeStateReader.view_empty]
    exact hs⟩

/-- A block among many adds its own diff, made over the state so far, and hands its time on. -/
theorem manyStep_eq_ok {acc acc' : BlockDiff × Option Int64} {b : Block}
    (h : manyStep fs s acc b = .ok acc') :
    ∃ d, fromBlock fs (CompositeStateReader.view s acc.1) acc.2 b = .ok d ∧
      acc' = (acc.1.combine d, some b.timestamp) := by
  obtain ⟨d, hd, h⟩ := bind_eq_ok_iff.mp h
  exact ⟨d, explicitGet_eq_ok_iff.mp hd, (Except.ok.inj h).symm⟩

/-- The diff of many blocks. -/
theorem unsafeDiffMany_stackable (hs : s.Regular L) {blocks : List Block} {d : BlockDiff}
    (h : unsafeDiffMany fs s prev blocks = .ok d) : Stackable s d := by
  obtain ⟨acc, hfold, rfl⟩ := map_eq_ok_iff.mp h
  refine foldlM_invariant (I := fun acc => Stackable s acc.1) ?_ (stackable_empty hs) hfold
  intro acc acc' b _ hacc hstep
  obtain ⟨e, he, rfl⟩ := manyStep_eq_ok hstep
  obtain ⟨L', hL'⟩ := hacc.regular
  exact hacc.combine hs (fromBlock_stackable hL' he)

/-- The diffs the differ makes on a state of blocks that satisfy `admitted`: of one block, or of
many. -/
def Produces (admitted : Block → Prop) (fs : FunctionalitySettings) (s : StateView)
    (d : BlockDiff) : Prop :=
  (∃ prev b, admitted b ∧ fromBlock fs s prev b = .ok d) ∨
    ∃ prev blocks, (∀ b ∈ blocks, admitted b) ∧ unsafeDiffMany fs s prev blocks = .ok d

/-- A produced diff can be stacked over a regular state. -/
theorem Produces.stackable {admitted : Block → Prop} (hs : s.Regular L) {d : BlockDiff}
    (h : Produces admitted fs s d) : Stackable s d := by
  obtain ⟨_, _, -, h⟩ | ⟨_, _, -, h⟩ := h
  · exact fromBlock_stackable hs h
  · exact unsafeDiffMany_stackable hs h

end BlockDiffer

/-- The state before any block. -/
def initialState : StateReader := StateReaderImpl.reader StateStorage.empty

/-- One more block, over the state so far and the timestamp of the block before it. -/
def replayStep (fs : FunctionalitySettings) (st : StateReader × Option Int64) (b : Block) :
    Result (StateReader × Option Int64) := do
  let d ← BlockDiffer.fromBlock fs st.1.toStateView st.2 b
  .ok (CompositeStateReader.reader st.1 d, some b.timestamp)

/-- The state after the blocks of a chain, one after another, from the empty state. -/
def replay (fs : FunctionalitySettings) (blocks : List Block) :
    Result (StateReader × Option Int64) :=
  blocks.foldlM (replayStep fs) (initialState, none)

section Replay

variable {fs : FunctionalitySettings} {st st' : StateReader × Option Int64} {b : Block}
  {blocks : List Block}

/-- The state before the first block is regular. -/
theorem initialState_regular : initialState.Regular ∅ where
  sound :=
    { portfolio := fun _ => Portfolio.empty_sound
      portfolios := fun _ => rfl
      token := fun _ => le_rfl
      lease := fun _ h => absurd h (Multiset.notMem_zero _)
      lastUpdate := fun _ _ h => by cases h }
  ledger :=
    { named := fun _ _ _ _ _ h => by cases h
      stored := fun _ h => absurd h (Finset.notMem_empty _)
      contains := fun _ h => absurd h (Finset.notMem_empty _)
      active := fun _ h => by cases h
      parties := fun _ h => absurd h (Finset.notMem_empty _)
      leaseIn := fun _ => rfl
      leaseOut := fun _ => rfl
      noAlias := fun _ => rfl }
  entries :=
    { contractInfo := fun _ _ h => by cases h
      tokenInfo := fun _ _ h => by cases h }
  tokens :=
    { nonneg := fun _ => le_rfl
      total := fun _ _ => (Finset.sum_const_zero (ι := Address)).symm }

/-- There are no coins before the first block. -/
theorem initialState_supply : initialState.supply = 0 :=
  Finset.sum_const_zero

/-- Blocks behind others are replayed on the state that these leave. -/
theorem replay_append {upper : List Block} :
    replay fs (blocks ++ upper) = .ok st ↔
      ∃ st', replay fs blocks = .ok st' ∧ upper.foldlM (replayStep fs) st' = .ok st :=
  foldlM_append_eq_ok_iff

/-- A last block is replayed on the state that the others leave. -/
theorem replay_concat :
    replay fs (blocks ++ [b]) = .ok st ↔
      ∃ st', replay fs blocks = .ok st' ∧ replayStep fs st' b = .ok st := by
  rw [replay_append]
  simp

/-- A replayed block stacks its diff over the state and hands its time on. -/
theorem replayStep_eq_ok (h : replayStep fs st b = .ok st') :
    ∃ d, BlockDiffer.fromBlock fs st.1.toStateView st.2 b = .ok d ∧
      st' = (CompositeStateReader.reader st.1 d, some b.timestamp) := by
  obtain ⟨d, hd, h⟩ := bind_eq_ok_iff.mp h
  exact ⟨d, hd, (Except.ok.inj h).symm⟩

/-- A reader of a regular state that pages through its listings. -/
structure StateReader.Reliable (r : StateReader) : Prop where
  view : ∃ L, r.toStateView.Regular L
  lists : ∀ txType a, ∃ l, r.Lists Nonnegative txType a l

/-- A reliable reader under a diff that can be stacked is reliable. -/
theorem StateReader.Reliable.stack {r : StateReader} {d : BlockDiff} (hr : r.Reliable)
    (hd : BlockDiffer.Stackable r.toStateView d) : (CompositeStateReader.reader r d).Reliable where
  view := hd.regular
  lists := fun txType a => by
    obtain ⟨l, hl⟩ := hr.lists txType a
    exact ⟨_, CompositeStateReader.lists_reader hl⟩

/-- The reader of the empty storage is reliable. -/
theorem initialState_reliable : initialState.Reliable where
  view := ⟨∅, initialState_regular⟩
  lists := fun txType a => ⟨[],
    { length := by cases txType <;> rfl
      page := fun limit offset _ => by
        have hnone {K : Type} [DecidableEq K] (k : K) (start stop : Nat) :
            StateStorage.rangeQuery ∅ k start stop = [] :=
          List.filterMap_eq_nil_iff.mpr fun _ _ => rfl
        have hpage : initialState.ids txType a limit offset = (0, List.reverse []) := by
          cases txType with
          | none => exact congrArg (fun l => (0, List.reverse l)) (hnone _ _ _)
          | some txType => exact congrArg (fun l => (0, List.reverse l)) (hnone _ _ _)
        rw [hpage, page, List.drop_nil, List.take_nil]
        rfl
      known := fun id hid => absurd hid List.not_mem_nil }⟩

/-- Every state a chain goes through is reliable. -/
theorem replay_reliable (h : replay fs blocks = .ok st) : st.1.Reliable := by
  refine foldlM_invariant (I := fun st => st.1.Reliable) ?_ initialState_reliable h
  rintro st st' b - hst hstep
  obtain ⟨d, hd, rfl⟩ := replayStep_eq_ok hstep
  obtain ⟨L, hL⟩ := hst.view
  exact hst.stack (BlockDiffer.fromBlock_stackable hL hd)

/-- Replayed blocks leave a regular state. -/
theorem replay_regular (h : replay fs blocks = .ok st) : ∃ L, st.1.Regular L :=
  (replay_reliable h).view

end Replay

end Vsys
