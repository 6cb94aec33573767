import Vsys.Chain.Stored

/-!
# Invariants of a chain

The states a node has for a chain: the diffs of its blocks laid over a state or written to disk, in
any mix, and between the blocks the states of a block that is applied in part.  What holds of the
empty state, is kept by every accepted transaction, and sees neither the end of a block nor where
the state is kept, holds in all of them.
-/

namespace Vsys

open Lib CompositeStateReader

variable [Platform]

/-- The states a node can have for a chain of blocks: the empty storage, and the diff of further
blocks laid over such a state or written to it. -/
inductive StateOf (fs : FunctionalitySettings) : List Block → StateReader → Prop
  | empty : StateOf fs [] (StateReaderImpl.reader StateStorage.empty)
  | stack (blocks upper : List Block) (r : StateReader) (prev : Option Int64) (d : BlockDiff)
      (hr : StateOf fs blocks r)
      (hd : BlockDiffer.unsafeDiffMany fs r.toStateView prev upper = .ok d) :
      StateOf fs (blocks ++ upper) (reader r d)
  | write (blocks upper : List Block) (ss : StateSettings) (p : StateStorage)
      (prev : Option Int64) (d : BlockDiff) (hp : StateOf fs blocks (StateReaderImpl.reader p))
      (hd : BlockDiffer.unsafeDiffMany fs (StateReaderImpl.reader p).toStateView prev upper
        = .ok d) :
      StateOf fs (blocks ++ upper) (StateReaderImpl.reader (StateWriterImpl.applyBlockDiff ss p d))

/-- The transactions of a chain. -/
def transactionsOf (blocks : List Block) : List ProcessedTransaction :=
  blocks.flatMap Block.transactionData

/-- The states on the way, with the transactions behind them: a state of some blocks with some
transactions of the block that comes next. -/
inductive Passed (fs : FunctionalitySettings) : List ProcessedTransaction → StateView → Prop
  | intro (blocks : List Block) (r : StateReader) (hr : StateOf fs blocks r)
      (prev : Option Int64) (timestamp : Int64) (txs : List ProcessedTransaction) (d : Diff)
      (hd : txs.foldlM (BlockDiffer.txStep fs r.toStateView prev timestamp (r.height + 1))
        Diff.empty = .ok d) :
      Passed fs (transactionsOf blocks ++ txs) (view r.toStateView d.asBlockDiff)

/-- A transaction the next block can have on a state, with its diff. -/
structure Accepted (fs : FunctionalitySettings) (s : StateView) (tx : ProcessedTransaction)
    (e : Diff) : Prop where
  applied : ∃ prev timestamp,
    TransactionDiffer.apply fs prev timestamp (s.height + 1) s tx.transaction = .ok e
  fee : e.chargedFee = tx.feeCharged
  status : e.txStatus = tx.status

/-- What an accepted transaction keeps, and neither the end of a block nor the place of a state
changes. -/
structure ChainInvariant (fs : FunctionalitySettings)
    (P : List ProcessedTransaction → StateView → Prop) : Prop where
  empty : P [] initialState.toStateView
  transaction : ∀ {L done s tx e}, s.Regular L → P done s → Accepted fs s tx e →
    P (done ++ [tx]) (view s e.asBlockDiff)
  block : ∀ {L done s d snapshots}, s.Regular L →
    BlockDiffer.newSnapshots fs s (s.height + 1) d.portfolios = .ok snapshots →
    P done (view s d.asBlockDiff) → P done (view s ⟨d, 1, snapshots⟩)
  write : ∀ {L done p d} (ss : StateSettings), (StateReaderImpl.reader p).Regular L →
    BlockDiffer.Plain (StateReaderImpl.reader p).toStateView d →
    P done (view (StateReaderImpl.reader p).toStateView d) →
    P done (StateReaderImpl.reader (StateWriterImpl.applyBlockDiff ss p d)).toStateView

section Closure

variable {fs : FunctionalitySettings} {P : List ProcessedTransaction → StateView → Prop}
  {s : StateView} {L : Finset LeaseTransaction} {done txs : List ProcessedTransaction}
  {prev : Option Int64} {timestamp : Int64} {blocks : List Block} {r : StateReader} {b : Block}
  {tx : ProcessedTransaction} {d d' e : Diff}

theorem Accepted.applies (h : Accepted fs s tx e) :
    s.containsTransaction tx.transaction.id = false ∧
      HasEffect fs (s.height + 1) s tx.transaction e ∧
      ∀ acc pf, e.portfolios.lookup acc = some pf →
        BalanceDiffValidation.Solvent ((s.accountPortfolio acc).combine pf) := by
  obtain ⟨prev, timestamp, happly⟩ := h.applied
  exact TransactionDiffer.apply_eq_ok happly

theorem BlockDiffer.txStep_accepted
    (h : txStep fs s prev timestamp (s.height + 1) d tx = .ok d') :
    ∃ e, Accepted fs (view s d.asBlockDiff) tx e ∧ d' = d.combine e := by
  obtain ⟨e, happly, hfee, hstatus, rfl⟩ := txStep_eq_ok h
  exact ⟨e, ⟨⟨prev, timestamp, happly⟩, hfee, hstatus⟩, rfl⟩

namespace ChainInvariant

/-- One transaction of a block. -/
theorem txStep (hP : ChainInvariant fs P) (hs : s.Regular L) (hrun : BlockDiffer.Running s d)
    (h : P done (view s d.asBlockDiff))
    (hstep : BlockDiffer.txStep fs s prev timestamp (s.height + 1) d tx = .ok d') :
    P (done ++ [tx]) (view s d'.asBlockDiff) := by
  obtain ⟨L', hregular⟩ := hrun.regular
  obtain ⟨e, haccepted, rfl⟩ := BlockDiffer.txStep_accepted hstep
  obtain ⟨hnew, heffect, hsolvent⟩ := haccepted.applies
  obtain ⟨hfits, -, -⟩ := heffect.regular hregular hnew hsolvent
  rw [BlockDiffer.asBlockDiff_combine, view_combine hs.sound hrun.fits hfits]
  exact hP.transaction hregular h haccepted

/-- The transactions of a block. -/
theorem foldlM (hP : ChainInvariant fs P) (hs : s.Regular L) (hrun : BlockDiffer.Running s d)
    (h : P done (view s d.asBlockDiff))
    (hfold : txs.foldlM (BlockDiffer.txStep fs s prev timestamp (s.height + 1)) d = .ok d') :
    P (done ++ txs) (view s d'.asBlockDiff) := by
  induction txs generalizing done d with
  | nil =>
      rw [List.foldlM_nil, pure_eq_ok_iff] at hfold
      subst hfold
      rwa [List.append_nil]
  | cons tx txs ih =>
      obtain ⟨u, htx, htxs⟩ := foldlM_cons_eq_ok_iff.mp hfold
      rw [List.append_cons]
      exact ih (hrun.txStep hs htx).1 (hP.txStep hs hrun h htx) htxs

/-- Some transactions of the next block. -/
theorem foldlM_empty (hP : ChainInvariant fs P) (hs : s.Regular L) (h : P done s)
    (hfold : txs.foldlM (BlockDiffer.txStep fs s prev timestamp (s.height + 1)) Diff.empty
      = .ok d) : P (done ++ txs) (view s d.asBlockDiff) := by
  have hstart : view s Diff.empty.asBlockDiff = s := view_empty s
  exact hP.foldlM hs (BlockDiffer.running_empty hs) (hstart.symm ▸ h) hfold

/-- The next block. -/
theorem fromBlock (hP : ChainInvariant fs P) (hs : s.Regular L) (h : P done s) {d : BlockDiff}
    (hd : BlockDiffer.fromBlock fs s prev b = .ok d) :
    P (done ++ b.transactionData) (view s d) := by
  obtain ⟨diff, snapshots, hfold, hsnapshots, rfl⟩ := BlockDiffer.fromBlock_eq_ok hd
  exact hP.block hs hsnapshots (hP.foldlM_empty hs h hfold)

end ChainInvariant

theorem BlockDiffer.unsafeDiffMany_singleton {d : BlockDiff}
    (hd : BlockDiffer.fromBlock fs s prev b = .ok d) : unsafeDiffMany fs s prev [b] = .ok d := by
  refine map_eq_ok_iff.mpr ⟨(d, some b.timestamp), foldlM_cons_eq_ok_iff.mpr ⟨_, ?_, rfl⟩, rfl⟩
  rw [manyStep, view_empty, hd]
  show Except.ok (BlockDiff.empty.combine d, some b.timestamp) = _
  rw [BlockDiff.empty_combine]

theorem BlockDiffer.unsafeDiffMany_plain (hs : s.Regular L) {d : BlockDiff}
    (hd : unsafeDiffMany fs s prev blocks = .ok d) : Plain s d :=
  have hproduces : Produces (fun _ => True) fs s d :=
    .inr ⟨prev, blocks, fun _ _ => trivial, hd⟩
  hproduces.plain hs

theorem StateOf.regular (h : StateOf fs blocks r) : ∃ L, r.Regular L := by
  induction h with
  | empty => exact ⟨∅, initialState_regular⟩
  | stack blocks upper r prev d hr hd ih =>
      obtain ⟨L, hL⟩ := ih
      exact (BlockDiffer.unsafeDiffMany_stackable hL hd).regular
  | write blocks upper ss p prev d hp hd ih =>
      obtain ⟨L, hL⟩ := ih
      exact regular_written hL (BlockDiffer.unsafeDiffMany_plain hL hd)

/-- The replay of a chain is one of its states. -/
theorem StateOf.of_replay {st : StateReader × Option Int64} (h : replay fs blocks = .ok st) :
    StateOf fs blocks st.1 := by
  induction blocks using List.reverseRecOn generalizing st with
  | nil =>
      rw [replay, List.foldlM_nil, pure_eq_ok_iff] at h
      subst h
      exact .empty
  | append_singleton blocks b ih =>
      obtain ⟨st', hst', hstep⟩ := replay_concat.mp h
      obtain ⟨d, hd, rfl⟩ := replayStep_eq_ok hstep
      exact .stack blocks [b] st'.1 st'.2 d (ih hst') (BlockDiffer.unsafeDiffMany_singleton hd)

/-- What the empty state has, every next block keeps, and does not see where a state is kept, holds
in every state of a chain. -/
theorem StateOf.blockwise {P : List Block → StateView → Prop} (hempty : P [] initialState.toStateView)
    (hblock : ∀ {blocks r b} {prev : Option Int64} {d : BlockDiff}, StateOf fs blocks r →
      P blocks r.toStateView → BlockDiffer.fromBlock fs r.toStateView prev b = .ok d →
      P (blocks ++ [b]) (view r.toStateView d))
    (hwrite : ∀ {blocks p d L} (ss : StateSettings), (StateReaderImpl.reader p).Regular L →
      BlockDiffer.Plain (StateReaderImpl.reader p).toStateView d →
      P blocks (view (StateReaderImpl.reader p).toStateView d) →
      P blocks (StateReaderImpl.reader (StateWriterImpl.applyBlockDiff ss p d)).toStateView)
    (h : StateOf fs blocks r) : P blocks r.toStateView := by
  -- A diff of many blocks is one block after another, as the view of a combination is the stacked
  -- view.
  have hmany {blocks upper : List Block} {r : StateReader} {prev : Option Int64} {d : BlockDiff}
      (hr : StateOf fs blocks r) (hP : P blocks r.toStateView)
      (hd : BlockDiffer.unsafeDiffMany fs r.toStateView prev upper = .ok d) :
      P (blocks ++ upper) (view r.toStateView d) := by
    obtain ⟨L, hs⟩ := hr.regular
    obtain ⟨acc, hfold, rfl⟩ := map_eq_ok_iff.mp hd
    induction upper using List.reverseRecOn generalizing acc with
    | nil =>
        rw [List.foldlM_nil, pure_eq_ok_iff] at hfold
        subst hfold
        rw [view_empty, List.append_nil]
        exact hP
    | append_singleton upper b ih =>
        obtain ⟨acc', hacc', hstep⟩ := foldlM_append_eq_ok_iff.mp hfold
        obtain ⟨_, hlast, hdone⟩ := foldlM_cons_eq_ok_iff.mp hstep
        rw [List.foldlM_nil, pure_eq_ok_iff] at hdone
        subst hdone
        obtain ⟨e, he, rfl⟩ := BlockDiffer.manyStep_eq_ok hlast
        have hbelow : BlockDiffer.unsafeDiffMany fs r.toStateView prev upper = .ok acc'.1 :=
          map_eq_ok_iff.mpr ⟨acc', hacc', rfl⟩
        have hstackable := BlockDiffer.unsafeDiffMany_stackable hs hbelow
        obtain ⟨L', hregular⟩ := hstackable.regular
        have hfits := (BlockDiffer.fromBlock_stackable hregular he).fits
        rw [view_combine hs.sound hstackable.fits hfits, ← List.append_assoc]
        exact hblock (.stack _ _ _ _ _ hr hbelow) (ih acc' hacc' hbelow) he
  induction h with
  | empty => exact hempty
  | stack blocks upper r prev d hr hd ih => exact hmany hr ih hd
  | write blocks upper ss p prev d hp hd ih =>
      obtain ⟨L, hL⟩ := hp.regular
      exact hwrite ss hL (BlockDiffer.unsafeDiffMany_plain hL hd) (hmany hp ih hd)

/-- An invariant holds in every state of a chain. -/
theorem ChainInvariant.stateOf (hP : ChainInvariant fs P) (h : StateOf fs blocks r) :
    P (transactionsOf blocks) r.toStateView := by
  refine StateOf.blockwise (P := fun blocks s => P (transactionsOf blocks) s) hP.empty ?_ ?_ h
  · intro blocks r b prev d hr hdone hd
    obtain ⟨L, hL⟩ := hr.regular
    rw [transactionsOf, List.flatMap_append, List.flatMap_singleton]
    exact hP.fromBlock hL hdone hd
  · intro blocks p d L ss hp hd hdone
    exact hP.write ss hp hd hdone

/-- An invariant holds in every state on the way of a chain, between two of its transactions. -/
theorem ChainInvariant.passed (hP : ChainInvariant fs P) (h : Passed fs done s) : P done s := by
  cases h with
  | intro blocks r hr prev timestamp txs d hd =>
      obtain ⟨L, hL⟩ := hr.regular
      exact hP.foldlM_empty hL (hP.stateOf hr) hd

/-- The effective balances after an accepted transaction: those it changes have been checked. -/
theorem Accepted.effectiveBalance_nonneg (h : Accepted fs s tx e)
    (hs : ∀ a, 0 ≤ s.effectiveBalance a) (a : Address) :
    0 ≤ (view s e.asBlockDiff).effectiveBalance a := by
  obtain ⟨-, -, hsolvent⟩ := h.applies
  rw [StateView.effectiveBalance, view_accountPortfolio]
  change 0 ≤ ((s.accountPortfolio a).combine ((e.portfolios.lookup a).getD _)).effectiveBalance
  cases hpf : e.portfolios.lookup a with
  | none =>
      rw [Option.getD_none, Portfolio.combine_empty]
      exact hs a
  | some pf => exact (hsolvent a pf hpf).2.2.1

/-- No account has a negative effective balance. -/
theorem effectiveBalance_invariant (fs : FunctionalitySettings) :
    ChainInvariant fs fun _ s => ∀ a, 0 ≤ s.effectiveBalance a where
  empty := fun _ => (by decide : (0 : Int64) ≤ Portfolio.empty.effectiveBalance)
  transaction := fun _ hs h => h.effectiveBalance_nonneg hs
  block := fun _ _ hs => hs
  write := fun ss hp hd hs a => by
    rw [← StateStorage.view_eq_written_except ss hp.sound hd.stackable.fits hd.issuedAssets]
    exact hs a

theorem Passed.regular (h : Passed fs done s) : ∃ L, s.Regular L := by
  cases h with
  | intro blocks r hr prev timestamp txs d hd =>
      obtain ⟨L, hL⟩ := hr.regular
      exact (BlockDiffer.foldlM_regular hL hd).1.regular

end Closure

end Vsys
