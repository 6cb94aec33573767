import Vsys.Chain.Heights
import Vsys.Chain.Stored

/-!
# Three layers and one replay

The layers of the updater, and the replay of the blocks of its history: whatever is appended, rolled
back, moved down or rebuilt, the three layers together answer as the replay does.
-/

namespace Vsys

open Lib CompositeStateReader

section Platform

variable [Platform]

section Replay

variable {fs : FunctionalitySettings} {blocks upper : List Block} {b : Block}
  {st : StateReader × Option Int64} {r : StateReader} {d : BlockDiff}

/-- A replay is at the height of its blocks, and at the timestamp of the last. -/
theorem replay_last (h : replay fs blocks = .ok st) :
    st.1.height = blocks.length ∧ st.2 = blocks.getLast?.map Block.timestamp := by
  induction blocks using List.reverseRecOn generalizing st with
  | nil =>
      obtain rfl := Except.ok.inj h
      exact ⟨rfl, rfl⟩
  | append_singleton blocks b ih =>
      obtain ⟨st', hst', hstep⟩ := replay_concat.mp h
      obtain ⟨d, hd, rfl⟩ := replayStep_eq_ok hstep
      obtain ⟨diff, snapshots, -, -, rfl⟩ := BlockDiffer.fromBlock_eq_ok hd
      rw [List.length_append, List.getLast?_concat, ← (ih hst').1]
      exact ⟨rfl, rfl⟩

/-- A reader that answers as the replay of some blocks does. -/
def Answers (fs : FunctionalitySettings) (blocks : List Block) (r : StateReader) : Prop :=
  ∃ st, replay fs blocks = .ok st ∧ SameAnswers Nonnegative st.1 r

theorem Answers.congr {r' : StateReader} (h : Answers fs blocks r)
    (hr : SameAnswers Nonnegative r r') : Answers fs blocks r' := by
  obtain ⟨st, hst, hsame⟩ := h
  exact ⟨st, hst, hsame.trans hr⟩

theorem Answers.height (h : Answers fs blocks r) : r.height = blocks.length := by
  obtain ⟨st, hst, hsame⟩ := h
  rw [← (replay_last hst).1, hsame.view]

theorem Answers.reliable (h : Answers fs blocks r) : r.Reliable := by
  obtain ⟨st, hst, hsame⟩ := h
  refine ⟨?_, hsame.symm.lists⟩
  rw [← hsame.view]
  exact replay_regular hst

/-- The differ makes the diff of the next block on the replay as on the reader. -/
theorem Answers.fromBlock_eq (h : Answers fs blocks r) :
    ∃ st, replay fs blocks = .ok st ∧ SameAnswers Nonnegative st.1 r ∧
      ∀ b, BlockDiffer.fromBlock fs st.1.toStateView st.2 b
        = BlockDiffer.fromBlock fs r.toStateView (blocks.getLast?.map Block.timestamp) b := by
  obtain ⟨st, hst, hsame⟩ := h
  refine ⟨st, hst, hsame, fun b => ?_⟩
  rw [hsame.view, (replay_last hst).2]

/-- One more block. -/
theorem Answers.concat (h : Answers fs blocks r)
    (hd : BlockDiffer.fromBlock fs r.toStateView (blocks.getLast?.map Block.timestamp) b = .ok d) :
    Answers fs (blocks ++ [b]) (reader r d) := by
  obtain ⟨st, hst, hsame, hfrom⟩ := h.fromBlock_eq
  rw [← hfrom] at hd
  refine ⟨(reader st.1 d, some b.timestamp), replay_concat.mpr ⟨st, hst, ?_⟩,
    sameAnswers_reader hsame (BlockDiffer.fromBlock_dated hd)⟩
  rw [replayStep, hd]
  rfl

/-- Laying the empty diff over a reader changes no answer. -/
theorem sameAnswers_empty (hr : ∀ txType a, ∃ l, r.Lists Nonnegative txType a l) :
    SameAnswers Nonnegative r (reader r BlockDiff.empty) where
  view := (view_empty _).symm
  ids := fun txType a => by
    obtain ⟨l, hl⟩ := hr txType a
    have hempty : BlockDiff.empty.txsDiff.ids txType a = [] :=
      List.eq_nil_iff_forall_not_mem.mpr fun id hid => by
        obtain ⟨t, ht, -⟩ := Diff.mem_ids.mp hid
        cases ht
    have hreader : (reader r BlockDiff.empty).Lists Nonnegative txType a
        (BlockDiff.empty.txsDiff.ids txType a ++ l) := lists_reader hl
    rw [hempty] at hreader
    exact ⟨l, l, hl, hreader, TieEquiv.refl l⟩

theorem Answers.empty (h : Answers fs blocks r) : Answers fs blocks (reader r BlockDiff.empty) :=
  h.congr (sameAnswers_empty h.reliable.lists)

/-- The blocks of a chain that come after those a reader stands for have a diff on the reader, and
with it the reader stands for them too. -/
theorem Answers.unsafeDiffMany (h : Answers fs blocks r) (hfree : r.StartsFree)
    (hupper : ∀ b ∈ upper, b.Persistable fs) (hst : replay fs (blocks ++ upper) = .ok st) :
    ∃ d, BlockDiffer.unsafeDiffMany fs r.toStateView (blocks.getLast?.map Block.timestamp) upper
        = .ok d ∧
      BlockDiffer.Storing r.toStateView d ∧ Answers fs (blocks ++ upper) (reader r d) := by
  obtain ⟨L, hL⟩ := h.reliable.view
  suffices hfold : ∃ acc, upper.foldlM (BlockDiffer.manyStep fs r.toStateView)
        (BlockDiff.empty, blocks.getLast?.map Block.timestamp) = .ok acc ∧
      BlockDiffer.Storing r.toStateView acc.1 ∧ Answers fs (blocks ++ upper) (reader r acc.1) ∧
      acc.2 = (blocks ++ upper).getLast?.map Block.timestamp by
    obtain ⟨acc, hacc, hstoring, hanswers, -⟩ := hfold
    exact ⟨acc.1, map_eq_ok_iff.mpr ⟨acc, hacc, rfl⟩, hstoring, hanswers⟩
  -- The induction takes the last block off: the diff of all blocks is the diff of those below,
  -- combined with that of the last on the state they leave.
  induction upper using List.reverseRecOn generalizing st with
  | nil =>
      rw [List.append_nil]
      exact ⟨_, rfl, BlockDiffer.storing_empty hL hfree, h.empty, rfl⟩
  | append_singleton upper b ih =>
      rw [← List.append_assoc] at hst ⊢
      obtain ⟨st', hst', hstep⟩ := replay_concat.mp hst
      obtain ⟨acc, hacc, hstoring, hanswers, hlast⟩ :=
        ih (fun b hb => hupper b (List.mem_append_left _ hb)) hst'
      obtain ⟨st'', hst'', -, hfrom⟩ := hanswers.fromBlock_eq
      obtain rfl := Except.ok.inj (hst'.symm.trans hst'')
      obtain ⟨e, he, -⟩ := replayStep_eq_ok hstep
      rw [hfrom, ← hlast] at he
      obtain ⟨L', hL'⟩ := hstoring.stackable.regular
      have hstoring' := BlockDiffer.fromBlock_storing hL' hstoring.startsFree
        (hupper b (List.mem_append_right _ List.mem_cons_self)) he
      refine ⟨(acc.1.combine e, some b.timestamp), foldlM_append_eq_ok_iff.mpr ⟨acc, hacc, ?_⟩,
        hstoring.combine hL hstoring', ?_, by rw [List.getLast?_concat]; rfl⟩
      · rw [foldlM_cons_eq_ok_iff]
        refine ⟨_, ?_, rfl⟩
        have hget : explicitGet (BlockDiffer.fromBlock fs (view r.toStateView acc.1) acc.2 b) = .ok e :=
          explicitGet_eq_ok_iff.mpr he
        rw [BlockDiffer.manyStep, hget]
        rfl
      · rw [hlast] at he
        refine (hanswers.concat he).congr ?_
        exact sameAnswers_combine h.reliable.lists hL.sound hstoring.stackable.fits
          hstoring'.stackable.fits hstoring.stackable.dated hstoring'.stackable.dated

end Replay

namespace BlockchainUpdaterImpl

/-- The blocks each layer of the updater stands for. -/
structure Layers (fs : FunctionalitySettings) (u : BlockchainUpdaterImpl)
    (low middle high : List Block) : Prop where
  writable : u.persisted.Writable
  persisted : Answers fs low (StateReaderImpl.reader u.persisted)
  bottomStoring :
    BlockDiffer.Storing (StateReaderImpl.reader u.persisted).toStateView u.bottomMemoryDiff
  bottom : Answers fs (low ++ middle) u.bottomState
  topStoring : BlockDiffer.Storing u.bottomState.toStateView u.topMemoryDiff
  top : Answers fs (low ++ middle ++ high) u.currentPersistedBlocksState

variable {fs : FunctionalitySettings} {settings : UpdaterSettings} {u : BlockchainUpdaterImpl}
  {low middle high kept blocks : List Block} {b : Block} {d : BlockDiff} {history : History}

/-- A diff that has been written answers as it did in memory. -/
theorem Layers.sameAnswers (h : Layers fs u low middle high) {ss : StateSettings}
    (hsettings : ss.txTypeAccountTxIds = true) :
    SameAnswers Nonnegative u.bottomState
      (StateReaderImpl.reader (StateWriterImpl.applyBlockDiff ss u.persisted u.bottomMemoryDiff)) := by
  obtain ⟨L, hL⟩ := h.writable.regular
  exact StateStorage.sameAnswers_written h.writable.numbered hsettings hL.sound
    h.bottomStoring.stackable.fits h.bottomStoring.storable

/-- Moving the layers down changes no answer. -/
theorem Layers.shiftLayers (h : Layers settings.functionalitySettings u low middle high)
    (hsettings : settings.stateSettings.txTypeAccountTxIds = true) :
    ∃ low' middle' high', low ++ middle ++ high = low' ++ middle' ++ high' ∧
      Layers settings.functionalitySettings (shiftLayers settings u) low' middle' high' := by
  unfold BlockchainUpdaterImpl.shiftLayers
  split
  · have hsame := h.sameAnswers hsettings
    have htop : SameAnswers Nonnegative u.currentPersistedBlocksState
        (reader (StateReaderImpl.reader (StateWriterImpl.applyBlockDiff settings.stateSettings
          u.persisted u.bottomMemoryDiff)) u.topMemoryDiff) :=
      sameAnswers_reader hsame h.topStoring.stackable.dated
    obtain ⟨L, hL⟩ := h.topStoring.stackable.regular
    have hstored : Answers settings.functionalitySettings (low ++ middle ++ high)
        (reader (StateReaderImpl.reader (StateWriterImpl.applyBlockDiff settings.stateSettings
          u.persisted u.bottomMemoryDiff)) u.topMemoryDiff) := h.top.congr htop
    refine ⟨low ++ middle, high, [], by rw [List.append_nil], ?_⟩
    constructor
    case writable => exact h.writable.write h.bottomStoring
    case persisted => exact h.bottom.congr hsame
    case bottomStoring => exact hsame.view ▸ h.topStoring
    case bottom => exact hstored
    case topStoring =>
      change BlockDiffer.Storing (reader _ _).toStateView BlockDiff.empty
      rw [← htop.view]
      exact BlockDiffer.storing_empty hL h.topStoring.startsFree
    case top =>
      rw [List.append_nil]
      exact hstored.empty
  · exact ⟨low, middle, high, rfl, h⟩

/-- One more block on top. -/
theorem Layers.concat (h : Layers fs u low middle high) (hb : b.Persistable fs)
    (hd : BlockDiffer.fromBlock fs u.currentPersistedBlocksState.toStateView
      ((low ++ middle ++ high).getLast?.map Block.timestamp) b = .ok d) :
    Layers fs { u with history := history, topMemoryDiff := u.topMemoryDiff.combine d }
      low middle (high ++ [b]) := by
  obtain ⟨L, hL⟩ := h.bottom.reliable.view
  obtain ⟨L', hL'⟩ := h.topStoring.stackable.regular
  have hstoring := BlockDiffer.fromBlock_storing hL' h.topStoring.startsFree hb hd
  constructor
  case writable => exact h.writable
  case persisted => exact h.persisted
  case bottomStoring => exact h.bottomStoring
  case bottom => exact h.bottom
  case topStoring => exact h.topStoring.combine hL hstoring
  case top =>
    rw [← List.append_assoc]
    refine (h.top.concat hd).congr ?_
    exact sameAnswers_combine h.bottom.reliable.lists hL.sound h.topStoring.stackable.fits
      hstoring.stackable.fits h.topStoring.stackable.dated hstoring.stackable.dated

/-- The diff of a range of blocks, on a reader that stands for the blocks below the range. -/
theorem unsafeDiffByRange_eq_ok {r : StateReader} {done : List Block} (upper rest : List Block)
    (hr : Answers fs done r) (hfree : r.StartsFree) (hs : history.Stores (done ++ upper ++ rest))
    (hpersistable : ∀ b ∈ done ++ upper ++ rest, b.Persistable fs)
    {st : StateReader × Option Int64} (hst : replay fs (done ++ upper ++ rest) = .ok st) :
    ∃ d, unsafeDiffByRange fs history r.toStateView (done.length + 1)
        ((done ++ upper).length + 1) = .ok d ∧
      BlockDiffer.Storing r.toStateView d ∧ Answers fs (done ++ upper) (reader r d) := by
  obtain ⟨st', hst', -⟩ := replay_append.mp hst
  obtain ⟨d, hd, hstoring, hanswers⟩ := hr.unsafeDiffMany hfree (fun b hb =>
    hpersistable b (List.mem_append_left _ (List.mem_append_right _ hb))) hst'
  refine ⟨d, ?_, hstoring, hanswers⟩
  have hread := hs.readBlocks done.length (done ++ upper).length (by simp)
  rw [List.take_left, List.drop_left] at hread
  have hprevious := hs.blockAt_length (k := done.length) (by
    rw [List.length_append, List.length_append]
    omega)
  rw [List.append_assoc, List.take_left] at hprevious
  rw [unsafeDiffByRange, hread]
  simp only [ok_bind, Nat.add_sub_cancel, hprevious]
  exact hd

/-- A chain whose blocks the differ has accepted, in a history. -/
structure Kept (fs : FunctionalitySettings) (history : History) (kept : List Block) : Prop where
  stores : history.Stores kept
  persistable : ∀ b ∈ kept, b.Persistable fs
  accepted : ∃ st, replay fs kept = .ok st

/-- The diff of the blocks up to some height of a kept chain. -/
theorem Kept.unsafeDiffByRange (hk : Kept fs history kept) {r : StateReader} {n m : Nat}
    (hr : Answers fs (kept.take n) r) (hfree : r.StartsFree) (hn : n ≤ m) (hm : m ≤ kept.length) :
    ∃ d, unsafeDiffByRange fs history r.toStateView (n + 1) (m + 1) = .ok d ∧
      BlockDiffer.Storing r.toStateView d ∧ Answers fs (kept.take m) (reader r d) := by
  obtain ⟨st, hst⟩ := hk.accepted
  have hsplit : kept.take n ++ (kept.take m).drop n = kept.take m := by
    have htake : (kept.take m).take n = kept.take n := by
      rw [List.take_take, Nat.min_eq_left hn]
    rw [← htake, List.take_append_drop]
  have hkept : kept.take n ++ (kept.take m).drop n ++ kept.drop m = kept := by
    rw [hsplit, List.take_append_drop]
  have hdone : (kept.take n).length = n := List.length_take_of_le (by omega)
  have hupper : (kept.take n ++ (kept.take m).drop n).length = m := by
    rw [hsplit, List.length_take_of_le hm]
  have h := unsafeDiffByRange_eq_ok ((kept.take m).drop n) (kept.drop m) hr hfree
    (hkept.symm ▸ hk.stores) (hkept.symm ▸ hk.persistable) (hkept.symm ▸ hst)
  rwa [hdone, hupper, hsplit] at h

/-- A range that ends before it starts has no blocks. -/
theorem unsafeDiffByRange_max (fs : FunctionalitySettings) (history : History) (state : StateView)
    (start stop : Nat) : BlockchainUpdaterImpl.unsafeDiffByRange fs history state start stop
      = BlockchainUpdaterImpl.unsafeDiffByRange fs history state start (max start stop) := by
  have hlength : max start stop - start = stop - start := by omega
  rw [BlockchainUpdaterImpl.unsafeDiffByRange, BlockchainUpdaterImpl.unsafeDiffByRange, readBlocks,
    readBlocks, hlength]

/-- The storage of the updater stands for the first `n` blocks of a kept chain. -/
structure Rebuilt (fs : FunctionalitySettings) (u : BlockchainUpdaterImpl) (kept : List Block)
    (n : Nat) : Prop where
  chain : Kept fs u.history kept
  writable : u.persisted.Writable
  answers : Answers fs (kept.take n) (StateReaderImpl.reader u.persisted)
  le : n ≤ kept.length

/-- Persisting one range. -/
theorem Rebuilt.persist_range {n : Nat} (stop : Nat)
    (h : Rebuilt settings.functionalitySettings u kept n)
    (hsettings : settings.stateSettings.txTypeAccountTxIds = true) (hstop : stop ≤ kept.length + 1) :
    ∃ u', persistRange settings (n + 1, stop) u = (.ok (), u') ∧
      Rebuilt settings.functionalitySettings u' kept (max n (stop - 1)) := by
  have hle := h.le
  obtain ⟨d, hd, hstoring, hanswers⟩ := h.chain.unsafeDiffByRange (m := max n (stop - 1)) h.answers
    h.writable.startsFree (Nat.le_max_left _ _) (by omega)
  have hmax : max n (stop - 1) + 1 = max (n + 1) stop := by omega
  rw [hmax, ← unsafeDiffByRange_max] at hd
  refine ⟨{ u with persisted :=
    StateWriterImpl.applyBlockDiff settings.stateSettings u.persisted d }, ?_, ?_⟩
  · rw [BlockchainUpdaterImpl.persistRange, Action.bind_of_ok (Action.get_apply u),
      Action.bind_of_ok (by rw [Action.ofExcept_apply, hd])]
    rfl
  · obtain ⟨L, hL⟩ := h.writable.regular
    exact ⟨h.chain, h.writable.write hstoring, hanswers.congr
      (StateStorage.sameAnswers_written h.writable.numbered hsettings hL.sound
        hstoring.stackable.fits hstoring.storable), by omega⟩

/-- Persisting the ranges one after another. -/
theorem Rebuilt.persist_ranges {start n : Nat} (stop step : Nat)
    (h : Rebuilt settings.functionalitySettings u kept n)
    (hsettings : settings.stateSettings.txTypeAccountTxIds = true) (hstart : start = n + 1)
    (hstop : stop ≤ kept.length + 1) :
    ∃ u' n', Action.forEach (persistRange settings) (ranges start stop step) u = (.ok (), u') ∧
      Rebuilt settings.functionalitySettings u' kept n' := by
  induction start using ranges.induct stop step generalizing u n with
  | case1 start hmore ih =>
      subst hstart
      obtain ⟨u', hu', hrebuilt⟩ := h.persist_range (n + 1 + step) hsettings (by omega)
      have hmax : max n (n + 1 + step - 1) = n + step := by omega
      rw [hmax] at hrebuilt
      obtain ⟨u'', n'', hu'', hrebuilt'⟩ := ih hrebuilt (by omega)
      refine ⟨u'', n'', ?_, hrebuilt'⟩
      rw [ranges, if_pos hmore, Action.forEach, Action.bind_of_ok hu', hu'']
  | case2 start hlast =>
      subst hstart
      obtain ⟨u', hu', hrebuilt⟩ := h.persist_range stop hsettings hstop
      refine ⟨u', _, ?_, hrebuilt⟩
      rw [ranges, if_neg hlast, Action.forEach, Action.bind_of_ok hu']
      rfl

/-- Rebuilding the layers from the blocks of the history. -/
theorem Rebuilt.update {n : Nat} (h : Rebuilt settings.functionalitySettings u kept n)
    (hsettings : settings.stateSettings.txTypeAccountTxIds = true) :
    ∃ u', updatePersistedAndInMemory settings u = (.ok (), u') ∧
      Kept settings.functionalitySettings u'.history kept ∧ ∃ low middle,
        kept = low ++ middle ++ [] ∧ Layers settings.functionalitySettings u' low middle [] := by
  have hheight : u.persisted.height + 1 = n + 1 := by
    have := h.answers.height
    rw [List.length_take_of_le h.le] at this
    exact congrArg (· + 1) this
  have hhistory := h.chain.stores.height
  obtain ⟨u', n', hu', hrebuilt⟩ := h.persist_ranges
    (u.history.height + 1 - settings.minimumInMemoryDiffSize) settings.minimumInMemoryDiffSize
    hsettings hheight (by omega)
  obtain ⟨d, hd, hstoring, hanswers⟩ := hrebuilt.chain.unsafeDiffByRange hrebuilt.answers
    hrebuilt.writable.startsFree hrebuilt.le le_rfl
  have hheight' : u'.persisted.height = n' := by
    have := hrebuilt.answers.height
    rwa [List.length_take_of_le hrebuilt.le] at this
  refine ⟨{ u' with bottomMemoryDiff := d, topMemoryDiff := BlockDiff.empty }, ?_, hrebuilt.chain,
    kept.take n', kept.drop n', by rw [List.append_nil, List.take_append_drop], ?_⟩
  · rw [updatePersistedAndInMemory, Action.bind_of_ok (Action.get_apply u), Action.bind_of_ok hu',
      Action.bind_of_ok (Action.get_apply u'), Action.bind_of_ok (by
        rw [Action.ofExcept_apply, hheight', hrebuilt.chain.stores.height, hd])]
    rfl
  · obtain ⟨L, hL⟩ := hstoring.stackable.regular
    rw [List.take_length] at hanswers
    constructor
    case writable => exact hrebuilt.writable
    case persisted => exact hrebuilt.answers
    case bottomStoring => exact hstoring
    case bottom =>
      rw [List.take_append_drop]
      exact hanswers
    case topStoring => exact BlockDiffer.storing_empty hL hstoring.startsFree
    case top =>
      rw [List.append_nil, List.take_append_drop]
      exact hanswers.empty

/-- Nothing on disk stands for no blocks. -/
theorem rebuilt_empty (hk : Kept fs u.history kept) :
    Rebuilt fs { u with persisted := StateStorage.empty } kept 0 where
  chain := hk
  writable := writable_empty
  answers := ⟨(initialState, none), rfl, SameAnswers.refl initialState_reliable.lists⟩
  le := Nat.zero_le _

/-- Another top diff. -/
theorem Layers.with_top (h : Layers fs u low middle high)
    (hstoring : BlockDiffer.Storing u.bottomState.toStateView d)
    (hanswers : Answers fs (low ++ middle ++ kept) (reader u.bottomState d)) :
    Layers fs { u with topMemoryDiff := d } low middle kept :=
  ⟨h.writable, h.persisted, h.bottomStoring, h.bottom, hstoring, hanswers⟩

/-- Another bottom diff, under an empty top. -/
theorem Layers.with_bottom (h : Layers fs u low middle high)
    (hstoring : BlockDiffer.Storing (StateReaderImpl.reader u.persisted).toStateView d)
    (hanswers : Answers fs (low ++ kept) (reader (StateReaderImpl.reader u.persisted) d)) :
    Layers fs { u with bottomMemoryDiff := d, topMemoryDiff := BlockDiff.empty } low kept [] := by
  obtain ⟨L, hL⟩ := hstoring.stackable.regular
  refine ⟨h.writable, h.persisted, hstoring, hanswers,
    BlockDiffer.storing_empty hL hstoring.startsFree, ?_⟩
  rw [List.append_nil]
  exact hanswers.empty

/-- The layers of the blocks that are kept after a rollback. -/
theorem Layers.roll_back (h : Layers settings.functionalitySettings u low middle high)
    (hsettings : settings.stateSettings.txTypeAccountTxIds = true) {upper : List Block}
    (hblocks : low ++ middle ++ high = kept ++ upper)
    (hk : Kept settings.functionalitySettings u.history kept) :
    ∃ u', rollBackLayers settings kept.length u = (.ok (), u') ∧
      Kept settings.functionalitySettings u'.history kept ∧ ∃ low' middle' high',
        kept = low' ++ middle' ++ high' ∧
          Layers settings.functionalitySettings u' low' middle' high' := by
  have hlow : u.persisted.height = low.length := h.persisted.height
  have hbottom : u.persisted.height + u.bottomMemoryDiff.heightDiff = (low ++ middle).length :=
    h.bottom.height
  have htop : u.currentPersistedBlocksState.height = (low ++ middle ++ high).length := h.top.height
  have hstart : rollBackLayers settings kept.length u = _ := Action.bind_of_ok (Action.get_apply u)
  have htake (l rest : List Block) (hl : low ++ middle ++ high = l ++ rest)
      (hlength : l.length ≤ kept.length) : kept.take l.length = l := by
    have hprefix : (kept ++ upper).take l.length = l := by rw [← hblocks, hl, List.take_left]
    rwa [List.take_append_of_le_length hlength] at hprefix
  -- The height the chain is cut at lies in one of the three layers.
  by_cases hdisk : kept.length < u.persisted.height
  · -- the state on disk is rebuilt
    obtain ⟨u', hu', hkept', low', middle', hsplit, hlayers⟩ := (rebuilt_empty hk).update hsettings
    refine ⟨u', ?_, hkept', low', middle', [], hsplit, hlayers⟩
    rw [hstart, if_pos hdisk, Action.bind_of_ok (Action.modify_apply _ u)]
    exact hu'
  rw [if_neg hdisk] at hstart
  by_cases hsame : u.currentPersistedBlocksState.height = kept.length
  · -- nothing is cut
    rw [if_neg (not_not.mpr hsame)] at hstart
    have hall := htake (low ++ middle ++ high) [] (List.append_nil _).symm (by omega)
    rw [List.take_of_length_le (by omega)] at hall
    exact ⟨u, hstart, hk, low, middle, high, hall, h⟩
  rw [if_pos hsame] at hstart
  by_cases habove : u.persisted.height + u.bottomMemoryDiff.heightDiff < kept.length
  · -- the top diff is cut
    have hdone : kept.take (low ++ middle).length = low ++ middle := htake _ _ rfl (by omega)
    have hsplit : kept = low ++ middle ++ kept.drop (low ++ middle).length := by
      conv_lhs => rw [← List.take_append_drop (low ++ middle).length kept, hdone]
    obtain ⟨d, hd, hstoring, hanswers⟩ := hk.unsafeDiffByRange (n := (low ++ middle).length)
      (m := kept.length) (hdone.symm ▸ h.bottom) h.bottomStoring.startsFree (by omega) le_rfl
    rw [List.take_length, hsplit] at hanswers
    refine ⟨{ u with topMemoryDiff := d }, ?_, hk, low, middle, _, hsplit,
      h.with_top hstoring hanswers⟩
    rw [hstart, if_pos habove, Action.bind_of_ok (by rw [Action.ofExcept_apply, hbottom, hd])]
    rfl
  rw [if_neg habove] at hstart
  by_cases hbelow : kept.length < u.persisted.height + u.bottomMemoryDiff.heightDiff
  · -- the bottom diff is cut
    have hdone : kept.take low.length = low :=
      htake low (middle ++ high) (List.append_assoc _ _ _) (by omega)
    have hsplit : kept = low ++ kept.drop low.length := by
      conv_lhs => rw [← List.take_append_drop low.length kept, hdone]
    obtain ⟨d, hd, hstoring, hanswers⟩ := hk.unsafeDiffByRange (n := low.length)
      (m := kept.length) (hdone.symm ▸ h.persisted) h.writable.startsFree (by omega) le_rfl
    rw [List.take_length, hsplit] at hanswers
    refine ⟨{ u with bottomMemoryDiff := d, topMemoryDiff := BlockDiff.empty }, ?_, hk, low, _, [],
      by rw [List.append_nil]; exact hsplit, h.with_bottom hstoring hanswers⟩
    rw [hstart, Action.bind_of_ok (Action.modify_apply _ u), if_pos hbelow,
      Action.bind_of_ok (by rw [Action.ofExcept_apply, hlow, hd])]
    rfl
  · -- the bottom diff stays
    have hdone : kept = low ++ middle := by
      rw [← htake (low ++ middle) _ rfl (by omega), List.take_of_length_le (by omega)]
    refine ⟨{ u with topMemoryDiff := BlockDiff.empty }, ?_, hk, low, middle, [],
      by rw [List.append_nil]; exact hdone, h.with_bottom h.bottomStoring h.bottom⟩
    rw [hstart, Action.bind_of_ok (Action.modify_apply _ u), if_neg hbelow]
    rfl

/-- An updater that stands for a chain. -/
structure StandsFor (fs : FunctionalitySettings) (u : BlockchainUpdaterImpl) (blocks : List Block) :
    Prop where
  stores : u.history.Stores blocks
  persistable : ∀ b ∈ blocks, b.Persistable fs
  layers : ∃ low middle high, blocks = low ++ middle ++ high ∧ Layers fs u low middle high

theorem StandsFor.answers (h : StandsFor fs u blocks) :
    Answers fs blocks u.currentPersistedBlocksState := by
  obtain ⟨low, middle, high, rfl, hlayers⟩ := h.layers
  exact hlayers.top

theorem standsFor_empty : StandsFor fs empty [] where
  stores := History.stores_empty
  persistable := fun b hb => absurd hb List.not_mem_nil
  layers := by
    have hnone : Answers fs [] (StateReaderImpl.reader StateStorage.empty) :=
      ⟨(initialState, none), rfl, SameAnswers.refl initialState_reliable.lists⟩
    obtain ⟨L, hL⟩ := writable_empty.regular
    have hstoring := BlockDiffer.storing_empty hL writable_empty.startsFree
    obtain ⟨L', hL'⟩ := hstoring.stackable.regular
    exact ⟨[], [], [], rfl, writable_empty, hnone, hstoring, hnone.empty,
      BlockDiffer.storing_empty hL' hstoring.startsFree, hnone.empty.empty⟩

theorem StandsFor.shift (h : StandsFor settings.functionalitySettings u blocks)
    (hsettings : settings.stateSettings.txTypeAccountTxIds = true) :
    StandsFor settings.functionalitySettings (BlockchainUpdaterImpl.shiftLayers settings u)
      blocks := by
  obtain ⟨low, middle, high, hblocks, hlayers⟩ := h.layers
  obtain ⟨low', middle', high', hsplit, hlayers'⟩ := hlayers.shiftLayers hsettings
  refine ⟨?_, h.persistable, low', middle', high', hblocks.trans hsplit, hlayers'⟩
  unfold BlockchainUpdaterImpl.shiftLayers
  split
  · exact h.stores
  · exact h.stores

/-- A block that is processed is on top of the chain, and one that is turned away changes nothing
but where the layers are. -/
theorem StandsFor.processBlock (h : StandsFor settings.functionalitySettings u blocks)
    (hsettings : settings.stateSettings.txTypeAccountTxIds = true)
    (hb : b.Persistable settings.functionalitySettings) (hstorable : b.Storable) :
    match BlockchainUpdaterImpl.processBlock settings b u with
    | (.ok _, u') => StandsFor settings.functionalitySettings u' (blocks ++ [b])
    | (.error _, u') => StandsFor settings.functionalitySettings u' blocks := by
  have hshift := h.shift hsettings
  rw [processBlock_apply]
  generalize BlockchainUpdaterImpl.shiftLayers settings u = u at hshift
  dsimp only
  cases happend : u.history.appendBlock b (consensusValidation settings u b) with
  | error e => exact hshift
  | ok p =>
      obtain ⟨d, history⟩ := p
      obtain ⟨-, hvalid, bytes, score, hbytes, rfl⟩ := History.appendBlock_eq_ok happend
      obtain ⟨last, hlast, hd⟩ := bind_eq_ok_iff.mp hvalid
      rw [hshift.stores.lastBlock] at hlast
      obtain rfl := Except.ok.inj hlast
      obtain ⟨low, middle, high, rfl, hlayers⟩ := hshift.layers
      obtain ⟨bytes', hbytes', hparse⟩ := hstorable
      obtain rfl := Except.ok.inj (hbytes.symm.trans hbytes')
      refine ⟨hshift.stores.push hparse score, fun b' hb' => ?_, low, middle, high ++ [b],
        List.append_assoc _ _ _, hlayers.concat hb hd⟩
      obtain hold | hnew := List.mem_append.mp hb'
      · exact hshift.persistable b' hold
      · exact List.mem_singleton.mp hnew ▸ hb

/-- A rollback to a block of the chain leaves the blocks up to it, and one to another block changes
nothing. -/
theorem StandsFor.removeAfter (h : StandsFor settings.functionalitySettings u blocks)
    (hsettings : settings.stateSettings.txTypeAccountTxIds = true) (blockId : ByteStr) :
    match BlockchainUpdaterImpl.removeAfter settings blockId u with
    | (.ok discarded, u') => ∃ lower b upper, blocks = lower ++ [b] ++ upper ∧
        b.uniqueId = blockId ∧ discarded = (upper.reverse.map Block.transactions).flatten ∧
        StandsFor settings.functionalitySettings u' (lower ++ [b])
    | (.error _, u') => u' = u := by
  obtain ⟨e, hrun⟩ | ⟨lower, b, upper, hblocks, hid, ⟨rfl, hrun⟩ | ⟨history, hstores, hrun⟩⟩ :=
    removeAfter_cases settings h.stores blockId
  · rw [hrun]
  · rw [hrun]
    rw [List.append_nil] at hblocks
    exact ⟨lower, b, [], by rw [List.append_nil]; exact hblocks, hid, rfl, hblocks ▸ h⟩
  · obtain ⟨low, middle, high, hsplit, hlayers⟩ := h.layers
    obtain ⟨st, hst, -⟩ := h.answers
    rw [hblocks] at hst
    obtain ⟨st', hst', -⟩ := replay_append.mp hst
    obtain ⟨u', hu', hkept', low', middle', high', hsplit', hlayers'⟩ := Layers.roll_back
      (u := { u with history := history })
      ⟨hlayers.writable, hlayers.persisted, hlayers.bottomStoring, hlayers.bottom,
        hlayers.topStoring, hlayers.top⟩ hsettings (hsplit.symm.trans hblocks)
      ⟨hstores, fun b' hb' => h.persistable b' (hblocks ▸ List.mem_append_left _ hb'), st', hst'⟩
    rw [hrun, Action.bind_of_ok hu']
    exact ⟨lower, b, upper, hblocks, hid, rfl, hkept'.stores, hkept'.persistable, low', middle',
      high', hsplit', hlayers'⟩

/-- The calls that change the updater. -/
inductive Call
  | processBlock (block : Block)
  | removeAfter (blockId : ByteStr)

/-- The updater after a call, whatever its outcome. -/
def Call.run (settings : UpdaterSettings) : Call → BlockchainUpdaterImpl → BlockchainUpdaterImpl
  | .processBlock block, u => (BlockchainUpdaterImpl.processBlock settings block u).2
  | .removeAfter blockId, u => (BlockchainUpdaterImpl.removeAfter settings blockId u).2

/-- The updater after some calls, from an empty database on. -/
def runCalls (settings : UpdaterSettings) (calls : List Call) : BlockchainUpdaterImpl :=
  calls.foldl (fun u call => call.run settings u) empty

/-- Every call leaves an updater that stands for a chain. -/
theorem StandsFor.run (h : StandsFor settings.functionalitySettings u blocks)
    (hsettings : settings.stateSettings.txTypeAccountTxIds = true) (call : Call)
    (hcall : ∀ b, call = .processBlock b →
      b.Storable ∧ b.SlotsDistinct settings.functionalitySettings) :
    ∃ blocks', StandsFor settings.functionalitySettings (call.run settings u) blocks' := by
  cases call with
  | processBlock b =>
      obtain ⟨hstorable, hdistinct⟩ := hcall b rfl
      have hnext := h.processBlock hsettings ⟨hstorable.encodable, hdistinct⟩ hstorable
      rw [Call.run]
      cases hrun : BlockchainUpdaterImpl.processBlock settings b u with
      | mk outcome u' =>
          rw [hrun] at hnext
          cases outcome with
          | ok _ => exact ⟨_, hnext⟩
          | error _ => exact ⟨_, hnext⟩
  | removeAfter blockId =>
      have hnext := h.removeAfter hsettings blockId
      rw [Call.run]
      cases hrun : BlockchainUpdaterImpl.removeAfter settings blockId u with
      | mk outcome u' =>
          rw [hrun] at hnext
          cases outcome with
          | ok _ =>
              obtain ⟨lower, b, -, -, -, -, hstands⟩ := hnext
              exact ⟨_, hstands⟩
          | error _ => exact ⟨_, hnext ▸ h⟩

theorem runCalls_standsFor (hsettings : settings.stateSettings.txTypeAccountTxIds = true)
    (calls : List Call) (hcalls : ∀ b, .processBlock b ∈ calls →
      b.Storable ∧ b.SlotsDistinct settings.functionalitySettings) :
    ∃ blocks, StandsFor settings.functionalitySettings (runCalls settings calls) blocks := by
  induction calls using List.reverseRecOn with
  | nil => exact ⟨[], standsFor_empty⟩
  | append_singleton calls call ih =>
      obtain ⟨blocks, hblocks⟩ := ih fun b hb => hcalls b (List.mem_append_left _ hb)
      rw [runCalls, List.foldl_append]
      exact hblocks.run hsettings call fun b hb =>
        hcalls b (List.mem_append_right _ (hb ▸ List.mem_cons_self))

/-- After any calls, accepted or turned away, the three layers answer as the replay of the blocks of
the history does. -/
theorem runCalls_answers (settings : UpdaterSettings)
    (hsettings : settings.stateSettings.txTypeAccountTxIds = true) (calls : List Call)
    (hcalls : ∀ b, .processBlock b ∈ calls →
      b.Storable ∧ b.SlotsDistinct settings.functionalitySettings) :
    let u := runCalls settings calls
    u.currentPersistedBlocksState.height = u.history.height ∧
    ∃ blocks st, readBlocks u.history 1 (u.history.height + 1) = .ok blocks ∧
      blocks.length = u.history.height ∧
      replay settings.functionalitySettings blocks = .ok st ∧
      SameAnswers Nonnegative st.1 u.currentPersistedBlocksState := by
  obtain ⟨blocks, h⟩ := runCalls_standsFor hsettings calls hcalls
  obtain ⟨st, hst, hsame⟩ := h.answers
  have hheight := h.stores.height
  have hread := h.stores.readBlocks 0 blocks.length le_rfl
  rw [List.take_length, List.drop_zero, ← hheight] at hread
  exact ⟨h.answers.height.trans hheight.symm, blocks, st, hread, hheight.symm, hst, hsame⟩

end BlockchainUpdaterImpl

end Platform

namespace Sample

open BlockchainUpdaterImpl

/-- Layers of one block each, with the listings by type kept or not. -/
def updaterSettings (txTypeAccountTxIds : Bool) : UpdaterSettings := ⟨fs, ⟨txTypeAccountTxIds⟩, 1⟩

/-- The three blocks are read back from their bytes. -/
theorem storable_blocks : ∀ b ∈ [genesisBlock, secondBlock, thirdBlock],
    b.bytes.isOk = true ∧ Block.parseBytes (okOr b.bytes []) = .ok b := by
  decide +kernel

/-- A block that is read back from its bytes can be stored. -/
theorem storable_of {b : Block}
    (h : b.bytes.isOk = true ∧ Block.parseBytes (okOr b.bytes []) = .ok b) : b.Storable :=
  ⟨okOr b.bytes [], eq_ok_okOr h.1, h.2⟩

theorem storable_genesisBlock : genesisBlock.Storable :=
  storable_of (storable_blocks _ List.mem_cons_self)

theorem storable_secondBlock : secondBlock.Storable :=
  storable_of (storable_blocks _ (List.mem_cons_of_mem _ List.mem_cons_self))

theorem storable_thirdBlock : thirdBlock.Storable :=
  storable_of (storable_blocks _
    (List.mem_cons_of_mem _ (List.mem_cons_of_mem _ List.mem_cons_self)))

/-- Three blocks, a rollback to the first that reaches the disk, and the second again. -/
def calls : List Call :=
  [.processBlock genesisBlock, .processBlock secondBlock, .processBlock thirdBlock,
    .removeAfter (signature 1), .processBlock secondBlock]

/-- The calls leave the first two blocks. -/
theorem calls_evaluate : (runCalls (updaterSettings true) calls).history.height = 2 ∧
    readBlocks (runCalls (updaterSettings true) calls).history 1
      ((runCalls (updaterSettings true) calls).history.height + 1)
      = .ok [genesisBlock, secondBlock] := by
  decide +kernel

theorem calls_answers : let u := runCalls (updaterSettings true) calls
    u.history.height = 2 ∧ ∃ st, replay fs [genesisBlock, secondBlock] = .ok st ∧
      SameAnswers Nonnegative st.1 u.currentPersistedBlocksState := by
  have h := runCalls_answers (updaterSettings true) rfl calls fun b hb => by
    simp only [calls, List.mem_cons, Call.processBlock.injEq, List.not_mem_nil, or_false,
      reduceCtorEq, false_or] at hb
    obtain rfl | rfl | rfl | rfl := hb
    · exact ⟨storable_genesisBlock, List.pairwise_singleton _ _⟩
    · exact ⟨storable_secondBlock, List.pairwise_singleton _ _⟩
    · exact ⟨storable_thirdBlock, List.pairwise_singleton _ _⟩
    · exact ⟨storable_secondBlock, List.pairwise_singleton _ _⟩
  obtain ⟨-, blocks, st, hread, -, hst, hsame⟩ := h
  obtain ⟨hheight, hblocks⟩ := calls_evaluate
  obtain rfl := Except.ok.inj (hblocks.symm.trans hread)
  exact ⟨hheight, st, hst, hsame⟩

/-- The updater after three blocks, the first of which is given. -/
def threeBlocks (txTypeAccountTxIds : Bool) (first : Block) : BlockchainUpdaterImpl :=
  runCalls (updaterSettings txTypeAccountTxIds)
    [.processBlock first, .processBlock secondBlock, .processBlock thirdBlock]

/-- The replay of the same blocks. -/
def replayed (first : Block) : StateReader × Option Int64 :=
  okOr (replay fs [first, secondBlock, thirdBlock]) (initialState, none)

/-- What three blocks evaluate to, with the listings by type off, or with a slot that is taken
twice. -/
theorem threeBlocks_evaluate :
    (readBlocks (threeBlocks false genesisBlock).history 1 4
        = .ok [genesisBlock, secondBlock, thirdBlock] ∧
      (replay fs [genesisBlock, secondBlock, thirdBlock]).isOk = true ∧
      (replayed genesisBlock).1.txTypeAccTxLengths .genesisTransaction owner ≠
        (threeBlocks false genesisBlock).currentPersistedBlocksState.txTypeAccTxLengths
          .genesisTransaction owner) ∧
    readBlocks (threeBlocks true twiceTaken).history 1 4
        = .ok [twiceTaken, secondBlock, thirdBlock] ∧
      (replay fs [twiceTaken, secondBlock, thirdBlock]).isOk = true ∧
      (replayed twiceTaken).1.effectiveSlotAddressSize ≠
        (threeBlocks true twiceTaken).currentPersistedBlocksState.effectiveSlotAddressSize := by
  decide +kernel

/-- Three blocks with the listings by type off, or with a slot that is taken twice, and one block
that cannot be read back. -/
theorem layers_disagree :
    (∃ blocks st, readBlocks (runCalls (updaterSettings false) [.processBlock genesisBlock,
        .processBlock secondBlock, .processBlock thirdBlock]).history 1 4 = .ok blocks ∧
      replay fs blocks = .ok st ∧
      st.1.txTypeAccTxLengths .genesisTransaction owner ≠ (runCalls (updaterSettings false)
        [.processBlock genesisBlock, .processBlock secondBlock, .processBlock
          thirdBlock]).currentPersistedBlocksState.txTypeAccTxLengths .genesisTransaction owner) ∧
    (∃ blocks st, readBlocks (runCalls (updaterSettings true) [.processBlock twiceTaken,
        .processBlock secondBlock, .processBlock thirdBlock]).history 1 4 = .ok blocks ∧
      replay fs blocks = .ok st ∧
      st.1.effectiveSlotAddressSize ≠ (runCalls (updaterSettings true) [.processBlock twiceTaken,
        .processBlock secondBlock, .processBlock
          thirdBlock]).currentPersistedBlocksState.effectiveSlotAddressSize) ∧
    (runCalls (updaterSettings true) [.processBlock { genesisBlock with version := 3 }]).history.height
      = 1 ∧
    (readBlocks (runCalls (updaterSettings true)
      [.processBlock { genesisBlock with version := 3 }]).history 1 2).isOk = false := by
  obtain ⟨⟨hread, hreplay, hlengths⟩, hreadTwice, hreplayTwice, hslots⟩ :=
    threeBlocks_evaluate
  rw [threeBlocks] at hread hlengths hreadTwice hslots
  rw [replayed] at hlengths hslots
  exact ⟨⟨_, _, hread, eq_ok_okOr hreplay, hlengths⟩,
    ⟨_, _, hreadTwice, eq_ok_okOr hreplayTwice, hslots⟩, by decide +kernel⟩

end Sample

end Vsys
