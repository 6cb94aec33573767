import Vsys.Chain.Nodes
import Vsys.Chain.Records
import Vsys.State.Writes

/-!
# Restarts

A process may stop at any point and start again from what is on disk.  Between two diffs a restart
brings back the updater of the history, also out of a rollback or out of another restart.  Inside a
diff it never does: the transactions written first are met again above the height written last.
-/

namespace Vsys

open Lib CompositeStateReader

section Platform

variable [Platform]

/-- What a process leaves on disk. -/
structure Disk where
  persisted : StateStorage
  history : History

namespace StorageFactory

/-- `StorageFactory.createStateStorage`. -/
def createStateStorage (history : History) (ss : StateStorage) : StateStorage :=
  if ss.height ≤ history.height then ss else StateStorage.empty

/-- The updater `StorageFactory.apply` hands to `BlockchainUpdaterImpl.apply`. -/
def opened (disk : Disk) : BlockchainUpdaterImpl :=
  ⟨createStateStorage disk.history disk.persisted, BlockDiff.empty, BlockDiff.empty, disk.history⟩

/-- `StorageFactory.apply`: the outcome of starting a process, and its updater. -/
def apply (settings : UpdaterSettings) (disk : Disk) : Result Unit × BlockchainUpdaterImpl :=
  BlockchainUpdaterImpl.updatePersistedAndInMemory settings (opened disk)

end StorageFactory

namespace BlockchainUpdaterImpl

/-- The updater after the first of the ranges that `updatePersistedAndInMemory` persists. -/
def persistSome (settings : UpdaterSettings) (count : Nat) (u : BlockchainUpdaterImpl) :
    BlockchainUpdaterImpl :=
  (Action.forEach (persistRange settings) ((ranges (u.persisted.height + 1)
    (u.history.height + 1 - settings.minimumInMemoryDiffSize)
    settings.minimumInMemoryDiffSize).take count) u).2

/-- Where a process stops: between two calls, in `processBlock` when a diff has just been moved to
disk, or in a rollback after some of the blocks, and after some of the ranges that are then
persisted anew. -/
inductive Stop
  | idle
  | moved
  | discarded (count : Nat)
  | rebuilding (count ranges : Nat)

/-- What is on disk at a stop. -/
def Stop.disk (settings : UpdaterSettings) (u : BlockchainUpdaterImpl) : Stop → Disk
  | .idle => ⟨u.persisted, u.history⟩
  | .moved => ⟨(shiftLayers settings u).persisted, u.history⟩
  | .discarded count =>
      ⟨u.persisted, (u.history.discardBlocks (min count u.history.height)).2⟩
  | .rebuilding count ranges =>
      let history := (u.history.discardBlocks (min count u.history.height)).2
      ⟨(persistSome settings ranges ⟨StateStorage.empty, u.bottomMemoryDiff, u.topMemoryDiff,
        history⟩).persisted, history⟩

/-- What is on disk when a process that starts stops again, after some of the ranges. -/
def interrupted (settings : UpdaterSettings) (disk : Disk) (ranges : Nat) : Disk :=
  ⟨(persistSome settings ranges (StorageFactory.opened disk)).persisted, disk.history⟩

/-- What happens to a node: a call, or a stop and a restart, with any number of restarts that stop
again before it. -/
inductive Event
  | call (call : Call)
  | restart (stop : Stop) (attempts : List Nat)

/-- The updater after an event; it fails where a process does not start. -/
def Event.run (settings : UpdaterSettings) (u : BlockchainUpdaterImpl) :
    Event → Result BlockchainUpdaterImpl
  | .call c => .ok (c.run settings u)
  | .restart stop attempts =>
      let (outcome, u') :=
        StorageFactory.apply settings (attempts.foldl (interrupted settings) (stop.disk settings u))
      outcome.map fun _ => u'

variable {fs : FunctionalitySettings} {settings : UpdaterSettings} {u u' : BlockchainUpdaterImpl}
  {kept blocks : List Block} {disk : Disk} {n : Nat}

/-- A disk from which the updater of a chain can be built: the state on it stands for the first
blocks, or is higher than the history and will be dropped. -/
structure Holds (fs : FunctionalitySettings) (disk : Disk) (kept : List Block) : Prop where
  chain : Kept fs disk.history kept
  storage : kept.length < disk.persisted.height ∨
    disk.persisted.Writable ∧ ∃ n ≤ kept.length,
      Answers fs (kept.take n) (StateReaderImpl.reader disk.persisted)

/-- What `StorageFactory` opens stands for the first blocks. -/
theorem Holds.opened (h : Holds fs disk kept) :
    ∃ n, Rebuilt fs (StorageFactory.opened disk) kept n := by
  have hheight := h.chain.stores.height
  rw [StorageFactory.opened, StorageFactory.createStateStorage]
  obtain hhigh | ⟨hwritable, n, hn, hanswers⟩ := h.storage
  · rw [if_neg (by omega)]
    exact ⟨0, rebuilt_empty (u := ⟨disk.persisted, BlockDiff.empty, BlockDiff.empty, disk.history⟩)
      h.chain⟩
  · have hlow : disk.persisted.height ≤ disk.history.height := by
      have : disk.persisted.height = (kept.take n).length := hanswers.height
      rw [this, List.length_take_of_le hn, hheight]
      exact hn
    rw [if_pos hlow]
    exact ⟨n, h.chain, hwritable, hanswers, hn⟩

/-- Starting on such a disk succeeds, and brings the updater of the chain. -/
theorem Holds.start (h : Holds settings.functionalitySettings disk kept)
    (hsettings : settings.stateSettings.txTypeAccountTxIds = true) :
    ∃ u', StorageFactory.apply settings disk = (.ok (), u') ∧
      StandsFor settings.functionalitySettings u' kept := by
  obtain ⟨n, hrebuilt⟩ := h.opened
  obtain ⟨u', hrun, hkept, low, middle, hsplit, hlayers⟩ := hrebuilt.update hsettings
  exact ⟨u', hrun, hkept.stores, hkept.persistable, low, middle, [], hsplit, hlayers⟩

/-- Some of the ranges, one after another. -/
theorem Rebuilt.persist_ranges_take {start : Nat} (stop step count : Nat)
    (h : Rebuilt settings.functionalitySettings u kept n)
    (hsettings : settings.stateSettings.txTypeAccountTxIds = true) (hstart : start = n + 1)
    (hstop : stop ≤ kept.length + 1) :
    ∃ n', Rebuilt settings.functionalitySettings
      (Action.forEach (persistRange settings) ((ranges start stop step).take count) u).2
      kept n' := by
  induction start using ranges.induct stop step generalizing u n count with
  | case1 start hmore ih =>
      subst hstart
      rw [ranges, if_pos hmore]
      cases count with
      | zero => exact ⟨n, h⟩
      | succ count =>
          obtain ⟨u', hu', hrebuilt⟩ := h.persist_range (n + 1 + step) hsettings (by omega)
          have hmax : max n (n + 1 + step - 1) = n + step := by omega
          rw [hmax] at hrebuilt
          rw [List.take_succ_cons, Action.forEach, Action.bind_of_ok hu']
          exact ih count hrebuilt (by omega)
  | case2 start hlast =>
      subst hstart
      rw [ranges, if_neg hlast]
      cases count with
      | zero => exact ⟨n, h⟩
      | succ count =>
          obtain ⟨u', hu', hrebuilt⟩ := h.persist_range stop hsettings hstop
          rw [List.take_succ_cons, List.take_nil, Action.forEach, Action.bind_of_ok hu']
          exact ⟨_, hrebuilt⟩

theorem Rebuilt.persist_some (h : Rebuilt settings.functionalitySettings u kept n)
    (hsettings : settings.stateSettings.txTypeAccountTxIds = true) (count : Nat) :
    ∃ n', Rebuilt settings.functionalitySettings (persistSome settings count u) kept n' := by
  have hheight : u.persisted.height + 1 = n + 1 := by
    have := h.answers.height
    rw [List.length_take_of_le h.le] at this
    exact congrArg (· + 1) this
  have hhistory := h.chain.stores.height
  exact h.persist_ranges_take _ _ count hsettings hheight (by omega)

/-- The storage of such an updater, with its history. -/
theorem Rebuilt.holds (h : Rebuilt fs u kept n) : Holds fs ⟨u.persisted, u.history⟩ kept :=
  ⟨h.chain, .inr ⟨h.writable, n, h.le, h.answers⟩⟩

theorem persistSome_history (settings : UpdaterSettings) (count : Nat) (u : BlockchainUpdaterImpl) :
    (persistSome settings count u).history = u.history :=
  Action.Keeps.forEach (fun range _ => keeps_persistRange range) u rfl

/-- A start that stops halfway leaves such a disk again. -/
theorem Holds.interrupted (h : Holds settings.functionalitySettings disk kept)
    (hsettings : settings.stateSettings.txTypeAccountTxIds = true) (ranges : Nat) :
    Holds settings.functionalitySettings (interrupted settings disk ranges) kept := by
  obtain ⟨n, hrebuilt⟩ := h.opened
  obtain ⟨n', hsome⟩ := hrebuilt.persist_some hsettings ranges
  have hholds := hsome.holds
  rw [persistSome_history] at hholds
  exact hholds

theorem StandsFor.chain (h : StandsFor fs u blocks) : Kept fs u.history blocks := by
  obtain ⟨st, hst, -⟩ := h.answers
  exact ⟨h.stores, h.persistable, st, hst⟩

/-- Blocks off the top of a kept chain. -/
theorem Kept.discardBlocks {history : History} (h : Kept fs history blocks) (count : Nat) :
    Kept fs (history.discardBlocks (min count history.height)).2
      (blocks.take (blocks.length - count)) := by
  have hsplit := List.take_append_drop (blocks.length - count) blocks
  have hlength : (blocks.drop (blocks.length - count)).length = min count history.height := by
    rw [List.length_drop, h.stores.height]
    omega
  obtain ⟨st, hst⟩ := h.accepted
  obtain ⟨st', hst', -⟩ := replay_append.mp (hsplit.symm ▸ hst)
  refine ⟨?_, fun b hb => h.persistable b (List.mem_of_mem_take hb), st', hst'⟩
  rw [← hlength]
  exact (hsplit.symm ▸ h.stores : history.Stores _).discardBlocks.1

/-- The disk of an updater after some blocks have been discarded. -/
theorem StandsFor.discarded (h : StandsFor fs u blocks) (count : Nat) :
    Holds fs ⟨u.persisted, (u.history.discardBlocks (min count u.history.height)).2⟩
      (blocks.take (blocks.length - count)) := by
  have hkept := h.chain.discardBlocks count
  obtain ⟨low, middle, high, rfl, hlayers⟩ := h.layers
  have hlow : u.persisted.height = low.length := hlayers.persisted.height
  refine ⟨hkept, ?_⟩
  set m := (low ++ middle ++ high).length - count with hm
  have hmle : m ≤ (low ++ middle ++ high).length := Nat.sub_le _ _
  rw [List.length_take_of_le hmle]
  by_cases hle : low.length ≤ m
  · refine .inr ⟨hlayers.writable, low.length, hle, ?_⟩
    rw [List.take_take, Nat.min_eq_left hle, List.append_assoc, List.take_left]
    exact hlayers.persisted
  · refine .inl ?_
    change m < u.persisted.height
    omega

/-- The disk of an updater. -/
theorem StandsFor.idle (h : StandsFor fs u blocks) : Holds fs ⟨u.persisted, u.history⟩ blocks := by
  have hnone := h.discarded 0
  rw [Nat.zero_min, Nat.sub_zero, List.take_length] at hnone
  exact hnone

/-- Wherever a process stops between two diffs, it leaves a disk from which the updater of its
chain, or of the blocks it has not yet discarded, can be built. -/
theorem StandsFor.stop (h : StandsFor settings.functionalitySettings u blocks)
    (hsettings : settings.stateSettings.txTypeAccountTxIds = true) (stop : Stop) :
    ∃ kept, kept <+: blocks ∧
      Holds settings.functionalitySettings (stop.disk settings u) kept := by
  cases stop with
  | idle => exact ⟨blocks, List.prefix_rfl, h.idle⟩
  | moved =>
      have hmoved := (h.shift hsettings).idle
      rw [shiftLayers_history] at hmoved
      exact ⟨blocks, List.prefix_rfl, hmoved⟩
  | discarded count => exact ⟨_, List.take_prefix _ _, h.discarded count⟩
  | rebuilding count ranges =>
      obtain ⟨n, hsome⟩ := (rebuilt_empty (u := ⟨u.persisted, u.bottomMemoryDiff, u.topMemoryDiff,
        (u.history.discardBlocks (min count u.history.height)).2⟩)
        (h.chain.discardBlocks count)).persist_some hsettings ranges
      have hholds := hsome.holds
      rw [persistSome_history] at hholds
      exact ⟨_, List.take_prefix _ _, hholds⟩

/-- After a stop every start succeeds, however often it is interrupted. -/
theorem StandsFor.restart (h : StandsFor settings.functionalitySettings u blocks)
    (hsettings : settings.stateSettings.txTypeAccountTxIds = true) (stop : Stop)
    (attempts : List Nat) :
    ∃ u' kept, Event.run settings u (.restart stop attempts) = .ok u' ∧ kept <+: blocks ∧
      StandsFor settings.functionalitySettings u' kept := by
  obtain ⟨kept, hprefix, hholds⟩ := h.stop hsettings stop
  have hattempts : Holds settings.functionalitySettings
      (attempts.foldl (BlockchainUpdaterImpl.interrupted settings) (stop.disk settings u))
      kept := by
    generalize stop.disk settings u = disk at hholds
    induction attempts generalizing disk with
    | nil => exact hholds
    | cons ranges attempts ih => exact ih _ (hholds.interrupted hsettings ranges)
  obtain ⟨u', hstart, hstands⟩ := hattempts.start hsettings
  refine ⟨u', kept, ?_, hprefix, hstands⟩
  rw [Event.run, hstart]
  rfl

end BlockchainUpdaterImpl

/-- A reader that answers as a replay does records the transactions of its blocks. -/
theorem Answers.records {fs : FunctionalitySettings} {blocks : List Block} {r : StateReader}
    (h : Answers fs blocks r) : Records r.toStateView blocks := by
  obtain ⟨st, hst, hsame⟩ := h
  rw [← hsame.view]
  clear hsame r
  induction blocks using List.reverseRecOn generalizing st with
  | nil =>
      obtain rfl := Except.ok.inj hst
      exact BlockchainUpdaterImpl.records_empty
  | append_singleton blocks b ih =>
      obtain ⟨st', hst', hstep⟩ := replay_concat.mp hst
      obtain ⟨d, hd, rfl⟩ := replayStep_eq_ok hstep
      exact (ih st' hst').concat hd

namespace BlockDiffer

/-- The diff of many blocks is as high as they are many, and no transaction of theirs was known
before. -/
theorem unsafeDiffMany_fresh {fs : FunctionalitySettings} {s : StateView} {prev : Option Int64}
    {blocks : List Block} {d : BlockDiff} (hd : unsafeDiffMany fs s prev blocks = .ok d) :
    d.heightDiff = blocks.length ∧ ∀ b ∈ blocks, ∀ q ∈ b.transactionData,
      s.containsTransaction q.transaction.id = false := by
  obtain ⟨acc, hfold, rfl⟩ := map_eq_ok_iff.mp hd
  clear hd
  induction blocks using List.reverseRecOn generalizing acc with
  | nil =>
      rw [List.foldlM_nil, pure_eq_ok_iff] at hfold
      subst hfold
      exact ⟨rfl, fun b hb => absurd hb List.not_mem_nil⟩
  | append_singleton blocks b ih =>
      obtain ⟨acc', hacc', hstep⟩ := foldlM_append_eq_ok_iff.mp hfold
      obtain ⟨_, hmany, hlast⟩ := foldlM_cons_eq_ok_iff.mp hstep
      rw [List.foldlM_nil, pure_eq_ok_iff] at hlast
      subst hlast
      obtain ⟨e, he, rfl⟩ := manyStep_eq_ok hmany
      obtain ⟨diff, snapshots, htxs, -, rfl⟩ := fromBlock_eq_ok he
      obtain ⟨hheight, hfresh⟩ := ih acc' hacc'
      have hrecorded := (recorded_empty (view s acc'.1) _).foldlM htxs
      rw [List.nil_append] at hrecorded
      refine ⟨?_, fun b' hb' q hq => ?_⟩
      · rw [List.length_append, List.length_singleton, ← hheight]
        rfl
      · obtain hb' | hb' := List.mem_append.mp hb'
        · exact hfresh b' hb' q hq
        · rw [List.mem_singleton.mp hb'] at hq
          have hnew := hrecorded.fresh q hq
          rw [view_containsTransaction, Bool.or_eq_false_iff] at hnew
          exact hnew.2

end BlockDiffer

namespace BlockchainUpdaterImpl

variable {fs : FunctionalitySettings} {settings : UpdaterSettings} {u u' : BlockchainUpdaterImpl}
  {kept blocks : List Block} {d : BlockDiff} {disk : Disk} {n m : Nat} {id : ByteStr}

/-- A storage of some height that knows a transaction of a higher block. -/
structure Torn (u : BlockchainUpdaterImpl) (kept : List Block) (n : Nat) (id : ByteStr) : Prop where
  stores : u.history.Stores kept
  height : u.persisted.height = n
  le : n ≤ kept.length
  known : (u.persisted.transactions.lookup id).isSome
  ahead : ∃ b ∈ kept.drop n, ∃ q ∈ b.transactionData, q.transaction.id = id

/-- The block ahead is not among those that have a diff. -/
theorem Torn.unsafeDiffByRange (h : Torn u kept n id) (hn : n ≤ m) (hm : m ≤ kept.length)
    (hd : unsafeDiffByRange fs u.history (StateReaderImpl.reader u.persisted).toStateView (n + 1)
      (m + 1) = .ok d) :
    d.heightDiff = m - n ∧ ∃ b ∈ kept.drop m, ∃ q ∈ b.transactionData, q.transaction.id = id := by
  obtain ⟨blocks, hread, hd⟩ := bind_eq_ok_iff.mp hd
  obtain ⟨previous, -, hd⟩ := bind_eq_ok_iff.mp hd
  rw [h.stores.readBlocks n m hm] at hread
  obtain rfl := Except.ok.inj hread
  obtain ⟨hheight, hfresh⟩ := BlockDiffer.unsafeDiffMany_fresh hd
  refine ⟨?_, ?_⟩
  · rw [hheight, List.length_drop, List.length_take_of_le hm]
  · obtain ⟨b, hb, q, hq, hid⟩ := h.ahead
    have hsplit : kept.drop n = (kept.take m).drop n ++ kept.drop m := by
      have hlength : (kept.take m).length = m := List.length_take_of_le hm
      conv_lhs => rw [← List.take_append_drop m kept]
      rw [List.drop_append_of_le_length (by omega)]
    rw [hsplit] at hb
    obtain hb | hb := List.mem_append.mp hb
    · have hnew := hfresh b hb q hq
      rw [hid] at hnew
      have hknown :
          (StateReaderImpl.reader u.persisted).toStateView.containsTransaction id = true :=
        h.known
      rw [hnew] at hknown
      cases hknown
    · exact ⟨b, hb, q, hq, hid⟩

/-- Persisting one range. -/
theorem Torn.persist_range {stop : Nat} (h : Torn u kept n id) (hstop : stop ≤ kept.length + 1)
    (hrun : persistRange settings (n + 1, stop) u = (.ok (), u')) :
    Torn u' kept (max n (stop - 1)) id := by
  have hle := h.le
  rw [persistRange, Action.bind_of_ok (Action.get_apply u)] at hrun
  obtain ⟨d, u'', hread, hwrite⟩ := Action.bind_eq_ok_iff.mp hrun
  obtain ⟨hd, rfl⟩ := Prod.mk.inj hread
  obtain ⟨-, rfl⟩ := Prod.mk.inj hwrite
  have hmax : max (n + 1) stop = max n (stop - 1) + 1 := by omega
  dsimp only at hd
  rw [unsafeDiffByRange_max, hmax] at hd
  obtain ⟨hheight, hahead⟩ := h.unsafeDiffByRange (Nat.le_max_left _ _) (by omega) hd
  have hwritten : (StateWriterImpl.applyBlockDiff settings.stateSettings u.persisted d).height
      = u.persisted.height + d.heightDiff := rfl
  refine ⟨h.stores, ?_, by omega, ?_, hahead⟩
  · change (StateWriterImpl.applyBlockDiff settings.stateSettings u.persisted d).height = _
    rw [hwritten, h.height, hheight]
    omega
  · change ((Dict.overlay _ _).lookup id).isSome
    rw [Dict.lookup_overlay, Option.isSome_or, h.known, Bool.or_true]

/-- Persisting the ranges one after another. -/
theorem Torn.persist_ranges {start stop step : Nat} (h : Torn u kept n id)
    (hstart : start = n + 1) (hstop : stop ≤ kept.length + 1)
    (hrun : Action.forEach (persistRange settings) (ranges start stop step) u = (.ok (), u')) :
    ∃ n', Torn u' kept n' id := by
  induction start using ranges.induct stop step generalizing u n with
  | case1 start hmore ih =>
      subst hstart
      rw [ranges, if_pos hmore] at hrun
      obtain ⟨u'', hfirst, hrest⟩ := Action.forEach_cons_eq_ok_iff.mp hrun
      have htorn := h.persist_range (by omega) hfirst
      have hmax : max n (n + 1 + step - 1) = n + step := by omega
      rw [hmax] at htorn
      exact ih htorn (by omega) hrest
  | case2 start hlast =>
      subst hstart
      rw [ranges, if_neg hlast] at hrun
      obtain ⟨u'', hfirst, hrest⟩ := Action.forEach_cons_eq_ok_iff.mp hrun
      obtain ⟨-, rfl⟩ := Prod.mk.inj hrest
      exact ⟨_, h.persist_range hstop hfirst⟩

/-- From a torn storage the layers are never rebuilt. -/
theorem Torn.update (h : Torn u kept n id) :
    updatePersistedAndInMemory settings u ≠ (.ok (), u') := by
  intro hrun
  have hheight := h.height
  have hhistory := h.stores.height
  rw [updatePersistedAndInMemory, Action.bind_of_ok (Action.get_apply u)] at hrun
  obtain ⟨_, u₁, hranges, hrun⟩ := Action.bind_eq_ok_iff.mp hrun
  obtain ⟨n', htorn⟩ := h.persist_ranges (by omega) (by omega) hranges
  rw [Action.bind_of_ok (Action.get_apply u₁)] at hrun
  obtain ⟨d, u₂, hread, -⟩ := Action.bind_eq_ok_iff.mp hrun
  obtain ⟨hd, rfl⟩ := Prod.mk.inj hread
  rw [htorn.height, htorn.stores.height] at hd
  obtain ⟨-, b, hb, -⟩ := htorn.unsafeDiffByRange htorn.le le_rfl hd
  rw [List.drop_length] at hb
  exact absurd hb List.not_mem_nil

/-- A range is persisted, or its diff fails and nothing is written. -/
theorem persistRange_cases (settings : UpdaterSettings) (range : Nat × Nat)
    (u : BlockchainUpdaterImpl) :
    persistRange settings range u = (.ok (), (persistRange settings range u).2) ∨
      ∃ e, persistRange settings range u = (.error e, u) := by
  rw [persistRange, Action.bind_of_ok (Action.get_apply u)]
  cases hd : BlockchainUpdaterImpl.unsafeDiffByRange settings.functionalitySettings u.history
      (StateReaderImpl.reader u.persisted).toStateView range.1 range.2 with
  | ok d =>
      left
      rw [Action.bind_of_ok (Action.ofExcept_apply _ u)]
      rfl
  | error e =>
      right
      exact ⟨e, Action.bind_of_error (Action.ofExcept_apply _ u)⟩

/-- Some of the ranges, until one fails. -/
theorem Torn.persist_ranges_take {start : Nat} (settings : UpdaterSettings)
    (stop step count : Nat) (h : Torn u kept n id) (hstart : start = n + 1)
    (hstop : stop ≤ kept.length + 1) :
    ∃ n', Torn (Action.forEach (persistRange settings) ((ranges start stop step).take count) u).2
      kept n' id := by
  induction start using ranges.induct stop step generalizing u n count with
  | case1 start hmore ih =>
      subst hstart
      rw [ranges, if_pos hmore]
      cases count with
      | zero => exact ⟨n, h⟩
      | succ count =>
          rw [List.take_succ_cons, Action.forEach]
          obtain hfirst | ⟨e, hfirst⟩ := persistRange_cases settings (n + 1, n + 1 + step) u
          · have htorn := h.persist_range (by omega) hfirst
            have hmax : max n (n + 1 + step - 1) = n + step := by omega
            rw [hmax] at htorn
            rw [Action.bind_of_ok hfirst]
            exact ih count htorn (by omega)
          · rw [Action.bind_of_error hfirst]
            exact ⟨n, h⟩
  | case2 start hlast =>
      subst hstart
      rw [ranges, if_neg hlast]
      cases count with
      | zero => exact ⟨n, h⟩
      | succ count =>
          rw [List.take_succ_cons, List.take_nil, Action.forEach]
          obtain hfirst | ⟨e, hfirst⟩ := persistRange_cases settings (n + 1, stop) u
          · rw [Action.bind_of_ok hfirst]
            exact ⟨_, h.persist_range hstop hfirst⟩
          · rw [Action.bind_of_error hfirst]
            exact ⟨n, h⟩

/-- An updater opened on a torn storage has that storage. -/
theorem Torn.opened (h : Torn u kept n id) :
    Torn (StorageFactory.opened ⟨u.persisted, u.history⟩) kept n id := by
  have hkept : (StorageFactory.opened ⟨u.persisted, u.history⟩).persisted = u.persisted := by
    have hle : u.persisted.height ≤ u.history.height := by
      rw [h.height, h.stores.height]
      exact h.le
    exact if_pos hle
  refine ⟨h.stores, ?_, h.le, ?_, h.ahead⟩
  · rw [hkept]
    exact h.height
  · rw [hkept]
    exact h.known

/-- A start that is stopped or fails leaves the storage torn. -/
theorem Torn.interrupted (settings : UpdaterSettings)
    (h : Torn (StorageFactory.opened disk) kept n id) (ranges : Nat) :
    ∃ n', Torn (StorageFactory.opened (interrupted settings disk ranges)) kept n' id := by
  have hheight := h.height
  have hhistory := h.stores.height
  obtain ⟨n', htorn⟩ := h.persist_ranges_take settings
    ((StorageFactory.opened disk).history.height + 1 - settings.minimumInMemoryDiffSize)
    settings.minimumInMemoryDiffSize ranges (congrArg (· + 1) hheight) (by omega)
  have hopened := Torn.opened (u := persistSome settings ranges (StorageFactory.opened disk)) htorn
  rw [persistSome_history] at hopened
  exact ⟨n', hopened⟩

/-- The disk of a process that stops while it moves the bottom diff down, after some of the
writes. -/
def moving (settings : UpdaterSettings) (u : BlockchainUpdaterImpl)
    (o : StateWriterImpl.Schedule u.bottomMemoryDiff) (count : Nat) : Disk :=
  ⟨writeAll ((StateWriterImpl.writes settings.stateSettings u.bottomMemoryDiff o).take count)
    u.persisted, u.history⟩

/-- A diff that is not written yet, or written whole, leaves a disk to start from. -/
theorem StandsFor.moved (h : StandsFor settings.functionalitySettings u blocks)
    (hsettings : settings.stateSettings.txTypeAccountTxIds = true)
    {o : StateWriterImpl.Schedule u.bottomMemoryDiff} {count : Nat}
    (hcount : count = 0 ∨
      count = (StateWriterImpl.writes settings.stateSettings u.bottomMemoryDiff o).length) :
    Holds settings.functionalitySettings (moving settings u o count) blocks := by
  obtain rfl | rfl := hcount
  · exact h.idle
  · rw [moving, List.take_length, StateWriterImpl.writeAll_writes]
    have hchain := h.chain
    obtain ⟨low, middle, high, rfl, hlayers⟩ := h.layers
    refine ⟨hchain, .inr ⟨hlayers.writable.write hlayers.bottomStoring, (low ++ middle).length, ?_,
      ?_⟩⟩
    · exact (List.prefix_append (low ++ middle) high).length_le
    · rw [List.take_left]
      exact hlayers.bottom.congr (hlayers.sameAnswers hsettings)

end BlockchainUpdaterImpl

end Platform

namespace Sample

open BlockchainUpdaterImpl

/-- Three blocks, with a stop after a diff was moved to disk, and one in a rollback. -/
def events : List Event :=
  [.call (.processBlock genesisBlock), .call (.processBlock secondBlock), .restart .moved [1],
    .call (.processBlock thirdBlock), .restart (.discarded 1) [0, 1]]

end Sample

end Vsys
