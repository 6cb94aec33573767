import Vsys.Chain.Forks

/-!
# Nodes without the listings by type

The listings by transaction type are kept on disk or not, and nothing a node decides looks at them:
two updaters that differ in them only take and refuse the same calls.  So the state of a node answers
as the replay of its blocks, but for these listings, whatever the setting.
-/

namespace Vsys

open Lib CompositeStateReader

section Platform

variable [Platform]

/-- The storage without its listings by type. -/
def StateStorage.unlisted (p : StateStorage) : StateStorage :=
  { p with
    txTypeAccountTxIds := ∅
    txTypeAccTxLengths := ∅ }

/-- Writing a diff goes with leaving the listings out. -/
theorem StateWriterImpl.unlisted_applyBlockDiff {ss ss' : StateSettings} {p p' : StateStorage}
    (d : BlockDiff) (h : p.unlisted = p'.unlisted) :
    (applyBlockDiff ss p d).unlisted = (applyBlockDiff ss' p' d).unlisted := by
  have hunlisted (ss : StateSettings) (p : StateStorage) :
      (applyBlockDiff ss p d).unlisted = (applyBlockDiff ss p.unlisted d).unlisted := rfl
  rw [hunlisted ss p, hunlisted ss' p', h]
  rfl

/-- Storages that are the same without their lists by type have the same view. -/
theorem StateStorage.view_unlisted {p p' : StateStorage} (h : p.unlisted = p'.unlisted) :
    (StateReaderImpl.reader p).toStateView = (StateReaderImpl.reader p').toStateView := by
  have hunlisted (p : StateStorage) : (StateReaderImpl.reader p).toStateView
      = (StateReaderImpl.reader p.unlisted).toStateView := rfl
  rw [hunlisted p, hunlisted p', h]

/-- The settings with the listings kept. -/
def UpdaterSettings.listed (settings : UpdaterSettings) : UpdaterSettings :=
  { settings with stateSettings := ⟨true⟩ }

namespace BlockchainUpdaterImpl

/-- Two updaters that are alike but for the listings by type. -/
structure Twins (u u' : BlockchainUpdaterImpl) : Prop where
  persisted : u.persisted.unlisted = u'.persisted.unlisted
  bottom : u.bottomMemoryDiff = u'.bottomMemoryDiff
  top : u.topMemoryDiff = u'.topMemoryDiff
  history : u.history = u'.history

section Twins

variable {settings : UpdaterSettings} {u u' : BlockchainUpdaterImpl}

/-- Twins have persisted equally many blocks. -/
theorem Twins.height (h : Twins u u') : u.persisted.height = u'.persisted.height :=
  (congrArg StateStorage.height h.persisted : u.persisted.unlisted.height = _)

/-- Twins have the same view of what they persisted. -/
theorem Twins.persistedView (h : Twins u u') : (StateReaderImpl.reader u.persisted).toStateView
    = (StateReaderImpl.reader u'.persisted).toStateView :=
  StateStorage.view_unlisted h.persisted

/-- Twins have the same view of what they persisted and of the bottom layer over it. -/
theorem Twins.bottomView (h : Twins u u') : u.bottomState.toStateView = u'.bottomState.toStateView := by
  change CompositeStateReader.view _ _ = CompositeStateReader.view _ _
  rw [h.persistedView, h.bottom]

/-- Twins have the same view of their state. -/
theorem Twins.stateView (h : Twins u u') : u.currentPersistedBlocksState.toStateView
    = u'.currentPersistedBlocksState.toStateView := by
  change CompositeStateReader.view _ _ = CompositeStateReader.view _ _
  rw [h.bottomView, h.top]

/-- Twins that shift their layers stay twins. -/
theorem Twins.shiftLayers (h : Twins u u') :
    Twins (shiftLayers settings u) (shiftLayers settings.listed u') := by
  have hsize : settings.listed.minimumInMemoryDiffSize = settings.minimumInMemoryDiffSize := rfl
  rw [BlockchainUpdaterImpl.shiftLayers, BlockchainUpdaterImpl.shiftLayers, hsize, h.top, h.bottom]
  split
  · exact ⟨StateWriterImpl.unlisted_applyBlockDiff _ h.persisted, rfl, rfl, h.history⟩
  · exact h

/-- Twins process a block alike and stay twins. -/
theorem agree_processBlock (b : Block) :
    Action.Agree Twins (processBlock settings b) (processBlock settings.listed b) := by
  refine (Action.Agree.modify fun u u' h => h.shiftLayers).bind fun _ =>
    Action.Agree.get_bind fun u u' h => ?_
  have hvalidation : consensusValidation settings u b = consensusValidation settings.listed u' b := by
    rw [consensusValidation, consensusValidation, h.history, h.stateView]
    rfl
  rw [h.history, hvalidation]
  refine (Action.Agree.ofExcept _).bind fun p => Action.Agree.modify fun v v' hv => ?_
  exact ⟨hv.persisted, hv.bottom, by dsimp only; rw [hv.top], rfl⟩

/-- Twins persist a range of blocks alike and stay twins. -/
theorem agree_persistRange (range : Nat × Nat) :
    Action.Agree Twins (persistRange settings range) (persistRange settings.listed range) := by
  refine Action.Agree.get_bind fun u u' h => ?_
  rw [h.history, h.persistedView]
  refine (Action.Agree.ofExcept _).bind fun d => Action.Agree.modify fun v v' hv => ?_
  exact ⟨StateWriterImpl.unlisted_applyBlockDiff d hv.persisted, hv.bottom, hv.top, hv.history⟩

/-- Twins rebuild their layers alike and stay twins. -/
theorem agree_updatePersistedAndInMemory : Action.Agree Twins
    (updatePersistedAndInMemory settings) (updatePersistedAndInMemory settings.listed) := by
  refine Action.Agree.get_bind fun u u' h => ?_
  rw [h.history, h.height]
  refine (Action.Agree.forEach fun range _ => agree_persistRange range).bind fun _ =>
    Action.Agree.get_bind fun v v' hv => ?_
  rw [hv.history, hv.height, hv.persistedView]
  refine (Action.Agree.ofExcept _).bind fun d => Action.Agree.modify fun w w' hw => ?_
  exact ⟨hw.persisted, rfl, rfl, hw.history⟩

/-- Twins roll their layers back alike and stay twins. -/
theorem agree_rollBackLayers (height : Nat) :
    Action.Agree Twins (rollBackLayers settings height) (rollBackLayers settings.listed height) := by
  refine Action.Agree.get_bind fun u u' h => ?_
  have hheight : u.currentPersistedBlocksState.height = u'.currentPersistedBlocksState.height :=
    congrArg StateView.height h.stateView
  rw [h.history, h.height, hheight, h.bottom, h.bottomView, h.persistedView]
  split
  · refine (Action.Agree.modify fun v v' hv => ?_).bind fun _ => agree_updatePersistedAndInMemory
    exact ⟨rfl, hv.bottom, hv.top, hv.history⟩
  split
  · dsimp only
    split
    · refine (Action.Agree.ofExcept _).bind fun d => Action.Agree.modify fun v v' hv => ?_
      exact ⟨hv.persisted, hv.bottom, rfl, hv.history⟩
    · refine (Action.Agree.modify fun v v' hv => ?_).bind fun _ => ?_
      · exact ⟨hv.persisted, hv.bottom, rfl, hv.history⟩
      split
      · refine (Action.Agree.ofExcept _).bind fun d => Action.Agree.modify fun v v' hv => ?_
        exact ⟨hv.persisted, rfl, hv.top, hv.history⟩
      · exact Action.Agree.pure ()
  · exact Action.Agree.pure ()

/-- Twins remove blocks alike and stay twins. -/
theorem agree_removeAfter (blockId : ByteStr) :
    Action.Agree Twins (removeAfter settings blockId) (removeAfter settings.listed blockId) := by
  refine Action.Agree.get_bind fun u u' h => ?_
  rw [h.history]
  split
  · exact Action.Agree.ofExcept _
  split
  · exact Action.Agree.pure []
  · dsimp only
    refine (Action.Agree.modify fun v v' hv => ?_).bind fun _ =>
      (agree_rollBackLayers _).bind fun _ => Action.Agree.pure _
    exact ⟨hv.persisted, hv.bottom, hv.top, rfl⟩

/-- An updater that answers as the replay of some blocks, but for the listings by type. -/
def Shows (fs : FunctionalitySettings) (u : BlockchainUpdaterImpl) (blocks : List Block) : Prop :=
  ∃ u', Twins u u' ∧ StandsFor fs u' blocks

variable {fs : FunctionalitySettings} {blocks : List Block}

/-- A chain that shows some blocks stores them in its history. -/
theorem Shows.stores (h : Shows fs u blocks) : u.history.Stores blocks := by
  obtain ⟨u', htwins, hstands⟩ := h
  exact htwins.history ▸ hstands.stores

/-- A chain that shows some blocks has the view that replaying them leaves. -/
theorem Shows.replay (h : Shows fs u blocks) : ∃ st, replay fs blocks = .ok st ∧
    st.1.toStateView = u.currentPersistedBlocksState.toStateView := by
  obtain ⟨u', htwins, hstands⟩ := h
  obtain ⟨st, hst, hsame⟩ := hstands.answers
  exact ⟨st, hst, hsame.view.trans htwins.stateView.symm⟩

/-- Moving the layers down changes no answer. -/
theorem Shows.shiftLayers (h : Shows settings.functionalitySettings u blocks) :
    Shows settings.functionalitySettings (BlockchainUpdaterImpl.shiftLayers settings u) blocks := by
  obtain ⟨u', htwins, hstands⟩ := h
  exact ⟨_, htwins.shiftLayers, @StandsFor.shift _ settings.listed _ _ hstands rfl⟩

/-- Processing a block leaves the chain showing some blocks. -/
theorem Shows.processBlock (h : Shows settings.functionalitySettings u blocks) {b : Block}
    (hb : b.Storable) (hdistinct : b.SlotsDistinct settings.functionalitySettings) :
    ∃ blocks', Shows settings.functionalitySettings (processBlock settings b u).2 blocks' := by
  obtain ⟨u', htwins, hstands⟩ := h
  obtain ⟨blocks', hnext⟩ := @StandsFor.run _ settings.listed _ _ hstands rfl
    (.processBlock b) fun b' hb' => by
      obtain rfl := Call.processBlock.inj hb'
      exact ⟨hb, hdistinct⟩
  exact ⟨blocks', _, (agree_processBlock b u u' htwins).2, hnext⟩

/-- Removing blocks leaves the chain showing some blocks. -/
theorem Shows.removeAfter (h : Shows settings.functionalitySettings u blocks) (blockId : ByteStr) :
    ∃ blocks', Shows settings.functionalitySettings (removeAfter settings blockId u).2 blocks' := by
  obtain ⟨u', htwins, hstands⟩ := h
  obtain ⟨blocks', hnext⟩ := @StandsFor.run _ settings.listed _ _ hstands rfl
    (.removeAfter blockId) fun b' hb' => by cases hb'
  exact ⟨blocks', _, (agree_removeAfter blockId u u' htwins).2, hnext⟩

end Twins

end BlockchainUpdaterImpl

/-- The updater of a node that can be reached shows the blocks of its history, whatever the setting
of the listings. -/
theorem Coordinator.Reached.shows {settings : VsysSettings} {n : Node}
    (hn : Reached settings (Sound settings) n) : ∃ blocks, BlockchainUpdaterImpl.Shows
      settings.updater.functionalitySettings n.blockchainUpdater blocks := by
  refine hn.updater (I := fun u => ∃ blocks, BlockchainUpdaterImpl.Shows
    settings.updater.functionalitySettings u blocks) ?_ ?_ ?_
  · exact ⟨[], _, ⟨rfl, rfl, rfl, rfl⟩, BlockchainUpdaterImpl.standsFor_empty⟩
  · rintro b hb u ⟨blocks, hu⟩
    exact hu.processBlock hb.1 hb.2
  · rintro id u ⟨blocks, hu⟩
    exact hu.removeAfter id

end Platform

end Vsys
