import Mathlib.Order.Lattice.Nat
import Vsys.Network.Pipeline
import Vsys.Sample

/-!
# The observer of remote scores

`RemoteScoreObserver`, shared by all channels: it keeps the last score of each until the score
expires, and pins the channel that an extension is being loaded from.  Its callbacks run one after
another, in any order that the life of a channel allows.
-/

namespace Vsys

open Lib

/-- An order in which a `ConcurrentHashMap` lists its entries. -/
structure EntryOrder (K V : Type) [DecidableEq K] where
  entries : Dict K V → List (K × V)
  mem_entries : ∀ m k v, (k, v) ∈ entries m ↔ m.lookup k = some v

variable {Channel : Type} [DecidableEq Channel]

/-- The fields of `RemoteScoreObserver`. -/
structure RemoteScoreObserver (Channel : Type) where
  pinnedChannel : Option Channel
  localScore : Int
  scores : Dict Channel Int

namespace RemoteScoreObserver

/-- `channelWithHighestScore`: of equal scores the reduction takes the one listed last. -/
def channelWithHighestScore (order : EntryOrder Channel Int) (o : RemoteScoreObserver Channel) :
    Option (Channel × Int) :=
  match order.entries o.scores with
  | [] => none
  | e :: entries => some (entries.foldl (fun c1 c2 => if c1.2 > c2.2 then c1 else c2) e)

/-- `pinnedChannel.compareAndSet(channel, null)`. -/
def unpin (o : RemoteScoreObserver Channel) (channel : Channel) : RemoteScoreObserver Channel :=
  if o.pinnedChannel = some channel then { o with pinnedChannel := none } else o

/-- `scores.remove(channel, newScore)`, when the time of a score is over. -/
def expire (channel : Channel) (newScore : Int) (o : RemoteScoreObserver Channel) :
    RemoteScoreObserver Channel :=
  if o.scores.lookup channel = some newScore then { o with scores := o.scores.erase channel }
  else o

variable {order : EntryOrder Channel Int} {o : RemoteScoreObserver Channel} {channel c : Channel}
  {score : Int}

omit [DecidableEq Channel] in
theorem foldl_higher_mem (entries : List (Channel × Int)) (e : Channel × Int) :
    entries.foldl (fun c1 c2 => if c1.2 > c2.2 then c1 else c2) e ∈ e :: entries := by
  induction entries generalizing e with
  | nil => exact List.mem_singleton.mpr rfl
  | cons e' entries ih =>
      rw [List.foldl_cons]
      split
      · obtain hfirst | hrest := List.mem_cons.mp (ih e)
        · rw [hfirst]
          exact List.mem_cons_self
        · exact List.mem_cons_of_mem _ (List.mem_cons_of_mem _ hrest)
      · exact List.mem_cons_of_mem _ (ih e')

/-- The best channel is one of those with a score. -/
theorem lookup_of_highest (h : o.channelWithHighestScore order = some (c, score)) :
    o.scores.lookup c = some score := by
  rw [channelWithHighestScore] at h
  split at h
  · cases h
  · rename_i e entries hentries
    apply (order.mem_entries o.scores c score).mp
    rw [hentries, ← Option.some.inj h]
    exact foldl_higher_mem entries e

/-- There is no best channel exactly when no score is kept. -/
theorem highest_eq_none_iff :
    o.channelWithHighestScore order = none ↔ ∀ c, o.scores.lookup c = none := by
  rw [channelWithHighestScore]
  constructor
  · intro h c
    split at h
    · rename_i hentries
      rw [Option.eq_none_iff_forall_ne_some]
      intro score hscore
      have := (order.mem_entries o.scores c score).mpr hscore
      rw [hentries] at this
      cases this
    · cases h
  · intro h
    split
    · rfl
    · rename_i e entries hentries
      have := (order.mem_entries o.scores e.1 e.2).mp (hentries ▸ List.mem_cons_self)
      rw [h] at this
      cases this

/-- Some score is kept, or none is. -/
theorem keys_nonempty_or : o.scores.keys.Nonempty ∨ ∀ c, o.scores.lookup c = none := by
  obtain hempty | hsome := o.scores.keys.eq_empty_or_nonempty
  · refine .inr fun c => Dict.notMem_keys.mp ?_
    rw [hempty]
    exact Finset.notMem_empty c
  · exact .inl hsome

@[simp]
theorem unpin_scores : (o.unpin channel).scores = o.scores := by
  unfold unpin
  split <;> rfl

theorem unpin_pinnedChannel (h : (o.unpin channel).pinnedChannel = some c) :
    o.pinnedChannel = some c ∧ c ≠ channel := by
  unfold unpin at h
  split at h
  · cases h
  · rename_i hne
    refine ⟨h, fun heq => hne ?_⟩
    rw [h, heq]

theorem expire_other :
    let o' := o.expire channel score
    o'.pinnedChannel = o.pinnedChannel ∧
      (o.scores.lookup c = none → o'.scores.lookup c = none) := by
  simp only [expire]
  split
  · refine ⟨rfl, fun h => ?_⟩
    show (o.scores.erase channel).lookup c = none
    rw [Dict.lookup_erase_eq]
    split
    · rfl
    · exact h
  · exact ⟨rfl, id⟩

variable [Platform]

/-- The listener that `handlerAdded` gives to the close future of a channel. -/
def closeListener (order : EntryOrder Channel Int) (lastSignatures : List ByteStr)
    (channel : Channel) (o : RemoteScoreObserver Channel) :
    RemoteScoreObserver Channel × List (Channel × Effect) :=
  match o.channelWithHighestScore order with
  | none => (o, [])
  | some (bestChannel, _) =>
      let o := { o with scores := o.scores.erase channel }
      if bestChannel = channel then
        match o.channelWithHighestScore order with
        | some (secondBestChannel, secondBestScore) =>
            if secondBestScore > o.localScore ∧ o.pinnedChannel = some bestChannel then
              ({ o with pinnedChannel := some secondBestChannel },
                [(secondBestChannel, .write (.loadBlockchainExtension lastSignatures))])
            else (o.unpin channel, [])
        | none => (o.unpin channel, [])
      else (o.unpin channel, [])

/-- `write`. -/
def write (order : EntryOrder Channel Int) (lastSignatures : List ByteStr) (channel : Channel)
    (msg : Signal) (o : RemoteScoreObserver Channel) :
    RemoteScoreObserver Channel × List (Channel × Effect) :=
  match msg with
  | .localScoreChanged newLocalScore =>
      let o := { o.unpin channel with localScore := newLocalScore }
      match o.channelWithHighestScore order with
      | some (chan, score) =>
          if chan = channel ∧ score > newLocalScore then
            ({ o with pinnedChannel := some chan },
              [(channel, .write msg), (chan, .write (.loadBlockchainExtension lastSignatures))])
          else (o, [(channel, .write msg)])
      | none => (o, [(channel, .write msg)])
  | msg => (o, [(channel, .write msg)])

/-- `channelRead`, apart from the expiry that it schedules for a score. -/
def channelRead (order : EntryOrder Channel Int) (lastSignatures : List ByteStr)
    (channel : Channel) (msg : Signal) (o : RemoteScoreObserver Channel) :
    RemoteScoreObserver Channel × List (Channel × Effect) :=
  match msg with
  | .score newScore =>
      let previousScore := o.scores.lookup channel
      let o := { o with scores := o.scores.insert channel newScore }
      match o.channelWithHighestScore order with
      | some (ch, highScore) =>
          if ch = channel ∧ previousScore.all (· < newScore) ∧ highScore > o.localScore
              ∧ o.pinnedChannel = none then
            ({ o with pinnedChannel := some ch },
              [(channel, .write (.loadBlockchainExtension lastSignatures))])
          else (o, [])
      | none => (o, [])
  | .extensionBlocks blocks =>
      if o.pinnedChannel = some channel then
        if blocks ≠ [] then (o, [(channel, .fireChannelRead msg)])
        else (o.unpin channel, [])
      else (o, [])
  | msg => (o, [(channel, .fireChannelRead msg)])

variable {lastSignatures : List ByteStr} {msg : Signal}

/-- A message read from a channel pins no other channel and touches the score of no other. -/
theorem channelRead_other (hc : c ≠ channel) :
    let o' := (o.channelRead order lastSignatures channel msg).1
    (o'.pinnedChannel = some c → o.pinnedChannel = some c) ∧
      o'.scores.lookup c = o.scores.lookup c := by
  cases msg with
  | score newScore =>
      have hlookup : (o.scores.insert channel newScore).lookup c = o.scores.lookup c :=
        Finmap.lookup_insert_of_ne _ hc
      simp only [channelRead]
      split
      · rename_i ch highScore _
        split
        · rename_i hpins
          exact ⟨fun h => absurd ((Option.some.inj h).symm.trans hpins.1) hc, hlookup⟩
        · exact ⟨id, hlookup⟩
      · exact ⟨id, hlookup⟩
  | extensionBlocks blocks =>
      simp only [channelRead]
      split
      · split
        · exact ⟨id, rfl⟩
        · exact ⟨fun h => (unpin_pinnedChannel h).1, by rw [unpin_scores]⟩
      · exact ⟨id, rfl⟩
  | _ => exact ⟨id, rfl⟩

/-- A message written to a channel pins no other channel and touches no score. -/
theorem write_other (hc : c ≠ channel) :
    let o' := (o.write order lastSignatures channel msg).1
    (o'.pinnedChannel = some c → o.pinnedChannel = some c) ∧
      o'.scores.lookup c = o.scores.lookup c := by
  cases msg with
  | localScoreChanged newLocalScore =>
      simp only [write]
      split
      · split
        · rename_i hpins
          exact ⟨fun h => absurd ((Option.some.inj h).symm.trans hpins.1) hc, by rw [unpin_scores]⟩
        · exact ⟨fun h => (unpin_pinnedChannel h).1, by rw [unpin_scores]⟩
      · exact ⟨fun h => (unpin_pinnedChannel h).1, by rw [unpin_scores]⟩
  | _ => exact ⟨id, rfl⟩

/-- The close listener forgets the score of its channel and adds no score. -/
theorem closeListener_scores :
    let o' := (o.closeListener order lastSignatures channel).1
    o'.scores.lookup channel = none ∧ (o.scores.lookup c = none → o'.scores.lookup c = none) := by
  have herase : (o.scores.erase channel).lookup channel = none := Finmap.lookup_erase _ _
  have hkept : o.scores.lookup c = none → (o.scores.erase channel).lookup c = none := by
    intro h
    rw [Dict.lookup_erase_eq]
    split
    · rfl
    · exact h
  simp only [closeListener]
  split
  · rename_i hnone
    exact ⟨highest_eq_none_iff.mp hnone channel, id⟩
  · split
    · split
      · split
        · exact ⟨herase, hkept⟩
        · rw [unpin_scores]
          exact ⟨herase, hkept⟩
      · rw [unpin_scores]
        exact ⟨herase, hkept⟩
    · rw [unpin_scores]
      exact ⟨herase, hkept⟩

/-- A close listener that finds a score pins what was pinned or has a score, and not its channel. -/
theorem closeListener_pinnedChannel (hscores : o.scores.keys.Nonempty)
    (h : (o.closeListener order lastSignatures channel).1.pinnedChannel = some c) :
    c ≠ channel ∧ (o.pinnedChannel = some c ∨ o.scores.lookup c ≠ none) := by
  simp only [closeListener] at h
  split at h
  · rename_i hnone
    obtain ⟨c', hc'⟩ := hscores
    exact absurd hc' (Dict.notMem_keys.mpr (highest_eq_none_iff.mp hnone c'))
  · split at h
    · split at h
      · rename_i second secondScore hsecond
        split at h
        · obtain rfl := Option.some.inj h
          have hlookup := lookup_of_highest hsecond
          rw [Dict.lookup_erase_eq] at hlookup
          split at hlookup
          · cases hlookup
          · rename_i hne
            exact ⟨hne, .inr (by rw [hlookup]; exact Option.some_ne_none _)⟩
        · obtain ⟨hpinned, hne⟩ := unpin_pinnedChannel h
          exact ⟨hne, .inl hpinned⟩
      · obtain ⟨hpinned, hne⟩ := unpin_pinnedChannel h
        exact ⟨hne, .inl hpinned⟩
    · obtain ⟨hpinned, hne⟩ := unpin_pinnedChannel h
      exact ⟨hne, .inl hpinned⟩

/-- A close listener that finds no score leaves everything as it is. -/
theorem closeListener_of_empty (hscores : ∀ c, o.scores.lookup c = none) :
    o.closeListener order lastSignatures channel = (o, []) := by
  rw [closeListener, highest_eq_none_iff.mpr hscores]

end RemoteScoreObserver

/-- The observer together with the channels: the expiries still to come, the channels it was added
to, those of them that are closed, and those whose close listener has run. -/
structure Observed (Channel : Type) where
  observer : RemoteScoreObserver Channel
  expiries : List (Channel × Int)
  added : Finset Channel
  closed : Finset Channel
  released : Finset Channel

namespace Observed

variable [Platform]

/-- What can happen next. -/
inductive Callback (Channel : Type)
  | handlerAdded (channel : Channel)
  | channelRead (channel : Channel) (msg : Signal)
  | write (channel : Channel) (msg : Signal)
  | expire (channel : Channel) (newScore : Int)
  | close (channel : Channel)
  | closeListener (channel : Channel)

/-- A callback, with what it finds in the map of scores and in the history. -/
structure Event (Channel : Type) [DecidableEq Channel] where
  callback : Callback Channel
  order : EntryOrder Channel Int
  lastSignatures : List ByteStr

/-- One callback. -/
def step (w : Observed Channel) (e : Event Channel) :
    Observed Channel × List (Channel × Effect) :=
  match e.callback with
  | .handlerAdded channel => ({ w with added := insert channel w.added }, [])
  | .channelRead channel msg =>
      let r := w.observer.channelRead e.order e.lastSignatures channel msg
      match msg with
      | .score newScore =>
          ({ w with observer := r.1, expiries := w.expiries ++ [(channel, newScore)] }, r.2)
      | _ => ({ w with observer := r.1 }, r.2)
  | .write channel msg =>
      let r := w.observer.write e.order e.lastSignatures channel msg
      ({ w with observer := r.1 }, r.2)
  | .expire channel newScore =>
      ({ w with
          observer := w.observer.expire channel newScore
          expiries := w.expiries.erase (channel, newScore) }, [])
  | .close channel => ({ w with closed := insert channel w.closed }, [])
  | .closeListener channel =>
      let r := w.observer.closeListener e.order e.lastSignatures channel
      ({ w with observer := r.1, released := insert channel w.released }, r.2)

/-- The life of a channel: it is added once, then read from and written to until it closes, and
then its close listener runs.  A score expires once. -/
def Admissible (w : Observed Channel) (e : Event Channel) : Prop :=
  match e.callback with
  | .handlerAdded channel => channel ∉ w.added
  | .channelRead channel _ => channel ∈ w.added ∧ channel ∉ w.closed
  | .write channel _ => channel ∈ w.added ∧ channel ∉ w.closed
  | .expire channel newScore => (channel, newScore) ∈ w.expiries
  | .close channel => channel ∈ w.added ∧ channel ∉ w.closed
  | .closeListener channel => channel ∈ w.closed ∧ channel ∉ w.released

/-- Before the first channel. -/
def start (initialLocalScore : Int) : Observed Channel :=
  ⟨⟨none, initialLocalScore, ∅⟩, [], ∅, ∅, ∅⟩

/-- A channel whose close listener has run is not pinned, and no score of it is kept. -/
def Forgets (w : Observed Channel) : Prop :=
  ∀ channel ∈ w.released,
    w.observer.pinnedChannel ≠ some channel ∧ w.observer.scores.lookup channel = none

/-- A close listener that runs for the pinned channel finds a score of some channel. -/
def FindsScore (w : Observed Channel) (e : Event Channel) : Prop :=
  match e.callback with
  | .closeListener channel =>
      w.observer.pinnedChannel = some channel → 0 < w.observer.scores.keys.card
  | _ => True

instance (w : Observed Channel) (e : Event Channel) : Decidable (w.Admissible e) := by
  unfold Admissible
  split <;> infer_instance

instance (w : Observed Channel) : Decidable w.Forgets :=
  inferInstanceAs (Decidable (∀ channel ∈ w.released,
    w.observer.pinnedChannel ≠ some channel ∧ w.observer.scores.lookup channel = none))

instance (w : Observed Channel) (e : Event Channel) : Decidable (w.FindsScore e) := by
  unfold FindsScore
  split <;> infer_instance

variable {w : Observed Channel} {e : Event Channel}

/-- Close listeners have run for closed channels only, and left no score of them. -/
structure Settled (w : Observed Channel) : Prop where
  released_closed : w.released ⊆ w.closed
  no_score : ∀ c ∈ w.released, w.observer.scores.lookup c = none

/-- Whatever happens, the score of a channel whose close listener has run does not come back. -/
theorem Settled.step (hw : Settled w) (he : Admissible w e) : Settled (w.step e).1 := by
  obtain ⟨callback, order, lastSignatures⟩ := e
  cases callback with
  | handlerAdded channel => exact ⟨hw.released_closed, hw.no_score⟩
  | channelRead channel msg =>
      have hother : ∀ c ∈ w.released, c ≠ channel := by
        intro c hc heq
        exact he.2 (heq ▸ hw.released_closed hc)
      have hscores : ∀ c ∈ w.released,
          (w.observer.channelRead order lastSignatures channel msg).1.scores.lookup c = none :=
        fun c hc => (RemoteScoreObserver.channelRead_other (hother c hc)).2.trans
          (hw.no_score c hc)
      cases msg with
      | _ => exact ⟨hw.released_closed, hscores⟩
  | write channel msg =>
      refine ⟨hw.released_closed, fun c hc => ?_⟩
      have hother : c ≠ channel := fun heq => he.2 (heq ▸ hw.released_closed hc)
      exact (RemoteScoreObserver.write_other hother).2.trans (hw.no_score c hc)
  | expire channel newScore =>
      exact ⟨hw.released_closed,
        fun c hc => RemoteScoreObserver.expire_other.2 (hw.no_score c hc)⟩
  | close channel =>
      exact ⟨hw.released_closed.trans (Finset.subset_insert _ _), hw.no_score⟩
  | closeListener channel =>
      refine ⟨Finset.insert_subset he.1 hw.released_closed, fun c hc => ?_⟩
      obtain rfl | hreleased := Finset.mem_insert.mp hc
      · exact (RemoteScoreObserver.closeListener_scores (c := c)).1
      · exact RemoteScoreObserver.closeListener_scores.2 (hw.no_score c hreleased)

/-- A callback after which the observer still forgets what is closed is one that, should it be the
close listener of the pinned channel, finds a score. -/
theorem forgets_step_iff (hw : Settled w) (hforgets : w.Forgets) (he : Admissible w e) :
    (w.step e).1.Forgets ↔ w.FindsScore e := by
  have hsettled := hw.step he
  have hpins : (w.step e).1.Forgets ↔
      ∀ c ∈ (w.step e).1.released, (w.step e).1.observer.pinnedChannel ≠ some c :=
    ⟨fun h c hc => (h c hc).1, fun h c hc => ⟨h c hc, hsettled.no_score c hc⟩⟩
  rw [hpins]
  obtain ⟨callback, order, lastSignatures⟩ := e
  -- Only a close listener can leave its channel pinned: the other callbacks are those of channels
  -- that are open.
  cases callback with
  | closeListener channel =>
      constructor
      · -- without a score the listener leaves its channel pinned
        intro h hpinned
        refine Finset.card_pos.mpr
          (RemoteScoreObserver.keys_nonempty_or.resolve_right fun hempty => ?_)
        refine h channel (Finset.mem_insert_self _ _) ?_
        show (w.observer.closeListener order lastSignatures channel).1.pinnedChannel = some channel
        rw [RemoteScoreObserver.closeListener_of_empty hempty]
        exact hpinned
      · intro h c hc hpinned
        change (w.observer.closeListener order lastSignatures channel).1.pinnedChannel = some c
          at hpinned
        obtain hscores | hempty := RemoteScoreObserver.keys_nonempty_or (o := w.observer)
        · obtain ⟨hne, hbefore⟩ :=
            RemoteScoreObserver.closeListener_pinnedChannel hscores hpinned
          obtain heq | hreleased := Finset.mem_insert.mp hc
          · exact hne heq
          · obtain hwas | hscore := hbefore
            · exact (hforgets c hreleased).1 hwas
            · exact hscore (hw.no_score c hreleased)
        · rw [RemoteScoreObserver.closeListener_of_empty hempty] at hpinned
          obtain rfl | hreleased := Finset.mem_insert.mp hc
          · obtain ⟨c', hc'⟩ := Finset.card_pos.mp (h hpinned)
            exact Dict.notMem_keys.mpr (hempty c') hc'
          · exact (hforgets c hreleased).1 hpinned
  | handlerAdded channel =>
      exact iff_of_true (fun c hc => (hforgets c hc).1) trivial
  | channelRead channel msg =>
      have hkept : ∀ c ∈ w.released,
          (w.observer.channelRead order lastSignatures channel msg).1.pinnedChannel ≠ some c := by
        intro c hc hpinned
        have hother : c ≠ channel := fun heq => he.2 (heq ▸ hw.released_closed hc)
        exact (hforgets c hc).1 ((RemoteScoreObserver.channelRead_other hother).1 hpinned)
      refine iff_of_true ?_ trivial
      cases msg with
      | _ => exact hkept
  | write channel msg =>
      refine iff_of_true (fun c hc hpinned => ?_) trivial
      have hother : c ≠ channel := fun heq => he.2 (heq ▸ hw.released_closed hc)
      exact (hforgets c hc).1 ((RemoteScoreObserver.write_other hother).1 hpinned)
  | expire channel newScore =>
      refine iff_of_true (fun c hc hpinned => ?_) trivial
      exact (hforgets c hc).1 ((RemoteScoreObserver.expire_other (c := c)).1.symm.trans hpinned)
  | close channel =>
      exact iff_of_true (fun c hc => (hforgets c hc).1) trivial

/-- In a run of the observer no closed channel stays pinned, or keeps a score, once its listener has
run, if and only if every close listener that runs for the pinned channel finds some score. -/
theorem forgets_iff (initialLocalScore : Int) (events : List (Event Channel))
    (hevents : Transducer.Along step Admissible (start initialLocalScore) events) :
    (∀ run, run <+: events → (Transducer.after step (start initialLocalScore) run).Forgets) ↔
      Transducer.Along step FindsScore (start initialLocalScore) events := by
  have hstart : (start initialLocalScore : Observed Channel).released = ∅ := rfl
  -- What is settled holds along every run; what is forgotten, as long as each step finds a score.
  refine Transducer.forall_prefix_iff (I := Settled) hevents (fun w e he hw => hw.step he)
    (fun w e he hw hforgets => forgets_step_iff hw hforgets he) ⟨?_, ?_⟩ ?_
  · exact Finset.empty_subset _
  · intro c hc
    rw [hstart] at hc
    exact absurd hc (Finset.notMem_empty c)
  · intro c hc
    rw [hstart] at hc
    exact absurd hc (Finset.notMem_empty c)

end Observed

namespace Sample

open Observed

/-- The entries in the order of their channels. -/
def ascending : EntryOrder Nat Int where
  entries m := (List.range (m.keys.sup id + 1)).filterMap fun c =>
    (m.lookup c).map fun score => (c, score)
  mem_entries m c score := by
    simp only [List.mem_filterMap, List.mem_range, Option.map_eq_some_iff, Prod.mk.injEq]
    constructor
    · rintro ⟨_, -, _, hlookup, rfl, rfl⟩
      exact hlookup
    · intro hlookup
      have hle : c ≤ m.keys.sup id := Finset.le_sup (f := id) (Dict.mem_keys_of_lookup hlookup)
      exact ⟨c, Nat.lt_succ_of_le hle, score, hlookup, rfl, rfl⟩

/-- A callback on channels numbered from zero. -/
def event (callback : Callback Nat) : Event Nat := ⟨callback, ascending, []⟩

/-- Two channels send scores, and the pinned one closes. -/
def switchingEvents : List (Event Nat) :=
  [event (.handlerAdded 0), event (.handlerAdded 1), event (.channelRead 0 (.score 5)),
    event (.channelRead 1 (.score 7)), event (.close 0), event (.closeListener 0)]

/-- The closed channel is forgotten in every state. -/
theorem switchingEvents_forget : Transducer.Along step FindsScore (start 1) switchingEvents ∧
    ∀ run, run <+: switchingEvents → (Transducer.after step (start 1) run).Forgets := by
  have hfinds : Transducer.Along step FindsScore (start 1) switchingEvents := by decide +kernel
  exact ⟨hfinds, (forgets_iff 1 switchingEvents (by decide +kernel)).mpr hfinds⟩

/-- A channel sends a score and is pinned, the score expires, and the channel closes; another one
then sends a higher score. -/
def stallingEvents : List (Event Nat) :=
  [event (.handlerAdded 0), event (.handlerAdded 1), event (.channelRead 0 (.score 5)),
    event (.expire 0 5), event (.close 0), event (.closeListener 0),
    event (.channelRead 1 (.score 9))]

/-- The closed channel stays pinned, and it is the only one that was ever asked for anything: the
live one with the higher score is not. -/
theorem stallingEvents_stall :
    Transducer.Along step Admissible (start 1) stallingEvents ∧
      let w := Transducer.after step (start 1) stallingEvents
      0 ∈ w.released ∧ w.observer.pinnedChannel = some 0 ∧ w.observer.scores.lookup 1 = some 9 ∧
        (Transducer.emitted step (start 1) stallingEvents).map Prod.fst = [0] :=
  ⟨by decide +kernel, by decide +kernel, by decide +kernel, by decide +kernel, by decide +kernel⟩

end Sample

end Vsys
