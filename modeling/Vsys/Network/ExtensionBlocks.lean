import Vsys.Lib.Ordered
import Vsys.Network.Pipeline
import Vsys.Sample

/-!
# Loading the blocks of an extension

`ExtensionBlocksLoader` asks for the blocks of an extension by their identifiers, collects them in
whatever order they come, checks that they form a chain on the last common block and that their
signatures are valid, and passes them on together.
-/

namespace Vsys

open Lib

/-- A way in which `find` on a parallel collection can come out: it names some element that
satisfies the predicate, or none when there is none, or fails when the predicate does for some. -/
structure ParFind (α : Type) where
  find : (α → Result Bool) → List α → Result (Option α)
  found : ∀ {p l a}, find p l = .ok (some a) → a ∈ l ∧ p a = .ok true
  none_found : ∀ {p l}, find p l = .ok none → ∀ a ∈ l, p a = .ok false
  failed : ∀ {p l e}, find p l = .error e → ∃ a ∈ l, ∃ e', p a = .error e'

/-- Looks for the first element that satisfies a predicate, once all have been looked at. -/
def findAfterAll {α : Type} (p : α → Result Bool) : List α → Result (Option α)
  | [] => .ok none
  | a :: l => do
      let verdict ← p a
      let later ← findAfterAll p l
      .ok (if verdict then some a else later)

/-- The search that looks at every element, whatever it has found before. -/
def ParFind.exhaustive (α : Type) : ParFind α where
  find := findAfterAll
  found := by
    intro p l a h
    induction l with
    | nil => cases h
    | cons a' l ih =>
        obtain ⟨verdict, hverdict, h⟩ := bind_eq_ok_iff.mp h
        obtain ⟨later, hlater, h⟩ := bind_eq_ok_iff.mp h
        have h := Except.ok.inj h
        cases verdict with
        | true =>
            obtain rfl := Option.some.inj h
            exact ⟨List.mem_cons_self, hverdict⟩
        | false =>
            change later = some a at h
            rw [h] at hlater
            exact ⟨List.mem_cons_of_mem a' (ih hlater).1, (ih hlater).2⟩
  none_found := by
    intro p l h
    induction l with
    | nil => exact fun a ha => absurd ha List.not_mem_nil
    | cons a' l ih =>
        obtain ⟨verdict, hverdict, h⟩ := bind_eq_ok_iff.mp h
        obtain ⟨later, hlater, h⟩ := bind_eq_ok_iff.mp h
        have h := Except.ok.inj h
        cases verdict with
        | true => cases h
        | false =>
            change later = none at h
            rw [h] at hlater
            intro a ha
            obtain rfl | ha := List.mem_cons.mp ha
            · exact hverdict
            · exact ih hlater a ha
  failed := by
    intro p l e h
    induction l with
    | nil => cases h
    | cons a' l ih =>
        rw [findAfterAll] at h
        cases hfirst : p a' with
        | error e' => exact ⟨a', List.mem_cons_self, e', hfirst⟩
        | ok verdict =>
            rw [hfirst, ok_bind] at h
            cases hlater : findAfterAll p l with
            | error e' =>
                rw [hlater] at h ih
                obtain ⟨a, ha, hfails⟩ := ih h
                exact ⟨a, List.mem_cons_of_mem a' ha, hfails⟩
            | ok later =>
                rw [hlater] at h
                cases h

/-- The search that looks at every element fails when the predicate does for one of them. -/
theorem findAfterAll_eq_error {α : Type} {p : α → Result Bool} {l : List α} {a : α} (ha : a ∈ l)
    {e : Fault} (he : p a = .error e) : ∃ e', findAfterAll p l = .error e' := by
  cases h : findAfterAll p l with
  | error e' => exact ⟨e', rfl⟩
  | ok found =>
      exfalso
      induction l generalizing found with
      | nil => exact List.not_mem_nil ha
      | cons a' l ih =>
          obtain ⟨verdict, hverdict, h⟩ := bind_eq_ok_iff.mp h
          obtain ⟨later, hlater, -⟩ := bind_eq_ok_iff.mp h
          obtain rfl | ha := List.mem_cons.mp ha
          · rw [he] at hverdict
            cases hverdict
          · exact ih ha later hlater

section Platform

variable [Platform]

/-- The fields of `ExtensionBlocksLoader`; the timeout is the one scheduled for some ids. -/
structure ExtensionBlocksLoader where
  pendingSignatures : Dict ByteStr Nat
  targetExtensionIds : Option ExtensionIds
  blockBuffer : Dict Nat Block
  currentTimeout : Option ExtensionIds

namespace ExtensionBlocksLoader

/-- A loader that waits for nothing. -/
def idle : ExtensionBlocksLoader := ⟨∅, none, ∅, none⟩

/-- Whether every two neighbours are linked. -/
def contiguous : List Block → Bool
  | b1 :: b2 :: blocks => b1.uniqueId = b2.reference && contiguous (b2 :: blocks)
  | _ => true

/-- `!b.signatureValid`. -/
def signatureInvalid (b : Block) : Result Bool := not <$> b.signatureValid

/-- The pre-check of the blocks of an extension: they are passed on, or the channel is closed. -/
def preCheck (parFind : ParFind Block) (tids : ExtensionIds) (newBlocks : List Block) :
    Result Effect := do
  let head ← getOrRaise .noSuchElement newBlocks.head?
  if tids.lastCommonId ≠ head.reference then
    .ok (.blacklistAndClose
      s!"Extension head reference {Platform.base58 head.reference} differs from last common block id {Platform.base58 tids.lastCommonId}")
  else if !contiguous newBlocks then
    .ok (.blacklistAndClose "Extension blocks are not contiguous, pre-check failed")
  else
    match ← parFind.find signatureInvalid newBlocks with
    | some invalidBlock =>
        .ok (.blacklistAndClose
          s!"Got block {Platform.base58 invalidBlock.uniqueId} with invalid signature")
    | none => .ok (.fireChannelRead (.extensionBlocks newBlocks))

/-- What follows the last of the requested blocks.  An exception leaves before the reset. -/
def loaded (parFind : ParFind Block) (o : ExtensionBlocksLoader) :
    ExtensionBlocksLoader × List Effect :=
  let o := { o with currentTimeout := none }
  match o.targetExtensionIds with
  | none => ({ o with targetExtensionIds := none, blockBuffer := ∅ }, [])
  | some tids =>
      match preCheck parFind tids o.blockBuffer.inOrder with
      | .ok effect => ({ o with targetExtensionIds := none, blockBuffer := ∅ }, [effect])
      | .error e => (o, [.raised e])

/-- `channelRead`. -/
def channelRead (parFind : ParFind Block) (o : ExtensionBlocksLoader) (msg : Signal) :
    ExtensionBlocksLoader × List Effect :=
  match msg with
  | .extensionIds xid =>
      if o.pendingSignatures.isEmpty then
        if xid.extensionIds ≠ [] then
          ({ o with
              targetExtensionIds := some xid
              pendingSignatures := Dict.positions xid.extensionIds
              currentTimeout := some xid },
            xid.extensionIds.map fun s => .write (.getBlock s))
        else (o, [.fireChannelRead (.extensionBlocks [])])
      else (o, [])
  | .block b =>
      match o.pendingSignatures.lookup b.uniqueId with
      | some position =>
          let o := { o with
            blockBuffer := o.blockBuffer.insert position b
            pendingSignatures := o.pendingSignatures.erase b.uniqueId }
          if o.pendingSignatures.isEmpty then o.loaded parFind else (o, [])
      | none => (o, [.fireChannelRead msg])
  | msg => (o, [.fireChannelRead msg])

/-- The task that was scheduled for some ids. -/
def timeout (o : ExtensionBlocksLoader) (xid : ExtensionIds) : List Effect :=
  if o.targetExtensionIds = some xid then [.blacklistAndClose "Timeout loading blocks"] else []

/-- The first block with an identifier among some messages. -/
def arrival (msgs : List Signal) (id : ByteStr) : Option Block :=
  msgs.findSome? fun
    | .block b => if b.uniqueId = id then some b else none
    | _ => none

/-- The blocks that came for some identifiers, in the order of these. -/
def arrived (msgs : List Signal) (ids : List ByteStr) : List Block :=
  ids.filterMap (arrival msgs)

/-- Every one of some identifiers has come. -/
def Complete (ids : List ByteStr) (msgs : List Signal) : Prop :=
  ∀ id ∈ ids, (arrival msgs id).isSome

/-- Whether a message that follows `done` is for the loader of some ids alone: other ids, or the
first block for one of these. -/
def isConsumed (ids : List ByteStr) (done : List Signal) : Signal → Bool
  | .extensionIds _ => true
  | .block b => b.uniqueId ∈ ids && (arrival done b.uniqueId).isNone
  | _ => false

/-- Those of the messages after `done` that nobody has asked for. -/
def unsolicited (ids : List ByteStr) : List Signal → List Signal → List Signal
  | _, [] => []
  | done, msg :: msgs =>
      if isConsumed ids done msg then unsolicited ids (done ++ [msg]) msgs
      else msg :: unsolicited ids (done ++ [msg]) msgs

/-- The blocks follow one another, the first of them the block `lastCommonId`. -/
def Linked (lastCommonId : ByteStr) (blocks : List Block) : Prop :=
  (∀ b, blocks.head? = some b → b.reference = lastCommonId) ∧ contiguous blocks

variable {parFind : ParFind Block} {xid : ExtensionIds} {done msgs : List Signal} {b : Block}
  {ids : List ByteStr} {id : ByteStr} {o : ExtensionBlocksLoader} {msg : Signal}

/-- The blocks of an extension are good when they have all come, are linked to the last common block
and to one another, and have valid signatures. -/
structure Passes (xid : ExtensionIds) (msgs : List Signal) : Prop where
  complete : Complete xid.extensionIds msgs
  linked : Linked xid.lastCommonId (arrived msgs xid.extensionIds)
  valid : ∀ b ∈ arrived msgs xid.extensionIds, b.signatureValid = .ok true

theorem arrival_append (id : ByteStr) :
    arrival (done ++ msgs) id = (arrival done id).or (arrival msgs id) := by
  rw [arrival, List.findSome?_append]
  rfl

@[simp]
theorem arrival_nil (id : ByteStr) : arrival [] id = none := rfl

theorem arrival_block (b : Block) (id : ByteStr) :
    arrival [.block b] id = if b.uniqueId = id then some b else none := by
  rw [arrival, List.findSome?_singleton]

theorem uniqueId_of_arrival (h : arrival msgs id = some b) : b.uniqueId = id := by
  obtain ⟨msg, -, hmsg⟩ := List.exists_of_findSome?_eq_some h
  cases msg with
  | block b' =>
      dsimp only at hmsg
      split at hmsg
      · rename_i hid
        obtain rfl := Option.some.inj hmsg
        exact hid
      · cases hmsg
  | _ => cases hmsg

/-- What has come does not go. -/
theorem Complete.append (h : Complete ids done) (msgs : List Signal) :
    Complete ids (done ++ msgs) := by
  intro id hid
  rw [arrival_append, Option.isSome_or, h id hid, Bool.true_or]

/-- The blocks that came are the requested ones, each once, in the order of the request. -/
theorem Complete.arrived_ids (h : Complete ids msgs) :
    (arrived msgs ids).map Block.uniqueId = ids := by
  induction ids with
  | nil => rfl
  | cons id ids ih =>
      obtain ⟨b, hb⟩ := Option.isSome_iff_exists.mp (h id List.mem_cons_self)
      rw [arrived, List.filterMap_cons_some hb, List.map_cons, uniqueId_of_arrival hb]
      congr 1
      exact ih fun id' hid' => h id' (List.mem_cons_of_mem id hid')

theorem unsolicited_append (msgs' : List Signal) :
    unsolicited ids done (msgs ++ msgs')
      = unsolicited ids done msgs ++ unsolicited ids (done ++ msgs) msgs' := by
  induction msgs generalizing done with
  | nil => simp [unsolicited]
  | cons msg msgs ih =>
      rw [List.cons_append, unsolicited, unsolicited, ih]
      rw [List.append_assoc, List.singleton_append]
      split <;> rfl

/-- The loader waits for those of the requested blocks that have not come after `done`. -/
structure Loading (xid : ExtensionIds) (done : List Signal) (o : ExtensionBlocksLoader) : Prop where
  pending : ∀ id i, o.pendingSignatures.lookup id = some i ↔
    xid.extensionIds[i]? = some id ∧ arrival done id = none
  buffer : ∀ i, o.blockBuffer.lookup i = xid.extensionIds[i]?.bind (arrival done)
  target : o.targetExtensionIds = some xid
  timeout : o.currentTimeout = some xid

variable (parFind) in
/-- A request that finds the loader idle. -/
theorem channelRead_extensionIds (hids : xid.extensionIds.Nodup) (hne : xid.extensionIds ≠ []) :
    (channelRead parFind idle (.extensionIds xid)).2
        = xid.extensionIds.map (fun s => .write (.getBlock s)) ∧
      Loading xid [] (channelRead parFind idle (.extensionIds xid)).1 := by
  have hempty : idle.pendingSignatures.isEmpty = true := rfl
  rw [channelRead, if_pos hempty, if_pos hne]
  refine ⟨rfl, ?_, ?_, rfl, rfl⟩
  · intro id i
    rw [Dict.lookup_positions_iff hids]
    exact ⟨fun h => ⟨h, rfl⟩, fun h => h.1⟩
  · intro i
    show (∅ : Dict Nat Block).lookup i = _
    rw [Finmap.lookup_empty]
    cases xid.extensionIds[i]? with
    | none => rfl
    | some id => rfl

/-- A loader is done with its list of pending identifiers when all the blocks have come. -/
theorem Loading.isEmpty_iff (ho : Loading xid done o) :
    o.pendingSignatures.isEmpty = true ↔ Complete xid.extensionIds done := by
  rw [Dict.isEmpty_iff]
  constructor
  · intro h id hid
    obtain ⟨i, hi⟩ := List.getElem?_of_mem hid
    cases harrival : arrival done id with
    | none =>
        have hsome := (ho.pending id i).mpr ⟨hi, harrival⟩
        rw [h id] at hsome
        cases hsome
    | some b => rfl
  · intro h id
    rw [Option.eq_none_iff_forall_ne_some]
    intro i hsome
    obtain ⟨hi, hnone⟩ := (ho.pending id i).mp hsome
    have := h id (List.mem_of_getElem? hi)
    rw [hnone] at this
    cases this

/-- A message other than a block changes nothing of what has come. -/
theorem arrival_concat_of_ne (hmsg : ∀ b, msg ≠ .block b) (id : ByteStr) :
    arrival (done ++ [msg]) id = arrival done id := by
  rw [arrival_append]
  have hnone : arrival [msg] id = none := by
    rw [arrival, List.findSome?_singleton]
    cases msg with
    | block b => exact absurd rfl (hmsg b)
    | _ => rfl
  rw [hnone, Option.or_none]

/-- A block that is not the first of a requested one changes nothing of what has come. -/
theorem arrival_concat_of_unsolicited {b : Block}
    (hb : ¬ (b.uniqueId ∈ ids ∧ arrival done b.uniqueId = none)) (hid : id ∈ ids) :
    arrival (done ++ [.block b]) id = arrival done id := by
  rw [arrival_append, arrival_block]
  by_cases heq : b.uniqueId = id
  · subst heq
    cases harrival : arrival done b.uniqueId with
    | none => exact absurd ⟨hid, harrival⟩ hb
    | some b' => rfl
  · rw [if_neg heq, Option.or_none]

/-- The state of a loader depends on what has come alone. -/
theorem Loading.congr (ho : Loading xid done o)
    (h : ∀ id ∈ xid.extensionIds, arrival msgs id = arrival done id) : Loading xid msgs o where
  pending := by
    intro id i
    rw [ho.pending]
    constructor
    · rintro ⟨hi, hnone⟩
      exact ⟨hi, (h id (List.mem_of_getElem? hi)).trans hnone⟩
    · rintro ⟨hi, hnone⟩
      exact ⟨hi, (h id (List.mem_of_getElem? hi)).symm.trans hnone⟩
  buffer := by
    intro i
    rw [ho.buffer]
    cases hget : xid.extensionIds[i]? with
    | none => rfl
    | some id => exact (h id (List.mem_of_getElem? hget)).symm
  target := ho.target
  timeout := ho.timeout

/-- A loader takes the first block of a requested one. -/
theorem Loading.take (hids : xid.extensionIds.Nodup) (ho : Loading xid done o)
    (hid : b.uniqueId ∈ xid.extensionIds) (hnone : arrival done b.uniqueId = none) :
    ∃ position, o.pendingSignatures.lookup b.uniqueId = some position ∧
      Loading xid (done ++ [.block b]) { o with
        blockBuffer := o.blockBuffer.insert position b
        pendingSignatures := o.pendingSignatures.erase b.uniqueId } := by
  obtain ⟨position, hposition⟩ := List.getElem?_of_mem hid
  refine ⟨position, (ho.pending _ _).mpr ⟨hposition, hnone⟩, ?_, ?_, ho.target, ho.timeout⟩
  · intro id i
    show (Finmap.erase b.uniqueId o.pendingSignatures).lookup id = some i ↔ _
    rw [Dict.lookup_erase_eq, arrival_append, arrival_block]
    by_cases heq : id = b.uniqueId
    · subst heq
      rw [if_pos rfl, hnone, if_pos rfl]
      constructor
      · exact fun h => by cases h
      · exact fun h => by cases h.2
    · rw [if_neg heq, if_neg (fun h => heq h.symm), Option.or_none]
      exact ho.pending id i
  · intro i
    show (Finmap.insert position b o.blockBuffer).lookup i = _
    rw [Dict.lookup_insert_eq, ho.buffer]
    by_cases heq : i = position
    · rw [if_pos heq, heq, hposition, Option.bind_some, arrival_append, hnone, arrival_block,
        if_pos rfl, Option.none_or]
    · rw [if_neg heq]
      cases hget : xid.extensionIds[i]? with
      | none => rfl
      | some id =>
          have hne : b.uniqueId ≠ id := by
            rintro rfl
            have hlt := (List.getElem?_eq_some_iff.mp hget).1
            exact heq ((List.getElem?_inj hlt hids).mp (hget.trans hposition.symm))
          rw [Option.bind_some, Option.bind_some, arrival_append, arrival_block, if_neg hne,
            Option.or_none]

variable (parFind) in
/-- A message that leaves blocks to wait for: the loader keeps it or passes it on. -/
theorem Loading.step (hids : xid.extensionIds.Nodup) (ho : Loading xid done o)
    (hwaits : ¬ Complete xid.extensionIds (done ++ [msg])) :
    (channelRead parFind o msg).2
        = (if isConsumed xid.extensionIds done msg then [] else [.fireChannelRead msg]) ∧
      Loading xid (done ++ [msg]) (channelRead parFind o msg).1 := by
  cases msg with
  | extensionIds xid' =>
      have hpending : o.pendingSignatures.isEmpty = false := by
        rw [← Bool.not_eq_true, ho.isEmpty_iff]
        exact fun h => hwaits (h.append _)
      rw [channelRead, hpending]
      exact ⟨rfl, ho.congr fun id _ => arrival_concat_of_ne (fun b h => by cases h) id⟩
  | block b =>
      by_cases hb : b.uniqueId ∈ xid.extensionIds ∧ arrival done b.uniqueId = none
      · obtain ⟨position, hlookup, htaken⟩ := ho.take hids hb.1 hb.2
        have hpending : Dict.isEmpty (o.pendingSignatures.erase b.uniqueId) = false := by
          rw [← Bool.not_eq_true]
          exact fun h => hwaits (htaken.isEmpty_iff.mp h)
        have hconsumed : isConsumed xid.extensionIds done (.block b) = true := by
          simp [isConsumed, hb.1, hb.2]
        simp only [channelRead, hlookup, hpending, hconsumed]
        exact ⟨rfl, htaken⟩
      · have hlookup : o.pendingSignatures.lookup b.uniqueId = none := by
          rw [Option.eq_none_iff_forall_ne_some]
          intro i hi
          obtain ⟨hget, hnone⟩ := (ho.pending _ i).mp hi
          exact hb ⟨List.mem_of_getElem? hget, hnone⟩
        have hconsumed : isConsumed xid.extensionIds done (.block b) = false := by
          rw [isConsumed, Bool.and_eq_false_iff, decide_eq_false_iff_not,
            ← Bool.not_eq_true, Option.isNone_iff_eq_none]
          exact not_and_or.mp hb
        simp only [channelRead, hlookup, hconsumed]
        exact ⟨rfl, ho.congr fun id hid => arrival_concat_of_unsolicited hb hid⟩
  | _ => exact ⟨rfl, ho.congr fun id _ => arrival_concat_of_ne (fun b h => by cases h) id⟩

variable (parFind) in
/-- Messages that leave blocks to wait for. -/
theorem Loading.run (hids : xid.extensionIds.Nodup) (ho : Loading xid done o)
    (hwaits : ¬ Complete xid.extensionIds (done ++ msgs)) :
    Transducer.emitted (channelRead parFind) o msgs
        = (unsolicited xid.extensionIds done msgs).map .fireChannelRead ∧
      Loading xid (done ++ msgs) (Transducer.after (channelRead parFind) o msgs) := by
  induction msgs generalizing done o with
  | nil =>
      rw [List.append_nil]
      exact ⟨rfl, ho⟩
  | cons msg msgs ih =>
      have hsplit : done ++ msg :: msgs = (done ++ [msg]) ++ msgs := by simp
      rw [hsplit] at hwaits ⊢
      obtain ⟨hout, hnext⟩ :=
        ho.step parFind hids (fun h => hwaits (h.append msgs))
      obtain ⟨hrest, hlast⟩ := ih hnext hwaits
      rw [Transducer.emitted_cons, Transducer.after_cons, hout, hrest, unsolicited]
      refine ⟨?_, hlast⟩
      split <;> rfl

/-- The buffer of a loader to which all blocks have come. -/
theorem Loading.inOrder (ho : Loading xid done o) :
    o.blockBuffer.inOrder = arrived done xid.extensionIds := by
  have hbound : ∀ i b, o.blockBuffer.lookup i = some b → i < xid.extensionIds.length := by
    intro i b h
    rw [ho.buffer] at h
    cases hget : xid.extensionIds[i]? with
    | none =>
        rw [hget] at h
        cases h
    | some id => exact (List.getElem?_eq_some_iff.mp hget).1
  have hlookup : o.blockBuffer.lookup = fun i => xid.extensionIds[i]?.bind (arrival done) :=
    funext ho.buffer
  rw [Dict.inOrder_eq hbound, hlookup, Dict.filterMap_range_getElem?, arrived]

variable (parFind) in
/-- The message that completes an extension is the last of the requested blocks. -/
theorem Loading.complete (hids : xid.extensionIds.Nodup) (ho : Loading xid done o)
    (hwaits : ¬ Complete xid.extensionIds done)
    (hcomplete : Complete xid.extensionIds (done ++ [msg])) :
    isConsumed xid.extensionIds done msg = true ∧
      ∃ o', Loading xid (done ++ [msg]) o' ∧ o'.pendingSignatures = ∅ ∧
        channelRead parFind o msg = o'.loaded parFind := by
  by_cases hmsg : ∃ b, msg = .block b
  · obtain ⟨b, rfl⟩ := hmsg
    by_cases hb : b.uniqueId ∈ xid.extensionIds ∧ arrival done b.uniqueId = none
    · obtain ⟨position, hlookup, htaken⟩ := ho.take hids hb.1 hb.2
      have hpending : Dict.isEmpty (o.pendingSignatures.erase b.uniqueId) = true :=
        htaken.isEmpty_iff.mpr hcomplete
      refine ⟨by simp [isConsumed, hb.1, hb.2], _, htaken, Dict.eq_empty_of_isEmpty hpending, ?_⟩
      simp only [channelRead, hlookup, hpending, if_true]
    · exact absurd (fun id hid => (arrival_concat_of_unsolicited hb hid) ▸ hcomplete id hid)
        hwaits
  · have hne : ∀ b, msg ≠ .block b := fun b h => hmsg ⟨b, h⟩
    exact absurd (fun id hid => (arrival_concat_of_ne hne id) ▸ hcomplete id hid) hwaits

/-- What a loader does with a request that finds it idle and with the messages that follow, while
blocks are missing and with the last of them.  It asks for the blocks, passes on what nobody has
asked for, and in the end passes on the extension if and only if it is good; then it is idle. -/
structure Served (parFind : ParFind Block) (xid : ExtensionIds) (msgs : List Signal) : Prop where
  emits : ∃ outcome,
    Transducer.emitted (channelRead parFind) idle (.extensionIds xid :: msgs)
      = xid.extensionIds.map (fun s => .write (.getBlock s))
        ++ (unsolicited xid.extensionIds [] msgs).map .fireChannelRead ++ outcome ∧
    (Passes xid msgs →
      outcome = [.fireChannelRead (.extensionBlocks (arrived msgs xid.extensionIds))]) ∧
    (¬ Passes xid msgs → ∀ msg, .fireChannelRead msg ∉ outcome)
  ordered : Passes xid msgs →
    (arrived msgs xid.extensionIds).map Block.uniqueId = xid.extensionIds
  resets : Complete xid.extensionIds msgs →
    Transducer.after (channelRead parFind) idle (.extensionIds xid :: msgs) = idle

/-- The pre-check fails only where the signature check of a linked block does. -/
theorem preCheck_eq_error {tids : ExtensionIds} {blocks : List Block} {e : Fault}
    (hne : blocks ≠ []) (h : preCheck parFind tids blocks = .error e) :
    Linked tids.lastCommonId blocks ∧ ∃ b ∈ blocks, ∃ e', b.signatureValid = .error e' := by
  obtain ⟨head, rest, rfl⟩ := List.exists_cons_of_ne_nil hne
  simp only [preCheck, List.head?_cons, getOrRaise, ok_bind] at h
  split at h
  · cases h
  · rename_i href
    split at h
    · cases h
    · rename_i hcontiguous
      refine ⟨⟨?_, by simpa using hcontiguous⟩, ?_⟩
      · rintro b ⟨⟩
        exact (Decidable.not_not.mp href).symm
      · cases hfind : parFind.find signatureInvalid (head :: rest) with
        | error e' =>
            obtain ⟨b, hb, e'', hfails⟩ := parFind.failed hfind
            refine ⟨b, hb, ?_⟩
            cases hvalid : b.signatureValid with
            | error e3 => exact ⟨e3, rfl⟩
            | ok v =>
                rw [signatureInvalid, hvalid] at hfails
                cases hfails
        | ok found =>
            rw [hfind] at h
            cases found with
            | none => cases h
            | some b => cases h

/-- A pre-check that comes out passes the blocks on exactly when they are linked and valid. -/
theorem preCheck_eq_ok {tids : ExtensionIds} {blocks : List Block} {effect : Effect}
    (h : preCheck parFind tids blocks = .ok effect) :
    ((Linked tids.lastCommonId blocks ∧ ∀ b ∈ blocks, b.signatureValid = .ok true) →
      effect = .fireChannelRead (.extensionBlocks blocks)) ∧
    (¬ (Linked tids.lastCommonId blocks ∧ ∀ b ∈ blocks, b.signatureValid = .ok true) →
      ∀ msg, effect ≠ .fireChannelRead msg) := by
  -- The checks in order: the first reference, the links between the blocks, the signatures.
  obtain ⟨head, hhead, h⟩ := bind_eq_ok_iff.mp h
  have hhead := getOrRaise_eq_ok_iff.mp hhead
  split at h
  · rename_i href
    obtain rfl := Except.ok.inj h
    exact ⟨fun hgood => absurd (hgood.1.1 head hhead).symm href, fun _ msg heq => by cases heq⟩
  · rename_i href
    split at h
    · rename_i hcontiguous
      obtain rfl := Except.ok.inj h
      refine ⟨fun hgood => ?_, fun _ msg heq => by cases heq⟩
      rw [hgood.1.2] at hcontiguous
      cases hcontiguous
    · rename_i hcontiguous
      obtain ⟨found, hfound, h⟩ := bind_eq_ok_iff.mp h
      cases found with
      | some invalid =>
          obtain rfl := Except.ok.inj h
          obtain ⟨hmem, hinvalid⟩ := parFind.found hfound
          refine ⟨fun hgood => ?_, fun _ msg heq => by cases heq⟩
          rw [signatureInvalid, hgood.2 invalid hmem] at hinvalid
          cases hinvalid
      | none =>
          obtain rfl := Except.ok.inj h
          refine ⟨fun _ => rfl, fun hbad => absurd ⟨⟨?_, by simpa using hcontiguous⟩, ?_⟩ hbad⟩
          · intro b hb
            rw [hhead] at hb
            obtain rfl := Option.some.inj hb
            exact (Decidable.not_not.mp href).symm
          · intro b hb
            have hvalid := parFind.none_found hfound b hb
            obtain ⟨v, hv, hnot⟩ := map_eq_ok_iff.mp hvalid
            cases v with
            | true => exact hv
            | false => cases hnot

/-- What follows the last block is the pre-check of the blocks that came. -/
theorem Loading.loaded (ho : Loading xid done o) (hpending : o.pendingSignatures = ∅) :
    o.loaded parFind = match preCheck parFind xid (arrived done xid.extensionIds) with
      | .ok effect => (idle, [effect])
      | .error e => ({ o with currentTimeout := none }, [.raised e]) := by
  have htarget := ho.target
  have horder := ho.inOrder
  obtain ⟨pending, target, buffer, timeout⟩ := o
  obtain rfl := htarget
  obtain rfl := hpending
  simp only [ExtensionBlocksLoader.loaded]
  rw [horder]
  cases preCheck parFind xid (arrived done xid.extensionIds) with
  | ok effect => rfl
  | error e => rfl

variable (parFind) in
/-- A request that finds the loader idle, and messages that bring the last of the blocks last. -/
theorem run_of_complete (hids : xid.extensionIds.Nodup) {before : List Signal}
    (hwaits : ¬ Complete xid.extensionIds before)
    (hcomplete : Complete xid.extensionIds (before ++ [msg])) :
    ∃ o' outcome, Loading xid (before ++ [msg]) o' ∧
      o'.loaded parFind = (Transducer.after (channelRead parFind) idle
        (.extensionIds xid :: (before ++ [msg])), outcome) ∧
      o'.pendingSignatures = ∅ ∧
      Transducer.emitted (channelRead parFind) idle (.extensionIds xid :: (before ++ [msg]))
        = xid.extensionIds.map (fun s => .write (.getBlock s))
          ++ (unsolicited xid.extensionIds [] (before ++ [msg])).map .fireChannelRead
          ++ outcome := by
  have hne : xid.extensionIds ≠ [] := by
    intro hnil
    refine hwaits fun id hid => ?_
    rw [hnil] at hid
    cases hid
  obtain ⟨hrequests, hstart⟩ := channelRead_extensionIds parFind hids hne
  obtain ⟨hpassed, hloading⟩ := hstart.run parFind hids hwaits
  obtain ⟨hconsumed, o', ho', hpending, hlast⟩ :=
    hloading.complete parFind hids hwaits hcomplete
  refine ⟨o', (o'.loaded parFind).2, ho', ?_, hpending, ?_⟩
  · rw [Transducer.after_cons, Transducer.after_append, Transducer.after_cons, hlast]
    rfl
  · rw [Transducer.emitted_cons, Transducer.emitted_append, Transducer.emitted_cons, hrequests,
      hpassed, hlast, unsolicited_append, unsolicited, if_pos hconsumed, unsolicited,
      Transducer.emitted_nil, List.append_nil, List.append_nil, List.append_assoc]

/-- The loader serves a request when the pre-check of its blocks, if it comes to that, comes out. -/
theorem served_of_preCheck (hids : xid.extensionIds.Nodup)
    (hlast : ∀ before msg, msgs = before ++ [msg] → ¬ Complete xid.extensionIds before)
    (hcheck : Complete xid.extensionIds msgs → xid.extensionIds ≠ [] →
      ∃ effect, preCheck parFind xid (arrived msgs xid.extensionIds) = .ok effect) :
    Served parFind xid msgs := by
  -- The pre-check runs once, when the last block that was asked for arrives.
  by_cases hcomplete : Complete xid.extensionIds msgs
  · obtain hnil | ⟨before, msg, rfl⟩ := List.eq_nil_or_concat' msgs
    · -- only an empty request is complete before any block has come
      have hempty : xid.extensionIds = [] := by
        rw [List.eq_nil_iff_forall_not_mem]
        intro id hid
        have := hcomplete id hid
        rw [hnil] at this
        cases this
      subst hnil
      have hrun : channelRead parFind idle (.extensionIds xid)
          = (idle, [.fireChannelRead (.extensionBlocks [])]) := by
        rw [channelRead, hempty]
        rfl
      refine ⟨⟨[.fireChannelRead (.extensionBlocks [])], ?_, ?_, ?_⟩, ?_, ?_⟩
      · rw [Transducer.emitted_cons, hrun, hempty]
        rfl
      · intro _
        rw [hempty]
        rfl
      · intro hbad
        refine absurd ⟨hcomplete, ⟨?_, ?_⟩, ?_⟩ hbad
        · rw [hempty]
          exact fun b hb => by cases hb
        · rw [hempty]
          rfl
        · rw [hempty]
          exact fun b hb => by cases hb
      · exact fun h => h.complete.arrived_ids
      · intro _
        rw [Transducer.after_cons, hrun]
        rfl
    · have hwaits := hlast before msg rfl
      have hne : xid.extensionIds ≠ [] := by
        intro hnil
        refine hwaits fun id hid => ?_
        rw [hnil] at hid
        cases hid
      obtain ⟨effect, heffect⟩ := hcheck hcomplete hne
      obtain ⟨o', outcome, ho', hloaded, hpending, hemitted⟩ :=
        run_of_complete parFind hids hwaits hcomplete
      rw [ho'.loaded hpending, heffect] at hloaded
      obtain ⟨hidle, rfl⟩ := Prod.mk.inj hloaded
      obtain ⟨hpasses, hrefuses⟩ := preCheck_eq_ok heffect
      refine ⟨⟨[effect], hemitted, ?_, ?_⟩, fun h => h.complete.arrived_ids, fun _ => hidle.symm⟩
      · intro h
        rw [hpasses ⟨h.linked, h.valid⟩]
      · intro hbad msg' hmem
        refine hrefuses (fun hgood => hbad ⟨hcomplete, hgood.1, hgood.2⟩) msg' ?_
        exact (List.mem_singleton.mp hmem).symm
  · have hne : xid.extensionIds ≠ [] := by
      intro hnil
      refine hcomplete fun id hid => ?_
      rw [hnil] at hid
      cases hid
    obtain ⟨hrequests, hstart⟩ := channelRead_extensionIds parFind hids hne
    obtain ⟨hpassed, -⟩ := hstart.run parFind hids hcomplete
    refine ⟨⟨[], ?_, fun h => absurd h.complete hcomplete, fun _ _ h => List.not_mem_nil h⟩,
      fun h => absurd h.complete hcomplete, fun h => absurd h hcomplete⟩
    rw [Transducer.emitted_cons, hrequests, hpassed, List.append_nil]

/-- However the search for an invalid signature comes out, a loader serves a request, if and only
if the signature check of none of its blocks fails when these have all come and are linked. -/
theorem served_iff (hids : xid.extensionIds.Nodup)
    (hlast : ∀ before msg, msgs = before ++ [msg] → ¬ Complete xid.extensionIds before) :
    (∀ parFind, Served parFind xid msgs) ↔
      (Complete xid.extensionIds msgs → Linked xid.lastCommonId (arrived msgs xid.extensionIds) →
        ∀ b ∈ arrived msgs xid.extensionIds, ∃ v, b.signatureValid = .ok v) := by
  constructor
  · intro hserved hcomplete hlinked b hb
    cases hvalid : b.signatureValid with
    | ok v => exact ⟨v, rfl⟩
    | error e =>
        -- a search that looks at every block fails, and leaves the extension in the loader
        exfalso
        obtain hnil | ⟨before, msg, rfl⟩ := List.eq_nil_or_concat' msgs
        · subst hnil
          obtain ⟨id, hid, harrival⟩ := List.mem_filterMap.mp hb
          cases harrival
        · obtain ⟨o', outcome, ho', hloaded, hpending, -⟩ :=
            run_of_complete (.exhaustive Block) hids (hlast before msg rfl) hcomplete
          have hidle := (hserved (.exhaustive Block)).resets hcomplete
          have hfails : signatureInvalid b = .error e := by
            rw [signatureInvalid, hvalid]
            rfl
          obtain ⟨e', he'⟩ := findAfterAll_eq_error hb hfails
          have hcheck : preCheck (.exhaustive Block) xid
              (arrived (before ++ [msg]) xid.extensionIds) = .error e' := by
            cases hblocks : arrived (before ++ [msg]) xid.extensionIds with
            | nil =>
                rw [hblocks] at hb
                cases hb
            | cons head rest =>
                rw [hblocks] at hlinked he'
                have href : ¬ xid.lastCommonId ≠ head.reference :=
                  not_not.mpr (hlinked.1 head rfl).symm
                have hcontiguous : ¬ (!contiguous (head :: rest)) = true := by
                  rw [hlinked.2]
                  exact Bool.false_ne_true
                simp only [preCheck, List.head?_cons, getOrRaise, ok_bind]
                rw [if_neg href, if_neg hcontiguous]
                show (findAfterAll signatureInvalid (head :: rest) >>= _) = _
                rw [he']
                rfl
          rw [ho'.loaded hpending, hcheck, hidle] at hloaded
          have htarget : o'.targetExtensionIds = none :=
            congrArg (fun r => r.1.targetExtensionIds) hloaded
          rw [ho'.target] at htarget
          cases htarget
  · intro hvalid parFind
    refine served_of_preCheck hids hlast fun hcomplete hne => ?_
    cases hcheck : preCheck parFind xid (arrived msgs xid.extensionIds) with
    | ok effect => exact ⟨effect, rfl⟩
    | error e =>
        have hblocks : arrived msgs xid.extensionIds ≠ [] := by
          intro hnil
          refine hne ?_
          rw [← hcomplete.arrived_ids, hnil]
          rfl
        obtain ⟨hlinked, b, hb, e', hfails⟩ := preCheck_eq_error hblocks hcheck
        obtain ⟨v, hv⟩ := hvalid hcomplete hlinked b hb
        rw [hv] at hfails
        cases hfails

end ExtensionBlocksLoader

end Platform

namespace Sample

open ExtensionBlocksLoader

/-- A block without transactions, with its version and with the bytes its reference and its
identifier consist of. -/
def chained (version parent id : Byte) : Block :=
  ⟨0, version, List.replicate 64 parent, ⟨⟨List.replicate 32 0⟩, List.replicate 64 id⟩, ⟨0, 0⟩, []⟩

/-- An extension of two blocks. -/
def twoBlocks : ExtensionIds := ⟨List.replicate 64 1, [List.replicate 64 2, List.replicate 64 3]⟩

/-- The two blocks, the last one first and twice, with one that nobody asked for. -/
def shuffled : List Signal :=
  [.block (chained 1 2 3), .block (chained 1 2 3), .block (chained 1 9 9), .block (chained 1 1 2)]

/-- All the blocks come, and they are served. -/
theorem twoBlocks_served : Complete twoBlocks.extensionIds shuffled ∧
    ∀ parFind, Served parFind twoBlocks shuffled := by
  refine ⟨by unfold Complete; decide +kernel, (served_iff (by decide +kernel) ?_).mpr ?_⟩
  · intro before msg h
    obtain rfl : before = shuffled.dropLast := by rw [h, List.dropLast_concat]
    unfold Complete
    decide +kernel
  · intro _ _ b hb
    have hvalid : ∀ b ∈ arrived shuffled twoBlocks.extensionIds, b.signatureValid.isOk = true := by
      decide +kernel
    exact ⟨okOr b.signatureValid false, eq_ok_okOr (hvalid b hb)⟩

/-- The same request, answered with a last block whose version has no bytes. -/
def unreadable : List Signal := [.block (chained 1 1 2), .block (chained 9 2 3)]

/-- The bytes of that last block, as a peer can send them. -/
def unreadableBytes : ByteStr :=
  9 :: List.replicate 8 0 ++ List.replicate 64 2 ++ [0, 0, 0, 16] ++ List.replicate 16 0
    ++ [0, 0, 0, 40] ++ List.replicate 72 0 ++ [0, 0, 0, 0] ++ List.replicate 32 0
    ++ List.replicate 64 3

/-- A loader that was sent a block whose signature check fails is not idle again, and when the next
request is answered with just the block it asks for, that block is not passed on: the one left over
is checked again. -/
theorem unreadable_stays : Block.parseBytes unreadableBytes = .ok (chained 9 2 3) ∧
    ¬ (∀ parFind, Served parFind twoBlocks unreadable) ∧
    let next : ExtensionIds := ⟨List.replicate 64 1, [List.replicate 64 2]⟩
    (Transducer.emitted (channelRead (.exhaustive Block)) idle
      (.extensionIds twoBlocks :: unreadable
        ++ [.extensionIds next, .block (chained 1 1 2)])).getLast?
      = some (.raised (.raised .matchError)) := by
  refine ⟨by decide +kernel, fun hserved => ?_, by decide +kernel⟩
  have hidle := (hserved (.exhaustive Block)).resets (by unfold Complete; decide +kernel)
  have htarget : (Transducer.after (channelRead (.exhaustive Block)) idle
      (.extensionIds twoBlocks :: unreadable)).targetExtensionIds = some twoBlocks := by
    decide +kernel
  rw [hidle] at htarget
  cases htarget

end Sample

end Vsys
