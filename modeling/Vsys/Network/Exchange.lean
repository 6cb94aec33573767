import Vsys.Chain.Checkpoints
import Vsys.Chain.Windows
import Vsys.Network.Pipeline

/-!
# The exchange of block identifiers

A node that wants an extension sends the identifiers of its last blocks.  `HistoryReplier` looks for
one of them that it can continue and sends it with what follows; `ExtensionSignaturesLoader` splits
the reply into what was known and the extension.
-/

namespace Vsys

open Lib

section Platform

variable [Platform]

namespace HistoryReplier

/-- The first of some identifiers that the history can continue, with what follows it. -/
def findExtension (history : History) (maxChainLength : Int32) :
    List ByteStr → Result (Option (ByteStr × List ByteStr))
  | [] => .ok none
  | parent :: otherSigs => do
      let extension ← history.blockIdsAfter parent maxChainLength
      if extension ≠ [] then .ok (some (parent, extension))
      else findExtension history maxChainLength otherSigs

/-- What the history continues an identifier with. -/
def continuation (history : History) (maxChainLength : Int32) (id : ByteStr) : List ByteStr :=
  okOr (history.blockIdsAfter id maxChainLength) []

/-- The reply to `GetSignatures`: an extension, or the one identifier when it is the last here. -/
def reply (history : History) (maxChainLength : Int32) (otherSigs : List ByteStr) :
    Result (List Effect) := do
  match ← findExtension history maxChainLength otherSigs with
  | some (parent, extension) => .ok [.write (.signatures (parent :: extension))]
  | none =>
      match otherSigs with
      | [sig] =>
          let last ← history.lastBlock
          let last ← getOrRaise .noSuchElement last
          if sig = last.uniqueId then .ok [.write (.signatures otherSigs)] else .ok []
      | _ => .ok []

/-- `channelRead`. -/
def channelRead (history : History) (maxChainLength : Int32) : Signal → List Effect
  | .getSignatures otherSigs =>
      match reply history maxChainLength otherSigs with
      | .ok effects => effects
      | .error e => [.raised e]
  | .getBlock sig =>
      match (history.heightOf sig).bind history.blockBytes with
      | some bytes => [.write (.rawBytes ⟨MessageSpec.blockMessageSpec.messageCode, bytes⟩)]
      | none => []
  | .handshake =>
      match history.score with
      | .ok score => [.write (.localScoreChanged score)]
      | .error e => [.raised e]
  | msg => [.fireChannelRead msg]

end HistoryReplier

/-- The fields of `ExtensionSignaturesLoader`; of the timeout, whether it is set. -/
structure ExtensionSignaturesLoader where
  currentTimeout : Bool
  lastKnownSignatures : List ByteStr

namespace ExtensionSignaturesLoader

/-- A loader that waits for nothing. -/
def idle : ExtensionSignaturesLoader := ⟨false, []⟩

/-- `channelRead`. -/
def channelRead (o : ExtensionSignaturesLoader) (msg : Signal) :
    ExtensionSignaturesLoader × List Effect :=
  match msg with
  | .signatures signatures =>
      let known := signatures.takeWhile (· ∈ o.lastKnownSignatures)
      let unknown := signatures.dropWhile (· ∈ o.lastKnownSignatures)
      ({ o with currentTimeout := false },
        (known.getLast?.map fun lastKnown =>
          Effect.fireChannelRead (.extensionIds ⟨lastKnown, unknown⟩)).toList)
  | msg => (o, [.fireChannelRead msg])

/-- `write`; a request while another one is under way ends here. -/
def write (o : ExtensionSignaturesLoader) (msg : Signal) :
    ExtensionSignaturesLoader × List Effect :=
  match msg with
  | .loadBlockchainExtension sigs =>
      if o.currentTimeout then (o, [.setSuccess])
      else (⟨true, sigs⟩, [.write (.getSignatures sigs)])
  | msg => (o, [.write msg])

/-- The task that is scheduled with a request. -/
def timeout (o : ExtensionSignaturesLoader) (isActive : Bool) : List Effect :=
  if o.currentTimeout && isActive then
    [.blacklistAndClose "Timeout expired while loading extension"]
  else []

end ExtensionSignaturesLoader

/-- What some effects send to the peer. -/
def written (effects : List Effect) : List Signal :=
  effects.filterMap fun
    | .write msg => some msg
    | _ => none

/-- The exchange: the request for the last blocks here, the replies to it there, and what the loader
here makes of them. -/
def exchange (localHistory remoteHistory : History) (window maxChainLength : Int32) :
    List Effect :=
  let request := ExtensionSignaturesLoader.idle.write
    (.loadBlockchainExtension (localHistory.lastBlockIds window))
  let replies := (written request.2).flatMap
    (HistoryReplier.channelRead remoteHistory maxChainLength)
  Transducer.emitted ExtensionSignaturesLoader.channelRead request.1 (written replies)

/-- Two chains that have a first part in common, and no block after it. -/
structure Forks (localBlocks remoteBlocks common upper remoteUpper : List Block) : Prop where
  local_eq : localBlocks = common ++ upper
  remote_eq : remoteBlocks = common ++ remoteUpper
  upper_notMem : ∀ b ∈ upper, b.uniqueId ∉ remoteBlocks.map Block.uniqueId
  remoteUpper_notMem : ∀ b ∈ remoteUpper, b.uniqueId ∉ localBlocks.map Block.uniqueId

variable {localHistory remoteHistory : History} {window maxChainLength : Int32}
  {localBlocks remoteBlocks common upper remoteUpper : List Block}

/-- The search for an identifier that can be continued. -/
theorem HistoryReplier.findExtension_eq {history : History} {ids : List ByteStr}
    (h : ∀ id ∈ ids, history.blockIdsAfter id maxChainLength
      = .ok (continuation history maxChainLength id)) :
    findExtension history maxChainLength ids
      = .ok ((ids.find? fun id => continuation history maxChainLength id ≠ []).map fun id =>
          (id, continuation history maxChainLength id)) := by
  induction ids with
  | nil => rfl
  | cons id ids ih =>
      rw [findExtension, h id List.mem_cons_self, ok_bind, List.find?_cons]
      by_cases hempty : continuation history maxChainLength id = []
      · rw [if_neg (not_not.mpr hempty), ih fun id' hid => h id' (List.mem_cons_of_mem id hid)]
        simp [hempty]
      · rw [if_pos hempty]
        simp [hempty]

/-- A reply is read by the loader that has asked for it. -/
theorem exchange_of_reply {sigs : List ByteStr}
    (h : HistoryReplier.reply remoteHistory maxChainLength (localHistory.lastBlockIds window)
      = .ok [.write (.signatures sigs)]) :
    exchange localHistory remoteHistory window maxChainLength
      = (ExtensionSignaturesLoader.channelRead ⟨true, localHistory.lastBlockIds window⟩
          (.signatures sigs)).2 := by
  have hreplies : HistoryReplier.channelRead remoteHistory maxChainLength
      (.getSignatures (localHistory.lastBlockIds window)) = [.write (.signatures sigs)] := by
    rw [HistoryReplier.channelRead, h]
  have hrequest : ExtensionSignaturesLoader.idle.write
      (.loadBlockchainExtension (localHistory.lastBlockIds window))
        = (⟨true, localHistory.lastBlockIds window⟩,
          [.write (.getSignatures (localHistory.lastBlockIds window))]) := rfl
  have hwritten : written [.write (.getSignatures (localHistory.lastBlockIds window))]
      = [.getSignatures (localHistory.lastBlockIds window)] := rfl
  rw [exchange, hrequest, hwritten, List.flatMap_singleton, hreplies]
  exact List.append_nil _

/-- Without a reply nothing happens. -/
theorem exchange_of_silence
    (h : HistoryReplier.reply remoteHistory maxChainLength (localHistory.lastBlockIds window)
      = .ok []) : exchange localHistory remoteHistory window maxChainLength = [] := by
  have hreplies : HistoryReplier.channelRead remoteHistory maxChainLength
      (.getSignatures (localHistory.lastBlockIds window)) = [] := by
    rw [HistoryReplier.channelRead, h]
  have hrequest : ExtensionSignaturesLoader.idle.write
      (.loadBlockchainExtension (localHistory.lastBlockIds window))
        = (⟨true, localHistory.lastBlockIds window⟩,
          [.write (.getSignatures (localHistory.lastBlockIds window))]) := rfl
  have hwritten : written [.write (.getSignatures (localHistory.lastBlockIds window))]
      = [.getSignatures (localHistory.lastBlockIds window)] := rfl
  rw [exchange, hrequest, hwritten, List.flatMap_singleton, hreplies]
  rfl

/-- The loader takes the identifiers it knows off the front of a reply. -/
theorem channelRead_signatures {known ids unknown : List ByteStr} {last : ByteStr}
    (hknown : ∀ id ∈ ids, id ∈ known) (hunknown : ∀ id ∈ unknown, id ∉ known)
    (hlast : ids.getLast? = some last) :
    (ExtensionSignaturesLoader.channelRead ⟨true, known⟩ (.signatures (ids ++ unknown))).2
      = [.fireChannelRead (.extensionIds ⟨last, unknown⟩)] := by
  have hpos : ∀ id ∈ ids, decide (id ∈ known) = true := fun id hid => decide_eq_true (hknown id hid)
  have htake : unknown.takeWhile (· ∈ known) = [] := by
    cases unknown with
    | nil => rfl
    | cons id unknown =>
        rw [List.takeWhile_cons, if_neg]
        rw [decide_eq_true_eq]
        exact hunknown id List.mem_cons_self
  have hdrop : unknown.dropWhile (· ∈ known) = unknown := by
    cases unknown with
    | nil => rfl
    | cons id unknown =>
        rw [List.dropWhile_cons, if_neg]
        rw [decide_eq_true_eq]
        exact hunknown id List.mem_cons_self
  rw [ExtensionSignaturesLoader.channelRead]
  dsimp only
  rw [List.takeWhile_append_of_pos hpos, List.dropWhile_append_of_pos hpos, htake, hdrop,
    List.append_nil, hlast]
  rfl

/-- Two nodes that hold chains with a first part in common.  The remote one is at least as high, and
the last of the common blocks is within the window of the local one. -/
structure Peers (localHistory remoteHistory : History) (window maxChainLength : Int32)
    (localBlocks remoteBlocks common upper remoteUpper : List Block) : Prop where
  forks : Forks localBlocks remoteBlocks common upper remoteUpper
  holds_local : localHistory.Holds localBlocks
  holds_remote : remoteHistory.Holds remoteBlocks
  common_ne : common ≠ []
  higher : localBlocks.length ≤ remoteBlocks.length
  height : remoteBlocks.length < 2147483648
  window_pos : 1 ≤ window.toInt
  length_pos : 1 ≤ maxChainLength.toInt
  within : upper.length < window.toInt

/-- The exchange finds the last common block and the remote blocks that follow it, as many as a reply
may have: some if there are any, and none that is known here. -/
structure Exchanged (localHistory remoteHistory : History) (window maxChainLength : Int32)
    (common remoteUpper : List Block) : Prop where
  answer : ∃ last, common.getLast? = some last ∧
    exchange localHistory remoteHistory window maxChainLength
      = [.fireChannelRead (.extensionIds ⟨last.uniqueId,
          (remoteUpper.take maxChainLength.toInt.toNat).map Block.uniqueId⟩)]
  nonempty : remoteUpper ≠ [] → remoteUpper.take maxChainLength.toInt.toNat ≠ []
  unknown : ∀ b ∈ remoteUpper, localHistory.contains b.uniqueId = false

/-- The height of the lowest block in the window. -/
def lowest (localBlocks : List Block) (window : Int32) : Nat :=
  localBlocks.length - window.toInt.toNat + 1

namespace Peers

open HistoryReplier

variable (h : Peers localHistory remoteHistory window maxChainLength localBlocks remoteBlocks common
  upper remoteUpper)

include h

theorem lowest_le : lowest localBlocks window ≤ common.length := by
  have hlocal := congrArg List.length h.forks.local_eq
  rw [List.length_append] at hlocal
  have hpos := List.length_pos_iff.mpr h.common_ne
  have hwithin := h.within
  rw [lowest]
  omega

theorem drop_local {q : Nat} (hq : q ≤ common.length) :
    localBlocks.drop q = common.drop q ++ upper := by
  rw [h.forks.local_eq, List.drop_append_of_le_length hq]

theorem common_le : common.length ≤ remoteBlocks.length := by
  rw [h.forks.remote_eq, List.length_append]
  exact Nat.le_add_right _ _

/-- What the local node asks with: the identifiers of its blocks from the lowest one on. -/
theorem lastBlockIds : localHistory.lastBlockIds window
    = ((localBlocks.drop (lowest localBlocks window - 1)).map Block.uniqueId).reverse :=
  h.holds_local.lastBlockIds (Nat.lt_of_le_of_lt h.higher h.height) h.window_pos

/-- A common block is found at its height on both sides. -/
theorem getElem?_common {i : Nat} {b : Block} (hb : common[i]? = some b) :
    localBlocks[i]? = some b ∧ remoteBlocks[i]? = some b := by
  have hi := (List.getElem?_eq_some_iff.mp hb).1
  rw [h.forks.local_eq, h.forks.remote_eq, List.getElem?_append_left hi,
    List.getElem?_append_left hi]
  exact ⟨hb, hb⟩

/-- A block here is a common one at the same position, or one that the other side does not have. -/
theorem getElem?_local {i : Nat} {b : Block} (hb : localBlocks[i]? = some b) :
    common[i]? = some b ∨ b ∈ upper := by
  rw [h.forks.local_eq] at hb
  by_cases hi : i < common.length
  · rw [List.getElem?_append_left hi] at hb
    exact .inl hb
  · rw [List.getElem?_append_right (Nat.not_lt.mp hi)] at hb
    exact .inr (List.mem_of_getElem? hb)

/-- What the remote history continues a common block with. -/
theorem blockIdsAfter_common {i : Nat} {b : Block} (hb : common[i]? = some b) :
    remoteHistory.blockIdsAfter b.uniqueId maxChainLength
      = .ok (if i + 1 + maxChainLength.toInt < 2147483648 then
          ((remoteBlocks.drop (i + 1)).take maxChainLength.toInt.toNat).map Block.uniqueId
        else []) :=
  h.holds_remote.blockIdsAfter h.height (h.getElem?_common hb).2 h.length_pos

theorem continuation_common {i : Nat} {b : Block} (hb : common[i]? = some b) :
    continuation remoteHistory maxChainLength b.uniqueId
      = if i + 1 + maxChainLength.toInt < 2147483648 then
          ((remoteBlocks.drop (i + 1)).take maxChainLength.toInt.toNat).map Block.uniqueId
        else [] := by
  rw [continuation, h.blockIdsAfter_common hb]
  rfl

/-- A common block that the remote history does not continue. -/
theorem of_continuation_nil {i : Nat} {b : Block} (hb : common[i]? = some b)
    (hnil : continuation remoteHistory maxChainLength b.uniqueId = []) :
    remoteBlocks.length ≤ i + 1 ∨ 2147483648 ≤ i + 1 + maxChainLength.toInt := by
  have hpos := h.length_pos
  rw [h.continuation_common hb] at hnil
  split at hnil
  · have hlength := congrArg List.length hnil
    rw [List.length_map, List.length_take, List.length_drop, List.length_nil] at hlength
    omega
  · omega

theorem blockIdsAfter_upper {b : Block} (hb : b ∈ upper) :
    remoteHistory.blockIdsAfter b.uniqueId maxChainLength = .ok [] :=
  h.holds_remote.blockIdsAfter_of_notMem (h.forks.upper_notMem b hb) _

/-- The remote history answers for every identifier of the window. -/
theorem blockIdsAfter_ok : ∀ id ∈ localHistory.lastBlockIds window,
    remoteHistory.blockIdsAfter id maxChainLength
      = .ok (continuation remoteHistory maxChainLength id) := by
  intro id hid
  rw [h.lastBlockIds, List.mem_reverse, List.mem_map] at hid
  obtain ⟨b, hb, rfl⟩ := hid
  have hb := List.mem_of_mem_drop hb
  rw [h.forks.local_eq] at hb
  obtain hcommon | hupper := List.mem_append.mp hb
  · obtain ⟨i, hi⟩ := List.getElem?_of_mem hcommon
    rw [continuation, h.blockIdsAfter_common hi]
    rfl
  · rw [continuation, h.blockIdsAfter_upper hupper]
    rfl

theorem unknown : ∀ b ∈ remoteUpper, localHistory.contains b.uniqueId = false := by
  intro b hb
  rw [History.contains, Option.isSome_eq_false_iff, Option.isNone_iff_eq_none,
    Option.eq_none_iff_forall_ne_some]
  intro k hk
  obtain ⟨i, b', -, hb', heq⟩ := h.holds_local.stores.known _ k hk
  refine h.forks.remoteUpper_notMem b hb ?_
  rw [← heq]
  exact List.mem_map_of_mem (List.mem_of_getElem? hb')

/-- When the common block at a position is the highest one in the window that can be continued, the
exchange finds the last common block and what follows it. -/
theorem exchange_of_found {i : Nat} {b : Block} (hb : common[i]? = some b)
    (hlow : lowest localBlocks window ≤ i + 1)
    (hfits : i + 1 + maxChainLength.toInt < 2147483648)
    (hnext : i + 1 < common.length → remoteBlocks.length ≤ i + 2 ∨
      2147483648 ≤ i + 2 + maxChainLength.toInt)
    (hreply : HistoryReplier.reply remoteHistory maxChainLength (localHistory.lastBlockIds window)
      = .ok [.write (.signatures (b.uniqueId ::
          ((remoteBlocks.drop (i + 1)).take maxChainLength.toInt.toNat).map Block.uniqueId))]) :
    Exchanged localHistory remoteHistory window maxChainLength common remoteUpper := by
  have hi : i < common.length := (List.getElem?_eq_some_iff.mp hb).1
  have hpos := h.length_pos
  have hdrop : common.drop i = b :: common.drop (i + 1) := by
    rw [List.drop_eq_getElem_cons hi, (List.getElem?_eq_some_iff.mp hb).2]
  have hremote : remoteBlocks.drop (i + 1) = common.drop (i + 1) ++ remoteUpper := by
    rw [h.forks.remote_eq, List.drop_append_of_le_length hi]
  -- What the reply may hold goes over the common blocks, and only then into the remote ones.
  have htake : (remoteBlocks.drop (i + 1)).take maxChainLength.toInt.toNat
      = common.drop (i + 1) ++ remoteUpper.take maxChainLength.toInt.toNat := by
    have hheight := h.height
    have hlength := congrArg List.length h.forks.remote_eq
    rw [List.length_append] at hlength
    rw [hremote, List.take_append, List.length_drop, List.take_of_length_le]
    · by_cases hlast : i + 1 = common.length
      · have hzero : common.length - (i + 1) = 0 := by omega
        rw [hzero, Nat.sub_zero]
      · -- the reply is long enough for all of the remote blocks, or there are none after these
        have hall := hnext (by omega)
        rw [List.take_of_length_le (by omega), List.take_of_length_le (by omega)]
    · have hall := hnext
      rw [List.length_drop]
      omega
  refine ⟨?_, ?_, h.unknown⟩
  · obtain ⟨last, hlast⟩ : ∃ last, common.getLast? = some last :=
      ⟨_, List.getLast?_eq_some_getLast h.common_ne⟩
    refine ⟨last, hlast, ?_⟩
    have hsplit : b.uniqueId :: ((remoteBlocks.drop (i + 1)).take
        maxChainLength.toInt.toNat).map Block.uniqueId
          = (common.drop i).map Block.uniqueId
            ++ (remoteUpper.take maxChainLength.toInt.toNat).map Block.uniqueId := by
      rw [htake, List.map_append, hdrop, List.map_cons, List.cons_append]
    rw [hsplit] at hreply
    rw [exchange_of_reply hreply]
    refine channelRead_signatures ?_ ?_ ?_
    · intro id hid
      obtain ⟨b', hb', rfl⟩ := List.mem_map.mp hid
      rw [h.lastBlockIds, List.mem_reverse]
      refine List.mem_map_of_mem ?_
      have hdown : lowest localBlocks window - 1 + (i - (lowest localBlocks window - 1)) = i := by
        omega
      rw [h.drop_local (by omega)]
      rw [← hdown, ← List.drop_drop] at hb'
      exact List.mem_append_left _ (List.mem_of_mem_drop hb')
    · intro id hid hwindow
      obtain ⟨b', hb', rfl⟩ := List.mem_map.mp hid
      refine h.forks.remoteUpper_notMem b' (List.mem_of_mem_take hb') ?_
      rw [h.lastBlockIds, List.mem_reverse] at hwindow
      obtain ⟨b'', hb'', heq⟩ := List.mem_map.mp hwindow
      exact heq ▸ List.mem_map_of_mem (List.mem_of_mem_drop hb'')
    · rw [List.getLast?_map, List.getLast?_drop, if_neg (by omega), hlast]
      rfl
  · intro hne hnil
    have hlength := congrArg List.length hnil
    rw [List.length_take, List.length_nil] at hlength
    have := List.length_pos_iff.mpr hne
    omega

/-- The identifier that the search finds is that of the highest common block in the window that the
remote history continues. -/
theorem of_find_eq_some {id : ByteStr}
    (hfound : (localHistory.lastBlockIds window).find?
      (fun id => continuation remoteHistory maxChainLength id ≠ []) = some id) :
    ∃ i b, common[i]? = some b ∧ b.uniqueId = id ∧ lowest localBlocks window ≤ i + 1 ∧
      i + 1 + maxChainLength.toInt < 2147483648 ∧
      (i + 1 < common.length → remoteBlocks.length ≤ i + 2 ∨
        2147483648 ≤ i + 2 + maxChainLength.toInt) := by
  obtain ⟨hne, above, below, hsplit, habove⟩ := List.find?_eq_some_iff_append.mp hfound
  have hne : continuation remoteHistory maxChainLength id ≠ [] := of_decide_eq_true hne
  rw [h.lastBlockIds, List.reverse_eq_iff, List.reverse_append, List.reverse_cons,
    List.append_assoc, List.singleton_append] at hsplit
  obtain ⟨lower, rest, hdrop, -, hrest⟩ := List.map_eq_append_iff.mp hsplit
  obtain ⟨b, higher, rfl, rfl, hhigher⟩ := List.map_eq_cons_iff.mp hrest
  have hlowpos : 1 ≤ lowest localBlocks window := Nat.le_add_left 1 _
  have hget : ∀ j b', (lower ++ b :: higher)[j]? = some b' →
      localBlocks[lowest localBlocks window - 1 + j]? = some b' := by
    intro j b' hj
    rw [← hdrop, List.getElem?_drop] at hj
    exact hj
  have hb := hget lower.length b (by simp)
  have hcommon : common[lowest localBlocks window - 1 + lower.length]? = some b := by
    refine (h.getElem?_local hb).resolve_right fun hupper => hne ?_
    rw [continuation, h.blockIdsAfter_upper hupper]
    rfl
  refine ⟨_, b, hcommon, rfl, by omega, ?_, fun hlast => ?_⟩
  · by_contra hover
    rw [h.continuation_common hcommon, if_neg hover] at hne
    exact hne rfl
  · -- the common block above it is in the window too, and not continued
    obtain ⟨b', hb'⟩ : ∃ b', common[lowest localBlocks window - 1 + lower.length + 1]? = some b' :=
      ⟨_, List.getElem?_eq_getElem hlast⟩
    have hnil : continuation remoteHistory maxChainLength b'.uniqueId = [] := by
      have hlocal := (h.getElem?_common hb').1
      rw [Nat.add_assoc, ← List.getElem?_drop, hdrop, List.getElem?_append_right (by omega),
        Nat.add_sub_cancel_left, List.getElem?_cons_succ] at hlocal
      have hmem : b'.uniqueId ∈ higher.map Block.uniqueId :=
        List.mem_map_of_mem (List.mem_of_getElem? hlocal)
      rw [hhigher, List.mem_reverse] at hmem
      have hfails := habove _ hmem
      simpa using hfails
    exact h.of_continuation_nil hb' hnil

/-- The lowest block in the window. -/
theorem exists_lowest : ∃ b, common[lowest localBlocks window - 1]? = some b ∧
    localHistory.lastBlockIds window
      = ((localBlocks.drop (lowest localBlocks window)).map Block.uniqueId).reverse
        ++ [b.uniqueId] := by
  have hlow := h.lowest_le
  have hlowpos : 1 ≤ lowest localBlocks window := Nat.le_add_left 1 _
  have hlocal := congrArg List.length h.forks.local_eq
  rw [List.length_append] at hlocal
  have hlt : lowest localBlocks window - 1 < common.length := by omega
  have hb : common[lowest localBlocks window - 1]? = some common[lowest localBlocks window - 1] :=
    List.getElem?_eq_getElem hlt
  refine ⟨_, hb, ?_⟩
  have hin : lowest localBlocks window - 1 < localBlocks.length := by omega
  have hget := (List.getElem?_eq_some_iff.mp (h.getElem?_common hb).1).2
  rw [h.lastBlockIds, List.drop_eq_getElem_cons hin, hget, Nat.sub_add_cancel hlowpos,
    List.map_cons, List.reverse_cons]

/-- A window of the one block that is the last one on both sides is answered with that block. -/
theorem exchange_of_equal (hend : lowest localBlocks window = remoteBlocks.length)
    (hfind : findExtension remoteHistory maxChainLength (localHistory.lastBlockIds window)
      = .ok none) :
    Exchanged localHistory remoteHistory window maxChainLength common remoteUpper := by
  have hlow := h.lowest_le
  have hlowpos : 1 ≤ lowest localBlocks window := Nat.le_add_left 1 _
  have hhigher := h.higher
  have hremote := congrArg List.length h.forks.remote_eq
  rw [List.length_append] at hremote
  have hupper : remoteUpper = [] := List.length_eq_zero_iff.mp (by omega)
  have hlength : common.length = lowest localBlocks window := by omega
  obtain ⟨b, hb, hids⟩ := h.exists_lowest
  rw [List.drop_eq_nil_of_le (by omega), List.map_nil, List.reverse_nil, List.nil_append] at hids
  have hlast : common.getLast? = some b := by
    rw [List.getLast?_eq_getElem?, hlength]
    exact hb
  have hreply : reply remoteHistory maxChainLength (localHistory.lastBlockIds window)
      = .ok [.write (.signatures ([b.uniqueId] ++ []))] := by
    rw [hids] at hfind
    simp only [reply, hids, hfind, ok_bind, h.holds_remote.stores.lastBlock]
    rw [h.forks.remote_eq, hupper, List.append_nil, hlast]
    simp [getOrRaise]
  refine ⟨⟨b, hlast, ?_⟩, fun hne => absurd hupper hne, h.unknown⟩
  rw [exchange_of_reply hreply, hids, hupper]
  rw [List.take_nil, List.map_nil]
  have hoverlap : ∀ id ∈ [b.uniqueId], id ∈ [b.uniqueId] := fun _ hid => hid
  exact channelRead_signatures hoverlap (fun _ hid => absurd hid List.not_mem_nil) rfl

/-- When nothing in the window is continued and its lowest block is not the last one on the other
side, there is no reply. -/
theorem reply_eq_nil (hend : lowest localBlocks window ≠ remoteBlocks.length)
    (hfind : findExtension remoteHistory maxChainLength (localHistory.lastBlockIds window)
      = .ok none) :
    reply remoteHistory maxChainLength (localHistory.lastBlockIds window) = .ok [] := by
  have hlowpos : 1 ≤ lowest localBlocks window := Nat.le_add_left 1 _
  obtain ⟨b, hb, hids⟩ := h.exists_lowest
  have hnotlast : ∀ last, remoteBlocks.getLast? = some last → b.uniqueId ≠ last.uniqueId := by
    intro last hlast heq
    rw [List.getLast?_eq_getElem?] at hlast
    have hlow := h.holds_remote.named _ b (h.getElem?_common hb).2
    have hhigh := h.holds_remote.named _ last hlast
    rw [heq, hhigh, Option.some.injEq] at hlow
    have hpos := List.length_pos_iff.mpr h.common_ne
    have hcommon := h.common_le
    omega
  have hne : remoteBlocks ≠ [] := by
    intro hnil
    have hcommon := h.common_le
    have hpos := List.length_pos_iff.mpr h.common_ne
    rw [hnil, List.length_nil] at hcommon
    omega
  have hlast := List.getLast?_eq_some_getLast hne
  rw [hids] at hfind ⊢
  simp only [reply, hfind, ok_bind]
  cases habove : ((localBlocks.drop (lowest localBlocks window)).map Block.uniqueId).reverse with
  | nil =>
      simp only [List.nil_append, h.holds_remote.stores.lastBlock, hlast, ok_bind, getOrRaise]
      exact if_neg (hnotlast _ hlast)
  | cons id above =>
      cases above with
      | nil => rfl
      | cons id' above => rfl

/-- The exchange comes out as it should if and only if the reply to the lowest block in the window
would not reach beyond the numbers of thirty-two bits, or that block is the last one there. -/
theorem exchange_iff :
    Exchanged localHistory remoteHistory window maxChainLength common remoteUpper ↔
      lowest localBlocks window = remoteBlocks.length ∨
        lowest localBlocks window + maxChainLength.toInt < 2147483648 := by
  have hlow := h.lowest_le
  have hcommon := h.common_le
  have hpos := h.length_pos
  have hlowpos : 1 ≤ lowest localBlocks window := Nat.le_add_left 1 _
  have hfind := HistoryReplier.findExtension_eq h.blockIdsAfter_ok
  -- The replier answers with the first identifier, from the top of the window down, that it can
  -- continue.
  cases hfound : (localHistory.lastBlockIds window).find? fun id =>
      continuation remoteHistory maxChainLength id ≠ [] with
  | some id =>
      obtain ⟨i, b, hb, rfl, hi, hfits, hnext⟩ := h.of_find_eq_some hfound
      refine iff_of_true (h.exchange_of_found hb hi hfits hnext ?_) (.inr (by omega))
      simp only [HistoryReplier.reply, hfind, hfound, Option.map_some, ok_bind]
      rw [h.continuation_common hb, if_pos hfits]
  | none =>
      rw [hfound, Option.map_none] at hfind
      by_cases hend : lowest localBlocks window = remoteBlocks.length
      · exact iff_of_true (h.exchange_of_equal hend hfind) (.inl hend)
      · obtain ⟨b, hb, hids⟩ := h.exists_lowest
        have hnil : continuation remoteHistory maxChainLength b.uniqueId = [] := by
          have hmem : b.uniqueId ∈ localHistory.lastBlockIds window := by
            rw [hids]
            exact List.mem_append_right _ List.mem_cons_self
          simpa using List.find?_eq_none.mp hfound _ hmem
        have hover := h.of_continuation_nil hb hnil
        refine iff_of_false (fun hexchanged => ?_) (by omega)
        obtain ⟨last, -, hanswer⟩ := hexchanged.answer
        rw [exchange_of_silence (h.reply_eq_nil hend hfind)] at hanswer
        exact List.cons_ne_nil _ _ hanswer.symm

end Peers

end Platform

namespace Sample

/-- The history of a node that has taken another second block. -/
def otherHistory : History :=
  firstNode.history.push otherBlock (okOr otherBlock.bytes [])
    (chainScore [genesisBlock] + otherBlock.blockScore)

theorem otherHistory_scored : otherHistory.Scored [genesisBlock, otherBlock] :=
  firstNode_scored.push (by decide +kernel) (by decide)

/-- Two nodes with the first block in common, of a window of two blocks and replies of two. -/
theorem forkedPeers : Peers otherHistory thirdNode.history 2 2 [genesisBlock, otherBlock]
    [genesisBlock, secondBlock, rewardBlock] [genesisBlock] [otherBlock]
    [secondBlock, rewardBlock] where
  forks := ⟨rfl, rfl, by decide, by decide⟩
  holds_local := otherHistory_scored.holds
  holds_remote := thirdNode_scored.holds
  common_ne := List.cons_ne_nil _ _
  higher := by decide
  height := by decide
  window_pos := by decide
  length_pos := by decide
  within := by decide

/-- The node learns of the two blocks that follow the first one on the other side. -/
theorem forkedPeers_exchanged :
    Exchanged otherHistory thirdNode.history 2 2 [genesisBlock] [secondBlock, rewardBlock] :=
  forkedPeers.exchange_iff.mpr (.inr (by decide))

/-- A node with the first block and one with the second, whose replies may be of any length. -/
theorem boundlessPeers : Peers firstNode.history secondNode.history 1 2147483647 [genesisBlock]
    [genesisBlock, secondBlock] [genesisBlock] [] [secondBlock] where
  forks := ⟨rfl, rfl, by decide, by decide⟩
  holds_local := firstNode_scored.holds
  holds_remote := secondNode_scored.holds
  common_ne := List.cons_ne_nil _ _
  higher := by decide
  height := by decide
  window_pos := by decide
  length_pos := by decide
  within := by decide

/-- The height a reply could reach overflows, and the request is never answered. -/
theorem boundlessPeers_silent :
    Peers firstNode.history secondNode.history 1 2147483647 [genesisBlock]
      [genesisBlock, secondBlock] [genesisBlock] [] [secondBlock] ∧
    exchange firstNode.history secondNode.history 1 2147483647 = [] ∧
    ¬Exchanged firstNode.history secondNode.history 1 2147483647 [genesisBlock] [secondBlock] := by
  have hsilent : exchange firstNode.history secondNode.history 1 2147483647 = [] := by
    decide +kernel
  refine ⟨boundlessPeers, hsilent, fun hexchanged => ?_⟩
  obtain ⟨last, -, hanswer⟩ := hexchanged.answer
  rw [hsilent] at hanswer
  exact List.cons_ne_nil _ _ hanswer.symm

end Sample

end Vsys
