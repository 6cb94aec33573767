import Vsys.Chain.Stored

/-!
# Pages of transactions

A state is a stack of diffs, some written to disk and some in memory.  The pages of its listings are
pages of one list: the listings of the diffs one after the other, newest first.  A listing by type
leaves out what has been written while the setting for it was off.
-/

namespace Vsys

open Lib CompositeStateReader

section Platform

variable [Platform]

/-- A diff of a state, and whether listings by type take it in. -/
structure Layer where
  diff : BlockDiff
  listedByType : Bool

namespace Layer

/-- What a layer adds to a listing. -/
def ids (layer : Layer) (txType : Option TransactionType) (a : Address) : List ByteStr :=
  if txType = none ∨ layer.listedByType = true then layer.diff.txsDiff.ids txType a else []

/-- What the layers list, newest first. -/
def listed (layers : List Layer) (txType : Option TransactionType) (a : Address) : List ByteStr :=
  layers.flatMap fun layer => layer.ids txType a

/-- The transactions of an account in all layers, newest first. -/
def allIds (layers : List Layer) (txType : Option TransactionType) (a : Address) : List ByteStr :=
  layers.flatMap fun layer => layer.diff.txsDiff.ids txType a

/-- The diffs of the layers, combined. -/
def combined : List Layer → BlockDiff
  | [] => BlockDiff.empty
  | layer :: layers => (combined layers).combine layer.diff

end Layer

/-- The states on disk, with the diffs written to them, newest first. -/
inductive WrittenBy (fs : FunctionalitySettings) : StateStorage → List Layer → Prop
  | empty : WrittenBy fs StateStorage.empty []
  | write {p : StateStorage} {layers : List Layer} (ss : StateSettings) (d : BlockDiff)
      (hp : WrittenBy fs p layers)
      (hd : BlockDiffer.Produces (fun _ => True) fs (StateReaderImpl.reader p).toStateView d) :
      WrittenBy fs (StateWriterImpl.applyBlockDiff ss p d)
        (⟨d, ss.txTypeAccountTxIds⟩ :: layers)

/-- The states on disk with diffs over them, newest first. -/
inductive LayeredBy (fs : FunctionalitySettings) : StateReader → List Layer → Prop
  | disk {p : StateStorage} {layers : List Layer} (hp : WrittenBy fs p layers) :
      LayeredBy fs (StateReaderImpl.reader p) layers
  | stack {r : StateReader} {layers : List Layer} (d : BlockDiff) (hr : LayeredBy fs r layers)
      (hd : BlockDiffer.Produces (fun _ => True) fs r.toStateView d) :
      LayeredBy fs (reader r d) (⟨d, true⟩ :: layers)

section Pages

variable {fs : FunctionalitySettings} {p : StateStorage} {r : StateReader} {layers : List Layer}
  {s s' : StateView} {d : BlockDiff} {txType : Option TransactionType} {a : Address}

theorem Layer.listed_eq_allIds
    (h : txType = none ∨ ∀ layer ∈ layers, layer.listedByType = true) :
    listed layers txType a = allIds layers txType a := by
  refine List.flatMap_congr fun layer hlayer => if_pos ?_
  obtain hnone | hall := h
  · exact .inl hnone
  · exact .inr (hall layer hlayer)

theorem WrittenBy.storedState (h : WrittenBy fs p layers) : StoredState (fun _ => True) fs p := by
  induction h with
  | empty => exact .empty
  | write ss d hp hd ih => exact .write ss _ d ih hd

/-- A state on disk lists what has been written to it. -/
theorem WrittenBy.lists (h : WrittenBy fs p layers) (txType : Option TransactionType) (a : Address) :
    (StateReaderImpl.reader p).Lists Nonnegative txType a (Layer.listed layers txType a) := by
  induction h with
  | empty =>
      obtain ⟨l, hl⟩ := initialState_reliable.lists txType a
      have hlength := hl.length
      have hzero : initialState.idsLength txType a = 0 := by
        cases txType with
        | none => rfl
        | some txType => rfl
      obtain rfl : l = [] := List.eq_nil_of_length_eq_zero (hlength.symm.trans hzero)
      exact hl
  | @write p layers ss d hp hd ih =>
      have hnumbered := hp.storedState.writable.numbered
      -- the pages of a listing tell its list
      have hsame {l : List ByteStr}
          (hl : (StateReaderImpl.reader p).Lists Nonnegative txType a l) :
          l = Layer.listed layers txType a :=
        eq_of_page fun limit offset hlimit hoffset =>
          (hl.page limit offset ⟨hlimit, hoffset⟩).symm.trans
            (ih.page limit offset ⟨hlimit, hoffset⟩)
      rw [Layer.listed, List.flatMap_cons, Layer.ids]
      split
      · rename_i hlisted
        cases txType with
        | none =>
            obtain ⟨l, hl, hwritten⟩ := @StateStorage.Numbered.account_written _ p d ss hnumbered a
            rw [hsame hl] at hwritten
            exact hwritten
        | some txType =>
            obtain hnone | hsettings := hlisted
            · cases hnone
            · obtain ⟨l, hl, hwritten⟩ :=
                hnumbered.lists_written (d := d) hsettings (some txType) a
              rw [hsame hl] at hwritten
              exact hwritten
      · rename_i hlisted
        cases txType with
        | none => exact absurd (.inl rfl) hlisted
        | some txType =>
            obtain ⟨l, hl, hwritten⟩ :=
              hnumbered.txType_kept (d := d) (fun hsettings => hlisted (.inr hsettings)) txType a
            rw [hsame hl] at hwritten
            exact hwritten

/-- A state lists what its layers list. -/
theorem LayeredBy.lists (h : LayeredBy fs r layers) (txType : Option TransactionType) (a : Address) :
    r.Lists Nonnegative txType a (Layer.listed layers txType a) := by
  induction h with
  | disk hp => exact hp.lists txType a
  | stack d hr hd ih =>
      rw [Layer.listed, List.flatMap_cons, Layer.ids, if_pos (.inr rfl)]
      exact lists_reader ih

/-- What the combined diffs of the layers say of a state. -/
structure Layer.Gathered (s : StateView) (layers : List Layer) : Prop where
  height : s.height = (combined layers).heightDiff
  contains : ∀ id, s.containsTransaction id
    = ((combined layers).txsDiff.transactions.lookup id).isSome
  dated : (combined layers).Dated initialState.toStateView
  ids : ∀ txType a, TieEquiv (combined layers).txsDiff.ageKey (allIds layers txType a)
    ((combined layers).txsDiff.ids txType a)

theorem Layer.gathered_empty : Gathered initialState.toStateView [] where
  height := rfl
  contains := fun _ => rfl
  dated :=
    { fresh := fun id t ht => by cases ht
      height := fun id t ht => by cases ht }
  ids := fun txType a => by
    have hnone : (combined []).txsDiff.ids txType a = [] := by
      refine List.eq_nil_iff_forall_not_mem.mpr fun id hid => ?_
      obtain ⟨t, ht, -⟩ := Diff.mem_ids.mp hid
      cases ht
    rw [hnone]
    exact TieEquiv.refl []

/-- A further layer. -/
theorem Layer.Gathered.push (h : Gathered s layers) (hd : d.Dated s) (listedByType : Bool)
    (hheight : s'.height = s.height + d.heightDiff)
    (hcontains : ∀ id, s'.containsTransaction id
      = ((d.txsDiff.transactions.lookup id).isSome || s.containsTransaction id)) :
    Gathered s' (⟨d, listedByType⟩ :: layers) := by
  have hdated : d.Dated (view initialState.toStateView (combined layers)) :=
    { fresh := fun id t ht => by
        rw [view_containsTransaction, ← h.contains, hd.fresh id t ht]
        rfl
      height := fun id t ht => by
        have := hd.height id t ht
        have hview : (view initialState.toStateView (combined layers)).height = s.height := by
          rw [view_height, h.height]
          exact Nat.zero_add _
        omega }
  constructor
  case height => rw [hheight, h.height]; rfl
  case contains =>
    intro id
    rw [hcontains, h.contains, combined, lookup_transactions_combine]
    cases d.txsDiff.transactions.lookup id with
    | none => rfl
    | some t => rfl
  case dated => exact dated_combine h.dated hdated
  case ids =>
    intro txType a
    refine TieEquiv.trans ?_ (ids_combine h.dated hdated).symm
    refine TieEquiv.append (TieEquiv.refl _) ((h.ids txType a).congr fun id hid => ?_)
    -- a transaction of the lower layers is not in the new one
    obtain ⟨t, ht, -⟩ := Diff.mem_ids.mp ((h.ids txType a).1.subset hid)
    have hnone : d.txsDiff.transactions.lookup id = none := by
      cases hnew : d.txsDiff.transactions.lookup id with
      | none => rfl
      | some t' =>
          rw [(lookup_of_dated hdated hnew).1] at ht
          cases ht
    have hcombine : ((combined layers).combine d).txsDiff.transactions.lookup id = some t := by
      rw [lookup_transactions_combine, hnone, ht]
      rfl
    exact (ageKey_of_lookup hcombine).trans (ageKey_of_lookup ht).symm

theorem WrittenBy.gathered (h : WrittenBy fs p layers) :
    Layer.Gathered (StateReaderImpl.reader p).toStateView layers := by
  induction h with
  | empty => exact Layer.gathered_empty
  | @write p layers ss d hp hd ih =>
      obtain ⟨L, hL⟩ := hp.storedState.writable.regular
      exact ih.push (hd.stackable hL).dated _ rfl fun id => StateStorage.known_written

theorem LayeredBy.gathered (h : LayeredBy fs r layers) :
    Layer.Gathered r.toStateView layers ∧ Reachable fs r := by
  induction h with
  | disk hp => exact ⟨hp.gathered, .storage _ hp.storedState⟩
  | stack d hr hd ih =>
      obtain ⟨hgathered, hreachable⟩ := ih
      obtain ⟨L, hL⟩ := hreachable.reliable.view
      exact ⟨hgathered.push (hd.stackable hL).dated true rfl fun id => rfl, .stack _ d hreachable hd⟩

/-- The pages of the listing of an account are those of the listings of all layers one after the
other, which has each transaction of the account once, newest first; pages of one length leave none
out.  Listings by type are complete if nothing has been written with their setting off. -/
theorem LayeredBy.pages (h : LayeredBy fs r layers) (txType : Option TransactionType) (a : Address)
    (hlisted : txType = none ∨ ∀ layer ∈ layers, layer.listedByType = true) :
    (∀ limit offset : Int, 0 ≤ limit → 0 ≤ offset → r.ids txType a limit offset
      = ((Layer.allIds layers txType a).length,
        ((Layer.allIds layers txType a).drop offset.toNat).take limit.toNat)) ∧
    (Layer.allIds layers txType a).Nodup ∧
    (∀ id, id ∈ Layer.allIds layers txType a ↔ ∃ layer ∈ layers, ∃ height tx accounts,
      layer.diff.txsDiff.transactions.lookup id = some (height, tx, accounts) ∧ a ∈ accounts ∧
        ofType txType tx = true) ∧
    (Layer.allIds layers txType a).Pairwise (fun x y =>
      (Layer.combined layers).txsDiff.ageKey x ≤ (Layer.combined layers).txsDiff.ageKey y) ∧
    ∀ limit n : Nat, (List.range n).flatMap (fun k => (r.ids txType a limit (k * limit : Nat)).2)
      = (Layer.allIds layers txType a).take (n * limit) := by
  have hlists := h.lists txType a
  rw [Layer.listed_eq_allIds hlisted] at hlists
  -- Over all layers the list is that of one combined diff, which has no duplicates and is sorted.
  have hids := h.gathered.1.ids txType a
  refine ⟨fun limit offset hlimit hoffset => hlists.page limit offset ⟨hlimit, hoffset⟩,
    hids.1.nodup_iff.mpr Diff.nodup_ids, fun id => ?_, ?_, fun limit n => ?_⟩
  · simp only [Layer.allIds, List.mem_flatMap, Diff.mem_ids, Prod.exists]
  · refine List.pairwise_map.mp ?_
    rw [hids.2]
    exact List.pairwise_map.mpr Diff.sorted_ids
  · rw [← flatMap_page]
    refine List.flatMap_congr fun k _ => ?_
    rw [hlists.page _ _ ⟨Int.natCast_nonneg _, Int.natCast_nonneg _⟩]

end Pages

end Platform

namespace Sample

/-- The first block, written with the setting on or off. -/
def writtenGenesis (ss : StateSettings) : StateStorage :=
  StateWriterImpl.applyBlockDiff ss StateStorage.empty genesisDiff

theorem writtenGenesis_layered (ss : StateSettings) :
    LayeredBy fs (StateReaderImpl.reader (writtenGenesis ss))
      [⟨genesisDiff, ss.txTypeAccountTxIds⟩] :=
  .disk (.write ss genesisDiff .empty (.inl ⟨none, genesisBlock, trivial, fromBlock_genesisBlock⟩))

/-- The first two blocks on disk. -/
def writtenSecond : StateStorage :=
  StateWriterImpl.applyBlockDiff ⟨true⟩ storedGenesis writtenSecondDiff

/-- Another reward. -/
def laterMinting : MintingTransaction := ⟨owner, MintingReward, 2, 3, mintingTransaction.amount_eq⟩

/-- A third block, with another reward. -/
def laterReward : Block :=
  { secondBlock with
    timestamp := 2
    reference := signature 2
    signerData := ⟨key, signature 3⟩
    transactionData := [⟨.success, 0, .minting laterMinting⟩] }

/-- What it changes over the blocks on disk. -/
def laterRewardDiff : BlockDiff :=
  okOr (BlockDiffer.fromBlock fs (StateReaderImpl.reader writtenSecond).toStateView (some 1)
    laterReward) BlockDiff.empty

/-- Two blocks on disk, and one in memory. -/
def rewarded : StateReader :=
  CompositeStateReader.reader (StateReaderImpl.reader writtenSecond) laterRewardDiff

/-- The three blocks are a layer each. -/
def rewardedLayers : List Layer :=
  [⟨laterRewardDiff, true⟩, ⟨writtenSecondDiff, true⟩, ⟨genesisDiff, true⟩]

/-- The state is that of the three layers. -/
theorem rewarded_layered : LayeredBy fs rewarded rewardedLayers :=
  .stack _ (.disk (.write ⟨true⟩ _
      (.write ⟨true⟩ _ .empty (.inl ⟨none, genesisBlock, trivial, fromBlock_genesisBlock⟩))
      (.inl ⟨some 0, secondBlock, trivial, fromBlock_secondBlock⟩)))
    (.inl ⟨some 1, laterReward, trivial, eq_ok_okOr (by decide +kernel)⟩)

/-- Both rewards of the owner are on one page, and on two pages of one transaction each. -/
theorem rewarded_pages :
    rewarded.txTypeAccountTxIds .mintingTransaction owner 2 0
        = (2, [(Transaction.minting laterMinting).id, (Transaction.minting mintingTransaction).id]) ∧
      rewarded.txTypeAccountTxIds .mintingTransaction owner 1 0
        = (2, [(Transaction.minting laterMinting).id]) ∧
      rewarded.txTypeAccountTxIds .mintingTransaction owner 1 1
        = (2, [(Transaction.minting mintingTransaction).id]) := by
  have hpages := rewarded_layered.pages (some .mintingTransaction) owner
    (.inr (List.forall_mem_cons.mpr ⟨rfl, List.forall_mem_cons.mpr
      ⟨rfl, List.forall_mem_singleton.mpr rfl⟩⟩))
  have hall : Layer.allIds rewardedLayers (some .mintingTransaction) owner
      = [(Transaction.minting laterMinting).id, (Transaction.minting mintingTransaction).id] := by
    decide +kernel
  have hpage := hpages.1
  rw [hall] at hpage
  exact ⟨hpage 2 0 (by decide) (by decide), hpage 1 0 (by decide) (by decide),
    hpage 1 1 (by decide) (by decide)⟩

/-- With the setting off it is not, although the state knows it. -/
theorem writtenGenesis_unlisted : ∃ r layers, LayeredBy fs r layers ∧
    r.txTypeAccountTxIds .genesisTransaction owner 10 0
      ≠ ((Layer.allIds layers (some .genesisTransaction) owner).length,
        (Layer.allIds layers (some .genesisTransaction) owner).take 10) :=
  ⟨_, _, writtenGenesis_layered ⟨false⟩, by decide +kernel⟩

end Sample

end Vsys
