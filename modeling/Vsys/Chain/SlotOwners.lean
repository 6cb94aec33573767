import Vsys.Chain.Invariants
import Vsys.Sample

/-!
# Slots and their owners

Along a chain whose genesis transactions take slots of their own for accounts of their own, an
account has one slot at most, the number of slots that are taken is the one the state tells, a slot
is contended for only where there is one, and releasing slots leaves enough of them.
-/

namespace Vsys

open Lib CompositeStateReader

section Platform

variable [Platform]

/-- The genesis transactions take slots of their own, for accounts of their own. -/
def GenesisDistinct (fs : FunctionalitySettings) (done : List ProcessedTransaction) : Prop :=
  done.Pairwise fun p q => ∀ g g', p.transaction = .genesis g → q.transaction = .genesis g' →
    ∀ i j, g.takenSlot fs = some i → g'.takenSlot fs = some j →
      i ≠ j ∧ g.recipient ≠ g'.recipient

/-- The slot that a genesis transaction takes, and the account it takes it for. -/
def ProcessedTransaction.seatTaken (fs : FunctionalitySettings) (p : ProcessedTransaction) :
    Option (Int × Address) :=
  match p.transaction with
  | .genesis g => (g.takenSlot fs).map fun i => (i, g.recipient)
  | _ => none

/-- Genesis transactions are distinct if the slots they take and the accounts with them are. -/
theorem genesisDistinct_of_seatTaken {fs : FunctionalitySettings} {done : List ProcessedTransaction}
    (h : (done.filterMap (ProcessedTransaction.seatTaken fs)).Pairwise
      fun x y => x.1 ≠ y.1 ∧ x.2 ≠ y.2) : GenesisDistinct fs done := by
  refine (List.pairwise_filterMap.mp h).imp fun hpair g g' hg hg' i j hi hj => ?_
  refine hpair (i, g.recipient) ?_ (j, g'.recipient) ?_
  · simp only [ProcessedTransaction.seatTaken, hg, hi, Option.map_some]
  · simp only [ProcessedTransaction.seatTaken, hg', hj, Option.map_some]

/-- No balance of an account has been seen in a block. -/
def StateView.Unseen (s : StateView) : Prop :=
  ∀ a, s.lastUpdateHeight a = none ∧ s.lastUpdateWeightedBalance a = none

section Unseen

variable {fs : FunctionalitySettings} {s : StateView} {a : Address} {height : Nat} {d : Diff}

/-- An account that has not been seen has nothing to mint with. -/
theorem SPoSCalc.mintingBalance_unseen (hs : s.Unseen) (ha : 0 ≤ s.effectiveBalance a)
    (hheight : height ≠ 0) {gen : Int64} (h : mintingBalance s fs a height = .ok gen) :
    gen = 0 := by
  obtain ⟨hlast, hweighted⟩ := hs a
  obtain ⟨least, hleast, h⟩ := bind_eq_ok_iff.mp h
  have hzero : least = 0 := by
    obtain ⟨snapshots, hsnapshots, hleast⟩ := bind_eq_ok_iff.mp hleast
    rw [StateView.snapshotsToMin, hlast] at hsnapshots
    obtain rfl := Except.ok.inj hsnapshots
    exact (Except.ok.inj hleast).symm
  rw [hlast, hweighted, Option.getD_none, Option.getD_none, if_neg (Ne.symm hheight),
    weightedBalaceCalc] at h
  subst hzero
  dsimp only at h
  split at h
  · cases h
  · have hmin : min 0 (s.effectiveBalance a) = 0 := if_pos ha
    rw [Int64.zero_div, Int64.zero_mul, Int64.zero_mul, Int64.add_zero, hmin] at h
    exact (Except.ok.inj h).symm

/-- Before any account has been seen every contender fails. -/
theorem ContendSlotsTransactionDiff.apply_unseen {tx : ContendSlotsTransaction}
    (hs : s.Unseen) (heffective : ∀ a, 0 ≤ s.effectiveBalance a) (hheight : height ≠ 0)
    (h : apply s fs height tx = .ok d) : d.slotids = ∅ := by
  obtain ⟨sender, -, h⟩ := bind_eq_ok_iff.mp h
  have hgen {a : Address} {gen : Int64} (h : SPoSCalc.mintingBalance s fs a height = .ok gen) :
      gen = 0 := SPoSCalc.mintingBalance_unseen hs (heffective a) hheight h
  simp only at h
  split_ifs at h
  · cases h
  · rw [← Except.ok.inj h]
    rfl
  · obtain ⟨contendGen, hcontend, h⟩ := bind_eq_ok_iff.mp h
    obtain rfl := hgen hcontend
    split at h
    · split at h
      · obtain ⟨gen, hslot, h⟩ := bind_eq_ok_iff.mp h
        obtain rfl := hgen hslot
        rw [← Except.ok.inj h]
        rfl
      · rw [← Except.ok.inj h]
        rfl
      · cases h
    · rw [← Except.ok.inj h]
      rfl
  · cases h
  · cases h

/-- The same of a contender the next block accepts. -/
theorem Accepted.contend_unseen {p : ProcessedTransaction} {tx : ContendSlotsTransaction}
    (h : Accepted fs s p d) (htx : p.transaction = .contendSlots tx) (hs : s.Unseen)
    (heffective : ∀ a, 0 ≤ s.effectiveBalance a) : d.slotids = ∅ := by
  obtain ⟨prev, timestamp, happly⟩ := h.applied
  exact ContendSlotsTransactionDiff.apply_unseen hs heffective (Nat.succ_ne_zero _)
    (htx ▸ (TransactionDiffer.apply_eq_ok_iff.mp happly).2.1)

end Unseen

/-- Both indices of the slots and their number agree, and the slots of the first block are those its
genesis transactions take. -/
structure SlotBook (fs : FunctionalitySettings) (done : List ProcessedTransaction)
    (s : StateView) : Prop where
  linked : s.Linked
  counted : ∃ slots, s.Occupies slots ∧ s.effectiveSlotAddressSize = slots.card
  first : s.height = 0 → ∀ i a, s.slotAddress i = some a →
    ∃ p ∈ done, ∃ g, p.transaction = .genesis g ∧ g.takenSlot fs = some i ∧
      a = g.recipient.address
  unseen : s.height = 0 → s.Unseen
  effective : ∀ a, 0 ≤ s.effectiveBalance a
  taken : ∀ p ∈ done, ∀ tx, p.transaction = .contendSlots tx → p.status = .success →
    isValidSlotID fs tx.slotId.toInt = true

section Book

variable {fs : FunctionalitySettings} {done : List ProcessedTransaction} {s : StateView}
  {L : Finset LeaseTransaction} {p : ProcessedTransaction} {e : Diff} {height : Nat}
  {tx : Transaction}

/-- Where the owner of a slot comes from. -/
theorem SlotChange.source {d : BlockDiff}
    (h : SlotChange fs height s tx d.txsDiff.slotids d.txsDiff.addToSlot d.txsDiff.slotNum)
    {i : Int} {a : String} (ha : (view s d).slotAddress i = some a) :
    s.slotAddress i = some a ∨
      (∃ g, tx = .genesis g ∧ g.takenSlot fs = some i ∧ a = g.recipient.address) ∨
      ∃ g, tx = .contendSlots g ∧ d.txsDiff.slotids ≠ ∅ := by
  rw [view_slotAddress] at ha
  generalize d.txsDiff.slotids = slotids at h ha ⊢
  generalize d.txsDiff.addToSlot = addToSlot at h
  generalize d.txsDiff.slotNum = slotNum at h
  cases h with
  | keep =>
      rw [Finmap.lookup_empty] at ha
      exact .inl ha
  | genesis g slot hheight hslot =>
      rw [Dict.lookup_singleton] at ha
      split at ha
      · rename_i hi
        exact .inr (.inl ⟨g, rfl, hi ▸ hslot, (Option.some.inj ha).symm⟩)
      · exact .inl ha
  | take g account hfree hvalid =>
      exact .inr (.inr ⟨g, rfl, Dict.singleton_ne_empty _ _⟩)
  | release g account hslot henough hvalid =>
      rw [Dict.lookup_singleton] at ha
      split at ha
      · cases ha
      · exact .inl ha

theorem slotBook_initial : SlotBook fs [] initialState.toStateView where
  linked := ⟨fun i a h => (by cases h), fun i a h => (by cases h)⟩
  counted := ⟨∅, fun i => by simp [initialState, StateReaderImpl.reader, StateStorage.empty], rfl⟩
  first := fun _ i a h => by cases h
  unseen := fun _ a => ⟨rfl, rfl⟩
  effective := fun _ => (by decide : (0 : Int64) ≤ Portfolio.empty.effectiveBalance)
  taken := fun p hp => absurd hp List.not_mem_nil

/-- The slot a genesis transaction takes is free, and so is the account it takes it for. -/
theorem SlotBook.fresh (hs : SlotBook fs done s) (hdistinct : GenesisDistinct fs (done ++ [p]))
    (hfirst : s.height = 0) {g : GenesisTransaction} {slot : Int}
    (hg : p.transaction = .genesis g) (hslot : g.takenSlot fs = some slot) :
    s.slotAddress slot = none ∧ ∀ i, s.slotAddress i ≠ some g.recipient.address := by
  have hcross := (List.pairwise_append.mp hdistinct).2.2
  constructor
  · rw [Option.eq_none_iff_forall_ne_some]
    intro a ha
    obtain ⟨q, hq, g', hg', hslot', -⟩ := hs.first hfirst slot a ha
    exact (hcross q hq p List.mem_cons_self g' g hg' hg slot slot hslot' hslot).1 rfl
  · intro i hi
    obtain ⟨q, hq, g', hg', hslot', haddress⟩ := hs.first hfirst i _ hi
    exact (hcross q hq p List.mem_cons_self g' g hg' hg i slot hslot' hslot).2
      (Address.address_injective haddress).symm

/-- A transaction on states whose slots are in order. -/
theorem SlotBook.transaction (hs : SlotBook fs done s)
    (hdistinct : GenesisDistinct fs (done ++ [p])) (h : Accepted fs s p e) :
    SlotBook fs (done ++ [p]) (view s e.asBlockDiff) := by
  have heffective := h.effectiveBalance_nonneg hs.effective
  obtain ⟨-, ⟨c, related, heffect, rfl⟩, -⟩ := h.applies
  have hchange := heffect.slotChange
  have hfresh : ∀ g slot, p.transaction = .genesis g → g.takenSlot fs = some slot →
      s.slotAddress slot = none ∧ ∀ i, s.slotAddress i ≠ some g.recipient.address :=
    fun g slot hg hslot =>
      hs.fresh hdistinct (Nat.succ_injective (heffect.height_of_genesis hg)) hg hslot
  constructor
  case linked =>
    exact SlotChange.linked (d := (Diff.apply (s.height + 1) p.transaction c related).asBlockDiff)
      hs.linked hchange hfresh
  case counted =>
    obtain ⟨slots, hslots, hcard⟩ := hs.counted
    obtain ⟨slots', hslots', hcard', -⟩ := SlotChange.occupies
      (d := (Diff.apply (s.height + 1) p.transaction c related).asBlockDiff) hslots hchange
      fun g slot hg hslot hmem => by
        have hsome := (hslots slot).mp hmem
        rw [(hfresh g slot hg hslot).1] at hsome
        cases hsome
    refine ⟨slots', hslots', ?_⟩
    rw [hcard', ← hcard]
    rfl
  case first =>
    intro hheight i a ha
    obtain hold | ⟨g, hg, hslot, haddress⟩ | ⟨g, hg, hslots⟩ := SlotChange.source
      (d := (Diff.apply (s.height + 1) p.transaction c related).asBlockDiff) hchange ha
    · obtain ⟨q, hq, g, hg, hslot, haddress⟩ := hs.first hheight i a hold
      exact ⟨q, List.mem_append_left _ hq, g, hg, hslot, haddress⟩
    · exact ⟨p, List.mem_append_right _ List.mem_cons_self, g, hg, hslot, haddress⟩
    -- In the first block no account has a snapshot yet, and none can contend.
    · exact absurd (h.contend_unseen hg (hs.unseen hheight) hs.effective) hslots
  case unseen =>
    intro hheight a
    obtain ⟨hlast, hweighted⟩ := hs.unseen hheight a
    exact ⟨by simpa [view, Diff.asBlockDiff] using hlast,
      by simpa [view, Diff.asBlockDiff] using hweighted⟩
  case effective => exact heffective
  case taken =>
    intro q hq tx htx hstatus
    obtain hq | hq := List.mem_append.mp hq
    · exact hs.taken q hq tx htx hstatus
    · obtain rfl := List.mem_singleton.mp hq
      have hclaimed := h.status
      rw [hstatus] at hclaimed
      generalize q.transaction = transaction at heffect htx
      subst htx
      cases heffect with
      | contendFailed tx sender hsender => cases hclaimed
      | contendSlots tx sender hsender hfree hvalid => exact hvalid

/-- A state with the same slots and portfolios, that counts its slots right. -/
theorem SlotBook.congr {s' : StateView} (hs : SlotBook fs done s)
    (hslot : s'.slotAddress = s.slotAddress) (haddress : s'.addressSlot = s.addressSlot)
    (hportfolio : s'.accountPortfolio = s.accountPortfolio)
    (hcounted : ∃ slots, s'.Occupies slots ∧ s'.effectiveSlotAddressSize = slots.card)
    (hheight : s'.height = 0 → s.height = 0 ∧ s'.Unseen) : SlotBook fs done s' where
  linked := by
    constructor
    case owner =>
      rw [hslot]
      exact hs.linked.owner
    case slot =>
      rw [hslot, haddress]
      exact hs.linked.slot
  counted := hcounted
  first := fun hfirst => by
    rw [hslot]
    exact hs.first (hheight hfirst).1
  unseen := fun hfirst => (hheight hfirst).2
  effective := fun a => by
    rw [StateView.effectiveBalance, hportfolio]
    exact hs.effective a
  taken := hs.taken

/-- The slots of a chain are in order. -/
theorem slotBook_invariant (fs : FunctionalitySettings) :
    ChainInvariant fs fun done s => GenesisDistinct fs done → SlotBook fs done s where
  empty := fun _ => slotBook_initial
  transaction := fun _ hs haccepted hdistinct =>
    (hs (List.pairwise_append.mp hdistinct).1).transaction hdistinct haccepted
  block := fun _ _ hs hdistinct =>
    (hs hdistinct).congr rfl rfl rfl (hs hdistinct).counted
      fun hheight => absurd hheight (Nat.succ_ne_zero _)
  write := fun {L done p d} ss hp hd hs hdistinct => by
    have hwritten := StateStorage.view_eq_written_except ss hp.sound hd.stackable.fits
      hd.issuedAssets
    refine (hs hdistinct).congr ?_ ?_ ?_ ⟨_, fun i => Dict.mem_keys_iff_isSome, rfl⟩
      fun hheight => ⟨?_, ?_⟩
    · rw [← hwritten]
    · rw [← hwritten]
    · rw [← hwritten]
    · rwa [← hwritten] at hheight
    · have hunseen : (view (StateReaderImpl.reader p).toStateView d).Unseen :=
        (hs hdistinct).unseen (by rwa [← hwritten] at hheight)
      rw [← hwritten]
      exact hunseen

theorem isValidSlotID_iff {slotId : Int} :
    isValidSlotID fs slotId = true ↔
      slotId < fs.numOfSlots ∧ 0 ≤ slotId ∧ slotId.tmod SlotGap = 0 :=
  decide_eq_true_iff

/-- In every state on the way of a chain whose genesis transactions take slots of their own for
accounts of their own, the owner of a slot has that slot, the slots that are taken are counted, only
slots there are have been contended for, and a release leaves enough of them. -/
theorem Passed.slots (h : Passed fs done s) (hdistinct : GenesisDistinct fs done) :
    (∀ i a, s.slotAddress i = some a → s.addressSlot a = some i) ∧
    (∃ slots : Finset Int, (∀ i, i ∈ slots ↔ (s.slotAddress i).isSome) ∧
      s.effectiveSlotAddressSize = slots.card) ∧
    (∀ p ∈ done, ∀ tx, p.transaction = .contendSlots tx → p.status = .success →
      tx.slotId.toInt < fs.numOfSlots ∧ 0 ≤ tx.slotId.toInt ∧
        tx.slotId.toInt.tmod SlotGap = 0) ∧
    ∀ p e tx, p.transaction = .releaseSlots tx → Accepted fs s p e →
      ∃ slots : Finset Int, (∀ i, i ∈ slots ↔ ((view s e.asBlockDiff).slotAddress i).isSome) ∧
        MinimalSlotNumber ≤ slots.card := by
  have hbook : SlotBook fs done s := (slotBook_invariant fs).passed h hdistinct
  refine ⟨hbook.linked.slot, hbook.counted,
    fun p hp tx htx hstatus => isValidSlotID_iff.mp (hbook.taken p hp tx htx hstatus),
    fun p e tx htx haccepted => ?_⟩
  obtain ⟨slots, hslots, hcard⟩ := hbook.counted
  obtain ⟨-, ⟨c, related, heffect, rfl⟩, -⟩ := haccepted.applies
  have hchange := heffect.slotChange
  obtain ⟨slots', hslots', hcard', -⟩ := SlotChange.occupies
    (d := (Diff.apply (s.height + 1) p.transaction c related).asBlockDiff) hslots hchange
    fun g slot hg => by
      rw [htx] at hg
      cases hg
  refine ⟨slots', hslots', ?_⟩
  have hnum : (Diff.apply (s.height + 1) p.transaction c related).slotNum = c.slotNum := rfl
  rw [hcard', ← hcard]
  generalize p.transaction = transaction at heffect htx
  subst htx
  -- The source asks for more occupied slots than the minimum before it takes one off.
  cases heffect with
  | releaseSlots tx sender hsender hslot henough hvalid =>
      show MinimalSlotNumber ≤ s.effectiveSlotAddressSize + -1
      omega

end Book

end Platform

namespace Sample

/-- Twelve slots. -/
def seatSettings : FunctionalitySettings := ⟨12, 1, 0⟩

/-- The account of a slot from the start. -/
def seatAccount (i : Nat) : Address := Address.fromPublicKey (List.replicate 32 (BigEndian.ofUnsigned i))

theorem no_coins : 0 ≤ (0 : Int64) := by
  decide

/-- The genesis transaction of an account with a slot. -/
def seat (i : Nat) : ProcessedTransaction :=
  ⟨.success, 0, .genesis ⟨seatAccount i, 0, Int32.ofNat i, 0, no_coins⟩⟩

/-- An account without a slot. -/
def challengerKey : PublicKeyAccount := ⟨List.replicate 32 100⟩

theorem many_coins : 0 ≤ (200000000000000 : Int64) := by
  decide

/-- The coins the challenger starts with. -/
def stake : ProcessedTransaction :=
  ⟨.success, 0, .genesis ⟨challengerKey.toAddress, 200000000000000, -1, 0, many_coins⟩⟩

/-- Eleven accounts with a slot each, and the challenger. -/
def seatsBlock : Block :=
  ⟨0, 1, signature 0, ⟨key, signature 1⟩, ⟨0, 0⟩, (List.range 11).map seat ++ [stake]⟩

/-- The proof of the challenger. -/
def challengerProofs : Proofs := ⟨[⟨challengerKey, [], rfl⟩], by decide, by decide⟩

/-- The challenger takes the first slot. -/
def contending : ProcessedTransaction :=
  ⟨.success, 100, .contendSlots ⟨⟨0, 100, 100, 1, challengerProofs, fee_pos, feeScale_eq,
    by decide⟩⟩⟩

/-- The challenger gives it back. -/
def releasing : ProcessedTransaction :=
  ⟨.success, 100, .releaseSlots ⟨⟨0, 100, 100, 2, challengerProofs, fee_pos, feeScale_eq,
    by decide⟩⟩⟩

/-- The state after the first block. -/
def afterSeats : StateReader × Option Int64 :=
  okOr (replayStep seatSettings (initialState, none) seatsBlock) (initialState, none)

/-- The effect of the first of the two transactions. -/
def contendingDiff : Diff :=
  okOr ([contending].foldlM (BlockDiffer.txStep seatSettings afterSeats.1.toStateView afterSeats.2 1
    (afterSeats.1.height + 1)) Diff.empty) Diff.empty

/-- The state after the challenger has taken the first slot. -/
def afterContending : StateView := view afterSeats.1.toStateView contendingDiff.asBlockDiff

/-- The effect of the release. -/
def releasingDiff : Diff :=
  okOr (TransactionDiffer.apply seatSettings afterSeats.2 1 (afterContending.height + 1)
    afterContending releasing.transaction) Diff.empty

/-- What the block and the two transactions evaluate to. -/
theorem seats_evaluate :
    (replayStep seatSettings (initialState, none) seatsBlock).isOk = true ∧
    ([contending].foldlM (BlockDiffer.txStep seatSettings afterSeats.1.toStateView afterSeats.2 1
      (afterSeats.1.height + 1)) Diff.empty).isOk = true ∧
    afterContending.slotAddress 0 = some challengerKey.toAddress.address ∧
    (TransactionDiffer.apply seatSettings afterSeats.2 1 (afterContending.height + 1)
      afterContending releasing.transaction).isOk = true ∧
    releasingDiff.chargedFee = releasing.feeCharged ∧
    releasingDiff.txStatus = releasing.status := by
  decide +kernel

theorem replay_seatsBlock : replay seatSettings [seatsBlock] = .ok afterSeats :=
  foldlM_cons_eq_ok_iff.mpr ⟨_, eq_ok_okOr seats_evaluate.1, rfl⟩

theorem afterContending_passed :
    Passed seatSettings (seatsBlock.transactionData ++ [contending]) afterContending :=
  .intro [seatsBlock] _ (.of_replay replay_seatsBlock) afterSeats.2 1 [contending] _
    (eq_ok_okOr seats_evaluate.2.1)

/-- The accounts with a slot from the start are different, and so are their slots. -/
theorem seats_distinct :
    GenesisDistinct seatSettings (seatsBlock.transactionData ++ [contending]) :=
  genesisDistinct_of_seatTaken (by decide +kernel)

/-- The release is accepted. -/
theorem releasing_accepted : Accepted seatSettings afterContending releasing releasingDiff where
  applied := ⟨afterSeats.2, 1, eq_ok_okOr seats_evaluate.2.2.2.1⟩
  fee := seats_evaluate.2.2.2.2.1
  status := seats_evaluate.2.2.2.2.2

/-- The challenger has the slot it won, the slots are counted, and enough of them are left when it
gives the slot back. -/
theorem afterContending_slots :
    afterContending.slotAddress 0 = some challengerKey.toAddress.address ∧
    afterContending.addressSlot challengerKey.toAddress.address = some 0 ∧
    (∃ slots : Finset Int, (∀ i, i ∈ slots ↔ (afterContending.slotAddress i).isSome) ∧
      afterContending.effectiveSlotAddressSize = slots.card) ∧
    ∃ slots : Finset Int,
      (∀ i, i ∈ slots ↔ ((view afterContending releasingDiff.asBlockDiff).slotAddress i).isSome) ∧
        MinimalSlotNumber ≤ slots.card := by
  have howner := seats_evaluate.2.2.1
  obtain ⟨hslot, hcounted, -, hreleased⟩ := afterContending_passed.slots seats_distinct
  exact ⟨howner, hslot _ _ howner, hcounted, hreleased releasing _ _ rfl releasing_accepted⟩

end Sample

end Vsys
