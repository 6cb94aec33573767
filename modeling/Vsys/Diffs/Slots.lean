import Vsys.Diffs.Effects
import Vsys.State.Stacking

/-!
# Slots

A transaction takes one slot for an account, gives one back, or leaves the slots alone, and counts
what it does.  The count is right as long as no genesis transaction takes a slot that is taken.
-/

namespace Vsys

open Lib

variable [Platform]

/-- The address of a slot is the address of an account, and has that slot alone. -/
structure StateView.Linked (s : StateView) : Prop where
  owner : ∀ i a, s.slotAddress i = some a → ∃ account : Address, a = account.address
  slot : ∀ i a, s.slotAddress i = some a → s.addressSlot a = some i

/-- The slot a genesis transaction takes. -/
def GenesisTransaction.takenSlot (fs : FunctionalitySettings) (tx : GenesisTransaction) :
    Option Int :=
  if tx.slotId.toInt < fs.numOfSlots ∧ 0 ≤ tx.slotId.toInt then some tx.slotId.toInt else none

/-- The slot a transaction takes, if it takes one. -/
def Transaction.takenSlot (fs : FunctionalitySettings) : Transaction → Option Int
  | .genesis tx => tx.takenSlot fs
  | .contendSlots tx => some tx.slotId.toInt
  | _ => none

/-- What a transaction can do to the slots of a state. -/
inductive SlotChange (fs : FunctionalitySettings) (height : Nat) (s : StateView) :
    Transaction → Dict Int (Option String) → Dict String (Option Int) → Int → Prop
  | keep (tx : Transaction) : SlotChange fs height s tx ∅ ∅ 0
  | genesis (tx : GenesisTransaction) (slot : Int) (hheight : height = 1)
      (hslot : tx.takenSlot fs = some slot) :
      SlotChange fs height s (.genesis tx) (Finmap.singleton slot (some tx.recipient.address))
        (Finmap.singleton tx.recipient.address (some slot)) 1
  | take (tx : ContendSlotsTransaction) (account : Address)
      (hfree : s.addressSlot account.address = none)
      (hvalid : isValidSlotID fs tx.slotId.toInt = true) :
      SlotChange fs height s (.contendSlots tx)
        (Finmap.singleton tx.slotId.toInt (some account.address))
        (Finmap.singleton account.address (some tx.slotId.toInt))
        (if (s.slotAddress tx.slotId.toInt).isSome then 0 else 1)
  | release (tx : ReleaseSlotsTransaction) (account : Address)
      (hslot : s.slotAddress tx.slotId.toInt = some account.address)
      (henough : MinimalSlotNumber < s.effectiveSlotAddressSize)
      (hvalid : isValidSlotID fs tx.slotId.toInt = true) :
      SlotChange fs height s (.releaseSlots tx) (Finmap.singleton tx.slotId.toInt none)
        (Finmap.singleton account.address none) (-1)

section Change

variable {fs : FunctionalitySettings} {height : Nat} {s : StateView} {tx : Transaction}
  {c : Changes} {related : Dict Address Bool} {d : BlockDiff} {slots : Finset Int}

theorem TransactionEffect.slotChange (h : TransactionEffect fs height s tx c related) :
    SlotChange fs height s tx c.slotids c.addToSlot c.slotNum := by
  cases h with
  | genesisSlot tx hheight hslot => exact .genesis tx _ hheight (if_pos hslot)
  | contendSlots tx sender hsender hfree hvalid => exact .take tx sender.toAddress hfree hvalid
  | releaseSlots tx sender hsender hslot henough hvalid =>
      exact .release tx sender.toAddress hslot henough hvalid
  | _ => exact .keep _

theorem CompositeStateReader.view_slotAddress (i : Int) :
    (view s d).slotAddress i = (d.txsDiff.slotids.lookup i).getD (s.slotAddress i) := rfl

theorem CompositeStateReader.view_addressSlot (a : String) :
    (view s d).addressSlot a = (d.txsDiff.addToSlot.lookup a).getD (s.addressSlot a) := rfl

/-- The slots after a transaction: their number changes by what the transaction counts, and a slot
that is new is the one the transaction takes. -/
theorem SlotChange.occupies (hs : s.Occupies slots)
    (h : SlotChange fs height s tx d.txsDiff.slotids d.txsDiff.addToSlot d.txsDiff.slotNum)
    (hfresh : ∀ g slot, tx = .genesis g → g.takenSlot fs = some slot → slot ∉ slots) :
    ∃ slots', (CompositeStateReader.view s d).Occupies slots' ∧
      (slots'.card : Int) = slots.card + d.txsDiff.slotNum ∧
      ∀ i ∈ slots', i ∈ slots ∨ tx.takenSlot fs = some i := by
  generalize hids : d.txsDiff.slotids = slotids at h
  generalize hadd : d.txsDiff.addToSlot = addToSlot at h
  generalize hnum : d.txsDiff.slotNum = slotNum at h
  have hview (i : Int) : (CompositeStateReader.view s d).slotAddress i
      = (slotids.lookup i).getD (s.slotAddress i) := by
    rw [CompositeStateReader.view_slotAddress, hids]
  cases h with
  | keep =>
      refine ⟨slots, fun i => ?_, by simp, fun i hi => .inl hi⟩
      rw [hview, Finmap.lookup_empty]
      exact hs i
  | genesis g slot hheight hslot =>
      refine ⟨insert slot slots, fun i => ?_, ?_, fun i hi => ?_⟩
      · rw [hview, Dict.lookup_singleton, Finset.mem_insert]
        split
        · simp_all
        · simpa [*] using hs i
      · rw [Finset.card_insert_of_notMem (hfresh g slot rfl hslot)]
        push_cast
        rfl
      · obtain rfl | hold := Finset.mem_insert.mp hi
        · exact .inr hslot
        · exact .inl hold
  | take g account hfree hvalid =>
      refine ⟨insert g.slotId.toInt slots, fun i => ?_, ?_, fun i hi => ?_⟩
      · rw [hview, Dict.lookup_singleton, Finset.mem_insert]
        split
        · simp_all
        · simpa [*] using hs i
      · split
        · rename_i htaken
          -- The slot changes hands, and the source counts it only if it was free.
          rw [Finset.insert_eq_of_mem ((hs _).mpr htaken), Int.add_zero]
        · rename_i htaken
          rw [Finset.card_insert_of_notMem fun hmem => htaken ((hs _).mp hmem)]
          push_cast
          rfl
      · obtain rfl | hold := Finset.mem_insert.mp hi
        · exact .inr rfl
        · exact .inl hold
  | release g account hslot henough hvalid =>
      have hmem : g.slotId.toInt ∈ slots := (hs _).mpr (by rw [hslot]; rfl)
      refine ⟨slots.erase g.slotId.toInt, fun i => ?_, ?_, fun i hi => ?_⟩
      · rw [hview, Dict.lookup_singleton, Finset.mem_erase]
        split
        · simp_all
        · simpa [*] using hs i
      · have hpos := Finset.card_pos.mpr ⟨_, hmem⟩
        rw [Finset.card_erase_of_mem hmem]
        omega
      · exact .inl (Finset.mem_of_mem_erase hi)

/-- The two indices of the slots after a transaction. -/
theorem SlotChange.linked (hs : s.Linked)
    (h : SlotChange fs height s tx d.txsDiff.slotids d.txsDiff.addToSlot d.txsDiff.slotNum)
    (hfresh : ∀ g slot, tx = .genesis g → g.takenSlot fs = some slot →
      s.slotAddress slot = none ∧ ∀ i, s.slotAddress i ≠ some g.recipient.address) :
    (CompositeStateReader.view s d).Linked := by
  generalize hids : d.txsDiff.slotids = slotids at h
  generalize hadd : d.txsDiff.addToSlot = addToSlot at h
  generalize hnum : d.txsDiff.slotNum = slotNum at h
  have hview (i : Int) : (CompositeStateReader.view s d).slotAddress i
      = (slotids.lookup i).getD (s.slotAddress i) := by
    rw [CompositeStateReader.view_slotAddress, hids]
  have hview' (a : String) : (CompositeStateReader.view s d).addressSlot a
      = (addToSlot.lookup a).getD (s.addressSlot a) := by
    rw [CompositeStateReader.view_addressSlot, hadd]
  -- an account that takes a slot has none before
  have htake {slot : Int} {account : Address}
      (hids : slotids = Finmap.singleton slot (some account.address))
      (hadd : addToSlot = Finmap.singleton account.address (some slot))
      (hnone : ∀ i, s.slotAddress i ≠ some account.address) :
      (CompositeStateReader.view s d).Linked := by
    constructor
    case owner =>
      intro i a ha
      rw [hview, hids, Dict.lookup_singleton] at ha
      split at ha
      · exact ⟨account, (Option.some.inj ha).symm⟩
      · exact hs.owner i a ha
    case slot =>
      intro i a ha
      rw [hview, hids, Dict.lookup_singleton] at ha
      rw [hview', hadd, Dict.lookup_singleton]
      split at ha
      · rename_i hi
        rw [if_pos (Option.some.inj ha).symm, hi]
        rfl
      · have hne : a ≠ account.address := by
          rintro rfl
          exact hnone i ha
        rw [if_neg hne]
        exact hs.slot i a ha
  cases h with
  | keep =>
      constructor
      case owner => exact fun i a ha => hs.owner i a (by simpa [hview] using ha)
      case slot =>
        intro i a ha
        rw [hview', Finmap.lookup_empty]
        exact hs.slot i a (by simpa [hview] using ha)
  | genesis g slot hheight hslot => exact htake rfl rfl (hfresh g slot rfl hslot).2
  | take g account hfree hvalid =>
      refine htake rfl rfl fun i hi => ?_
      rw [hs.slot i _ hi] at hfree
      cases hfree
  | release g account hslot henough hvalid =>
      constructor
      case owner =>
        intro i a ha
        rw [hview, Dict.lookup_singleton] at ha
        split at ha
        · cases ha
        · exact hs.owner i a ha
      case slot =>
        intro i a ha
        rw [hview, Dict.lookup_singleton] at ha
        rw [hview', Dict.lookup_singleton]
        split at ha
        · cases ha
        · rename_i hi
          have hne : a ≠ account.address := by
            rintro rfl
            have hold := hs.slot i _ ha
            rw [hs.slot _ _ hslot] at hold
            exact hi (Option.some.inj hold).symm
          rw [if_neg hne]
          exact hs.slot i a ha

end Change

end Vsys
