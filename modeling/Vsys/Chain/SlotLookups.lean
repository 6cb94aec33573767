import Vsys.Chain.SlotOwners
import Vsys.Lib.Transducer

/-!
# Looking up the slot of a miner

`checkSlot` of the miner looks up the owner of the slot an account is noted for, and raises where the
slot has none.  An account that has been ousted stays noted for its slot, so the lookup stands as
long as nobody releases a slot that somebody else is noted for.
-/

namespace Vsys

open Lib CompositeStateReader

section Platform

variable [Platform]

/-- `checkSlot`, whose left side is a text. -/
def Miner.checkSlot (stateReader : StateView) (account : Address) : Result (Except String Int) :=
  let rejected := s!"Address {account.address} is not in Slot List."
  match stateReader.addressSlot account.address with
  | none => .ok (.error rejected)
  | some slotID => do
      let slotAddress ← getOrRaise .noSuchElement (stateReader.slotAddress slotID)
      .ok (if slotAddress = account.address then .ok slotID else .error rejected)

/-- The owners of the slots, and the slots the accounts are noted for. -/
structure SlotTable where
  owner : Int → Option String
  noted : String → Option Int

namespace SlotTable

/-- No slot is taken. -/
def empty : SlotTable := ⟨fun _ => none, fun _ => none⟩

/-- An account takes a slot; the owner before it stays noted. -/
def take (t : SlotTable) (slot : Int) (address : String) : SlotTable :=
  ⟨Function.update t.owner slot (some address), Function.update t.noted address (some slot)⟩

/-- An account gives its slot back. -/
def release (t : SlotTable) (slot : Int) (address : String) : SlotTable :=
  ⟨Function.update t.owner slot none, Function.update t.noted address none⟩

/-- The table after a transaction of a block. -/
def next (fs : FunctionalitySettings) (t : SlotTable) (p : ProcessedTransaction) : SlotTable :=
  match p.transaction with
  | .genesis tx =>
      match tx.takenSlot fs with
      | some slot => t.take slot tx.recipient.address
      | none => t
  | .contendSlots tx =>
      match tx.proofs.headPublicKey, p.status with
      | .ok sender, .success => t.take tx.slotId.toInt sender.toAddress.address
      | _, _ => t
  | .releaseSlots tx =>
      match tx.proofs.headPublicKey with
      | .ok sender => t.release tx.slotId.toInt sender.toAddress.address
      | .error _ => t
  | _ => t

/-- The step of a run over the transactions of a chain. -/
def step (fs : FunctionalitySettings) (t : SlotTable) (p : ProcessedTransaction) :
    SlotTable × List Unit :=
  (t.next fs p, [])

/-- The table after the transactions of a chain. -/
def after (fs : FunctionalitySettings) (done : List ProcessedTransaction) : SlotTable :=
  Transducer.after (step fs) empty done

/-- Every account is noted for a slot that has an owner. -/
def Owned (t : SlotTable) : Prop :=
  ∀ account : Address, ∀ i, t.noted account.address = some i → (t.owner i).isSome

/-- A transaction that gives back a slot nobody else is noted for, or none. -/
def Uncontested (t : SlotTable) (p : ProcessedTransaction) : Prop :=
  ∀ tx sender, p.transaction = .releaseSlots tx → tx.proofs.headPublicKey = .ok sender →
    ∀ account : Address, t.noted account.address = some tx.slotId.toInt → account = sender.toAddress

variable {fs : FunctionalitySettings} {t : SlotTable} {p : ProcessedTransaction}
  {done : List ProcessedTransaction}

theorem owned_empty : empty.Owned := fun _ _ h => nomatch h

theorem after_concat : after fs (done ++ [p]) = (after fs done).next fs p := by
  rw [after, Transducer.after_append]
  rfl

/-- Taking a slot leaves every account with a slot that has an owner. -/
theorem Owned.take (ht : t.Owned) (slot : Int) (address : String) : (t.take slot address).Owned := by
  intro account i hi
  show (Function.update t.owner slot (some address) i).isSome
  by_cases hslot : i = slot
  · rw [hslot, Function.update_self]
    rfl
  · rw [Function.update_of_ne hslot]
    refine ht account i ?_
    change Function.update t.noted address (some slot) account.address = some i at hi
    by_cases haddress : account.address = address
    · rw [haddress, Function.update_self] at hi
      exact absurd (Option.some.inj hi).symm hslot
    · rwa [Function.update_of_ne haddress] at hi

/-- Giving a slot back leaves the accounts their slots exactly if nobody else is noted for it. -/
theorem owned_release_iff (ht : t.Owned) {slot : Int} {owner : Address} :
    (t.release slot owner.address).Owned ↔
      ∀ account : Address, t.noted account.address = some slot → account = owner := by
  constructor
  · intro h account haccount
    by_contra hne
    have haddress : account.address ≠ owner.address :=
      fun heq => hne (Address.address_injective heq)
    have hnoted : (t.release slot owner.address).noted account.address = some slot := by
      show Function.update t.noted _ none account.address = some slot
      rwa [Function.update_of_ne haddress]
    have howner := h account slot hnoted
    change (Function.update t.owner slot none slot).isSome at howner
    rw [Function.update_self] at howner
    cases howner
  · intro h account i hi
    change Function.update t.noted owner.address none account.address = some i at hi
    by_cases haddress : account.address = owner.address
    · rw [haddress, Function.update_self] at hi
      cases hi
    · rw [Function.update_of_ne haddress] at hi
      have hslot : i ≠ slot := by
        rintro rfl
        exact haddress (congrArg Address.address (h account hi))
      show (Function.update t.owner slot none i).isSome
      rw [Function.update_of_ne hslot]
      exact ht account i hi

/-- A transaction leaves the accounts their slots exactly if it gives back none that somebody else
is noted for. -/
theorem owned_next_iff (ht : t.Owned) : (t.next fs p).Owned ↔ t.Uncontested p := by
  have hother (h : ∀ tx, p.transaction ≠ .releaseSlots tx) : t.Uncontested p :=
    fun tx _ htx => absurd htx (h tx)
  unfold next
  split
  · rename_i tx htx
    refine iff_of_true ?_ (hother fun _ h => by rw [h] at htx; cases htx)
    split
    · exact ht.take _ _
    · exact ht
  · rename_i tx htx
    refine iff_of_true ?_ (hother fun _ h => by rw [h] at htx; cases htx)
    split
    · exact ht.take _ _
    · exact ht
  · rename_i tx htx
    split
    · rename_i sender hsender
      rw [owned_release_iff ht]
      constructor
      · intro h tx' sender' htx' hsender'
        obtain rfl := Transaction.releaseSlots.inj (htx.symm.trans htx')
        obtain rfl := Except.ok.inj (hsender.symm.trans hsender')
        exact h
      · exact fun h => h tx sender htx hsender
    · rename_i e hsender
      refine iff_of_true ht fun tx' sender htx' hsender' => ?_
      obtain rfl := Transaction.releaseSlots.inj (htx.symm.trans htx')
      rw [hsender] at hsender'
      cases hsender'
  · rename_i hrelease
    exact iff_of_true ht (hother fun tx htx => hrelease tx htx)

end SlotTable

/-- A state whose slots are those of a table. -/
structure StateView.HasSlots (s : StateView) (t : SlotTable) : Prop where
  owner : s.slotAddress = t.owner
  noted : s.addressSlot = t.noted

section Replay

variable {fs : FunctionalitySettings} {s : StateView} {t : SlotTable} {p : ProcessedTransaction}
  {done : List ProcessedTransaction} {d : BlockDiff} {height : Nat} {c : Changes}
  {related : Dict Address Bool} {e : Diff} {account : Address}

/-- A diff that changes no slot. -/
theorem StateView.HasSlots.keep (ht : s.HasSlots t) (hids : d.txsDiff.slotids = ∅)
    (hadd : d.txsDiff.addToSlot = ∅) : (view s d).HasSlots t where
  owner := by
    funext i
    rw [view_slotAddress, hids, ← ht.owner]
    rfl
  noted := by
    funext a
    rw [view_addressSlot, hadd, ← ht.noted]
    rfl

/-- A diff that changes one slot. -/
theorem StateView.HasSlots.change (ht : s.HasSlots t) {slot : Int} {address : String}
    {owner : Option String} {noted : Option Int}
    (hids : d.txsDiff.slotids = Finmap.singleton slot owner)
    (hadd : d.txsDiff.addToSlot = Finmap.singleton address noted) :
    (view s d).HasSlots
      ⟨Function.update t.owner slot owner, Function.update t.noted address noted⟩ where
  owner := by
    funext i
    show _ = Function.update t.owner slot owner i
    rw [view_slotAddress, hids, Dict.lookup_singleton, ht.owner, Function.update_apply]
    split
    · rfl
    · rfl
  noted := by
    funext a
    show _ = Function.update t.noted address noted a
    rw [view_addressSlot, hadd, Dict.lookup_singleton, ht.noted, Function.update_apply]
    split
    · rfl
    · rfl

/-- The slots after a transaction whose status is the one of the block are those of the table after
it. -/
theorem TransactionEffect.hasSlots (h : TransactionEffect fs height s p.transaction c related)
    (hstatus : c.txStatus = p.status) (ht : s.HasSlots t) (hids : d.txsDiff.slotids = c.slotids)
    (hadd : d.txsDiff.addToSlot = c.addToSlot) : (view s d).HasSlots (t.next fs p) := by
  unfold SlotTable.next
  generalize p.transaction = tx at h
  cases h with
  | genesis g hheight hslot =>
      have hnone : g.takenSlot fs = none := if_neg hslot
      simp only [hnone]
      exact ht.keep hids hadd
  | genesisSlot g hheight hslot =>
      have hsome : g.takenSlot fs = some g.slotId.toInt := if_pos hslot
      simp only [hsome]
      exact ht.change hids hadd
  | contendFailed tx sender hsender =>
      have hfailed : p.status = .contendFailed := hstatus.symm
      simp only [hsender, hfailed]
      exact ht.keep hids hadd
  | contendSlots tx sender hsender hfree hvalid =>
      have hsuccess : p.status = .success := hstatus.symm
      simp only [hsender, hsuccess]
      exact ht.change hids hadd
  | releaseSlots tx sender hsender hslot henough hvalid =>
      simp only [hsender]
      exact ht.change hids hadd
  | _ => exact ht.keep hids hadd

/-- The slots of a state on the way are those of the table after the transactions behind it. -/
theorem slotTable_invariant (fs : FunctionalitySettings) :
    ChainInvariant fs fun done s => s.HasSlots (SlotTable.after fs done) where
  empty := ⟨rfl, rfl⟩
  transaction := fun _ hs h => by
    obtain ⟨-, ⟨c, related, heffect, rfl⟩, -⟩ := h.applies
    rw [SlotTable.after_concat]
    exact heffect.hasSlots h.status hs rfl rfl
  block := fun _ _ hs => ⟨hs.owner, hs.noted⟩
  write := fun ss hp hd hs => by
    have hwritten := StateStorage.view_eq_written_except ss hp.sound hd.stackable.fits
      hd.issuedAssets
    constructor
    case owner =>
      rw [← hs.owner, ← hwritten]
    case noted =>
      rw [← hs.noted, ← hwritten]

/-- The lookup of a miner raises exactly where its account is noted for a slot without an owner. -/
theorem Miner.checkSlot_defined_iff :
    (∃ answer, Miner.checkSlot s account = .ok answer) ↔
      ∀ i, s.addressSlot account.address = some i → (s.slotAddress i).isSome := by
  unfold Miner.checkSlot
  cases hnoted : s.addressSlot account.address with
  | none => exact iff_of_true ⟨_, rfl⟩ fun i hi => nomatch hi
  | some slot =>
      dsimp only
      cases howner : s.slotAddress slot with
      | none =>
          refine iff_of_false ?_ fun h => ?_
          · rintro ⟨answer, h⟩
            cases h
          · have hsome := h slot rfl
            rw [howner] at hsome
            cases hsome
      | some owner =>
          refine iff_of_true ⟨_, rfl⟩ fun i hi => ?_
          obtain rfl := Option.some.inj hi
          rw [howner]
          rfl

theorem StateView.HasSlots.owned_iff (ht : s.HasSlots t) :
    t.Owned ↔ ∀ account, ∃ answer, Miner.checkSlot s account = .ok answer := by
  simp only [Miner.checkSlot_defined_iff, ht.owner, ht.noted]
  rfl

/-- Some transactions of the next block lead to a state on the way. -/
theorem StateOf.passed {blocks : List Block} {r : StateReader} {prev : Option Int64}
    {timestamp : Int64} {txs upTo : List ProcessedTransaction} {d : Diff} (hr : StateOf fs blocks r)
    (hd : txs.foldlM (BlockDiffer.txStep fs r.toStateView prev timestamp (r.height + 1))
      Diff.empty = .ok d) (hupTo : upTo <+: txs) :
    ∃ s', Passed fs (transactionsOf blocks ++ upTo) s' := by
  obtain ⟨rest, rfl⟩ := hupTo
  obtain ⟨d', hd', -⟩ := foldlM_append_eq_ok_iff.mp hd
  exact ⟨_, .intro blocks r hr prev timestamp upTo d' hd'⟩

/-- Each beginning of the transactions of a chain leads to a state on the way. -/
theorem StateOf.beginning {blocks : List Block} {r : StateReader} (h : StateOf fs blocks r)
    {before : List ProcessedTransaction} (hbefore : before <+: transactionsOf blocks) :
    ∃ s', Passed fs before s' := by
  refine StateOf.blockwise (P := fun blocks _ => ∀ before, before <+: transactionsOf blocks →
    ∃ s', Passed fs before s') ?_ ?_ (fun _ _ _ hs => hs) h before hbefore
  · intro before hnone
    rw [List.prefix_nil.mp hnone]
    exact ⟨_, .intro [] _ .empty none 0 [] Diff.empty rfl⟩
  · intro blocks r b prev d hr hs hd before hbefore
    obtain ⟨diff, -, hfold, -, -⟩ := BlockDiffer.fromBlock_eq_ok hd
    rw [transactionsOf, List.flatMap_append, List.flatMap_singleton] at hbefore
    obtain ⟨rest, hrest⟩ := hbefore
    obtain ⟨upTo, hupTo, -⟩ | ⟨upTo, rfl, hupTo⟩ := List.append_eq_append_iff.mp hrest
    · exact hs before ⟨upTo, hupTo.symm⟩
    · exact hr.passed hfold ⟨rest, hupTo.symm⟩

/-- Each beginning of the transactions behind a state on the way leads to such a state, too. -/
theorem Passed.beginning (h : Passed fs done s) {before : List ProcessedTransaction}
    (hbefore : before <+: done) : ∃ s', Passed fs before s' := by
  cases h with
  | intro blocks r hr prev timestamp txs d hd =>
      obtain ⟨rest, hrest⟩ := hbefore
      obtain ⟨upTo, hupTo, -⟩ | ⟨upTo, rfl, hupTo⟩ := List.append_eq_append_iff.mp hrest
      · exact hr.beginning ⟨upTo, hupTo.symm⟩
      · exact hr.passed hd ⟨rest, hupTo.symm⟩

/-- Along a chain the miner can look up the slot of every account in every state on the way exactly
if no account gives back a slot that another one is noted for. -/
theorem Passed.checkSlot_iff (h : Passed fs done s) :
    (∀ before s', before <+: done → Passed fs before s' →
      ∀ account, ∃ answer, Miner.checkSlot s' account = .ok answer) ↔
      Transducer.Along (SlotTable.step fs) SlotTable.Uncontested SlotTable.empty done := by
  have howned : (∀ before, before <+: done → (SlotTable.after fs before).Owned) ↔
      Transducer.Along (SlotTable.step fs) SlotTable.Uncontested SlotTable.empty done :=
    -- The table follows from the transactions alone, and it stays owned as long as no step
    -- contests it.
    Transducer.forall_prefix_iff (R := fun _ _ => True) (I := fun _ => True)
      (Transducer.along_of_forall fun _ _ => trivial) (fun _ _ _ h => h) (fun _ _ _ _ ht => SlotTable.owned_next_iff ht)
      trivial SlotTable.owned_empty
  rw [← howned]
  constructor
  · intro hlookups before hbefore
    obtain ⟨s', hs'⟩ := h.beginning hbefore
    exact ((slotTable_invariant fs).passed hs').owned_iff.mpr (hlookups before s' hbefore hs')
  · intro htables before s' hbefore hs'
    exact ((slotTable_invariant fs).passed hs').owned_iff.mp (htables before hbefore)

end Replay

end Platform

namespace Sample

/-- The effect of the two transactions. -/
def oustingDiff : Diff :=
  okOr ([contending, releasing].foldlM (BlockDiffer.txStep seatSettings afterSeats.1.toStateView
    afterSeats.2 1 (afterSeats.1.height + 1)) Diff.empty) Diff.empty

/-- The state after the challenger has taken the first slot and given it back. -/
def afterOusting : StateView :=
  CompositeStateReader.view afterSeats.1.toStateView oustingDiff.asBlockDiff

/-- What the two transactions evaluate to: the account that has been ousted is still noted for the
slot, which has no owner, and its lookup raises. -/
theorem ousting_evaluates :
    ([contending, releasing].foldlM (BlockDiffer.txStep seatSettings afterSeats.1.toStateView
      afterSeats.2 1 (afterSeats.1.height + 1)) Diff.empty).isOk = true ∧
    Miner.checkSlot afterOusting (seatAccount 0) = raise .noSuchElement := by
  decide +kernel

theorem afterOusting_passed :
    Passed seatSettings (seatsBlock.transactionData ++ [contending, releasing]) afterOusting :=
  .intro [seatsBlock] _ (.of_replay replay_seatsBlock) afterSeats.2 1 [contending, releasing] _
    (eq_ok_okOr ousting_evaluates.1)

/-- A chain on which the lookup of a miner raises. -/
theorem checkSlot_raises : ∃ done s account, Passed seatSettings done s ∧
    Miner.checkSlot s account = raise .noSuchElement :=
  ⟨_, _, _, afterOusting_passed, ousting_evaluates.2⟩

/-- On that chain a slot is given back for which somebody else is noted. -/
theorem ousting_contested : ¬ Transducer.Along (SlotTable.step seatSettings) SlotTable.Uncontested
    SlotTable.empty (seatsBlock.transactionData ++ [contending, releasing]) := by
  intro h
  obtain ⟨answer, hanswer⟩ := afterOusting_passed.checkSlot_iff.mpr h _ _ List.prefix_rfl
    afterOusting_passed (seatAccount 0)
  rw [ousting_evaluates.2] at hanswer
  cases hanswer

end Sample

end Vsys
