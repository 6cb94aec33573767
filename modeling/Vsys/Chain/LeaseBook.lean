import Vsys.Chain.Invariants

/-!
# The leases of a chain

What an account has leased in and out is what the leases of the chain that are still active say, and
a lease is cancelled once at most, by the account it was taken from.
-/

namespace Vsys

open Lib CompositeStateReader

open scoped Ledger

section Platform

variable [Platform]

/-- The leases among some transactions. -/
def leasesOf (done : List ProcessedTransaction) : List LeaseTransaction :=
  done.filterMap fun p =>
    match p.transaction with
    | .lease tx => some tx
    | _ => none

/-- The cancellations among some transactions. -/
def cancelsOf (done : List ProcessedTransaction) : List LeaseCancelTransaction :=
  done.filterMap fun p =>
    match p.transaction with
    | .leaseCancel tx => some tx
    | _ => none

/-- A cancellation is signed by the sender of a lease. -/
def LeaseCancelTransaction.SignedAs (c : LeaseCancelTransaction) (l : LeaseTransaction) : Prop :=
  ∃ sender, l.proofs.headPublicKey = .ok sender ∧ c.proofs.headPublicKey = .ok sender

/-- The running leases of a state are the active ones of the transactions behind it, and every
cancellation among these has stopped a lease of its own. -/
structure LeaseBook (done : List ProcessedTransaction) (s : StateView)
    (L : Finset LeaseTransaction) : Prop where
  regular : s.Regular L
  running : ∀ l, l ∈ L ↔ l ∈ leasesOf done ∧ s.isLeaseActive l = true
  known : ∀ p ∈ done, s.containsTransaction p.transaction.id = true
  unique : (done.map fun p => p.transaction.id).Nodup
  cancelled : ∀ c ∈ cancelsOf done, ∃ l ∈ leasesOf done, (Transaction.lease l).id = c.leaseId ∧
    c.SignedAs l ∧ s.isLeaseActive l = false
  once : ((cancelsOf done).map LeaseCancelTransaction.leaseId).Nodup

section Lists

variable {done : List ProcessedTransaction} {p : ProcessedTransaction} {l : LeaseTransaction}
  {c : LeaseCancelTransaction}

theorem mem_leasesOf : l ∈ leasesOf done ↔ ∃ p ∈ done, p.transaction = .lease l := by
  rw [leasesOf, List.mem_filterMap]
  refine exists_congr fun p => and_congr_right fun _ => ?_
  constructor
  · intro h
    split at h
    · rename_i tx htx
      rw [htx, Option.some.inj h]
    · cases h
  · intro h
    rw [h]

theorem mem_leasesOf_concat :
    l ∈ leasesOf (done ++ [p]) ↔ l ∈ leasesOf done ∨ p.transaction = .lease l := by
  simp only [mem_leasesOf, List.mem_append, List.mem_singleton, or_and_right, exists_or,
    exists_eq_left]

/-- No other transaction adds a cancellation. -/
theorem cancelsOf_concat (h : ∀ c, p.transaction ≠ .leaseCancel c) :
    cancelsOf (done ++ [p]) = cancelsOf done := by
  rw [cancelsOf, List.filterMap_append, List.filterMap_cons_none, List.filterMap_nil,
    List.append_nil]
  · rfl
  · split
    · rename_i tx htx
      exact absurd htx (h tx)
    · rfl

theorem cancelsOf_concat_cancel (h : p.transaction = .leaseCancel c) :
    cancelsOf (done ++ [p]) = cancelsOf done ++ [c] := by
  rw [cancelsOf, List.filterMap_append, List.filterMap_cons_some (by rw [h]), List.filterMap_nil]
  rfl

end Lists

section Effect

variable {fs : FunctionalitySettings} {height : Nat} {s : StateView} {tx : Transaction}
  {c : Changes} {related : Dict Address Bool} {L : Finset LeaseTransaction}

/-- What a transaction does to the activity of leases: a lease is active, a cancellation stops an
active lease of its signer, and no other transaction does anything. -/
inductive ActivityChange (s : StateView) : Transaction → Dict ByteStr Bool → Prop
  | lease (l : LeaseTransaction) :
      ActivityChange s (.lease l) (Finmap.singleton (Transaction.lease l).id true)
  | leaseCancel (x : LeaseCancelTransaction) (l : LeaseTransaction)
      (hlease : s.findLeaseTransaction x.leaseId = .ok (some l))
      (hactive : s.isLeaseActive l = true) (hsigned : x.SignedAs l) :
      ActivityChange s (.leaseCancel x) (Finmap.singleton (Transaction.lease l).id false)
  | keep (tx : Transaction) (hlease : ∀ l, tx ≠ .lease l) (hcancel : ∀ x, tx ≠ .leaseCancel x) :
      ActivityChange s tx ∅

theorem TransactionEffect.activityChange (h : TransactionEffect fs height s tx c related) :
    ActivityChange s tx c.leaseState := by
  cases h with
  | lease l => exact .lease l
  | leaseCancel x l sender recipient hlease hrecipient hactive hlessor hsender =>
      exact .leaseCancel x l hlease hactive ⟨sender, hlessor, hsender⟩
  | _ => exact .keep _ (fun _ h => (by cases h)) fun _ h => (by cases h)

/-- A lease that is found has the identifier it is found under. -/
theorem StateView.Ledger.id_of_find (hs : s.Ledger L) {id : ByteStr} {l : LeaseTransaction}
    (h : s.findLeaseTransaction id = .ok (some l)) : (Transaction.lease l).id = id := by
  obtain ⟨info, hinfo, h⟩ := bind_eq_ok_iff.mp h
  match info, hinfo, h with
  | some (height, ⟨status, fee, .lease tx⟩), hinfo, h =>
      obtain rfl := Option.some.inj (Except.ok.inj h)
      exact hs.named id height status fee tx hinfo

/-- The recipient of a running lease resolves to the account the lease goes to. -/
theorem StateView.Ledger.lessee_iff_resolve (hs : s.Ledger L) {l : LeaseTransaction} (hl : l ∈ L)
    {a : Address} : l.lessee = some a ↔ s.resolveAliasEi l.recipient = .ok a := by
  obtain ⟨-, b, -, hb, -⟩ := hs.parties l hl
  constructor
  · intro ha
    rw [LeaseTransaction.lessee] at ha
    split at ha
    · rename_i recipient hrecipient
      rw [hrecipient, Option.some.inj ha]
      rfl
    · cases ha
  · intro ha
    exact lessee_eq (hs.recipient_of_resolve ha)

end Effect

section Book

variable {fs : FunctionalitySettings} {s s' : StateView} {L : Finset LeaseTransaction}
  {done : List ProcessedTransaction} {p : ProcessedTransaction} {e : Diff}
  {l l' : LeaseTransaction}

theorem view_isLeaseActive {d : BlockDiff} : (view s d).isLeaseActive l
    = (d.txsDiff.leaseState.lookup (Transaction.lease l).id).getD (s.isLeaseActive l) := rfl

/-- The leases of a chain differ in their identifiers. -/
theorem LeaseBook.eq_of_id (hs : LeaseBook done s L) (hl : l ∈ leasesOf done)
    (hl' : l' ∈ leasesOf done) (hid : (Transaction.lease l).id = (Transaction.lease l').id) :
    l = l' := by
  obtain ⟨p, hp, hlease⟩ := mem_leasesOf.mp hl
  obtain ⟨q, hq, hlease'⟩ := mem_leasesOf.mp hl'
  have hpq : p = q := List.inj_on_of_nodup_map hs.unique hp hq (by rw [hlease, hlease', hid])
  subst hpq
  rw [hlease] at hlease'
  exact Transaction.lease.inj hlease'

/-- No lease of the chain has the identifier of a new transaction. -/
theorem LeaseBook.id_ne (hs : LeaseBook done s L) (hl : l ∈ leasesOf done) {tx : Transaction}
    (hnew : s.containsTransaction tx.id = false) : (Transaction.lease l).id ≠ tx.id := by
  intro hid
  obtain ⟨p, hp, hlease⟩ := mem_leasesOf.mp hl
  have hknown := hs.known p hp
  rw [hlease, hid, hnew] at hknown
  cases hknown

/-- The leases that are active after a transaction are those that run on. -/
theorem LeaseBook.running_after (hs : LeaseBook done s L) (h : Accepted fs s p e)
    {L' : Finset LeaseTransaction} (hchange : LeaseChange L p.transaction e.leaseState L')
    (hactivity : ActivityChange s p.transaction e.leaseState) (l : LeaseTransaction) :
    l ∈ L' ↔ l ∈ leasesOf (done ++ [p]) ∧ (view s e.asBlockDiff).isLeaseActive l = true := by
  obtain ⟨hnew, -, -⟩ := h.applies
  rw [mem_leasesOf_concat, view_isLeaseActive]
  change _ ↔ _ ∧ (e.leaseState.lookup _).getD _ = true
  generalize e.leaseState = leaseState at hchange hactivity
  generalize htx : p.transaction = tx at hchange hactivity hnew
  -- What the transaction does to the set of leases, against what it writes on them.
  cases hactivity with
  | lease started =>
      cases hchange with
      | keep hempty => exact absurd hempty (Dict.singleton_ne_empty _ _)
      | start l₀ hl₀ hfresh hstate hparties =>
          obtain rfl := Transaction.lease.inj hl₀
          rw [Finset.mem_insert, Dict.lookup_singleton, Transaction.lease.injEq]
          constructor
          · rintro (rfl | hl)
            · exact ⟨.inr rfl, by rw [if_pos rfl, Option.getD_some]⟩
            · obtain ⟨hl, hactive⟩ := (hs.running l).mp hl
              exact ⟨.inl hl, by rwa [if_neg (hs.id_ne hl hnew), Option.getD_none]⟩
          · rintro ⟨hl | rfl, hactive⟩
            · rw [if_neg (hs.id_ne hl hnew), Option.getD_none] at hactive
              exact .inr ((hs.running l).mpr ⟨hl, hactive⟩)
            · exact .inl rfl
      | stop l₀ hl₀ hstate => cases (Dict.singleton_inj hstate).2
  | leaseCancel x stopped hlease hactive hsigned =>
      have hmem := hs.regular.ledger.mem_of_active hlease hactive
      cases hchange with
      | keep hempty => exact absurd hempty (Dict.singleton_ne_empty _ _)
      | start l₀ hl₀ hfresh hstate hparties => cases hl₀
      | stop l₀ hl₀ hstate =>
          obtain rfl := hs.eq_of_id ((hs.running _).mp hmem).1 ((hs.running _).mp hl₀).1
            (Dict.singleton_inj hstate).1
          rw [Finset.mem_erase, Dict.lookup_singleton, hs.running]
          constructor
          · rintro ⟨hne, hl, hrunning⟩
            refine ⟨.inl hl, ?_⟩
            rw [if_neg fun hid => hne (hs.eq_of_id hl ((hs.running _).mp hmem).1 hid),
              Option.getD_none]
            exact hrunning
          · rintro ⟨hl | hl, hrunning⟩
            · split at hrunning
              · cases hrunning
              · rename_i hne
                exact ⟨fun hsame => hne (by rw [hsame]), hl, hrunning⟩
            · cases hl
  | keep tx hlease hcancel =>
      cases hchange with
      | keep hempty =>
          rw [Finmap.lookup_empty, Option.getD_none, hs.running]
          constructor
          · rintro ⟨hl, hactive⟩
            exact ⟨.inl hl, hactive⟩
          · rintro ⟨hl | hl, hactive⟩
            · exact ⟨hl, hactive⟩
            · exact absurd hl (hlease l)
      | start l₀ hl₀ hfresh hstate hparties => exact absurd hl₀ (hlease l₀)
      | stop l₀ hl₀ hstate => exact absurd hstate.symm (Dict.singleton_ne_empty _ _)

/-- The cancellations after a transaction have each stopped a lease of their own. -/
theorem LeaseBook.cancelled_after (hs : LeaseBook done s L) (h : Accepted fs s p e)
    (hactivity : ActivityChange s p.transaction e.leaseState) :
    (∀ c ∈ cancelsOf (done ++ [p]), ∃ l ∈ leasesOf (done ++ [p]),
      (Transaction.lease l).id = c.leaseId ∧ c.SignedAs l ∧
        (view s e.asBlockDiff).isLeaseActive l = false) ∧
    ((cancelsOf (done ++ [p])).map LeaseCancelTransaction.leaseId).Nodup := by
  obtain ⟨hnew, -, -⟩ := h.applies
  have hview (l : LeaseTransaction) : (view s e.asBlockDiff).isLeaseActive l
      = (e.leaseState.lookup (Transaction.lease l).id).getD (s.isLeaseActive l) := rfl
  -- a lease that is stopped stays so
  have hold (c : LeaseCancelTransaction) (hc : c ∈ cancelsOf done) :
      ∃ l ∈ leasesOf (done ++ [p]), (Transaction.lease l).id = c.leaseId ∧ c.SignedAs l ∧
        (view s e.asBlockDiff).isLeaseActive l = false := by
    obtain ⟨l, hl, hid, hsigned, hstopped⟩ := hs.cancelled c hc
    refine ⟨l, mem_leasesOf_concat.mpr (.inl hl), hid, hsigned, ?_⟩
    rw [hview]
    have hne := hs.id_ne hl hnew
    generalize e.leaseState = leaseState at hactivity
    generalize p.transaction = tx at hactivity hne
    cases hactivity with
    | lease started =>
        rw [Dict.lookup_singleton, if_neg hne]
        exact hstopped
    | leaseCancel x l₀ hlease hactive hx =>
        rw [Dict.lookup_singleton]
        split
        · rfl
        · exact hstopped
    | keep tx hlease hcancel =>
        rw [Finmap.lookup_empty]
        exact hstopped
  generalize hstate : e.leaseState = leaseState at hactivity
  generalize htx : p.transaction = tx at hactivity
  cases hactivity with
  | leaseCancel x l hlease hactive hsigned =>
      have hmem := (hs.running l).mp (hs.regular.ledger.mem_of_active hlease hactive)
      have hid := hs.regular.ledger.id_of_find hlease
      rw [cancelsOf_concat_cancel htx, List.map_append, List.nodup_append]
      refine ⟨fun c hc => ?_, hs.once, List.nodup_singleton _, fun a ha b hb hab => ?_⟩
      · obtain hc | hc := List.mem_append.mp hc
        · exact hold c hc
        · obtain rfl := List.mem_singleton.mp hc
          refine ⟨l, mem_leasesOf_concat.mpr (.inl hmem.1), hid, hsigned, ?_⟩
          rw [hview, hstate, Finmap.lookup_singleton_eq, Option.getD_some]
      · obtain ⟨c, hc, rfl⟩ := List.mem_map.mp ha
        obtain rfl := List.mem_singleton.mp hb
        obtain ⟨l', hl', hid', -, hstopped⟩ := hs.cancelled c hc
        obtain rfl := hs.eq_of_id hl' hmem.1 (hid'.trans (hab.trans hid.symm))
        rw [hactive] at hstopped
        cases hstopped
  | lease started =>
      rw [cancelsOf_concat fun c hc => by rw [htx] at hc; cases hc]
      exact ⟨hold, hs.once⟩
  | keep tx hlease hcancel =>
      rw [cancelsOf_concat fun c hc => hcancel c (htx.symm.trans hc)]
      exact ⟨hold, hs.once⟩

/-- One more transaction. -/
theorem LeaseBook.transaction (hs : LeaseBook done s L) (h : Accepted fs s p e) :
    ∃ L', LeaseBook (done ++ [p]) (view s e.asBlockDiff) L' := by
  obtain ⟨hnew, heffect, hsolvent⟩ := h.applies
  obtain ⟨-, ⟨L', hchange, hregular⟩, -⟩ := heffect.leases hs.regular hnew hsolvent
  obtain ⟨c, related, htransaction, rfl⟩ := heffect
  have hactivity : ActivityChange s p.transaction
      (Diff.apply (s.height + 1) p.transaction c related).leaseState := htransaction.activityChange
  obtain ⟨hcancelled, honce⟩ := hs.cancelled_after h hactivity
  refine ⟨L', hregular, hs.running_after h hchange hactivity, fun q hq => ?_, ?_, hcancelled,
    honce⟩
  · rw [view_containsTransaction, Bool.or_eq_true]
    obtain hq | hq := List.mem_append.mp hq
    · exact .inr (hs.known q hq)
    · refine .inl ?_
      rw [List.mem_singleton.mp hq]
      show ((Finmap.singleton p.transaction.id _ : Dict _ _).lookup p.transaction.id).isSome = true
      rw [Finmap.lookup_singleton_eq]
      rfl
  · rw [List.map_append, List.nodup_append]
    refine ⟨hs.unique, List.nodup_singleton _, fun a ha b hb hab => ?_⟩
    obtain ⟨q, hq, rfl⟩ := List.mem_map.mp ha
    obtain rfl := List.mem_singleton.mp hb
    have hknown := hs.known q hq
    rw [hab, hnew] at hknown
    cases hknown

/-- A state with the same leases and transactions. -/
theorem LeaseBook.congr (hs : LeaseBook done s L) (hregular : s'.Regular L)
    (hactive : s'.isLeaseActive = s.isLeaseActive)
    (hcontains : s'.containsTransaction = s.containsTransaction) : LeaseBook done s' L where
  regular := hregular
  running := by
    rw [hactive]
    exact hs.running
  known := by
    rw [hcontains]
    exact hs.known
  unique := hs.unique
  cancelled := by
    rw [hactive]
    exact hs.cancelled
  once := hs.once

theorem leaseBook_initial : LeaseBook [] initialState.toStateView ∅ where
  regular := initialState_regular
  running := fun l => by simp [leasesOf]
  known := fun p hp => absurd hp List.not_mem_nil
  unique := List.nodup_nil
  cancelled := fun c hc => absurd hc List.not_mem_nil
  once := List.nodup_nil

/-- The leases of a chain are in order. -/
theorem leaseBook_invariant (fs : FunctionalitySettings) :
    ChainInvariant fs fun done s => ∃ L, LeaseBook done s L where
  empty := ⟨∅, leaseBook_initial⟩
  transaction := fun _ ⟨_, hs⟩ h => hs.transaction h
  block := fun hs hsnapshots ⟨L', hbook⟩ =>
    ⟨L', hbook.congr (BlockDiffer.regular_close hs hsnapshots hbook.regular) rfl rfl⟩
  write := fun {L done p d} ss hp hd ⟨L', hbook⟩ => by
    have hwritten := StateStorage.view_eq_written_except ss hp.sound hd.stackable.fits
      hd.issuedAssets
    refine ⟨L', hbook.congr (hp.written hd hbook.regular) ?_ ?_⟩
    · rw [← hwritten]
    · rw [← hwritten]

/-- In every state on the way of a chain, the active leases of the chain are a set that accounts for
what every account has leased in and out, and no lease is cancelled twice, or by another account
than it was taken from. -/
theorem Passed.leases_active (h : Passed fs done s) :
    (∃ L : Finset LeaseTransaction,
      (∀ l, l ∈ L ↔ l ∈ leasesOf done ∧ s.isLeaseActive l = true) ∧
      ∀ a, (s.accountPortfolio a).leaseInfo.leaseOut.toInt
          = ∑ l ∈ L with l.lessor = some a, l.amount.toInt ∧
        (s.accountPortfolio a).leaseInfo.leaseIn.toInt
          = ∑ l ∈ L with s.resolveAliasEi l.recipient = .ok a, l.amount.toInt) ∧
    ((cancelsOf done).map LeaseCancelTransaction.leaseId).Nodup ∧
    ∀ c ∈ cancelsOf done, ∃ l ∈ leasesOf done, (Transaction.lease l).id = c.leaseId ∧
      ∃ sender, l.proofs.headPublicKey = .ok sender ∧ c.proofs.headPublicKey = .ok sender := by
  obtain ⟨L, hbook⟩ := (leaseBook_invariant fs).passed h
  refine ⟨⟨L, hbook.running, fun a => ⟨hbook.regular.ledger.leaseOut a, ?_⟩⟩, hbook.once,
    fun c hc => ?_⟩
  · rw [hbook.regular.ledger.leaseIn a, leasedIn, leased]
    -- An alias of a lessee stays bound to the account that it had when the lease was accepted.
    rw [Finset.filter_congr fun l hl => hbook.regular.ledger.lessee_iff_resolve hl]
  · obtain ⟨l, hl, hid, hsigned, -⟩ := hbook.cancelled c hc
    exact ⟨l, hl, hid, hsigned⟩

end Book

end Platform

namespace Sample

theorem afterLease_passed : Passed fs (genesisBlock.transactionData ++ leasing) afterLease :=
  .intro [genesisBlock] _ (StateOf.of_replay replay_genesisBlock) _ 1 leasing leaseDiff
    foldlM_leasing

/-- What the owner has leased out is the one lease that is active. -/
theorem afterLease_active : (afterLease.accountPortfolio owner).leaseInfo.leaseOut = 500 ∧
    ∃ L : Finset LeaseTransaction,
      (∀ l, l ∈ L ↔ l ∈ leasesOf (genesisBlock.transactionData ++ leasing) ∧
        afterLease.isLeaseActive l = true) ∧
      (afterLease.accountPortfolio owner).leaseInfo.leaseOut.toInt
        = ∑ l ∈ L with l.lessor = some owner, l.amount.toInt := by
  obtain ⟨⟨L, hL, hsums⟩, -⟩ := afterLease_passed.leases_active
  exact ⟨by decide +kernel, L, hL, (hsums owner).1⟩

end Sample

end Vsys
