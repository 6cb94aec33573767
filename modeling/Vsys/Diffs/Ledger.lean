import Mathlib.Algebra.BigOperators.Ring.Finset
import Vsys.Diffs.Effects
import Vsys.Opc.Supply

/-!
# Coins and leases

The ledger behind a state: a set of running leases that accounts for everything leased in and out.
A transaction moves coins, starts one lease or stops one, and the checks it passes make every sum
exact, so its diff fits the state and the ledger goes on.
-/

namespace Vsys

open Lib

open scoped Ledger

variable [Platform]

/-- The account a lease is taken from: the signer's. -/
def LeaseTransaction.lessor (l : LeaseTransaction) : Option Address :=
  match l.proofs.headPublicKey with
  | .ok sender => some sender.toAddress
  | .error _ => none

/-- The account a lease goes to, unless it is named by an alias. -/
def LeaseTransaction.lessee (l : LeaseTransaction) : Option Address :=
  match l.recipient with
  | .address a => some a
  | .alias _ => none

/-- The amount of the leases in `L` that have `a` as a party. -/
def leased (L : Finset LeaseTransaction) (party : LeaseTransaction → Option Address)
    (a : Address) : Int :=
  ∑ l ∈ L with party l = some a, l.amount.toInt

/-- What the leases in `L` lend to `a`. -/
def leasedIn (L : Finset LeaseTransaction) (a : Address) : Int :=
  leased L LeaseTransaction.lessee a

/-- What the leases in `L` lend from `a`. -/
def leasedOut (L : Finset LeaseTransaction) (a : Address) : Int :=
  leased L LeaseTransaction.lessor a

section Leased

variable {L : Finset LeaseTransaction} {l : LeaseTransaction}
  {party : LeaseTransaction → Option Address} {a : Address}

theorem LeaseTransaction.amount_toInt_pos (l : LeaseTransaction) : 0 < l.amount.toInt :=
  Int64.lt_iff_toInt_lt.mp l.amount_pos

theorem leased_nonneg : 0 ≤ leased L party a :=
  Finset.sum_nonneg fun l _ => l.amount_toInt_pos.le

theorem leased_insert (h : l ∉ L) :
    leased (insert l L) party a
      = leased L party a + if party l = some a then l.amount.toInt else 0 := by
  rw [leased, Finset.filter_insert]
  split
  · rw [Finset.sum_insert (fun hmem => h (Finset.mem_filter.mp hmem).1), Int.add_comm]
    rfl
  · rw [Int.add_zero]
    rfl

theorem leased_erase (h : l ∈ L) :
    leased (L.erase l) party a
      = leased L party a - if party l = some a then l.amount.toInt else 0 := by
  have hsum : leased (insert l (L.erase l)) party a
      = leased (L.erase l) party a + if party l = some a then l.amount.toInt else 0 :=
    leased_insert (Finset.notMem_erase l L)
  rw [Finset.insert_erase h] at hsum
  omega

/-- Every lease has both parties once, so as much is leased in as is leased out. -/
theorem sum_leased (h : ∀ l ∈ L, party l ≠ none) :
    ∑ a, leased L party a = ∑ l ∈ L, l.amount.toInt := by
  simp only [leased, Finset.sum_filter]
  rw [Finset.sum_comm]
  refine Finset.sum_congr rfl fun l hl => ?_
  obtain ⟨b, hb⟩ := Option.ne_none_iff_exists'.mp (h l hl)
  simp [hb]

end Leased

/-- A set of leases that accounts for what a state has leased out: they are the running ones among
its transactions, and each goes from one account to another. -/
structure StateView.Ledger (s : StateView) (L : Finset LeaseTransaction) : Prop where
  named : ∀ id h status fee l, s.transactionInfo id = .ok (some (h, ⟨status, fee, .lease l⟩)) →
    (Transaction.lease l).id = id
  stored : ∀ l ∈ L, ∃ h status fee,
    s.transactionInfo (Transaction.lease l).id = .ok (some (h, ⟨status, fee, .lease l⟩))
  contains : ∀ l ∈ L, s.containsTransaction (Transaction.lease l).id = true
  active : ∀ l, s.isLeaseActive l = true →
    ∃ l' ∈ L, (Transaction.lease l').id = (Transaction.lease l).id
  parties : ∀ l ∈ L, ∃ a b, l.lessor = some a ∧ l.lessee = some b ∧ b ≠ a
  leaseIn : ∀ a, (s.accountPortfolio a).leaseInfo.leaseIn.toInt = leasedIn L a
  leaseOut : ∀ a, (s.accountPortfolio a).leaseInfo.leaseOut.toInt = leasedOut L a
  noAlias : ∀ a, s.resolveAlias a = none

namespace StateView.Ledger

variable {s : StateView} {L : Finset LeaseTransaction}

/-- A lease the state still runs is one of the ledger's. -/
theorem mem_of_active (hs : s.Ledger L) {id : ByteStr} {l : LeaseTransaction}
    (hfind : s.findLeaseTransaction id = .ok (some l)) (hactive : s.isLeaseActive l = true) :
    l ∈ L := by
  obtain ⟨info, hinfo, hfind⟩ := bind_eq_ok_iff.mp hfind
  match info, hinfo, hfind with
  | some (h, ⟨status, fee, .lease tx⟩), hinfo, hfind =>
      obtain rfl := Option.some.inj (Except.ok.inj hfind)
      obtain ⟨l', hl', hid⟩ := hs.active tx hactive
      obtain ⟨h', status', fee', hstored⟩ := hs.stored l' hl'
      rw [hid, hs.named id h status fee tx hinfo, hinfo] at hstored
      simp only [Except.ok.injEq, Option.some.injEq, Prod.mk.injEq,
        ProcessedTransaction.mk.injEq, Transaction.lease.injEq] at hstored
      rw [hstored.2.2.2]
      exact hl'

/-- Only an address resolves. -/
theorem recipient_of_resolve (hs : s.Ledger L) {recipient : AddressOrAlias} {a : Address}
    (h : s.resolveAliasEi recipient = .ok a) : recipient = .address a := by
  match recipient, h with
  | .address b, h => rw [Except.ok.inj h]
  | .alias b, h =>
      rw [StateView.resolveAliasEi, hs.noAlias] at h
      cases h

end StateView.Ledger

/-- The coins a transaction brings into being. -/
def Transaction.minted : Transaction → Int
  | .genesis tx => tx.amount.toInt
  | .minting _ => MintingReward.toInt
  | _ => 0

/-- The portfolio changes are exactly what takes the leases from `L` to `L'` and the balances up by
`b`. -/
structure Changes.Moves (c : Changes) (L L' : Finset LeaseTransaction) (b : Address → Int) :
    Prop where
  touched : ∀ a pf, c.portfolios.lookup a = some pf →
    pf.balance.toInt = b a ∧
    pf.leaseInfo.leaseIn.toInt = leasedIn L' a - leasedIn L a ∧
    pf.leaseInfo.leaseOut.toInt = leasedOut L' a - leasedOut L a ∧ pf.assets = ∅
  untouched : ∀ a, c.portfolios.lookup a = none →
    b a = 0 ∧ leasedIn L' a = leasedIn L a ∧ leasedOut L' a = leasedOut L a

/-- What a transaction can do to the running leases. -/
inductive LeaseChange (L : Finset LeaseTransaction) (tx : Transaction)
    (leaseState : Dict ByteStr Bool) : Finset LeaseTransaction → Prop
  | keep (h : leaseState = ∅) : LeaseChange L tx leaseState L
  | start (l : LeaseTransaction) (htx : tx = .lease l) (hnew : l ∉ L)
      (h : leaseState = Finmap.singleton (Transaction.lease l).id true)
      (parties : ∃ a b, l.lessor = some a ∧ l.lessee = some b ∧ b ≠ a) :
      LeaseChange L tx leaseState (insert l L)
  | stop (l : LeaseTransaction) (hl : l ∈ L)
      (h : leaseState = Finmap.singleton (Transaction.lease l).id false) :
      LeaseChange L tx leaseState (L.erase l)

section Moves

variable {fs : FunctionalitySettings} {height : Nat} {s : StateView} {tx : Transaction}
  {c : Changes} {related : Dict Address Bool} {L L' : Finset LeaseTransaction}
  {b : Address → Int}

/-- The coins and leases a transaction moves. -/
def Accounted (c : Changes) (tx : Transaction) (L : Finset LeaseTransaction) : Prop :=
  ∃ L' b, c.Moves L L' b ∧ ∑ a, b a = tx.minted - c.chargedFee.toInt ∧
    LeaseChange L tx c.leaseState L'

/-- A change of one balance. -/
theorem accounted_of_balance {a : Address} {v : Int64}
    (hp : c.portfolios = Finmap.singleton a (Portfolio.ofBalance v))
    (hl : c.leaseState = ∅) (hv : v.toInt = tx.minted - c.chargedFee.toInt) :
    Accounted c tx L := by
  refine ⟨L, fun a' => if a' = a then v.toInt else 0, ⟨fun a' pf hpf => ?_, fun a' hnone => ?_⟩,
    by simp [hv], .keep hl⟩
  · rw [hp, Dict.lookup_singleton] at hpf
    split at hpf
    · obtain rfl := Option.some.inj hpf
      rename_i ha
      simp [ha, Portfolio.ofBalance, LeaseInfo.empty]
    · cases hpf
  · rw [hp, Dict.lookup_singleton] at hnone
    split at hnone
    · cases hnone
    · rename_i ha
      simp [ha]

/-- The fee alone. -/
theorem accounted_of_fee {sender : PublicKeyAccount} {fee : Int64}
    (hp : c.portfolios = (feeCharged sender fee).portfolios) (hl : c.leaseState = ∅)
    (hc : c.chargedFee = fee) (hfee : 0 < fee) (hminted : tx.minted = 0) : Accounted c tx L := by
  refine accounted_of_balance hp hl ?_
  rw [toInt_neg_of_nonneg (Int64.le_of_lt hfee), hminted, hc]
  omega

/-- A payment, to another account or to the sender. -/
theorem accounted_of_payment {tx : PaymentTransaction} {sender : Address}
    (hp : c.portfolios = Dict.mergeWith Portfolio.combine
      (Finmap.singleton tx.recipient (Portfolio.ofBalance tx.amount))
      (Finmap.singleton sender (Portfolio.ofBalance (-tx.amount - tx.fee))))
    (hl : c.leaseState = ∅) (hc : c.chargedFee = tx.fee) : Accounted c (.payment tx) L := by
  have hamount := Int64.lt_iff_toInt_lt.mp tx.amount_pos
  have hfee := Int64.lt_iff_toInt_lt.mp tx.fee_pos
  have hzero : (0 : Int64).toInt = 0 := rfl
  obtain ⟨total, htotal⟩ := Option.isSome_iff_exists.mp tx.no_overflow
  have htotal := addExact_eq_some.mp htotal
  have hword := inWord_toInt total
  have hneg : (-tx.amount).toInt = -tx.amount.toInt :=
    toInt_neg_of_nonneg (Int64.le_of_lt tx.amount_pos)
  have hspent : (-tx.amount - tx.fee).toInt = -tx.amount.toInt - tx.fee.toInt := by
    rw [toInt_sub_exact (by unfold InWord at *; omega), hneg]
  -- A sender who pays to himself has one portfolio, in which both parts are added up.
  have hself : (safeSum tx.amount (-tx.amount - tx.fee)).toInt = -tx.fee.toInt := by
    rw [toInt_safeSum (by unfold InWord at *; omega), hspent]
    omega
  refine ⟨L, fun a => (if a = tx.recipient then tx.amount.toInt else 0)
      + if a = sender then -tx.amount.toInt - tx.fee.toInt else 0,
    ⟨fun a pf hpf => ?_, fun a hnone => ?_⟩, ?_, .keep hl⟩
  · rw [hp, Dict.lookup_mergeWith, Dict.lookup_singleton, Dict.lookup_singleton] at hpf
    by_cases hr : a = tx.recipient
    · by_cases hs : a = sender
      · rw [if_pos hr, if_pos hs, Option.merge_some_some] at hpf
        obtain rfl := Option.some.inj hpf
        simp only [if_pos hr, if_pos hs]
        refine ⟨hself.trans (by omega), ?_, ?_, ?_⟩ <;>
          simp [Portfolio.combine, Portfolio.ofBalance, LeaseInfo.combine, LeaseInfo.empty]
      · rw [if_pos hr, if_neg hs, Option.merge_none_right] at hpf
        obtain rfl := Option.some.inj hpf
        simp [hr, Portfolio.ofBalance, LeaseInfo.empty]
        exact fun h => absurd (hr.trans h) hs
    · by_cases hs : a = sender
      · rw [if_neg hr, if_pos hs, Option.merge_none_left] at hpf
        obtain rfl := Option.some.inj hpf
        simp [hs, Portfolio.ofBalance, LeaseInfo.empty, hspent]
        exact fun h => absurd (hs.trans h) hr
      · rw [if_neg hr, if_neg hs] at hpf
        cases hpf
  · rw [hp, Dict.lookup_mergeWith, Dict.lookup_singleton, Dict.lookup_singleton] at hnone
    by_cases hr : a = tx.recipient
    · rw [if_pos hr] at hnone
      split at hnone <;> cases hnone
    · by_cases hs : a = sender
      · rw [if_neg hr, if_pos hs] at hnone
        cases hnone
      · simp [hr, hs]
  · rw [Finset.sum_add_distrib, Finset.sum_ite_eq', Finset.sum_ite_eq', if_pos (Finset.mem_univ _),
      if_pos (Finset.mem_univ _), hc]
    simp only [Transaction.minted]
    omega

theorem lessor_eq {l : LeaseTransaction} {sender : PublicKeyAccount}
    (h : l.proofs.headPublicKey = .ok sender) : l.lessor = some sender.toAddress := by
  rw [LeaseTransaction.lessor, h]

theorem lessee_eq {l : LeaseTransaction} {recipient : Address}
    (h : l.recipient = .address recipient) : l.lessee = some recipient := by
  rw [LeaseTransaction.lessee, h]

/-- A lease that starts. -/
theorem accounted_of_lease {l : LeaseTransaction} {sender recipient : Address}
    (hp : c.portfolios = ((∅ : Dict Address Portfolio).insert sender
      ⟨-l.fee, ⟨0, l.amount⟩, ∅⟩).insert recipient ⟨0, ⟨l.amount, 0⟩, ∅⟩)
    (hl : c.leaseState = Finmap.singleton (Transaction.lease l).id true)
    (hc : c.chargedFee = l.fee) (hlessor : l.lessor = some sender)
    (hlessee : l.lessee = some recipient) (hself : recipient ≠ sender) (hnew : l ∉ L) :
    Accounted c (.lease l) L := by
  have hfee : (-l.fee).toInt = -l.fee.toInt := toInt_neg_of_nonneg (Int64.le_of_lt l.fee_pos)
  -- With the lease its two parties have its amount more leased in and out.
  have hin (a : Address) : leasedIn (insert l L) a
      = leasedIn L a + if recipient = a then l.amount.toInt else 0 := by
    rw [leasedIn, leased_insert hnew, hlessee]
    simp only [Option.some.injEq]
    rfl
  have hout (a : Address) : leasedOut (insert l L) a
      = leasedOut L a + if sender = a then l.amount.toInt else 0 := by
    rw [leasedOut, leased_insert hnew, hlessor]
    simp only [Option.some.injEq]
    rfl
  refine ⟨insert l L, fun a => if a = sender then -l.fee.toInt else 0,
    ⟨fun a pf hpf => ?_, fun a hnone => ?_⟩, ?_,
    .start l rfl hnew hl ⟨sender, recipient, hlessor, hlessee, hself⟩⟩
  · rw [hp, Dict.lookup_insert_eq, Dict.lookup_insert_eq, Finmap.lookup_empty] at hpf
    rw [hin, hout]
    by_cases hr : a = recipient
    · rw [if_pos hr] at hpf
      obtain rfl := Option.some.inj hpf
      subst hr
      simp [hself, hself.symm]
    · by_cases hs : a = sender
      · rw [if_neg hr, if_pos hs] at hpf
        obtain rfl := Option.some.inj hpf
        subst hs
        simp [hself, hfee]
      · rw [if_neg hr, if_neg hs] at hpf
        cases hpf
  · rw [hp, Dict.lookup_insert_eq, Dict.lookup_insert_eq, Finmap.lookup_empty] at hnone
    by_cases hr : a = recipient
    · rw [if_pos hr] at hnone
      cases hnone
    · by_cases hs : a = sender
      · rw [if_neg hr, if_pos hs] at hnone
        cases hnone
      · rw [hin, hout, if_neg (Ne.symm hr), if_neg (Ne.symm hs), if_neg hs]
        omega
  · rw [Finset.sum_ite_eq', if_pos (Finset.mem_univ _), hc]
    simp only [Transaction.minted]
    omega

/-- A lease that stops. -/
theorem accounted_of_leaseCancel {l : LeaseTransaction} {tx : LeaseCancelTransaction}
    {sender recipient : Address}
    (hp : c.portfolios = Dict.mergeWith Portfolio.combine
      (Finmap.singleton sender ⟨-tx.fee, ⟨0, -l.amount⟩, ∅⟩)
      (Finmap.singleton recipient ⟨0, ⟨-l.amount, 0⟩, ∅⟩))
    (hl : c.leaseState = Finmap.singleton (Transaction.lease l).id false)
    (hc : c.chargedFee = tx.fee) (hlessor : l.lessor = some sender)
    (hlessee : l.lessee = some recipient) (hself : recipient ≠ sender) (hmem : l ∈ L) :
    Accounted c (.leaseCancel tx) L := by
  have hfee : (-tx.fee).toInt = -tx.fee.toInt := toInt_neg_of_nonneg (Int64.le_of_lt tx.fee_pos)
  have hamount : (-l.amount).toInt = -l.amount.toInt :=
    toInt_neg_of_nonneg (Int64.le_of_lt l.amount_pos)
  -- Without the lease its two parties have its amount less leased in and out.
  have hin (a : Address) : leasedIn (L.erase l) a
      = leasedIn L a - if recipient = a then l.amount.toInt else 0 := by
    rw [leasedIn, leased_erase hmem, hlessee]
    simp only [Option.some.injEq]
    rfl
  have hout (a : Address) : leasedOut (L.erase l) a
      = leasedOut L a - if sender = a then l.amount.toInt else 0 := by
    rw [leasedOut, leased_erase hmem, hlessor]
    simp only [Option.some.injEq]
    rfl
  refine ⟨L.erase l, fun a => if a = sender then -tx.fee.toInt else 0,
    ⟨fun a pf hpf => ?_, fun a hnone => ?_⟩, ?_, .stop l hmem hl⟩
  · rw [hp, Dict.lookup_mergeWith, Dict.lookup_singleton, Dict.lookup_singleton] at hpf
    rw [hin, hout]
    by_cases hs : a = sender
    · rw [if_pos hs, if_neg (hs ▸ hself.symm), Option.merge_none_right] at hpf
      obtain rfl := Option.some.inj hpf
      subst hs
      simp [hself, hfee, hamount]
    · by_cases hr : a = recipient
      · rw [if_neg hs, if_pos hr, Option.merge_none_left] at hpf
        obtain rfl := Option.some.inj hpf
        subst hr
        simp [hself, hself.symm, hamount]
      · rw [if_neg hs, if_neg hr] at hpf
        cases hpf
  · rw [hp, Dict.lookup_mergeWith, Dict.lookup_singleton, Dict.lookup_singleton] at hnone
    by_cases hs : a = sender
    · rw [if_pos hs, if_neg (hs ▸ hself.symm)] at hnone
      cases hnone
    · by_cases hr : a = recipient
      · rw [if_neg hs, if_pos hr] at hnone
        cases hnone
      · rw [hin, hout, if_neg (Ne.symm hr), if_neg (Ne.symm hs), if_neg hs]
        omega
  · rw [Finset.sum_ite_eq', if_pos (Finset.mem_univ _), hc]
    simp only [Transaction.minted]
    omega

/-- Every transaction accounts for the coins and leases it moves. -/
theorem TransactionEffect.accounted (hs : s.Ledger L)
    (hnew : s.containsTransaction tx.id = false)
    (h : TransactionEffect fs height s tx c related) : Accounted c tx L := by
  cases h with
  | genesis tx => exact accounted_of_balance rfl rfl (Int.sub_zero _).symm
  | genesisSlot tx => exact accounted_of_balance rfl rfl (Int.sub_zero _).symm
  | minting tx _ hamount =>
      exact accounted_of_balance rfl rfl ((congrArg Int64.toInt hamount).trans (Int.sub_zero _).symm)
  | payment tx sender hsender => exact accounted_of_payment rfl rfl rfl
  | lease l sender recipient hsender hrecipient hself hspendable =>
      refine accounted_of_lease rfl rfl rfl (lessor_eq hsender)
        (lessee_eq (hs.recipient_of_resolve hrecipient)) hself fun hmem => ?_
      rw [hs.contains l hmem] at hnew
      cases hnew
  | leaseCancel tx l sender recipient hlease hrecipient hactive hlessor hsender =>
      have hmem := hs.mem_of_active hlease hactive
      have hl := lessor_eq hlessor
      have hr := lessee_eq (hs.recipient_of_resolve hrecipient)
      obtain ⟨a, b, ha, hb, hself⟩ := hs.parties l hmem
      obtain rfl := Option.some.inj (hl.symm.trans ha)
      obtain rfl := Option.some.inj (hr.symm.trans hb)
      exact accounted_of_leaseCancel rfl rfl rfl hl hr hself hmem
  | contendFailed tx => exact accounted_of_fee rfl rfl rfl tx.fee_pos rfl
  | contendSlots tx => exact accounted_of_fee rfl rfl rfl tx.fee_pos rfl
  | releaseSlots tx => exact accounted_of_fee rfl rfl rfl tx.fee_pos rfl
  | registerContract tx => exact accounted_of_fee rfl rfl rfl tx.fee_pos rfl
  | registerFailed tx => exact accounted_of_fee rfl rfl rfl tx.fee_pos rfl
  | executeContractFunction tx => exact accounted_of_fee rfl rfl rfl tx.fee_pos rfl
  | executeFailed tx => exact accounted_of_fee rfl rfl rfl tx.fee_pos rfl
  | dbPut tx => exact accounted_of_fee rfl rfl rfl tx.fee_pos rfl

/-- What the spendable balance covers fits a word. -/
theorem TransactionEffect.leasedOut_le (hs : s.Ledger L) (hsound : s.Sound)
    (h : TransactionEffect fs height s tx c related) (hchange : LeaseChange L tx c.leaseState L')
    (a : Address) : leasedOut L' a ≤ 9223372036854775807 := by
  have hold := hs.leaseOut a
  have hword := inWord_toInt (s.accountPortfolio a).leaseInfo.leaseOut
  unfold InWord at hword
  cases hchange with
  | keep => omega
  | start l htx hnew hl hparties =>
      subst htx
      obtain ⟨lessor, -, hlessor, -, -⟩ := hparties
      rw [leasedOut, leased_insert hnew, hlessor]
      split
      · rename_i ha
        obtain rfl := Option.some.inj ha
        cases h with
        | lease tx sender recipient hsender hrecipient hself hspendable =>
            obtain rfl := Option.some.inj ((lessor_eq hsender).symm.trans hlessor)
            have hp := hsound.portfolio sender.toAddress
            have h₁ := hp.leaseOut
            have h₂ := hp.leaseOut_le
            have hb := inWord_toInt (s.accountPortfolio sender.toAddress).balance
            unfold InWord at hb
            rw [Int64.not_lt, Int64.le_iff_toInt_le,
              toInt_sub_exact (by unfold InWord; omega)] at hspendable
            unfold leasedOut at hold
            omega
      · unfold leasedOut at hold
        omega
  | stop l hl hstate =>
      have hpos := l.amount_toInt_pos
      rw [leasedOut, leased_erase hl]
      unfold leasedOut at hold
      split <;> omega

/-- A change that leaves a solvent portfolio is exact: a sum of leases that overflowed would turn
the effective balance negative. -/
theorem Changes.Moves.applies (hs : s.Ledger L) (hsound : s.Sound) (hmoves : c.Moves L L' b)
    (hout : ∀ a, leasedOut L' a ≤ 9223372036854775807) {a : Address} {pf : Portfolio}
    (hpf : c.portfolios.lookup a = some pf)
    (hsolvent : BalanceDiffValidation.Solvent ((s.accountPortfolio a).combine pf)) :
    (s.accountPortfolio a).Applies pf := by
  obtain ⟨hb, hi, ho, hassets⟩ := hmoves.touched a pf hpf
  obtain ⟨hbalance, -, heffective, hown⟩ := hsolvent
  have hin := hs.leaseIn a
  have hinNonneg : 0 ≤ leasedIn L' a := leased_nonneg
  have houtNonneg : 0 ≤ leasedOut L' a := leased_nonneg
  have hbal : AddsTo (s.accountPortfolio a).balance pf.balance :=
    Int64.le_iff_toInt_le.mp hbalance
  have hleaseOut : AddsTo (s.accountPortfolio a).leaseInfo.leaseOut pf.leaseInfo.leaseOut := by
    rw [addsTo_iff, ho, hs.leaseOut a]
    have := hout a
    omega
  have hleaseIn : AddsTo (s.accountPortfolio a).leaseInfo.leaseIn pf.leaseInfo.leaseIn := by
    rw [addsTo_iff, hi, hin]
    by_contra hover
    have hmin : safeSum (s.accountPortfolio a).leaseInfo.leaseIn pf.leaseInfo.leaseIn
        = Int64.minValue := by
      rw [safeSum, addExact, if_neg (by rw [hi, hin]; unfold InWord; omega)]
      rfl
    have hminInt : Int64.minValue.toInt = -9223372036854775808 := rfl
    have h₀ := hbal.nonneg
    have h₁ := hleaseOut.nonneg
    have hle := Int64.le_iff_toInt_le.mp hown
    have hwb := inWord_toInt (safeSum (s.accountPortfolio a).balance pf.balance)
    simp only [Portfolio.combine, LeaseInfo.combine] at hle
    have hsum : (safeSum (safeSum (s.accountPortfolio a).balance pf.balance)
        Int64.minValue).toInt = (safeSum (s.accountPortfolio a).balance pf.balance).toInt
          - 9223372036854775808 := by
      rw [toInt_safeSum (by rw [hminInt]; unfold InWord at *; omega), hminInt]
      omega
    rw [Int64.le_iff_toInt_le, Portfolio.effectiveBalance] at heffective
    simp only [Portfolio.combine, LeaseInfo.combine, hmin] at heffective
    rw [toInt_sub_exact (by rw [hsum]; unfold InWord at *; omega), hsum] at heffective
    have hzero : (0 : Int64).toInt = 0 := rfl
    unfold InWord at hwb
    omega
  exact ⟨hbal, hleaseIn, hleaseOut, hassets, hbal, hleaseIn, hleaseOut,
    Int64.le_iff_toInt_le.mp hown, by simp [Portfolio.combine, (hsound.portfolio a).assets, hassets]⟩

end Moves

/-- The invariant of the states the chain goes through: sums that can go on being exact, a ledger
of the running leases, entries that can be read, and tokens that are conserved. -/
structure StateView.Regular (s : StateView) (L : Finset LeaseTransaction) : Prop where
  sound : s.Sound
  ledger : s.Ledger L
  entries : s.EntriesValid
  tokens : s.tokens.Conserved

/-- The coins a state holds. -/
noncomputable def StateView.supply (s : StateView) : Int := ∑ a, (s.accountPortfolio a).balance.toInt

section Step

variable {fs : FunctionalitySettings} {height : Nat} {s : StateView} {tx : Transaction}
  {c : Changes} {related : Dict Address Bool} {L L' : Finset LeaseTransaction}
  {b : Address → Int}

theorem ExecutionContext.fromRegConTx_eq_ok {tx : RegisterContractTransaction.Checked}
    {context : ExecutionContext} (h : ExecutionContext.fromRegConTx s height tx = .ok context) :
    ∃ signers, signersOf tx.proofs = .ok signers ∧ context =
      { signers := signers
        state := s
        height := height
        transaction := .registerContract tx
        contractId := tx.contractId
        opcFunc := (tx.contract.trigger.find? fun a => a[2]? = some 0).getD []
        stateVar := tx.contract.stateVar
        description := Deser.serilizeString tx.description } := by
  obtain ⟨signers, hsigners, h⟩ := bind_eq_ok_iff.mp h
  exact ⟨signers, hsigners, (Except.ok.inj h).symm⟩

theorem ExecutionContext.fromExeConTx_eq_ok {tx : ExecuteContractFunctionTransaction.Checked}
    {context : ExecutionContext} (h : ExecutionContext.fromExeConTx s height tx = .ok context) :
    ∃ signers registered txId contract opcFunc, signersOf tx.proofs = .ok signers ∧
      s.contractContent tx.contractId.bytes = .ok (some (registered, txId, contract)) ∧
      0 ≤ tx.funcIdx ∧ contract.descriptor[tx.funcIdx.toInt.toNat]? = some opcFunc ∧ context =
      { signers := signers
        state := s
        height := height
        transaction := .executeContractFunction tx
        contractId := tx.contractId
        opcFunc := opcFunc
        stateVar := contract.stateVar
        description := tx.attachment } := by
  obtain ⟨signers, hsigners, h⟩ := bind_eq_ok_iff.mp h
  obtain ⟨content, hcontent, h⟩ := bind_eq_ok_iff.mp h
  match content, hcontent, h with
  | some (registered, txId, contract), hcontent, h =>
      by_cases hidx : 0 ≤ tx.funcIdx
      · simp only [if_pos hidx] at h
        cases hfunc : contract.descriptor[tx.funcIdx.toInt.toNat]? with
        | none =>
            rw [hfunc] at h
            cases h
        | some opcFunc =>
            rw [hfunc] at h
            exact ⟨signers, registered, txId, contract, opcFunc, hsigners, hcontent, hidx, hfunc,
              (Except.ok.inj h).symm⟩
      · simp only [if_neg hidx] at h
        cases h

/-- The token part of a change: that of a contract function, or nothing. -/
structure Changes.TokenPart (c : Changes) (t : TokenState) (df : OpcDiff) : Prop where
  contractTokens : c.contractTokens = df.contractTokens
  tokenDB : c.tokenDB = df.tokenDB
  tokenAccountBalance : c.tokenAccountBalance = df.tokenAccountBalance
  addsTo : df.AddsTo t
  conserved : (t.after df).Conserved

theorem tokenPart_of_none (ht : s.tokens.Conserved) (h₁ : c.contractTokens = ∅)
    (h₂ : c.tokenDB = ∅) (h₃ : c.tokenAccountBalance = ∅) :
    ∃ df, c.TokenPart s.tokens df := by
  refine ⟨OpcDiff.empty, h₁, h₂, h₃, fun k v hv => ?_, ?_⟩
  · rw [OpcDiff.empty, Finmap.lookup_empty] at hv
    cases hv
  · rw [TokenState.after_empty]
    exact ht

/-- Every transaction keeps the tokens conserved. -/
theorem TransactionEffect.tokenPart (hentries : s.EntriesValid) (ht : s.tokens.Conserved)
    (h : TransactionEffect fs height s tx c related) : ∃ df, c.TokenPart s.tokens df := by
  cases h with
  | registerContract tx sender hsender context hcontext df happly =>
      obtain ⟨signers, -, rfl⟩ := ExecutionContext.fromRegConTx_eq_ok hcontext
      obtain ⟨_, hrun⟩ := OpcFuncDiffer.running_of_apply hentries ht tx.data_valid happly
      exact ⟨df, rfl, rfl, rfl, hrun.addsTo, hrun.conserved⟩
  | executeContractFunction tx sender hsender context hcontext df happly =>
      obtain ⟨signers, _, _, _, _, -, -, -, -, rfl⟩ := ExecutionContext.fromExeConTx_eq_ok hcontext
      obtain ⟨_, hrun⟩ := OpcFuncDiffer.running_of_apply hentries ht tx.data_valid happly
      exact ⟨df, rfl, rfl, rfl, hrun.addsTo, hrun.conserved⟩
  | _ => exact tokenPart_of_none ht rfl rfl rfl

theorem TransactionEffect.aliases_eq (h : TransactionEffect fs height s tx c related) :
    c.aliases = ∅ := by
  cases h <;> rfl

/-- A lease that starts is the transaction itself. -/
theorem LeaseChange.started {leaseState : Dict ByteStr Bool}
    (h : LeaseChange L tx leaseState L') {id : ByteStr}
    (hid : leaseState.lookup id = some true) : id = tx.id := by
  cases h with
  | keep hl =>
      rw [hl, Finmap.lookup_empty] at hid
      cases hid
  | start l htx hnew hl =>
      rw [hl, Dict.lookup_singleton] at hid
      split at hid
      · rename_i heq
        rw [heq, htx]
      · cases hid
  | stop l hl hstate =>
      rw [hstate, Dict.lookup_singleton] at hid
      split at hid <;> cases hid

/-- A running lease is in the ledger, and one that starts or stops is no longer confused with the
others by its identifier. -/
theorem LeaseChange.active {leaseState : Dict ByteStr Bool} (hs : s.Ledger L)
    (h : LeaseChange L tx leaseState L') {l : LeaseTransaction}
    (hactive : (leaseState.lookup (Transaction.lease l).id).getD (s.isLeaseActive l) = true) :
    ∃ l' ∈ L', (Transaction.lease l').id = (Transaction.lease l).id := by
  cases h with
  | keep hl =>
      rw [hl, Finmap.lookup_empty] at hactive
      exact hs.active l hactive
  | start l₀ htx hnew hl =>
      rw [hl, Dict.lookup_singleton] at hactive
      split at hactive
      · rename_i heq
        exact ⟨l₀, Finset.mem_insert_self _ _, heq.symm⟩
      · obtain ⟨l', hl', hid⟩ := hs.active l hactive
        exact ⟨l', Finset.mem_insert_of_mem hl', hid⟩
  | stop l₀ hl₀ hstate =>
      rw [hstate, Dict.lookup_singleton] at hactive
      split at hactive
      · cases hactive
      · rename_i hne
        obtain ⟨l', hl', hid⟩ := hs.active l hactive
        refine ⟨l', Finset.mem_erase.mpr ⟨?_, hl'⟩, hid⟩
        rintro rfl
        exact hne hid.symm

/-- The leases of the ledger after a change are old ones, or the transaction itself. -/
theorem LeaseChange.mem {leaseState : Dict ByteStr Bool} (h : LeaseChange L tx leaseState L')
    {l : LeaseTransaction} (hl : l ∈ L') : l ∈ L ∨ tx = .lease l := by
  cases h with
  | keep => exact .inl hl
  | start l₀ htx =>
      obtain rfl | hold := Finset.mem_insert.mp hl
      · exact .inr htx
      · exact .inl hold
  | stop => exact .inl (Finset.mem_of_mem_erase hl)

theorem LeaseChange.parties {leaseState : Dict ByteStr Bool} (hs : s.Ledger L)
    (h : LeaseChange L tx leaseState L') {l : LeaseTransaction} (hl : l ∈ L') :
    ∃ a b, l.lessor = some a ∧ l.lessee = some b ∧ b ≠ a := by
  cases h with
  | keep => exact hs.parties l hl
  | start l₀ htx hnew hstate hparties =>
      obtain rfl | hold := Finset.mem_insert.mp hl
      · exact hparties
      · exact hs.parties l hold
  | stop => exact hs.parties l (Finset.mem_of_mem_erase hl)

/-- Every portfolio after a change that applies everywhere. -/
theorem Changes.Moves.after (hs : s.Ledger L) (hmoves : c.Moves L L' b)
    (happlies : ∀ a pf, c.portfolios.lookup a = some pf → (s.accountPortfolio a).Applies pf)
    (a : Address) :
    let p := (s.accountPortfolio a).combine ((c.portfolios.lookup a).getD Portfolio.empty)
    p.balance.toInt = (s.accountPortfolio a).balance.toInt + b a ∧
      p.leaseInfo.leaseIn.toInt = leasedIn L' a ∧ p.leaseInfo.leaseOut.toInt = leasedOut L' a := by
  have hin := hs.leaseIn a
  have hout := hs.leaseOut a
  cases hpf : c.portfolios.lookup a with
  | none =>
      obtain ⟨hb, hi, ho⟩ := hmoves.untouched a hpf
      rw [Option.getD_none, Portfolio.combine_empty]
      omega
  | some pf =>
      obtain ⟨hb, hi, ho, -⟩ := hmoves.touched a pf hpf
      have h := happlies a pf hpf
      refine ⟨?_, ?_, ?_⟩
      · exact h.balance.toInt.trans (by rw [hb])
      · exact h.leaseIn.toInt.trans (by omega)
      · exact h.leaseOut.toInt.trans (by omega)

variable {d : Diff}

/-- The diff of a transaction records it. -/
theorem Diff.lookup_transactions_apply (id : ByteStr) :
    (Diff.apply height tx c related).transactions.lookup id
      = if id = tx.id then some (height, ⟨c.txStatus, c.chargedFee, tx⟩,
          c.portfolios.keys ∪ related.keys) else none :=
  Dict.lookup_singleton _ _ _

/-- After a transaction the state knows it. -/
theorem CompositeStateReader.view_transactionInfo_apply (id : ByteStr) :
    (CompositeStateReader.view s (Diff.apply height tx c related).asBlockDiff).transactionInfo id
      = if id = tx.id then .ok (some (height, ⟨c.txStatus, c.chargedFee, tx⟩))
        else s.transactionInfo id := by
  simp only [CompositeStateReader.view, Diff.asBlockDiff, Diff.lookup_transactions_apply]
  by_cases hid : id = tx.id
  · simp only [if_pos hid]
  · simp only [if_neg hid]

/-- The ledger after a transaction. -/
theorem StateView.Ledger.view (hs : s.Ledger L) (hnew : s.containsTransaction tx.id = false)
    (hmoves : c.Moves L L' b) (hchange : LeaseChange L tx c.leaseState L')
    (haliases : c.aliases = ∅)
    (happlies : ∀ a pf, c.portfolios.lookup a = some pf → (s.accountPortfolio a).Applies pf) :
    (CompositeStateReader.view s (Diff.apply height tx c related).asBlockDiff).Ledger L' := by
  have hinfo (id : ByteStr) : (CompositeStateReader.view s
      (Diff.apply height tx c related).asBlockDiff).transactionInfo id
      = if id = tx.id then .ok (some (height, ⟨c.txStatus, c.chargedFee, tx⟩))
        else s.transactionInfo id := CompositeStateReader.view_transactionInfo_apply id
  -- an old lease has not the identifier of the new transaction
  have hne {l : LeaseTransaction} (hl : l ∈ L) : (Transaction.lease l).id ≠ tx.id := by
    intro heq
    have hold := hs.contains l hl
    rw [heq, hnew] at hold
    cases hold
  constructor
  case named =>
    intro id h status fee l hl
    rw [hinfo] at hl
    split at hl
    · rename_i hid
      obtain ⟨-, hp⟩ := Prod.mk.inj (Option.some.inj (Except.ok.inj hl))
      rw [hid, (ProcessedTransaction.mk.inj hp).2.2]
    · exact hs.named id h status fee l hl
  case stored =>
    intro l hl
    rw [hinfo]
    obtain hold | rfl := hchange.mem hl
    · rw [if_neg (hne hold)]
      exact hs.stored l hold
    · exact ⟨_, _, _, if_pos rfl⟩
  case contains =>
    intro l hl
    rw [CompositeStateReader.view_containsTransaction, Bool.or_eq_true]
    obtain hold | rfl := hchange.mem hl
    · exact .inr (hs.contains l hold)
    · refine .inl ?_
      change (((Diff.apply height _ c related).transactions).lookup _).isSome = true
      rw [Diff.lookup_transactions_apply, if_pos rfl]
      rfl
  case active => exact fun l hactive => hchange.active hs hactive
  case parties => exact fun l hl => hchange.parties hs hl
  case leaseIn => exact fun a => (hmoves.after hs happlies a).2.1
  case leaseOut => exact fun a => (hmoves.after hs happlies a).2.2
  case noAlias =>
    intro a
    change (c.aliases.lookup a).or (s.resolveAlias a) = none
    rw [haliases, hs.noAlias]
    rfl

/-- The diff of an accepted transaction fits the state, and leaves a regular one, with the leases it
changes and the coins it brings and takes. -/
theorem HasEffect.leases (hs : s.Regular L) (hnew : s.containsTransaction tx.id = false)
    (h : HasEffect fs height s tx d)
    (hsolvent : ∀ a pf, d.portfolios.lookup a = some pf →
      BalanceDiffValidation.Solvent ((s.accountPortfolio a).combine pf)) :
    d.asBlockDiff.Fits s ∧
      (∃ L', LeaseChange L tx d.leaseState L' ∧
        (CompositeStateReader.view s d.asBlockDiff).Regular L') ∧
      (CompositeStateReader.view s d.asBlockDiff).supply
        = s.supply + tx.minted - d.chargedFee.toInt := by
  obtain ⟨c, related, h, rfl⟩ := h
  obtain ⟨L', b, hmoves, hsum, hchange⟩ := h.accounted hs.ledger hnew
  obtain ⟨df, htokens⟩ := h.tokenPart hs.entries hs.tokens
  have hout := h.leasedOut_le hs.ledger hs.sound hchange
  -- No sum of the transaction is clamped: what would overflow leaves an account insolvent.
  have happlies (a : Address) (pf : Portfolio) (hpf : c.portfolios.lookup a = some pf) :
      (s.accountPortfolio a).Applies pf :=
    hmoves.applies hs.ledger hs.sound hout hpf (hsolvent a pf hpf)
  have hfits : (Diff.apply height tx c related).asBlockDiff.Fits s :=
    { portfolio := happlies
      token := fun k v hv => by
        change c.tokenAccountBalance.lookup k = some v at hv
        rw [htokens.tokenAccountBalance] at hv
        exact htokens.addsTo k v hv
      leaseNew := fun id hid => by
        rw [hchange.started hid]
        exact hnew
      leaseTx := fun id hid => by
        change ((Finmap.singleton tx.id _ : Dict _ _).lookup id).isSome = true
        rw [hchange.started hid, Finmap.lookup_singleton_eq]
        rfl
      snapshot := fun a f hf => by cases hf
      aliases := h.aliases_eq }
  have htokenView : (CompositeStateReader.view s
      (Diff.apply height tx c related).asBlockDiff).tokens = s.tokens.after df := by
    rw [TokenState.after, ← htokens.contractTokens, ← htokens.tokenDB,
      ← htokens.tokenAccountBalance]
    rfl
  refine ⟨hfits, ⟨L', hchange, CompositeStateReader.view_sound hs.sound hfits,
    hs.ledger.view hnew hmoves hchange h.aliases_eq happlies, hs.entries.view _, ?_⟩, ?_⟩
  · rw [htokenView]
    exact htokens.conserved
  · calc (CompositeStateReader.view s (Diff.apply height tx c related).asBlockDiff).supply
        = ∑ a, ((s.accountPortfolio a).balance.toInt + b a) :=
          Finset.sum_congr rfl fun a _ => (hmoves.after hs.ledger happlies a).1
      _ = s.supply + (tx.minted - c.chargedFee.toInt) := by
          rw [Finset.sum_add_distrib, hsum]
          rfl
      _ = s.supply + tx.minted - c.chargedFee.toInt := by omega

/-- The same without the leases. -/
theorem HasEffect.regular (hs : s.Regular L) (hnew : s.containsTransaction tx.id = false)
    (h : HasEffect fs height s tx d)
    (hsolvent : ∀ a pf, d.portfolios.lookup a = some pf →
      BalanceDiffValidation.Solvent ((s.accountPortfolio a).combine pf)) :
    d.asBlockDiff.Fits s ∧ (∃ L', (CompositeStateReader.view s d.asBlockDiff).Regular L') ∧
      (CompositeStateReader.view s d.asBlockDiff).supply
        = s.supply + tx.minted - d.chargedFee.toInt := by
  obtain ⟨hfits, ⟨L', -, hregular⟩, hsupply⟩ := h.leases hs hnew hsolvent
  exact ⟨hfits, ⟨L', hregular⟩, hsupply⟩

end Step

end Vsys
