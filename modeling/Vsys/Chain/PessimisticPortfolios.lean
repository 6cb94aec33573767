import Vsys.Lib.Ordered
import Vsys.State.Stacking

/-!
# Pessimistic portfolios

`UtxPool.PessimisticPortfolios`: what the pooled transactions take away from the accounts, by
transaction and, for each account, the transactions that take something from it.
-/

namespace Vsys

open Lib

/-- `pessimistic`: the part that takes something away. -/
def Portfolio.pessimistic (p : Portfolio) : Portfolio where
  balance := min p.balance 0
  leaseInfo := ⟨0, max p.leaseInfo.leaseOut 0⟩
  assets := Dict.filterValues (fun v => v < 0) p.assets

/-- `isEmpty`: whether it equals `Monoid.empty`, part by part. -/
def Portfolio.isEmpty (p : Portfolio) : Bool :=
  p.balance = 0 ∧ p.leaseInfo = LeaseInfo.empty ∧ p.assets.isEmpty

/-- `Monoid.combineAll`. -/
def Portfolio.combineAll (portfolios : List Portfolio) : Portfolio :=
  portfolios.foldl Portfolio.combine Portfolio.empty

/-- An order in which a hash set lists its elements. -/
structure SetOrder (α : Type) where
  toList : Finset α → List α
  nodup_toList : ∀ s, (toList s).Nodup
  mem_toList : ∀ s a, a ∈ toList s ↔ a ∈ s

theorem SetOrder.toList_singleton {α : Type} [DecidableEq α] (order : SetOrder α) (a : α) :
    order.toList {a} = [a] := by
  refine List.perm_singleton.mp ?_
  rw [List.perm_ext_iff_of_nodup (order.nodup_toList _) (List.nodup_singleton a)]
  intro b
  rw [order.mem_toList, Finset.mem_singleton, List.mem_singleton]

variable [Platform]

/-- The fields of `PessimisticPortfolios`. -/
structure PessimisticPortfolios where
  transactionPortfolios : Dict ByteStr (Dict Address Portfolio)
  transactions : Dict Address (Finset ByteStr)

namespace PessimisticPortfolios

/-- A new one. -/
def empty : PessimisticPortfolios := ⟨∅, ∅⟩

/-- `nonEmptyPessimisticPortfolios`. -/
def nonEmpty (portfolios : Dict Address Portfolio) : Dict Address Portfolio :=
  Dict.filterValues (fun portfolio => !portfolio.isEmpty)
    (Dict.mapValues (fun _ portfolio => portfolio.pessimistic) portfolios)

/-- `add`. -/
def add (p : PessimisticPortfolios) (txId : ByteStr) (txDiff : Diff) : PessimisticPortfolios :=
  let nonEmptyPessimisticPortfolios := nonEmpty txDiff.portfolios
  if nonEmptyPessimisticPortfolios.isEmpty then p
  else
    { transactionPortfolios := p.transactionPortfolios.insert txId nonEmptyPessimisticPortfolios
      transactions := Dict.updateWith (fun txIds _ => insert txId txIds) ∅ p.transactions
        nonEmptyPessimisticPortfolios }

/-- The portfolios of an account; equal ones are one element of the set. -/
def portfoliosOf (p : PessimisticPortfolios) (accountAddr : Address) : Finset Portfolio :=
  ((p.transactions.lookup accountAddr).getD ∅).biUnion fun txId =>
    ((p.transactionPortfolios.lookup txId).bind fun txPortfolios =>
      txPortfolios.lookup accountAddr).toFinset

/-- `getAggregated`. -/
def getAggregated (order : SetOrder Portfolio) (p : PessimisticPortfolios)
    (accountAddr : Address) : Portfolio :=
  Portfolio.combineAll (order.toList (p.portfoliosOf accountAddr))

/-- `remove`. -/
def remove (p : PessimisticPortfolios) (txId : ByteStr) : PessimisticPortfolios where
  transactionPortfolios := p.transactionPortfolios.erase txId
  transactions := Dict.mapValues (fun _ txIds => txIds.erase txId) p.transactions

/-- What a transaction with some portfolios takes away from an account. -/
def change (portfolios : Dict Address Portfolio) (addr : Address) : Portfolio :=
  (portfolios.lookup addr).elim Portfolio.empty Portfolio.pessimistic

/-- What is kept about an account and a transaction. -/
def entry (p : PessimisticPortfolios) (addr : Address) (txId : ByteStr) : Option Portfolio :=
  (p.transactionPortfolios.lookup txId).bind fun txPortfolios => txPortfolios.lookup addr

/-- A transaction that takes something from an account is listed with the account. -/
def Indexed (p : PessimisticPortfolios) : Prop :=
  ∀ addr txId, (p.entry addr txId).isSome → txId ∈ (p.transactions.lookup addr).getD ∅

variable {p : PessimisticPortfolios} {portfolios : Dict Address Portfolio} {diff : Diff}
  {addr : Address} {id txId : ByteStr}

omit [Platform] in
theorem isEmpty_iff {q : Portfolio} : q.isEmpty = true ↔ q = Portfolio.empty := by
  rw [Portfolio.isEmpty, decide_eq_true_eq]
  constructor
  · rintro ⟨hbalance, hlease, hassets⟩
    exact Portfolio.ext hbalance hlease (Dict.eq_empty_of_isEmpty hassets)
  · rintro rfl
    exact ⟨rfl, rfl, rfl⟩

theorem lookup_nonEmpty : (nonEmpty portfolios).lookup addr
    = if change portfolios addr = Portfolio.empty then none else some (change portfolios addr) := by
  rw [nonEmpty, Dict.lookup_filterValues, Dict.lookup_mapValues, change]
  cases portfolios.lookup addr with
  | none => rfl
  | some q =>
      rw [Option.map_some, Option.elim_some, Option.filter_some]
      by_cases hempty : q.pessimistic = Portfolio.empty
      · rw [if_pos hempty, isEmpty_iff.mpr hempty]
        rfl
      · have hfalse : q.pessimistic.isEmpty = false := by
          rw [← Bool.not_eq_true, isEmpty_iff]
          exact hempty
        rw [if_neg hempty, hfalse]
        rfl

/-- A diff that takes nothing from any account. -/
theorem isEmpty_nonEmpty_iff : (nonEmpty portfolios).isEmpty = true ↔
    ∀ addr, change portfolios addr = Portfolio.empty := by
  rw [Dict.isEmpty_iff]
  refine forall_congr' fun addr => ?_
  rw [lookup_nonEmpty]
  split <;> simp_all

/-- A diff that takes nothing is not noted. -/
theorem add_of_forall (h : ∀ a, change diff.portfolios a = Portfolio.empty) : p.add id diff = p :=
  if_pos (isEmpty_nonEmpty_iff.mpr h)

theorem add_of_exists (h : ∃ a, change diff.portfolios a ≠ Portfolio.empty) :
    p.add id diff =
      { transactionPortfolios := p.transactionPortfolios.insert id (nonEmpty diff.portfolios)
        transactions := Dict.updateWith (fun txIds _ => insert id txIds) ∅ p.transactions
          (nonEmpty diff.portfolios) } := by
  refine if_neg fun hempty => ?_
  obtain ⟨a, ha⟩ := h
  exact ha (isEmpty_nonEmpty_iff.mp hempty a)

/-- What is kept about a transaction that takes something. -/
theorem entry_add_self (h : ∃ a, change diff.portfolios a ≠ Portfolio.empty) :
    (p.add id diff).entry addr id
      = if change diff.portfolios addr = Portfolio.empty then none
        else some (change diff.portfolios addr) := by
  rw [add_of_exists h, entry, Finmap.lookup_insert, Option.bind_some, lookup_nonEmpty]

theorem entry_add_of_ne (hid : txId ≠ id) :
    (p.add id diff).entry addr txId = p.entry addr txId := by
  by_cases hsome : ∃ a, change diff.portfolios a ≠ Portfolio.empty
  · rw [add_of_exists hsome, entry, Finmap.lookup_insert_of_ne _ hid]
    rfl
  · rw [add_of_forall fun a => not_not.mp (not_exists.mp hsome a)]

theorem entry_remove :
    (p.remove id).entry addr txId = if txId = id then none else p.entry addr txId := by
  rw [remove, entry, Dict.lookup_erase_eq]
  by_cases hid : txId = id
  · rw [if_pos hid, if_pos hid]
    rfl
  · rw [if_neg hid, if_neg hid]
    rfl

theorem Indexed.add (h : p.Indexed) : (p.add id diff).Indexed := by
  by_cases hsome : ∃ a, change diff.portfolios a ≠ Portfolio.empty
  · intro addr txId hentry
    by_cases hid : txId = id
    · rw [hid, entry_add_self hsome] at hentry
      rw [add_of_exists hsome, Dict.lookup_updateWith, lookup_nonEmpty]
      split at hentry
      · cases hentry
      · rename_i hchange
        rw [if_neg hchange, hid]
        exact Finset.mem_insert_self _ _
    · rw [entry_add_of_ne hid] at hentry
      have hold := h addr txId hentry
      rw [add_of_exists hsome, Dict.lookup_updateWith]
      cases (nonEmpty diff.portfolios).lookup addr with
      | none => exact hold
      | some q => exact Finset.mem_insert_of_mem hold
  · rw [add_of_forall fun a => not_not.mp (not_exists.mp hsome a)]
    exact h

theorem Indexed.remove (h : p.Indexed) : (p.remove id).Indexed := by
  intro addr txId hentry
  rw [entry_remove] at hentry
  by_cases hid : txId = id
  · rw [if_pos hid] at hentry
    cases hentry
  · rw [if_neg hid] at hentry
    have hold := h addr txId hentry
    rw [PessimisticPortfolios.remove, Dict.lookup_mapValues]
    cases hlookup : p.transactions.lookup addr with
    | none =>
        rw [hlookup] at hold
        exact absurd hold (Finset.notMem_empty _)
    | some txIds =>
        rw [hlookup] at hold
        exact Finset.mem_erase.mpr ⟨hid, hold⟩

/-- The portfolios of an account are those that are kept for it. -/
theorem Indexed.mem_portfoliosOf (h : p.Indexed) {q : Portfolio} :
    q ∈ p.portfoliosOf addr ↔ ∃ txId, p.entry addr txId = some q := by
  rw [portfoliosOf, Finset.mem_biUnion]
  constructor
  · rintro ⟨txId, -, hq⟩
    exact ⟨txId, Option.mem_toFinset.mp hq⟩
  · rintro ⟨txId, hq⟩
    exact ⟨txId, h addr txId (by rw [hq]; rfl), Option.mem_toFinset.mpr hq⟩

end PessimisticPortfolios

end Vsys
