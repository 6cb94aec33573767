import Vsys.Chain.PoolRuns

/-!
# The portfolios of the pool

`portfolio` combines the portfolio of an account with what the pooled transactions take from it.
What they take is collected as a set, so two that take the same count once; as long as no two do,
the portfolio is the one of the state with the changes of all pooled transactions.
-/

namespace Vsys

open Lib

section Platform

variable [Platform]

namespace UtxPool

/-- The transaction that an operation adds to the pool, with its diff. -/
def Operation.admits (fs : FunctionalitySettings) (utxSettings : UtxSettings) (pool : UtxPool) :
    Operation → Option (ByteStr × Diff)
  | .putIfNew stateReader history currentTs tx =>
      match pool.knownTransactions.lookup tx.id,
          validate fs utxSettings stateReader history currentTs pool tx with
      | none, .ok diff => some (tx.id, diff)
      | _, _ => none
  | _ => none

/-- The pool with the portfolios of the diff that each transaction was last accepted with. -/
structure Audited where
  pool : UtxPool
  portfolios : Dict ByteStr (Dict Address Portfolio)

namespace Audited

open PessimisticPortfolios (change)

/-- The pool of a node that has just started. -/
def start : Audited := ⟨UtxPool.empty, ∅⟩

/-- An operation. -/
def step (fs : FunctionalitySettings) (utxSettings : UtxSettings) (s : Audited) (op : Operation) :
    Audited × List Unit :=
  (⟨op.run fs utxSettings s.pool,
    match op.admits fs utxSettings s.pool with
    | some (id, diff) => s.portfolios.insert id diff.portfolios
    | none => s.portfolios⟩, [])

/-- The pessimistic change of a transaction for an account. -/
def taken (s : Audited) (addr : Address) (id : ByteStr) : Portfolio :=
  (s.portfolios.lookup id).elim Portfolio.empty fun portfolios => change portfolios addr

/-- The portfolio of an account is the one of the state combined with the sum of the changes of the
pooled transactions, each taken once; `safeSum` adds them up in some order.  Where no pooled
transaction changes the account, it is the one of the state. -/
structure Counted (order : SetOrder Portfolio) (s : Audited) : Prop where
  sum : ∀ (stateReader : StateView) (addr : Address), ∃ ids : List ByteStr, ids.Nodup ∧
    (∀ id, id ∈ ids ↔ id ∈ s.pool.transactions.keys) ∧
    s.pool.portfolio order stateReader addr
      = (stateReader.accountPortfolio addr).combine
          (Portfolio.combineAll (ids.map (s.taken addr)))
  untouched : ∀ (stateReader : StateView) (addr : Address),
    (∀ id ∈ s.pool.transactions.keys, s.taken addr id = Portfolio.empty) →
      s.pool.portfolio order stateReader addr = stateReader.accountPortfolio addr

/-- A transaction that is added takes from no account the same as another one in the pool, and one
that comes again after the cache has forgotten it takes something if it did so before. -/
structure Distinct (fs : FunctionalitySettings) (utxSettings : UtxSettings) (s : Audited)
    (op : Operation) : Prop where
  different : ∀ id diff, op.admits fs utxSettings s.pool = some (id, diff) →
    ∀ other ∈ s.pool.transactions.keys, other ≠ id → ∀ addr, s.taken addr other ≠ Portfolio.empty →
      change diff.portfolios addr ≠ s.taken addr other
  renewed : ∀ id diff, op.admits fs utxSettings s.pool = some (id, diff) →
    id ∈ s.pool.transactions.keys → (∃ addr, s.taken addr id ≠ Portfolio.empty) →
      ∃ addr, change diff.portfolios addr ≠ Portfolio.empty

/-- What is kept of a pool is what its transactions take. -/
structure Sound (s : Audited) : Prop where
  indexed : s.pool.pessimisticPortfolios.Indexed
  kept : ∀ id ∈ s.pool.transactions.keys, ∀ addr, s.pool.pessimisticPortfolios.entry addr id
    = if s.taken addr id = Portfolio.empty then none else some (s.taken addr id)
  absent : ∀ id, id ∉ s.pool.transactions.keys → ∀ addr,
    s.pool.pessimisticPortfolios.entry addr id = none

/-- No two transactions of the pool take the same from an account, unless nothing. -/
def Apart (s : Audited) : Prop :=
  ∀ id ∈ s.pool.transactions.keys, ∀ other ∈ s.pool.transactions.keys, id ≠ other → ∀ addr,
    s.taken addr id = s.taken addr other → s.taken addr id = Portfolio.empty

variable {fs : FunctionalitySettings} {utxSettings : UtxSettings} {s : Audited} {op : Operation}
  {ops : List Operation} {order : SetOrder Portfolio} {pool : UtxPool}
  {portfolios : Dict ByteStr (Dict Address Portfolio)} {ps : Dict Address Portfolio}
  {addr : Address}

theorem admits_putIfNew {stateReader : StateView} {history : History} {currentTs : Int64}
    {tx : Transaction} {id : ByteStr} {diff : Diff}
    (h : (Operation.putIfNew stateReader history currentTs tx).admits fs utxSettings pool
      = some (id, diff)) :
    id = tx.id ∧ validate fs utxSettings stateReader history currentTs pool tx = .ok diff := by
  rw [Operation.admits] at h
  split at h
  · rename_i diff' _ hvalid
    obtain ⟨rfl, rfl⟩ := Prod.mk.inj (Option.some.inj h)
    exact ⟨rfl, hvalid⟩
  · cases h

theorem sound_start : start.Sound where
  indexed := fun _ _ h => by cases h
  kept := fun id hid => absurd hid (Finset.notMem_empty id)
  absent := fun _ _ _ => rfl

theorem Sound.drop (h : Sound ⟨pool, portfolios⟩) (id : ByteStr) :
    Sound ⟨pool.drop id, portfolios⟩ where
  indexed := h.indexed.remove
  kept := fun id' hid addr => by
    change id' ∈ (pool.transactions.erase id).keys at hid
    rw [Finmap.keys_erase, Finset.mem_erase] at hid
    show (pool.pessimisticPortfolios.remove id).entry addr id' = _
    rw [PessimisticPortfolios.entry_remove, if_neg hid.1]
    exact h.kept id' hid.2 addr
  absent := fun id' hid addr => by
    change id' ∉ (pool.transactions.erase id).keys at hid
    rw [Finmap.keys_erase, Finset.mem_erase, not_and] at hid
    show (pool.pessimisticPortfolios.remove id).entry addr id' = _
    rw [PessimisticPortfolios.entry_remove]
    split
    · rfl
    · rename_i hne
      exact h.absent id' (hid hne) addr

theorem Apart.drop (h : Apart ⟨pool, portfolios⟩) (id : ByteStr) :
    Apart ⟨pool.drop id, portfolios⟩ := by
  intro id' hid other hother
  change id' ∈ (pool.transactions.erase id).keys at hid
  change other ∈ (pool.transactions.erase id).keys at hother
  rw [Finmap.keys_erase, Finset.mem_erase] at hid hother
  exact h id' hid.2 other hother.2

variable (op) in
/-- An operation either adds one transaction, or changes the pool as dropping and remembering do. -/
theorem step_cases {I : UtxPool → Prop} (hI : I s.pool) (hdrop : ∀ pool id, I pool → I (pool.drop id))
    (hknown : ∀ pool known, I pool → I { pool with knownTransactions := known }) :
    (∃ tx diff, op.admits fs utxSettings s.pool = some (Transaction.id tx, diff) ∧
      ∃ known, (step fs utxSettings s op).1
        = ⟨⟨s.pool.transactions.insert tx.id tx, known, s.pool.pessimisticPortfolios.add tx.id diff⟩,
            s.portfolios.insert tx.id diff.portfolios⟩) ∨
      I (op.run fs utxSettings s.pool) ∧
        (step fs utxSettings s op).1 = ⟨op.run fs utxSettings s.pool, s.portfolios⟩ := by
  cases op with
  | putIfNew stateReader history currentTs tx =>
      cases hrun : putIfNew fs utxSettings stateReader history currentTs tx s.pool with
      | mk r pool' =>
        have hpool : (Operation.putIfNew stateReader history currentTs tx).run fs utxSettings s.pool
            = pool' := by rw [Operation.run, hrun]
        obtain ⟨rfl, hknown'⟩ | ⟨hnew, ⟨diff, hvalid, -, rfl⟩ | ⟨er, hvalid, -, rfl⟩ |
          ⟨e, hvalid, -, rfl⟩⟩ := putIfNew_cases hrun
        -- A transaction that is remembered, or does not validate, is not added.
        · have hnone : (Operation.putIfNew stateReader history currentTs tx).admits fs utxSettings
              s.pool = none := by
            rw [Operation.admits]
            obtain ⟨known, hlookup, -⟩ | ⟨er, hlookup, -⟩ := hknown' <;> rw [hlookup]
          refine .inr ⟨?_, by rw [step, hnone]⟩
          rw [hpool]
          exact hI
        · have hadmits : (Operation.putIfNew stateReader history currentTs tx).admits fs utxSettings
              s.pool = some (tx.id, diff) := by
            rw [Operation.admits, hnew, hvalid]
          refine .inl ⟨tx, diff, hadmits, ((Operation.putIfNew stateReader history currentTs tx).run
            fs utxSettings s.pool).knownTransactions, ?_⟩
          rw [step, hpool, hadmits]
          rfl
        · have hnone : (Operation.putIfNew stateReader history currentTs tx).admits fs utxSettings
              s.pool = none := by
            rw [Operation.admits, hnew, hvalid]
            rfl
          refine .inr ⟨?_, by rw [step, hnone]⟩
          rw [hpool]
          exact hknown s.pool _ hI
        · have hnone : (Operation.putIfNew stateReader history currentTs tx).admits fs utxSettings
              s.pool = none := by
            rw [Operation.admits, hnew, hvalid]
            rfl
          refine .inr ⟨?_, by rw [step, hnone]⟩
          rw [hpool]
          exact hI
  | removeAll currentTs txs =>
      exact .inr ⟨keeps_of_drop_removeAll hdrop (fun pool id h => hknown pool _ h) currentTs txs
        s.pool hI, rfl⟩
  | packUnconfirmed stateReader history currentTs =>
      exact .inr ⟨keeps_of_drop_packUnconfirmed hdrop stateReader history currentTs s.pool hI,
        rfl⟩
  | removeExpired currentTs =>
      exact .inr ⟨keeps_of_drop_removeExpired hdrop currentTs s.pool hI, rfl⟩

/-- The changes after one more transaction has been added. -/
theorem taken_insert (id id' : ByteStr) :
    taken ⟨pool, portfolios.insert id ps⟩ addr id'
      = if id' = id then change ps addr else taken ⟨pool, portfolios⟩ addr id' := by
  rw [taken, Dict.lookup_insert_eq]
  split <;> rfl

theorem Sound.step (h : s.Sound)
    (hrenewed : ∀ id diff, op.admits fs utxSettings s.pool = some (id, diff) →
      id ∈ s.pool.transactions.keys → (∃ addr, s.taken addr id ≠ Portfolio.empty) →
        ∃ addr, change diff.portfolios addr ≠ Portfolio.empty) :
    (step fs utxSettings s op).1.Sound := by
  -- Only an addition can disturb the portfolios; dropping and remembering keep them.
  obtain ⟨tx, diff, hadmits, known, hstep⟩ | ⟨hsound, hstep⟩ :=
    step_cases op (I := fun pool => Sound ⟨pool, s.portfolios⟩) h (fun _ id h => h.drop id)
      fun _ _ h => ⟨h.indexed, h.kept, h.absent⟩
  · rw [hstep]
    constructor
    case indexed => exact h.indexed.add
    case kept =>
      intro id hid addr
      rw [taken_insert]
      by_cases hsame : id = tx.id
      · rw [if_pos hsame, hsame]
        by_cases hsome : ∃ a, change diff.portfolios a ≠ Portfolio.empty
        · exact PessimisticPortfolios.entry_add_self hsome
        · -- a diff that takes nothing is not noted, and there was nothing to be replaced
          have hnone : ∀ a, change diff.portfolios a = Portfolio.empty :=
            fun a => not_not.mp (not_exists.mp hsome a)
          rw [PessimisticPortfolios.add_of_forall hnone, if_pos (hnone addr)]
          by_cases hpooled : tx.id ∈ s.pool.transactions.keys
          · have hbefore : s.taken addr tx.id = Portfolio.empty := by
              by_contra htaken
              exact hsome (hrenewed tx.id diff hadmits hpooled ⟨addr, htaken⟩)
            exact (h.kept tx.id hpooled addr).trans (if_pos hbefore)
          · exact h.absent tx.id hpooled addr
      · have hold := (Finmap.mem_insert.mp (Finmap.mem_keys.mp hid)).resolve_left hsame
        rw [if_neg hsame, PessimisticPortfolios.entry_add_of_ne hsame]
        exact h.kept id (Finmap.mem_keys.mpr hold) addr
    case absent =>
      intro id hid addr
      rw [Finmap.mem_keys, Finmap.mem_insert, not_or] at hid
      show (s.pool.pessimisticPortfolios.add tx.id diff).entry addr id = none
      rw [PessimisticPortfolios.entry_add_of_ne hid.1]
      exact h.absent id (fun hin => hid.2 (Finmap.mem_keys.mp hin)) addr
  · rw [hstep]
    exact hsound

theorem Apart.step (h : s.Apart) (hop : Distinct fs utxSettings s op) :
    (step fs utxSettings s op).1.Apart := by
  obtain ⟨tx, diff, hadmits, known, hstep⟩ | ⟨hapart, hstep⟩ :=
    step_cases op (I := fun pool => Apart ⟨pool, s.portfolios⟩) h (fun _ id h => h.drop id)
      fun _ _ h => h
  · rw [hstep]
    intro id hid other hother hne addr
    rw [Finmap.mem_keys, Finmap.mem_insert] at hid hother
    rw [taken_insert, taken_insert]
    have hdifferent := hop.different tx.id diff hadmits
    by_cases hsame : id = tx.id
    · have hpooled := hother.resolve_left fun heq => hne (hsame.trans heq.symm)
      rw [if_pos hsame, if_neg fun heq => hne (hsame.trans heq.symm)]
      intro heq
      by_contra htaken
      rw [heq] at htaken
      exact hdifferent other (Finmap.mem_keys.mpr hpooled) (fun h' => hne (hsame.trans h'.symm)) addr
        htaken heq
    · have hpooled := hid.resolve_left hsame
      rw [if_neg hsame]
      by_cases hsame' : other = tx.id
      · rw [if_pos hsame']
        intro heq
        by_contra htaken
        exact hdifferent id (Finmap.mem_keys.mpr hpooled) hsame addr htaken heq.symm
      · rw [if_neg hsame']
        exact h id (Finmap.mem_keys.mpr hpooled) other
          (Finmap.mem_keys.mpr (hother.resolve_left hsame')) hne addr
  · rw [hstep]
    exact hapart

/-- What is kept for an account is what the transactions of the pool take from it. -/
theorem Sound.mem_portfoliosOf (h : s.Sound) {q : Portfolio} :
    q ∈ s.pool.pessimisticPortfolios.portfoliosOf addr ↔
      ∃ id ∈ s.pool.transactions.keys, s.taken addr id ≠ Portfolio.empty ∧ s.taken addr id = q := by
  rw [h.indexed.mem_portfoliosOf]
  refine exists_congr fun id => ?_
  by_cases hin : id ∈ s.pool.transactions.keys
  · rw [h.kept id hin addr]
    split <;> simp_all
  · rw [h.absent id hin addr]
    simp [hin]

omit [Platform] in
/-- Empty portfolios at the end add nothing. -/
theorem combineAll_append_empty {qs rest : List Portfolio} (h : ∀ q ∈ rest, q = Portfolio.empty) :
    Portfolio.combineAll (qs ++ rest) = Portfolio.combineAll qs := by
  rw [Portfolio.combineAll, List.foldl_append]
  induction rest generalizing qs with
  | nil => rfl
  | cons q rest ih =>
      rw [List.foldl_cons, h q List.mem_cons_self, Portfolio.combine_empty]
      exact ih fun q' hq' => h q' (List.mem_cons_of_mem q hq')

/-- When the transactions take different amounts, each of them is counted. -/
theorem Sound.counted (h : s.Sound) (hapart : s.Apart) : s.Counted order := by
  constructor
  case sum =>
    intro stateReader addr
    have hperm : (order.toList (s.pool.pessimisticPortfolios.portfoliosOf addr)).Perm
        ((s.pool.transactions.keys.filter fun id =>
          s.taken addr id ≠ Portfolio.empty).toList.map (s.taken addr)) := by
      rw [List.perm_ext_iff_of_nodup (order.nodup_toList _)]
      · intro q
        rw [order.mem_toList, h.mem_portfoliosOf]
        simp [and_assoc]
      · refine List.Nodup.map_on ?_ (Finset.nodup_toList _)
        intro id hid other hother heq
        rw [Finset.mem_toList, Finset.mem_filter] at hid hother
        by_contra hne
        exact hid.2 (hapart id hid.1 other hother.1 hne addr heq)
    obtain ⟨ids, hids, hsame⟩ : ∃ ids : List ByteStr, order.toList (s.pool.pessimisticPortfolios.portfoliosOf addr)
        = ids.map (s.taken addr) ∧ ids.Perm (s.pool.transactions.keys.filter fun id =>
          s.taken addr id ≠ Portfolio.empty).toList :=
      (congrFun₂ (List.eq_map_comp_perm (s.taken addr)) _ _).mpr hperm
    -- the transactions that take nothing from the account come last
    refine ⟨ids ++ (s.pool.transactions.keys.filter fun id =>
      s.taken addr id = Portfolio.empty).toList, ?_, fun id => ?_, ?_⟩
    · rw [List.nodup_append]
      refine ⟨hsame.nodup_iff.mpr (Finset.nodup_toList _), Finset.nodup_toList _, ?_⟩
      intro id hid other hother heq
      rw [hsame.mem_iff, Finset.mem_toList, Finset.mem_filter] at hid
      rw [Finset.mem_toList, Finset.mem_filter] at hother
      exact hid.2 (heq ▸ hother.2)
    · rw [List.mem_append, hsame.mem_iff, Finset.mem_toList, Finset.mem_toList, Finset.mem_filter,
        Finset.mem_filter, ← and_or_left]
      simp [em']
    · rw [portfolio, PessimisticPortfolios.getAggregated, hids, List.map_append,
        combineAll_append_empty]
      intro q hq
      obtain ⟨id, hid, rfl⟩ := List.mem_map.mp hq
      exact (Finset.mem_filter.mp (Finset.mem_toList.mp hid)).2
  case untouched =>
    intro stateReader addr hnone
    have hempty : order.toList (s.pool.pessimisticPortfolios.portfoliosOf addr) = [] := by
      refine List.eq_nil_iff_forall_not_mem.mpr fun q hq => ?_
      rw [order.mem_toList, h.mem_portfoliosOf] at hq
      obtain ⟨id, hid, htaken, -⟩ := hq
      exact htaken (hnone id hid)
    rw [portfolio, PessimisticPortfolios.getAggregated, hempty]
    exact Portfolio.combine_empty _

/-- When all transactions of the pool take the same from an account, it is counted once. -/
theorem Sound.portfolio_of_equal (h : s.Sound) {q : Portfolio} (hne : q ≠ Portfolio.empty)
    (hsome : s.pool.transactions.keys.Nonempty)
    (hall : ∀ id ∈ s.pool.transactions.keys, s.taken addr id = q) (stateReader : StateView) :
    s.pool.portfolio order stateReader addr = (stateReader.accountPortfolio addr).combine q := by
  have honce : s.pool.pessimisticPortfolios.portfoliosOf addr = {q} := by
    ext q'
    rw [h.mem_portfoliosOf, Finset.mem_singleton]
    constructor
    · rintro ⟨id, hid, -, rfl⟩
      exact hall id hid
    · rintro rfl
      obtain ⟨id, hid⟩ := hsome
      exact ⟨id, hid, by rw [hall id hid]; exact hne, hall id hid⟩
  rw [portfolio, PessimisticPortfolios.getAggregated, honce, order.toList_singleton,
    Portfolio.combineAll, List.foldl_cons, List.foldl_nil, Portfolio.empty_combine]

/-- It should be counted as often as there are transactions. -/
theorem Counted.portfolio_of_equal (h : s.Counted order) {q : Portfolio}
    (hall : ∀ id ∈ s.pool.transactions.keys, s.taken addr id = q) (stateReader : StateView) :
    s.pool.portfolio order stateReader addr = (stateReader.accountPortfolio addr).combine
      (Portfolio.combineAll (List.replicate s.pool.transactions.keys.card q)) := by
  obtain ⟨ids, hnodup, hids, hsum⟩ := h.sum stateReader addr
  have hkeys : ids.toFinset = s.pool.transactions.keys := by
    ext id
    rw [List.mem_toFinset]
    exact hids id
  have hmap : ids.map (s.taken addr) = List.replicate s.pool.transactions.keys.card q := by
    rw [List.eq_replicate_iff, List.length_map, ← hkeys, List.toFinset_card_of_nodup hnodup]
    refine ⟨rfl, fun q' hq' => ?_⟩
    obtain ⟨id, hid, rfl⟩ := List.mem_map.mp hq'
    exact hall id ((hids id).mp hid)
  rw [hsum, hmap]

/-- A transaction that is not in the pool replaces none. -/
theorem renewed_of_new {stateReader : StateView} {history : History} {currentTs : Int64}
    {tx : Transaction} (hnew : tx.id ∉ s.pool.transactions.keys) (id : ByteStr) (diff : Diff)
    (hadmits : (Operation.putIfNew stateReader history currentTs tx).admits fs utxSettings s.pool
      = some (id, diff)) (hid : id ∈ s.pool.transactions.keys)
    (_ : ∃ addr, s.taken addr id ≠ Portfolio.empty) :
    ∃ addr, change diff.portfolios addr ≠ Portfolio.empty := by
  obtain ⟨rfl, -⟩ := admits_putIfNew hadmits
  exact absurd hid hnew

/-- A transaction that is not in the pool is told apart by the balance it takes from the one account
that the others take from. -/
theorem Distinct.of_payer {stateReader : StateView} {history : History} {currentTs : Int64}
    {tx : Transaction} {p : Address} (hnew : tx.id ∉ s.pool.transactions.keys)
    (hpayer : ∀ other ∈ s.pool.transactions.keys,
      ∀ a ∈ ((s.portfolios.lookup other).getD ∅).keys, a = p ∨ (s.taken a other).isEmpty = true)
    (hbalance : ∀ other ∈ s.pool.transactions.keys, (change (okOr (validate fs utxSettings
      stateReader history currentTs s.pool tx) Diff.empty).portfolios p).balance
        ≠ (s.taken p other).balance) :
    Distinct fs utxSettings s (.putIfNew stateReader history currentTs tx) where
  different := fun id diff hadmits other hother _ addr htaken heq => by
    obtain ⟨rfl, hvalid⟩ := admits_putIfNew hadmits
    by_cases hsame : addr = p
    · refine hbalance other hother ?_
      rw [hvalid, ← hsame, ← heq]
      rfl
    · by_cases hkeys : addr ∈ ((s.portfolios.lookup other).getD ∅).keys
      · exact htaken (PessimisticPortfolios.isEmpty_iff.mp
          ((hpayer other hother addr hkeys).resolve_left hsame))
      · refine htaken ?_
        rw [taken]
        cases hlookup : s.portfolios.lookup other with
        | none => rfl
        | some ps =>
            rw [hlookup, Option.getD_some] at hkeys
            rw [Option.elim_some, change, Dict.notMem_keys.mp hkeys]
            rfl
  renewed := renewed_of_new hnew

/-- An operation that adds nothing. -/
theorem Distinct.of_none (h : op.admits fs utxSettings s.pool = none) :
    Distinct fs utxSettings s op where
  different := fun _ _ hadmits => by
    rw [h] at hadmits
    cases hadmits
  renewed := fun _ _ hadmits => by
    rw [h] at hadmits
    cases hadmits

/-- Changes of the balance alone that are equal. -/
theorem taken_eq_of_balance {balance : Int64}
    (h : ∀ id ∈ s.pool.transactions.keys, (s.taken addr id).balance = balance ∧
      (s.taken addr id).leaseInfo = LeaseInfo.empty ∧ (s.taken addr id).assets.isEmpty = true) :
    ∀ id ∈ s.pool.transactions.keys, s.taken addr id = Portfolio.ofBalance balance := by
  intro id hid
  obtain ⟨hbalance, hlease, hassets⟩ := h id hid
  exact Portfolio.ext hbalance hlease (Dict.eq_empty_of_isEmpty hassets)

/-- In every run in which each transaction that enters the pool takes something different from the
others, the portfolios are those of the state with the changes of all pooled transactions. -/
theorem counted_of_distinct
    (hops : Transducer.Along (step fs utxSettings) (Distinct fs utxSettings) start ops) :
    Counted order (Transducer.after (step fs utxSettings) start ops) := by
  -- Two invariants along the run: the portfolios are those of the pooled transactions, and these
  -- take different things.
  have hinvariant := hops.after (I := fun s => s.Sound ∧ s.Apart)
    (fun s op hop h => ⟨h.1.step hop.renewed, h.2.step hop⟩)
    ⟨sound_start, fun id hid => absurd hid (Finset.notMem_empty id)⟩
  exact hinvariant.1.counted hinvariant.2

end Audited

end UtxPool

end Platform

namespace Sample

open UtxPool

/-- A larger payment from the owner to the tenant. -/
def largerTransfer : Transaction :=
  .payment ⟨tenant, 6, 100, 100, 1, [], proofs, noAttachment_length, by decide, fee_pos, by decide,
    feeScale_eq⟩

/-- Two different payments enter the pool, and one of them leaves it with a block. -/
def differentEvents : List Operation :=
  [.putIfNew afterGenesis.1.toStateView history 1 (transfer 1),
    .putIfNew afterGenesis.1.toStateView history 1 largerTransfer, .removeAll 2 [transfer 1]]

/-- Two payments of the same amount enter the pool. -/
def equalEvents : List Operation :=
  [.putIfNew afterGenesis.1.toStateView history 1 (transfer 1),
    .putIfNew afterGenesis.1.toStateView history 1 (transfer 2)]

/-- The pool with the two equal payments. -/
def equalPool : Audited := Transducer.after (Audited.step fs poolSettings) Audited.start equalEvents

/-- Some order of portfolios. -/
noncomputable def setOrder : SetOrder Portfolio :=
  ⟨Finset.toList, Finset.nodup_toList, fun _ _ => Finset.mem_toList⟩

theorem differentEvents_counted : Audited.Counted setOrder
    (Transducer.after (Audited.step fs poolSettings) Audited.start differentEvents) :=
  Audited.counted_of_distinct
    ⟨.of_payer (p := owner) (by decide +kernel) (by decide +kernel) (by decide +kernel),
      .of_payer (p := owner) (by decide +kernel) (by decide +kernel) (by decide +kernel),
      .of_none rfl, trivial⟩

theorem equalPool_sound : equalPool.Sound :=
  (Audited.sound_start.step (Audited.renewed_of_new (by decide +kernel))).step
    (Audited.renewed_of_new (by decide +kernel))

theorem equalPool_taken : ∀ id ∈ equalPool.pool.transactions.keys,
    equalPool.taken owner id = Portfolio.ofBalance (-105) :=
  Audited.taken_eq_of_balance (by decide +kernel)

/-- Two payments of the same amount are in the pool, and one of them is counted. -/
theorem equalPool_miscounted : ¬Audited.Counted setOrder equalPool := by
  intro hcounted
  have hone : equalPool.pool.portfolio setOrder afterGenesis.1.toStateView owner
      = (afterGenesis.1.accountPortfolio owner).combine (Portfolio.ofBalance (-105)) :=
    equalPool_sound.portfolio_of_equal (by decide +kernel) (by decide +kernel) equalPool_taken _
  have htwo := hcounted.portfolio_of_equal equalPool_taken afterGenesis.1.toStateView
  exact absurd (congrArg Portfolio.balance (hone.symm.trans htwo)) (by decide +kernel)

end Sample

end Vsys
