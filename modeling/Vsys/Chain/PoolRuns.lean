import Vsys.Chain.Leases
import Vsys.Lib.Transducer

/-!
# Runs of the pool

The operations of the pool one after another, each with the state, the history and the time it
finds.  Three of them remove transactions; only `removeAll` makes the cache forget what it removes.
So `putIfNew` answers for a transaction that the pool no longer has exactly when that one has been
dropped while its acceptance is still remembered.
-/

namespace Vsys

open Lib

section Platform

variable [Platform]

namespace UtxPool

variable {fs : FunctionalitySettings} {utxSettings : UtxSettings} {I : UtxPool → Prop}
  {pool pool' : UtxPool}

/-- What dropping transactions keeps, `removeExpired` keeps. -/
theorem keeps_of_drop_removeExpired (hdrop : ∀ pool id, I pool → I (pool.drop id))
    (currentTs : Int64) : Action.Keeps I (removeExpired utxSettings currentTs) := by
  refine Action.Keeps.get.bind fun _ => Action.Keeps.forEach fun tx _ =>
    (Action.Keeps.ofExcept _).bind fun expired => ?_
  cases expired with
  | true => exact Action.Keeps.modify fun pool h => hdrop pool tx.id h
  | false => exact Action.Keeps.pure ()

/-- What dropping and forgetting transactions keeps, `removeAll` keeps. -/
theorem keeps_of_drop_removeAll (hdrop : ∀ pool id, I pool → I (pool.drop id))
    (hforget : ∀ pool id, I pool →
      I { pool with knownTransactions := pool.knownTransactions.erase id })
    (currentTs : Int64) (txs : List Transaction) :
    Action.Keeps I (removeAll utxSettings currentTs txs) :=
  (keeps_of_drop_removeExpired hdrop currentTs).bind fun _ => Action.Keeps.forEach fun tx _ =>
    Action.Keeps.modify fun pool h => hforget (pool.drop tx.id) tx.id (hdrop pool tx.id h)

/-- What dropping transactions keeps, `packUnconfirmed` keeps. -/
theorem keeps_of_drop_packUnconfirmed (hdrop : ∀ pool id, I pool → I (pool.drop id))
    (stateReader : StateView) (history : History) (currentTs : Int64) :
    Action.Keeps I (packUnconfirmed fs utxSettings stateReader history currentTs) := by
  refine (keeps_of_drop_removeExpired hdrop currentTs).bind fun _ =>
    (Action.Keeps.ofExcept _).bind fun _ => Action.Keeps.get.bind fun _ =>
      (Action.Keeps.ofExcept _).bind fun packing => Action.Keeps.bind ?_ fun _ =>
        Action.Keeps.pure _
  refine Action.Keeps.modify fun pool h => ?_
  induction packing.invalid generalizing pool with
  | nil => exact h
  | cons id invalid ih => exact ih (pool.drop id) (hdrop pool id h)

/-- What `putIfNew` does: it answers from the cache, it takes the transaction, it remembers that it
has turned it away, or it raises and changes nothing. -/
theorem putIfNew_cases {stateReader : StateView} {history : History} {currentTs : Int64}
    {tx : Transaction} {r : Result Bool}
    (h : putIfNew fs utxSettings stateReader history currentTs tx pool = (r, pool')) :
    (pool' = pool ∧ ((∃ known, pool.knownTransactions.lookup tx.id = some (.ok known) ∧ r = .ok false)
        ∨ ∃ er, pool.knownTransactions.lookup tx.id = some (.error er) ∧ r = left er)) ∨
      (pool.knownTransactions.lookup tx.id = none ∧
        ((∃ diff, validate fs utxSettings stateReader history currentTs pool tx = .ok diff ∧
            r = .ok true ∧ pool' = remember utxSettings tx.id (.ok tx)
              { pool with
                transactions := pool.transactions.insert tx.id tx
                pessimisticPortfolios := pool.pessimisticPortfolios.add tx.id diff }) ∨
          (∃ er, validate fs utxSettings stateReader history currentTs pool tx = left er ∧
            r = left er ∧ pool' = remember utxSettings tx.id (.error er) pool) ∨
          ∃ e, validate fs utxSettings stateReader history currentTs pool tx = raise e ∧
            r = raise e ∧ pool' = pool)) := by
  rw [putIfNew, Action.bind_of_ok (Action.get_apply pool)] at h
  -- The cache answers before anything is validated.
  cases hknown : pool.knownTransactions.lookup tx.id with
  | some outcome =>
      rw [hknown] at h
      cases outcome with
      | ok known =>
          obtain ⟨rfl, rfl⟩ := Prod.mk.inj h
          exact .inl ⟨rfl, .inl ⟨known, rfl, rfl⟩⟩
      | error er =>
          obtain ⟨rfl, rfl⟩ := Prod.mk.inj h
          exact .inl ⟨rfl, .inr ⟨er, rfl, rfl⟩⟩
  | none =>
      rw [hknown] at h
      refine .inr ⟨rfl, ?_⟩
      cases hvalid : validate fs utxSettings stateReader history currentTs pool tx with
      | ok diff =>
          rw [hvalid] at h
          obtain ⟨rfl, rfl⟩ := Prod.mk.inj h
          exact .inl ⟨diff, rfl, rfl, rfl⟩
      | error fault =>
          rw [hvalid] at h
          cases fault with
          | left er =>
              obtain ⟨rfl, rfl⟩ := Prod.mk.inj h
              exact .inr (.inl ⟨er, rfl, rfl, rfl⟩)
          | raised e =>
              obtain ⟨rfl, rfl⟩ := Prod.mk.inj h
              exact .inr (.inr ⟨e, rfl, rfl, rfl⟩)

/-- An operation of the pool, with the state, the history and the time it finds. -/
inductive Operation
  | putIfNew (stateReader : StateView) (history : History) (currentTs : Int64) (tx : Transaction)
  | removeAll (currentTs : Int64) (txs : List Transaction)
  | packUnconfirmed (stateReader : StateView) (history : History) (currentTs : Int64)
  | removeExpired (currentTs : Int64)

/-- The pool that an operation leaves, also one that raises. -/
def Operation.run (fs : FunctionalitySettings) (utxSettings : UtxSettings) (pool : UtxPool) :
    Operation → UtxPool
  | .putIfNew stateReader history currentTs tx =>
      (UtxPool.putIfNew fs utxSettings stateReader history currentTs tx pool).2
  | .removeAll currentTs txs => (UtxPool.removeAll utxSettings currentTs txs pool).2
  | .packUnconfirmed stateReader history currentTs =>
      (UtxPool.packUnconfirmed fs utxSettings stateReader history currentTs pool).2
  | .removeExpired currentTs => (UtxPool.removeExpired utxSettings currentTs pool).2

/-- Whether the cache remembers that a transaction has been accepted. -/
def accepted (pool : UtxPool) (id : ByteStr) : Bool :=
  match pool.knownTransactions.lookup id with
  | some (.ok _) => true
  | _ => false

/-- What all operations do to the transactions and to the acceptances that are remembered: a new
acceptance is one of a transaction in the pool, and nothing that is remembered as accepted enters
the pool. -/
structure Evolves (pool pool' : UtxPool) : Prop where
  accepted : ∀ id, pool'.accepted id = true →
    pool.accepted id = true ∨ id ∈ pool'.transactions.keys
  entered : ∀ id, id ∈ pool'.transactions.keys →
    id ∈ pool.transactions.keys ∨ pool.accepted id = false

/-- A pool with no more transactions and no more acceptances. -/
structure Shrinks (pool pool' : UtxPool) : Prop where
  accepted : ∀ id, pool'.accepted id = true → pool.accepted id = true
  keys : ∀ id, id ∈ pool'.transactions.keys → id ∈ pool.transactions.keys

theorem Shrinks.refl (pool : UtxPool) : Shrinks pool pool := ⟨fun _ h => h, fun _ h => h⟩

theorem Shrinks.drop (h : Shrinks pool pool') (id : ByteStr) : Shrinks pool (pool'.drop id) where
  accepted := h.accepted
  keys := fun id' hid => by
    rw [UtxPool.drop, Finmap.keys_erase, Finset.mem_erase] at hid
    exact h.keys id' hid.2

theorem Shrinks.forget (h : Shrinks pool pool') (id : ByteStr) :
    Shrinks pool { pool' with knownTransactions := pool'.knownTransactions.erase id } where
  accepted := fun id' hid => by
    refine h.accepted id' ?_
    unfold UtxPool.accepted at hid ⊢
    dsimp only at hid
    rw [Dict.lookup_erase_eq] at hid
    by_cases hsame : id' = id
    · rw [if_pos hsame] at hid
      cases hid
    · rw [if_neg hsame] at hid
      exact hid
  keys := h.keys

theorem Shrinks.evolves (h : Shrinks pool pool') : Evolves pool pool' where
  accepted := fun id hid => .inl (h.accepted id hid)
  entered := fun id hid => .inl (h.keys id hid)

/-- What is remembered besides an outcome was remembered before. -/
theorem lookup_remember {id id' : ByteStr} {outcome outcome' : Except ValidationError Transaction}
    (h : (remember utxSettings id outcome pool).knownTransactions.lookup id' = some outcome') :
    id' = id ∧ outcome' = outcome ∨ pool.knownTransactions.lookup id' = some outcome' := by
  rw [remember, Dict.lookup_ofFn] at h
  split at h
  · rw [Dict.lookup_insert_eq] at h
    split at h
    · rename_i hid
      exact .inl ⟨hid, (Option.some.inj h).symm⟩
    · exact .inr h
  · cases h

theorem accepted_iff {id : ByteStr} :
    pool.accepted id = true ↔ ∃ tx, pool.knownTransactions.lookup id = some (.ok tx) := by
  unfold accepted
  split
  · rename_i tx hlookup
    exact iff_of_true rfl ⟨tx, hlookup⟩
  · rename_i hnone
    refine iff_of_false (by decide) ?_
    rintro ⟨tx, hlookup⟩
    exact hnone tx hlookup

/-- `putIfNew` adds what it accepts, and accepts nothing that is remembered as accepted. -/
theorem evolves_putIfNew {stateReader : StateView} {history : History} {currentTs : Int64}
    {tx : Transaction} {r : Result Bool}
    (h : putIfNew fs utxSettings stateReader history currentTs tx pool = (r, pool')) :
    Evolves pool pool' := by
  obtain ⟨rfl, -⟩ | ⟨hnew, ⟨diff, -, -, rfl⟩ | ⟨er, -, -, rfl⟩ | ⟨e, -, -, rfl⟩⟩ := putIfNew_cases h
  · exact (Shrinks.refl _).evolves
  · constructor
    · intro id hid
      obtain ⟨known, hknown⟩ := accepted_iff.mp hid
      obtain ⟨rfl, -⟩ | hold := lookup_remember hknown
      · exact .inr (Finmap.mem_keys.mpr ((Finmap.mem_insert).mpr (.inl rfl)))
      · exact .inl (accepted_iff.mpr ⟨known, hold⟩)
    · intro id hid
      obtain rfl | hold := Finmap.mem_insert.mp (Finmap.mem_keys.mp hid)
      · refine .inr ?_
        rw [accepted, hnew]
      · exact .inl (Finmap.mem_keys.mpr hold)
  · constructor
    · intro id hid
      obtain ⟨known, hknown⟩ := accepted_iff.mp hid
      obtain ⟨-, hok⟩ | hold := lookup_remember hknown
      · cases hok
      · exact .inl (accepted_iff.mpr ⟨known, hold⟩)
    · exact fun id hid => .inl hid
  · exact (Shrinks.refl _).evolves

/-- Every operation does. -/
theorem Operation.evolves (op : Operation) : Evolves pool (op.run fs utxSettings pool) := by
  cases op with
  | putIfNew stateReader history currentTs tx => exact evolves_putIfNew rfl
  | removeAll currentTs txs =>
      exact (keeps_of_drop_removeAll (fun _ id h => h.drop id) (fun _ id h => h.forget id)
        currentTs txs pool (Shrinks.refl pool)).evolves
  | packUnconfirmed stateReader history currentTs =>
      exact (keeps_of_drop_packUnconfirmed (fun _ id h => h.drop id) stateReader history currentTs
        pool (Shrinks.refl pool)).evolves
  | removeExpired currentTs =>
      exact (keeps_of_drop_removeExpired (fun _ id h => h.drop id) currentTs pool
        (Shrinks.refl pool)).evolves

/-- The pool with the transactions it has dropped while their acceptance is still remembered. -/
structure Watched where
  pool : UtxPool
  dropped : Finset ByteStr

namespace Watched

/-- The pool of a node that has just started, which has dropped nothing. -/
def start : Watched := ⟨UtxPool.empty, ∅⟩

/-- An operation.  What has left the pool is dropped until the cache forgets that it was accepted. -/
def step (fs : FunctionalitySettings) (utxSettings : UtxSettings) (s : Watched) (op : Operation) :
    Watched × List Unit :=
  let pool := op.run fs utxSettings s.pool
  (⟨pool, (s.dropped ∪ (s.pool.transactions.keys \ pool.transactions.keys)).filter
    fun id => pool.accepted id⟩, [])

/-- When `putIfNew` returns `Right`, the transaction is in the pool afterwards or in the chain. -/
def Answers (fs : FunctionalitySettings) (utxSettings : UtxSettings) (s : Watched)
    (op : Operation) : Prop :=
  ∀ stateReader history currentTs tx, op = .putIfNew stateReader history currentTs tx →
    ∀ isNew, (putIfNew fs utxSettings stateReader history currentTs tx s.pool).1 = .ok isNew →
      tx.id ∈ (op.run fs utxSettings s.pool).transactions.keys ∨
        stateReader.containsTransaction tx.id = true

/-- No transaction comes again that has been dropped while its acceptance is still remembered, unless
it is in the chain. -/
def Fresh (s : Watched) (op : Operation) : Prop :=
  ∀ stateReader history currentTs tx, op = .putIfNew stateReader history currentTs tx →
    tx.id ∉ s.dropped ∨ stateReader.containsTransaction tx.id = true

/-- What is remembered as accepted is in the pool or has been dropped, and not both. -/
structure Sorted (s : Watched) : Prop where
  known : ∀ id, s.pool.accepted id = true → id ∈ s.pool.transactions.keys ∨ id ∈ s.dropped
  gone : ∀ id ∈ s.dropped, s.pool.accepted id = true ∧ id ∉ s.pool.transactions.keys

variable {s : Watched} {op : Operation} {ops : List Operation}

theorem sorted_start : start.Sorted where
  known := fun id h => by
    obtain ⟨tx, htx⟩ := accepted_iff.mp h
    exact absurd htx (by simp [start, UtxPool.empty])
  gone := fun id h => absurd h (Finset.notMem_empty id)

theorem Sorted.step (h : s.Sorted) (op : Operation) : (step fs utxSettings s op).1.Sorted := by
  have hevolves : Evolves s.pool (op.run fs utxSettings s.pool) := op.evolves
  constructor
  · intro id haccepted
    by_cases hin : id ∈ (op.run fs utxSettings s.pool).transactions.keys
    · exact .inl hin
    · refine .inr (Finset.mem_filter.mpr ⟨Finset.mem_union.mpr ?_, haccepted⟩)
      obtain hold | hnew := hevolves.accepted id haccepted
      · obtain hpooled | hdropped := h.known id hold
        · exact .inr (Finset.mem_sdiff.mpr ⟨hpooled, hin⟩)
        · exact .inl hdropped
      · exact absurd hnew hin
  · intro id hid
    obtain ⟨hid, haccepted⟩ := Finset.mem_filter.mp hid
    refine ⟨haccepted, fun hin => ?_⟩
    obtain hdropped | hleft := Finset.mem_union.mp hid
    · obtain ⟨hremembered, hout⟩ := h.gone id hdropped
      obtain hold | hunknown := hevolves.entered id hin
      · exact hout hold
      · rw [hremembered] at hunknown
        cases hunknown
    · exact (Finset.mem_sdiff.mp hleft).2 hin

/-- One answer stands exactly when the transaction does not come again after it was dropped. -/
theorem Sorted.answers_iff (h : s.Sorted) : Answers fs utxSettings s op ↔ Fresh s op := by
  constructor
  · rintro hanswers stateReader history currentTs tx rfl
    rw [or_iff_not_imp_left, not_not]
    intro hdropped
    obtain ⟨haccepted, hout⟩ := h.gone tx.id hdropped
    obtain ⟨known, hknown⟩ := accepted_iff.mp haccepted
    have hrun : putIfNew fs utxSettings stateReader history currentTs tx s.pool
        = (.ok false, s.pool) := by
      rw [putIfNew, Action.bind_of_ok (Action.get_apply s.pool), hknown]
      rfl
    have hin := hanswers stateReader history currentTs tx rfl false (by rw [hrun])
    rw [Operation.run, hrun] at hin
    exact hin.resolve_left hout
  · rintro hfresh stateReader history currentTs tx rfl isNew hright
    rw [Operation.run]
    generalize hrun : putIfNew fs utxSettings stateReader history currentTs tx s.pool = run at hright
    obtain ⟨r, pool'⟩ := run
    obtain rfl : r = .ok isNew := hright
    obtain ⟨rfl, hanswer⟩ | ⟨-, ⟨diff, -, -, rfl⟩ | ⟨er, -, hr, -⟩ | ⟨e, -, hr, -⟩⟩ :=
      putIfNew_cases hrun
    · obtain ⟨known, hknown, -⟩ | ⟨er, -, hr⟩ := hanswer
      · refine (hfresh stateReader history currentTs tx rfl).imp_left fun hnot => ?_
        exact (h.known tx.id (accepted_iff.mpr ⟨known, hknown⟩)).resolve_right hnot
      · cases hr
    · exact .inl (Finmap.mem_keys.mpr (Finmap.mem_insert.mpr (.inl rfl)))
    · cases hr
    · cases hr

/-- All answers of a run stand exactly when no transaction comes again that has been dropped while its
acceptance is still remembered, unless it is in the chain. -/
theorem answers_iff_fresh :
    Transducer.Along (step fs utxSettings) (Answers fs utxSettings) start ops ↔
      Transducer.Along (step fs utxSettings) Fresh start ops :=
  Transducer.along_congr (fun _ op h => h.step op) (fun _ _ h => h.answers_iff) sorted_start

end Watched

end UtxPool

end Platform

namespace Sample

open UtxPool

/-- A pool of ten transactions that are younger than a thousand nanoseconds, payments with a fee. -/
def poolSettings : UtxSettings :=
  ⟨10, 1000, Finmap.singleton (TransactionType.paymentTransaction.id, none) 100⟩

/-- A payment from the owner to the tenant. -/
def transfer (timestamp : Int64) : Transaction :=
  .payment ⟨tenant, 5, 100, 100, timestamp, [], proofs, noAttachment_length, amount_pos, fee_pos,
    amount_fee, feeScale_eq⟩

/-- A payment enters the pool and expires, and comes again. -/
def expiringEvents : List Operation :=
  [.putIfNew afterGenesis.1.toStateView history 1 (transfer 1), .removeAll 2000 [],
    .putIfNew afterGenesis.1.toStateView history 2000 (transfer 1)]

/-- The second answer is that the payment is known, though it is neither in the pool nor in the
chain. -/
theorem expiringEvents_forgotten :
    (UtxPool.putIfNew fs poolSettings afterGenesis.1.toStateView history 2000 (transfer 1)
      (Transducer.after (Watched.step fs poolSettings) Watched.start
        (expiringEvents.take 2)).pool).1 = .ok false ∧
    ¬Transducer.Along (Watched.step fs poolSettings) (Watched.Answers fs poolSettings) Watched.start
      expiringEvents := by
  refine ⟨by decide +kernel, fun hanswers => ?_⟩
  have hlast := hanswers.2.2.1 _ _ _ _ rfl false (by decide +kernel)
  revert hlast
  decide +kernel

end Sample

end Vsys
