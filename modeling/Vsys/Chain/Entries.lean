import Vsys.Chain.Leases
import Vsys.Chain.Invariants

/-!
# Database entries

What the state finds under the key of an owner is the entry of the owner's last `DbPutTransaction`
with that key, wherever the state is kept.
-/

namespace Vsys

open Lib CompositeStateReader

section Platform

variable [Platform]

/-- The storage key tells the owner and the key apart, as all addresses are of one length. -/
theorem DbPutTransaction.generateKey_inj {owner owner' : Address} {key key' : String} :
    generateKey owner key = generateKey owner' key' ↔ owner = owner' ∧ key = key' := by
  constructor
  · intro h
    obtain ⟨hbytes, hkey⟩ :=
      List.append_inj h (owner.length_bytes.trans owner'.length_bytes.symm)
    exact ⟨Address.ext hbytes, Deser.serilizeString_injective hkey⟩
  · rintro ⟨rfl, rfl⟩
    rfl

/-- The entry that a transaction puts for an owner under a key. -/
def entryPut (owner : Address) (key : String) (p : ProcessedTransaction) : Option Entry :=
  match p.transaction with
  | .dbPut tx =>
      match tx.proofs.headPublicKey with
      | .ok sender => if sender.toAddress = owner ∧ tx.dbKey = key then some tx.entry else none
      | .error _ => none
  | _ => none

/-- The last entry that some transactions put for an owner under a key. -/
def lastEntry (owner : Address) (key : String) (done : List ProcessedTransaction) : Option Entry :=
  (done.filterMap (entryPut owner key)).getLast?

section Entries

variable {fs : FunctionalitySettings} {done : List ProcessedTransaction} {s : StateView}
  {p : ProcessedTransaction} {e : Diff} {owner : Address} {key : String} {height : Nat}

theorem lastEntry_concat :
    lastEntry owner key (done ++ [p]) = (entryPut owner key p).or (lastEntry owner key done) := by
  rw [lastEntry, List.filterMap_append, lastEntry]
  cases hput : entryPut owner key p with
  | none => simp [hput]
  | some entry => simp [hput]

/-- What an accepted transaction stores under the key of an owner is what it puts for the owner. -/
theorem HasEffect.lookup_dbEntries (h : HasEffect fs height s p.transaction e) :
    e.dbEntries.lookup (DbPutTransaction.generateKey owner key) = entryPut owner key p := by
  obtain ⟨c, related, heffect, rfl⟩ := h
  show c.dbEntries.lookup _ = _
  rw [entryPut]
  generalize p.transaction = tx at heffect ⊢
  cases heffect with
  | dbPut tx sender hsender storageKey hkey =>
      rw [DbPutTransaction.storageKey, hsender] at hkey
      obtain rfl := Except.ok.inj hkey
      simp only [hsender, Dict.lookup_singleton, DbPutTransaction.generateKey_inj]
      refine if_congr ?_ rfl rfl
      rw [eq_comm, eq_comm (a := key)]
  | _ => rfl

/-- An accepted transaction changes nothing under the key of an owner but by an entry it puts for the
owner. -/
theorem Accepted.dbGet (h : Accepted fs s p e) :
    (view s e.asBlockDiff).dbGet (DbPutTransaction.generateKey owner key)
      = ((entryPut owner key p).map Entry.bytes).or
          (s.dbGet (DbPutTransaction.generateKey owner key)) := by
  rw [← h.applies.2.1.lookup_dbEntries]
  rfl

/-- The entries of a chain are in order. -/
theorem entries_invariant (fs : FunctionalitySettings) :
    ChainInvariant fs fun done s => ∀ owner key,
      s.dbGet (DbPutTransaction.generateKey owner key)
        = (lastEntry owner key done).map Entry.bytes where
  empty := fun _ _ => rfl
  transaction := fun _ hs h owner key => by
    rw [h.dbGet, hs owner key, lastEntry_concat]
    cases entryPut owner key _ <;> rfl
  block := fun _ _ hs => hs
  write := fun ss hp hd hs => by
    rw [← StateStorage.view_eq_written_except ss hp.sound hd.stackable.fits hd.issuedAssets]
    exact hs

/-- In every state on the way of a chain, in memory and on disk, an owner's key gives the entry that
the owner has put last under it, or nothing if there is none; and of the transactions that come
next only one of the owner with that key changes what it gives. -/
theorem Passed.dbGet_eq_lastEntry (h : Passed fs done s) (owner : Address) (key : String) :
    s.dbGet (DbPutTransaction.generateKey owner key) = (lastEntry owner key done).map Entry.bytes ∧
    ∀ p e, Accepted fs s p e → entryPut owner key p = none →
      (view s e.asBlockDiff).dbGet (DbPutTransaction.generateKey owner key)
        = s.dbGet (DbPutTransaction.generateKey owner key) := by
  refine ⟨(entries_invariant fs).passed h owner key, fun p e haccepted hnone => ?_⟩
  rw [haccepted.dbGet, hnone]
  rfl

end Entries

end Platform

namespace Sample

/-- An entry of the owner. -/
def putting (data : String) (h : utf16Length data ≤ 16384) : ProcessedTransaction :=
  ⟨.success, 100, .dbPut ⟨"name", ⟨data, h⟩, 100, 100, 1, proofs, by decide, fee_pos, feeScale_eq⟩⟩

/-- Two entries of the owner under one key. -/
def puttings : List ProcessedTransaction := [putting "old" (by decide), putting "new" (by decide)]

/-- The effect of the two entries. -/
def puttingsDiff : Diff :=
  okOr (puttings.foldlM (BlockDiffer.txStep fs afterGenesis.1.toStateView afterGenesis.2 1
    (afterGenesis.1.height + 1)) Diff.empty) Diff.empty

theorem foldlM_puttings : puttings.foldlM (BlockDiffer.txStep fs afterGenesis.1.toStateView
    afterGenesis.2 1 (afterGenesis.1.height + 1)) Diff.empty = .ok puttingsDiff :=
  eq_ok_okOr (by decide +kernel)

theorem puttings_passed : Passed fs (genesisBlock.transactionData ++ puttings)
    (view afterGenesis.1.toStateView puttingsDiff.asBlockDiff) :=
  .intro [genesisBlock] _ (StateOf.of_replay replay_genesisBlock) _ 1 puttings puttingsDiff
    foldlM_puttings

/-- The owner's key gives the later entry. -/
theorem puttings_dbGet : (view afterGenesis.1.toStateView puttingsDiff.asBlockDiff).dbGet
    (DbPutTransaction.generateKey owner "name") = some (1 :: Deser.serilizeString "new") :=
  (puttings_passed.dbGet_eq_lastEntry owner "name").1.trans (by decide +kernel)

end Sample

end Vsys
