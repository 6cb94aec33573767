import Vsys.Chain.Forks
import Vsys.Chain.PoolRuns

/-!
# Transactions of blocks that are discarded

A reorganisation submits the transactions of the discarded blocks again, through `putIfNew`, which
looks at the outcomes the pool remembers before it validates anything.  One that was turned away
while it was in the chain is turned away once more, without a look at the new state.
-/

namespace Vsys

open Lib

section Platform

variable [Platform]

namespace History

variable {h : History}

/-- A block above a height has the transaction. -/
def Carries (h : History) (height : Nat) (tx : Transaction) : Prop :=
  ∃ k b, height < k ∧ k ≤ h.height ∧ h.blockAt k = .ok (some b) ∧ tx ∈ b.transactions

theorem blockAt_eq_some {k : Nat} {b : Block} (hb : h.blockAt k = .ok (some b)) :
    ∃ bytes, h.blockBytes k = some bytes ∧ Block.parseBytes bytes = .ok b := by
  rw [blockAt] at hb
  split at hb
  · cases hb
  · rename_i bytes hbytes
    refine ⟨bytes, hbytes, ?_⟩
    cases hparse : explicitGet (Block.parseBytes bytes) with
    | ok b' =>
        rw [hparse] at hb
        obtain rfl := Option.some.inj (Except.ok.inj hb)
        exact explicitGet_eq_ok_iff.mp hparse
    | error e =>
        rw [hparse] at hb
        cases hb

/-- A transaction that is in none of the blocks under the heights that have one. -/
theorem notInChain_of_keys {id : ByteStr} (hall : ∀ k ∈ h.blockBodyByHeight.keys,
    (okOr (h.blockAt k) none).all (fun b => id ∉ b.transactions.map Transaction.id) = true) (k : Nat)
    (b : Block) (hb : h.blockAt k = .ok (some b)) : id ∉ b.transactions.map Transaction.id := by
  obtain ⟨bytes, hbytes, -⟩ := blockAt_eq_some hb
  have hk := hall k (Dict.mem_keys_of_lookup hbytes)
  rw [hb] at hk
  exact of_decide_eq_true hk

/-- The transactions of the blocks that are discarded are collected. -/
theorem mem_discardBlocks {tx : Transaction} {count : Nat}
    (hcarries : h.Carries (h.height - count) tx) : tx ∈ (h.discardBlocks count).1 := by
  induction count generalizing h with
  | zero =>
      obtain ⟨k, b, habove, hbelow, -⟩ := hcarries
      omega
  | succ count ih =>
      obtain ⟨k, b, habove, hbelow, hb, htx⟩ := hcarries
      show tx ∈ h.lastTransactions ++ (h.pop.discardBlocks count).1
      obtain ⟨bytes, hbytes, hparse⟩ := blockAt_eq_some hb
      by_cases htop : k = h.height
      · refine List.mem_append_left _ ?_
        rw [lastTransactions, ← htop, hbytes, Option.getD_some, hparse]
        exact htx
      · refine List.mem_append_right _ (ih ⟨k, b, ?_, ?_, ?_, htx⟩)
        · show h.height - 1 - count < k
          omega
        · show k ≤ h.height - 1
          omega
        · have hkept : h.pop.blockBytes k = h.blockBytes k :=
            Finmap.lookup_erase_ne htop
          rw [blockAt, hkept, hbytes]
          dsimp only
          rw [hparse]
          rfl

end History

namespace UtxPool

variable {fs : FunctionalitySettings} {utxSettings : UtxSettings} {stateReader : StateView}
  {history : History} {currentTs : Int64} {pool : UtxPool} {tx : Transaction}

/-- `putIfNew` removes nothing. -/
theorem keys_subset_putIfNew : pool.transactions.keys ⊆
    (putIfNew fs utxSettings stateReader history currentTs tx pool).2.transactions.keys := by
  cases hrun : putIfNew fs utxSettings stateReader history currentTs tx pool with
  | mk r pool' =>
      obtain ⟨rfl, -⟩ | ⟨-, ⟨diff, -, -, rfl⟩ | ⟨er, -, -, rfl⟩ | ⟨e, -, -, rfl⟩⟩ :=
        putIfNew_cases hrun
      · exact Finset.Subset.refl _
      · intro id hid
        exact Finmap.mem_keys.mpr (Finmap.mem_insert.mpr (.inr (Finmap.mem_keys.mp hid)))
      · exact Finset.Subset.refl _
      · exact Finset.Subset.refl _

/-- A transaction that passes and of which no outcome is remembered enters the pool. -/
theorem mem_putIfNew {last : Option Block} {diff : Diff}
    (hknown : pool.knownTransactions.lookup tx.id = none)
    (hroom : pool.transactions.keys.card < utxSettings.maxSize)
    (hminting : tx.transactionType ≠ .mintingTransaction)
    (hfee : utxSettings.feeCalculator.enoughFee tx = .ok ()) (hlast : history.lastBlock = .ok last)
    (happly : TransactionDiffer.apply fs (last.map Block.timestamp) currentTs stateReader.height
      stateReader tx = .ok diff) :
    tx.id ∈ (putIfNew fs utxSettings stateReader history currentTs tx pool).2.transactions.keys := by
  have hvalid : validate fs utxSettings stateReader history currentTs pool tx = .ok diff := by
    rw [validate, (cond_eq_ok_iff (u := ())).mpr hroom, ok_bind,
      (cond_eq_ok_iff (u := ())).mpr hminting, ok_bind, hfee, ok_bind, hlast, ok_bind, happly]
  have hrun : putIfNew fs utxSettings stateReader history currentTs tx pool
      = (.ok true, remember utxSettings tx.id (.ok tx)
          { pool with
            transactions := pool.transactions.insert tx.id tx
            pessimisticPortfolios := pool.pessimisticPortfolios.add tx.id diff }) := by
    rw [putIfNew, Action.bind_of_ok (Action.get_apply pool), hknown]
    dsimp only
    rw [hvalid]
    rfl
  rw [hrun]
  exact Finmap.mem_keys.mpr (Finmap.mem_insert.mpr (.inl rfl))

end UtxPool

namespace Coordinator

variable {settings : VsysSettings} {n n' m u : Node} {newBlocks : List Block} {tx : Transaction}

/-- The transactions that a rollback hands back are those of the blocks above the one it goes back
to. -/
theorem mem_of_removeAfter {blockId : ByteStr} {height : Nat} {dropped : List Transaction}
    (hheight : n.history.heightOf blockId = some height)
    (h : onUpdater (BlockchainUpdaterImpl.removeAfter settings.updater blockId) n = (.ok dropped, n'))
    (hcarries : n.history.Carries height tx) : tx ∈ dropped := by
  obtain ⟨hremove, -⟩ := onUpdater_eq h
  rw [BlockchainUpdaterImpl.removeAfter, Action.bind_of_ok (Action.get_apply _)] at hremove
  have hlookup : n.blockchainUpdater.history.heightOf blockId = some height := hheight
  simp only [hlookup] at hremove
  have hlow : height < n.blockchainUpdater.history.height := by
    obtain ⟨k, b, habove, hbelow, -⟩ := hcarries
    exact Nat.lt_of_lt_of_le habove hbelow
  rw [if_neg (Nat.ne_of_lt hlow), Action.bind_of_ok (Action.modify_apply _ _)] at hremove
  obtain ⟨_, v, -, hpure⟩ := Action.bind_eq_ok_iff.mp hremove
  obtain ⟨hvalue, -⟩ := Prod.mk.inj hpure
  rw [← Except.ok.inj hvalue]
  refine History.mem_discardBlocks ?_
  rw [Nat.sub_sub_self hlow.le]
  exact hcarries

/-- What `processFork` does before it puts transactions back: it rolls back and appends the new
blocks. -/
def switchBlocks (settings : VsysSettings) (newBlocks : List Block) :
    Action Fault Node (List Transaction) := fun n =>
  match extensionOf n.history newBlocks with
  | [] => (.ok [], n)
  | first :: rest =>
      (do
        let dropped ←
          onUpdater (BlockchainUpdaterImpl.removeAfter settings.updater first.reference)
        Action.forEach (appendBlock settings) (first :: rest)
        pure dropped : Action Fault Node (List Transaction)) n

/-- A transaction of a discarded block that is not in the new chain, and passes the fee check and
`TransactionDiffer` against the new state whenever it is asked for, while the pool has room. -/
structure Owed (settings : VsysSettings) (n n' : Node) (newBlocks : List Block)
    (tx : Transaction) : Prop where
  discarded : ∃ first rest height, extensionOf n.history newBlocks = first :: rest ∧
    n.history.heightOf first.reference = some height ∧ n.history.Carries height tx
  notMinting : tx.transactionType ≠ .mintingTransaction
  notInChain : ∀ k b, n'.history.blockAt k = .ok (some b) → tx.id ∉ b.transactions.map Transaction.id
  enoughFee : settings.utxSettings.feeCalculator.enoughFee tx = .ok ()
  accepted : ∀ k, n.readings ≤ k → k < n'.readings → ∃ last diff,
    n'.history.lastBlock = .ok last ∧ TransactionDiffer.apply
      settings.updater.functionalitySettings (last.map Block.timestamp) (settings.clock k)
      n'.stateReader.height n'.stateReader.toStateView tx = .ok diff
  room : n'.utxStorage.transactions.keys.card < settings.utxSettings.maxSize

/-- When its turn comes to be put back, the pool remembers no outcome of the transaction, or has
it. -/
def Retrievable (settings : VsysSettings) (n : Node) (newBlocks : List Block) (tx : Transaction) :
    Prop :=
  ∃ before after m u, switchBlocks settings newBlocks n = (.ok (before ++ tx :: after), m) ∧
    Action.forEach (putBack settings) before m = (.ok (), u) ∧
    (u.utxStorage.knownTransactions.lookup tx.id = none ∨
      tx.id ∈ u.utxStorage.transactions.keys)

/-- What `putBack` does: the pool answers, at the next reading of the clock. -/
theorem putBack_eq_ok (h : putBack settings tx n = (.ok (), n')) :
    n'.blockchainUpdater = n.blockchainUpdater ∧ n'.readings = n.readings + 1 ∧
      n'.utxStorage = (UtxPool.putIfNew settings.updater.functionalitySettings settings.utxSettings
        n.stateReader.toStateView n.history (settings.clock n.readings) tx n.utxStorage).2 := by
  rw [putBack, Action.bind_of_ok (correctedTime_apply n),
    Action.bind_of_ok (Action.get_apply _)] at h
  obtain ⟨-, rfl⟩ := Prod.mk.inj h
  refine ⟨rfl, rfl, ?_⟩
  dsimp only [Node.stateReader, Node.history]
  split
  · rename_i e pool hrun
    rw [hrun]
  · rename_i r pool hne hrun
    rw [hrun]

/-- What a run of put-backs leaves alone, and what it only adds to. -/
theorem putBacks_eq_ok {txs : List Transaction}
    (h : Action.forEach (putBack settings) txs n = (.ok (), n')) :
    n'.blockchainUpdater = n.blockchainUpdater ∧ n'.readings = n.readings + txs.length ∧
      n.utxStorage.transactions.keys ⊆ n'.utxStorage.transactions.keys := by
  induction txs generalizing n with
  | nil =>
      obtain ⟨-, rfl⟩ := Prod.mk.inj h
      exact ⟨rfl, rfl, Finset.Subset.refl _⟩
  | cons tx txs ih =>
      obtain ⟨m, hfirst, hrest⟩ := Action.forEach_cons_eq_ok_iff.mp h
      obtain ⟨hupdater, hreadings, hpool⟩ := putBack_eq_ok hfirst
      obtain ⟨hupdater', hreadings', hkeys⟩ := ih hrest
      refine ⟨hupdater'.trans hupdater, ?_, ?_⟩
      · rw [hreadings', hreadings, List.length_cons]
        omega
      · refine Finset.Subset.trans ?_ hkeys
        rw [hpool]
        exact UtxPool.keys_subset_putIfNew

theorem readings_le_switchBlocks {k : Nat} :
    Action.Keeps (fun n : Node => k ≤ n.readings) (switchBlocks settings newBlocks) := by
  intro n hn
  rw [switchBlocks]
  split
  · exact hn
  · rename_i first rest _
    have hremove : Action.Keeps (fun n : Node => k ≤ n.readings) (onUpdater
        (BlockchainUpdaterImpl.removeAfter settings.updater first.reference)) := fun _ h => h
    exact (hremove.bind fun dropped => Action.Keeps.bind
      (Action.Keeps.forEach fun _ _ => readings_le_appendBlock) fun _ => Action.Keeps.pure _) n hn

theorem updateBlockchainReadinessFlag_eq_ok
    (h : updateBlockchainReadinessFlag settings n = (.ok (), n')) :
    n'.blockchainUpdater = n.blockchainUpdater ∧ n'.utxStorage = n.utxStorage ∧
      n'.readings = n.readings + 1 := by
  rw [updateBlockchainReadinessFlag, Action.bind_of_ok (correctedTime_apply n),
    Action.bind_of_ok (Action.get_apply _)] at h
  obtain ⟨last, m, hlast, h⟩ := Action.bind_eq_ok_iff.mp h
  obtain ⟨-, rfl⟩ := Prod.mk.inj hlast
  obtain ⟨last, m, hlast, h⟩ := Action.bind_eq_ok_iff.mp h
  obtain ⟨-, rfl⟩ := Prod.mk.inj hlast
  obtain ⟨-, rfl⟩ := Prod.mk.inj h
  exact ⟨rfl, rfl, rfl⟩

/-- A reorganisation that succeeds ends with its put-backs. -/
theorem processFork_putBacks {s : Int} (h : processFork settings newBlocks n = (.ok s, n'))
    (hnew : extensionOf n.history newBlocks ≠ []) :
    ∃ dropped m u, switchBlocks settings newBlocks n = (.ok dropped, m) ∧
      Action.forEach (putBack settings) dropped m = (.ok (), u) ∧
      n'.blockchainUpdater = u.blockchainUpdater ∧ n'.utxStorage = u.utxStorage ∧
      n'.readings = u.readings + 1 := by
  rw [processFork_apply] at h
  cases hextension : extensionOf n.history newBlocks with
  | nil => exact absurd hextension hnew
  | cons first rest =>
      rw [hextension] at h
      cases hheight : n.history.heightOf first.reference with
      | none =>
          simp only [hheight] at h
          cases (Prod.mk.inj h).1
      | some height =>
          simp only [hheight] at h
          rw [switchTo, Action.bind_of_ok (Action.get_apply n)] at h
          obtain ⟨_, m₀, hcheckpoint, h⟩ := Action.bind_eq_ok_iff.mp h
          obtain ⟨-, rfl⟩ := Prod.mk.inj hcheckpoint
          obtain ⟨dropped, m₁, hremove, h⟩ := Action.bind_eq_ok_iff.mp h
          obtain ⟨_, m, happend, h⟩ := Action.bind_eq_ok_iff.mp h
          obtain ⟨newScore, m₂, hscore, h⟩ := Action.bind_eq_ok_iff.mp h
          obtain ⟨-, rfl⟩ := Prod.mk.inj hscore
          obtain ⟨_, u, hback, h⟩ := Action.bind_eq_ok_iff.mp h
          obtain ⟨_, v, hflag, h⟩ := Action.bind_eq_ok_iff.mp h
          obtain ⟨-, rfl⟩ := Prod.mk.inj h
          obtain ⟨hupdater, hutx, hreadings⟩ := updateBlockchainReadinessFlag_eq_ok hflag
          refine ⟨dropped, m, u, ?_, hback, hupdater, hutx, hreadings⟩
          rw [switchBlocks, hextension]
          exact Action.bind_eq_ok_iff.mpr ⟨dropped, m₁, hremove,
            Action.bind_eq_ok_iff.mpr ⟨(), m, happend, rfl⟩⟩

/-- A list that is run through is run through up to each element. -/
theorem forEach_append_eq_ok {f : Transaction → Action Fault Node Unit} {l l' : List Transaction}
    (h : Action.forEach f (l ++ l') n = (.ok (), n')) :
    ∃ m, Action.forEach f l n = (.ok (), m) ∧ Action.forEach f l' m = (.ok (), n') := by
  induction l generalizing n with
  | nil => exact ⟨n, rfl, h⟩
  | cons a l ih =>
      obtain ⟨u, ha, hrest⟩ := Action.forEach_cons_eq_ok_iff.mp h
      obtain ⟨m, hl, hl'⟩ := ih hrest
      exact ⟨m, Action.forEach_cons_eq_ok_iff.mpr ⟨u, ha, hl⟩, hl'⟩

/-- A transaction that is owed and can be retrieved is in the pool afterwards. -/
theorem Owed.mem_of_retrievable (howed : Owed settings n n' newBlocks tx) {s : Int}
    (h : processFork settings newBlocks n = (.ok s, n'))
    (hretrievable : Retrievable settings n newBlocks tx) :
    tx.id ∈ n'.utxStorage.transactions.keys := by
  have hnew : extensionOf n.history newBlocks ≠ [] := by
    obtain ⟨first, rest, height, hextension, -⟩ := howed.discarded
    rw [hextension]
    exact List.cons_ne_nil _ _
  obtain ⟨dropped, m, w, hswitch, hback, hupdater, hutx, hreadings⟩ := processFork_putBacks h hnew
  obtain ⟨before, after, m', u, hswitch', hbefore, hopen⟩ := hretrievable
  rw [hswitch] at hswitch'
  obtain ⟨hdropped, rfl⟩ := Prod.mk.inj hswitch'
  obtain rfl := Except.ok.inj hdropped
  obtain ⟨u', hbefore', hrest⟩ := forEach_append_eq_ok hback
  obtain rfl : u' = u := congrArg Prod.snd (hbefore'.symm.trans hbefore)
  obtain ⟨v, hput, hafter⟩ := Action.forEach_cons_eq_ok_iff.mp hrest
  obtain ⟨hupdater₀, hreadings₀, -⟩ := putBacks_eq_ok hbefore
  obtain ⟨hupdater₁, hreadings₁, hpool⟩ := putBack_eq_ok hput
  obtain ⟨hupdater₂, hreadings₂, hkeys⟩ := putBacks_eq_ok hafter
  rw [hutx]
  refine hkeys ?_
  rw [hpool]
  -- When its turn comes the transaction is new to the pool, or in it already.
  obtain hnone | hpooled := hopen
  · have hsame : n'.blockchainUpdater = u'.blockchainUpdater :=
      hupdater.trans (hupdater₂.trans hupdater₁)
    have hstart : n.readings ≤ m.readings := by
      have hkeeps : Action.Keeps (fun n' : Node => n.readings ≤ n'.readings)
          (switchBlocks settings newBlocks) := readings_le_switchBlocks
      have hkept := hkeeps n (Nat.le_refl n.readings)
      rwa [hswitch] at hkept
    obtain ⟨last, diff, hlast, happly⟩ := howed.accepted u'.readings (by omega) (by omega)
    have hhistory : n'.history = u'.history := congrArg BlockchainUpdaterImpl.history hsame
    have hreader : n'.stateReader = u'.stateReader :=
      congrArg BlockchainUpdaterImpl.currentPersistedBlocksState hsame
    rw [hhistory] at hlast
    rw [hreader] at happly
    refine UtxPool.mem_putIfNew hnone ?_ howed.notMinting howed.enoughFee hlast happly
    refine Nat.lt_of_le_of_lt (Finset.card_le_card ?_) howed.room
    rw [hutx]
    refine Finset.Subset.trans ?_ hkeys
    rw [hpool]
    exact UtxPool.keys_subset_putIfNew
  · exact UtxPool.keys_subset_putIfNew hpooled

/-- What can be put back into the pool is added to those it has. -/
theorem keys_putBacks {txs : List Transaction} {id : ByteStr}
    (h : Action.forEach (putBack settings) txs n = (.ok (), n'))
    (hid : id ∈ n'.utxStorage.transactions.keys) :
    id ∈ n.utxStorage.transactions.keys ∨ id ∈ txs.map Transaction.id := by
  induction txs generalizing n with
  | nil =>
      obtain ⟨-, rfl⟩ := Prod.mk.inj h
      exact .inl hid
  | cons tx txs ih =>
      obtain ⟨m, hfirst, hrest⟩ := Action.forEach_cons_eq_ok_iff.mp h
      obtain ⟨-, -, hpool⟩ := putBack_eq_ok hfirst
      obtain hold | hnew := ih hrest
      · rw [hpool] at hold
        cases hrun : UtxPool.putIfNew settings.updater.functionalitySettings settings.utxSettings
            n.stateReader.toStateView n.history (settings.clock n.readings) tx n.utxStorage with
        | mk r pool' =>
            rw [hrun] at hold
            obtain ⟨rfl, -⟩ | ⟨-, ⟨diff, -, -, rfl⟩ | ⟨er, -, -, rfl⟩ | ⟨e, -, -, rfl⟩⟩ :=
              UtxPool.putIfNew_cases hrun
            · exact .inl hold
            · obtain rfl | hbefore := Finmap.mem_insert.mp (Finmap.mem_keys.mp hold)
              · exact .inr List.mem_cons_self
              · exact .inl (Finmap.mem_keys.mpr hbefore)
            · exact .inl hold
            · exact .inl hold
      · exact .inr (List.mem_cons_of_mem _ hnew)

/-- Conversely, among discarded transactions of different identifiers only those that can be retrieved
are in the pool afterwards. -/
theorem retrievable_of_mem {s : Int} {dropped : List Transaction}
    (h : processFork settings newBlocks n = (.ok s, n'))
    (hnew : extensionOf n.history newBlocks ≠ [])
    (hdropped : (switchBlocks settings newBlocks n).1 = .ok dropped)
    (hdistinct : (dropped.map Transaction.id).Nodup) (htx : tx ∈ dropped)
    (hpooled : tx.id ∈ n'.utxStorage.transactions.keys) : Retrievable settings n newBlocks tx := by
  obtain ⟨dropped', m, w, hswitch, hback, -, hutx, -⟩ := processFork_putBacks h hnew
  rw [hswitch] at hdropped
  obtain rfl := Except.ok.inj hdropped
  obtain ⟨before, after, rfl⟩ := List.append_of_mem htx
  obtain ⟨u, hbefore, hrest⟩ := forEach_append_eq_ok hback
  obtain ⟨v, hput, hafter⟩ := Action.forEach_cons_eq_ok_iff.mp hrest
  refine ⟨before, after, m, u, hswitch, hbefore, ?_⟩
  rw [or_iff_not_imp_left]
  intro hknown
  rw [hutx] at hpooled
  obtain hold | hlater := keys_putBacks hafter hpooled
  · obtain ⟨-, -, hpool⟩ := putBack_eq_ok hput
    rw [hpool] at hold
    cases hrun : UtxPool.putIfNew settings.updater.functionalitySettings settings.utxSettings
        u.stateReader.toStateView u.history (settings.clock u.readings) tx u.utxStorage with
    | mk r pool' =>
        rw [hrun] at hold
        obtain ⟨rfl, -⟩ | ⟨hunknown, -⟩ := UtxPool.putIfNew_cases hrun
        · exact hold
        · exact absurd hunknown hknown
  · rw [List.map_append, List.map_cons, List.nodup_append] at hdistinct
    exact absurd hlater (List.nodup_cons.mp hdistinct.2.1).1

/-- What comes to a node: a transaction, a block, or the blocks of a fork. -/
inductive Event
  | putIfNew (tx : Transaction)
  | processBlock (newBlock : Block) (isLocal : Bool)
  | processFork (newBlocks : List Block)

/-- The node after an event, whatever its outcome. -/
def Event.run (settings : VsysSettings) (n : Node) : Event → Node
  | .putIfNew tx => (putBack settings tx n).2
  | .processBlock newBlock isLocal => (Coordinator.processBlock settings newBlock isLocal n).2
  | .processFork newBlocks => (Coordinator.processFork settings newBlocks n).2

/-- The step of a node. -/
def eventStep (settings : VsysSettings) (n : Node) (e : Event) : Node × List Unit :=
  (e.run settings n, [])

/-- A reorganisation that succeeds leaves no owed transaction behind. -/
def Restores (settings : VsysSettings) (n : Node) (e : Event) : Prop :=
  ∀ newBlocks s n', e = .processFork newBlocks →
    Coordinator.processFork settings newBlocks n = (.ok s, n') →
    ∀ tx, Owed settings n n' newBlocks tx → tx.id ∈ n'.utxStorage.transactions.keys

/-- Of an owed transaction the pool remembers no outcome when its turn comes, or it has the
transaction. -/
def Open (settings : VsysSettings) (n : Node) (e : Event) : Prop :=
  ∀ newBlocks s n', e = .processFork newBlocks →
    Coordinator.processFork settings newBlocks n = (.ok s, n') →
    ∀ tx, Owed settings n n' newBlocks tx → Retrievable settings n newBlocks tx

/-- Appending blocks makes the pool remember nothing. -/
theorem unknown_switchBlocks {id : ByteStr} :
    Action.Keeps (fun n : Node => n.utxStorage.knownTransactions.lookup id = none)
      (switchBlocks settings newBlocks) := by
  intro n hn
  rw [switchBlocks]
  split
  · exact hn
  · rename_i first rest _
    have hremoveAll : ∀ (now : Int64) (txs : List Transaction),
        Action.Keeps (fun pool : UtxPool => pool.knownTransactions.lookup id = none)
          (UtxPool.removeAll settings.utxSettings now txs) := fun now txs => by
      refine UtxPool.keeps_of_drop_removeAll (fun _ _ h => h) (fun pool id' h => ?_) now txs
      show (pool.knownTransactions.erase id').lookup id = none
      rw [Dict.lookup_erase_eq]
      split
      · rfl
      · exact h
    have happend : ∀ b, Action.Keeps (fun n : Node =>
        n.utxStorage.knownTransactions.lookup id = none) (appendBlock settings b) :=
      fun b => Action.Keeps.get.bind fun _ => (Action.Keeps.ofExcept _).bind fun _ =>
        Action.Keeps.bind (fun _ h => h) fun _ => (Action.Keeps.ofExcept _).bind fun _ =>
          Action.Keeps.bind (fun _ h => h) fun _ => Action.Keeps.bind (fun _ h => h) fun now =>
            fun n hn => hremoveAll now b.transactions n.utxStorage hn
    have hremove : Action.Keeps (fun n : Node =>
        n.utxStorage.knownTransactions.lookup id = none) (onUpdater
        (BlockchainUpdaterImpl.removeAfter settings.updater first.reference)) := fun _ h => h
    exact (hremove.bind fun dropped => Action.Keeps.bind
      (Action.Keeps.forEach fun b _ => happend b) fun _ => Action.Keeps.pure _) n hn

/-- Putting back other transactions makes the pool remember nothing of one. -/
theorem unknown_putBacks {txs : List Transaction} {id : ByteStr}
    (h : Action.forEach (putBack settings) txs n = (.ok (), n'))
    (hid : id ∉ txs.map Transaction.id) (hn : n.utxStorage.knownTransactions.lookup id = none) :
    n'.utxStorage.knownTransactions.lookup id = none := by
  induction txs generalizing n with
  | nil =>
      obtain ⟨-, rfl⟩ := Prod.mk.inj h
      exact hn
  | cons tx txs ih =>
      rw [List.map_cons, List.mem_cons, not_or] at hid
      obtain ⟨m, hfirst, hrest⟩ := Action.forEach_cons_eq_ok_iff.mp h
      obtain ⟨-, -, hpool⟩ := putBack_eq_ok hfirst
      refine ih hrest hid.2 ?_
      rw [hpool]
      cases hrun : UtxPool.putIfNew settings.updater.functionalitySettings settings.utxSettings
          n.stateReader.toStateView n.history (settings.clock n.readings) tx n.utxStorage with
      | mk r pool' =>
          have hremembered : ∀ outcome pool, pool.knownTransactions = n.utxStorage.knownTransactions →
              (UtxPool.remember settings.utxSettings tx.id outcome
                pool).knownTransactions.lookup id = none := by
            intro outcome pool hpool
            rw [Option.eq_none_iff_forall_ne_some]
            intro known hknown
            obtain ⟨hsame, -⟩ | hold := UtxPool.lookup_remember hknown
            · exact hid.1 hsame
            · rw [hpool, hn] at hold
              cases hold
          obtain ⟨rfl, -⟩ | ⟨-, ⟨diff, -, -, rfl⟩ | ⟨er, -, -, rfl⟩ | ⟨e, -, -, rfl⟩⟩ :=
            UtxPool.putIfNew_cases hrun
          · exact hn
          · exact hremembered _ _ rfl
          · exact hremembered _ _ rfl
          · exact hn

/-- Discarded transactions of different identifiers can be retrieved when the pool remembers no
outcome of them before the reorganisation. -/
theorem open_of_unknown {dropped : List Transaction}
    (hdropped : (switchBlocks settings newBlocks n).1 = .ok dropped)
    (hdistinct : (dropped.map Transaction.id).Nodup)
    (hunknown : ∀ tx ∈ dropped, n.utxStorage.knownTransactions.lookup tx.id = none) :
    Open settings n (.processFork newBlocks) := by
  rintro newBlocks s n' ⟨rfl⟩ hfork tx howed
  obtain ⟨first, rest, height, hextension, hheight, hcarries⟩ := howed.discarded
  have hnew : extensionOf n.history newBlocks ≠ [] := by
    rw [hextension]
    exact List.cons_ne_nil _ _
  obtain ⟨dropped', m, w, hswitch, hback, -⟩ := processFork_putBacks hfork hnew
  rw [hswitch] at hdropped
  obtain rfl := Except.ok.inj hdropped
  have htx : tx ∈ dropped' := by
    have hrun := hswitch
    rw [switchBlocks, hextension] at hrun
    obtain ⟨dropped, m₁, hremove, hrest⟩ := Action.bind_eq_ok_iff.mp hrun
    obtain ⟨_, m₂, -, hpure⟩ := Action.bind_eq_ok_iff.mp hrest
    obtain rfl := Except.ok.inj (Prod.mk.inj hpure).1
    exact mem_of_removeAfter hheight hremove hcarries
  obtain ⟨before, after, rfl⟩ := List.append_of_mem htx
  obtain ⟨u, hbefore, -⟩ := forEach_append_eq_ok hback
  refine ⟨before, after, m, u, hswitch, hbefore, .inl (unknown_putBacks hbefore ?_ ?_)⟩
  · rw [List.map_append, List.nodup_append] at hdistinct
    exact fun hmem => hdistinct.2.2 _ hmem _ List.mem_cons_self rfl
  · have hkeeps : Action.Keeps (fun n : Node => n.utxStorage.knownTransactions.lookup tx.id = none)
        (switchBlocks settings newBlocks) := unknown_switchBlocks
    have hkept := hkeeps n (hunknown tx htx)
    rwa [hswitch] at hkept

/-- In every run of submissions, blocks and reorganisations, no owed transaction is left behind as
long as no outcome of one is remembered when its turn comes. -/
theorem restores_of_open {events : List Event}
    (h : Transducer.Along (eventStep settings) (Open settings) n events) :
    Transducer.Along (eventStep settings) (Restores settings) n events :=
  h.along (I := fun _ => True) (fun _ _ _ _ => trivial) trivial
    fun _ _ hopen _ newBlocks s n' he hfork tx howed =>
      howed.mem_of_retrievable hfork (hopen newBlocks s n' he hfork tx howed)

end Coordinator

end Platform

namespace Sample

open Coordinator

/-- The node's settings, with fees for payments. -/
def paidSettings : VsysSettings := { settings with utxSettings := poolSettings }

/-- A second block with a payment. -/
def paidBlock : Block :=
  { secondBlock with
    signerData := ⟨key, signature 6⟩
    transactionData := ⟨.success, 100, transfer 1⟩ :: secondBlock.transactionData }

/-- The block with the payment is replaced by one without. -/
def replacingEvents : List Event := [.processBlock paidBlock false, .processFork [otherBlock]]

/-- The payment is sent again while it is in the chain, and then its block is replaced. -/
def rebroadcastEvents : List Event :=
  [.processBlock paidBlock false, .putIfNew (transfer 1), .processFork [otherBlock]]

/-- The node after the first block of either list. -/
def paidNode : Node := (Event.processBlock paidBlock false).run paidSettings firstNode

/-- The node that has turned the payment away. -/
def barredNode : Node := (Event.putIfNew (transfer 1)).run paidSettings paidNode

/-- The node after its block has been replaced. -/
def switchedNode : Node := (Event.processFork [otherBlock]).run paidSettings barredNode

/-- The transactions that are handed back for the block with the payment. -/
def paidDropped : List Transaction := okOr (switchBlocks paidSettings [otherBlock] paidNode).1 []

/-- The last block of the node that has switched. -/
def switchedLast : Option Block := okOr switchedNode.history.lastBlock none

/-- The diff of the payment in the new state. -/
def switchedDiff : Diff :=
  okOr (TransactionDiffer.apply fs (switchedLast.map Block.timestamp) 10
    switchedNode.stateReader.height switchedNode.stateReader.toStateView (transfer 1)) Diff.empty

/-- What the node with the payment hands back for another block: transactions that are different
and that the pool does not know. -/
theorem paidDropped_evaluates :
    (switchBlocks paidSettings [otherBlock] paidNode).1.isOk = true ∧
    (paidDropped.map Transaction.id).Nodup ∧
    ∀ tx ∈ paidDropped, paidNode.utxStorage.knownTransactions.lookup tx.id = none := by
  decide +kernel

/-- The block of the payment is discarded. -/
theorem barredNode_evaluates :
    extensionOf barredNode.history [otherBlock] = [otherBlock] ∧
    barredNode.history.heightOf otherBlock.reference = some 1 ∧
    2 ≤ barredNode.history.height ∧
    barredNode.history.blockAt 2 = .ok (some paidBlock) := by
  decide +kernel

/-- The node switches, and does not have the payment then, neither in its chain nor in its pool,
although it could take it. -/
theorem switchedNode_evaluates :
    (processFork paidSettings [otherBlock] barredNode).1 = .ok 2 ∧
    switchedNode.history.lastBlock.isOk = true ∧
    (TransactionDiffer.apply fs (switchedLast.map Block.timestamp) 10
      switchedNode.stateReader.height switchedNode.stateReader.toStateView (transfer 1)).isOk = true ∧
    (∀ k ∈ switchedNode.history.blockBodyByHeight.keys,
      (okOr (switchedNode.history.blockAt k) none).all
        (fun b => (transfer 1).id ∉ b.transactions.map Transaction.id) = true) ∧
    switchedNode.utxStorage.transactions.keys.card < poolSettings.maxSize ∧
    (transfer 1).id ∉ switchedNode.utxStorage.transactions.keys := by
  decide +kernel

theorem replacingEvents_restore :
    Transducer.Along (eventStep paidSettings) (Restores paidSettings) firstNode replacingEvents :=
  restores_of_open
    ⟨fun _ _ _ he => (by cases he),
      open_of_unknown (eq_ok_okOr paidDropped_evaluates.1) paidDropped_evaluates.2.1
        paidDropped_evaluates.2.2, trivial⟩

theorem enoughFee_transfer : poolSettings.feeCalculator.enoughFee (transfer 1) = .ok () := by
  decide +kernel

/-- The payment is owed to the pool. -/
theorem barredNode_owed :
    Owed paidSettings barredNode switchedNode [otherBlock] (transfer 1) where
  discarded := ⟨otherBlock, [], 1, barredNode_evaluates.1, barredNode_evaluates.2.1, 2, paidBlock,
    by decide, barredNode_evaluates.2.2.1, barredNode_evaluates.2.2.2, List.mem_cons_self⟩
  notMinting := by decide
  notInChain := History.notInChain_of_keys switchedNode_evaluates.2.2.2.1
  enoughFee := enoughFee_transfer
  accepted := fun _ _ _ => ⟨switchedLast, switchedDiff, eq_ok_okOr switchedNode_evaluates.2.1,
    eq_ok_okOr switchedNode_evaluates.2.2.1⟩
  room := switchedNode_evaluates.2.2.2.2.1

/-- The reorganisation succeeds, and the payment is in the pool no more than in the chain. -/
theorem rebroadcastEvents_lose :
    ¬Transducer.Along (eventStep paidSettings) (Restores paidSettings) firstNode rebroadcastEvents := by
  intro hrestores
  have hfork : processFork paidSettings [otherBlock] barredNode = (.ok 2, switchedNode) := by
    rw [switchedNode, Event.run]
    exact Prod.fst_eq_iff.mp switchedNode_evaluates.1
  exact switchedNode_evaluates.2.2.2.2.2
    (hrestores.2.2.1 [otherBlock] 2 switchedNode rfl hfork (transfer 1) barredNode_owed)

end Sample

end Vsys
