import Vsys.Chain.Nodes

/-!
# Switching to a fork

`processFork` rolls back to the parent of the first block it does not know, and appends the new
blocks one by one.  Nothing compares the scores of the two branches, and nothing is restored when a
block is turned away.
-/

namespace Vsys

open Lib

section Platform

variable [Platform]

namespace UtxPool

/-- Whether the pool has a transaction with the identifier that has expired at one of the readings of
the clock from `start` up to `stop`. -/
def Expired (utxSettings : UtxSettings) (clock : Nat → Int64) (start stop : Nat) (pool : UtxPool)
    (id : ByteStr) : Prop :=
  ∃ tx k, tx ∈ pool.values ∧ tx.id = id ∧ start ≤ k ∧ k < stop ∧
    isExpired utxSettings (clock k) tx = .ok true

/-- A pool that has the transactions of another, but for some of those with `gone`. -/
structure Loses (gone : ByteStr → Prop) (pool pool' : UtxPool) : Prop where
  kept : ∀ id tx, pool'.transactions.lookup id = some tx → pool.transactions.lookup id = some tx
  lost : ∀ id tx, pool.transactions.lookup id = some tx →
    pool'.transactions.lookup id = some tx ∨ gone id

variable {gone gone' : ByteStr → Prop} {pool pool' pool'' : UtxPool} {utxSettings : UtxSettings}

/-- The transactions of the pool are those found under some identifier. -/
theorem mem_values_iff {tx : Transaction} :
    tx ∈ pool.values ↔ ∃ id, pool.transactions.lookup id = some tx := by
  rw [values, List.mem_filterMap]
  constructor
  · rintro ⟨id, -, hid⟩
    exact ⟨id, hid⟩
  · rintro ⟨id, hid⟩
    exact ⟨id, (Platform.mem_setToList _ id).mpr (Dict.mem_keys_of_lookup hid), hid⟩

/-- A pool loses nothing to itself. -/
theorem Loses.refl (pool : UtxPool) : Loses gone pool pool where
  kept := fun _ _ h => h
  lost := fun _ _ h => .inl h

/-- What is lost in two steps is lost together. -/
theorem Loses.trans (h : Loses gone pool pool') (h' : Loses gone pool' pool'') :
    Loses gone pool pool'' where
  kept := fun id tx hid => h.kept id tx (h'.kept id tx hid)
  lost := fun id tx hid => by
    obtain hid | hgone := h.lost id tx hid
    · exact h'.lost id tx hid
    · exact .inr hgone

/-- A pool that loses only certain transactions loses only those of any wider kind. -/
theorem Loses.mono (h : Loses gone pool pool') (hgone : ∀ id, gone id → gone' id) :
    Loses gone' pool pool' where
  kept := h.kept
  lost := fun id tx hid => (h.lost id tx hid).imp_right (hgone id)

/-- Dropping a transaction loses nothing but it. -/
theorem Loses.drop {known : Dict ByteStr (Except ValidationError Transaction)} {id : ByteStr}
    (h : gone id) : Loses gone pool { pool.drop id with knownTransactions := known } where
  kept := fun id' tx hid => by
    change (pool.transactions.erase id).lookup id' = some tx at hid
    rw [Dict.lookup_erase_eq] at hid
    split at hid
    · cases hid
    · exact hid
  lost := fun id' tx hid => by
    by_cases hsame : id' = id
    · exact .inr (hsame ▸ h)
    · refine .inl ?_
      show (pool.transactions.erase id).lookup id' = some tx
      rw [Dict.lookup_erase_eq, if_neg hsame]
      exact hid

/-- What expires at a reading of some call expires at one of any longer stretch. -/
theorem Expired.mono {clock : Nat → Int64} {start start' stop stop' : Nat} {id : ByteStr}
    (h : Expired utxSettings clock start stop pool id) (hstart : start' ≤ start)
    (hstop : stop ≤ stop') : Expired utxSettings clock start' stop' pool id := by
  obtain ⟨tx, k, htx, hid, hfrom, hto, hexpired⟩ := h
  exact ⟨tx, k, htx, hid, hstart.trans hfrom, hto.trans_le hstop, hexpired⟩

/-- A pool that only loses transactions has no new ones. -/
theorem Loses.values (h : Loses gone pool pool') {tx : Transaction} (htx : tx ∈ pool'.values) :
    tx ∈ pool.values := by
  obtain ⟨id, hid⟩ := mem_values_iff.mp htx
  exact mem_values_iff.mpr ⟨id, h.kept id tx hid⟩

/-- `removeExpired` drops no transaction but those of the pool that have expired by then. -/
theorem keeps_removeExpired {now : Int64}
    (hgone : ∀ tx ∈ pool.values, isExpired utxSettings now tx = .ok true → gone tx.id) :
    Action.Keeps (Loses gone pool) (removeExpired utxSettings now) := by
  refine Action.Keeps.get_bind fun pool' hpool' => Action.Keeps.forEach fun tx htx =>
    Action.Keeps.ofExcept_bind fun expired hexpired => ?_
  cases expired with
  | true =>
      exact Action.Keeps.modify fun _ h => h.trans (.drop (hgone tx (hpool'.values htx) hexpired))
  | false => exact Action.Keeps.pure ()

/-- What is removed with a block: its transactions, and what has expired. -/
theorem keeps_removeAll {now : Int64} {txs : List Transaction}
    (hgone : ∀ tx ∈ pool.values, isExpired utxSettings now tx = .ok true → gone tx.id)
    (htxs : ∀ tx ∈ txs, gone tx.id) :
    Action.Keeps (Loses gone pool) (removeAll utxSettings now txs) :=
  (keeps_removeExpired hgone).bind fun _ => Action.Keeps.forEach fun tx htx =>
    Action.Keeps.modify fun _ h => h.trans (.drop (htxs tx htx))

end UtxPool

namespace History

variable {h : History}

/-- Reading a block of the history never fails with a validation error. -/
theorem blockAt_not_isLeft {height : Nat} {e : Fault} (he : h.blockAt height = .error e) :
    ¬ e.IsLeft := by
  unfold blockAt at he
  split at he
  · cases he
  · rename_i bytes _
    cases hget : explicitGet (Block.parseBytes bytes) with
    | ok b =>
        rw [hget] at he
        cases he
    | error e' =>
        rw [hget] at he
        obtain rfl := Except.error.inj he
        exact not_isLeft_of_explicitGet hget

/-- Reading the score never fails with a validation error. -/
theorem score_not_isLeft {e : Fault} (he : h.score = .error e) : ¬ e.IsLeft := by
  cases hlast : h.lastBlock with
  | ok last =>
      rw [score, hlast] at he
      cases he
  | error e' =>
      rw [score, hlast] at he
      obtain rfl := Except.error.inj he
      exact blockAt_not_isLeft hlast

end History

namespace Coordinator

variable {settings : VsysSettings} {n n' : Node} {b : Block} {newBlocks : List Block}

/-- Reading the clock raises no validation error. -/
theorem avoids_correctedTime : Action.Avoids Fault.IsLeft (correctedTime settings) :=
  Action.Avoids.get.bind fun _ => (Action.Avoids.modify _).bind fun _ => Action.Avoids.pure _

/-- Asking for the score raises no validation error. -/
theorem avoids_score : Action.Avoids Fault.IsLeft score :=
  Action.Avoids.get.bind fun _ => Action.Avoids.ofExcept fun _ => History.score_not_isLeft

/-- Switching the mining on or off raises no validation error. -/
theorem avoids_updateBlockchainReadinessFlag :
    Action.Avoids Fault.IsLeft (updateBlockchainReadinessFlag settings) :=
  avoids_correctedTime.bind fun _ => Action.Avoids.get.bind fun _ =>
    (Action.Avoids.ofExcept fun _ => History.blockAt_not_isLeft).bind fun _ =>
      (Action.Avoids.ofExcept fun _ => not_isLeft_of_getOrRaise).bind fun _ =>
        Action.Avoids.modify _

/-- Putting a transaction back into the pool raises no validation error, whether the pool takes
it or not. -/
theorem avoids_putBack (tx : Transaction) : Action.Avoids Fault.IsLeft (putBack settings tx) := by
  refine avoids_correctedTime.bind fun now => Action.Avoids.get.bind fun n =>
    Action.Avoids.onPart fun pool e pool' h => ?_
  generalize UtxPool.putIfNew _ _ _ _ now tx pool = run at h
  rintro ⟨v, rfl⟩
  obtain ⟨outcome, pool''⟩ := run
  match outcome with
  | .ok _ => cases h
  | .error (.left _) => cases h
  | .error (.raised _) => cases h

/-- Taking transactions out of the pool raises no validation error. -/
theorem avoids_removeAll {utxSettings : UtxSettings} {now : Int64} {txs : List Transaction} :
    Action.Avoids Fault.IsLeft (UtxPool.removeAll utxSettings now txs) := by
  refine Action.Avoids.bind ?_ fun _ => Action.Avoids.forEach fun tx _ => Action.Avoids.modify _
  refine Action.Avoids.get.bind fun _ => Action.Avoids.forEach fun tx _ =>
    Action.Avoids.bind (Action.Avoids.ofExcept ?_) fun expired => ?_
  · rintro e he ⟨v, rfl⟩
    unfold UtxPool.isExpired at he
    dsimp only at he
    split at he
    · cases he
    · cases he
  · cases expired with
    | true => exact Action.Avoids.modify _
    | false => exact Action.Avoids.pure ()

/-- An action on the chain changes the chain and nothing else of the node. -/
theorem onUpdater_eq {α : Type} {x : Action Fault BlockchainUpdaterImpl α} {r : Result α}
    (h : onUpdater x n = (r, n')) :
    x n.blockchainUpdater = (r, n'.blockchainUpdater) ∧
      n' = { n with blockchainUpdater := n'.blockchainUpdater } := by
  obtain ⟨houtcome, rfl⟩ := Prod.mk.inj h
  exact ⟨Prod.ext houtcome rfl, rfl⟩

/-- The time is the clock at the next reading, and one more reading is counted. -/
theorem correctedTime_apply (n : Node) :
    correctedTime settings n
      = (.ok (settings.clock n.readings), { n with readings := n.readings + 1 }) := rfl

/-- What `appendBlock` does: it changes nothing, or the updater turns the block away, or the updater
takes it and the pool loses what is removed with it. -/
theorem appendBlock_cases {r : Result Unit} (h : appendBlock settings b n = (r, n')) :
    (∃ e, r = .error e ∧ n'.blockchainUpdater = n.blockchainUpdater ∧
        n'.utxStorage = n.utxStorage) ∨
      (∃ e, r = .error e ∧ n'.utxStorage = n.utxStorage ∧
        BlockchainUpdaterImpl.processBlock settings.updater b n.blockchainUpdater
          = (.error e, n'.blockchainUpdater)) ∨
      (BlockchainUpdaterImpl.processBlock settings.updater b n.blockchainUpdater
          = (.ok (), n'.blockchainUpdater) ∧
        n'.readings = n.readings + 2 ∧
        UtxPool.removeAll settings.utxSettings (settings.clock (n.readings + 1)) b.transactions
          n.utxStorage = (r, n'.utxStorage)) := by
  rw [appendBlock, Action.bind_of_ok (Action.get_apply n)] at h
  obtain ⟨e, hcheckpoint, rfl⟩ | ⟨_, m, hcheckpoint, h⟩ := Action.bind_cases h
  · obtain ⟨-, rfl⟩ := Prod.mk.inj hcheckpoint
    exact .inl ⟨e, rfl, rfl, rfl⟩
  obtain ⟨-, rfl⟩ := Prod.mk.inj hcheckpoint
  rw [Action.bind_of_ok (correctedTime_apply _)] at h
  obtain ⟨e, hconsensus, rfl⟩ | ⟨_, m, hconsensus, h⟩ := Action.bind_cases h
  · obtain ⟨-, rfl⟩ := Prod.mk.inj hconsensus
    exact .inl ⟨e, rfl, rfl, rfl⟩
  obtain ⟨-, rfl⟩ := Prod.mk.inj hconsensus
  obtain ⟨e, hprocess, rfl⟩ | ⟨_, m, hprocess, h⟩ := Action.bind_cases h
  · obtain ⟨houtcome, rfl⟩ := Prod.mk.inj hprocess
    exact .inr (.inl ⟨e, rfl, rfl, Prod.ext houtcome rfl⟩)
  obtain ⟨houtcome, rfl⟩ := Prod.mk.inj hprocess
  rw [Action.bind_of_ok (correctedTime_apply _)] at h
  obtain ⟨hremove, rfl⟩ := Prod.mk.inj h
  exact .inr (.inr ⟨Prod.ext houtcome rfl, rfl, Prod.ext hremove rfl⟩)

/-- Reading the clock takes no reading back. -/
theorem readings_le_correctedTime {k : Nat} :
    Action.Keeps (fun n : Node => k ≤ n.readings) (correctedTime settings) :=
  fun _ h => Nat.le_succ_of_le h

/-- A reading of the clock is never taken back. -/
theorem readings_le_appendBlock {k : Nat} :
    Action.Keeps (fun n : Node => k ≤ n.readings) (appendBlock settings b) :=
  Action.Keeps.get.bind fun _ => (Action.Keeps.ofExcept _).bind fun _ =>
    readings_le_correctedTime.bind fun _ => (Action.Keeps.ofExcept _).bind fun _ =>
      Action.Keeps.bind (fun _ h => h) fun _ => readings_le_correctedTime.bind fun _ =>
        fun _ h => h

/-- Appending a block takes no reading of the clock back. -/
theorem readings_le_of_appendBlock {r : Result Unit} (h : appendBlock settings b n = (r, n')) :
    n.readings ≤ n'.readings := by
  have hkept : n.readings ≤ (appendBlock settings b n).2.readings := readings_le_appendBlock n le_rfl
  rwa [h] at hkept

/-- Appending blocks takes no reading of the clock back. -/
theorem readings_le_of_appendBlocks {r : Result Unit}
    (h : Action.forEach (appendBlock settings) newBlocks n = (r, n')) :
    n.readings ≤ n'.readings := by
  have hkept : n.readings ≤ (Action.forEach (appendBlock settings) newBlocks n).2.readings :=
    Action.Keeps.forEach (fun _ _ => readings_le_appendBlock) n le_rfl
  rwa [h] at hkept

/-- A block that is appended has gone through the updater. -/
theorem processBlock_of_appendBlock (h : appendBlock settings b n = (.ok (), n')) :
    BlockchainUpdaterImpl.processBlock settings.updater b n.blockchainUpdater
      = (.ok (), n'.blockchainUpdater) := by
  obtain ⟨e, he, -⟩ | ⟨e, he, -⟩ | ⟨hprocess, -⟩ := appendBlock_cases h
  · cases he
  · cases he
  · exact hprocess

/-- A block that is appended is on top of the history, and adds its score. -/
theorem appendBlock_score {blocks : List Block} (hs : n.history.Stores blocks) (hb : b.Storable)
    (h : appendBlock settings b n = (.ok (), n')) :
    ∃ s, n.history.score = .ok s ∧ n'.history.score = .ok (s + b.blockScore) ∧
      n'.history.Stores (blocks ++ [b]) := by
  obtain ⟨s, bytes, hscore, hparse, hpush⟩ :=
    BlockchainUpdaterImpl.processBlock_history hs hb (processBlock_of_appendBlock h)
  have hhistory : n'.history = n.history.push b bytes (s + b.blockScore) := hpush
  rw [hhistory]
  exact ⟨s, hscore, History.score_push hparse _, hs.push hparse _⟩

/-- Blocks that are appended one after another add their scores. -/
theorem appendBlocks_score {blocks : List Block} {s : Int} (hs : n.history.Stores blocks)
    (hscore : n.history.score = .ok s) (hnew : ∀ b ∈ newBlocks, b.Storable)
    (h : Action.forEach (appendBlock settings) newBlocks n = (.ok (), n')) :
    n'.history.score = .ok (s + chainScore newBlocks) := by
  induction newBlocks generalizing n blocks s with
  | nil =>
      obtain ⟨-, rfl⟩ := Prod.mk.inj h
      rw [hscore, chainScore, List.map_nil, List.sum_nil, add_zero]
  | cons b rest ih =>
      obtain ⟨u, hb, hrest⟩ := Action.forEach_cons_eq_ok_iff.mp h
      obtain ⟨s', hs', hnext, hstores⟩ :=
        appendBlock_score hs (hnew b List.mem_cons_self) hb
      obtain rfl := Except.ok.inj (hscore.symm.trans hs')
      rw [ih hstores hnext (fun b' hb' => hnew b' (List.mem_cons_of_mem b hb')) hrest, chainScore,
        chainScore, List.map_cons, List.sum_cons, add_assoc]

/-- The blocks of a fork from the first on that the history does not know. -/
def extensionOf (history : History) (newBlocks : List Block) : List Block :=
  newBlocks.dropWhile fun b => history.contains b.uniqueId

/-- What `processFork` does once it has found the parent of the first new block at `height`. -/
def switchTo (settings : VsysSettings) (first : Block) (rest : List Block) (height : Nat) :
    Action Fault Node Int := do
  let n ← Action.get
  Action.ofExcept (cond
    (∀ p ∈ (first :: rest).zipIdx,
      n.checkpoint.isBlockValid p.1.signerData.signature (height + 1 + p.2) = true)
    (.genericError "Fork contains block that doesn't match checkpoint, declining fork"))
  let droppedTransactions ←
    onUpdater (BlockchainUpdaterImpl.removeAfter settings.updater first.reference)
  Action.forEach (appendBlock settings) (first :: rest)
  let newScore ← score
  Action.forEach (putBack settings) droppedTransactions
  updateBlockchainReadinessFlag settings
  pure newScore

/-- The three ways `processFork` goes: no block is new, the parent of the new blocks is not known, or
the node switches. -/
theorem processFork_apply (settings : VsysSettings) (newBlocks : List Block) (n : Node) :
    processFork settings newBlocks n =
      match extensionOf n.history newBlocks with
      | [] => (n.history.score, n)
      | first :: rest =>
          match n.history.heightOf first.reference with
          | none => (left (.genericError "Fork contains no common parent"), n)
          | some height => switchTo settings first rest height n := by
  rw [processFork, Action.bind_of_ok (Action.get_apply n)]
  show _ = match newBlocks.dropWhile fun b => n.history.contains b.uniqueId with
    | [] => _
    | first :: rest => _
  cases newBlocks.dropWhile fun b => n.history.contains b.uniqueId with
  | nil => rfl
  | cons first rest =>
      simp only [List.head?_cons]
      cases n.history.heightOf first.reference with
      | none => rfl
      | some height => rfl

/-- A switch that succeeds has rolled back, appended every new block, and left the history there. -/
theorem switchTo_eq_ok {first : Block} {rest : List Block} {height : Nat} {s : Int}
    (h : switchTo settings first rest height n = (.ok s, n')) :
    ∃ dropped m m', onUpdater (BlockchainUpdaterImpl.removeAfter settings.updater first.reference) n
        = (.ok dropped, m) ∧
      Action.forEach (appendBlock settings) (first :: rest) m = (.ok (), m') ∧
      m'.history.score = .ok s ∧ n'.blockchainUpdater = m'.blockchainUpdater := by
  rw [switchTo, Action.bind_of_ok (Action.get_apply n)] at h
  obtain ⟨_, m, hcheckpoint, h⟩ := Action.bind_eq_ok_iff.mp h
  obtain ⟨-, rfl⟩ := Prod.mk.inj hcheckpoint
  obtain ⟨dropped, m, hremove, h⟩ := Action.bind_eq_ok_iff.mp h
  obtain ⟨_, m', happend, h⟩ := Action.bind_eq_ok_iff.mp h
  obtain ⟨newScore, m'', hscore, h⟩ := Action.bind_eq_ok_iff.mp h
  obtain ⟨hvalue, rfl⟩ := Prod.mk.inj hscore
  -- what follows the score leaves the updater alone
  have hupdater := keeps_afterSwitch settings dropped newScore
    (I := fun u => u = m'.blockchainUpdater) m' rfl
  rw [h] at hupdater
  obtain ⟨_, u, -, h⟩ := Action.bind_eq_ok_iff.mp h
  obtain ⟨_, u', -, h⟩ := Action.bind_eq_ok_iff.mp h
  obtain ⟨hresult, -⟩ := Prod.mk.inj h
  obtain rfl := Except.ok.inj hresult
  exact ⟨dropped, m, m', hremove, happend, hvalue, hupdater⟩

/-- A rollback leaves the history at the score of the block it goes back to. -/
theorem score_of_removeAfter {blocks : List Block} {blockId : ByteStr} {height : Nat}
    (hs : n.history.Indexed blocks) (hheight : n.history.heightOf blockId = some height)
    {dropped : Result (List Transaction)}
    (h : onUpdater (BlockchainUpdaterImpl.removeAfter settings.updater blockId) n = (dropped, n')) :
    n'.history.Indexed (blocks.take height) ∧
      ∃ common, n.history.scoreOf blockId = some common ∧ n'.history.score = .ok common := by
  obtain ⟨i, b, rfl, hb, rfl⟩ := hs.stores.known blockId height hheight
  have hlt := (List.getElem?_eq_some_iff.mp hb).1
  have hhistory : n'.history
      = (n.history.discardBlocks (blocks.drop (i + 1)).length).2 := by
    obtain ⟨-, rfl⟩ := Prod.mk.inj h
    have hcut := BlockchainUpdaterImpl.removeAfter_history settings.updater hheight
    have hcount : n.history.height - (i + 1) = (blocks.drop (i + 1)).length := by
      rw [List.length_drop, hs.stores.height]
    exact hcount ▸ hcut
  have hkept : blocks.take (i + 1) = blocks.take i ++ [b] := by
    rw [List.take_add_one, hb]
    rfl
  rw [← List.take_append_drop (i + 1) blocks] at hs
  obtain ⟨hindexed, hscores⟩ := hs.discardBlocks
  have hscore := hscores b.uniqueId (i + 1) hheight (by rw [List.length_take]; omega)
  rw [hhistory]
  refine ⟨hindexed, _, by rw [History.scoreOf, hheight, Option.map_some], ?_⟩
  rw [hkept] at hindexed
  refine hindexed.score_concat (hscore.trans ?_)
  rw [History.scoreOf, hheight, Option.map_some]

/-- A fork that is taken leaves the score of the parent of its first new block, with the scores of
the new blocks added; one without new blocks leaves the node as it is. -/
theorem processFork_score {blocks : List Block} (hs : n.history.Indexed blocks)
    (hnew : ∀ b ∈ newBlocks, b.Storable) {s : Int}
    (h : processFork settings newBlocks n = (.ok s, n')) :
    n'.history.score = .ok s ∧
      match extensionOf n.history newBlocks with
      | [] => n' = n
      | first :: rest => ∃ common, n.history.scoreOf first.reference = some common ∧
          s = common + chainScore (first :: rest) := by
  have hsuffix : extensionOf n.history newBlocks <:+ newBlocks := List.dropWhile_suffix _
  rw [processFork_apply] at h
  cases hextension : extensionOf n.history newBlocks with
  | nil =>
      rw [hextension] at h
      obtain ⟨hscore, rfl⟩ := Prod.mk.inj h
      exact ⟨hscore, rfl⟩
  | cons first rest =>
      rw [hextension] at h hsuffix
      cases hheight : n.history.heightOf first.reference with
      | none =>
          simp only [hheight] at h
          obtain ⟨h, -⟩ := Prod.mk.inj h
          cases h
      | some height =>
          simp only [hheight] at h
          obtain ⟨dropped, m, m', hremove, happend, hscore, hupdater⟩ := switchTo_eq_ok h
          obtain ⟨hindexed, common, hcommon, hrolled⟩ := score_of_removeAfter hs hheight hremove
          have hfinal := appendBlocks_score hindexed.stores hrolled
            (fun b hb => hnew b (hsuffix.mem hb)) happend
          obtain rfl := Except.ok.inj (hscore.symm.trans hfinal)
          have hhistory : n'.history = m'.history :=
            congrArg BlockchainUpdaterImpl.history hupdater
          exact ⟨hhistory ▸ hscore, common, hcommon, rfl⟩

/-- A block that is taken has been appended, and nothing after that changes the updater. -/
theorem processBlock_eq_ok {isLocal : Bool} {s : Int}
    (h : processBlock settings b isLocal n = (.ok s, n')) :
    ∃ m, appendBlock settings b n = (.ok (), m) ∧ m.history.score = .ok s ∧
      n'.blockchainUpdater = m.blockchainUpdater := by
  unfold processBlock at h
  cases hrun : (do appendBlock settings b; score : Action Fault Node Int) n with
  | mk outcome m =>
      rw [hrun] at h
      match outcome with
      | .error (.raised e) =>
          obtain ⟨h, -⟩ := Prod.mk.inj h
          cases h
      | .error (.left e) =>
          dsimp only at h
          split at h
          · obtain ⟨_, u, -, h⟩ := Action.bind_eq_ok_iff.mp h
            obtain ⟨h, -⟩ := Prod.mk.inj h
            cases h
          · obtain ⟨h, -⟩ := Prod.mk.inj h
            cases h
      | .ok s' =>
          obtain ⟨_, u, happend, hscore⟩ := Action.bind_eq_ok_iff.mp hrun
          obtain ⟨hvalue, rfl⟩ := Prod.mk.inj hscore
          dsimp only at h
          rw [if_pos (.inr rfl)] at h
          obtain ⟨_, u', hflag, hend⟩ := Action.bind_eq_ok_iff.mp h
          obtain ⟨hresult, rfl⟩ := Prod.mk.inj hend
          obtain rfl := Except.ok.inj hresult
          have hupdater := keeps_updateBlockchainReadinessFlag settings
            (I := fun v => v = u.blockchainUpdater) u rfl
          rw [hflag] at hupdater
          exact ⟨u, happend, hvalue, hupdater⟩

/-- A block that is taken adds its score. -/
theorem processBlock_score {blocks : List Block} (hs : n.history.Stores blocks) (hb : b.Storable)
    {isLocal : Bool} {s : Int} (h : processBlock settings b isLocal n = (.ok s, n')) :
    n'.history.score = .ok s ∧ ∃ old, n.history.score = .ok old ∧ s = old + b.blockScore := by
  obtain ⟨m, happend, hvalue, hupdater⟩ := processBlock_eq_ok h
  obtain ⟨old, hold, hnext, -⟩ := appendBlock_score hs hb happend
  obtain rfl := Except.ok.inj (hnext.symm.trans hvalue)
  have hhistory : n'.history = m.history := congrArg BlockchainUpdaterImpl.history hupdater
  exact ⟨hhistory ▸ hvalue, old, hold, rfl⟩

/-- A block with an identifier of its own that is taken is found at its height. -/
theorem processBlock_scored {blocks : List Block} (hs : n.history.Scored blocks) (hb : b.Storable)
    (hnew : b.uniqueId ∉ blocks.map Block.uniqueId) {isLocal : Bool} {s : Int}
    (h : processBlock settings b isLocal n = (.ok s, n')) :
    n'.history.Scored (blocks ++ [b]) := by
  obtain ⟨m, happend, -, hupdater⟩ := processBlock_eq_ok h
  obtain ⟨old, bytes, hold, hparse, hpush⟩ := BlockchainUpdaterImpl.processBlock_history hs.stores hb
    (processBlock_of_appendBlock happend)
  have hhistory : n'.history = n.history.push b bytes (old + b.blockScore) := by
    rw [Node.history, hupdater, hpush]
    rfl
  obtain rfl := Except.ok.inj (hs.score.symm.trans hold)
  exact hhistory ▸ hs.push hparse hnew

/-- Whether a call brings at least the score it discards: a block discards none, and a fork the
score above the parent of its first new block. -/
def Call.Outweighs (n : Node) : Call → Prop
  | .processBlock _ _ => True
  | .processFork newBlocks => ∀ first rest old common,
      extensionOf n.history newBlocks = first :: rest → n.history.score = .ok old →
      n.history.scoreOf first.reference = some common → old ≤ common + chainScore (first :: rest)
  | .processCheckpoint _ => False

/-- Calls that are all taken, bring blocks that can be read back, and outweigh what they discard.
The pool, the checkpoint and the clock may change in between. -/
inductive Run (settings : VsysSettings) : Node → Node → Prop
  | refl {n : Node} : Run settings n n
  | call {n m n' : Node} {s : Int} (hrun : Run settings n m) (c : Call)
      (hc : ∀ b ∈ c.blocks, b.Storable) (hweight : c.Outweighs m)
      (h : c.run settings m = (.ok s, n')) : Run settings n n'
  | elsewhere {n m n' : Node} (hrun : Run settings n m)
      (h : n'.blockchainUpdater = m.blockchainUpdater) : Run settings n n'

/-- A run of a reached node reaches its end. -/
theorem Reached.run {P : Block → Prop} (hn : Reached settings P n)
    (hP : ∀ b, b.Storable → P b) (h : Run settings n n') : Reached settings P n' := by
  induction h with
  | refl => exact hn
  | @call m n' s hrun c hc hweight h ih =>
      have hnext := ih.call c fun b hb => hP b (hc b hb)
      rwa [h] at hnext
  | elsewhere hrun h ih => exact ih.elsewhere h

/-- A call that is taken, and outweighs what it discards, does not lower the score. -/
theorem Call.score_le {blocks : List Block} (hs : n.history.Indexed blocks) (c : Call)
    (hc : ∀ b ∈ c.blocks, b.Storable) (hweight : c.Outweighs n) {s : Int}
    (h : c.run settings n = (.ok s, n')) {old : Int} (hold : n.history.score = .ok old) :
    ∃ new, n'.history.score = .ok new ∧ old ≤ new := by
  cases c with
  | processBlock b isLocal =>
      obtain ⟨hscore, old', hold', rfl⟩ :=
        processBlock_score hs.stores (hc b List.mem_cons_self) h
      obtain rfl := Except.ok.inj (hold.symm.trans hold')
      have := b.blockScore_pos
      exact ⟨_, hscore, by omega⟩
  | processFork newBlocks =>
      have hblocks : ∀ b ∈ newBlocks, b.Storable := hc
      obtain ⟨hscore, hnew⟩ := processFork_score hs hblocks h
      refine ⟨s, hscore, ?_⟩
      cases hextension : extensionOf n.history newBlocks with
      | nil =>
          rw [hextension] at hnew
          obtain rfl : n' = n := hnew
          exact (Except.ok.inj (hold.symm.trans hscore)).le
      | cons first rest =>
          rw [hextension] at hnew
          obtain ⟨common, hcommon, rfl⟩ := hnew
          exact hweight first rest old common hextension hold hcommon
  | processCheckpoint checkpoint => exact hweight.elim

/-- A fork that is taken leaves the score of the parent of its first new block with the scores of
the new blocks added, a block that is taken adds its own, and calls that outweigh what they discard
never lower the score. -/
theorem Reached.score_changes (hn : Reached settings Block.Storable n) :
    (∀ newBlocks s n', (∀ b ∈ newBlocks, b.Storable) →
      processFork settings newBlocks n = (.ok s, n') →
      n'.history.score = .ok s ∧
        match extensionOf n.history newBlocks with
        | [] => n' = n
        | first :: rest => ∃ common, n.history.scoreOf first.reference = some common ∧
            s = common + chainScore (first :: rest)) ∧
    (∀ b isLocal s n', b.Storable → processBlock settings b isLocal n = (.ok s, n') →
      n'.history.score = .ok s ∧
        ∃ old, n.history.score = .ok old ∧ s = old + b.blockScore ∧ old < s) ∧
    ∀ n', Run settings n n' →
      ∃ old new, n.history.score = .ok old ∧ n'.history.score = .ok new ∧ old ≤ new := by
  obtain ⟨blocks, hs⟩ := hn.indexed fun _ hb => hb
  refine ⟨fun newBlocks s n' hnew h => processFork_score hs hnew h, fun b isLocal s n' hb h => ?_,
    fun n' hrun => ?_⟩
  · obtain ⟨hscore, old, hold, rfl⟩ := processBlock_score hs.stores hb h
    exact ⟨hscore, old, hold, rfl, by have := b.blockScore_pos; omega⟩
  -- The induction is on the run. A call raises the score when it comes out and keeps the chain
  -- when it does not, and what happens elsewhere in the node leaves the history alone.
  · induction hrun with
    | refl =>
        obtain ⟨old, hold⟩ := hs.stores.score_eq_ok
        exact ⟨old, old, hold, hold, le_rfl⟩
    | @call m n' s hrun c hc hweight h ih =>
        obtain ⟨blocks', hs'⟩ := (hn.run (fun _ hb => hb) hrun).indexed fun _ hb => hb
        obtain ⟨old, mid, hold, hmid, hle⟩ := ih
        obtain ⟨new, hnew, hle'⟩ := c.score_le hs' hc hweight h hmid
        exact ⟨old, new, hold, hnew, hle.trans hle'⟩
    | elsewhere hrun h ih =>
        obtain ⟨old, new, hold, hnew, hle⟩ := ih
        refine ⟨old, new, hold, ?_, hle⟩
        rw [← hnew]
        exact congrArg (fun u => u.history.score) h

section Rejected

variable {blocks : List Block} (hsettings : settings.updater.stateSettings.txTypeAccountTxIds = true)

/-- Blocks that can be read back, and whose genesis transactions take different slots. -/
def Sound (settings : VsysSettings) (b : Block) : Prop :=
  b.Storable ∧ b.SlotsDistinct settings.updater.functionalitySettings

/-- A node whose three layers stand for the blocks of its history. -/
def StandsFor (settings : VsysSettings) (n : Node) (blocks : List Block) : Prop :=
  BlockchainUpdaterImpl.StandsFor settings.updater.functionalitySettings n.blockchainUpdater blocks

include hsettings

/-- A reached node stands for some blocks. -/
theorem Reached.standsFor (hn : Reached settings (Sound settings) n) :
    ∃ blocks, StandsFor settings n blocks := by
  refine hn.updater (I := fun u => ∃ blocks, BlockchainUpdaterImpl.StandsFor
    settings.updater.functionalitySettings u blocks) ⟨[], BlockchainUpdaterImpl.standsFor_empty⟩ ?_ ?_
  · rintro b hb u ⟨blocks, hu⟩
    exact hu.run hsettings (.processBlock b) fun b' hb' => by
      obtain rfl := BlockchainUpdaterImpl.Call.processBlock.inj hb'
      exact hb
  · rintro id u ⟨blocks, hu⟩
    exact hu.run hsettings (.removeAfter id) fun b' hb' => by cases hb'

/-- A block that is appended is on top of the chain, and the pool has lost no more than what is
removed with the block at the readings of the clock on the way. -/
theorem StandsFor.appendBlock (hs : StandsFor settings n blocks) (hb : Sound settings b)
    (h : appendBlock settings b n = (.ok (), n')) {gone : ByteStr → Prop} {pool : UtxPool}
    (hpool : UtxPool.Loses gone pool n.utxStorage)
    (hgone : ∀ id, UtxPool.Expired settings.utxSettings settings.clock n.readings n'.readings pool id →
      gone id)
    (hremoved : ∀ tx ∈ b.transactions, gone tx.id) :
    StandsFor settings n' (blocks ++ [b]) ∧ UtxPool.Loses gone pool n'.utxStorage := by
  obtain ⟨e, he, -⟩ | ⟨e, he, -⟩ | ⟨hprocess, hreadings, hremove⟩ := appendBlock_cases h
  · cases he
  · cases he
  · have hnext := BlockchainUpdaterImpl.StandsFor.processBlock hs hsettings
      ⟨hb.1.encodable, hb.2⟩ hb.1
    have hexpired : ∀ tx ∈ pool.values,
        UtxPool.isExpired settings.utxSettings (settings.clock (n.readings + 1)) tx = .ok true →
        gone tx.id := fun tx htx hold =>
      hgone tx.id ⟨tx, n.readings + 1, htx, rfl, by omega, by omega, hold⟩
    have hlost := UtxPool.keeps_removeAll hexpired hremoved n.utxStorage hpool
    rw [hprocess] at hnext
    rw [hremove] at hlost
    exact ⟨hnext, hlost⟩

/-- A node that appends sound blocks stands for them behind its own, and what its pool loses
meanwhile is in the blocks or expired at a reading of these appends. -/
theorem StandsFor.appendBlocks (hs : StandsFor settings n blocks)
    (hnew : ∀ b ∈ newBlocks, Sound settings b)
    (h : Action.forEach (Coordinator.appendBlock settings) newBlocks n = (.ok (), n'))
    {gone : ByteStr → Prop} {pool : UtxPool} {start stop : Nat}
    (hpool : UtxPool.Loses gone pool n.utxStorage) (hstart : start ≤ n.readings)
    (hstop : n'.readings ≤ stop)
    (hgone : ∀ id, UtxPool.Expired settings.utxSettings settings.clock start stop pool id → gone id)
    (hremoved : ∀ b ∈ newBlocks, ∀ tx ∈ b.transactions, gone tx.id) :
    StandsFor settings n' (blocks ++ newBlocks) ∧ UtxPool.Loses gone pool n'.utxStorage := by
  induction newBlocks generalizing n blocks with
  | nil =>
      obtain ⟨-, rfl⟩ := Prod.mk.inj h
      rw [List.append_nil]
      exact ⟨hs, hpool⟩
  | cons b rest ih =>
      obtain ⟨m, hb, hrest⟩ := Action.forEach_cons_eq_ok_iff.mp h
      obtain ⟨hm, hlost⟩ := hs.appendBlock hsettings (hnew b List.mem_cons_self) hb hpool
        (fun id hid => hgone id
          (hid.mono hstart ((readings_le_of_appendBlocks hrest).trans hstop)))
        (hremoved b List.mem_cons_self)
      obtain ⟨hn', hlost'⟩ := ih hm (fun b' hb' => hnew b' (List.mem_cons_of_mem b hb')) hrest hlost
        (hstart.trans (readings_le_of_appendBlock hb)) fun b' hb' => hremoved b' (List.mem_cons_of_mem b hb')
      rw [← List.append_cons] at hn'
      exact ⟨hn', hlost'⟩

/-- A block that is turned away leaves the chain and the pool. -/
theorem StandsFor.appendBlock_left (hs : StandsFor settings n blocks) (hb : Sound settings b)
    {e : ValidationError} (h : Coordinator.appendBlock settings b n = (.error (.left e), n')) :
    StandsFor settings n' blocks ∧ n'.utxStorage = n.utxStorage := by
  obtain ⟨e', -, hupdater, hutx⟩ | ⟨e', -, hutx, hprocess⟩ | ⟨-, -, hremove⟩ := appendBlock_cases h
  · refine ⟨?_, hutx⟩
    rw [StandsFor, hupdater]
    exact hs
  · have hnext := BlockchainUpdaterImpl.StandsFor.processBlock hs hsettings
      ⟨hb.1.encodable, hb.2⟩ hb.1
    rw [hprocess] at hnext
    exact ⟨hnext, hutx⟩
  · exact absurd ⟨e, rfl⟩ (avoids_removeAll _ _ _ hremove)

omit hsettings in
/-- A switch that is given up has done nothing, or has rolled back and stopped at a block that was
turned away. -/
theorem switchTo_eq_left {first : Block} {rest : List Block} {height : Nat} {e : ValidationError}
    (h : switchTo settings first rest height n = (.error (.left e), n')) :
    n' = n ∨ (∃ v, onUpdater (BlockchainUpdaterImpl.removeAfter settings.updater first.reference) n
        = (.error v, n')) ∨
      ∃ dropped m accepted rejected later m',
        onUpdater (BlockchainUpdaterImpl.removeAfter settings.updater first.reference) n
          = (.ok dropped, m) ∧
        first :: rest = accepted ++ rejected :: later ∧
        Action.forEach (Coordinator.appendBlock settings) accepted m = (.ok (), m') ∧
        Coordinator.appendBlock settings rejected m' = (.error (.left e), n') := by
  rw [switchTo, Action.bind_of_ok (Action.get_apply n)] at h
  obtain hcheckpoint | ⟨_, m, hcheckpoint, h⟩ := Action.bind_eq_error_iff.mp h
  · exact .inl (Prod.mk.inj hcheckpoint).2.symm
  obtain ⟨-, rfl⟩ := Prod.mk.inj hcheckpoint
  obtain hremove | ⟨dropped, m, hremove, h⟩ := Action.bind_eq_error_iff.mp h
  · exact .inr (.inl ⟨_, hremove⟩)
  obtain happend | ⟨_, m', -, h⟩ := Action.bind_eq_error_iff.mp h
  · obtain ⟨accepted, rejected, later, m', hsplit, hdone, hfail⟩ := Action.forEach_eq_error happend
    exact .inr (.inr ⟨dropped, m, accepted, rejected, later, m', hremove, hsplit, hdone, hfail⟩)
  -- nothing that follows is turned away
  have hrest : Action.Avoids Fault.IsLeft (do
      let newScore ← score
      Action.forEach (putBack settings) dropped
      updateBlockchainReadinessFlag settings
      pure newScore) :=
    avoids_score.bind fun _ => (Action.Avoids.forEach fun tx _ => avoids_putBack tx).bind fun _ =>
      avoids_updateBlockchainReadinessFlag.bind fun _ => Action.Avoids.pure _
  exact absurd ⟨e, rfl⟩ (hrest _ _ _ h)

/-- A fork that is turned away leaves the node as it was, or leaves the blocks up to the parent of
the first new block with the new blocks before the one that was turned away: the state answers as
their replay, and the pool has lost nothing but their transactions and those that have expired at a
reading of the clock that the call made, and has got nothing back. -/
theorem Reached.processFork_left (hn : Reached settings (Sound settings) n)
    (hnew : ∀ b ∈ newBlocks, Sound settings b) {e : ValidationError}
    (h : processFork settings newBlocks n = (.error (.left e), n')) :
    n' = n ∨ ∃ kept parent discarded first accepted rejected later m,
      n.history.Stores (kept ++ [parent] ++ discarded) ∧
      (extensionOf n.history newBlocks).head? = some first ∧ first.reference = parent.uniqueId ∧
      extensionOf n.history newBlocks = accepted ++ rejected :: later ∧
      n'.history.Stores (kept ++ [parent] ++ accepted) ∧
      Answers settings.updater.functionalitySettings (kept ++ [parent] ++ accepted)
        n'.stateReader ∧
      UtxPool.Loses (fun id =>
        UtxPool.Expired settings.utxSettings settings.clock n.readings n'.readings n.utxStorage id ∨
          ∃ b ∈ accepted, ∃ tx ∈ b.transactions, tx.id = id) n.utxStorage n'.utxStorage ∧
      (accepted = [] → n'.utxStorage = n.utxStorage) ∧
      Coordinator.appendBlock settings rejected m = (.error (.left e), n') := by
  obtain ⟨blocks, hs⟩ := hn.standsFor hsettings
  have hsuffix : extensionOf n.history newBlocks <:+ newBlocks := List.dropWhile_suffix _
  rw [processFork_apply] at h
  cases hextension : extensionOf n.history newBlocks with
  | nil =>
      rw [hextension] at h
      exact .inl (Prod.mk.inj h).2.symm
  | cons first rest =>
      rw [hextension] at h hsuffix
      cases hheight : n.history.heightOf first.reference with
      | none =>
          simp only [hheight] at h
          exact .inl (Prod.mk.inj h).2.symm
      | some height =>
          simp only [hheight] at h
          have hremoved := BlockchainUpdaterImpl.StandsFor.removeAfter hs hsettings first.reference
          -- The switch is refused before anything is removed, or the removal fails, or a block
          -- of the extension is turned away after the blocks before it were appended.
          obtain hsame | ⟨v, hremove⟩ |
            ⟨dropped, m, accepted, rejected, later, m', hremove, hsplit, hdone, hfail⟩ :=
              switchTo_eq_left h
          · exact .inl hsame
          · obtain ⟨hrun, hnode⟩ := onUpdater_eq hremove
            rw [hrun] at hremoved
            exact .inl (hnode.trans (by rw [hremoved]))
          · obtain ⟨hrun, hnode⟩ := onUpdater_eq hremove
            rw [hrun] at hremoved
            obtain ⟨kept, parent, discarded, rfl, hid, -, hkept⟩ := hremoved
            have hmem : ∀ b ∈ accepted ++ rejected :: later, Sound settings b := fun b hb =>
              hnew b (hsuffix.mem (hsplit ▸ hb))
            have hutx : m.utxStorage = n.utxStorage := by rw [hnode]
            have hstart : n.readings ≤ m.readings := by rw [hnode]
            obtain ⟨haccepted, hlost⟩ : StandsFor settings m' (kept ++ [parent] ++ accepted) ∧
                UtxPool.Loses (fun id => UtxPool.Expired settings.utxSettings settings.clock
                    n.readings n'.readings n.utxStorage id ∨
                  ∃ b ∈ accepted, ∃ tx ∈ b.transactions, tx.id = id) n.utxStorage m'.utxStorage :=
              StandsFor.appendBlocks hsettings hkept
                (fun b hb => hmem b (List.mem_append_left _ hb)) hdone (hutx ▸ .refl m.utxStorage)
                hstart (readings_le_of_appendBlock hfail) (fun id hid => .inl hid)
                fun b hb tx htx => .inr ⟨b, hb, tx, htx, rfl⟩
            obtain ⟨hfinal, hutx'⟩ := haccepted.appendBlock_left hsettings
              (hmem rejected (List.mem_append_right _ List.mem_cons_self)) hfail
            rw [← hutx'] at hlost
            refine .inr ⟨kept, parent, discarded, first, accepted, rejected, later, m', hs.stores,
              rfl, hid.symm, hsplit, hfinal.stores, hfinal.answers, hlost, fun hnone => ?_, hfail⟩
            rw [hnone] at hdone
            obtain ⟨-, rfl⟩ := Prod.mk.inj hdone
            rw [hutx', hutx]

end Rejected

end Coordinator

end Platform

namespace Sample

open Coordinator

/-- Another second block. -/
def otherBlock : Block := { secondBlock with signerData := ⟨key, signature 4⟩ }

/-- The block of the other branch can be stored. -/
theorem storable_otherBlock : otherBlock.Storable :=
  ⟨okOr otherBlock.bytes [], eq_ok_okOr (by decide +kernel), by decide +kernel⟩

/-- The node with three blocks is reached with blocks that can be stored. -/
theorem thirdNode_indexed : Reached settings Block.Storable thirdNode :=
  thirdNode_reached storable_genesisBlock storable_secondBlock storable_rewardBlock

/-- What a fork of the node with three blocks evaluates to. -/
theorem otherBlock_evaluates :
    (processFork settings [otherBlock] thirdNode).1 = .ok 2 ∧
    extensionOf thirdNode.history [otherBlock] = [otherBlock] ∧
    thirdNode.history.score = .ok 3 ∧
    (processFork settings [otherBlock] thirdNode).2.history.score = .ok 2 := by
  decide +kernel

/-- The third block raises the score, and a fork of one block at the first block leaves the score of
the two. -/
theorem thirdNode_scores :
    (∃ old new, secondNode.history.score = .ok old ∧ thirdNode.history.score = .ok new ∧
      old ≤ new) ∧
    ∃ common, thirdNode.history.scoreOf (signature 1) = some common ∧
      2 = common + chainScore [otherBlock] := by
  have hsecond : Reached settings Block.Storable secondNode :=
    secondNode_reached storable_genesisBlock storable_secondBlock
  constructor
  · refine hsecond.score_changes.2.2 thirdNode (.call .refl (.processBlock rewardBlock false) ?_ trivial
      (s := 3) ?_)
    · exact fun _ hb => List.mem_singleton.mp hb ▸ storable_rewardBlock
    · exact processBlock_rewardBlock
  · have hfork := thirdNode_indexed.score_changes.1 [otherBlock] 2
      (processFork settings [otherBlock] thirdNode).2
      (fun _ hb => List.mem_singleton.mp hb ▸ storable_otherBlock)
      (Prod.fst_eq_iff.mp otherBlock_evaluates.1)
    rw [otherBlock_evaluates.2.1] at hfork
    exact hfork.2

/-- One block that replaces two. -/
theorem otherBlock_scores : Reached settings Block.Storable thirdNode ∧ otherBlock.Storable ∧
    (processFork settings [otherBlock] thirdNode).1 = .ok 2 ∧
    thirdNode.history.score = .ok 3 ∧
    (processFork settings [otherBlock] thirdNode).2.history.score = .ok 2 :=
  ⟨thirdNode_indexed, storable_otherBlock, otherBlock_evaluates.1, otherBlock_evaluates.2.2⟩

/-- A second block without a reward. -/
def unpaidBlock : Block := { otherBlock with transactionData := [] }

/-- The block without a reward can be stored. -/
theorem storable_unpaidBlock : unpaidBlock.Storable :=
  ⟨okOr unpaidBlock.bytes [], eq_ok_okOr (by decide +kernel), by decide +kernel⟩

/-- The node with two blocks is reached with sound blocks. -/
theorem secondNode_sound : Reached settings (Sound settings) secondNode :=
  secondNode_reached ⟨storable_genesisBlock, List.pairwise_singleton _ _⟩
    ⟨storable_secondBlock, List.pairwise_singleton _ _⟩

/-- Why the node turns it away. -/
def unpaid : ValidationError :=
  .genericError ("Block " ++ Platform.base58 (signature 4)
    ++ " is invalid: One and only one minting transaction allowed per block")

/-- What a fork to that block evaluates to: it is refused, and the second block is gone. -/
theorem unpaidBlock_evaluates :
    (processFork settings [unpaidBlock] secondNode).1 = .error (.left unpaid) ∧
    secondNode.history.height = 2 ∧
    (processFork settings [unpaidBlock] secondNode).2.history.height = 1 := by
  decide +kernel

/-- The fork is turned away with the node at the first block. -/
theorem unpaidBlock_left : ∃ kept parent accepted,
    (processFork settings [unpaidBlock] secondNode).2.history.Stores (kept ++ [parent] ++ accepted) ∧
      Answers fs (kept ++ [parent] ++ accepted)
        (processFork settings [unpaidBlock] secondNode).2.stateReader := by
  have hnew : ∀ b ∈ [unpaidBlock], Sound settings b := fun _ hb =>
    List.mem_singleton.mp hb ▸ ⟨storable_unpaidBlock, List.Pairwise.nil⟩
  have hleft := secondNode_sound.processFork_left rfl hnew
    (Prod.fst_eq_iff.mp unpaidBlock_evaluates.1)
  obtain hsame | ⟨kept, parent, -, -, accepted, -, -, -, -, -, -, -, hstores, hanswers, -⟩ := hleft
  · have hheight := congrArg (fun n : Node => n.history.height) hsame
    obtain ⟨-, hbefore, hafter⟩ := unpaidBlock_evaluates
    rw [hbefore, hafter] at hheight
    cases hheight
  · exact ⟨kept, parent, accepted, hstores, hanswers⟩

/-- The fork is turned away, and the second block is gone. -/
theorem unpaidBlock_shortens :
    Reached settings (Sound settings) secondNode ∧
    (processFork settings [unpaidBlock] secondNode).1 = .error (.left unpaid) ∧
    secondNode.history.height = 2 ∧
    (processFork settings [unpaidBlock] secondNode).2.history.height = 1 :=
  ⟨secondNode_sound, unpaidBlock_evaluates⟩

end Sample

end Vsys
