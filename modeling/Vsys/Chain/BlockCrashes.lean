import Vsys.Chain.Totality
import Vsys.Chain.Twins

/-!
# When a block raises

What a peer sends as the next block is refused or taken, or an exception goes through the coordinator.
The consensus check takes the owner of the slot of the mint time without looking whether there is
one.  Past it, a block raises with one of its transactions, with a snapshot, or where it cannot be
written to bytes.
-/

namespace Vsys

open Lib CompositeStateReader

namespace Raises

/-- A fold raises in a step, after the steps before it. -/
theorem foldlM_iff {α σ : Type} {f : σ → α → Result σ} {l : List α} {s : σ} :
    Raises (l.foldlM f s) ↔ ∃ before a after t, l = before ++ a :: after ∧
      before.foldlM f s = .ok t ∧ Raises (f t a) := by
  induction l generalizing s with
  | nil =>
      refine iff_of_false Raises.ok ?_
      rintro ⟨before, a, after, t, hl, -⟩
      exact List.append_ne_nil_of_right_ne_nil before (List.cons_ne_nil a after) hl.symm
  | cons b l ih =>
      rw [List.foldlM_cons, bind_iff]
      constructor
      · rintro (h | ⟨u, hu, h⟩)
        · exact ⟨[], b, l, s, rfl, rfl, h⟩
        · obtain ⟨before, a, after, t, rfl, hbefore, ha⟩ := ih.mp h
          exact ⟨b :: before, a, after, t, rfl, foldlM_cons_eq_ok_iff.mpr ⟨u, hu, hbefore⟩, ha⟩
      · rintro ⟨before, a, after, t, hl, hbefore, ha⟩
        cases before with
        | nil =>
            obtain ⟨rfl, rfl⟩ := List.cons.inj hl
            obtain rfl := Except.ok.inj hbefore
            exact .inl ha
        | cons b' before =>
            obtain ⟨rfl, rfl⟩ := List.cons.inj hl
            obtain ⟨u, hu, hbefore⟩ := foldlM_cons_eq_ok_iff.mp hbefore
            exact .inr ⟨u, hu, ih.mpr ⟨before, a, after, t, rfl, hbefore, ha⟩⟩

/-- A sequence of actions raises in the first, or in what runs on from where that has left it. -/
theorem action_bind_iff {σ α β : Type} {x : Action Fault σ α} {f : α → Action Fault σ β} {s : σ} :
    Raises ((x >>= f) s).1 ↔ Raises (x s).1 ∨ ∃ a u, x s = (.ok a, u) ∧ Raises (f a u).1 := by
  rw [Action.bind_apply]
  generalize x s = run
  obtain ⟨r, u⟩ := run
  cases r with
  | ok a =>
      simp only [ok, Prod.mk.injEq, Except.ok.injEq, false_or]
      constructor
      · intro h
        exact ⟨a, u, ⟨rfl, rfl⟩, h⟩
      · rintro ⟨_, _, ⟨rfl, rfl⟩, h⟩
        exact h
  | error e => simp only [Prod.mk.injEq, reduceCtorEq, false_and, exists_false, or_false, error_iff]

/-- A run over a list whose actions raise or succeed raises where one of them does. -/
theorem action_forEach_iff {σ α : Type} {f : α → Action Fault σ Unit} {P : α → Prop} {l : List α}
    (hbad : ∀ a s, Raises (f a s).1 ↔ P a) (hgood : ∀ a s, ¬ P a → ∃ u, f a s = (.ok (), u))
    {s : σ} : Raises (Action.forEach f l s).1 ↔ ∃ a ∈ l, P a := by
  induction l generalizing s with
  | nil =>
      refine iff_of_false Raises.ok ?_
      rintro ⟨a, ha, -⟩
      exact List.not_mem_nil ha
  | cons a l ih =>
      rw [Action.forEach, action_bind_iff, hbad, List.exists_mem_cons_iff]
      by_cases ha : P a
      · exact iff_of_true (.inl ha) (.inl ha)
      · obtain ⟨u, hu⟩ := hgood a s ha
        rw [or_iff_right ha, or_iff_right ha, hu, ← @ih u]
        constructor
        · rintro ⟨_, _, hsame, h⟩
          obtain ⟨-, rfl⟩ := Prod.mk.inj hsame
          exact h
        · intro h
          exact ⟨(), u, rfl, h⟩

end Raises

section Platform

variable [Platform]

/-- A block whose transactions the encoder of its version can count. -/
def Block.Writable (b : Block) : Prop :=
  (b.version = 1 ∨ b.version = 2) ∧ b.transactionData.length ≤ MaxTransactionsPerBlockVer1 ∨
    b.version = 3 ∧ b.transactionData.length ≤ MaxTransactionsPerBlockVer2

/-- Writing a block raises exactly if the block is not writable. -/
theorem Block.raises_bytes_iff {b : Block} : Raises b.bytes ↔ ¬ b.Writable := by
  have hthree : b.version = 3 → ¬ (b.version = 1 ∨ b.version = 2) := by
    intro h
    rw [h]
    decide
  have htxs : Raises (transactionsBytes b.version b.transactionData) ↔ ¬ b.Writable := by
    simp only [transactionsBytes, Raises.ite_iff, Raises.ok, Raises.raise, and_false, and_true,
      false_or, Writable]
    tauto
  rw [bytes, Raises.bind_iff, htxs]
  simp only [Raises.ok, and_false, exists_false, or_false]

/-- Checking the signatures of a block raises exactly if the block is not writable. -/
theorem Block.raises_validateSignatures_iff {b : Block} :
    Raises b.validateSignatures ↔ ¬ b.Writable := by
  have hvalid : Raises b.signatureValid ↔ ¬ b.Writable := by
    rw [signatureValid, Raises.bind_iff, raises_bytes_iff]
    simp only [Raises.ok, and_false, exists_false, or_false]
  rw [validateSignatures, Raises.bind_iff, hvalid, or_iff_left]
  rintro ⟨valid, -, h⟩
  split at h
  · split at h
    · exact Raises.ok h
    · exact Raises.left h
  · exact Raises.left h

namespace BlockDiffer

variable {fs : FunctionalitySettings} {s : StateView} {height : Nat} {prev : Option Int64}
  {b : Block} {blocks : List Block} {r : StateReader}

/-- An account whose snapshot has to be weighed, which the settings do not allow. -/
structure Unsnapped (fs : FunctionalitySettings) (s : StateView) (height : Nat)
    (portfolios : Dict Address Portfolio) (a : Address) (portfolioDiff : Portfolio) : Prop where
  fast : 86400 < fs.mintingSpeed
  touched : portfolios.lookup a = some portfolioDiff
  changed : portfolioDiff.balance ≠ 0 ∨ portfolioDiff.effectiveBalance ≠ 0
  weighed : ¬ (portfolioDiff.effectiveBalance = 0 ∧ height = (s.lastUpdateHeight a).getD 0)

/-- A new snapshot raises exactly if the minting speed leaves a day no block and there is
something to weigh. -/
theorem raises_newSnapshot_iff {a : Address} {portfolioDiff : Portfolio} :
    Raises (newSnapshot fs s height a portfolioDiff) ↔ 86400 < fs.mintingSpeed ∧
      ¬ (portfolioDiff.effectiveBalance = 0 ∧ height = (s.lastUpdateHeight a).getD 0) := by
  simp only [newSnapshot, Raises.bind_iff, Raises.ite_iff, Raises.ok, and_false, exists_false,
    or_false, false_or, SPoSCalc.raises_weightedBalaceCalc_iff]
  exact and_comm

/-- A snapshot is taken or raises. -/
theorem newSnapshot_isOk_iff {a : Address} {portfolioDiff : Portfolio} :
    (newSnapshot fs s height a portfolioDiff).isOk = true ↔
      ¬ Raises (newSnapshot fs s height a portfolioDiff) := by
  cases h : newSnapshot fs s height a portfolioDiff with
  | ok snapshot => exact iff_of_true rfl Raises.ok
  | error e =>
      refine iff_of_false Bool.false_ne_true (not_not.mpr ?_)
      rw [newSnapshot] at h
      dsimp only at h
      split at h
      · cases h
      · obtain ⟨balance, hok⟩ | ⟨-, hraise⟩ := @SPoSCalc.weightedBalaceCalc_ok_or_raise
          ((height : Int) - (s.lastUpdateHeight a).getD 0) (s.accountPortfolio a).effectiveBalance
          ((s.lastUpdateWeightedBalance a).getD 0)
          ((s.accountPortfolio a).effectiveBalance + portfolioDiff.effectiveBalance) fs
        · rw [hok] at h
          cases h
        · rw [hraise] at h
          obtain rfl := Except.error.inj h
          exact Raises.raise

/-- The new snapshots of a block raise exactly if one of its accounts has none. -/
theorem raises_newSnapshots_iff {portfolios : Dict Address Portfolio} :
    Raises (newSnapshots fs s height portfolios) ↔
      ∃ a portfolioDiff, Unsnapped fs s height portfolios a portfolioDiff := by
  have hsome (a : Address) : (∃ portfolioDiff, Unsnapped fs s height portfolios a portfolioDiff) ↔
      ∃ snapshot, (Dict.mapValues (newSnapshot fs s height) (Dict.filterValues
        (fun portfolioDiff => portfolioDiff.balance ≠ 0 ∨ portfolioDiff.effectiveBalance ≠ 0)
        portfolios)).lookup a = some snapshot ∧ ¬ snapshot.isOk = true := by
    rw [Dict.lookup_mapValues, Dict.lookup_filterValues]
    cases hq : portfolios.lookup a with
    | none =>
        refine iff_of_false ?_ ?_
        · rintro ⟨_, h⟩
          exact Option.some_ne_none _ (h.touched.symm.trans hq)
        · rintro ⟨_, h, -⟩
          cases h
    | some q =>
        rw [Option.filter_some]
        by_cases hchanged : q.balance ≠ 0 ∨ q.effectiveBalance ≠ 0
        · rw [if_pos (decide_eq_true hchanged), Option.map_some]
          simp only [Option.some.injEq, exists_eq_left', newSnapshot_isOk_iff, not_not,
            raises_newSnapshot_iff]
          constructor
          · rintro ⟨q', hfast, htouched, -, hweighed⟩
            obtain rfl := Option.some.inj (hq.symm.trans htouched)
            exact ⟨hfast, hweighed⟩
          · rintro ⟨hfast, hweighed⟩
            exact ⟨q, hfast, hq, hchanged, hweighed⟩
        · rw [if_neg (by simpa using hchanged)]
          refine iff_of_false ?_ ?_
          · rintro ⟨q', -, htouched, hchanged', -⟩
            obtain rfl := Option.some.inj (hq.symm.trans htouched)
            exact hchanged hchanged'
          · rintro ⟨_, h, -⟩
            cases h
  rw [exists_congr hsome, newSnapshots]
  split
  · rename_i hall
    refine iff_of_false Raises.ok ?_
    rintro ⟨a, snapshot, hlookup, hfail⟩
    have hok := hall a (Dict.mem_keys_of_lookup hlookup)
    rw [hlookup] at hok
    exact hfail hok
  · rename_i hall
    refine iff_of_true Raises.raise ?_
    simp only [not_forall] at hall
    obtain ⟨a, ha, hfail⟩ := hall
    rw [Dict.mem_keys_iff_isSome] at ha
    obtain ⟨snapshot, hlookup⟩ := Option.isSome_iff_exists.mp ha
    rw [hlookup] at hfail
    exact ⟨a, snapshot, hlookup, hfail⟩

/-- What makes the differ raise on a block: its bytes, a transaction on the state those before it
leave, or a snapshot at the end. -/
inductive Crashes (fs : FunctionalitySettings) (s : StateView) (prev : Option Int64) (b : Block) :
    Prop
  | bytes (h : ¬ b.Writable)
  | transaction (before after : List ProcessedTransaction) (tx : ProcessedTransaction) (d : Diff)
      (hsigned : b.validateSignatures = .ok ())
      (hsplit : b.transactionData = before ++ tx :: after)
      (hbefore : before.foldlM (txStep fs s prev b.timestamp (s.height + 1)) Diff.empty = .ok d)
      (hexamined : TransactionDiffer.Examined fs prev b.timestamp (s.height + 1)
        (view s d.asBlockDiff) tx.transaction)
      (hcrash : TransactionDiffer.Crashes fs (s.height + 1) (view s d.asBlockDiff) tx.transaction)
  | snapshot (d : Diff) (a : Address) (portfolioDiff : Portfolio)
      (hsigned : b.validateSignatures = .ok ())
      (hall : b.transactionData.foldlM (txStep fs s prev b.timestamp (s.height + 1)) Diff.empty
        = .ok d)
      (h : Unsnapped fs s (s.height + 1) d.portfolios a portfolioDiff)

/-- A transaction of a block raises on a state of a chain where it is examined and crashes. -/
theorem raises_txStep_iff (hr : StateOf fs blocks r) {timestamp : Int64}
    {before : List ProcessedTransaction} {tx : ProcessedTransaction} {d : Diff}
    (hbefore : before.foldlM (txStep fs r.toStateView prev timestamp (r.height + 1)) Diff.empty
      = .ok d) :
    Raises (txStep fs r.toStateView prev timestamp (r.height + 1) d tx) ↔
      TransactionDiffer.Examined fs prev timestamp (r.height + 1)
          (view r.toStateView d.asBlockDiff) tx.transaction ∧
        TransactionDiffer.Crashes fs (r.height + 1) (view r.toStateView d.asBlockDiff)
          tx.transaction := by
  have hpassed : Passed fs (transactionsOf blocks ++ before) (view r.toStateView d.asBlockDiff) :=
    .intro blocks r hr prev timestamp before d hbefore
  obtain ⟨L, hL⟩ := hpassed.regular
  rw [txStep, Raises.bind_iff, TransactionDiffer.raises_apply_iff,
    TransactionDiffer.raises_ownDiff_iff hL ((attributed_invariant fs).passed hpassed)
      hpassed.snapshotsLinked, or_iff_left]
  rintro ⟨e, -, h⟩
  split at h
  · exact Raises.ok h
  · exact Raises.left h

/-- The diff of a block raises exactly if the block crashes. -/
theorem raises_fromBlock_iff (hr : StateOf fs blocks r) :
    Raises (fromBlock fs r.toStateView prev b) ↔ Crashes fs r.toStateView prev b := by
  rw [fromBlock, Raises.bind_iff, Block.raises_validateSignatures_iff]
  constructor
  · rintro (hbytes | ⟨⟨⟩, hsigned, h⟩)
    · exact .bytes hbytes
    · rw [apply, Raises.bind_iff] at h
      obtain h | ⟨d, hall, h⟩ := h
      · obtain ⟨before, tx, after, d, hsplit, hbefore, htx⟩ := Raises.foldlM_iff.mp h
        obtain ⟨hexamined, hcrash⟩ := (raises_txStep_iff hr hbefore).mp htx
        exact .transaction before after tx d hsigned hsplit hbefore hexamined hcrash
      · rw [Raises.bind_iff] at h
        obtain h | ⟨_, -, h⟩ := h
        · obtain ⟨a, portfolioDiff, h⟩ := raises_newSnapshots_iff.mp h
          exact .snapshot d a portfolioDiff hsigned hall h
        · exact absurd h Raises.ok
  · intro h
    cases h with
    | bytes h => exact .inl h
    | transaction before after tx d hsigned hsplit hbefore hexamined hcrash =>
        refine .inr ⟨(), hsigned, Raises.bind_iff.mpr (.inl (Raises.foldlM_iff.mpr ?_))⟩
        exact ⟨before, tx, after, d, hsplit, hbefore,
          (raises_txStep_iff hr hbefore).mpr ⟨hexamined, hcrash⟩⟩
    | snapshot d a portfolioDiff hsigned hall h =>
        refine .inr ⟨(), hsigned, Raises.bind_iff.mpr (.inr ⟨d, hall, Raises.bind_iff.mpr (.inl ?_)⟩)⟩
        exact raises_newSnapshots_iff.mpr ⟨a, portfolioDiff, h⟩

end BlockDiffer

namespace Coordinator

variable {fs : FunctionalitySettings} {history : History} {s : StateView} {currentTs : Int64}
  {b parent : Block}

/-- The slot of the mint time of a block. -/
def slotId (fs : FunctionalitySettings) (b : Block) : Int :=
  ((b.consensusData.mintTime.toInt.tdiv 1000000000).tdiv (max fs.mintingSpeed 1)).tmod fs.numOfSlots

/-- The address that has signed a block. -/
def minter (b : Block) : Address := b.signerData.generator.toAddress

/-- What the consensus check finds before it looks at the slot. -/
structure Placed (history : History) (currentTs : Int64) (b parent : Block) : Prop where
  timely : b.timestamp - currentTs < MaxTimeDrift
  sorted : isSorted b
  found : history.parent b = .ok (some parent)
  known : (history.heightOf parent.uniqueId).isSome

/-- A slot that the consensus check cannot look at: there are no slots, nobody has this one, or its
owner has to be weighed and the settings do not allow it. -/
inductive SlotCrashes (fs : FunctionalitySettings) (s : StateView) (b : Block) : Prop
  | slots (h : fs.numOfSlots = 0)
  | empty (hgap : (slotId fs b).tmod SlotGap = 0) (h : s.slotAddress (slotId fs b) = none)
  | weight (hgap : (slotId fs b).tmod SlotGap = 0)
      (howner : s.slotAddress (slotId fs b) = some (minter b).address)
      (h : SPoSCalc.Unweighed fs s (minter b) s.height)

/-- What the consensus check finds from the slot on. -/
structure Minted (fs : FunctionalitySettings) (s : StateView) (currentTs : Int64) (b parent : Block) :
    Prop where
  slots : fs.numOfSlots ≠ 0
  gap : (slotId fs b).tmod SlotGap = 0
  owner : s.slotAddress (slotId fs b) = some (minter b).address
  balance : SPoSCalc.mintingBalance s fs (minter b) s.height = .ok b.consensusData.mintBalance
  later : parent.consensusData.mintTime < b.consensusData.mintTime
  soon : b.consensusData.mintTime ≤ currentTs + MaxMintTimeFromFuture
  once : (b.transactions.filter fun tx => tx.transactionType = .mintingTransaction).length = 1

/-- A consensus check that refuses does not raise. -/
theorem raises_consensusCond {p : Prop} [Decidable p] {reason : String} :
    ¬ Raises (consensusCond b p reason) := TransactionDiffer.raises_cond

/-- A consensus check passes exactly if its condition holds. -/
theorem consensusCond_eq_ok_iff {p : Prop} [Decidable p] {reason : String} {u : Unit} :
    consensusCond b p reason = .ok u ↔ p := cond_eq_ok_iff

/-- A block has the slot of its minting time if there are slots. -/
theorem slotOf_eq (h : fs.numOfSlots ≠ 0) : slotOf fs b.consensusData.mintTime = .ok (slotId fs b) :=
  if_neg h

/-- The check of a placed block goes on with its slot: it raises there, or finds the block minted in
its slot, or refuses it. -/
theorem blockConsensusValidation_of_placed (h : Placed history currentTs b parent)
    (hs : s.SnapshotsLinked (minter b)) :
    (Raises (blockConsensusValidation fs history s currentTs b) ↔ SlotCrashes fs s b) ∧
      (blockConsensusValidation fs history s currentTs b = .ok () ↔
        Minted fs s currentTs b parent) := by
  have htimely : consensusCond b (b.timestamp - currentTs < MaxTimeDrift)
      s!"timestamp {b.timestamp} is from future" = .ok () := consensusCond_eq_ok_iff.mpr h.timely
  have hsorted : consensusCond b (isSorted b) "transactions are not sorted" = .ok () :=
    consensusCond_eq_ok_iff.mpr h.sorted
  have hknown := h.known
  rw [blockConsensusValidation, htimely, ok_bind, hsorted, ok_bind]
  dsimp only
  rw [h.found, ok_bind]
  dsimp only
  split
  · rename_i hnone
    rw [hnone] at hknown
    cases hknown
  clear hknown
  -- The slot is a remainder by the number of slots.
  by_cases hslots : fs.numOfSlots = 0
  · have hraise : slotOf fs b.consensusData.mintTime = raise .arithmetic := if_pos hslots
    rw [hraise]
    refine ⟨iff_of_true Raises.raise (.slots hslots), iff_of_false ?_ fun hm => hm.slots hslots⟩
    intro h
    cases h
  rw [slotOf_eq hslots, ok_bind]
  have hweigh : Raises (SPoSCalc.mintingBalance s fs b.signerData.generator.toAddress s.height) ↔
      SPoSCalc.Unweighed fs s (minter b) s.height := SPoSCalc.raises_mintingBalance_iff hs
  constructor
  · simp only [Raises.bind_iff, raises_consensusCond, false_or, consensusCond_eq_ok_iff,
      Raises.getOrRaise_iff, getOrRaise_eq_ok_iff, and_false, exists_false, or_false,
      hweigh]
    constructor
    · rintro ⟨-, hgap, hempty | ⟨_, hslot, -, howner, hweight⟩⟩
      · exact .empty hgap hempty
      · exact .weight hgap (hslot.trans (congrArg some howner.symm)) hweight
    · intro hcrash
      cases hcrash with
      | slots hzero => exact absurd hzero hslots
      | empty hgap hempty => exact ⟨(), hgap, .inl hempty⟩
      | weight hgap howner hweight => exact ⟨(), hgap, .inr ⟨_, howner, (), rfl, hweight⟩⟩
  · simp only [bind_eq_ok_iff, consensusCond_eq_ok_iff, getOrRaise_eq_ok_iff]
    constructor
    · rintro ⟨_, hgap, _, hslot, _, howner, balance, hbalance, _, hsame, _, hlater, _, hsoon, honce⟩
      exact ⟨hslots, hgap, hslot.trans (congrArg some howner.symm), by rw [hsame]; exact hbalance,
        hlater, hsoon, honce⟩
    · intro hm
      exact ⟨(), hm.gap, _, hm.owner, (), rfl, _, hm.balance, (), rfl, (), hm.later, (), hm.soon,
        hm.once⟩

/-- A block that is not placed does not get to its slot. -/
theorem blockConsensusValidation_of_not_placed (hparent : ¬ Raises (history.parent b))
    (h : ∀ parent, ¬ Placed history currentTs b parent) :
    ∃ e, blockConsensusValidation fs history s currentTs b = left e := by
  by_cases htimely : b.timestamp - currentTs < MaxTimeDrift
  case neg =>
    have hcond : consensusCond b (b.timestamp - currentTs < MaxTimeDrift)
        s!"timestamp {b.timestamp} is from future" = left _ := ensure_of_not htimely
    rw [blockConsensusValidation, hcond]
    exact ⟨_, rfl⟩
  have htimely' : consensusCond b (b.timestamp - currentTs < MaxTimeDrift)
      s!"timestamp {b.timestamp} is from future" = .ok () := consensusCond_eq_ok_iff.mpr htimely
  by_cases hsorted : isSorted b
  case neg =>
    have hcond : consensusCond b (isSorted b) "transactions are not sorted" = left _ :=
      ensure_of_not hsorted
    rw [blockConsensusValidation, htimely', ok_bind, hcond]
    exact ⟨_, rfl⟩
  have hsorted' : consensusCond b (isSorted b) "transactions are not sorted" = .ok () :=
    consensusCond_eq_ok_iff.mpr hsorted
  rw [blockConsensusValidation, htimely', ok_bind, hsorted', ok_bind]
  dsimp only
  cases hfound : history.parent b with
  | error e =>
      cases e with
      | raised e => exact absurd ⟨e, hfound⟩ hparent
      | left e => exact ⟨e, rfl⟩
  | ok found =>
      cases found with
      | none => exact ⟨_, rfl⟩
      | some parent =>
          rw [ok_bind]
          dsimp only
          split
          · exact ⟨_, rfl⟩
          · rename_i hknown
            exact absurd ⟨htimely, hsorted, hfound, by rw [hknown]; rfl⟩ (h parent)

end Coordinator

namespace UtxPool

variable {utxSettings : UtxSettings} {now : Int64} {txs : List Transaction} {pool : UtxPool}

/-- The test of expiry raises exactly if the age is the least word, which is no duration. -/
theorem raises_isExpired_iff {tx : Transaction} :
    Raises (isExpired utxSettings now tx) ↔ now - tx.timestamp = Int64.minValue := by
  rw [isExpired]
  simp only [Raises.ite_iff, Raises.raise, Raises.ok, and_true, and_false, or_false]

/-- Taking transactions out of the pool raises where the pool has one whose age is no duration. -/
theorem raises_removeAll_iff : Raises (removeAll utxSettings now txs pool).1 ↔
    ∃ tx ∈ pool.values, now - tx.timestamp = Int64.minValue := by
  have hexpired : Raises (removeExpired utxSettings now pool).1 ↔
      ∃ tx ∈ pool.values, now - tx.timestamp = Int64.minValue := by
    rw [removeExpired, Action.bind_of_ok (Action.get_apply pool)]
    refine Raises.action_forEach_iff (fun tx pool => ?_) fun tx pool htx => ?_
    · rw [Raises.action_bind_iff, Action.ofExcept_apply, raises_isExpired_iff, or_iff_left]
      rintro ⟨expired, pool', -, h⟩
      cases expired with
      | true => exact Raises.ok h
      | false => exact Raises.ok h
    · have hok : isExpired utxSettings now tx
          = .ok (decide (utxSettings.maxTransactionAge < now - tx.timestamp)) := if_neg htx
      rw [hok, Action.bind_of_ok (Action.ofExcept_apply _ pool)]
      split
      · exact ⟨_, rfl⟩
      · exact ⟨_, rfl⟩
  rw [removeAll, Raises.action_bind_iff, hexpired, or_iff_left]
  rintro ⟨_, pool', -, h⟩
  obtain ⟨tx, -, htx⟩ := (Raises.action_forEach_iff (P := fun _ => False)
    (fun tx pool => iff_of_false Raises.ok id) fun tx pool _ => ⟨_, rfl⟩).mp h
  exact htx

end UtxPool

namespace History.Stores

variable {h : History} {blocks : List Block} {b last : Block} {validation : Result BlockDiff}

/-- A block is the next one exactly if it refers to the last one. -/
theorem isNext_eq (hs : h.Stores blocks) (hlast : h.lastBlock = .ok (some last)) :
    h.isNext b = .ok (decide (last.uniqueId = b.reference)) := by
  have hne : h.height ≠ 0 := by
    intro hzero
    rw [hs.height] at hzero
    rw [hs.lastBlock, List.eq_nil_of_length_eq_zero hzero] at hlast
    cases hlast
  rw [isNext, if_neg hne, hlast]
  rfl

/-- The parent of a block is looked up among stored blocks. -/
theorem raises_parent (hs : h.Stores blocks) : ¬ Raises (h.parent b) := by
  rw [parent]
  cases hheight : h.heightOf b.reference with
  | none => exact Raises.ok
  | some k =>
      obtain ⟨i, b', rfl, hb', -⟩ := hs.known b.reference k hheight
      dsimp only
      rw [hs.blockAt_succ hb']
      exact Raises.ok

/-- A history that knows a block has a last one. -/
theorem exists_lastBlock (hs : h.Stores blocks) {id : ByteStr} (hknown : (h.heightOf id).isSome) :
    ∃ last, h.lastBlock = .ok (some last) := by
  obtain ⟨k, hk⟩ := Option.isSome_iff_exists.mp hknown
  obtain ⟨i, b', rfl, hb', -⟩ := hs.known id k hk
  have hne : blocks ≠ [] := by
    rintro rfl
    cases hb'
  exact ⟨blocks.getLast hne, by rw [hs.lastBlock, List.getLast?_eq_some_getLast hne]⟩

/-- A block on the last one is validated and written. -/
theorem appendBlock_of_next (hs : h.Stores blocks) (hlast : h.lastBlock = .ok (some last))
    (hnext : last.uniqueId = b.reference) : ∃ score, h.appendBlock b validation = (do
      let blockDiff ← validation
      let bytes ← b.bytes
      .ok (blockDiff, h.push b bytes (score + b.blockScore))) := by
  have hne : h.height ≠ 0 := by
    intro hzero
    rw [hs.height] at hzero
    rw [hs.lastBlock, List.eq_nil_of_length_eq_zero hzero] at hlast
    cases hlast
  obtain ⟨score, hscore⟩ := hs.score_eq_ok
  refine ⟨score, ?_⟩
  rw [appendBlock, hs.isNext_eq hlast, decide_eq_true hnext]
  simp only [ok_bind, if_pos, if_neg hne, hscore]

/-- A block on another one is refused. -/
theorem appendBlock_of_not_next (hs : h.Stores blocks) (hlast : h.lastBlock = .ok (some last))
    (hnext : last.uniqueId ≠ b.reference) : ∃ e, h.appendBlock b validation = left e := by
  rw [appendBlock, hs.isNext_eq hlast, decide_eq_false hnext]
  simp only [ok_bind, hlast]
  exact ⟨_, rfl⟩

end History.Stores

namespace BlockchainUpdaterImpl

variable {settings : UpdaterSettings} {u : BlockchainUpdaterImpl} {blocks : List Block}
  {b last : Block}

/-- The differ raises on a block over the state of the updater where the block crashes. -/
theorem Shows.raises_fromBlock_iff {fs : FunctionalitySettings} {prev : Option Int64}
    (h : Shows fs u blocks) :
    Raises (BlockDiffer.fromBlock fs u.currentPersistedBlocksState.toStateView prev b) ↔
      BlockDiffer.Crashes fs u.currentPersistedBlocksState.toStateView prev b := by
  obtain ⟨st, hst, hview⟩ := h.replay
  rw [← hview]
  exact BlockDiffer.raises_fromBlock_iff (StateOf.of_replay hst)

/-- Moving the layers down leaves the validation alone. -/
theorem Shows.consensusValidation_shiftLayers (h : Shows settings.functionalitySettings u blocks)
    (hlast : u.history.lastBlock = .ok (some last)) :
    consensusValidation settings (BlockchainUpdaterImpl.shiftLayers settings u) b
      = BlockDiffer.fromBlock settings.functionalitySettings
        u.currentPersistedBlocksState.toStateView (some last.timestamp) b := by
  obtain ⟨st, hst, hview⟩ := h.replay
  obtain ⟨st', hst', hview'⟩ := h.shiftLayers.replay
  obtain rfl := Except.ok.inj (hst.symm.trans hst')
  rw [consensusValidation, shiftLayers_history, hlast, ok_bind, ← hview', hview]
  rfl

/-- What the updater makes of a block on the last one is what the differ makes of it. -/
theorem Shows.processBlock_of_next (h : Shows settings.functionalitySettings u blocks)
    (hlast : u.history.lastBlock = .ok (some last)) (hnext : last.uniqueId = b.reference) :
    (BlockchainUpdaterImpl.processBlock settings b u).1
      = BlockDiffer.fromBlock settings.functionalitySettings
        u.currentPersistedBlocksState.toStateView (some last.timestamp) b >>= fun _ => .ok () := by
  obtain ⟨score, happend⟩ := @History.Stores.appendBlock_of_next _ _ _ b _
    (consensusValidation settings (BlockchainUpdaterImpl.shiftLayers settings u) b) h.stores hlast
    hnext
  rw [processBlock_apply]
  dsimp only
  rw [shiftLayers_history, happend, h.consensusValidation_shiftLayers hlast]
  cases hd : BlockDiffer.fromBlock settings.functionalitySettings
      u.currentPersistedBlocksState.toStateView (some last.timestamp) b with
  | error e => rfl
  | ok d =>
      obtain ⟨_, hsigned, -⟩ := bind_eq_ok_iff.mp hd
      obtain ⟨_, hvalid, -⟩ := bind_eq_ok_iff.mp hsigned
      obtain ⟨bytes, hbytes, -⟩ := bind_eq_ok_iff.mp hvalid
      rw [hbytes]
      rfl

/-- A block that does not refer to the last one is refused. -/
theorem Shows.processBlock_of_not_next (h : Shows settings.functionalitySettings u blocks)
    (hlast : u.history.lastBlock = .ok (some last)) (hnext : last.uniqueId ≠ b.reference) :
    ∃ e, (BlockchainUpdaterImpl.processBlock settings b u).1 = left e := by
  obtain ⟨e, happend⟩ := @History.Stores.appendBlock_of_not_next _ _ _ b _
    (consensusValidation settings (BlockchainUpdaterImpl.shiftLayers settings u) b) h.stores hlast
    hnext
  refine ⟨e, ?_⟩
  rw [processBlock_apply]
  dsimp only
  rw [shiftLayers_history, happend]
  rfl

end BlockchainUpdaterImpl

namespace Coordinator

variable {settings : VsysSettings} {n : Node} {b : Block} {blocks : List Block}

/-- A block for which the checkpoint and its place in the chain are in order. -/
structure Considered (settings : VsysSettings) (n : Node) (b parent : Block) : Prop where
  checkpoint : n.checkpoint.isBlockValid b.signerData.signature (n.history.height + 1) = true
  placed : Placed n.history (settings.clock n.readings) b parent

/-- A block that passes the consensus check and lies on the last block. -/
structure Next (settings : VsysSettings) (n : Node) (b last : Block) : Prop where
  minted : ∃ parent, Considered settings n b parent ∧
    Minted settings.updater.functionalitySettings n.stateReader.toStateView
      (settings.clock n.readings) b parent
  found : n.history.lastBlock = .ok (some last)
  reference : last.uniqueId = b.reference

/-- What makes the append of a block raise: its slot, what the differ does with it, or an age in the
pool that is no duration. -/
inductive Crashes (settings : VsysSettings) (n : Node) (b : Block) : Prop
  | slot (parent : Block) (hconsidered : Considered settings n b parent)
      (h : SlotCrashes settings.updater.functionalitySettings n.stateReader.toStateView b)
  | differ (last : Block) (hnext : Next settings n b last)
      (h : BlockDiffer.Crashes settings.updater.functionalitySettings n.stateReader.toStateView
        (some last.timestamp) b)
  | pool (last : Block) (d : BlockDiff) (tx : Transaction) (hnext : Next settings n b last)
      (hd : BlockDiffer.fromBlock settings.updater.functionalitySettings n.stateReader.toStateView
        (some last.timestamp) b = .ok d)
      (htx : tx ∈ n.utxStorage.values)
      (h : settings.clock (n.readings + 1) - tx.timestamp = Int64.minValue)

/-- Appending a block raises exactly if the checkpoint lets it through and one of the next
checks, or the processing, raises. -/
theorem raises_appendBlock_iff : Raises (appendBlock settings b n).1 ↔
    n.checkpoint.isBlockValid b.signerData.signature (n.history.height + 1) = true ∧
      (Raises (blockConsensusValidation settings.updater.functionalitySettings n.history
          n.stateReader.toStateView (settings.clock n.readings) b) ∨
        blockConsensusValidation settings.updater.functionalitySettings n.history
            n.stateReader.toStateView (settings.clock n.readings) b = .ok () ∧
          (Raises (BlockchainUpdaterImpl.processBlock settings.updater b n.blockchainUpdater).1 ∨
            (BlockchainUpdaterImpl.processBlock settings.updater b n.blockchainUpdater).1 = .ok () ∧
              ∃ tx ∈ n.utxStorage.values,
                settings.clock (n.readings + 1) - tx.timestamp = Int64.minValue)) := by
  rw [appendBlock, Action.bind_of_ok (Action.get_apply n)]
  by_cases hcheckpoint : n.checkpoint.isBlockValid b.signerData.signature (n.history.height + 1) = true
  case neg =>
    refine iff_of_false ?_ fun h => hcheckpoint h.1
    rw [cond, ensure_of_not hcheckpoint]
    exact Raises.left
  rw [and_iff_right hcheckpoint, cond, ensure_of hcheckpoint,
    Action.bind_of_ok (Action.ofExcept_apply (.ok ()) n), Action.bind_of_ok (correctedTime_apply n),
    Raises.action_bind_iff, Action.ofExcept_apply]
  refine or_congr_right ?_
  constructor
  · rintro ⟨⟨⟩, u, hconsensus, h⟩
    obtain ⟨hok, rfl⟩ := Prod.mk.inj hconsensus
    refine ⟨hok, ?_⟩
    rw [Raises.action_bind_iff] at h
    obtain h | ⟨⟨⟩, u, hprocess, h⟩ := h
    · exact .inl h
    · obtain ⟨houtcome, rfl⟩ := Prod.mk.inj hprocess
      rw [Action.bind_of_ok (correctedTime_apply _)] at h
      exact .inr ⟨houtcome, UtxPool.raises_removeAll_iff.mp h⟩
  · rintro ⟨hconsensus, h⟩
    refine ⟨(), _, Prod.ext hconsensus rfl, Raises.action_bind_iff.mpr ?_⟩
    obtain h | ⟨houtcome, h⟩ := h
    · exact .inl h
    · refine .inr ⟨(), _, Prod.ext houtcome rfl, ?_⟩
      rw [Action.bind_of_ok (correctedTime_apply _)]
      exact UtxPool.raises_removeAll_iff.mpr h

section Shows

variable (hs : BlockchainUpdaterImpl.Shows settings.updater.functionalitySettings
  n.blockchainUpdater blocks)

include hs

/-- The state of a node has linked snapshots. -/
theorem snapshotsLinked (a : Address) : n.stateReader.toStateView.SnapshotsLinked a := by
  obtain ⟨st, hst, hview⟩ := hs.replay
  exact hview ▸ (StateOf.of_replay hst).snapshotsLinked a

/-- The consensus check does not raise exactly if no slot crashes on a block in its place. -/
theorem not_raises_blockConsensusValidation_iff {currentTs : Int64} :
    ¬ Raises (blockConsensusValidation settings.updater.functionalitySettings n.history
        n.stateReader.toStateView currentTs b) ↔
      ∀ parent, Placed n.history currentTs b parent →
        ¬ SlotCrashes settings.updater.functionalitySettings n.stateReader.toStateView b := by
  have hstores : n.history.Stores blocks := hs.stores
  constructor
  · intro h parent hparent hslot
    exact h ((blockConsensusValidation_of_placed hparent (snapshotsLinked hs _)).1.mpr hslot)
  · intro h hraise
    by_cases hparent : ∃ parent, Placed n.history currentTs b parent
    · obtain ⟨parent, hparent⟩ := hparent
      exact h parent hparent
        ((blockConsensusValidation_of_placed hparent (snapshotsLinked hs _)).1.mp hraise)
    · obtain ⟨e, he⟩ := @blockConsensusValidation_of_not_placed _
        settings.updater.functionalitySettings _ n.stateReader.toStateView _ b
        hstores.raises_parent (not_exists.mp hparent)
      rw [he] at hraise
      exact Raises.left hraise

/-- In a node whose updater shows some blocks, the append of a block raises where it crashes. -/
theorem raises_appendBlock_iff_crashes :
    Raises (appendBlock settings b n).1 ↔ Crashes settings n b := by
  have hstores : n.history.Stores blocks := hs.stores
  have hplaced {parent : Block} (hparent : Placed n.history (settings.clock n.readings) b parent) :=
    @blockConsensusValidation_of_placed _ settings.updater.functionalitySettings _
      n.stateReader.toStateView _ b parent hparent (snapshotsLinked hs _)
  rw [raises_appendBlock_iff]
  constructor
  · rintro ⟨hcheckpoint, h⟩
    -- The checks come in the order of the source, and a crash needs that those before it have
    -- passed.
    by_cases hparent : ∃ parent, Placed n.history (settings.clock n.readings) b parent
    case neg =>
      obtain ⟨e, he⟩ := @blockConsensusValidation_of_not_placed _
        settings.updater.functionalitySettings _ n.stateReader.toStateView _ b
        hstores.raises_parent (not_exists.mp hparent)
      rw [he] at h
      obtain h | ⟨h, -⟩ := h
      · exact absurd h Raises.left
      · cases h
    obtain ⟨parent, hparent⟩ := hparent
    obtain ⟨hslot, hminted⟩ := hplaced hparent
    obtain h | ⟨hok, h⟩ := h
    · exact .slot parent ⟨hcheckpoint, hparent⟩ (hslot.mp h)
    obtain ⟨last, hlast⟩ := hstores.exists_lastBlock hparent.known
    have hconsidered := (⟨parent, ⟨hcheckpoint, hparent⟩, hminted.mp hok⟩ :
      ∃ parent, Considered settings n b parent ∧ Minted _ _ _ b parent)
    by_cases hnext : last.uniqueId = b.reference
    case neg =>
      obtain ⟨e, he⟩ := hs.processBlock_of_not_next hlast hnext
      rw [he] at h
      obtain h | ⟨h, -⟩ := h
      · exact absurd h Raises.left
      · cases h
    rw [hs.processBlock_of_next hlast hnext] at h
    obtain h | ⟨houtcome, tx, htx, hage⟩ := h
    · rw [Raises.bind_iff, hs.raises_fromBlock_iff] at h
      obtain h | ⟨_, -, h⟩ := h
      · exact .differ last ⟨hconsidered, hlast, hnext⟩ h
      · exact absurd h Raises.ok
    · obtain ⟨d, hd, -⟩ := bind_eq_ok_iff.mp houtcome
      exact .pool last d tx ⟨hconsidered, hlast, hnext⟩ hd htx hage
  · intro h
    cases h with
    | slot parent hconsidered h =>
        exact ⟨hconsidered.checkpoint, .inl ((hplaced hconsidered.placed).1.mpr h)⟩
    | differ last hnext h =>
        obtain ⟨parent, hconsidered, hminted⟩ := hnext.minted
        refine ⟨hconsidered.checkpoint, .inr ⟨(hplaced hconsidered.placed).2.mpr hminted, .inl ?_⟩⟩
        rw [hs.processBlock_of_next hnext.found hnext.reference, Raises.bind_iff,
          hs.raises_fromBlock_iff]
        exact .inl h
    | pool last d tx hnext hd htx h =>
        obtain ⟨parent, hconsidered, hminted⟩ := hnext.minted
        refine ⟨hconsidered.checkpoint, .inr ⟨(hplaced hconsidered.placed).2.mpr hminted, .inr ?_⟩⟩
        refine ⟨?_, tx, htx, h⟩
        rw [hs.processBlock_of_next hnext.found hnext.reference]
        exact bind_eq_ok_iff.mpr ⟨d, hd, rfl⟩

end Shows

/-- In every node that can be reached, whatever the clock shows, a block passes or fails the consensus
check exactly if its slot does not crash once it is placed, and the append of a block is decided
exactly if the block does not crash. -/
theorem Reached.appendBlock_decided_iff (hn : Reached settings (Sound settings) n) (b : Block) :
    (∀ currentTs, ¬ Raises (blockConsensusValidation settings.updater.functionalitySettings n.history
        n.stateReader.toStateView currentTs b) ↔
      ∀ parent, Placed n.history currentTs b parent →
        ¬ SlotCrashes settings.updater.functionalitySettings n.stateReader.toStateView b) ∧
    (¬ Raises (appendBlock settings b n).1 ↔ ¬ Crashes settings n b) := by
  obtain ⟨blocks, hs⟩ := hn.shows
  exact ⟨fun _ => not_raises_blockConsensusValidation_iff hs,
    not_congr (raises_appendBlock_iff_crashes hs)⟩

end Coordinator

end Platform

namespace Sample

open Coordinator

/-- Thirty slots, the first of which is taken, and no listings by type. -/
def wideSettings : VsysSettings :=
  { settings with updater := ⟨⟨30, 1, 0⟩, ⟨false⟩, 1⟩ }

/-- A node with the first block. -/
def wideNode : Node :=
  { firstNode with
    blockchainUpdater := (BlockchainUpdaterImpl.processBlock wideSettings.updater genesisBlock
      BlockchainUpdaterImpl.empty).2 }

/-- The node of the settings with many slots is reached with sound blocks. -/
theorem wideNode_reached : Reached wideSettings (Sound wideSettings) wideNode := by
  refine .genesis ⟨storable_genesisBlock, List.pairwise_singleton _ _⟩ ?_
  have hok : (BlockchainUpdaterImpl.processBlock wideSettings.updater genesisBlock
      BlockchainUpdaterImpl.empty).1.isOk = true := by decide +kernel
  rw [eq_ok_unit hok, wideNode]

/-- A block for the sixteenth slot, which nobody has. -/
def strayBlock : Block := { secondBlock with consensusData := ⟨15000000000, 0⟩ }

/-- The block is read from its bytes, and the consensus check raises on it. -/
theorem strayBlock_raises :
    ∃ n, Reached wideSettings (Sound wideSettings) n ∧ ∃ bytes b, Block.parseBytes bytes = .ok b ∧
      Raises (blockConsensusValidation wideSettings.updater.functionalitySettings n.history
        n.stateReader.toStateView 10 b) ∧
      Raises (appendBlock wideSettings b n).1 :=
  ⟨wideNode, wideNode_reached, okOr strayBlock.bytes [], strayBlock, by decide +kernel,
    by decide +kernel, by decide +kernel⟩

/-- The second block does not crash. -/
theorem secondBlock_decided : ¬ Crashes wideSettings wideNode secondBlock :=
  (wideNode_reached.appendBlock_decided_iff secondBlock).2.mp (by decide +kernel)

end Sample

end Vsys
