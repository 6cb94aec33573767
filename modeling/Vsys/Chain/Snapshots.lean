import Mathlib.Tactic.Linarith
import Vsys.Diffs.Weights
import Vsys.Chain.Invariants
import Vsys.Chain.Leases
import Vsys.Lib.Descent

/-!
# The snapshots of an account

From the height an account was last updated at, the snapshots of the account lead down to zero, so
the walks along them end.  While no balance and the amount leased to its account overflow together,
the newest snapshot is what the portfolio says, and every weighted balance is an effective balance
at most.
-/

namespace Vsys

open Lib CompositeStateReader

section Platform

variable [Platform]

/-- A balance and the amount leased to the account, which the effective balance adds up, overflow by
one at most. -/
def Portfolio.Capped (p : Portfolio) : Prop :=
  p.balance.toInt + p.leaseInfo.leaseIn.toInt ≤ 2 ^ 63

/-- The same of every account. -/
def StateView.Capped (s : StateView) : Prop := ∀ a, (s.accountPortfolio a).Capped

/-- From the last update on every snapshot is there, and links to one of a smaller height or to
zero, where there is none. -/
structure StateView.SnapshotsLinked (s : StateView) (a : Address) : Prop where
  descends : Descends (s.snapshotAtHeight a) Snapshot.prevHeight ((s.lastUpdateHeight a).getD 0)
  ends : s.snapshotAtHeight a 0 = none

/-- The newest snapshot is what the portfolio says, and the weighted balances are in bounds. -/
structure StateView.Recorded (s : StateView) (a : Address) : Prop where
  newest : ∀ h, s.lastUpdateHeight a = some h → ∃ snapshot, s.snapshotAtHeight a h = some snapshot ∧
    snapshot.balance = (s.accountPortfolio a).balance ∧
    snapshot.effectiveBalance = s.effectiveBalance a ∧
    s.lastUpdateWeightedBalance a = some snapshot.weightedBalance
  unseen : s.lastUpdateHeight a = none → (s.accountPortfolio a).balance = 0 ∧
    s.effectiveBalance a = 0 ∧ s.lastUpdateWeightedBalance a = none
  bounded : ∀ h snapshot, s.snapshotAtHeight a h = some snapshot →
    0 ≤ snapshot.weightedBalance ∧ snapshot.weightedBalance ≤ snapshot.effectiveBalance

/-- The walks along the snapshots of an account end, and find every snapshot they look for; the
balance to mint with still divides by zero at a minting speed above one block a second. -/
structure StateView.Walks (fs : FunctionalitySettings) (s : StateView) (a : Address) : Prop where
  balanceAtHeight : ∀ height, ∃ balance, s.balanceAtHeight a height = .ok balance
  weightedBalanceAtHeight : ∀ height, ∃ balance, s.weightedBalanceAtHeight a height = .ok balance
  minBySnapshot : ∀ atHeight confirmations extractor, ∃ least,
    s.minBySnapshot a atHeight confirmations extractor = .ok least
  mintingBalance : ∀ height, (∃ balance, SPoSCalc.mintingBalance s fs a height = .ok balance) ∨
    86400 < fs.mintingSpeed ∧ SPoSCalc.mintingBalance s fs a height = raise .arithmetic

section Walks

variable {fs : FunctionalitySettings} {s : StateView} {a : Address} {h fuel : Nat}

/-- The loop of `balanceAtHeight` comes to an end. -/
theorem StateView.atHeightLoop_ok {height : Int} {extractor : Snapshot → Int64}
    (hlinked : Descends (s.snapshotAtHeight a) Snapshot.prevHeight h)
    (hends : s.snapshotAtHeight a 0 = none) (hfuel : h < fuel) :
    ∃ balance, s.atHeightLoop a height extractor fuel h = .ok balance := by
  induction hlinked generalizing fuel with
  | zero =>
      obtain ⟨fuel, rfl⟩ := Nat.exists_eq_succ_of_ne_zero (Nat.ne_of_gt hfuel)
      rw [atHeightLoop, hends]
      exact ⟨0, rfl⟩
  | link hget hlt hlink ih =>
      obtain ⟨fuel, rfl⟩ := Nat.exists_eq_succ_of_ne_zero (Nat.ne_of_gt (Nat.zero_lt_of_lt hfuel))
      rw [atHeightLoop, hget]
      dsimp only
      split
      · exact ⟨_, rfl⟩
      · exact ih (by omega)

/-- The loop of `minBySnapshot` comes to an end, with some snapshot to take the minimum of. -/
theorem StateView.minBySnapshotLoop_ok {atHeight : Nat} {bottomNotIncluded : Int}
    {list : List Snapshot} (hlinked : Descends (s.snapshotAtHeight a) Snapshot.prevHeight h)
    (hfuel : h < fuel) :
    ∃ first rest, s.minBySnapshotLoop a atHeight bottomNotIncluded fuel h list
      = .ok (first :: rest) := by
  induction hlinked generalizing fuel list with
  | zero =>
      obtain ⟨fuel, rfl⟩ := Nat.exists_eq_succ_of_ne_zero (Nat.ne_of_gt hfuel)
      rw [minBySnapshotLoop, if_pos rfl]
      cases s.snapshotAtHeight a 1 with
      | none => exact ⟨_, list, rfl⟩
      | some snapshot => exact ⟨snapshot, list, rfl⟩
  | @link h snapshot hget hlt hlink ih =>
      obtain ⟨fuel, rfl⟩ := Nat.exists_eq_succ_of_ne_zero (Nat.ne_of_gt (Nat.zero_lt_of_lt hfuel))
      rw [minBySnapshotLoop, if_neg (by omega), hget]
      dsimp only
      split
      · exact ⟨snapshot, list, rfl⟩
      · rw [if_neg (by omega)]
        split
        · exact ih (by omega)
        · exact ih (by omega)

/-- The balance to mint with is the last weighted balance, or a new one. -/
theorem SPoSCalc.mintingBalance_eq {atHeight : Nat} {least : Int64}
    (hleast : s.effectiveBalanceAtHeightWithConfirmations a ((s.lastUpdateHeight a).getD 0) 0
      = .ok least) :
    mintingBalance s fs a atHeight
      = if (s.lastUpdateHeight a).getD 0 = atHeight then
          .ok ((s.lastUpdateWeightedBalance a).getD 0)
        else weightedBalaceCalc ((atHeight : Int) - (s.lastUpdateHeight a).getD 0) least
          ((s.lastUpdateWeightedBalance a).getD 0) (s.effectiveBalance a) fs := by
  rw [mintingBalance, hleast]
  rfl

/-- Linked snapshots are what the walks need. -/
theorem StateView.SnapshotsLinked.walks (hs : s.SnapshotsLinked a) : s.Walks fs a := by
  have hmin (atHeight confirmations : Nat) (extractor : Snapshot → Int64) :
      ∃ least, s.minBySnapshot a atHeight confirmations extractor = .ok least := by
    have hsnapshots : ∃ first rest,
        s.snapshotsToMin a atHeight confirmations = .ok (first :: rest) := by
      have hdescends := hs.descends
      rw [snapshotsToMin]
      cases hlast : s.lastUpdateHeight a with
      | none => exact ⟨_, [], rfl⟩
      | some h =>
          rw [hlast, Option.getD_some] at hdescends
          dsimp only
          split
          · exact ⟨_, [], rfl⟩
          · exact minBySnapshotLoop_ok hdescends (Nat.lt_succ_self h)
    obtain ⟨first, rest, hsnapshots⟩ := hsnapshots
    exact ⟨_, bind_eq_ok_iff.mpr ⟨first :: rest, hsnapshots, rfl⟩⟩
  refine ⟨fun height => atHeightLoop_ok hs.descends hs.ends (Nat.lt_succ_self _),
    fun height => atHeightLoop_ok hs.descends hs.ends (Nat.lt_succ_self _), hmin, fun height => ?_⟩
  obtain ⟨least, hleast⟩ := hmin ((s.lastUpdateHeight a).getD 0) 0 Snapshot.effectiveBalance
  rw [SPoSCalc.mintingBalance_eq hleast]
  split
  · exact .inl ⟨_, rfl⟩
  · exact SPoSCalc.weightedBalaceCalc_ok_or_raise

end Walks

section Amounts

omit [Platform]

variable {p q : Portfolio} {x y : Int64}

/-- A sum that overflows by one at most is the wrapping sum. -/
theorem safeSum_eq_add (hlow : -2 ^ 63 ≤ x.toInt + y.toInt) (hhigh : x.toInt + y.toInt ≤ 2 ^ 63) :
    safeSum x y = x + y := by
  by_cases hword : InWord (x.toInt + y.toInt)
  · rw [← Int64.toInt_inj, toInt_safeSum hword, toInt_add_exact hword]
  · have hsum : x.toInt + y.toInt = 2 ^ 63 := by
      unfold InWord at hword
      omega
    rw [safeSum, addExact, if_neg hword, ← Int64.toInt_inj, Int64.toInt_add, hsum]
    decide

/-- Without an overflow beyond one, the effective balance is a sum of words. -/
theorem Portfolio.effectiveBalance_eq (hlow : -2 ^ 63 ≤ p.balance.toInt + p.leaseInfo.leaseIn.toInt)
    (hcap : p.Capped) :
    p.effectiveBalance = p.balance + p.leaseInfo.leaseIn - p.leaseInfo.leaseOut := by
  rw [effectiveBalance, safeSum_eq_add hlow hcap]

/-- Then a change adds its own effective balance. -/
theorem Portfolio.Applies.effectiveBalance_combine (hp : p.Sound) (hq : p.Applies q)
    (hcap : p.Capped) (hcap' : (p.combine q).Capped) :
    (p.combine q).balance = p.balance + q.balance ∧
      (p.combine q).effectiveBalance = p.effectiveBalance + q.effectiveBalance := by
  have hbalance := hq.balance.toInt
  have hleaseIn := hq.leaseIn.toInt
  have hadded {x v : Int64} (h : AddsTo x v) : safeSum x v = x + v := by
    rw [← Int64.toInt_inj, h.toInt, toInt_add_exact h.inWord]
  have hchange : -2 ^ 63 ≤ q.balance.toInt + q.leaseInfo.leaseIn.toInt ∧
      q.balance.toInt + q.leaseInfo.leaseIn.toInt ≤ 2 ^ 63 := by
    have hold := hp.balance
    have hold' := hp.leaseIn
    have hnew := hq.balance.nonneg
    have hnew' := hq.leaseIn.nonneg
    unfold Portfolio.Capped at hcap hcap'
    change (safeSum p.balance q.balance).toInt
      + (safeSum p.leaseInfo.leaseIn q.leaseInfo.leaseIn).toInt ≤ 2 ^ 63 at hcap'
    omega
  have hpositive : -2 ^ 63 ≤ p.balance.toInt + p.leaseInfo.leaseIn.toInt := by
    have hold := hp.balance
    have hold' := hp.leaseIn
    omega
  have hpositive' :
      -2 ^ 63 ≤ (p.combine q).balance.toInt + (p.combine q).leaseInfo.leaseIn.toInt := by
    have hnew := hq.sound.balance
    have hnew' := hq.sound.leaseIn
    omega
  have hsum : (p.combine q).balance = p.balance + q.balance := hadded hq.balance
  have hin : (p.combine q).leaseInfo.leaseIn = p.leaseInfo.leaseIn + q.leaseInfo.leaseIn :=
    hadded hq.leaseIn
  have hout : (p.combine q).leaseInfo.leaseOut = p.leaseInfo.leaseOut + q.leaseInfo.leaseOut :=
    hadded hq.leaseOut
  refine ⟨hsum, ?_⟩
  rw [effectiveBalance_eq hpositive' hcap', effectiveBalance_eq hpositive hcap,
    effectiveBalance_eq hchange.1 hchange.2, hsum, hin, hout]
  grind

end Amounts

section Closing

theorem StateView.Sound.lastUpdate_getD {s : StateView} (hs : s.Sound) (a : Address) :
    (s.lastUpdateHeight a).getD 0 ≤ s.height := by
  cases hlast : s.lastUpdateHeight a with
  | none => exact Nat.zero_le _
  | some i => exact hs.lastUpdate a i hlast

variable {fs : FunctionalitySettings} {s : StateView} {a : Address} {d : Diff}
  {snapshots : Dict Address SnapshotsByHeight} {L : Finset LeaseTransaction}

/-- What the end of a block does to the snapshots of an account. -/
theorem snapshots_close
    (h : BlockDiffer.newSnapshots fs s (s.height + 1) d.portfolios = .ok snapshots) (a : Address) :
    let s' := view s ⟨d, 1, snapshots⟩
    (∃ q snapshot, d.portfolios.lookup a = some q ∧
      BlockDiffer.newSnapshot fs s (s.height + 1) a q = .ok snapshot ∧
      s'.lastUpdateHeight a = some (s.height + 1) ∧
      s'.lastUpdateWeightedBalance a = some snapshot.weightedBalance ∧
      ∀ i, s'.snapshotAtHeight a i
        = if i = s.height + 1 then some snapshot else s.snapshotAtHeight a i) ∨
    s'.lastUpdateHeight a = s.lastUpdateHeight a ∧
      s'.lastUpdateWeightedBalance a = s.lastUpdateWeightedBalance a ∧
      s'.snapshotAtHeight a = s.snapshotAtHeight a ∧
      ((d.portfolios.lookup a).getD Portfolio.empty).balance = 0 ∧
      ((d.portfolios.lookup a).getD Portfolio.empty).effectiveBalance = 0 := by
  obtain ⟨q, snapshot, hq, hsnapshot, hlookup⟩ | ⟨hlookup, hunchanged⟩ :=
    BlockDiffer.newSnapshots_cases h a
  · refine .inl ⟨q, snapshot, hq, hsnapshot, ?_, ?_, fun i => ?_⟩
    · simp only [view, hlookup, Option.map_some, SnapshotsByHeight.lastKey_singleton,
        Option.some_or]
    · simp only [view, hlookup, Option.map_some, SnapshotsByHeight.last_singleton, Option.some_or]
    · simp only [view, hlookup, Option.bind_some, SnapshotsByHeight.get,
        SnapshotsByHeight.singleton, Dict.lookup_singleton]
      split <;> simp_all
  · refine .inr ⟨?_, ?_, ?_, hunchanged⟩ <;> simp only [view, hlookup] <;> rfl

theorem BlockDiffer.newSnapshot_eq_ok {q : Portfolio} {snapshot : Snapshot}
    (h : newSnapshot fs s (s.height + 1) a q = .ok snapshot)
    (hlast : (s.lastUpdateHeight a).getD 0 ≤ s.height) :
    snapshot.prevHeight = (s.lastUpdateHeight a).getD 0 ∧
      snapshot.balance = (s.accountPortfolio a).balance + q.balance ∧
      snapshot.effectiveBalance = s.effectiveBalance a + q.effectiveBalance ∧
      SPoSCalc.weightedBalaceCalc ((s.height + 1 : Nat) - ((s.lastUpdateHeight a).getD 0 : Int))
        (s.effectiveBalance a) ((s.lastUpdateWeightedBalance a).getD 0) snapshot.effectiveBalance
        fs = .ok snapshot.weightedBalance := by
  rw [newSnapshot] at h
  dsimp only at h
  rw [if_neg (by omega)] at h
  obtain ⟨weighted, hweighted, h⟩ := bind_eq_ok_iff.mp h
  obtain rfl := Except.ok.inj h
  exact ⟨rfl, rfl, rfl, hweighted⟩

/-- The snapshots stay linked. -/
theorem StateView.SnapshotsLinked.close (h : s.SnapshotsLinked a) (hs : s.Sound)
    (hnew : BlockDiffer.newSnapshots fs s (s.height + 1) d.portfolios = .ok snapshots) :
    (view s ⟨d, 1, snapshots⟩).SnapshotsLinked a := by
  obtain ⟨q, snapshot, -, hsnapshot, hlast, -, hget⟩ | ⟨hlast, -, hget, -⟩ := snapshots_close hnew a
  · have hle : (s.lastUpdateHeight a).getD 0 ≤ s.height := hs.lastUpdate_getD a
    have hprev := (BlockDiffer.newSnapshot_eq_ok hsnapshot hle).1
    constructor
    · rw [hlast, Option.getD_some]
      refine h.descends.push (fun i hi => ?_) ?_ hprev (Nat.lt_succ_of_le hle)
      · rw [hget, if_neg hi]
      · rw [hget, if_pos rfl]
    · rw [hget, if_neg (Nat.succ_ne_zero _).symm]
      exact h.ends
  · constructor
    · rw [hlast, hget]
      exact h.descends
    · rw [hget]
      exact h.ends

/-- The last weighted balance is in bounds. -/
theorem StateView.Recorded.weighted_nonneg (h : s.Recorded a) :
    0 ≤ (s.lastUpdateWeightedBalance a).getD 0 := by
  cases hlast : s.lastUpdateHeight a with
  | none =>
      obtain ⟨-, -, hnone⟩ := h.unseen hlast
      rw [hnone]
      decide
  | some i =>
      obtain ⟨snapshot, hget, -, -, hsome⟩ := h.newest i hlast
      rw [hsome]
      exact (h.bounded i snapshot hget).1

/-- The portfolio of an account after a block, and the change it has in the block. -/
theorem portfolio_close (hs : s.Sound) (hfits : d.asBlockDiff.Fits s) (a : Address)
    (hcap : (s.accountPortfolio a).Capped)
    (hcap' : ((view s ⟨d, 1, snapshots⟩).accountPortfolio a).Capped) :
    let q := (d.portfolios.lookup a).getD Portfolio.empty
    ((view s ⟨d, 1, snapshots⟩).accountPortfolio a).balance
        = (s.accountPortfolio a).balance + q.balance ∧
      (view s ⟨d, 1, snapshots⟩).effectiveBalance a
        = s.effectiveBalance a + q.effectiveBalance := by
  dsimp only [StateView.effectiveBalance]
  rw [view_accountPortfolio]
  rw [view_accountPortfolio] at hcap'
  dsimp only at hcap' ⊢
  cases hq : d.portfolios.lookup a with
  | none =>
      rw [Option.getD_none, Portfolio.combine_empty]
      have hzero : Portfolio.empty.effectiveBalance = 0 := by decide
      exact ⟨(Int64.add_zero _).symm, by rw [hzero, Int64.add_zero]⟩
  | some q =>
      rw [hq] at hcap'
      exact (hfits.portfolio a q hq).effectiveBalance_combine (hs.portfolio a) hcap hcap'

/-- The records stay right while nothing overflows. -/
theorem StateView.Recorded.close (h : s.Recorded a) (hs : s.Sound)
    (hfits : d.asBlockDiff.Fits s)
    (hnew : BlockDiffer.newSnapshots fs s (s.height + 1) d.portfolios = .ok snapshots)
    (hcap : (s.accountPortfolio a).Capped)
    (hcap' : ((view s ⟨d, 1, snapshots⟩).accountPortfolio a).Capped)
    (hold : 0 ≤ s.effectiveBalance a)
    (heffective : 0 ≤ (view s ⟨d, 1, snapshots⟩).effectiveBalance a) :
    (view s ⟨d, 1, snapshots⟩).Recorded a := by
  obtain ⟨hbalance, hsum⟩ := portfolio_close hs hfits a hcap hcap'
  -- The account changes in the block and gets a snapshot, or neither.
  obtain ⟨q, snapshot, hq, hsnapshot, hlast, hweighted, hget⟩ |
    ⟨hlast, hweighted, hget, hunchanged⟩ := snapshots_close hnew a
  · rw [hq, Option.getD_some] at hbalance hsum
    have hle := hs.lastUpdate_getD a
    obtain ⟨-, hsame, hsame', hcalc⟩ := BlockDiffer.newSnapshot_eq_ok hsnapshot hle
    rw [← hbalance] at hsame
    rw [← hsum] at hsame'
    have hbounds := SPoSCalc.weightedBalaceCalc_bounds (by omega) hold h.weighted_nonneg
      (hsame'.symm ▸ heffective) hcalc
    refine ⟨fun i hi => ?_, fun hnone => ?_, fun i other hi => ?_⟩
    · obtain rfl := Option.some.inj (hlast.symm.trans hi)
      refine ⟨snapshot, ?_, hsame, hsame', hweighted⟩
      rw [hget, if_pos rfl]
    · rw [hlast] at hnone
      cases hnone
    · rw [hget] at hi
      split at hi
      · obtain rfl := Option.some.inj hi
        exact hbounds
      · exact h.bounded i other hi
  · obtain ⟨hzero, hzero'⟩ := hunchanged
    rw [hzero, Int64.add_zero] at hbalance
    rw [hzero', Int64.add_zero] at hsum
    refine ⟨fun i hi => ?_, fun hnone => ?_, fun i snapshot hi => ?_⟩
    · rw [hlast] at hi
      rw [hget, hweighted, hbalance, hsum]
      exact h.newest i hi
    · rw [hlast] at hnone
      rw [hweighted, hbalance, hsum]
      exact h.unseen hnone
    · rw [hget] at hi
      exact h.bounded i snapshot hi

end Closing

section Chains

variable {fs : FunctionalitySettings} {s s' : StateView} {a : Address} {blocks : List Block}
  {r : StateReader} {d : Diff} {snapshots : Dict Address SnapshotsByHeight}

/-- A state with the same snapshots. -/
theorem StateView.SnapshotsLinked.congr (h : s.SnapshotsLinked a)
    (hlast : s'.lastUpdateHeight = s.lastUpdateHeight)
    (hget : s'.snapshotAtHeight = s.snapshotAtHeight) : s'.SnapshotsLinked a := by
  constructor
  · rw [hlast, hget]
    exact h.descends
  · rw [hget]
    exact h.ends

/-- A state with the same snapshots and portfolios. -/
theorem StateView.Recorded.congr (h : s.Recorded a)
    (hportfolio : s'.accountPortfolio = s.accountPortfolio)
    (hlast : s'.lastUpdateHeight = s.lastUpdateHeight)
    (hweighted : s'.lastUpdateWeightedBalance = s.lastUpdateWeightedBalance)
    (hget : s'.snapshotAtHeight = s.snapshotAtHeight) : s'.Recorded a := by
  constructor
  · rw [StateView.effectiveBalance, hportfolio, hlast, hweighted, hget]
    exact h.newest
  · rw [StateView.effectiveBalance, hportfolio, hlast, hweighted]
    exact h.unseen
  · rw [hget]
    exact h.bounded

/-- The snapshots are linked in every state of a chain. -/
theorem StateOf.snapshotsLinked (h : StateOf fs blocks r) (a : Address) : r.SnapshotsLinked a := by
  refine StateOf.blockwise (P := fun _ s => s.SnapshotsLinked a) ⟨.zero, rfl⟩ ?_ ?_ h
  · intro blocks r b prev d hr hlinked hd
    obtain ⟨L, hL⟩ := hr.regular
    obtain ⟨diff, snapshots, -, hnew, rfl⟩ := BlockDiffer.fromBlock_eq_ok hd
    exact hlinked.close hL.sound hnew
  · intro blocks p d L ss hp hd hlinked
    have hwritten := StateStorage.view_eq_written_except ss hp.sound hd.stackable.fits
      hd.issuedAssets
    rw [← hwritten]
    exact hlinked.congr rfl rfl

/-- The snapshots of an account are right in every state of a chain in none of whose states it
overflows. -/
theorem StateOf.recorded (h : StateOf fs blocks r) (a : Address)
    (hcap : ∀ front r', front <+: blocks → StateOf fs front r' → (r'.accountPortfolio a).Capped) :
    r.Recorded a := by
  refine StateOf.blockwise (P := fun blocks s => (∀ front r', front <+: blocks →
    StateOf fs front r' → (r'.accountPortfolio a).Capped) → s.Recorded a) (fun _ => ?_) ?_ ?_ h
    hcap
  · refine ⟨fun i hi => ?_, fun _ => ⟨rfl, (by decide : Portfolio.empty.effectiveBalance = 0), rfl⟩,
      fun i snapshot hi => ?_⟩
    · cases hi
    · cases hi
  · intro blocks r b prev d hr hrecorded hd hcap
    have hnext : StateOf fs (blocks ++ [b]) (reader r d) :=
      .stack blocks [b] r prev d hr (BlockDiffer.unsafeDiffMany_singleton hd)
    have hbelow := List.prefix_append blocks [b]
    have hold := (effectiveBalance_invariant fs).stateOf hr a
    have heffective := (effectiveBalance_invariant fs).stateOf hnext a
    have hcapped := hcap _ _ hbelow hr
    have hcapped' := hcap _ _ (List.prefix_refl _) hnext
    obtain ⟨L, hL⟩ := hr.regular
    obtain ⟨diff, snapshots, hfold, hnew, rfl⟩ := BlockDiffer.fromBlock_eq_ok hd
    have hfits := (BlockDiffer.foldlM_regular hL hfold).1.fits
    exact (hrecorded fun front r' hfront => hcap front r' (hfront.trans hbelow)).close hL.sound
      hfits hnew hcapped hcapped' hold heffective
  · intro blocks p d L ss hp hd hrecorded hcap
    have hwritten := StateStorage.view_eq_written_except ss hp.sound hd.stackable.fits
      hd.issuedAssets
    rw [← hwritten]
    exact (hrecorded hcap).congr rfl rfl rfl rfl

/-- In every state of a chain the snapshots of every account lead down from its last update, and
the walks along them end, also while the next block is applied; and while the balance and the amount
leased to the account do not overflow together, the newest snapshot is what the portfolio says, and
every weighted balance is an effective balance at most and not negative. -/
theorem StateOf.snapshots_kept (h : StateOf fs blocks r) (a : Address)
    (hcap : ∀ front r', front <+: blocks → StateOf fs front r' → (r'.accountPortfolio a).Capped) :
    r.SnapshotsLinked a ∧ r.Recorded a ∧ r.Walks fs a ∧
      ∀ (prev : Option Int64) (timestamp : Int64) (txs : List ProcessedTransaction) (d : Diff),
        txs.foldlM (BlockDiffer.txStep fs r.toStateView prev timestamp (r.height + 1)) Diff.empty
          = .ok d →
        (view r.toStateView d.asBlockDiff).SnapshotsLinked a ∧
          (view r.toStateView d.asBlockDiff).Walks fs a := by
  have hlinked := h.snapshotsLinked a
  refine ⟨hlinked, h.recorded a hcap, hlinked.walks, fun prev timestamp txs d hd => ?_⟩
  have hsame : (view r.toStateView d.asBlockDiff).SnapshotsLinked a := hlinked.congr rfl rfl
  exact ⟨hsame, hsame.walks⟩

/-- The coins of a chain are those its blocks bring. -/
theorem StateOf.issued_eq (h : StateOf fs blocks r) :
    r.supply = (blocks.map Block.issue).sum := by
  refine StateOf.blockwise (P := fun blocks s => s.supply = (blocks.map Block.issue).sum)
    initialState_supply ?_ ?_ h
  · intro blocks r b prev d hr hsupply hd
    obtain ⟨L, hL⟩ := hr.regular
    rw [(BlockDiffer.fromBlock_regular hL hd).2.2.2, hsupply, List.map_append, List.sum_append,
      List.map_singleton, List.sum_singleton]
  · intro blocks p d L ss hp hd hsupply
    rw [← StateStorage.view_eq_written_except ss hp.sound hd.stackable.fits hd.issuedAssets]
    exact hsupply

/-- No account can overflow while all the coins fit. -/
theorem StateOf.capped (h : StateOf fs blocks r) (hsupply : (blocks.map Block.issue).sum ≤ 2 ^ 63) :
    r.Capped := by
  intro a
  obtain ⟨L, hL⟩ := h.regular
  have hle := leasedIn_le hL a
  rw [← hL.ledger.leaseIn a, h.issued_eq] at hle
  unfold Portfolio.Capped
  omega

end Chains

end Platform

namespace Sample

/-- The block with the lease. -/
def leaseBlock : Block := ⟨1, 1, signature 1, ⟨key, signature 2⟩, ⟨1, 0⟩, leasing⟩

/-- The state after it. -/
def afterLeaseBlock : StateReader × Option Int64 :=
  okOr (replay fs [genesisBlock, leaseBlock]) (initialState, none)

/-- What the two blocks evaluate to, and what they issue. -/
theorem leaseBlock_evaluates :
    (replay fs [genesisBlock, leaseBlock]).isOk = true ∧
    afterLeaseBlock.1.lastUpdateHeight owner = some 2 ∧
    ∀ front ∈ [genesisBlock, leaseBlock].inits, (front.map Block.issue).sum ≤ 2 ^ 63 := by
  decide +kernel

theorem leaseBlock_issues : ∀ front ∈ [genesisBlock, leaseBlock].inits,
    (front.map Block.issue).sum ≤ 2 ^ 63 :=
  leaseBlock_evaluates.2.2

theorem replay_leaseBlock : replay fs [genesisBlock, leaseBlock] = .ok afterLeaseBlock :=
  eq_ok_okOr leaseBlock_evaluates.1

/-- The snapshot of the owner after the lease. -/
theorem afterLeaseBlock_kept : afterLeaseBlock.1.lastUpdateHeight owner = some 2 ∧
    ∃ snapshot, afterLeaseBlock.1.snapshotAtHeight owner 2 = some snapshot ∧
      snapshot.balance = (afterLeaseBlock.1.accountPortfolio owner).balance ∧
      snapshot.weightedBalance ≤ snapshot.effectiveBalance := by
  have hlast := leaseBlock_evaluates.2.1
  obtain ⟨-, hrecorded, -⟩ := (StateOf.of_replay replay_leaseBlock).snapshots_kept owner
    fun front r' hfront hr =>
      hr.capped (leaseBlock_issues front ((List.mem_inits _ _).mpr hfront)) owner
  obtain ⟨snapshot, hget, hbalance, -⟩ := hrecorded.newest 2 hlast
  exact ⟨hlast, snapshot, hget, hbalance, (hrecorded.bounded 2 snapshot hget).2⟩

/-- The key of another account. -/
def richKey : PublicKeyAccount := ⟨List.replicate 32 3⟩

/-- Two accounts with nine quintillion coins each. -/
def richGenesis : Block :=
  ⟨0, 1, signature 0, ⟨key, signature 1⟩, ⟨0, 0⟩,
    [⟨.success, 0, .genesis ⟨owner, 9000000000000000000, 0, 0, by decide⟩⟩,
      ⟨.success, 0, .genesis ⟨richKey.toAddress, 9000000000000000000, -1, 0, by decide⟩⟩]⟩

/-- A lease of one coin by the owner. -/
def smallLease : Block :=
  ⟨1, 1, signature 1, ⟨key, signature 2⟩, ⟨1, 0⟩,
    [⟨.success, 100, .lease ⟨1, 100, 100, 1, .address tenant, proofs, by decide, by decide,
      fee_pos, feeScale_eq, leaseTransaction.not_to_self⟩⟩,
      ⟨.success, 0, .minting mintingTransaction⟩]⟩

/-- A lease of nearly all coins of the other account to the owner. -/
def largeLease : Block :=
  ⟨2, 1, signature 2, ⟨key, signature 3⟩, ⟨2, 104166666666666⟩,
    [⟨.success, 100, .lease ⟨8000000000000000000, 100, 100, 2, .address owner,
        ⟨[⟨richKey, [], rfl⟩], by decide, by decide⟩, by decide, by decide, fee_pos, feeScale_eq,
        by decide +kernel⟩⟩,
      ⟨.success, 0, .minting ⟨owner, MintingReward, 2, 3, mintingTransaction.amount_eq⟩⟩]⟩

/-- The state after the first block. -/
def afterRichGenesis : StateReader × Option Int64 :=
  okOr (replayStep fs (initialState, none) richGenesis) (initialState, none)

/-- The state after the small lease. -/
def afterSmallLease : StateReader × Option Int64 :=
  okOr (replayStep fs afterRichGenesis smallLease) (initialState, none)

/-- The state after the large lease. -/
def afterLargeLease : StateReader × Option Int64 :=
  okOr (replayStep fs afterSmallLease largeLease) (initialState, none)

/-- The history of the first block. -/
def richHistory : History :=
  (okOr (History.empty.appendBlock richGenesis (.ok BlockDiff.empty))
    (BlockDiff.empty, History.empty)).2

/-- The history of the first two blocks. -/
def leasedHistory : History :=
  (okOr (richHistory.appendBlock smallLease (.ok BlockDiff.empty))
    (BlockDiff.empty, History.empty)).2

/-- What the three blocks evaluate to, and how each of them is placed behind those before. -/
theorem largeLease_evaluates :
    (replayStep fs (initialState, none) richGenesis).isOk = true ∧
    (replayStep fs afterRichGenesis smallLease).isOk = true ∧
    (replayStep fs afterSmallLease largeLease).isOk = true ∧
    Coordinator.blockConsensusValidation fs richHistory afterRichGenesis.1.toStateView 1 smallLease
      = .ok () ∧
    Coordinator.blockConsensusValidation fs leasedHistory afterSmallLease.1.toStateView 2 largeLease
      = .ok () ∧
    afterLargeLease.1.lastUpdateHeight owner = some 3 ∧
    (afterLargeLease.1.snapshotAtHeight owner 3).any (fun snapshot =>
      snapshot.effectiveBalance ≠ afterLargeLease.1.effectiveBalance owner ∧
        snapshot.weightedBalance < 0) := by
  decide +kernel

theorem replayStep_richGenesis :
    replayStep fs (initialState, none) richGenesis = .ok afterRichGenesis :=
  eq_ok_okOr largeLease_evaluates.1

theorem replayStep_smallLease : replayStep fs afterRichGenesis smallLease = .ok afterSmallLease :=
  eq_ok_okOr largeLease_evaluates.2.1

theorem replayStep_largeLease : replayStep fs afterSmallLease largeLease = .ok afterLargeLease :=
  eq_ok_okOr largeLease_evaluates.2.2.1

theorem replay_largeLease : replay fs [richGenesis, smallLease, largeLease] = .ok afterLargeLease :=
  foldlM_cons_eq_ok_iff.mpr ⟨_, replayStep_richGenesis,
    foldlM_cons_eq_ok_iff.mpr ⟨_, replayStep_smallLease,
      foldlM_cons_eq_ok_iff.mpr ⟨_, replayStep_largeLease, rfl⟩⟩⟩

theorem acceptedChain_largeLease :
    AcceptedChain fs [richGenesis, smallLease, largeLease] afterLargeLease :=
  .append (.append (.genesis richGenesis afterRichGenesis (by decide) replayStep_richGenesis)
    smallLease afterSmallLease richHistory 1 largeLease_evaluates.2.2.2.1
    replayStep_smallLease) largeLease afterLargeLease leasedHistory 2
    largeLease_evaluates.2.2.2.2.1 replayStep_largeLease

/-- The check of the effective balance misses the overflow, as the one leased coin is subtracted from
the least word: the newest snapshot is not what the portfolio says, and is negative. -/
theorem largeLease_unrecorded :
    AcceptedChain fs [richGenesis, smallLease, largeLease] afterLargeLease ∧
    StateOf fs [richGenesis, smallLease, largeLease] afterLargeLease.1 ∧
    afterLargeLease.1.lastUpdateHeight owner = some 3 ∧
    (afterLargeLease.1.snapshotAtHeight owner 3).any (fun snapshot =>
      snapshot.effectiveBalance ≠ afterLargeLease.1.effectiveBalance owner ∧
        snapshot.weightedBalance < 0) :=
  ⟨acceptedChain_largeLease, StateOf.of_replay replay_largeLease,
    largeLease_evaluates.2.2.2.2.2⟩

end Sample

end Vsys
