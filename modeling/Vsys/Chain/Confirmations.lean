import Vsys.Chain.Snapshots

/-!
# Balances with confirmations

`effectiveBalanceAtHeightWithConfirmations` walks along the snapshots of an account to find the least
effective balance of a window of heights.  The snapshots recount the effective balances after the
blocks, so the walk sees all those of the window; but it also sees the first change after it.
-/

namespace Vsys

open Lib CompositeStateReader

section Platform

variable [Platform]

/-- A state of a chain with the states the node had after each of its blocks. -/
inductive StatesOf (fs : FunctionalitySettings) : List Block → StateView → List StateView → Prop
  | empty : StatesOf fs [] initialState.toStateView []
  | block {blocks : List Block} {r : StateReader} {passed : List StateView} {b : Block}
      {prev : Option Int64} {d : BlockDiff} (hr : StateOf fs blocks r)
      (hpassed : StatesOf fs blocks r.toStateView passed)
      (hd : BlockDiffer.fromBlock fs r.toStateView prev b = .ok d) :
      StatesOf fs (blocks ++ [b]) (view r.toStateView d) (passed ++ [view r.toStateView d])
  | write {blocks : List Block} {p : StateStorage} {d : BlockDiff} {passed : List StateView}
      {L : Finset LeaseTransaction} (ss : StateSettings)
      (hregular : (StateReaderImpl.reader p).Regular L)
      (hplain : BlockDiffer.Plain (StateReaderImpl.reader p).toStateView d)
      (hpassed : StatesOf fs blocks (view (StateReaderImpl.reader p).toStateView d) passed) :
      StatesOf fs blocks (StateReaderImpl.reader (StateWriterImpl.applyBlockDiff ss p d)).toStateView
        passed

variable {fs : FunctionalitySettings} {blocks : List Block} {s : StateView} {r : StateReader}
  {passed : List StateView} {a : Address} {atHeight confirmations : Nat}

/-- Every state of a chain has been reached through states after its blocks. -/
theorem StateOf.statesOf (h : StateOf fs blocks r) :
    ∃ passed, StatesOf fs blocks r.toStateView passed := by
  refine StateOf.blockwise (P := fun blocks s => ∃ passed, StatesOf fs blocks s passed)
    ⟨[], .empty⟩ ?_ ?_ h
  · rintro blocks r b prev d hr ⟨passed, hpassed⟩ hd
    exact ⟨_, hpassed.block hr hd⟩
  · rintro blocks p d L ss hregular hplain ⟨passed, hpassed⟩
    exact ⟨passed, hpassed.write ss hregular hplain⟩

/-- The effective balance of an account after the block of a height; before the first one it is
zero. -/
def effectiveBalanceAfter (passed : List StateView) (a : Address) (height : Nat) : Int64 :=
  ((0 :: passed.map fun s => s.effectiveBalance a)[height]?).getD 0

/-- The heights that a balance with confirmations is the least of. -/
def InWindow (atHeight confirmations height : Nat) : Prop :=
  1 ≤ height ∧ atHeight ≤ height + confirmations ∧ height ≤ atHeight

/-- `least` is the least effective balance of the window. -/
structure LeastBalance (passed : List StateView) (a : Address) (atHeight confirmations : Nat)
    (least : Int64) : Prop where
  reached : ∃ h, InWindow atHeight confirmations h ∧ effectiveBalanceAfter passed a h = least
  least : ∀ h, InWindow atHeight confirmations h → least ≤ effectiveBalanceAfter passed a h

/-- Where the first change of the account after `atHeight` leaves it with less than it had in all the
window. -/
def FallsAfter (s : StateView) (passed : List StateView) (a : Address)
    (atHeight confirmations : Nat) : Prop :=
  ∃ h snapshot, atHeight < h ∧ s.snapshotAtHeight a h = some snapshot ∧
    snapshot.prevHeight ≤ atHeight ∧
    ∀ k, InWindow atHeight confirmations k →
      effectiveBalanceAfter passed a h < effectiveBalanceAfter passed a k

/-- The snapshots of an account recount its effective balances. -/
structure Recounted (s : StateView) (passed : List StateView) (blocks : List Block) (a : Address) :
    Prop where
  height : s.height = blocks.length
  length : passed.length = blocks.length
  now : s.effectiveBalance a = effectiveBalanceAfter passed a blocks.length
  recounts : Recounts (s.snapshotAtHeight a) Snapshot.prevHeight Snapshot.effectiveBalance 0
    (effectiveBalanceAfter passed a) ((s.lastUpdateHeight a).getD 0) blocks.length
  above : ∀ h, blocks.length < h → s.snapshotAtHeight a h = none
  last : s.lastUpdateHeight a ≠ some 0

theorem effectiveBalanceAfter_concat (h : Nat) : effectiveBalanceAfter (passed ++ [s]) a h
    = if h = passed.length + 1 then s.effectiveBalance a else effectiveBalanceAfter passed a h := by
  rw [effectiveBalanceAfter, effectiveBalanceAfter, List.map_append, List.map_singleton,
    ← List.cons_append]
  split
  · rename_i hh
    rw [List.getElem?_append_right (by simp [hh]), hh]
    simp
  · rename_i hh
    rcases Nat.lt_or_ge h (passed.length + 1) with hlt | hge
    · rw [List.getElem?_append_left (by simpa using hlt)]
    · rw [List.getElem?_eq_none (by simp; omega), List.getElem?_eq_none (by simp; omega)]

theorem recounted_initialState : Recounted initialState.toStateView [] [] a where
  height := rfl
  length := rfl
  now := (by decide : Portfolio.empty.effectiveBalance = 0)
  recounts := .zero (fun _ _ => rfl) fun j hj => by
    rw [Nat.le_zero.mp hj]
    rfl
  above := fun _ _ => rfl
  last := fun h => by cases h

/-- The next block. -/
theorem Recounted.close {d : Diff} {snapshots : Dict Address SnapshotsByHeight}
    (h : Recounted s passed blocks a) (hs : s.Sound) (hfits : d.asBlockDiff.Fits s)
    (hnew : BlockDiffer.newSnapshots fs s (s.height + 1) d.portfolios = .ok snapshots)
    (hcap : (s.accountPortfolio a).Capped)
    (hcap' : ((view s ⟨d, 1, snapshots⟩).accountPortfolio a).Capped) (b : Block) :
    Recounted (view s ⟨d, 1, snapshots⟩) (passed ++ [view s ⟨d, 1, snapshots⟩]) (blocks ++ [b])
      a := by
  have hsum := (portfolio_close hs hfits a hcap hcap').2
  have hheight : (view s ⟨d, 1, snapshots⟩).height = s.height + 1 := rfl
  have hnow : effectiveBalanceAfter (passed ++ [view s ⟨d, 1, snapshots⟩]) a (blocks.length + 1)
      = (view s ⟨d, 1, snapshots⟩).effectiveBalance a := by
    rw [effectiveBalanceAfter_concat, if_pos (by rw [h.length])]
  have hbefore (j : Nat) (hj : j ≤ blocks.length) :
      effectiveBalanceAfter (passed ++ [view s ⟨d, 1, snapshots⟩]) a j
        = effectiveBalanceAfter passed a j := by
    rw [effectiveBalanceAfter_concat, if_neg (by rw [h.length]; omega)]
  constructor
  case height => rw [hheight, h.height, List.length_append, List.length_singleton]
  case length => rw [List.length_append, List.length_append, h.length]; rfl
  case now => rw [List.length_append, List.length_singleton, hnow]
  case recounts =>
    rw [List.length_append, List.length_singleton]
    -- The account changes in the block and gets a snapshot, or neither.
    obtain ⟨q, snapshot, hq, hsnapshot, hlast, -, hget⟩ | ⟨hlast, -, hget, -, hunchanged⟩ :=
      snapshots_close hnew a
    · rw [hq, Option.getD_some] at hsum
      have hle := hs.lastUpdate_getD a
      obtain ⟨hprev, -, heffective, -⟩ := BlockDiffer.newSnapshot_eq_ok hsnapshot hle
      rw [hlast, Option.getD_some, h.height]
      rw [h.height] at hget hle
      refine (h.recounts.congr (fun j hj => ?_) hbefore).push ?_ hprev hle ?_
      · rw [hget, if_neg (by omega)]
      · rw [hget, if_pos rfl]
      · rw [hnow, hsum, heffective]
    · rw [hlast, hget]
      refine (h.recounts.congr (fun _ _ => rfl) hbefore).extend (h.above _ (Nat.lt_succ_self _)) ?_
      rw [hnow, hsum, hunchanged, Int64.add_zero, hbefore _ (Nat.le_refl _), h.now]
  case above =>
    intro j hj
    rw [List.length_append, List.length_singleton] at hj
    obtain ⟨q, snapshot, -, -, -, -, hget⟩ | ⟨-, -, hget, -⟩ := snapshots_close hnew a
    · rw [hget, if_neg (by rw [h.height]; omega), h.above j (by omega)]
    · rw [hget, h.above j (by omega)]
  case last =>
    obtain ⟨q, snapshot, -, -, hlast, -⟩ | ⟨hlast, -⟩ := snapshots_close hnew a
    · rw [hlast]
      exact fun hzero => absurd (Option.some.inj hzero) (Nat.succ_ne_zero _)
    · rw [hlast]
      exact h.last

/-- The snapshots of an account recount its effective balances while it does not overflow. -/
theorem StatesOf.recounted (h : StatesOf fs blocks s passed) (a : Address)
    (hcap : ∀ p ∈ passed, (p.accountPortfolio a).Capped) :
    Recounted s passed blocks a ∧ (s.accountPortfolio a).Capped := by
  induction h with
  | empty =>
      have hempty : Portfolio.empty.Capped := by
        unfold Portfolio.Capped
        decide
      exact ⟨recounted_initialState, hempty⟩
  | @block blocks r passed b prev d hr hpassed hd ih =>
      obtain ⟨hrecounted, hcapped⟩ := ih fun p hp => hcap p (List.mem_append_left _ hp)
      have hcapped' := hcap _ (List.mem_append_right _ (List.mem_singleton_self _))
      obtain ⟨L, hL⟩ := hr.regular
      obtain ⟨diff, snapshots, hfold, hnew, rfl⟩ := BlockDiffer.fromBlock_eq_ok hd
      have hfits := (BlockDiffer.foldlM_regular hL hfold).1.fits
      exact ⟨hrecounted.close hL.sound hfits hnew hcapped hcapped' b, hcapped'⟩
  | write ss hregular hplain hpassed ih =>
      have hwritten := StateStorage.view_eq_written_except ss hregular.sound
        hplain.stackable.fits hplain.issuedAssets
      obtain ⟨hrecounted, hcapped⟩ := ih hcap
      rw [← hwritten]
      exact ⟨⟨hrecounted.height, hrecounted.length, hrecounted.now, hrecounted.recounts,
        hrecounted.above, hrecounted.last⟩, hcapped⟩

/-- What the loop finds from a height on: the balances in the window up to there are among the
snapshots, and so is the one after the first change above the window; and nothing else is. -/
theorem minBySnapshotLoop_finds {f : Nat → Int64} {d n fuel : Nat} {list : List Snapshot}
    (hrecounts : Recounts (s.snapshotAtHeight a) Snapshot.prevHeight Snapshot.effectiveBalance 0 f
      d n) (hfuel : d < fuel) (hat : 1 ≤ atHeight) (hbottom : atHeight ≤ n + confirmations)
    (hfirst : ∀ x, s.snapshotAtHeight a 1 = some x → x.effectiveBalance = f 1)
    (hn : n = 0 → (s.snapshotAtHeight a 1).isSome) :
    ∃ found, s.minBySnapshotLoop a atHeight ((atHeight : Int) - confirmations) fuel d list
        = .ok found ∧ found ≠ [] ∧ (∀ x ∈ list, x ∈ found) ∧
      (∀ h, InWindow atHeight confirmations h → h ≤ n → ∃ x ∈ found, x.effectiveBalance = f h) ∧
      (∀ h x, atHeight < h → h ≤ n → s.snapshotAtHeight a h = some x → x.prevHeight ≤ atHeight →
        x ∈ found) ∧
      ∀ x ∈ found, x ∈ list ∨
        (∃ h, InWindow atHeight confirmations h ∧ f h = x.effectiveBalance) ∨
        ∃ h, atHeight < h ∧ s.snapshotAtHeight a h = some x ∧ x.prevHeight ≤ atHeight ∧
          f h = x.effectiveBalance := by
  induction hrecounts generalizing fuel list with
  | @zero n hnone hf =>
      obtain ⟨fuel, rfl⟩ := Nat.exists_eq_succ_of_ne_zero (Nat.ne_of_gt hfuel)
      rw [StateView.minBySnapshotLoop, if_pos rfl]
      cases hone : s.snapshotAtHeight a 1 with
      | some genesis =>
          -- the first block made a snapshot, which the loop has met already
          have hzero : n = 0 := by
            by_contra hne
            rw [hnone 1 (by omega)] at hone
            cases hone
          refine ⟨genesis :: list, rfl, by simp, fun x hx => List.mem_cons_of_mem _ hx,
            fun h hw hle => ?_, fun h x hlt hle => ?_, fun x hx => ?_⟩
          · have := hw.1
            omega
          · omega
          · obtain rfl | hx := List.mem_cons.mp hx
            · exact .inr (.inl ⟨1, ⟨Nat.le_refl 1, by omega, hat⟩, (hfirst x hone).symm⟩)
            · exact .inl hx
      | none =>
          have hpos : n ≠ 0 := by
            intro hzero
            have hsome := hn hzero
            rw [hone] at hsome
            cases hsome
          refine ⟨⟨0, 0, 0, 0⟩ :: list, rfl, by simp, fun x hx => List.mem_cons_of_mem _ hx,
            fun h _ hle => ⟨_, List.mem_cons_self, (hf h hle).symm⟩, fun h x _ hle hx => ?_,
            fun x hx => ?_⟩
          · rw [hnone h hle] at hx
            cases hx
          · obtain rfl | hx := List.mem_cons.mp hx
            · refine .inr (.inl ⟨max 1 (atHeight - confirmations), ⟨?_, ?_, ?_⟩, hf _ ?_⟩) <;> omega
            · exact .inl hx
  | @link d n x hget hlt hle hgap hf hlink ih =>
      obtain ⟨fuel, rfl⟩ := Nat.exists_eq_succ_of_ne_zero (Nat.ne_of_gt (Nat.zero_lt_of_lt hfuel))
      rw [StateView.minBySnapshotLoop, if_neg (by omega), hget]
      dsimp only
      have hentry {h : Nat} {y : Snapshot} (hh : h ≤ n) (hy : s.snapshotAtHeight a h = some y) :
          h ≤ d - 1 ∨ h = d ∧ y = x := by
        rcases Nat.lt_trichotomy h d with hlow | rfl | hhigh
        · exact .inl (by omega)
        · exact .inr ⟨rfl, Option.some.inj (hy.symm.trans hget)⟩
        · rw [hgap h hhigh hh] at hy
          cases hy
      by_cases hend : (d : Int) ≤ (atHeight : Int) - confirmations
      · -- the balance at the left edge of the window
        rw [if_pos hend]
        refine ⟨x :: list, rfl, by simp, fun y hy => List.mem_cons_of_mem _ hy,
          fun h hw hh => ⟨x, List.mem_cons_self, (hf h (by have := hw.2.1; omega) hh).symm⟩,
          fun h y hlater hh hy _ => ?_, fun y hy => ?_⟩
        · rcases hentry hh hy with hlow | ⟨rfl, -⟩ <;> omega
        · obtain rfl | hy := List.mem_cons.mp hy
          · refine .inr (.inl ⟨atHeight - confirmations, ⟨?_, ?_, ?_⟩, hf _ ?_ ?_⟩) <;> omega
          · exact .inl hy
      rw [if_neg hend, if_neg (by omega)]
      have hone : d - 1 = 0 → (s.snapshotAtHeight a 1).isSome := by
        intro hzero
        rw [← show d = 1 by omega, hget]
        rfl
      by_cases hskip : atHeight < d ∧ atHeight < x.prevHeight
      · rw [if_pos hskip]
        obtain ⟨found, hloop, hne, hlist, hwindow, hnext, honly⟩ :=
          @ih fuel list (by omega) (by omega) hone
        refine ⟨found, hloop, hne, hlist, fun h hw hh => hwindow h hw ?_,
          fun h y hlater hh hy hprev => ?_, honly⟩
        · have := hw.2.2
          omega
        · rcases hentry hh hy with hlow | ⟨rfl, rfl⟩
          · exact hnext h y hlater hlow hy hprev
          · omega
      · rw [if_neg hskip]
        obtain ⟨found, hloop, hne, hlist, hwindow, hnext, honly⟩ :=
          @ih fuel (x :: list) (by omega) (by omega) hone
        have hx : x ∈ found := hlist x List.mem_cons_self
        refine ⟨found, hloop, hne, fun y hy => hlist y (List.mem_cons_of_mem _ hy),
          fun h hw hh => ?_, fun h y hlater hh hy hprev => ?_, fun y hy => ?_⟩
        · rcases Nat.lt_or_ge h d with hlow | hhigh
          · exact hwindow h hw (by omega)
          · exact ⟨x, hx, (hf h hhigh hh).symm⟩
        · rcases hentry hh hy with hlow | ⟨rfl, rfl⟩
          · exact hnext h y hlater hlow hy hprev
          · exact hx
        · obtain hy | hy := honly y hy
          · obtain rfl | hy := List.mem_cons.mp hy
            · by_cases hinside : d ≤ atHeight
              · exact .inr (.inl ⟨d, ⟨by omega, by omega, hinside⟩, hf d (Nat.le_refl d) hle⟩)
              · exact .inr (.inr ⟨d, by omega, hget, by omega, hf d (Nat.le_refl d) hle⟩)
            · exact .inl hy
          · exact .inr hy

omit [Platform] in
/-- The minimum of some snapshots is the value of one of them, and of none more. -/
theorem foldl_min {extractor : Snapshot → Int64} (first : Snapshot) (rest : List Snapshot) :
    let least := rest.foldl (fun least x => min least (extractor x)) (extractor first)
    (∃ x ∈ first :: rest, extractor x = least) ∧ ∀ x ∈ first :: rest, least ≤ extractor x := by
  induction rest using List.reverseRecOn with
  | nil => simp
  | append_singleton rest x ih =>
      obtain ⟨⟨y, hy, hleast⟩, hall⟩ := ih
      rw [List.foldl_append, List.foldl_cons, List.foldl_nil, ← List.cons_append]
      generalize rest.foldl _ _ = least at hleast hall ⊢
      have hmin : min least (extractor x) = if least ≤ extractor x then least else extractor x := rfl
      simp only [hmin, List.forall_mem_append, List.forall_mem_singleton]
      split
      · rename_i hle
        exact ⟨⟨y, List.mem_append_left _ hy, hleast⟩, hall, hle⟩
      · rename_i hlt
        have hle := Int64.le_of_lt (Int64.not_le.mp hlt)
        exact ⟨⟨x, by simp, rfl⟩, fun z hz => Int64.le_trans hle (hall z hz), Int64.le_refl _⟩

/-- What the balance is the minimum of. -/
structure Finds (s : StateView) (passed : List StateView) (a : Address)
    (atHeight confirmations : Nat) (found : List Snapshot) : Prop where
  nonempty : found ≠ []
  window : ∀ h, InWindow atHeight confirmations h →
    ∃ x ∈ found, x.effectiveBalance = effectiveBalanceAfter passed a h
  next : ∀ h x, atHeight < h → s.snapshotAtHeight a h = some x → x.prevHeight ≤ atHeight → x ∈ found
  only : ∀ x ∈ found,
    (∃ h, InWindow atHeight confirmations h ∧
      effectiveBalanceAfter passed a h = x.effectiveBalance) ∨
    ∃ h, atHeight < h ∧ s.snapshotAtHeight a h = some x ∧ x.prevHeight ≤ atHeight ∧
      effectiveBalanceAfter passed a h = x.effectiveBalance

theorem Recounted.inside (h : Recounted s passed blocks a) {i : Nat} {x : Snapshot}
    (hx : s.snapshotAtHeight a i = some x) : i ≤ blocks.length := by
  by_contra hlt
  rw [h.above i (by omega)] at hx
  cases hx

/-- A snapshot has the balance after the block of its height. -/
theorem Recounted.value_eq (h : Recounted s passed blocks a) {i : Nat} {x : Snapshot}
    (hx : s.snapshotAtHeight a i = some x) :
    effectiveBalanceAfter passed a i = x.effectiveBalance :=
  h.recounts.value_eq (h.inside hx) hx

/-- The snapshots that are found. -/
theorem Recounted.finds (h : Recounted s passed blocks a) (hat : 1 ≤ atHeight)
    (hheight : atHeight ≤ blocks.length) :
    ∃ found, s.snapshotsToMin a atHeight confirmations = .ok found ∧
      Finds s passed a atHeight confirmations found := by
  have hrecounts := h.recounts
  rw [StateView.snapshotsToMin]
  cases hlast : s.lastUpdateHeight a with
  | none =>
      rw [hlast, Option.getD_none] at hrecounts
      have hnone (i : Nat) (x : Snapshot) : s.snapshotAtHeight a i ≠ some x := by
        intro hx
        have hzero := hrecounts.entry (h.inside hx) hx
        cases hrecounts with
        | zero hnone _ =>
            rw [hnone i (by omega)] at hx
            cases hx
        | link _ hlt _ _ _ _ => exact absurd hlt (Nat.not_lt_zero _)
      have hbefore (i : Nat) (hi : i ≤ blocks.length) : effectiveBalanceAfter passed a i = 0 := by
        cases hrecounts with
        | zero _ hf => exact hf i hi
        | link _ hlt _ _ _ _ => exact absurd hlt (Nat.not_lt_zero _)
      refine ⟨_, rfl, by simp, fun i hi => ⟨_, List.mem_cons_self, ?_⟩,
        fun i x _ hx => absurd hx (hnone i x), fun x hx => .inl ⟨atHeight, ?_, ?_⟩⟩
      · exact (hbefore i (Nat.le_trans hi.2.2 hheight)).symm
      · exact ⟨hat, Nat.le_add_right _ _, Nat.le_refl _⟩
      · obtain rfl := List.mem_singleton.mp hx
        exact hbefore atHeight hheight
  | some last =>
      rw [hlast, Option.getD_some] at hrecounts
      dsimp only
      split
      · rename_i hold
        -- nothing has changed in the window
        have hnow (i : Nat) (hi : last ≤ i) (hi' : i ≤ blocks.length) :
            effectiveBalanceAfter passed a i = s.effectiveBalance a := by
          rw [h.now]
          cases hrecounts with
          | zero _ _ => exact absurd hlast h.last
          | link _ _ hle _ hf _ =>
              rw [hf i hi hi', hf _ hle (Nat.le_refl _)]
        refine ⟨_, rfl, by simp, fun i hi => ⟨_, List.mem_cons_self, ?_⟩, fun i x hi hx _ => ?_,
          fun x hx => .inl ⟨atHeight, ?_, ?_⟩⟩
        · obtain ⟨-, hi, hi'⟩ := hi
          exact (hnow i (by omega) (by omega)).symm
        · have := hrecounts.entry (h.inside hx) hx
          omega
        · exact ⟨hat, Nat.le_add_right _ _, Nat.le_refl _⟩
        · obtain rfl := List.mem_singleton.mp hx
          exact hnow atHeight (by omega) hheight
      · rename_i hrecent
        have hfirst (x : Snapshot) (hx : s.snapshotAtHeight a 1 = some x) :
            x.effectiveBalance = effectiveBalanceAfter passed a 1 := (h.value_eq hx).symm
        obtain ⟨found, hloop, hne, -, hwindow, hnext, honly⟩ :=
          @minBySnapshotLoop_finds _ _ _ _ _ _ _ _ _ [] hrecounts (Nat.lt_succ_self last) hat
            (by omega) hfirst (by omega)
        refine ⟨found, hloop, hne, fun i hi => ?_, fun i x hi hx hprev => ?_, fun x hx => ?_⟩
        · exact hwindow i hi (Nat.le_trans hi.2.2 hheight)
        · exact hnext i x hi (h.inside hx) hx hprev
        · exact (honly x hx).resolve_left List.not_mem_nil

/-- In every state of a chain, reached through states in which the account does not overflow, its
balance with confirmations is there, and it is the least effective balance of the window exactly when
the first change of the account after it leaves the account no less. -/
theorem StatesOf.leastBalance_iff :
    (∀ (blocks : List Block) (r : StateReader), StateOf fs blocks r →
      ∃ passed, StatesOf fs blocks r.toStateView passed) ∧
    ∀ (blocks : List Block) (s : StateView) (passed : List StateView), StatesOf fs blocks s passed →
      ∀ (a : Address), (∀ p ∈ passed, (p.accountPortfolio a).Capped) →
      ∀ (atHeight confirmations : Nat), 1 ≤ atHeight → atHeight ≤ blocks.length →
      ∃ balance, s.effectiveBalanceAtHeightWithConfirmations a atHeight confirmations = .ok balance ∧
        (LeastBalance passed a atHeight confirmations balance ↔
          ¬ FallsAfter s passed a atHeight confirmations) := by
  refine ⟨fun _ _ h => h.statesOf, ?_⟩
  intro blocks s passed h a hcap atHeight confirmations hat hheight
  have hrecounted := (h.recounted a hcap).1
  obtain ⟨found, hfound, hfinds⟩ := @Recounted.finds _ _ _ _ _ _ confirmations hrecounted hat hheight
  obtain ⟨first, rest, rfl⟩ := List.exists_cons_of_ne_nil hfinds.nonempty
  obtain ⟨⟨x, hx, hleast⟩, hall⟩ := @foldl_min Snapshot.effectiveBalance first rest
  refine ⟨_, bind_eq_ok_iff.mpr ⟨first :: rest, hfound, rfl⟩, ?_⟩
  generalize rest.foldl _ _ = least at hleast hall ⊢
  have hbelow (i : Nat) (hi : InWindow atHeight confirmations i) :
      least ≤ effectiveBalanceAfter passed a i := by
    obtain ⟨y, hy, hvalue⟩ := hfinds.window i hi
    rw [← hvalue]
    exact hall y hy
  constructor
  · rintro ⟨⟨i, hi, hreached⟩, -⟩ ⟨j, y, hj, hy, hprev, hfalls⟩
    have hnext := hall y (hfinds.next j y hj hy hprev)
    rw [← hrecounted.value_eq hy] at hnext
    have hless := hfalls i hi
    rw [hreached] at hless
    exact absurd hnext (Int64.not_le.mpr hless)
  · intro hkept
    refine ⟨?_, hbelow⟩
    obtain ⟨i, hi, hvalue⟩ | ⟨j, hj, hget, hprev, hvalue⟩ := hfinds.only x hx
    · exact ⟨i, hi, hvalue.trans hleast⟩
    · by_contra hnone
      refine hkept ⟨j, x, hj, hget, hprev, fun k hk => ?_⟩
      rw [hvalue, hleast]
      exact Int64.lt_of_le_of_ne (hbelow k hk) fun hsame => hnone ⟨k, hk, hsame.symm⟩

/-- One more block of a replay. -/
theorem StatesOf.replayStep {st st' : StateReader × Option Int64} {b : Block}
    (h : StatesOf fs blocks st.1.toStateView passed) (hst : StateOf fs blocks st.1)
    (hstep : replayStep fs st b = .ok st') :
    StatesOf fs (blocks ++ [b]) st'.1.toStateView (passed ++ [st'.1.toStateView]) := by
  obtain ⟨d, hd, rfl⟩ := replayStep_eq_ok hstep
  exact h.block hst hd

end Platform

namespace Sample

/-- The states after a block with coins and a block that leases some of them. -/
def leaseStates : List StateView := [afterGenesis.1.toStateView, afterLeaseBlock.1.toStateView]

theorem replayStep_leaseBlock : replayStep fs afterGenesis leaseBlock = .ok afterLeaseBlock := by
  obtain ⟨st, hst, hrest⟩ := foldlM_cons_eq_ok_iff.mp replay_leaseBlock
  obtain ⟨st', hst', hnil⟩ := foldlM_cons_eq_ok_iff.mp hrest
  rw [replayStep_genesisBlock] at hst
  rw [Except.ok.inj hst, hst']
  exact hnil

theorem leaseStates_of : StatesOf fs [genesisBlock, leaseBlock] afterLeaseBlock.1.toStateView
    leaseStates := by
  have hfirst : StatesOf fs ([] ++ [genesisBlock]) afterGenesis.1.toStateView
      ([] ++ [afterGenesis.1.toStateView]) :=
    StatesOf.empty.replayStep .empty replayStep_genesisBlock
  exact hfirst.replayStep (StateOf.of_replay replay_genesisBlock) replayStep_leaseBlock

/-- The owner does not overflow in any of the states. -/
theorem leaseStates_capped : ∀ p ∈ leaseStates, (p.accountPortfolio owner).Capped := by
  have hissues := leaseBlock_issues
  refine List.forall_mem_cons.mpr ⟨?_, List.forall_mem_singleton.mpr ?_⟩
  · refine (StateOf.of_replay replay_genesisBlock).capped (hissues [genesisBlock] ?_) owner
    exact (List.mem_inits _ _).mpr ⟨[leaseBlock], rfl⟩
  · refine (StateOf.of_replay replay_leaseBlock).capped (hissues [genesisBlock, leaseBlock] ?_)
      owner
    exact (List.mem_inits _ _).mpr (List.prefix_refl _)

/-- The states after the lease recount what the owner had. -/
theorem leaseStates_recounted :
    Recounted afterLeaseBlock.1.toStateView leaseStates [genesisBlock, leaseBlock] owner :=
  (leaseStates_of.recounted owner leaseStates_capped).1

/-- At its own height the balance after the lease is the least of the two. -/
theorem leaseStates_least : ∃ balance,
    afterLeaseBlock.1.effectiveBalanceAtHeightWithConfirmations owner 2 1 = .ok balance ∧
      LeastBalance leaseStates owner 2 1 balance := by
  obtain ⟨balance, hbalance, hiff⟩ := StatesOf.leastBalance_iff.2 _ _ _ leaseStates_of
    owner leaseStates_capped 2 1 (by decide) (Nat.le_refl 2)
  refine ⟨balance, hbalance, hiff.mpr ?_⟩
  rintro ⟨h, snapshot, hlater, hsnapshot, -⟩
  exact absurd (leaseStates_recounted.inside hsnapshot) (Nat.not_le.mpr hlater)

/-- At the height before it the lease is seen as well. -/
theorem leaseBlock_seen_before : ∃ balance,
    afterLeaseBlock.1.effectiveBalanceAtHeightWithConfirmations owner 1 0 = .ok balance ∧
      balance < effectiveBalanceAfter leaseStates owner 1 ∧
      ¬ LeastBalance leaseStates owner 1 0 balance := by
  have hless : effectiveBalanceAfter leaseStates owner 2
      < effectiveBalanceAfter leaseStates owner 1 := by
    decide +kernel
  refine ⟨effectiveBalanceAfter leaseStates owner 2, by decide +kernel, hless, ?_⟩
  rintro ⟨⟨h, ⟨hlow, -, hhigh⟩, hreached⟩, -⟩
  rw [Nat.le_antisymm hhigh hlow] at hreached
  rw [hreached] at hless
  exact Int64.lt_irrefl hless

end Sample

end Vsys
