import Vsys.State.Reader

/-!
# Diffs that stack

Laying two diffs over a state one after the other, and laying their combination over it, are the
same when no sum overflows on the way.  A diff *fits* a state when each of its sums is exact there
and leaves amounts that are not negative; over a *sound* state, diffs that fit one after the other
combine into one that fits, and the two views agree.
-/

namespace Vsys

open Lib

/-- A safe sum in the range of words is the sum. -/
theorem toInt_safeSum {x y : Int64} (h : InWord (x.toInt + y.toInt)) :
    (safeSum x y).toInt = x.toInt + y.toInt := by
  rw [safeSum, addExact, if_pos h]
  exact toInt_add_exact h

/-- A sum that does not fit is negative, so one that is not negative is exact. -/
theorem inWord_of_safeSum_nonneg {x y : Int64} (h : 0 ≤ (safeSum x y).toInt) :
    InWord (x.toInt + y.toInt) := by
  by_contra hnot
  rw [safeSum, addExact, if_neg hnot] at h
  exact absurd h (by decide)

/-- A safe sum does not depend on the order of its two parts. -/
theorem safeSum_comm (x y : Int64) : safeSum x y = safeSum y x := by
  rw [safeSum, safeSum, addExact, addExact, Int.add_comm, Int64.add_comm]

/-- A safe sum with zero changes nothing. -/
@[simp]
theorem safeSum_zero (x : Int64) : safeSum x 0 = x := by
  have h : InWord (x.toInt + (0 : Int64).toInt) := by simpa using inWord_toInt x
  rw [← Int64.toInt_inj, toInt_safeSum h]
  simp

/-- A safe sum on zero is the other part. -/
@[simp]
theorem zero_safeSum (x : Int64) : safeSum 0 x = x := by
  rw [safeSum_comm, safeSum_zero]

/-- Safe sums may be grouped either way while every sum is in the range of words. -/
theorem safeSum_assoc {x y z : Int64} (hxy : InWord (x.toInt + y.toInt))
    (hyz : InWord (y.toInt + z.toInt)) (hxyz : InWord (x.toInt + y.toInt + z.toInt)) :
    safeSum (safeSum x y) z = safeSum x (safeSum y z) := by
  have hleft : InWord ((safeSum x y).toInt + z.toInt) := by rwa [toInt_safeSum hxy]
  have hright : InWord (x.toInt + (safeSum y z).toInt) := by
    rwa [toInt_safeSum hyz, ← Int.add_assoc]
  rw [← Int64.toInt_inj, toInt_safeSum hleft, toInt_safeSum hright, toInt_safeSum hxy,
    toInt_safeSum hyz, Int.add_assoc]

/-- `v` can be added to `x` exactly, and leaves an amount that is not negative. -/
def AddsTo (x v : Int64) : Prop := 0 ≤ (safeSum x v).toInt

/-- A change that adds to a balance keeps the sum in the range of words. -/
theorem AddsTo.inWord {x v : Int64} (h : AddsTo x v) : InWord (x.toInt + v.toInt) :=
  inWord_of_safeSum_nonneg h

/-- A change that adds to a balance adds its value. -/
theorem AddsTo.toInt {x v : Int64} (h : AddsTo x v) :
    (safeSum x v).toInt = x.toInt + v.toInt :=
  toInt_safeSum h.inWord

/-- A change adds to a balance exactly if the sum is neither negative nor too large. -/
theorem addsTo_iff {x v : Int64} :
    AddsTo x v ↔ 0 ≤ x.toInt + v.toInt ∧ x.toInt + v.toInt ≤ 9223372036854775807 := by
  constructor
  · intro h
    have hsum := h.toInt
    have hword := h.inWord
    unfold AddsTo at h
    unfold InWord at hword
    omega
  · intro h
    have hword : InWord (x.toInt + v.toInt) := ⟨by omega, h.2⟩
    rw [AddsTo, toInt_safeSum hword]
    exact h.1

/-- Two amounts that can be added one after the other can be added to each other first. -/
theorem AddsTo.inWord_add {x v w : Int64} (hx : 0 ≤ x.toInt) (hv : AddsTo x v)
    (hw : AddsTo (safeSum x v) w) : InWord (v.toInt + w.toInt) := by
  have hxv := hv.toInt
  have hxvw := addsTo_iff.mp hw
  have hword := inWord_toInt x
  unfold InWord at hword ⊢
  omega

/-- Two changes that add one after the other add up in either grouping. -/
theorem AddsTo.assoc {x v w : Int64} (hx : 0 ≤ x.toInt) (hv : AddsTo x v)
    (hw : AddsTo (safeSum x v) w) : safeSum (safeSum x v) w = safeSum x (safeSum v w) := by
  refine safeSum_assoc hv.inWord (hv.inWord_add hx hw) ?_
  rw [← hv.toInt]
  exact hw.inWord

/-- Two changes that add one after the other add when they are merged. -/
theorem AddsTo.trans {x v w : Int64} (hx : 0 ≤ x.toInt) (hv : AddsTo x v)
    (hw : AddsTo (safeSum x v) w) : AddsTo x (safeSum v w) := by
  rw [AddsTo, ← hv.assoc hx hw]
  exact hw

/-- The wrapping sum of two amounts that can be added one after the other is their sum. -/
theorem AddsTo.wrapping {x v w : Int64} (hx : 0 ≤ x.toInt) (hv : AddsTo x v)
    (hw : AddsTo (safeSum x v) w) : v + w = safeSum v w := by
  have hvw := hv.inWord_add hx hw
  rw [← Int64.toInt_inj, toInt_safeSum hvw, toInt_add_exact hvw]

/-- A balance that is added to is not negative afterwards. -/
theorem AddsTo.nonneg {x v : Int64} (h : AddsTo x v) : 0 ≤ (safeSum x v).toInt := h

/-- Three amounts added one after the other can be grouped in any way. -/
theorem AddsTo.assoc_diffs {x u v w : Int64} (hx : 0 ≤ x.toInt) (hu : AddsTo x u)
    (hv : AddsTo (safeSum x u) v) (hw : AddsTo (safeSum (safeSum x u) v) w) :
    safeSum (safeSum u v) w = safeSum u (safeSum v w) := by
  refine safeSum_assoc (hu.inWord_add hx hv) (hv.inWord_add hu.nonneg hw) ?_
  have huv := hu.toInt
  have huvw := hv.toInt
  have hall := addsTo_iff.mp hw
  have hword := inWord_toInt x
  unfold InWord at hword ⊢
  omega

/-- Optional amounts that can be added one after the other can be added merged. -/
theorem AddsTo.merge {x : Int64} {o o' : Option Int64} (hx : 0 ≤ x.toInt)
    (h : ∀ v, o = some v → AddsTo x v)
    (h' : ∀ w, o' = some w → AddsTo (safeSum (o.getD 0) x) w) :
    ∀ v, Option.merge (· + ·) o o' = some v → AddsTo x v := by
  intro v hv
  cases o with
  | none => exact by simpa using h' v (by simpa using hv)
  | some y =>
      cases o' with
      | none => exact h v (by simpa using hv)
      | some z =>
          have hy := h y rfl
          have hz := h' z rfl
          rw [Option.getD_some, safeSum_comm] at hz
          rw [Option.merge_some_some, Option.some.injEq, hy.wrapping hx hz] at hv
          exact hv ▸ hy.trans hx hz

/-- Optional amounts that can be added one after the other have the same sum when they are merged. -/
theorem AddsTo.merge_sum {x : Int64} {o o' : Option Int64} (hx : 0 ≤ x.toInt)
    (h : ∀ v, o = some v → AddsTo x v)
    (h' : ∀ w, o' = some w → AddsTo (safeSum (o.getD 0) x) w) :
    safeSum ((Option.merge (· + ·) o o').getD 0) x
      = safeSum (o'.getD 0) (safeSum (o.getD 0) x) := by
  cases o with
  | none => cases o' <;> simp
  | some y =>
      cases o' with
      | none => simp
      | some z =>
          have hy := h y rfl
          have hz := h' z rfl
          rw [Option.getD_some, safeSum_comm] at hz
          simp only [Option.merge_some_some, Option.getD_some]
          rw [hy.wrapping hx hz, safeSum_comm, ← hy.assoc hx hz, safeSum_comm z, safeSum_comm y]

namespace Portfolio

/-- A portfolio without negative amounts, with no more leased out than owned, and without
assets. -/
structure Sound (p : Portfolio) : Prop where
  balance : 0 ≤ p.balance.toInt
  leaseIn : 0 ≤ p.leaseInfo.leaseIn.toInt
  leaseOut : 0 ≤ p.leaseInfo.leaseOut.toInt
  leaseOut_le : p.leaseInfo.leaseOut.toInt ≤ p.balance.toInt
  assets : p.assets = ∅

/-- A change that adds to a portfolio exactly and leaves a sound one. -/
structure Applies (old diff : Portfolio) : Prop where
  balance : AddsTo old.balance diff.balance
  leaseIn : AddsTo old.leaseInfo.leaseIn diff.leaseInfo.leaseIn
  leaseOut : AddsTo old.leaseInfo.leaseOut diff.leaseInfo.leaseOut
  assets : diff.assets = ∅
  sound : (old.combine diff).Sound

/-- A portfolio and the empty change are the portfolio. -/
@[simp]
theorem combine_empty (p : Portfolio) : p.combine empty = p := by
  apply Portfolio.ext
  · exact safeSum_zero _
  · apply LeaseInfo.ext <;> exact safeSum_zero _
  · exact Dict.mergeWith_empty _ _

/-- The empty portfolio and a change are the change. -/
@[simp]
theorem empty_combine (p : Portfolio) : empty.combine p = p := by
  apply Portfolio.ext
  · exact zero_safeSum _
  · apply LeaseInfo.ext <;> exact zero_safeSum _
  · exact Dict.empty_mergeWith _ _

/-- The empty portfolio is sound. -/
theorem empty_sound : empty.Sound := ⟨le_rfl, le_rfl, le_rfl, le_rfl, rfl⟩

variable {p d e f : Portfolio}

/-- Two changes applied one after the other are their combination applied once. -/
theorem Applies.assoc (hp : p.Sound) (hd : p.Applies d) (he : (p.combine d).Applies e) :
    (p.combine d).combine e = p.combine (d.combine e) := by
  apply Portfolio.ext
  · exact hd.balance.assoc hp.balance he.balance
  · apply LeaseInfo.ext
    · exact hd.leaseIn.assoc hp.leaseIn he.leaseIn
    · exact hd.leaseOut.assoc hp.leaseOut he.leaseOut
  · simp [combine, hd.assets, he.assets]

/-- Two portfolio changes that apply one after the other apply when they are combined. -/
theorem Applies.trans (hp : p.Sound) (hd : p.Applies d) (he : (p.combine d).Applies e) :
    p.Applies (d.combine e) where
  balance := hd.balance.trans hp.balance he.balance
  leaseIn := hd.leaseIn.trans hp.leaseIn he.leaseIn
  leaseOut := hd.leaseOut.trans hp.leaseOut he.leaseOut
  assets := by simp [combine, hd.assets, he.assets]
  sound := by
    rw [← hd.assoc hp he]
    exact he.sound

/-- Three changes applied one after the other combine in any grouping. -/
theorem Applies.assoc_diffs (hp : p.Sound) (hd : p.Applies d) (he : (p.combine d).Applies e)
    (hf : ((p.combine d).combine e).Applies f) :
    (d.combine e).combine f = d.combine (e.combine f) := by
  apply Portfolio.ext
  · exact hd.balance.assoc_diffs hp.balance he.balance hf.balance
  · apply LeaseInfo.ext
    · exact hd.leaseIn.assoc_diffs hp.leaseIn he.leaseIn hf.leaseIn
    · exact hd.leaseOut.assoc_diffs hp.leaseOut he.leaseOut hf.leaseOut
  · simp [combine, hd.assets, he.assets, hf.assets]

end Portfolio

namespace SnapshotsByHeight

/-- A single snapshot is at its height. -/
theorem lastKey_singleton (h : Nat) (snapshot : Snapshot) : (singleton h snapshot).lastKey = h := by
  have hmem : (singleton h snapshot).lastKey ∈ (singleton h snapshot).byHeight.keys :=
    Finset.max'_mem _ _
  have hkeys : (singleton h snapshot).byHeight.keys = {h} := Finmap.keys_singleton _ _
  rwa [hkeys, Finset.mem_singleton] at hmem

/-- Appending later snapshots moves the last key to theirs. -/
theorem lastKey_append {f g : SnapshotsByHeight}
    (h : ∀ i ∈ f.byHeight.keys, ∀ j ∈ g.byHeight.keys, i ≤ j) :
    (f.append g).lastKey = g.lastKey := by
  apply le_antisymm
  · refine Finset.max'_le _ _ _ fun i hi => ?_
    have hlast : g.lastKey ∈ g.byHeight.keys := Finset.max'_mem _ _
    rw [append, Dict.keys_overlay, Finset.mem_union] at hi
    obtain hi | hi := hi
    · exact Finset.le_max' _ _ hi
    · exact h i hi _ hlast
  · refine Finset.max'_subset _ ?_
    rw [append, Dict.keys_overlay]
    exact Finset.subset_union_left

/-- The last snapshot is the one at the last height. -/
theorem lookup_lastKey (f : SnapshotsByHeight) : f.byHeight.lookup f.lastKey = some f.last :=
  (Option.some_get _).symm

/-- A single snapshot is the last one. -/
theorem last_singleton (h : Nat) (snapshot : Snapshot) : (singleton h snapshot).last = snapshot := by
  have hlast := lookup_lastKey (singleton h snapshot)
  rw [lastKey_singleton, singleton, Finmap.lookup_singleton_eq] at hlast
  exact (Option.some.inj hlast).symm

/-- The last of snapshots with later ones behind them is the last of the later ones. -/
theorem last_append {f g : SnapshotsByHeight}
    (h : ∀ i ∈ f.byHeight.keys, ∀ j ∈ g.byHeight.keys, i ≤ j) :
    (f.append g).last = g.last := by
  have hlast := lookup_lastKey (f.append g)
  rw [lastKey_append h] at hlast
  change (Dict.overlay _ _).lookup _ = _ at hlast
  rw [Dict.lookup_overlay, lookup_lastKey] at hlast
  exact (Option.some.inj hlast).symm

end SnapshotsByHeight

variable [Platform]

/-- Transaction diffs combine in any grouping when their portfolios do. -/
theorem Diff.combine_assoc {x y z : Diff}
    (h : ∀ a p q r, x.portfolios.lookup a = some p → y.portfolios.lookup a = some q →
      z.portfolios.lookup a = some r → (p.combine q).combine r = p.combine (q.combine r)) :
    (x.combine y).combine z = x.combine (y.combine z) := by
  apply Diff.ext
  case portfolios => exact Dict.mergeWith_assoc h
  case issuedAssets =>
    refine Dict.mergeWith_assoc fun _ p q r _ _ _ => ?_
    simp [AssetInfo.combine, Bool.and_assoc, Int64.add_assoc]
  case contractTokens => exact Dict.mergeWith_assoc fun _ p q r _ _ _ => Int32.add_assoc p q r
  case tokenAccountBalance =>
    exact Dict.mergeWith_assoc fun _ p q r _ _ _ => Int64.add_assoc p q r
  case orderFills =>
    refine Dict.mergeWith_assoc fun _ p q r _ _ _ => ?_
    simp [OrderFillInfo.combine, Int64.add_assoc]
  case slotNum => exact Int.add_assoc _ _ _
  case txStatus => rfl
  case chargedFee => rfl
  all_goals exact Dict.overlay_assoc _ _ _

/-- Combining with the empty diff first changes nothing. -/
@[simp]
theorem Diff.empty_combine (d : Diff) : Diff.empty.combine d = d := by
  apply Diff.ext
  case slotNum => exact Int.zero_add _
  case txStatus => rfl
  case chargedFee => rfl
  case portfolios => exact Dict.empty_mergeWith _ _
  case issuedAssets => exact Dict.empty_mergeWith _ _
  case contractTokens => exact Dict.empty_mergeWith _ _
  case tokenAccountBalance => exact Dict.empty_mergeWith _ _
  case orderFills => exact Dict.empty_mergeWith _ _
  all_goals exact Dict.empty_overlay _

/-- The empty diff and a block's diff are the block's diff. -/
@[simp]
theorem BlockDiff.empty_combine (d : BlockDiff) : BlockDiff.empty.combine d = d := by
  apply BlockDiff.ext
  · exact Diff.empty_combine _
  · exact Nat.zero_add _
  · exact Dict.empty_mergeWith _ _

/-- A state diffs can be stacked on: sound portfolios and token balances, active leases among its
transactions, and snapshots no newer than the state. -/
structure StateView.Sound (s : StateView) : Prop where
  portfolio : ∀ a, (s.accountPortfolio a).Sound
  portfolios : ∀ a, s.accountPortfolio a = (s.accountPortfolios.lookup a).getD Portfolio.empty
  token : ∀ k, 0 ≤ (s.tokenAccountBalance k).toInt
  lease : ∀ id ∈ s.activeLeases, s.containsTransaction id = true
  lastUpdate : ∀ a h, s.lastUpdateHeight a = some h → h ≤ s.height

/-- The slots a state has an address for. -/
def StateView.Occupies (s : StateView) (slots : Finset Int) : Prop :=
  ∀ i, i ∈ slots ↔ (s.slotAddress i).isSome

/-- A diff whose sums are exact on a state, whose new leases are transactions that are new there,
and whose snapshots are newer than the state. -/
structure BlockDiff.Fits (s : StateView) (d : BlockDiff) : Prop where
  portfolio : ∀ a pf, d.txsDiff.portfolios.lookup a = some pf → (s.accountPortfolio a).Applies pf
  token : ∀ k v, d.txsDiff.tokenAccountBalance.lookup k = some v →
    AddsTo (s.tokenAccountBalance k) v
  leaseNew : ∀ id, d.txsDiff.leaseState.lookup id = some true → s.containsTransaction id = false
  leaseTx : ∀ id, d.txsDiff.leaseState.lookup id = some true →
    (d.txsDiff.transactions.lookup id).isSome
  snapshot : ∀ a f, d.snapshots.lookup a = some f → ∀ h ∈ f.byHeight.keys,
    s.height < h ∧ h ≤ s.height + d.heightDiff
  aliases : d.txsDiff.aliases = ∅

namespace CompositeStateReader

variable {s : StateView} {d d₁ d₂ d₃ : BlockDiff}

/-- A state over a diff is as high as both together. -/
@[simp]
theorem view_height : (view s d).height = s.height + d.heightDiff := rfl

/-- A portfolio over a diff is the one below with the diff's change. -/
@[simp]
theorem view_accountPortfolio (a : Address) :
    (view s d).accountPortfolio a
      = (s.accountPortfolio a).combine ((d.txsDiff.portfolios.lookup a).getD Portfolio.empty) :=
  rfl

/-- A token balance over a diff is the safe sum of the diff's change and the balance below. -/
@[simp]
theorem view_tokenAccountBalance (k : ByteStr) :
    (view s d).tokenAccountBalance k
      = safeSum ((d.txsDiff.tokenAccountBalance.lookup k).getD 0) (s.tokenAccountBalance k) :=
  rfl

/-- The last snapshot over a diff is the diff's last one, or the one below. -/
@[simp]
theorem view_lastUpdateHeight (a : Address) :
    (view s d).lastUpdateHeight a
      = ((d.snapshots.lookup a).map SnapshotsByHeight.lastKey).or (s.lastUpdateHeight a) :=
  rfl

/-- A lease is active over a diff if the diff opens it, or if it is active below and not ended
by the diff. -/
@[simp]
theorem mem_view_activeLeases {id : ByteStr} :
    id ∈ (view s d).activeLeases ↔
      d.txsDiff.leaseState.lookup id = some true ∨
        id ∈ s.activeLeases ∧ (d.txsDiff.leaseState.lookup id).getD true = true := by
  change id ∈ Finset.val _ + Multiset.filter _ _ ↔ _
  rw [Multiset.mem_add, Finset.mem_val, Finset.mem_filter, Multiset.mem_filter]
  constructor
  · rintro (⟨_, h⟩ | h)
    · exact .inl h
    · exact .inr h
  · rintro (h | h)
    · exact .inl ⟨Dict.mem_keys_of_lookup h, h⟩
    · exact .inr h

/-- A transaction is known over a diff if it is in the diff or known below. -/
@[simp]
theorem view_containsTransaction (id : ByteStr) :
    (view s d).containsTransaction id
      = ((d.txsDiff.transactions.lookup id).isSome || s.containsTransaction id) :=
  rfl

/-- A fitting diff opens only leases that are not active. -/
theorem notMem_activeLeases (hs : s.Sound) (hd : d.Fits s) {id : ByteStr}
    (hid : d.txsDiff.leaseState.lookup id = some true) : id ∉ s.activeLeases := by
  intro hmem
  have hold := hs.lease id hmem
  rw [hd.leaseNew id hid] at hold
  cases hold

/-- What a diff that fits leaves is sound. -/
theorem view_sound (hs : s.Sound) (hd : d.Fits s) : (view s d).Sound where
  portfolio := fun a => by
    rw [view_accountPortfolio]
    cases hpf : d.txsDiff.portfolios.lookup a with
    | none => simpa using hs.portfolio a
    | some pf => exact (hd.portfolio a pf hpf).sound
  portfolios := fun a => by
    change _ = ((Dict.mergeWith Portfolio.combine _ _).lookup a).getD Portfolio.empty
    rw [view_accountPortfolio, hs.portfolios, Dict.lookup_mergeWith]
    cases s.accountPortfolios.lookup a <;> cases d.txsDiff.portfolios.lookup a <;> simp
  token := fun k => by
    rw [view_tokenAccountBalance, safeSum_comm]
    cases hv : d.txsDiff.tokenAccountBalance.lookup k with
    | none => simpa using hs.token k
    | some v => exact hd.token k v hv
  lease := fun id hid => by
    rw [view_containsTransaction, Bool.or_eq_true]
    obtain hnew | ⟨hold, _⟩ := mem_view_activeLeases.mp hid
    · exact .inl (hd.leaseTx id hnew)
    · exact .inr (hs.lease id hold)
  lastUpdate := fun a h hh => by
    rw [view_lastUpdateHeight] at hh
    rw [view_height]
    cases hf : d.snapshots.lookup a with
    | none =>
        rw [hf] at hh
        have := hs.lastUpdate a h hh
        omega
    | some f =>
        rw [hf] at hh
        obtain rfl := Option.some.inj hh
        exact (hd.snapshot a f hf f.lastKey (Finset.max'_mem _ _)).2

/-- What a portfolio change that fits after another one starts from. -/
theorem portfolio_applies (h₂ : d₂.Fits (view s d₁)) {a : Address} {pf : Portfolio}
    (hpf : d₂.txsDiff.portfolios.lookup a = some pf) :
    ((s.accountPortfolio a).combine
      ((d₁.txsDiff.portfolios.lookup a).getD Portfolio.empty)).Applies pf :=
  h₂.portfolio a pf hpf

/-- Diffs that fit one after the other combine into one that fits. -/
theorem fits_combine (hs : s.Sound) (h₁ : d₁.Fits s) (h₂ : d₂.Fits (view s d₁)) :
    (d₁.combine d₂).Fits s where
  -- An account that both diffs change: what the two add to its portfolio fits in one sum.
  portfolio := fun a pf hpf => by
    change (Dict.mergeWith Portfolio.combine _ _).lookup a = some pf at hpf
    rw [Dict.lookup_mergeWith] at hpf
    cases hd : d₁.txsDiff.portfolios.lookup a with
    | none =>
        rw [hd, Option.merge_none_left] at hpf
        simpa [hd] using portfolio_applies h₂ hpf
    | some d =>
        cases he : d₂.txsDiff.portfolios.lookup a with
        | none =>
            rw [hd, he, Option.merge_none_right] at hpf
            obtain rfl := Option.some.inj hpf
            exact h₁.portfolio a d hd
        | some e =>
            rw [hd, he, Option.merge_some_some] at hpf
            obtain rfl := Option.some.inj hpf
            have happlies := portfolio_applies h₂ he
            rw [hd, Option.getD_some] at happlies
            exact (h₁.portfolio a d hd).trans (hs.portfolio a) happlies
  token := fun k v hv => by
    change (Dict.mergeWith (· + ·) _ _).lookup k = some v at hv
    rw [Dict.lookup_mergeWith] at hv
    exact AddsTo.merge (hs.token k) (h₁.token k) (h₂.token k) v hv
  leaseNew := fun id hid => by
    change (Dict.overlay _ _).lookup id = some true at hid
    rw [Dict.lookup_overlay, Option.or_eq_some_iff] at hid
    obtain hid | ⟨_, hid⟩ := hid
    · have hnew := h₂.leaseNew id hid
      rw [view_containsTransaction, Bool.or_eq_false_iff] at hnew
      exact hnew.2
    · exact h₁.leaseNew id hid
  leaseTx := fun id hid => by
    change (Dict.overlay _ _).lookup id = some true at hid
    change ((Dict.overlay _ _).lookup id).isSome = true
    rw [Dict.lookup_overlay, Option.or_eq_some_iff] at hid
    rw [Dict.lookup_overlay, Option.isSome_or, Bool.or_eq_true]
    obtain hid | ⟨_, hid⟩ := hid
    · exact .inl (h₂.leaseTx id hid)
    · exact .inr (h₁.leaseTx id hid)
  snapshot := fun a f hf h hh => by
    change (Dict.mergeWith SnapshotsByHeight.append _ _).lookup a = some f at hf
    change _ ∧ h ≤ s.height + (d₁.heightDiff + d₂.heightDiff)
    rw [Dict.lookup_mergeWith] at hf
    have hold := h₁.snapshot a
    have hnew := h₂.snapshot a
    rw [view_height] at hnew
    cases hd : d₁.snapshots.lookup a with
    | none =>
        rw [hd, Option.merge_none_left] at hf
        have := hnew f hf h hh
        omega
    | some g =>
        have hg := hold g hd
        cases he : d₂.snapshots.lookup a with
        | none =>
            rw [hd, he, Option.merge_none_right] at hf
            obtain rfl := Option.some.inj hf
            have := hg h hh
            omega
        | some g' =>
            rw [hd, he, Option.merge_some_some] at hf
            obtain rfl := Option.some.inj hf
            rw [SnapshotsByHeight.append, Dict.keys_overlay, Finset.mem_union] at hh
            obtain hh | hh := hh
            · have := hnew g' he h hh
              omega
            · have := hg h hh
              omega
  aliases := by
    change Dict.overlay _ _ = ∅
    rw [h₁.aliases, h₂.aliases, Dict.overlay_empty]

/-- The portfolios of the stacked views are those of the combined one. -/
theorem accountPortfolios_combine (hs : s.Sound) (h₁ : d₁.Fits s) (h₂ : d₂.Fits (view s d₁)) :
    (view s (d₁.combine d₂)).accountPortfolios = (view (view s d₁) d₂).accountPortfolios := by
  refine (Dict.mergeWith_assoc fun a x y z hx hy hz => ?_).symm
  have hp : s.accountPortfolio a = x := by rw [hs.portfolios, hx, Option.getD_some]
  have happlies := portfolio_applies h₂ hz
  rw [hy, Option.getD_some, hp] at happlies
  exact (hp ▸ h₁.portfolio a y hy).assoc (hp ▸ hs.portfolio a) happlies

/-- Combined diffs give the portfolios of the diffs one over the other. -/
theorem accountPortfolio_combine (hs : s.Sound) (h₁ : d₁.Fits s) (h₂ : d₂.Fits (view s d₁))
    (a : Address) :
    (view s (d₁.combine d₂)).accountPortfolio a = (view (view s d₁) d₂).accountPortfolio a := by
  change _ = (((s.accountPortfolio a).combine _).combine _)
  rw [view_accountPortfolio]
  change Portfolio.combine _ (((Dict.mergeWith Portfolio.combine _ _).lookup a).getD _) = _
  rw [Dict.lookup_mergeWith]
  cases hd : d₁.txsDiff.portfolios.lookup a with
  | none => simp
  | some d =>
      cases he : d₂.txsDiff.portfolios.lookup a with
      | none => simp
      | some e =>
          have happlies := portfolio_applies h₂ he
          rw [hd, Option.getD_some] at happlies
          simpa using ((h₁.portfolio a d hd).assoc (hs.portfolio a) happlies).symm

/-- Combined diffs give the token balances of the diffs one over the other. -/
theorem tokenAccountBalance_combine (hs : s.Sound) (h₁ : d₁.Fits s) (h₂ : d₂.Fits (view s d₁))
    (k : ByteStr) :
    (view s (d₁.combine d₂)).tokenAccountBalance k
      = (view (view s d₁) d₂).tokenAccountBalance k := by
  rw [view_tokenAccountBalance, view_tokenAccountBalance, view_tokenAccountBalance]
  change safeSum (((Dict.mergeWith (· + ·) _ _).lookup k).getD 0) _ = _
  rw [Dict.lookup_mergeWith]
  exact AddsTo.merge_sum (hs.token k) (h₁.token k) (h₂.token k)

/-- What a diff makes of the information about an asset. -/
theorem view_assetInfo (id : ByteStr) :
    (view s d).assetInfo id
      = (fun info => Option.merge AssetInfo.combine info (d.txsDiff.issuedAssets.lookup id))
        <$> s.assetInfo id := by
  have hempty (x : AssetInfo) : AssetInfo.empty.combine x = x := by
    simp [AssetInfo.combine, AssetInfo.empty]
  have hempty' (x : AssetInfo) : x.combine AssetInfo.empty = x := by
    simp [AssetInfo.combine, AssetInfo.empty]
  simp only [view]
  cases s.assetInfo id with
  | error e => rfl
  | ok info =>
      cases info <;> cases d.txsDiff.issuedAssets.lookup id <;>
        simp [Functor.map, Except.map, hempty, hempty']

/-- Combined diffs give the assets of the diffs one over the other. -/
theorem assetInfo_combine (id : ByteStr) :
    (view s (d₁.combine d₂)).assetInfo id = (view (view s d₁) d₂).assetInfo id := by
  have hassoc (x y z : AssetInfo) : (x.combine y).combine z = x.combine (y.combine z) := by
    simp [AssetInfo.combine, Bool.and_assoc, Int64.add_assoc]
  have hmerge (x y z : Option AssetInfo) :
      Option.merge AssetInfo.combine (Option.merge AssetInfo.combine x y) z
        = Option.merge AssetInfo.combine x (Option.merge AssetInfo.combine y z) := by
    cases x <;> cases y <;> cases z <;> simp [hassoc]
  rw [view_assetInfo, view_assetInfo, view_assetInfo]
  change _ <$> s.assetInfo id = _ <$> _ <$> s.assetInfo id
  cases s.assetInfo id with
  | error e => rfl
  | ok info =>
      change Except.ok (Option.merge _ info ((Dict.mergeWith AssetInfo.combine _ _).lookup id)) = _
      rw [Dict.lookup_mergeWith, ← hmerge]
      rfl

/-- A lease that is new after `d₁` was no transaction before it. -/
theorem lease_fresh (h₂ : d₂.Fits (view s d₁)) {id : ByteStr}
    (hid : d₂.txsDiff.leaseState.lookup id = some true) :
    d₁.txsDiff.transactions.lookup id = none ∧ s.containsTransaction id = false := by
  have hnew := h₂.leaseNew id hid
  rw [view_containsTransaction, Bool.or_eq_false_iff, Option.isSome_eq_false_iff,
    Option.isNone_iff_eq_none] at hnew
  exact hnew

/-- Combined diffs give the active leases of the diffs one over the other. -/
theorem activeLeases_combine (hs : s.Sound) (h₁ : d₁.Fits s) (h₂ : d₂.Fits (view s d₁)) :
    (view s (d₁.combine d₂)).activeLeases = (view (view s d₁) d₂).activeLeases := by
  let started (d : Dict ByteStr Bool) := d.keys.filter fun id => d.lookup id = some true
  let kept (d : Dict ByteStr Bool) (id : ByteStr) := (d.lookup id).getD true = true
  let ls₁ := d₁.txsDiff.leaseState
  let ls₂ := d₂.txsDiff.leaseState
  change (started (Dict.overlay ls₁ ls₂)).val
      + s.activeLeases.filter (kept (Dict.overlay ls₁ ls₂))
    = (started ls₂).val + ((started ls₁).val + s.activeLeases.filter (kept ls₁)).filter (kept ls₂)
  -- A lease is started once: what the newer diff starts is in no transaction before it.
  have hdisjoint : Disjoint (started ls₂) ((started ls₁).filter (kept ls₂)) := by
    refine Finset.disjoint_left.mpr fun id hid₂ hid₁ => ?_
    have hnew := (Finset.mem_filter.mp hid₂).2
    have hold := (Finset.mem_filter.mp (Finset.mem_filter.mp hid₁).1).2
    have htx := h₁.leaseTx id hold
    rw [(lease_fresh h₂ hnew).1] at htx
    cases htx
  have hstarted : started (Dict.overlay ls₁ ls₂)
      = (started ls₂).disjUnion ((started ls₁).filter (kept ls₂)) hdisjoint := by
    ext id
    simp only [started, kept, Finset.mem_disjUnion, Finset.mem_filter, Dict.mem_keys_iff_isSome,
      Dict.lookup_overlay]
    cases ls₂.lookup id with
    | none => simp
    | some b => cases b <;> simp
  have hkept : s.activeLeases.filter (kept (Dict.overlay ls₁ ls₂))
      = s.activeLeases.filter fun id => kept ls₂ id ∧ kept ls₁ id := by
    refine Multiset.filter_congr fun id hid => ?_
    simp only [kept, Dict.lookup_overlay]
    cases hb : ls₂.lookup id with
    | none => simp
    | some b =>
        cases b with
        | false => simp
        | true =>
            have hold := hs.lease id hid
            rw [(lease_fresh h₂ hb).2] at hold
            cases hold
  rw [hstarted, hkept, Finset.disjUnion_val, Multiset.filter_add, Multiset.filter_filter, add_assoc]
  rfl

/-- The snapshots of a diff that fits later are all later. -/
theorem snapshots_le (h₁ : d₁.Fits s) (h₂ : d₂.Fits (view s d₁)) {a : Address}
    {f g : SnapshotsByHeight} (hf : d₁.snapshots.lookup a = some f)
    (hg : d₂.snapshots.lookup a = some g) :
    ∀ i ∈ f.byHeight.keys, ∀ j ∈ g.byHeight.keys, i ≤ j := by
  intro i hi j hj
  have hold := h₁.snapshot a f hf i hi
  have hnew := h₂.snapshot a g hg j hj
  rw [view_height] at hnew
  omega

/-- The view of a combination is the view stacked over the view. -/
theorem view_combine (hs : s.Sound) (h₁ : d₁.Fits s) (h₂ : d₂.Fits (view s d₁)) :
    view s (d₁.combine d₂) = view (view s d₁) d₂ := by
  -- Entries of the newer diff hide those of the older one; sums need that the diffs fit, so that
  -- no clamped sum depends on how it is grouped.
  apply StateView.ext
  case accountPortfolios => exact accountPortfolios_combine hs h₁ h₂
  case transactionInfo =>
    funext id
    simp only [view, BlockDiff.combine, Diff.combine, Dict.lookup_overlay]
    cases d₂.txsDiff.transactions.lookup id <;> rfl
  case containsTransaction =>
    funext id
    simp only [view, BlockDiff.combine, Diff.combine, Dict.lookup_overlay, Option.isSome_or,
      Bool.or_assoc]
  case accountPortfolio => exact funext (accountPortfolio_combine hs h₁ h₂)
  case assetInfo => exact funext assetInfo_combine
  case height => exact (Nat.add_assoc _ _ _).symm
  case slotAddress =>
    funext id
    simp only [view, BlockDiff.combine, Diff.combine, Dict.lookup_overlay]
    cases d₂.txsDiff.slotids.lookup id <;> rfl
  case addressSlot =>
    funext add
    simp only [view, BlockDiff.combine, Diff.combine, Dict.lookup_overlay]
    cases d₂.txsDiff.addToSlot.lookup add <;> rfl
  case effectiveSlotAddressSize => exact (Int.add_assoc _ _ _).symm
  case aliasesOfAddress =>
    funext a
    simp [view, BlockDiff.combine, Diff.combine, h₁.aliases, h₂.aliases]
  case resolveAlias =>
    funext a
    simp only [view, BlockDiff.combine, Diff.combine, Dict.lookup_overlay, Option.or_assoc]
  case contractContent =>
    funext id
    simp only [view, BlockDiff.combine, Diff.combine, Dict.lookup_overlay]
    cases d₂.txsDiff.contracts.lookup id <;> rfl
  case contractInfo =>
    funext id
    simp only [view, BlockDiff.combine, Diff.combine, Dict.lookup_overlay]
    cases d₂.txsDiff.contractDB.lookup id <;> rfl
  case contractTokens =>
    funext id
    simp only [view, BlockDiff.combine, Diff.combine, Dict.lookup_mergeWith]
    cases d₁.txsDiff.contractTokens.lookup id <;> cases d₂.txsDiff.contractTokens.lookup id <;>
      simp [Int32.add_assoc]
  case tokenInfo =>
    funext id
    simp only [view, BlockDiff.combine, Diff.combine, Dict.lookup_overlay]
    cases d₂.txsDiff.tokenDB.lookup id <;> rfl
  case tokenAccountBalance => exact funext (tokenAccountBalance_combine hs h₁ h₂)
  case dbGet =>
    funext key
    simp only [view, BlockDiff.combine, Diff.combine, Dict.lookup_overlay]
    cases d₂.txsDiff.dbEntries.lookup key <;> rfl
  case isLeaseActive =>
    funext leaseTx
    simp only [view, BlockDiff.combine, Diff.combine, Dict.lookup_overlay]
    cases d₂.txsDiff.leaseState.lookup (Transaction.lease leaseTx).id <;> rfl
  case activeLeases => exact activeLeases_combine hs h₁ h₂
  case lastUpdateHeight =>
    funext a
    simp only [view, BlockDiff.combine, Dict.lookup_mergeWith]
    cases hf : d₁.snapshots.lookup a with
    | none => simp
    | some f =>
        cases hg : d₂.snapshots.lookup a with
        | none => simp
        | some g => simp [SnapshotsByHeight.lastKey_append (snapshots_le h₁ h₂ hf hg)]
  case lastUpdateWeightedBalance =>
    funext a
    simp only [view, BlockDiff.combine, Dict.lookup_mergeWith]
    cases hf : d₁.snapshots.lookup a with
    | none => simp
    | some f =>
        cases hg : d₂.snapshots.lookup a with
        | none => simp
        | some g => simp [SnapshotsByHeight.last_append (snapshots_le h₁ h₂ hf hg)]
  case snapshotAtHeight =>
    funext a h
    simp only [view, BlockDiff.combine, Dict.lookup_mergeWith]
    cases d₁.snapshots.lookup a with
    | none => simp
    | some f =>
        cases d₂.snapshots.lookup a with
        | none => simp
        | some g => simp [SnapshotsByHeight.append, SnapshotsByHeight.get, Option.or_assoc]
  case filledVolumeAndFee =>
    funext orderId
    simp only [view, BlockDiff.combine, Diff.combine, Dict.lookup_mergeWith]
    cases d₁.txsDiff.orderFills.lookup orderId with
    | none => cases d₂.txsDiff.orderFills.lookup orderId <;>
        simp [OrderFillInfo.combine, OrderFillInfo.empty]
    | some x => cases d₂.txsDiff.orderFills.lookup orderId with
      | none => simp [OrderFillInfo.combine, OrderFillInfo.empty]
      | some y =>
          simp only [OrderFillInfo.combine, Option.merge_some_some, Option.getD_some]
          rw [Int64.add_comm x.volume, Int64.add_assoc, Int64.add_comm x.fee, Int64.add_assoc]

/-- Diffs that fit one after the other combine in any grouping. -/
theorem combine_assoc (hs : s.Sound) (h₁ : d₁.Fits s) (h₂ : d₂.Fits (view s d₁))
    (h₃ : d₃.Fits (view (view s d₁) d₂)) :
    (d₁.combine d₂).combine d₃ = d₁.combine (d₂.combine d₃) := by
  apply BlockDiff.ext
  case txsDiff =>
    refine Diff.combine_assoc fun a p q r hp hq hr => ?_
    have happlies₂ := portfolio_applies h₂ hq
    have happlies₃ := portfolio_applies h₃ hr
    rw [view_accountPortfolio, hp, hq, Option.getD_some, Option.getD_some] at happlies₃
    rw [hp, Option.getD_some] at happlies₂
    exact (h₁.portfolio a p hp).assoc_diffs (hs.portfolio a) happlies₂ happlies₃
  case heightDiff => exact Nat.add_assoc _ _ _
  case snapshots =>
    refine Dict.mergeWith_assoc fun _ p q r _ _ _ => ?_
    apply SnapshotsByHeight.ext
    exact Dict.overlay_assoc _ _ _

/-- The view through the empty diff is the state itself. -/
@[simp]
theorem view_empty (s : StateView) : view s BlockDiff.empty = s := by
  apply StateView.ext
  case accountPortfolios => exact Dict.mergeWith_empty _ _
  case accountPortfolio => exact funext fun a => Portfolio.combine_empty _
  case assetInfo =>
    funext id
    rw [view_assetInfo]
    cases s.assetInfo id with
    | error e => rfl
    | ok info => cases info <;> rfl
  case tokenAccountBalance => exact funext fun k => zero_safeSum _
  case contractTokens => exact funext fun id => Int32.add_zero _
  case activeLeases =>
    change 0 + Multiset.filter (fun _ => true = true) s.activeLeases = s.activeLeases
    simp
  case aliasesOfAddress => exact funext fun a => zero_add _
  case effectiveSlotAddressSize => exact Int.add_zero _
  case filledVolumeAndFee =>
    funext orderId
    simp [view, BlockDiff.empty, Diff.empty, OrderFillInfo.combine, OrderFillInfo.empty]
  all_goals rfl

end CompositeStateReader

end Vsys
