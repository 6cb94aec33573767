import Mathlib.Algebra.Order.BigOperators.Group.List
import Vsys.State.Diff
import Vsys.Matcher.BookRuns

/-!
# Open portfolios

The order history keeps, for each address and asset, what its open orders have reserved.  An order
that is added reserves what it may spend and its part of the matcher's fee; executions and
cancellations give parts of it back.  The parts are rounded one by one, and a cancellation rounds
the fee differently, so the sums stay those of the open orders only where the parts add up.
-/

namespace Vsys.Matcher

open Lib OrderExecuted Transducer OrderBook

/-- `OrderInfo.safeSum`: the sum, or `Long.MaxValue` when it does not fit. -/
def safeSum (x y : Int64) : Int64 := (addExact x y).getD Int64.maxValue

/-- The amounts of an `OpenPortfolio`, by asset. -/
abbrev OpenPortfolio := Dict String Int64

/-- The amount of an asset. -/
def OpenPortfolio.amount (p : OpenPortfolio) (asset : String) : Int64 := (p.lookup asset).getD 0

/-- `orderPortfolioMonoid.combine`. -/
def OpenPortfolio.combine (lhs rhs : OpenPortfolio) : OpenPortfolio :=
  Dict.mergeWith safeSum lhs rhs

section Platform

variable [Platform]

namespace LimitOrder

/-- `spentAsset`. -/
def spentAsset (lo : LimitOrder) : String := assetName lo.order.getSpendAssetId

omit [Platform] in
/-- `feeAsset`. -/
def feeAsset (_ : LimitOrder) : String := AssetPair.VSYSName

omit [Platform] in
/-- `feeAcc == rcvAcc`: the order receives the asset the fee is paid in. -/
def feeIsReceived (lo : LimitOrder) : Bool := lo.order.getReceiveAssetId = none

omit [Platform] in
/-- What remains of a fee when it may be paid from what the order receives. -/
def overdraft (lo : LimitOrder) (fee : Int64) : Int64 :=
  if lo.feeIsReceived then max (fee - lo.getReceiveAmount) 0 else fee

omit [Platform] in
/-- `overdraftFee`. -/
def overdraftFee (lo : LimitOrder) : Int64 := lo.overdraft lo.feeAmount

omit [Platform] in
/-- `feeDiff` of a cancellation. -/
def feeDiff (lo : LimitOrder) : Int64 := lo.overdraft lo.remainingFee

/-- `Monoid.combine` of an amount of the spent asset and one of the fee's asset. -/
def amounts (lo : LimitOrder) (spend fee : Int64) : OpenPortfolio :=
  Dict.mergeWith (· + ·) (Finmap.singleton lo.spentAsset spend) (Finmap.singleton lo.feeAsset fee)

end LimitOrder

/-- `Events.createOpenPortfolio`. -/
def createOpenPortfolio : Event → Dict String OpenPortfolio
  | .orderAdded lo =>
      Finmap.singleton lo.senderAddress.address (lo.amounts lo.getSpendAmount lo.overdraftFee)
  | .orderExecuted s c =>
      let o₁ := s.withAmount (executedAmount s c)
      let o₂ := c.withAmount (executedAmount s c)
      Dict.mergeWith OpenPortfolio.combine
        (Finmap.singleton o₁.senderAddress.address
          (o₁.amounts (-o₁.getSpendAmount) (-o₁.overdraftFee)))
        (Finmap.singleton o₂.senderAddress.address
          (o₂.amounts (-o₂.getSpendAmount) (-o₂.overdraftFee)))
  | .orderCanceled lo =>
      Finmap.singleton lo.senderAddress.address (lo.amounts (-lo.getSpendAmount) (-lo.feeDiff))

omit [Platform] in
/-- The open portfolios that `OrderHistoryStorage` keeps. -/
abbrev OrderHistory := Dict String OpenPortfolio

namespace OrderHistory

/-- `saveOpenPortfolio`. -/
def saveOpenPortfolio (h : OrderHistory) (event : Event) : OrderHistory :=
  Dict.updateWith OpenPortfolio.combine ∅ h (createOpenPortfolio event)

/-- The actor's reaction to an event: `orderAccepted`, `orderExecuted` or `orderCanceled`. -/
def receive (h : OrderHistory) : Event → OrderHistory
  | .orderAdded lo => h.saveOpenPortfolio (.orderAdded lo)
  | .orderExecuted s c =>
      (h.saveOpenPortfolio (.orderAdded (s.withAmount (executedAmount s c)))).saveOpenPortfolio
        (.orderExecuted s c)
  | .orderCanceled lo => h.saveOpenPortfolio (.orderCanceled lo)

omit [Platform] in
/-- `openPortfolio`. -/
def openPortfolio (h : OrderHistory) (address : String) : OpenPortfolio := (h.lookup address).getD ∅

end OrderHistory

end Platform

section Amounts

variable {x y : Int64}

/-- A safe sum in the range of words is the sum. -/
theorem toInt_safeSum (h : InWord (x.toInt + y.toInt)) :
    (safeSum x y).toInt = x.toInt + y.toInt := by
  rw [safeSum, addExact, if_pos h, Option.getD_some, toInt_add_exact h]

/-- A safe sum with zero changes nothing. -/
theorem safeSum_zero (x : Int64) : safeSum x 0 = x := by
  have hzero : (0 : Int64).toInt = 0 := rfl
  rw [← Int64.toInt_inj, toInt_safeSum (by rw [hzero, Int.add_zero]; exact inWord_toInt x), hzero,
    Int.add_zero]

/-- A safe sum on zero is the other part. -/
theorem zero_safeSum (y : Int64) : safeSum 0 y = y := by
  have hzero : (0 : Int64).toInt = 0 := rfl
  rw [← Int64.toInt_inj, toInt_safeSum (by rw [hzero, Int.zero_add]; exact inWord_toInt y), hzero,
    Int.zero_add]

/-- An empty portfolio has nothing of any asset. -/
@[simp]
theorem amount_empty (asset : String) : OpenPortfolio.amount ∅ asset = 0 := rfl

/-- Combined portfolios have of each asset the safe sum of what they have. -/
theorem amount_combine (p q : OpenPortfolio) (asset : String) :
    (p.combine q).amount asset = safeSum (p.amount asset) (q.amount asset) := by
  unfold OpenPortfolio.amount OpenPortfolio.combine
  rw [Dict.lookup_mergeWith]
  cases p.lookup asset with
  | none =>
      cases q.lookup asset with
      | none => exact (safeSum_zero 0).symm
      | some y => exact (zero_safeSum y).symm
  | some x =>
      cases q.lookup asset with
      | none => exact (safeSum_zero x).symm
      | some y => rfl

end Amounts

section Platform

variable [Platform]

namespace LimitOrder

variable {lo : LimitOrder} {asset : String} {spend fee : Int64}

/-- The portfolio of an order has what is spent and what is paid as a fee, added up where both
are of one asset. -/
theorem amount_amounts (lo : LimitOrder) (spend fee : Int64) (asset : String) :
    (lo.amounts spend fee).amount asset =
      (if asset = lo.spentAsset then spend else 0) + (if asset = lo.feeAsset then fee else 0) := by
  unfold OpenPortfolio.amount amounts
  rw [Dict.lookup_mergeWith, Dict.lookup_singleton, Dict.lookup_singleton]
  split <;> split <;> simp [Option.merge]

/-- What two amounts of an order come to at an asset. -/
def parts (lo : LimitOrder) (spend fee : Int64) (asset : String) : Int :=
  (if asset = lo.spentAsset then spend.toInt else 0) +
    (if asset = lo.feeAsset then fee.toInt else 0)

/-- What an order reserves: what it spends, and a share of the fee. -/
def reserve (share : LimitOrder → Int64) (lo : LimitOrder) (asset : String) : Int :=
  lo.parts lo.getSpendAmount (lo.overdraft (share lo)) asset

/-- The assets an order has to do with. -/
def assets (lo : LimitOrder) : List String := [lo.spentAsset, lo.feeAsset]

/-- An order reserves nothing of an asset it neither spends nor pays the fee in. -/
theorem parts_of_notMem (h : asset ∉ lo.assets) : lo.parts spend fee asset = 0 := by
  simp only [assets, List.mem_cons, List.not_mem_nil, or_false, not_or] at h
  rw [parts, if_neg h.1, if_neg h.2]
  rfl

/-- The portfolio of an order has its parts of an asset if their sum is a word. -/
theorem toInt_amounts (h : InWord (lo.parts spend fee asset)) :
    ((lo.amounts spend fee).amount asset).toInt = lo.parts spend fee asset := by
  have hzero : (0 : Int64).toInt = 0 := rfl
  rw [amount_amounts]
  unfold parts at h ⊢
  rw [toInt_add_exact]
  · split <;> split <;> simp [hzero]
  · split at h <;> split at h <;> simp_all

/-- Amounts that are given back. -/
theorem toInt_amounts_neg (h : InWord (lo.parts spend fee asset))
    (hneg : InWord (-lo.parts spend fee asset)) :
    ((lo.amounts (-spend) (-fee)).amount asset).toInt = -lo.parts spend fee asset := by
  have hamounts := toInt_amounts h
  have hopposite : (lo.amounts (-spend) (-fee)).amount asset =
      -(lo.amounts spend fee).amount asset := by
    rw [amount_amounts, amount_amounts, Int64.neg_add]
    split <;> split <;> simp [Int64.sub_eq_add_neg]
  rw [hopposite, toInt_neg_exact, hamounts]
  rw [hamounts]
  exact hneg

omit [Platform] in
/-- An exact value, or the largest one, is not negative where the integer is not. -/
theorem longValueExact_getD_nonneg {n : Int} (h : 0 ≤ n) :
    0 ≤ ((longValueExact n).getD Int64.maxValue).toInt := by
  cases hn : longValueExact n with
  | none => decide
  | some x =>
      rw [Option.getD_some, longValueExact_eq_some.mp hn]
      exact h

omit [Platform] in
/-- The amounts of a sound order are not negative. -/
theorem Sound.amounts_nonneg (h : lo.Sound) :
    0 ≤ lo.getSpendAmount.toInt ∧ 0 ≤ lo.getReceiveAmount.toInt := by
  have hamount : 0 ≤ lo.amount.toInt := Int.le_of_lt (Int64.lt_iff_toInt_lt.mp h.amount_pos)
  have hquoted := Order.quoted_nonneg h.price_pos h.amount_pos
  constructor
  · unfold getSpendAmount
    cases lo.side with
    | buy => exact longValueExact_getD_nonneg hquoted
    | sell => exact hamount
  · unfold getReceiveAmount
    cases lo.side with
    | buy => exact hamount
    | sell => exact longValueExact_getD_nonneg hquoted

omit [Platform] in
/-- A share of a sound order's fee is computed without an error, and is a part of it. -/
theorem Sound.feeShare_bounds (h : lo.Sound) {part : Int64} (hpart : 0 ≤ part.toInt)
    (hle : part.toInt ≤ lo.order.amount.toInt) :
    ∃ share, feeShare lo.order part = some share ∧ 0 ≤ share.toInt ∧
      share.toInt ≤ lo.order.matcherFee.toInt := by
  have hfee : 0 ≤ lo.order.matcherFee.toInt := Int.le_of_lt (Int64.lt_iff_toInt_lt.mp h.fee_pos)
  have hwhole : 0 < lo.order.amount.toInt := by
    have hamount := Int64.lt_iff_toInt_lt.mp h.amount_pos
    exact Int.lt_of_lt_of_le hamount (Int64.le_iff_toInt_le.mp h.amount_le)
  have hne : lo.order.amount ≠ 0 := by
    intro hzero
    rw [hzero] at hwhole
    exact Int.lt_irrefl 0 hwhole
  have hnonneg : 0 ≤ (part.toInt * lo.order.matcherFee.toInt).tdiv lo.order.amount.toInt :=
    Int.tdiv_nonneg (Int.mul_nonneg hpart hfee) (Int.le_of_lt hwhole)
  have hbound : (part.toInt * lo.order.matcherFee.toInt).tdiv lo.order.amount.toInt
      ≤ lo.order.matcherFee.toInt := by
    rw [Int.tdiv_eq_ediv_of_nonneg (Int.mul_nonneg hpart hfee)]
    refine Int.le_trans (Int.ediv_le_ediv hwhole (Int.mul_le_mul_of_nonneg_right hle hfee)) ?_
    rw [Int.mul_ediv_cancel_left _ (Int.ne_of_gt hwhole)]
  have hword : InWord ((part.toInt * lo.order.matcherFee.toInt).tdiv lo.order.amount.toInt) := by
    have := inWord_toInt lo.order.matcherFee
    unfold InWord at this ⊢
    omega
  refine ⟨.ofInt ((part.toInt * lo.order.matcherFee.toInt).tdiv lo.order.amount.toInt), ?_, ?_⟩
  · rw [feeShare, if_neg hne, longValueExact_eq_some]
    exact toInt_ofInt_inWord hword
  · rw [toInt_ofInt_inWord hword]
    exact ⟨hnonneg, hbound⟩

omit [Platform] in
/-- Neither of the two ways to compute what remains of a sound order's fee gives less than
nothing. -/
theorem Sound.share_nonneg (h : lo.Sound) {share : LimitOrder → Int64}
    (hshare : share = feeAmount ∨ share = remainingFee) : 0 ≤ (share lo).toInt := by
  have hamount := Int64.lt_iff_toInt_lt.mp h.amount_pos
  have hle := Int64.le_iff_toInt_le.mp h.amount_le
  have hzero : (0 : Int64).toInt = 0 := rfl
  rcases hshare with rfl | rfl
  · obtain ⟨share, hshare, hnonneg, -⟩ := h.feeShare_bounds (by omega) hle
    rw [feeAmount, hshare]
    exact hnonneg
  · have hremaining : lo.remainingAmount.toInt = lo.order.amount.toInt - lo.amount.toInt := by
      apply toInt_sub_exact
      have := inWord_toInt lo.order.amount
      unfold InWord at this ⊢
      omega
    have hleft : 0 ≤ lo.remainingAmount.toInt := by omega
    obtain ⟨share, hshare, hnonneg, hbound⟩ := h.feeShare_bounds hleft (by omega)
    have hword := inWord_toInt lo.order.matcherFee
    rw [remainingFee, hshare, Option.getD_some, toInt_sub_exact]
    · omega
    · unfold InWord at hword ⊢
      omega

omit [Platform] in
/-- What a fee takes beyond the received amount is not negative. -/
theorem overdraft_nonneg (h : 0 ≤ fee.toInt) : 0 ≤ (lo.overdraft fee).toInt := by
  unfold overdraft
  split
  · rw [toInt_max]
    exact le_max_right _ _
  · exact h

/-- The parts of an order are not negative if its amounts are not. -/
theorem parts_nonneg (hspend : 0 ≤ spend.toInt) (hfee : 0 ≤ fee.toInt) :
    0 ≤ lo.parts spend fee asset := by
  unfold parts
  split <;> split <;> omega

/-- What a sound order reserves is not negative. -/
theorem Sound.reserve_nonneg (h : lo.Sound) {share : LimitOrder → Int64}
    (hshare : share = feeAmount ∨ share = remainingFee) (asset : String) :
    0 ≤ lo.reserve share asset :=
  parts_nonneg h.amounts_nonneg.1 (overdraft_nonneg (h.share_nonneg hshare))

omit [Platform] in
/-- The executed parts of two sound orders are sound. -/
theorem Sound.executed {s c : LimitOrder} (hs : s.Sound) (hc : c.Sound) :
    (s.withAmount (executedAmount s c)).Sound ∧ (c.withAmount (executedAmount s c)).Sound := by
  have hs' := Int64.lt_iff_toInt_lt.mp hs.amount_pos
  have hc' := Int64.lt_iff_toInt_lt.mp hc.amount_pos
  have hsle := Int64.le_iff_toInt_le.mp hs.amount_le
  have hcle := Int64.le_iff_toInt_le.mp hc.amount_le
  have hmin : (executedAmount s c).toInt = min s.amount.toInt c.amount.toInt := toInt_min _ _
  have hpos : 0 < executedAmount s c := by
    rw [Int64.lt_iff_toInt_lt, hmin]
    exact lt_min hs' hc'
  refine ⟨⟨hs.side_eq, hs.price_eq, hpos, ?_, hs.price_pos, hs.fee_pos⟩,
    ⟨hc.side_eq, hc.price_eq, hpos, ?_, hc.price_pos, hc.fee_pos⟩⟩
  · rw [Int64.le_iff_toInt_le]
    change (executedAmount s c).toInt ≤ s.order.amount.toInt
    omega
  · rw [Int64.le_iff_toInt_le]
    change (executedAmount s c).toInt ≤ c.order.amount.toInt
    omega

end LimitOrder

namespace OrderBook

variable {ob : OrderBook} {lo s c : LimitOrder} {t : OrderType} {f : LimitOrder → Int}

omit [Platform] in
/-- A sum over the resting orders is not negative if none of its terms is. -/
theorem total_nonneg (h : ∀ t, ∀ lo ∈ ob.resting t, 0 ≤ f lo) : 0 ≤ ob.total f := by
  refine Int.add_nonneg ?_ ?_
  · exact List.sum_nonneg (by simpa using h .buy)
  · exact List.sum_nonneg (by simpa using h .sell)

omit [Platform] in
/-- One order's quantity is at most the total of all. -/
theorem le_total (h : ∀ t, ∀ lo ∈ ob.resting t, 0 ≤ f lo) (hlo : lo ∈ ob.resting t) :
    f lo ≤ ob.total f := by
  have hside : f lo ≤ ob.sideTotal f t :=
    List.single_le_sum (by simpa using h t) _ (List.mem_map_of_mem hlo)
  have hother : 0 ≤ ob.sideTotal f t.reverse := List.sum_nonneg (by simpa using h t.reverse)
  rw [total_eq ob f t]
  omega

/-- A cancellation that meets no other equal order takes out its own, if that rests. -/
theorem total_canceled (h : ob.WellFormed) (he : ob.Enabled (.orderCanceled lo))
    (halone : ob.CancelsAlone (.orderCanceled lo)) (f : LimitOrder → Int) :
    (applyEvent ob (.orderCanceled lo)).1.total f +
      (if lo ∈ ob.queue lo.side lo.price then f lo else 0) = ob.total f := by
  rw [applyEvent_of_ok (updateState_canceled ob lo), total_eq _ f lo.side, total_eq ob f lo.side,
    sideTotal_withLevels_reverse]
  cases hget : (ob.levels lo.side).get lo.price with
  | none =>
      have hqueue : ob.queue lo.side lo.price = [] := by
        rw [queue, Levels.queue, hget]
        rfl
      rw [Levels.cancel_of_get_none hget, hqueue, if_neg List.not_mem_nil]
      simp only [sideTotal, resting, levels_withLevels]
      omega
  | some q =>
      have hqueue : ob.queue lo.side lo.price = q := Levels.queue_of_get hget
      obtain ⟨pre, post, horders, hreplace⟩ := Levels.orders_replace hget
      have hresting : ob.resting lo.side = pre ++ q ++ post := horders
      -- The source removes every order that equals the canceled one; here that is this one alone.
      have hfilter : (q.filter fun x => !x.equals lo) = q.filter fun x => x != lo := by
        apply List.filter_congr
        intro x hx
        have hid := halone x (by rw [hqueue]; exact hx)
        have hsame := he lo.side x (by rw [hresting]; simp [hx])
        by_cases hxlo : x = lo
        · simp [hxlo]
        · have hne : x.equals lo = false :=
            Bool.eq_false_iff.mpr fun hequals => hxlo (hsame (hid hequals))
          simp [hne, hxlo]
      have hnodup : q.Nodup := by
        have hids : (ob.ids lo.side).Nodup := by
          cases lo.side with
          | buy => exact (List.nodup_append.mp h.distinct).1
          | sell => exact (List.nodup_append.mp h.distinct).2.1
        have hall := List.Nodup.of_map _ hids
        rw [hresting] at hall
        exact (List.nodup_append.mp (List.nodup_append.mp hall).1).2.1
      have hsum : ((q.filter fun x => x != lo).map f).sum + (if lo ∈ q then f lo else 0)
          = (q.map f).sum := by
        split
        · rename_i hmem
          have hsum := List.sum_map_erase f hmem
          rw [hnodup.erase_eq_filter lo] at hsum
          rw [Int.add_comm, hsum]
        · rename_i hmem
          rw [List.filter_eq_self.mpr]
          · omega
          · intro x hx
            exact bne_iff_ne.mpr fun heq => hmem (heq ▸ hx)
      rw [Levels.cancel_of_get hget, hqueue]
      simp only [sideTotal, resting, levels_withLevels, horders, hreplace, List.map_append,
        List.sum_append, hfilter]
      omega

end OrderBook

namespace OrderHistory

open LimitOrder (feeAmount remainingFee)

variable {ob : OrderBook} {h : OrderHistory} {lo s c : LimitOrder} {address asset : String}

/-- What an event adds for an address at an asset. -/
def created (e : Event) (address asset : String) : Int64 :=
  (((createOpenPortfolio e).lookup address).getD ∅).amount asset

/-- Saving an event adds to a portfolio what the event creates. -/
theorem amount_save (h : OrderHistory) (e : Event) (address asset : String) :
    ((h.saveOpenPortfolio e).openPortfolio address).amount asset =
      safeSum ((h.openPortfolio address).amount asset) (created e address asset) := by
  unfold openPortfolio saveOpenPortfolio created
  rw [Dict.lookup_updateWith]
  cases (createOpenPortfolio e).lookup address with
  | none => exact (safeSum_zero _).symm
  | some op => exact amount_combine _ _ _

/-- An added order creates its reservation at its sender. -/
theorem created_added (lo : LimitOrder) (address asset : String) :
    created (.orderAdded lo) address asset =
      if address = lo.senderAddress.address then
        (lo.amounts lo.getSpendAmount lo.overdraftFee).amount asset
      else 0 := by
  rw [created, createOpenPortfolio, Dict.lookup_singleton]
  split <;> rfl

/-- A cancelled order takes back its reservation at its sender. -/
theorem created_canceled (lo : LimitOrder) (address asset : String) :
    created (.orderCanceled lo) address asset =
      if address = lo.senderAddress.address then
        (lo.amounts (-lo.getSpendAmount) (-lo.feeDiff)).amount asset
      else 0 := by
  rw [created, createOpenPortfolio, Dict.lookup_singleton]
  split <;> rfl

/-- Where one account is on both sides, what it gets back adds up. -/
theorem created_executed (s c : LimitOrder) (address asset : String) :
    created (.orderExecuted s c) address asset =
      safeSum
        (if address = s.senderAddress.address then
          ((s.withAmount (executedAmount s c)).amounts
            (-(s.withAmount (executedAmount s c)).getSpendAmount)
            (-(s.withAmount (executedAmount s c)).overdraftFee)).amount asset
        else 0)
        (if address = c.senderAddress.address then
          ((c.withAmount (executedAmount s c)).amounts
            (-(c.withAmount (executedAmount s c)).getSpendAmount)
            (-(c.withAmount (executedAmount s c)).overdraftFee)).amount asset
        else 0) := by
  have hs : (s.withAmount (executedAmount s c)).senderAddress = s.senderAddress := rfl
  have hc : (c.withAmount (executedAmount s c)).senderAddress = c.senderAddress := rfl
  rw [created, createOpenPortfolio, Dict.lookup_mergeWith, Dict.lookup_singleton,
    Dict.lookup_singleton, hs, hc]
  split
  · split
    · exact amount_combine _ _ _
    · exact (safeSum_zero _).symm
  · split
    · exact (zero_safeSum _).symm
    · exact (safeSum_zero 0).symm

/-- What an order reserves for an address. -/
def reservedBy (share : LimitOrder → Int64) (address asset : String) (lo : LimitOrder) : Int :=
  if address = lo.senderAddress.address then lo.reserve share asset else 0

/-- What the open orders of an address reserve. -/
def reserved (share : LimitOrder → Int64) (ob : OrderBook) (address asset : String) : Int :=
  ob.total (reservedBy share address asset)

/-- The open portfolios are what the open orders reserve. -/
def Mirrors (share : LimitOrder → Int64) (ob : OrderBook) (h : OrderHistory) : Prop :=
  ∀ address asset,
    ((h.openPortfolio address).amount asset).toInt = reserved share ob address asset

/-- An event whose rounded parts add up, without an overflow.  What is added is what the order is
to reserve; an execution splits what the counter order reserved; a cancellation takes out one order
alone and gives back what it reserved, or nothing for an order that never rested. -/
def AddsUp (share : LimitOrder → Int64) (ob : OrderBook) : Event → Prop
  | .orderAdded lo => ∀ asset ∈ lo.assets, lo.reserve feeAmount asset = lo.reserve share asset ∧
      InWord (reserved share ob lo.senderAddress.address asset + lo.reserve feeAmount asset)
  | .orderExecuted s c =>
      (∀ asset ∈ s.assets, InWord (reserved share ob s.senderAddress.address asset +
        (s.withAmount (executedAmount s c)).reserve feeAmount asset)) ∧
      ∀ asset ∈ c.assets, c.reserve share asset =
        (c.withAmount (executedAmount s c)).reserve feeAmount asset +
          if 0 < counterRemaining s c then
            (c.withAmount (counterRemaining s c)).reserve share asset else 0
  | .orderCanceled lo => ob.CancelsAlone (.orderCanceled lo) ∧
      ∀ asset ∈ lo.assets, lo.reserve remainingFee asset =
        if lo ∈ ob.queue lo.side lo.price then lo.reserve share asset else 0

instance (share : LimitOrder → Int64) (ob : OrderBook) : (e : Event) → Decidable (AddsUp share ob e)
  | .orderAdded lo => inferInstanceAs (Decidable (∀ asset ∈ lo.assets,
      lo.reserve feeAmount asset = _ ∧ InWord _))
  | .orderExecuted s c => inferInstanceAs (Decidable ((∀ asset ∈ s.assets, InWord _) ∧
      ∀ asset ∈ c.assets, c.reserve share asset = _))
  | .orderCanceled lo => inferInstanceAs (Decidable (ob.CancelsAlone (.orderCanceled lo) ∧
      ∀ asset ∈ lo.assets, lo.reserve remainingFee asset = _))

omit [Platform] in
/-- A sum that fits has a part that does, also with the other sign, where none is negative. -/
theorem inWord_of_add {x y : Int} (hx : 0 ≤ x) (hy : 0 ≤ y) (h : InWord (x + y)) :
    InWord y ∧ InWord (-y) := by
  unfold InWord at h ⊢
  omega

section Share

variable {share : LimitOrder → Int64} (hshare : share = feeAmount ∨ share = remainingFee)

include hshare in
/-- A sound order reserves no negative amount. -/
theorem reservedBy_nonneg (hlo : lo.Sound) (address asset : String) :
    0 ≤ reservedBy share address asset lo := by
  unfold reservedBy
  split
  · exact hlo.reserve_nonneg hshare asset
  · exact Int.le_refl 0

include hshare in
/-- The orders of a well-formed book reserve no negative amount. -/
theorem reserved_nonneg (hob : ob.WellFormed) (address asset : String) :
    0 ≤ reserved share ob address asset :=
  total_nonneg fun t lo hlo => reservedBy_nonneg hshare (hob.sound t lo hlo) address asset

include hshare in
/-- What a resting order reserves is a part of the whole. -/
theorem reservedBy_le (hob : ob.WellFormed) {t : OrderType} (hlo : lo ∈ ob.resting t)
    (address asset : String) :
    reservedBy share address asset lo ≤ reserved share ob address asset :=
  le_total (fun t x hx => reservedBy_nonneg hshare (hob.sound t x hx) address asset) hlo

/-- An amount up to what is reserved fits, also with the other sign. -/
theorem inWord_of_le_reserved (hm : Mirrors share ob h) {n : Int} (hn : 0 ≤ n)
    (hle : n ≤ reserved share ob address asset) : InWord n ∧ InWord (-n) := by
  have hword := inWord_toInt ((h.openPortfolio address).amount asset)
  rw [hm address asset] at hword
  unfold InWord at hword ⊢
  omega

/-- A reservation that fits at the order's assets fits at all. -/
theorem inWord_reserved (hm : Mirrors share ob h)
    (hfits : ∀ asset ∈ lo.assets,
      InWord (reserved share ob address asset + lo.reserve feeAmount asset))
    (asset : String) : InWord (reserved share ob address asset + lo.reserve feeAmount asset) := by
  by_cases hmem : asset ∈ lo.assets
  · exact hfits asset hmem
  · rw [LimitOrder.reserve, LimitOrder.parts_of_notMem hmem, Int.add_zero, ← hm address asset]
    exact inWord_toInt _

include hshare in
/-- What an added order reserves is added. -/
theorem toInt_added (hob : ob.WellFormed) (hm : Mirrors share ob h) (hlo : lo.Sound)
    (hfits : ∀ asset ∈ lo.assets,
      InWord (reserved share ob lo.senderAddress.address asset + lo.reserve feeAmount asset))
    (address asset : String) :
    (((h.saveOpenPortfolio (.orderAdded lo)).openPortfolio address).amount asset).toInt =
      reserved share ob address asset + reservedBy feeAmount address asset lo := by
  rw [amount_save, created_added]
  unfold reservedBy
  split
  · rename_i haddress
    subst haddress
    have hword := inWord_reserved hm hfits asset
    obtain ⟨hparts, -⟩ := inWord_of_add (reserved_nonneg hshare hob _ asset)
      (hlo.reserve_nonneg (.inl rfl) asset) hword
    have hamounts := LimitOrder.toInt_amounts hparts
    rw [toInt_safeSum, hm]
    · exact congrArg₂ (· + ·) rfl hamounts
    · rw [hm]
      exact (congrArg InWord (congrArg₂ (· + ·) rfl hamounts)).mpr hword
  · rw [safeSum_zero, hm, Int.add_zero]

include hshare in
/-- An added order reserves what it is to reserve. -/
theorem mirrors_added (hob : ob.WellFormed) (hm : Mirrors share ob h) (hlo : lo.Sound)
    (hadds : AddsUp share ob (.orderAdded lo)) :
    Mirrors share (applyEvent ob (.orderAdded lo)).1 (h.receive (.orderAdded lo)) := by
  intro address asset
  have hafter : reserved share (applyEvent ob (.orderAdded lo)).1 address asset =
      reserved share ob address asset + reservedBy share address asset lo := total_added ob _ lo
  have hsame : reservedBy feeAmount address asset lo = reservedBy share address asset lo := by
    unfold reservedBy
    by_cases hmem : asset ∈ lo.assets
    · rw [(hadds asset hmem).1]
    · rw [LimitOrder.reserve, LimitOrder.reserve, LimitOrder.parts_of_notMem hmem,
        LimitOrder.parts_of_notMem hmem]
  rw [hafter, ← hsame]
  exact toInt_added hshare hob hm hlo (fun asset hmem => (hadds asset hmem).2) address asset

include hshare in
/-- A cancellation gives back what its order reserved. -/
theorem mirrors_canceled (hob : ob.WellFormed) (hm : Mirrors share ob h)
    (he : ob.Enabled (.orderCanceled lo)) (hadds : AddsUp share ob (.orderCanceled lo)) :
    Mirrors share (applyEvent ob (.orderCanceled lo)).1 (h.receive (.orderCanceled lo)) := by
  intro address asset
  obtain ⟨halone, hreleased⟩ := hadds
  have hafter : reserved share (applyEvent ob (.orderCanceled lo)).1 address asset +
      (if lo ∈ ob.queue lo.side lo.price then reservedBy share address asset lo else 0) =
        reserved share ob address asset := total_canceled hob he halone _
  change ((OrderHistory.openPortfolio _ address).amount asset).toInt = _
  rw [receive, amount_save, created_canceled]
  by_cases haddress : address = lo.senderAddress.address
  -- What the source gives back for an order that rests is what was reserved for it.
  · have hparts : lo.parts lo.getSpendAmount lo.feeDiff asset =
        if lo ∈ ob.queue lo.side lo.price then lo.reserve share asset else 0 := by
      by_cases hmem : asset ∈ lo.assets
      · exact hreleased asset hmem
      · rw [LimitOrder.parts_of_notMem hmem, LimitOrder.reserve, LimitOrder.parts_of_notMem hmem,
          ite_self]
    have hbounds : 0 ≤ lo.parts lo.getSpendAmount lo.feeDiff asset ∧
        lo.parts lo.getSpendAmount lo.feeDiff asset ≤ reserved share ob address asset := by
      rw [hparts]
      split
      · rename_i hqueue
        have hresting : lo ∈ ob.resting lo.side := mem_resting_iff.mpr ⟨_, hqueue⟩
        have hle := reservedBy_le hshare hob hresting address asset
        rw [reservedBy, if_pos haddress] at hle
        exact ⟨(hob.sound _ lo hresting).reserve_nonneg hshare asset, hle⟩
      · exact ⟨Int.le_refl 0, reserved_nonneg hshare hob address asset⟩
    obtain ⟨hword, hneg⟩ := inWord_of_le_reserved hm hbounds.1 hbounds.2
    have hgiven := LimitOrder.toInt_amounts_neg hword hneg
    have hrest : reserved share ob address asset + -lo.parts lo.getSpendAmount lo.feeDiff asset
        ≤ reserved share ob address asset := by omega
    rw [if_pos haddress, toInt_safeSum, hm, hgiven, hparts]
    · simp only [reservedBy, if_pos haddress] at hafter
      omega
    · rw [hm, hgiven]
      exact (inWord_of_le_reserved hm (by omega) hrest).1
  · rw [if_neg haddress, safeSum_zero, hm]
    simp only [reservedBy, if_neg haddress, ite_self] at hafter
    omega

/-- A partial execution splits what its counter order reserves. -/
theorem reservedBy_counter (hadds : AddsUp share ob (.orderExecuted s c))
    (address asset : String) :
    reservedBy share address asset c =
      reservedBy feeAmount address asset (c.withAmount (executedAmount s c)) +
        if 0 < counterRemaining s c then
          reservedBy share address asset (c.withAmount (counterRemaining s c)) else 0 := by
  have hsender (amount : Int64) : (c.withAmount amount).senderAddress = c.senderAddress := rfl
  unfold reservedBy
  rw [hsender, hsender]
  by_cases haddress : address = c.senderAddress.address
  · simp only [if_pos haddress]
    by_cases hmem : asset ∈ c.assets
    · exact hadds.2 asset hmem
    · have hzero (share : LimitOrder → Int64) (amount : Int64) :
          (c.withAmount amount).reserve share asset = 0 := LimitOrder.parts_of_notMem hmem
      rw [hzero, hzero, ite_self]
      exact LimitOrder.parts_of_notMem hmem
  · simp only [if_neg haddress, ite_self]
    rfl

/-- What one order of an execution gives back to an address. -/
theorem toInt_given (hword : InWord (reservedBy feeAmount address asset lo))
    (hneg : InWord (-reservedBy feeAmount address asset lo)) :
    (if address = lo.senderAddress.address then
      (lo.amounts (-lo.getSpendAmount) (-lo.overdraftFee)).amount asset else 0 : Int64).toInt =
        -reservedBy feeAmount address asset lo := by
  unfold reservedBy at hword hneg ⊢
  split at hword
  · rename_i haddress
    simp only [if_pos haddress] at hneg ⊢
    exact LimitOrder.toInt_amounts_neg hword hneg
  · rename_i haddress
    simp only [if_neg haddress]
    rfl

include hshare in
/-- An execution gives back what its submitted part has just reserved, and what the counter order
reserved for its part. -/
theorem mirrors_executed (hob : ob.WellFormed) (hm : Mirrors share ob h)
    (he : ob.Enabled (.orderExecuted s c)) (hadds : AddsUp share ob (.orderExecuted s c)) :
    Mirrors share (applyEvent ob (.orderExecuted s c)).1 (h.receive (.orderExecuted s c)) := by
  intro address asset
  obtain ⟨rest, hqueue, -⟩ := hob.placed.queue_executed he.arises
  have hresting : c ∈ ob.resting c.side := mem_resting_iff.mpr ⟨c.price, by
    rw [hqueue]
    exact List.mem_cons_self⟩
  obtain ⟨hs, hc⟩ := LimitOrder.Sound.executed he.2 (hob.sound _ c hresting)
  have hafter : reserved share (applyEvent ob (.orderExecuted s c)).1 address asset +
      reservedBy share address asset c = reserved share ob address asset +
        if 0 < counterRemaining s c then
          reservedBy share address asset (c.withAmount (counterRemaining s c)) else 0 :=
    total_executed hob.placed he.arises _
  have hsplit := reservedBy_counter hadds address asset
  have hadded := toInt_added hshare hob hm hs hadds.1 address asset
  have hsubmitted := reservedBy_nonneg (.inl rfl) hs address asset
  have hcounter := reservedBy_nonneg (.inl rfl) hc address asset
  -- The counter order's part is at most what that order reserved, which is a part of the whole.
  have hpart : reservedBy feeAmount address asset (c.withAmount (executedAmount s c)) ≤
      reserved share ob address asset := by
    have hle := reservedBy_le hshare hob hresting address asset
    split at hsplit
    · rename_i hpos
      have := reservedBy_nonneg hshare (sound_remainder he.2 (hob.sound _ c hresting) hpos)
        address asset
      omega
    · omega
  have hfits := inWord_toInt ((((h.saveOpenPortfolio (.orderAdded
    (s.withAmount (executedAmount s c)))).openPortfolio address).amount asset))
  rw [hadded] at hfits
  obtain ⟨hsword, hsneg⟩ := inWord_of_add (reserved_nonneg hshare hob address asset) hsubmitted
    hfits
  obtain ⟨hcword, hcneg⟩ := inWord_of_le_reserved hm hcounter hpart
  have hsgiven := toInt_given hsword hsneg
  have hcgiven := toInt_given hcword hcneg
  have hgiven : (created (.orderExecuted s c) address asset).toInt =
      -reservedBy feeAmount address asset (s.withAmount (executedAmount s c)) +
        -reservedBy feeAmount address asset (c.withAmount (executedAmount s c)) := by
    rw [created_executed, toInt_safeSum]
    · exact congrArg₂ (· + ·) hsgiven hcgiven
    · refine (congrArg InWord (congrArg₂ (· + ·) hsgiven hcgiven)).mpr ?_
      unfold InWord at hfits ⊢
      omega
  change ((OrderHistory.openPortfolio _ address).amount asset).toInt = _
  rw [receive, amount_save, toInt_safeSum, hadded, hgiven]
  · omega
  · rw [hadded, hgiven]
    unfold InWord at hfits ⊢
    omega

include hshare in
/-- An event whose parts add up keeps the portfolios those of the open orders. -/
theorem Mirrors.receive {e : Event} (hm : Mirrors share ob h) (hob : ob.WellFormed)
    (he : ob.Enabled e) (hadds : AddsUp share ob e) :
    Mirrors share (applyEvent ob e).1 (h.receive e) := by
  cases e with
  | orderAdded lo => exact mirrors_added hshare hob hm he.2.1 hadds
  | orderExecuted s c => exact mirrors_executed hshare hob hm he hadds
  | orderCanceled lo => exact mirrors_canceled hshare hob hm he hadds

/-- Nothing is reserved in the empty book. -/
theorem mirrors_empty : Mirrors share OrderBook.empty ∅ := fun _ _ => rfl

include hshare in
/-- Along events whose parts add up, the portfolios stay those of the open orders. -/
theorem Mirrors.run {es : List Event} (hm : Mirrors share ob h) (hob : ob.WellFormed)
    (hes : Along applyEvent Enabled ob es) (hadds : Along applyEvent (AddsUp share) ob es) :
    (after applyEvent ob es).WellFormed ∧
      Mirrors share (after applyEvent ob es) (es.foldl OrderHistory.receive h) := by
  induction es generalizing ob h with
  | nil => exact ⟨hob, hm⟩
  | cons e es ih =>
      exact ih (hm.receive hshare hob hes.1 hadds.1) (hob.applyEvent hes.1) hes.2 hadds.2

/-- An address none of whose orders rests has nothing reserved. -/
theorem reserved_eq_zero (hnone : ∀ t, ∀ lo ∈ ob.resting t, lo.senderAddress.address ≠ address) :
    reserved share ob address asset = 0 := by
  have hside (t : OrderType) : ob.sideTotal (reservedBy share address asset) t = 0 := by
    apply List.sum_eq_zero
    intro n hn
    obtain ⟨lo, hlo, rfl⟩ := List.mem_map.mp hn
    exact if_neg fun haddress => hnone t lo hlo haddress.symm
  rw [reserved, total, hside, hside]
  rfl

end Share

/-- Portfolios that fit the book at a moment: they are what the open orders reserve, none is
negative, and an address without open orders has nothing in any asset. -/
def Kept (share : LimitOrder → Int64) (ob : OrderBook) (h : OrderHistory) : Prop :=
  Mirrors share ob h ∧ ∀ address asset, 0 ≤ (h.openPortfolio address).amount asset ∧
    ((∀ t, ∀ lo ∈ ob.resting t, lo.senderAddress.address ≠ address) →
      (h.openPortfolio address).amount asset = 0)

/-- At any moment of a run of the order book actor whose events' rounded parts add up, in whichever
of the two ways the rest of a fee is computed, the open portfolios are what the open orders
reserve. -/
theorem kept_of_addsUp {share : LimitOrder → Int64}
    (hshare : share = feeAmount ∨ share = remainingFee) (inputs : List Input)
    (hadds : Along applyEvent (AddsUp share) OrderBook.empty
      (emitted OrderBookActor.step .start inputs))
    {es : List Event} (hes : es <+: emitted OrderBookActor.step .start inputs) :
    Kept share (after applyEvent OrderBook.empty es) (es.foldl OrderHistory.receive ∅) := by
  obtain ⟨-, henabled, -⟩ := OrderBookActor.invariant_start.run inputs
  obtain ⟨later, hall⟩ := hes
  rw [← hall] at hadds
  have henabled : Along applyEvent Enabled OrderBook.empty (es ++ later) := by
    rw [hall]
    exact henabled
  -- The history mirrors the book along the events that were emitted so far.
  obtain ⟨hob, hm⟩ := mirrors_empty.run hshare wellFormed_empty (along_append.mp henabled).1
    (along_append.mp hadds).1
  refine ⟨hm, fun address asset => ⟨?_, fun hnone => ?_⟩⟩
  · rw [Int64.le_iff_toInt_le, hm address asset]
    exact reserved_nonneg hshare hob address asset
  · have hzero := hm address asset
    rw [reserved_eq_zero hnone] at hzero
    exact Int64.toInt_inj.mp hzero

end OrderHistory

end Platform

end Vsys.Matcher

namespace Vsys.Sample

open Lib Matcher Transducer OrderBook OrderHistory

/-- The events of some inputs to a fresh order book. -/
def eventsOf (inputs : List Input) : List Event := emitted OrderBookActor.step .start inputs

/-- An order that lives for a hundred seconds, with a fee of a million. -/
def orderFor (sender : Byte) (orderType : OrderType) (amount timestamp : Int64) : Order :=
  { orderBy sender orderType amount timestamp with
    expiration := 100000000000, matcherFee := 1000000 }

/-- A third of a sale that rests is bought, and what remains is cancelled. -/
def thirdBought : List Input :=
  [.submit (orderFor 1 .sell 3 100) 1000, .call (.ok ()), .submit (orderFor 2 .buy 1 101) 1000,
    .call (.ok ()), .call (.ok ()), .cancel (orderFor 1 .sell 3 100).idStr]

/-- With the executed part of the fee rounded, the parts of this run add up to the whole. -/
theorem thirdBought_kept : (eventsOf thirdBought).length = 3 ∧
    Kept LimitOrder.remainingFee (after applyEvent OrderBook.empty (eventsOf thirdBought))
      ((eventsOf thirdBought).foldl OrderHistory.receive ∅) :=
  ⟨by decide +kernel,
    kept_of_addsUp (.inr rfl) thirdBought (by decide +kernel) (List.prefix_refl _)⟩

/-- A third of a sale is bought when it is submitted, and the rest of it is cancelled. -/
def thirdSold : List Input :=
  [.submit (orderFor 2 .buy 1 101) 1000, .call (.ok ()), .submit (orderFor 1 .sell 3 100) 1000,
    .call (.ok ()), .call (.ok ()), .cancel (orderFor 1 .sell 3 100).idStr]

/-- The address of the account that sells. -/
def sellerAddress : String := (LimitOrder.ofOrder (orderFor 1 .sell 3 100)).senderAddress.address

/-- The fee is reserved in thirds that are rounded down, and given back as what they leave of the
whole: an account without open orders owes one. -/
theorem thirdSold_overdrawn :
    (after applyEvent OrderBook.empty (eventsOf thirdSold)).resting .buy = [] ∧
    (after applyEvent OrderBook.empty (eventsOf thirdSold)).resting .sell = [] ∧
    (OrderHistory.openPortfolio ((eventsOf thirdSold).foldl OrderHistory.receive ∅)
      sellerAddress).amount AssetPair.VSYSName = -1 ∧
    ∀ share, ¬ Kept share (after applyEvent OrderBook.empty (eventsOf thirdSold))
      ((eventsOf thirdSold).foldl OrderHistory.receive ∅) := by
  have hamount : (OrderHistory.openPortfolio ((eventsOf thirdSold).foldl OrderHistory.receive ∅)
      sellerAddress).amount AssetPair.VSYSName = -1 := by decide +kernel
  refine ⟨by decide +kernel, by decide +kernel, hamount, fun share hkept => ?_⟩
  have hnonneg := (hkept.2 sellerAddress AssetPair.VSYSName).1
  rw [hamount] at hnonneg
  revert hnonneg
  decide

end Vsys.Sample
