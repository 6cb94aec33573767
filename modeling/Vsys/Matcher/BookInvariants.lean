import Mathlib.Algebra.BigOperators.Group.List.Basic
import Vsys.Matcher.BookState

/-!
# What every book keeps

A book is well formed if its two sides do not cross, no queue is empty, every order sits under its
own price on its own side with a positive part of its amount, and no identifier occurs twice.  Each
event that the book proposes keeps it so.  A cancellation takes out the orders that compare equal,
which is the order meant if no other one does.
-/

namespace Vsys.Matcher

open Lib OrderExecuted Transducer

/-- A limit order for a part of its order, on its side and at its price. -/
structure LimitOrder.Sound (lo : LimitOrder) : Prop where
  side_eq : lo.order.orderType = lo.side
  price_eq : lo.order.price = lo.price
  amount_pos : 0 < lo.amount
  amount_le : lo.amount ≤ lo.order.amount
  price_pos : 0 < lo.price
  fee_pos : 0 < lo.order.matcherFee

namespace Levels

variable {ordering : Int64 ↪ Int} {levels : Levels ordering}

/-- No price is kept without orders. -/
def Filled (levels : Levels ordering) : Prop := ∀ p, levels.get p ≠ some []

theorem Filled.replace (h : levels.Filled) (p : Int64) (q : List LimitOrder) :
    (levels.replace p q).Filled := by
  intro p'
  rw [get_replace]
  split
  · split
    · simp
    · rename_i hq
      exact fun he => hq (Option.some.inj he)
  · exact h p'

theorem Filled.enqueue (h : levels.Filled) (o : LimitOrder) : (levels.enqueue o).Filled := by
  intro p
  rw [Levels.enqueue, TreeMap.get_insert]
  split
  · simp
  · exact h p

theorem Filled.cancel (h : levels.Filled) (oo : LimitOrder) : (levels.cancel oo).Filled := by
  cases hget : levels.get oo.price with
  | none => rwa [cancel_of_get_none hget]
  | some q =>
      rw [cancel_of_get hget]
      exact h.replace _ _

end Levels

namespace OrderBook

variable {ob : OrderBook} {t : OrderType} {lo c s : LimitOrder} {p : Int64} {e : Event}

theorem queue_added (ob : OrderBook) (lo : LimitOrder) (t : OrderType) (p : Int64) :
    (applyEvent ob (.orderAdded lo)).1.queue t p =
      if t = lo.side ∧ p = lo.price then ob.queue t p ++ [lo] else ob.queue t p := by
  rw [applyEvent_of_ok (updateState_added ob lo), queue_withLevels]
  by_cases ht : t = lo.side
  · subst ht
    simp only [true_and, if_true]
    exact Levels.queue_enqueue _ _ _
  · simp [ht]

theorem queue_canceled (ob : OrderBook) (lo : LimitOrder) (t : OrderType) (p : Int64) :
    (applyEvent ob (.orderCanceled lo)).1.queue t p =
      if t = lo.side ∧ p = lo.price then (ob.queue t p).filter fun x => !x.equals lo
      else ob.queue t p := by
  rw [applyEvent_of_ok (updateState_canceled ob lo), queue_withLevels]
  by_cases ht : t = lo.side
  · subst ht
    simp only [true_and, if_true]
    exact Levels.queue_cancel _ _ _
  · simp [ht]

/-- An execution leaves the counter order's remainder at the head of its queue. -/
theorem Placed.queue_executed (h : ob.Placed) (he : ob.Arises (.orderExecuted s c)) :
    ∃ rest, ob.queue c.side c.price = c :: rest ∧ ∀ t p,
      (applyEvent ob (.orderExecuted s c)).1.queue t p =
        if t = c.side ∧ p = c.price then
          (if 0 < counterRemaining s c then c.withAmount (counterRemaining s c) :: rest else rest)
        else ob.queue t p := by
  obtain ⟨rest, hget, hstate⟩ := h.updateState_executed he
  refine ⟨rest, Levels.queue_of_get hget, fun t p => ?_⟩
  rw [applyEvent_of_ok hstate, queue_withLevels]
  by_cases ht : t = c.side
  · subst ht
    simp only [true_and, if_true]
    exact Levels.queue_replace _ _ _ _
  · simp [ht]

/-- An order that is added crosses no order of the other side. -/
theorem not_crosses_of_added (hfilled : ∀ t, (ob.levels t).Filled) (hplaced : ob.Placed)
    (h : ob.matchOrder lo = .orderAdded lo) {x : LimitOrder}
    (hx : x ∈ ob.resting lo.side.reverse) : ¬ Crosses lo.side lo.price x.price := by
  obtain ⟨p, hxp⟩ := mem_resting_iff.mp hx
  obtain ⟨-, hxprice⟩ := hplaced _ p x hxp
  rw [matchOrder_eq] at h
  cases hbest : (ob.levels lo.side.reverse).best with
  | none =>
      have hempty := Levels.queue_of_best_eq_none (p := p) (hfilled lo.side.reverse) hbest
      rw [OrderBook.queue, hempty] at hxp
      exact absurd hxp List.not_mem_nil
  | some c =>
      rw [hbest] at h
      have hc : ¬ Crosses lo.side lo.price c.price := by
        intro hcross
        simp [hcross] at h
      obtain ⟨p', rest, hget, hleast⟩ := Levels.exists_of_best hbest
      have hcp := hplaced _ p' c (by
        rw [OrderBook.queue, Levels.queue_of_get hget]
        exact List.mem_cons_self)
      have hle := hleast p (List.ne_nil_of_mem hxp)
      rw [← hcp.2, ← hxprice] at hle
      cases hside : lo.side with
      | buy =>
          rw [hside] at hc hle
          simp only [Crosses, Int64.le_iff_toInt_le] at hc ⊢
          change c.price.toInt ≤ x.price.toInt at hle
          omega
      | sell =>
          rw [hside] at hc hle
          simp only [Crosses, Int64.le_iff_toInt_le] at hc ⊢
          change -c.price.toInt ≤ -x.price.toInt at hle
          omega

section Platform

variable [Platform]

/-- The identifiers of the resting orders of a side. -/
def ids (ob : OrderBook) (t : OrderType) : List String :=
  (ob.resting t).map fun lo => lo.order.idStr

/-- What every book keeps. -/
structure WellFormed (ob : OrderBook) : Prop where
  placed : ob.Placed
  filled : ∀ t, (ob.levels t).Filled
  sound : ∀ t, ∀ lo ∈ ob.resting t, lo.Sound
  uncrossed : ∀ b ∈ ob.resting .buy, ∀ a ∈ ob.resting .sell, b.price < a.price
  distinct : (ob.ids .buy ++ ob.ids .sell).Nodup

/-- An event that can happen to a book: what the book proposes for a sound order, where an added
order is new and a cancelled one that rests is the one meant. -/
def Enabled (ob : OrderBook) : Event → Prop
  | .orderAdded lo => ob.matchOrder lo = .orderAdded lo ∧ lo.Sound ∧
      ∀ t, lo.order.idStr ∉ ob.ids t
  | .orderExecuted s c => ob.matchOrder s = .orderExecuted s c ∧ s.Sound
  | .orderCanceled lo => ∀ t, ∀ x ∈ ob.resting t, x.order.idStr = lo.order.idStr → x = lo

theorem wellFormed_empty : empty.WellFormed where
  placed := placed_empty
  filled := by
    intro t p h
    cases t <;> cases h
  sound := by
    intro t lo hlo
    cases t <;> cases hlo
  uncrossed := by
    intro b hb
    cases hb
  distinct := List.nodup_nil

theorem Enabled.arises (h : ob.Enabled e) : ob.Arises e := by
  cases e with
  | orderAdded lo => trivial
  | orderCanceled lo => trivial
  | orderExecuted s c => exact h.1

/-- An added order's identifier joins those of its side. -/
theorem ids_added (ob : OrderBook) (lo : LimitOrder) :
    ((applyEvent ob (.orderAdded lo)).1.ids lo.side).Perm (lo.order.idStr :: ob.ids lo.side) ∧
      (applyEvent ob (.orderAdded lo)).1.ids lo.side.reverse = ob.ids lo.side.reverse := by
  rw [applyEvent_of_ok (updateState_added ob lo)]
  refine ⟨?_, by simp only [ids, resting, levels_withLevels_reverse]⟩
  obtain ⟨pre, post, horders, henqueue⟩ := Levels.orders_enqueue (ob.levels lo.side) lo
  simp only [ids, resting, levels_withLevels, horders, henqueue, List.map_append, List.map_cons]
  exact List.perm_middle

/-- A cancellation and an execution only take identifiers away. -/
theorem ids_sublist (h : ob.Placed) (he : ob.Enabled e) (hadd : ∀ lo, e ≠ .orderAdded lo)
    (t : OrderType) : ((applyEvent ob e).1.ids t).Sublist (ob.ids t) := by
  have hkept : ∀ (side : OrderType) (l : Levels (orderingOf side)),
      (l.orders.map fun lo => lo.order.idStr).Sublist (ob.ids side) →
        ((ob.withLevels side l).ids t).Sublist (ob.ids t) := by
    intro side l hl
    exact @forall_withLevels ob side
      (fun t l => (l.orders.map fun lo => lo.order.idStr).Sublist (ob.ids t)) l hl
      (fun t => List.Sublist.refl _) t
  cases e with
  | orderAdded lo => exact absurd rfl (hadd lo)
  | orderCanceled lo =>
      rw [applyEvent_of_ok (updateState_canceled ob lo)]
      exact hkept _ _ ((Levels.orders_cancel_sublist _ _).map _)
  | orderExecuted s c =>
      obtain ⟨rest, hget, hstate⟩ := h.updateState_executed he.1
      obtain ⟨pre, post, horders, hreplace⟩ := Levels.orders_replace hget
      rw [applyEvent_of_ok hstate]
      apply hkept
      rw [ids, resting, horders, hreplace]
      simp only [List.map_append]
      refine ((List.Sublist.refl _).append ?_).append (List.Sublist.refl _)
      split
      · exact List.Sublist.refl _
      · exact List.sublist_cons_self _ _

/-- The resting orders after an event: those before it, the counter order's remainder, and an
added order. -/
theorem mem_resting_applyEvent (h : ob.Placed) (he : ob.Enabled e) {x : LimitOrder}
    (hx : x ∈ (applyEvent ob e).1.resting t) :
    x ∈ ob.resting t ∨
      (∃ s c, e = .orderExecuted s c ∧ t = c.side ∧ c ∈ ob.resting t ∧ 0 < counterRemaining s c ∧
        x = c.withAmount (counterRemaining s c)) ∨
      (e = .orderAdded x ∧ t = x.side) := by
  obtain ⟨p, hxp⟩ := mem_resting_iff.mp hx
  -- An addition appends to its level, a cancellation filters it, and an execution replaces its
  -- head.
  cases e with
  | orderAdded lo =>
      rw [queue_added] at hxp
      split at hxp
      · rename_i hlo
        rcases List.mem_append.mp hxp with hxp | hxp
        · exact .inl (mem_resting_iff.mpr ⟨p, hxp⟩)
        · rw [List.mem_singleton.mp hxp]
          exact .inr (.inr ⟨rfl, hlo.1⟩)
      · exact .inl (mem_resting_iff.mpr ⟨p, hxp⟩)
  | orderCanceled lo =>
      rw [queue_canceled] at hxp
      split at hxp
      · exact .inl (mem_resting_iff.mpr ⟨p, (List.mem_filter.mp hxp).1⟩)
      · exact .inl (mem_resting_iff.mpr ⟨p, hxp⟩)
  | orderExecuted s c =>
      obtain ⟨rest, hqueue, hafter⟩ := h.queue_executed he.arises
      rw [hafter] at hxp
      split at hxp
      · rename_i hc
        obtain ⟨rfl, rfl⟩ := hc
        have hrest : x ∈ rest → x ∈ ob.resting c.side := fun hmem =>
          mem_resting_iff.mpr ⟨c.price, by rw [hqueue]; exact List.mem_cons_of_mem c hmem⟩
        split at hxp
        · rename_i hpos
          rcases List.mem_cons.mp hxp with hxp | hxp
          · refine .inr (.inl ⟨s, c, rfl, rfl, ?_, hpos, hxp⟩)
            exact mem_resting_iff.mpr ⟨c.price, by rw [hqueue]; exact List.mem_cons_self⟩
          · exact .inl (hrest hxp)
        · exact .inl (hrest hxp)
      · exact .inl (mem_resting_iff.mpr ⟨p, hxp⟩)

omit [Platform] in
/-- Between positive amounts nothing wraps: what is executed and what remains make the whole. -/
theorem executed_add_remaining (hs : 0 < s.amount) (hc : 0 < c.amount) :
    c.amount.toInt = (executedAmount s c).toInt + (counterRemaining s c).toInt ∧
      s.amount.toInt = (executedAmount s c).toInt + (submittedRemaining s c).toInt := by
  have hzero : (0 : Int64).toInt = 0 := rfl
  have hs' := Int64.lt_iff_toInt_lt.mp hs
  have hc' := Int64.lt_iff_toInt_lt.mp hc
  have hwords := inWord_toInt s.amount
  have hwordc := inWord_toInt c.amount
  rw [hzero] at hs' hc'
  unfold InWord at hwords hwordc
  have hcs : (c.amount - s.amount).toInt = c.amount.toInt - s.amount.toInt :=
    toInt_sub_exact (by unfold InWord; omega)
  have hsc : (s.amount - c.amount).toInt = s.amount.toInt - c.amount.toInt :=
    toInt_sub_exact (by unfold InWord; omega)
  unfold executedAmount counterRemaining submittedRemaining
  rw [toInt_min, toInt_max, toInt_max, hcs, hsc, hzero]
  omega

omit [Platform] in
/-- The counter order's remainder is a part of it. -/
theorem sound_remainder (hs : s.Sound) (hc : c.Sound) (hpos : 0 < counterRemaining s c) :
    (c.withAmount (counterRemaining s c)).Sound := by
  obtain ⟨hcounter, hsubmitted⟩ := executed_add_remaining hs.amount_pos hc.amount_pos
  have hzero : (0 : Int64).toInt = 0 := rfl
  have hs' := Int64.lt_iff_toInt_lt.mp hs.amount_pos
  have hc' := Int64.lt_iff_toInt_lt.mp hc.amount_pos
  have hle := Int64.le_iff_toInt_le.mp hc.amount_le
  refine ⟨hc.side_eq, hc.price_eq, hpos, Int64.le_iff_toInt_le.mpr ?_, hc.price_pos, hc.fee_pos⟩
  change (counterRemaining s c).toInt ≤ c.order.amount.toInt
  have hexecuted : 0 ≤ (executedAmount s c).toInt := by
    unfold executedAmount
    rw [toInt_min]
    omega
  omega

/-- No event leaves an empty queue. -/
theorem filled_applyEvent (h : ob.WellFormed) (he : ob.Enabled e) (t : OrderType) :
    ((applyEvent ob e).1.levels t).Filled := by
  cases e with
  | orderAdded lo =>
      rw [applyEvent_of_ok (updateState_added ob lo)]
      exact forall_withLevels (P := fun _ l => l.Filled) ((h.filled lo.side).enqueue lo) h.filled t
  | orderCanceled lo =>
      rw [applyEvent_of_ok (updateState_canceled ob lo)]
      exact forall_withLevels (P := fun _ l => l.Filled) ((h.filled lo.side).cancel lo) h.filled t
  | orderExecuted s c =>
      obtain ⟨rest, hget, hexecuted⟩ := h.placed.updateState_executed he.1
      rw [applyEvent_of_ok hexecuted]
      exact forall_withLevels (P := fun _ l => l.Filled) ((h.filled c.side).replace _ _) h.filled t

/-- Every order of the book after an event is a sound one. -/
theorem sound_applyEvent (h : ob.WellFormed) (he : ob.Enabled e) {x : LimitOrder}
    (hx : x ∈ (applyEvent ob e).1.resting t) : x.Sound := by
  rcases mem_resting_applyEvent h.placed he hx with hold | ⟨s, c, rfl, rfl, hc, hpos, rfl⟩ | hadd
  · exact h.sound t x hold
  · exact sound_remainder he.2 (h.sound _ c hc) hpos
  · obtain ⟨rfl, -⟩ := hadd
    exact he.2.1

/-- The prices after an event: those before it, and that of an added order. -/
theorem price_applyEvent (h : ob.WellFormed) (he : ob.Enabled e) {x : LimitOrder}
    (hx : x ∈ (applyEvent ob e).1.resting t) :
    (∃ y ∈ ob.resting t, y.price = x.price) ∨ (e = .orderAdded x ∧ t = x.side) := by
  rcases mem_resting_applyEvent h.placed he hx with hold | ⟨s, c, -, -, hc, -, rfl⟩ | hadd
  · exact .inl ⟨x, hold, rfl⟩
  · exact .inl ⟨c, hc, rfl⟩
  · exact .inr hadd

/-- No event makes the sides cross: an order is only added where it crosses none. -/
theorem uncrossed_applyEvent (h : ob.WellFormed) (he : ob.Enabled e) {a b : LimitOrder}
    (hb : b ∈ (applyEvent ob e).1.resting .buy) (ha : a ∈ (applyEvent ob e).1.resting .sell) :
    b.price < a.price := by
  rcases price_applyEvent h he hb with ⟨b', hb', hbprice⟩ | ⟨rfl, hbside⟩
  · rcases price_applyEvent h he ha with ⟨a', ha', haprice⟩ | ⟨rfl, haside⟩
    · rw [← hbprice, ← haprice]
      exact h.uncrossed b' hb' a' ha'
    · have hnot := not_crosses_of_added h.filled h.placed he.1 (x := b')
        (by rw [← haside]; exact hb')
      rw [← haside] at hnot
      rw [← hbprice]
      exact Int64.not_le.mp hnot
  · rcases price_applyEvent h he ha with ⟨a', ha', haprice⟩ | ⟨heq, haside⟩
    · have hnot := not_crosses_of_added h.filled h.placed he.1 (x := a')
        (by rw [← hbside]; exact ha')
      rw [← hbside] at hnot
      rw [← haprice]
      exact Int64.not_le.mp hnot
    · cases heq
      rw [← hbside] at haside
      cases haside

/-- No event makes an identifier occur twice. -/
theorem distinct_applyEvent (h : ob.WellFormed) (he : ob.Enabled e) :
    ((applyEvent ob e).1.ids .buy ++ (applyEvent ob e).1.ids .sell).Nodup := by
  by_cases hadd : ∃ lo, e = .orderAdded lo
  · obtain ⟨lo, rfl⟩ := hadd
    obtain ⟨hside, hother⟩ := ids_added ob lo
    have hnew : lo.order.idStr ∉ ob.ids .buy ++ ob.ids .sell := by
      rw [List.mem_append]
      rintro (hmem | hmem)
      · exact he.2.2 _ hmem
      · exact he.2.2 _ hmem
    have hnodup := List.nodup_cons.mpr ⟨hnew, h.distinct⟩
    cases hlo : lo.side with
    | buy =>
        rw [hlo] at hside hother
        change (applyEvent ob (.orderAdded lo)).1.ids .sell = ob.ids .sell at hother
        rw [hother, (hside.append_right _).nodup_iff]
        exact hnodup
    | sell =>
        rw [hlo] at hside hother
        change (applyEvent ob (.orderAdded lo)).1.ids .buy = ob.ids .buy at hother
        rw [hother, (hside.append_left _).nodup_iff, List.perm_middle.nodup_iff]
        exact hnodup
  · have hsub := ids_sublist h.placed he fun lo heq => hadd ⟨lo, heq⟩
    exact h.distinct.sublist ((hsub .buy).append (hsub .sell))

/-- Every event keeps a book well formed. -/
theorem WellFormed.applyEvent (h : ob.WellFormed) (he : ob.Enabled e) :
    (applyEvent ob e).1.WellFormed where
  placed := (h.placed.updateState he.arises).2
  filled := filled_applyEvent h he
  sound := fun _ _ hx => sound_applyEvent h he hx
  uncrossed := fun _ hb _ ha => uncrossed_applyEvent h he hb ha
  distinct := distinct_applyEvent h he

omit [Platform] in
theorem best_mem_resting (h : (ob.levels t).best = some lo) : lo ∈ ob.resting t := by
  obtain ⟨p, rest, hget, -⟩ := Levels.exists_of_best h
  refine mem_resting_iff.mpr ⟨p, ?_⟩
  rw [OrderBook.queue, Levels.queue_of_get hget]
  exact List.mem_cons_self

/-- The best bid is below the best ask. -/
theorem WellFormed.bestBid_lt_bestAsk (h : ob.WellFormed) {b a : LimitOrder}
    (hb : ob.bestBid = some b) (ha : ob.bestAsk = some a) : b.price < a.price :=
  h.uncrossed b (best_mem_resting (t := .buy) hb) a (best_mem_resting (t := .sell) ha)

/-- The sum of a quantity over the resting orders of a side. -/
def sideTotal (ob : OrderBook) (f : LimitOrder → Int) (t : OrderType) : Int :=
  ((ob.resting t).map f).sum

/-- The sum of a quantity over all resting orders. -/
def total (ob : OrderBook) (f : LimitOrder → Int) : Int :=
  ob.sideTotal f .buy + ob.sideTotal f .sell

/-- What is resting on a side. -/
def volume (ob : OrderBook) (t : OrderType) : Int := ob.sideTotal (fun lo => lo.amount.toInt) t

omit [Platform] in
theorem total_eq (ob : OrderBook) (f : LimitOrder → Int) (t : OrderType) :
    ob.total f = ob.sideTotal f t + ob.sideTotal f t.reverse := by
  cases t with
  | buy => rfl
  | sell => exact Int.add_comm _ _

omit [Platform] in
theorem sideTotal_withLevels_reverse (ob : OrderBook) (f : LimitOrder → Int) (t : OrderType)
    (l : Levels (orderingOf t)) :
    (ob.withLevels t l).sideTotal f t.reverse = ob.sideTotal f t.reverse := by
  simp only [sideTotal, resting, levels_withLevels_reverse]

omit [Platform] in
/-- An added order counts. -/
theorem total_added (ob : OrderBook) (f : LimitOrder → Int) (lo : LimitOrder) :
    (applyEvent ob (.orderAdded lo)).1.total f = ob.total f + f lo := by
  rw [applyEvent_of_ok (updateState_added ob lo), total_eq _ f lo.side, total_eq ob f lo.side,
    sideTotal_withLevels_reverse]
  obtain ⟨pre, post, horders, henqueue⟩ := Levels.orders_enqueue (ob.levels lo.side) lo
  simp only [sideTotal, resting, levels_withLevels, horders, henqueue, List.map_append,
    List.map_cons, List.sum_append, List.sum_cons]
  omega

omit [Platform] in
/-- An execution leaves the counter order's remainder, on its side. -/
theorem sideTotal_executed (h : ob.Placed) (he : ob.Arises (.orderExecuted s c))
    (f : LimitOrder → Int) :
    (applyEvent ob (.orderExecuted s c)).1.sideTotal f c.side + f c =
        ob.sideTotal f c.side +
          (if 0 < counterRemaining s c then f (c.withAmount (counterRemaining s c)) else 0) ∧
      (applyEvent ob (.orderExecuted s c)).1.sideTotal f c.side.reverse =
        ob.sideTotal f c.side.reverse := by
  obtain ⟨rest, hget, hstate⟩ := h.updateState_executed he
  obtain ⟨pre, post, horders, hreplace⟩ := Levels.orders_replace hget
  rw [applyEvent_of_ok hstate]
  refine ⟨?_, sideTotal_withLevels_reverse _ _ _ _⟩
  simp only [sideTotal, resting, levels_withLevels, horders, hreplace, List.map_append,
    List.map_cons, List.sum_append, List.sum_cons]
  split
  · simp only [List.map_cons, List.sum_cons]
    omega
  · omega

omit [Platform] in
theorem total_executed (h : ob.Placed) (he : ob.Arises (.orderExecuted s c))
    (f : LimitOrder → Int) :
    (applyEvent ob (.orderExecuted s c)).1.total f + f c = ob.total f +
      (if 0 < counterRemaining s c then f (c.withAmount (counterRemaining s c)) else 0) := by
  obtain ⟨hside, hother⟩ := sideTotal_executed h he f
  rw [total_eq _ f c.side, total_eq ob f c.side, hother]
  omega

/-- An execution takes what it executes from the counter order's side, and nothing else. -/
theorem volume_executed (h : ob.WellFormed) (he : ob.Enabled (.orderExecuted s c)) :
    ob.volume c.side = (applyEvent ob (.orderExecuted s c)).1.volume c.side
        + (executedAmount s c).toInt ∧
      ob.volume c.side.reverse
        = (applyEvent ob (.orderExecuted s c)).1.volume c.side.reverse := by
  obtain ⟨hside, hother⟩ := sideTotal_executed h.placed he.arises fun lo => lo.amount.toInt
  obtain ⟨rest, hqueue, -⟩ := h.placed.queue_executed he.arises
  have hc : c ∈ ob.resting c.side := mem_resting_iff.mpr ⟨c.price, by
    rw [hqueue]
    exact List.mem_cons_self⟩
  obtain ⟨hcounter, -⟩ := executed_add_remaining he.2.amount_pos (h.sound _ c hc).amount_pos
  refine ⟨?_, hother.symm⟩
  unfold volume
  split at hside
  · change _ = _ + (counterRemaining s c).toInt at hside
    omega
  · rename_i hpos
    have hzero : (0 : Int64).toInt = 0 := rfl
    have hnot : ¬ 0 < (counterRemaining s c).toInt :=
      fun hlt => hpos (Int64.lt_iff_toInt_lt.mpr hlt)
    have hle : (0 : Int) ≤ (counterRemaining s c).toInt := by
      unfold counterRemaining
      rw [toInt_max, hzero]
      exact le_max_right _ _
    omega

end Platform

end OrderBook

end Vsys.Matcher
