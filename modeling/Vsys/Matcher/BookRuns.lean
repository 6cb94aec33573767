import Vsys.Matcher.Matching
import Vsys.Matcher.BookInvariants

/-!
# Runs of the order book actor

Orders are submitted and cancelled in any sequence, and the transactions of a submitted order
succeed or fail in any way.  In every run the book is what the published events make of an empty
one, each event keeps it well formed, and queues stay in the order of arrival.  Each event does what
it says exactly if no cancellation meets another order that compares equal.
-/

namespace Vsys.Matcher

open Lib OrderExecuted Transducer

section Platform

variable [Platform]

namespace OrderBook

variable {ob : OrderBook} {e : Event} {lo s c : LimitOrder}

/-- What an execution is to do: to take the executed amount from the first order of the best price
of the other side, which keeps its place if something of it remains. -/
def Settles (ob ob' : OrderBook) (s c : LimitOrder) : Prop :=
  (∃ rest, ob.queue c.side c.price = c :: rest ∧ ∀ t p, ob'.queue t p =
    if t = c.side ∧ p = c.price then
      (if 0 < counterRemaining s c then c.withAmount (counterRemaining s c) :: rest else rest)
    else ob.queue t p) ∧
  ob.volume c.side - ob'.volume c.side = (executedAmount s c).toInt ∧
  ob.volume c.side.reverse = ob'.volume c.side.reverse ∧
  s.amount.toInt - (submittedRemaining s c).toInt = (executedAmount s c).toInt

/-- What an event is to do: to keep the book well formed and its best prices apart, and to put an
order at the end of its queue, to settle an execution, or to take out the order of one
identifier. -/
def Right (ob : OrderBook) (e : Event) : Prop :=
  ob.updateState e = .ok (applyEvent ob e).1 ∧ (applyEvent ob e).1.WellFormed ∧
  (∀ b a, (applyEvent ob e).1.bestBid = some b → (applyEvent ob e).1.bestAsk = some a →
    b.price < a.price) ∧
  match e with
  | .orderAdded lo => ∀ t p, (applyEvent ob e).1.queue t p =
      if t = lo.side ∧ p = lo.price then ob.queue t p ++ [lo] else ob.queue t p
  | .orderExecuted s c => Settles ob (applyEvent ob e).1 s c
  | .orderCanceled lo => ∀ t p, (applyEvent ob e).1.queue t p =
      (ob.queue t p).filter fun x => x.order.idStr ≠ lo.order.idStr

/-- A cancellation meets no order of its queue that compares equal but is another one. -/
def CancelsAlone (ob : OrderBook) : Event → Prop
  | .orderCanceled lo => ∀ x ∈ ob.queue lo.side lo.price, x.equals lo = true →
      x.order.idStr = lo.order.idStr
  | _ => True

instance (ob : OrderBook) : (e : Event) → Decidable (CancelsAlone ob e)
  | .orderCanceled lo => inferInstanceAs (Decidable (∀ x ∈ ob.queue lo.side lo.price,
      x.equals lo = true → x.order.idStr = lo.order.idStr))
  | .orderAdded _ => inferInstanceAs (Decidable True)
  | .orderExecuted _ _ => inferInstanceAs (Decidable True)

/-- A cancellation takes out the order of its identifier and no other, exactly if no other order
compares equal to it. -/
theorem canceled_iff (h : ob.WellFormed) (he : ob.Enabled (.orderCanceled lo)) :
    (∀ t p, (applyEvent ob (.orderCanceled lo)).1.queue t p =
      (ob.queue t p).filter fun x => x.order.idStr ≠ lo.order.idStr) ↔
        CancelsAlone ob (.orderCanceled lo) := by
  constructor
  -- An order that compares equal is filtered out, so that it must have the identifier.
  · intro hqueue x hx hequals
    have hlevel := hqueue lo.side lo.price
    rw [queue_canceled, if_pos ⟨rfl, rfl⟩] at hlevel
    by_contra hid
    have hkept : x ∈ (ob.queue lo.side lo.price).filter fun x => !x.equals lo := by
      rw [hlevel]
      exact List.mem_filter.mpr ⟨hx, by simpa using hid⟩
    have := (List.mem_filter.mp hkept).2
    rw [hequals] at this
    cases this
  · intro halone t p
    have hsame : ∀ x ∈ ob.queue t p, x.order.idStr = lo.order.idStr → x = lo :=
      fun x hx => he t x (mem_resting_iff.mpr ⟨p, hx⟩)
    rw [queue_canceled]
    split
    · rename_i hlevel
      obtain ⟨rfl, rfl⟩ := hlevel
      apply List.filter_congr
      intro x hx
      by_cases hid : x.order.idStr = lo.order.idStr
      · rw [hsame x hx hid]
        simp
      · have hne : x.equals lo = false :=
          Bool.eq_false_iff.mpr fun hequals => hid (halone x hx hequals)
        simp [hne, hid]
    · rename_i hlevel
      refine (List.filter_eq_self.mpr fun x hx => ?_).symm
      refine decide_eq_true fun hid => hlevel ?_
      have hx' := hx
      rw [hsame x hx hid] at hx'
      obtain ⟨hside, hprice⟩ := h.placed t p lo hx'
      exact ⟨hside.symm, hprice.symm⟩

/-- An event does what it is to do exactly if its cancellation meets no other equal order. -/
theorem right_iff (h : ob.WellFormed) (he : ob.Enabled e) : Right ob e ↔ CancelsAlone ob e := by
  have hafter := h.applyEvent he
  have hstate := (h.placed.updateState he.arises).1
  have hbest : ∀ b a, (applyEvent ob e).1.bestBid = some b →
      (applyEvent ob e).1.bestAsk = some a → b.price < a.price :=
    fun b a hb ha => hafter.bestBid_lt_bestAsk hb ha
  cases e with
  | orderAdded lo =>
      exact iff_of_true ⟨hstate, hafter, hbest, queue_added ob lo⟩ trivial
  | orderExecuted s c =>
      obtain ⟨hvolume, hother⟩ := volume_executed h he
      obtain ⟨rest, hqueue, hqueues⟩ := h.placed.queue_executed he.arises
      have hc : c ∈ ob.resting c.side := mem_resting_iff.mpr ⟨c.price, by
        rw [hqueue]
        exact List.mem_cons_self⟩
      obtain ⟨-, hsubmitted⟩ := executed_add_remaining he.2.amount_pos (h.sound _ c hc).amount_pos
      refine iff_of_true ⟨hstate, hafter, hbest, ⟨rest, hqueue, hqueues⟩, ?_, hother, ?_⟩ trivial
      · omega
      · omega
  | orderCanceled lo =>
      rw [← canceled_iff h he]
      exact ⟨fun hright => hright.2.2.2, fun hqueue => ⟨hstate, hafter, hbest, hqueue⟩⟩

/-- A sound order that has not arrived in the book. -/
structure Waiting (ob : OrderBook) (lo : LimitOrder) : Prop where
  sound : lo.Sound
  fresh : ∀ t, lo.order.idStr ∉ ob.ids t

/-- An order keeps waiting when another is executed or cancelled. -/
theorem Waiting.applyEvent (hlo : ob.Waiting lo) (h : ob.WellFormed) (he : ob.Enabled e)
    (hadd : ∀ lo, e ≠ .orderAdded lo) : (applyEvent ob e).1.Waiting lo where
  sound := hlo.sound
  fresh := fun t hmem => hlo.fresh t ((ids_sublist h.placed he hadd t).subset hmem)

/-- The cancellation of a waiting order meets nothing that could be meant. -/
theorem Waiting.enabled_canceled (hlo : ob.Waiting lo) : ob.Enabled (.orderCanceled lo) :=
  fun t x hx hid => absurd (List.mem_map.mpr ⟨x, hx, hid⟩) (hlo.fresh t)

/-- The cancellation of a resting order means that order: no identifier occurs twice. -/
theorem WellFormed.enabled_canceled (h : ob.WellFormed) {t : OrderType}
    (hlo : lo ∈ ob.resting t) : ob.Enabled (.orderCanceled lo) := by
  have hinj := List.inj_on_of_nodup_map (f := fun x : LimitOrder => x.order.idStr)
    (l := ob.resting .buy ++ ob.resting .sell) (by
      rw [List.map_append]
      exact h.distinct)
  have hmem : ∀ t, ∀ x ∈ ob.resting t, x ∈ ob.resting .buy ++ ob.resting .sell := by
    intro t x hx
    cases t with
    | buy => exact List.mem_append_left _ hx
    | sell => exact List.mem_append_right _ hx
  exact fun t' x hx hid => hinj (hmem t' x hx) (hmem t lo hlo) hid

/-- What is left of an executed order waits. -/
theorem Waiting.remainder (hlo : ob.Waiting lo) (hc : 0 < c.amount)
    (hpos : 0 < submittedRemaining lo c) :
    ob.Waiting (lo.withAmount (submittedRemaining lo c)) where
  fresh := hlo.fresh
  sound := by
    obtain ⟨-, hsubmitted⟩ := executed_add_remaining hlo.sound.amount_pos hc
    have hzero : (0 : Int64).toInt = 0 := rfl
    have hlo' := Int64.lt_iff_toInt_lt.mp hlo.sound.amount_pos
    have hc' := Int64.lt_iff_toInt_lt.mp hc
    have hle := Int64.le_iff_toInt_le.mp hlo.sound.amount_le
    refine ⟨hlo.sound.side_eq, hlo.sound.price_eq, hpos, Int64.le_iff_toInt_le.mpr ?_,
      hlo.sound.price_pos, hlo.sound.fee_pos⟩
    change (submittedRemaining lo c).toInt ≤ lo.order.amount.toInt
    have hexecuted : 0 ≤ (executedAmount lo c).toInt := by
      unfold executedAmount
      rw [toInt_min]
      omega
    omega

/-- The queues after an event that adds nothing keep their order. -/
theorem queue_ids_sublist (h : ob.Placed) (he : ob.Enabled e) (hadd : ∀ lo, e ≠ .orderAdded lo)
    (t : OrderType) (p : Int64) :
    (((applyEvent ob e).1.queue t p).map fun x => x.order.idStr).Sublist
      ((ob.queue t p).map fun x => x.order.idStr) := by
  cases e with
  | orderAdded lo => exact absurd rfl (hadd lo)
  | orderCanceled lo =>
      rw [queue_canceled]
      split
      · exact List.filter_sublist.map _
      · exact List.Sublist.refl _
  | orderExecuted s c =>
      obtain ⟨rest, hqueue, hafter⟩ := h.queue_executed he.arises
      rw [hafter]
      split
      · rename_i hc
        obtain ⟨rfl, rfl⟩ := hc
        rw [hqueue]
        split
        · exact List.Sublist.refl _
        · exact List.sublist_cons_self _ _
      · exact List.Sublist.refl _

/-- An event that adds no order. -/
def Quiet (ob : OrderBook) (e : Event) : Prop := ob.Enabled e ∧ ∀ lo, e ≠ .orderAdded lo

/-- Events that add no order keep the book well formed and its queues in their order. -/
theorem wellFormed_of_quiet (h : ob.WellFormed) {es : List Event} (hes : Along applyEvent Quiet ob es) :
    (after applyEvent ob es).WellFormed ∧ ∀ t p,
      (((after applyEvent ob es).queue t p).map fun x => x.order.idStr).Sublist
        ((ob.queue t p).map fun x => x.order.idStr) := by
  refine hes.after (I := fun ob' => ob'.WellFormed ∧ ∀ t p,
    ((ob'.queue t p).map fun x => x.order.idStr).Sublist
      ((ob.queue t p).map fun x => x.order.idStr)) ?_ ⟨h, fun t p => List.Sublist.refl _⟩
  rintro ob' e ⟨he, hadd⟩ ⟨hwf, hsub⟩
  exact ⟨hwf.applyEvent he, fun t p => (queue_ids_sublist hwf.placed he hadd t p).trans (hsub t p)⟩

/-- What an execution leads to adds no order, and what is left waits. -/
theorem responses_quiet (h : ob.WellFormed) (hlo : ob.Waiting lo)
    (hmatch : ob.matchOrder lo = .orderExecuted lo c) (outcome : Outcome) :
    Along applyEvent Quiet ob (responses lo c outcome).1 ∧
      ∀ rem, (responses lo c outcome).2 = some rem → rem.order = lo.order ∧
        (after applyEvent ob (responses lo c outcome).1).Waiting rem := by
  obtain ⟨-, hbest, -⟩ := matchOrder_eq_executed_iff.mp hmatch
  have hc := best_mem_resting hbest
  -- A settled exchange executes, and a failed one at most cancels the counter order.
  cases outcome with
  | ok u =>
      have hquiet : Quiet ob (.orderExecuted lo c) := by
        refine ⟨⟨hmatch, hlo.sound⟩, ?_⟩
        rintro x ⟨⟩
      refine ⟨⟨hquiet, trivial⟩, fun rem hrem => ?_⟩
      simp only [responses] at hrem ⊢
      split at hrem
      · rename_i hpos
        cases hrem
        have hwaiting := hlo.applyEvent h hquiet.1 hquiet.2
        exact ⟨rfl, (hlo.remainder (h.sound _ c hc).amount_pos hpos).sound, hwaiting.fresh⟩
      · cases hrem
  | error err =>
      by_cases hcancel : cancelsCounter lo c err
      · have hquiet : Quiet ob (.orderCanceled c) := by
          refine ⟨h.enabled_canceled hc, ?_⟩
          rintro x ⟨⟩
        simp only [responses, hcancel, if_true]
        refine ⟨⟨hquiet, trivial⟩, fun rem hrem => ?_⟩
        split at hrem
        · cases hrem
          exact ⟨rfl, hlo.applyEvent h hquiet.1 hquiet.2⟩
        · cases hrem
      · simp only [responses, hcancel]
        refine ⟨trivial, fun rem hrem => ?_⟩
        split at hrem
        · cases hrem
          exact ⟨rfl, hlo⟩
        · cases hrem

/-- The second look at what is left adds no order either. -/
theorem recheck_quiet {r : List Event × Option LimitOrder}
    (hes : Along applyEvent Quiet ob r.1)
    (hrem : ∀ rem, r.2 = some rem → (after applyEvent ob r.1).Waiting rem) :
    Along applyEvent Quiet ob (recheck r).1 := by
  obtain ⟨es, left⟩ := r
  cases left with
  | none => exact hes
  | some rem =>
      by_cases hvalid : rem.validateAmount.isOk = true
      · simpa only [recheck, hvalid, if_true] using hes
      · simp only [recheck, hvalid]
        refine along_append.mpr ⟨hes, ⟨(hrem rem rfl).enabled_canceled, ?_⟩, trivial⟩
        rintro x ⟨⟩

/-- The events of a turn happen to the books they meet.  The queues keep their order, the submitted
order comes last if it is added, and what is left of it waits. -/
theorem turn_enabled (h : ob.WellFormed) (hlo : ob.Waiting lo) (outcome : Outcome) :
    Along applyEvent Enabled ob (turnEvents ob lo outcome).1 ∧
      (after applyEvent ob (turnEvents ob lo outcome).1).WellFormed ∧
      (∀ t p, (((after applyEvent ob (turnEvents ob lo outcome).1).queue t p).map
          fun x => x.order.idStr).Sublist
        (((ob.queue t p).map fun x => x.order.idStr) ++ [lo.order.idStr])) ∧
      ∀ rem, (turnEvents ob lo outcome).2 = some rem → rem.order = lo.order ∧
        (after applyEvent ob (turnEvents ob lo outcome).1).Waiting rem ∧
        ∀ t p, (((after applyEvent ob (turnEvents ob lo outcome).1).queue t p).map
            fun x => x.order.idStr).Sublist ((ob.queue t p).map fun x => x.order.idStr) := by
  rcases ob.matchOrder_cases lo with hmatch | ⟨c, hmatch⟩
  · have hturn : turnEvents ob lo outcome = ([.orderAdded lo], none) := by
      rw [turnEvents, hmatch]
    have he : ob.Enabled (.orderAdded lo) := ⟨hmatch, hlo.sound, hlo.fresh⟩
    rw [hturn]
    refine ⟨⟨he, trivial⟩, h.applyEvent he, fun t p => ?_, fun rem hrem => by cases hrem⟩
    rw [after_cons, after_nil, queue_added]
    split
    · rw [List.map_append]
      exact List.Sublist.refl _
    · exact List.sublist_append_left _ _
  · have hturn : turnEvents ob lo outcome = recheck (responses lo c outcome) := by
      rw [turnEvents, hmatch]
    obtain ⟨hes, hrem⟩ := responses_quiet h hlo hmatch outcome
    have hquiet := recheck_quiet hes fun rem hleft => (hrem rem hleft).2
    obtain ⟨hwf, hsub⟩ := wellFormed_of_quiet h hquiet
    rw [hturn]
    refine ⟨?_, hwf, fun t p => (hsub t p).trans (List.sublist_append_left _ _), ?_⟩
    · exact (along_and.mp hquiet).1
    · intro rem hleft
      obtain ⟨hsame, hresponse, -⟩ := recheck_eq_of_some hleft
      obtain ⟨horder, hwaiting⟩ := hrem rem hresponse
      exact ⟨horder, by rw [hsame]; exact hwaiting, hsub⟩

end OrderBook

open OrderBook

/-- The state of an `OrderBookActor`: its book, the limit order it is about to match, and the
identifiers of the orders it has accepted. -/
structure OrderBookActor where
  orderBook : OrderBook
  pending : Option LimitOrder
  accepted : List String

/-- The messages to the actor, and the outcome of the next transaction while it matches. -/
inductive Input where
  | submit (o : Order) (time : Int64)
  | call (outcome : Outcome)
  | cancel (orderId : String)

namespace OrderBookActor

variable {a : OrderBookActor} {i : Input}

omit [Platform] in
/-- An actor with an empty book. -/
def start : OrderBookActor := ⟨OrderBook.empty, none, []⟩

/-- One message, or one call of `matchOrder`, with the events it publishes.  An order is accepted
if it is valid and new; messages that come while an order is matched wait. -/
def step (a : OrderBookActor) : Input → OrderBookActor × List Event
  | .submit o time =>
      if a.pending = none ∧ o.isValid time = .ok () ∧ o.idStr ∉ a.accepted then
        ({ a with pending := some (.ofOrder o), accepted := a.accepted ++ [o.idStr] }, [])
      else (a, [])
  | .call outcome =>
      match a.pending with
      | some lo =>
          match matchTurn a.orderBook lo outcome with
          | .ok (p, rem) => ({ a with orderBook := p.orderBook, pending := rem }, p.events)
          | .error _ => ({ a with pending := none }, [])
      | none => (a, [])
  | .cancel orderId =>
      if a.pending = none then
        match a.orderBook.cancelOrder orderId with
        | some e => ({ a with orderBook := (applyEvent a.orderBook e).1 }, [e])
        | none => (a, [])
      else (a, [])

/-- What every reachable actor keeps: a well-formed book whose queues are in the order in which
orders were accepted, and a sound order to match, which was accepted last. -/
structure Invariant (a : OrderBookActor) : Prop where
  wellFormed : a.orderBook.WellFormed
  nodup : a.accepted.Nodup
  arrival : ∃ arrived, (∀ t p,
      ((a.orderBook.queue t p).map fun x => x.order.idStr).Sublist arrived) ∧
    (a.pending = none → a.accepted = arrived) ∧
    ∀ lo, a.pending = some lo → a.accepted = arrived ++ [lo.order.idStr] ∧ lo.Sound

theorem invariant_start : start.Invariant where
  wellFormed := wellFormed_empty
  nodup := List.nodup_nil
  arrival := by
    refine ⟨[], fun t p => ?_, fun _ => rfl, fun lo hlo => by cases hlo⟩
    cases t <;> exact List.Sublist.refl _

/-- The order to match waits: its identifier is not among those that arrived before it. -/
theorem Invariant.waiting (h : a.Invariant) {lo : LimitOrder} (hlo : a.pending = some lo) :
    a.orderBook.Waiting lo := by
  obtain ⟨arrived, hqueues, -, hpending⟩ := h.arrival
  obtain ⟨haccepted, hsound⟩ := hpending lo hlo
  refine ⟨hsound, fun t hmem => ?_⟩
  obtain ⟨x, hx, hid⟩ := List.mem_map.mp hmem
  obtain ⟨p, hxp⟩ := mem_resting_iff.mp hx
  have hnodup := h.nodup
  rw [haccepted] at hnodup
  have harrived : lo.order.idStr ∈ arrived :=
    (hqueues t p).subset (List.mem_map.mpr ⟨x, hxp, hid⟩)
  exact (List.nodup_append.mp hnodup).2.2 _ harrived _ (List.mem_singleton_self _) rfl

/-- What `cancelOrder` finds rests in the book under the identifier. -/
theorem cancelOrder_eq_some {ob : OrderBook} {orderId : String} {e : Event}
    (h : ob.cancelOrder orderId = some e) :
    ∃ lo t, e = .orderCanceled lo ∧ lo ∈ ob.resting t ∧ lo.order.idStr = orderId := by
  obtain ⟨level, hlevel, hfound⟩ := Option.bind_eq_some_iff.mp h
  obtain ⟨lo, hlo, rfl⟩ := Option.map_eq_some_iff.mp hfound
  have hid : lo.order.idStr = orderId := by simpa using List.find?_some hlo
  have hmem := List.mem_of_find?_eq_some hlo
  rcases Option.or_eq_some_iff.mp hlevel with hbids | ⟨-, hasks⟩
  · exact ⟨lo, .buy, rfl, List.mem_flatMap.mpr ⟨level, List.mem_of_find?_eq_some hbids, hmem⟩, hid⟩
  · exact ⟨lo, .sell, rfl, List.mem_flatMap.mpr ⟨level, List.mem_of_find?_eq_some hasks, hmem⟩,
      hid⟩

/-- What `cancelOrder` does not find rests nowhere. -/
theorem ne_of_cancelOrder_eq_none {ob : OrderBook} {orderId : String}
    (h : ob.cancelOrder orderId = none) {t : OrderType} {lo : LimitOrder}
    (hlo : lo ∈ ob.resting t) : lo.order.idStr ≠ orderId := by
  intro hid
  obtain ⟨entry, hentry, hmem⟩ := List.mem_flatMap.mp hlo
  let holds := fun e : Int64 × List LimitOrder => e.2.any fun x => x.order.idStr = orderId
  have hholds : holds entry = true := List.any_eq_true.mpr ⟨lo, hmem, decide_eq_true hid⟩
  have hnone := Option.bind_eq_none_iff.mp h
  cases hlevel : (ob.bids.entries.find? holds).or (ob.asks.entries.find? holds) with
  | none =>
      obtain ⟨hbids, hasks⟩ := Option.or_eq_none_iff.mp hlevel
      cases t with
      | buy => exact List.find?_eq_none.mp hbids entry hentry hholds
      | sell => exact List.find?_eq_none.mp hasks entry hentry hholds
  | some level =>
      -- a level is found by the order in it, which is then found there
      have hany : holds level = true := by
        rcases Option.or_eq_some_iff.mp hlevel with hbids | ⟨-, hasks⟩
        · exact List.find?_some hbids
        · exact List.find?_some hasks
      obtain ⟨x, hx, hsame⟩ := List.any_eq_true.mp hany
      exact List.find?_eq_none.mp (Option.map_eq_none_iff.mp (hnone level hlevel)) x hx hsame

omit [Platform] in
/-- A valid order is a sound limit order. -/
theorem sound_ofOrder {o : Order} {time : Int64} (h : o.isValid time = .ok ()) :
    (LimitOrder.ofOrder o).Sound where
  side_eq := rfl
  price_eq := rfl
  amount_pos := (Order.isValidAmount_eq_ok_iff.mp (Order.isValid_eq_ok_iff.mp h).1).1
  amount_le := Int64.le_refl _
  price_pos := (Order.isValidAmount_eq_ok_iff.mp (Order.isValid_eq_ok_iff.mp h).1).2.1
  fee_pos := (Order.isValid_eq_ok_iff.mp h).2.2.1

/-- A step that keeps the invariant, and whose events happen to the book and make the next one. -/
def Follows (a : OrderBookActor) (r : OrderBookActor × List Event) : Prop :=
  r.1.Invariant ∧ Along applyEvent Enabled a.orderBook r.2 ∧
    after applyEvent a.orderBook r.2 = r.1.orderBook

/-- A message that has to wait, or finds nothing, changes nothing. -/
theorem Invariant.follows_self (h : a.Invariant) : a.Follows (a, []) := ⟨h, trivial, rfl⟩

/-- An accepted order waits to be matched. -/
theorem Invariant.follows_submit (h : a.Invariant) {o : Order} {time : Int64}
    (hnone : a.pending = none) (hvalid : o.isValid time = .ok ()) (hnew : o.idStr ∉ a.accepted) :
    a.Follows
      ({ a with pending := some (.ofOrder o), accepted := a.accepted ++ [o.idStr] }, []) := by
  obtain ⟨arrived, hqueues, hidle, -⟩ := h.arrival
  refine ⟨⟨h.wellFormed, ?_, arrived, hqueues, ?_, ?_⟩, trivial, rfl⟩
  · rw [List.nodup_append]
    refine ⟨h.nodup, List.nodup_singleton _, ?_⟩
    rintro x hx y hy rfl
    rw [List.mem_singleton.mp hy] at hx
    exact hnew hx
  · rintro ⟨⟩
  · rintro lo ⟨⟩
    rw [hidle hnone]
    exact ⟨rfl, sound_ofOrder hvalid⟩

/-- A call of `matchOrder` publishes the events of its turn. -/
theorem Invariant.follows_call (h : a.Invariant) {lo : LimitOrder} (hlo : a.pending = some lo)
    (outcome : Outcome) :
    a.Follows
      ({ a with
          orderBook := after applyEvent a.orderBook (turnEvents a.orderBook lo outcome).1
          pending := (turnEvents a.orderBook lo outcome).2 },
        (turnEvents a.orderBook lo outcome).1) := by
  obtain ⟨arrived, hqueues, -, hpending⟩ := h.arrival
  obtain ⟨haccepted, -⟩ := hpending lo hlo
  obtain ⟨henabled, hwf, hlast, hleft⟩ := turn_enabled h.wellFormed (h.waiting hlo) outcome
  refine ⟨⟨hwf, h.nodup, ?_⟩, henabled, rfl⟩
  dsimp only
  cases hrem : (turnEvents a.orderBook lo outcome).2 with
  | none =>
      refine ⟨a.accepted, fun t p => ?_, fun _ => rfl, ?_⟩
      · rw [haccepted]
        exact (hlast t p).trans ((hqueues t p).append (List.Sublist.refl _))
      · rintro rem ⟨⟩
  | some rem =>
      obtain ⟨horder, hwaiting, hsub⟩ := hleft rem hrem
      refine ⟨arrived, fun t p => (hsub t p).trans (hqueues t p), ?_, ?_⟩
      · rintro ⟨⟩
      · rintro rem' ⟨⟩
        rw [horder]
        exact ⟨haccepted, hwaiting.sound⟩

/-- A cancellation publishes that of the order it found. -/
theorem Invariant.follows_cancel (h : a.Invariant) {orderId : String} {e : Event}
    (hcancel : a.orderBook.cancelOrder orderId = some e) :
    a.Follows ({ a with orderBook := (applyEvent a.orderBook e).1 }, [e]) := by
  obtain ⟨arrived, hqueues, hidle, hpending⟩ := h.arrival
  obtain ⟨lo, t, rfl, hlo, -⟩ := cancelOrder_eq_some hcancel
  have he := h.wellFormed.enabled_canceled hlo
  refine ⟨⟨h.wellFormed.applyEvent he, h.nodup, arrived, fun t p => ?_, hidle, hpending⟩,
    ⟨he, trivial⟩, rfl⟩
  refine (queue_ids_sublist h.wellFormed.placed he ?_ t p).trans (hqueues t p)
  rintro x ⟨⟩

/-- Every step keeps the invariant, and its events happen to the book and make the next one. -/
theorem Invariant.follows_step (h : a.Invariant) (i : Input) : a.Follows (a.step i) := by
  cases i with
  | submit o time =>
      by_cases hsubmit : a.pending = none ∧ o.isValid time = .ok () ∧ o.idStr ∉ a.accepted
      · rw [step, if_pos hsubmit]
        exact h.follows_submit hsubmit.1 hsubmit.2.1 hsubmit.2.2
      · rw [step, if_neg hsubmit]
        exact h.follows_self
  | call outcome =>
      cases hlo : a.pending with
      | none =>
          simp only [step, hlo]
          exact h.follows_self
      | some lo =>
          obtain ⟨hturn, -⟩ := matchTurn_of_placed h.wellFormed.placed lo outcome
          simp only [step, hlo, hturn]
          exact h.follows_call hlo outcome
  | cancel orderId =>
      by_cases hnone : a.pending = none
      · rw [step, if_pos hnone]
        cases hcancel : a.orderBook.cancelOrder orderId with
        | none => exact h.follows_self
        | some e => exact h.follows_cancel hcancel
      · rw [step, if_neg hnone]
        exact h.follows_self

/-- A run from an actor that keeps the invariant: its end keeps it, and the published events happen
to the book one after another. -/
theorem Invariant.run (h : a.Invariant) (inputs : List Input) :
    (after step a inputs).Invariant ∧
      Along applyEvent Enabled a.orderBook (emitted step a inputs) ∧
      after applyEvent a.orderBook (emitted step a inputs) = (after step a inputs).orderBook :=
  along_emitted (I := Invariant) (g := orderBook) (fun _ i h => h.follows_step i) h

/-- The queues of the book are in the order in which the orders were accepted. -/
theorem Invariant.queue_sublist (h : a.Invariant) (t : OrderType) (p : Int64) :
    ((a.orderBook.queue t p).map fun x => x.order.idStr).Sublist a.accepted := by
  obtain ⟨arrived, hqueues, hidle, hpending⟩ := h.arrival
  cases hlo : a.pending with
  | none =>
      rw [hidle hlo]
      exact hqueues t p
  | some lo =>
      rw [(hpending lo hlo).1]
      exact (hqueues t p).trans (List.sublist_append_left _ _)

/-- A cancellation that is processed takes the order of its identifier out of the book, and nothing
else. -/
def CancelsOnly (inputs : List Input) : Prop :=
  ∀ before orderId later, inputs = before ++ .cancel orderId :: later →
    (after step start before).pending = none →
    ∀ t p, (after step start (before ++ [.cancel orderId])).orderBook.queue t p
      = ((after step start before).orderBook.queue t p).filter fun x => x.order.idStr ≠ orderId

/-- A run that keeps the book in order: the book is what its events make of an empty one, no identifier
was accepted twice, the queues are in the order of acceptance, every event does what it is to do, and
a cancellation removes the order it names. -/
def Kept (inputs : List Input) : Prop :=
  after applyEvent OrderBook.empty (emitted step start inputs)
      = (after step start inputs).orderBook ∧
    (after step start inputs).accepted.Nodup ∧
    (∀ t p, (((after step start inputs).orderBook.queue t p).map fun x => x.order.idStr).Sublist
      (after step start inputs).accepted) ∧
    Along applyEvent Right OrderBook.empty (emitted step start inputs) ∧
    CancelsOnly inputs

/-- When its events do what they are to do, the cancellations of a run remove what they name. -/
theorem cancelsOnly_of_along_right {inputs : List Input}
    (h : Along applyEvent Right OrderBook.empty (emitted step start inputs)) :
    CancelsOnly inputs := by
  rintro before orderId later rfl hnone t p
  have hbook : after applyEvent OrderBook.empty (emitted step start before)
      = (after step start before).orderBook := (invariant_start.run before).2.2
  rw [emitted_append, emitted_cons] at h
  have hhere := (along_append.mp (along_append.mp h).2).1
  rw [hbook] at hhere
  rw [after_append, after_cons, after_nil]
  generalize after step start before = a at hnone hhere ⊢
  cases hcancel : a.orderBook.cancelOrder orderId with
  | none =>
      have hstep : a.step (.cancel orderId) = (a, []) := by rw [step, if_pos hnone, hcancel]
      rw [hstep]
      refine (List.filter_eq_self.mpr fun x hx => ?_).symm
      exact decide_eq_true (ne_of_cancelOrder_eq_none hcancel (mem_resting_iff.mpr ⟨p, hx⟩))
  | some e =>
      obtain ⟨lo, side, rfl, -, hid⟩ := cancelOrder_eq_some hcancel
      have hstep : a.step (.cancel orderId) = ({ a with
          orderBook := (applyEvent a.orderBook (.orderCanceled lo)).1 }, [.orderCanceled lo]) := by
        rw [step, if_pos hnone, hcancel]
      rw [hstep] at hhere ⊢
      rw [← hid]
      exact hhere.1.2.2.2 t p

/-- The events of a run do what they are to do exactly if its cancellations meet no other equal
order. -/
theorem along_right_iff (inputs : List Input) :
    Along applyEvent Right OrderBook.empty (emitted step start inputs) ↔
      Along applyEvent CancelsAlone OrderBook.empty (emitted step start inputs) := by
  obtain ⟨-, henabled, -⟩ := invariant_start.run inputs
  exact Along.congr (henabled.along (I := WellFormed) (fun _ _ he h => h.applyEvent he)
    wellFormed_empty fun _ _ he h => right_iff h he)

/-- A run keeps the book in order exactly if none of its cancellations meets another order that
compares equal to the cancelled one. -/
theorem kept_iff (inputs : List Input) :
    Kept inputs ↔ Along applyEvent CancelsAlone OrderBook.empty (emitted step start inputs) := by
  obtain ⟨hend, -, hbook⟩ := invariant_start.run inputs
  refine ⟨fun h => (along_right_iff inputs).mp h.2.2.2.1, fun h => ?_⟩
  have hright := (along_right_iff inputs).mpr h
  exact ⟨hbook, hend.nodup, hend.queue_sublist, hright, cancelsOnly_of_along_right hright⟩

end OrderBookActor

end Platform

end Vsys.Matcher

namespace Vsys.Sample

open Lib Matcher Transducer OrderBook OrderBookActor

/-- Two orders that differ in sender and time rest at one price, and one is cancelled. -/
def twinOrders : List Input :=
  [.submit (orderBy 1 .sell 3 100) 1000, .call (.ok ()), .submit (orderBy 2 .sell 3 101) 1000,
    .call (.ok ()), .cancel (orderBy 1 .sell 3 100).idStr]

/-- Both are taken out of the book, though the events of the run name only one. -/
theorem twinOrders_cancelled :
    ¬ Kept twinOrders ∧ (after OrderBookActor.step start twinOrders).orderBook.resting .sell = [] ∧
      emitted OrderBookActor.step start twinOrders =
        [.orderAdded (.ofOrder (orderBy 1 .sell 3 100)),
          .orderAdded (.ofOrder (orderBy 2 .sell 3 101)),
          .orderCanceled (.ofOrder (orderBy 1 .sell 3 100))] := by
  refine ⟨fun h => ?_, by decide +kernel, by decide +kernel⟩
  have := (along_right_iff twinOrders).mp h.2.2.2.1
  revert this
  decide +kernel

end Vsys.Sample
