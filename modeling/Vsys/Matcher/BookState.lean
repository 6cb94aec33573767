import Vsys.Lib.Transducer
import Vsys.Matcher.OrderBook

/-!
# What an event does to the book

Each event changes one queue of one side.  This file says which, once for both sides: what an
added order, an execution against the best order and a cancellation leave in every queue, and in
the list of all resting orders.
-/

namespace Vsys.Matcher

open Lib OrderExecuted Transducer

namespace Levels

variable {ordering : Int64 ↪ Int} {levels : Levels ordering} {p : Int64} {q : List LimitOrder}
  {o lo c : LimitOrder}

/-- A level that is there has its queue. -/
theorem queue_of_get (h : levels.get p = some q) : levels.queue p = q := by
  rw [queue, h]
  rfl

/-- A replaced level is its new queue, and is gone with an empty one. -/
theorem get_replace (levels : Levels ordering) (p : Int64) (q : List LimitOrder) (p' : Int64) :
    (levels.replace p q).get p' =
      if p' = p then (if q = [] then none else some q) else levels.get p' := by
  unfold replace
  cases q with
  | nil => simp [TreeMap.get_erase]
  | cons x q => simp [TreeMap.get_insert]

/-- A replaced level has its new queue, and the others keep theirs. -/
theorem queue_replace (levels : Levels ordering) (p : Int64) (q : List LimitOrder) (p' : Int64) :
    (levels.replace p q).queue p' = if p' = p then q else levels.queue p' := by
  unfold queue
  rw [get_replace]
  split
  · cases q <;> rfl
  · rfl

/-- A new order is the last at its price. -/
theorem queue_enqueue (levels : Levels ordering) (o : LimitOrder) (p : Int64) :
    (levels.enqueue o).queue p =
      if p = o.price then levels.queue p ++ [o] else levels.queue p := by
  unfold queue enqueue
  rw [TreeMap.get_insert]
  split
  · rename_i h
    rw [h]
    rfl
  · rfl

/-- A cancellation filters the level at the order's price. -/
theorem cancel_of_get (h : levels.get o.price = some q) :
    levels.cancel o = levels.replace o.price (q.filter fun lo => !lo.equals o) := by
  simp [cancel, h]

/-- A cancellation at a price without a level changes nothing. -/
theorem cancel_of_get_none (h : levels.get o.price = none) : levels.cancel o = levels := by
  simp [cancel, h]

/-- A cancellation takes the equal orders away from the level at the order's price. -/
theorem queue_cancel (levels : Levels ordering) (oo : LimitOrder) (p : Int64) :
    (levels.cancel oo).queue p =
      if p = oo.price then (levels.queue p).filter fun lo => !lo.equals oo
      else levels.queue p := by
  cases h : levels.get oo.price with
  | none =>
      rw [cancel_of_get_none h]
      split
      · rename_i hp
        rw [hp, queue, h]
        rfl
      · rfl
  | some lvl =>
      rw [cancel_of_get h, queue_replace]
      split
      · rename_i hp
        rw [hp, queue_of_get h]
      · rfl

/-- The resting orders around one queue. -/
theorem orders_replace (h : levels.get p = some q) :
    ∃ pre post, levels.orders = pre ++ q ++ post ∧
      ∀ q', (levels.replace p q').orders = pre ++ q' ++ post := by
  obtain ⟨l₁, l₂, hl, hinsert, herase⟩ := TreeMap.split_of_get h
  refine ⟨l₁.flatMap fun e => e.2, l₂.flatMap fun e => e.2, ?_, fun q' => ?_⟩
  · simp [orders, hl]
  · unfold replace
    cases q' with
    | nil => simp [orders, herase]
    | cons x q' => simp [orders, hinsert]

/-- A level replaced by a shorter one leaves fewer orders. -/
theorem length_orders_replace_lt (h : levels.get p = some q) {q' : List LimitOrder}
    (hlt : q'.length < q.length) : (levels.replace p q').orders.length < levels.orders.length := by
  obtain ⟨pre, post, horders, hreplace⟩ := orders_replace h
  rw [horders, hreplace]
  simp only [List.length_append]
  omega

/-- An added order is put between the others. -/
theorem orders_enqueue (levels : Levels ordering) (o : LimitOrder) :
    ∃ pre post, levels.orders = pre ++ post ∧ (levels.enqueue o).orders = pre ++ o :: post := by
  cases h : levels.get o.price with
  | none =>
      obtain ⟨l₁, l₂, hl, hinsert⟩ := TreeMap.split_of_get_none h
      refine ⟨l₁.flatMap fun e => e.2, l₂.flatMap fun e => e.2, ?_, ?_⟩
      · simp [orders, hl]
      · simp [orders, enqueue, h, hinsert]
  | some q =>
      obtain ⟨l₁, l₂, hl, hinsert, -⟩ := TreeMap.split_of_get h
      refine ⟨(l₁.flatMap fun e => e.2) ++ q, l₂.flatMap fun e => e.2, ?_, ?_⟩
      · simp [orders, hl]
      · simp [orders, enqueue, h, hinsert]

/-- A cancellation takes orders out. -/
theorem orders_cancel_sublist (levels : Levels ordering) (oo : LimitOrder) :
    (levels.cancel oo).orders.Sublist levels.orders := by
  cases h : levels.get oo.price with
  | none =>
      rw [cancel_of_get_none h]
  | some lvl =>
      obtain ⟨pre, post, horders, hreplace⟩ := orders_replace h
      rw [cancel_of_get h, horders, hreplace]
      exact ((List.Sublist.refl pre).append List.filter_sublist).append (List.Sublist.refl post)

/-- The order at the head of a queue is among those that its cancellation takes out. -/
theorem length_orders_cancel_lt {rest : List LimitOrder}
    (h : levels.get c.price = some (c :: rest)) :
    (levels.cancel c).orders.length < levels.orders.length := by
  rw [cancel_of_get h]
  apply length_orders_replace_lt h
  rw [List.filter_cons_of_neg (by simp), List.length_cons]
  exact Nat.lt_succ_of_le (List.length_filter_le _ _)

/-- The orders of a side are those of its queues. -/
theorem mem_orders_iff : lo ∈ levels.orders ↔ ∃ p, lo ∈ levels.queue p := by
  constructor
  · intro h
    obtain ⟨e, he, hlo⟩ := List.mem_flatMap.mp h
    exact ⟨e.1, by rwa [queue_of_get (TreeMap.get_of_mem (k := e.1) (v := e.2) he)]⟩
  · rintro ⟨p, h⟩
    unfold queue at h
    cases hget : levels.get p with
    | none => simp [hget] at h
    | some q =>
        rw [hget] at h
        exact List.mem_flatMap.mpr ⟨(p, q), TreeMap.mem_of_get hget, h⟩

/-- The best order heads the queue of the best price. -/
theorem exists_of_best (h : levels.best = some c) :
    ∃ p rest, levels.get p = some (c :: rest) ∧ ∀ p', levels.queue p' ≠ [] →
      ordering p ≤ ordering p' := by
  obtain ⟨e, he, hc⟩ := Option.bind_eq_some_iff.mp h
  obtain ⟨rest, hrest⟩ := List.head?_eq_some_iff.mp hc
  have hmem : e ∈ levels.entries := List.mem_of_mem_head? he
  refine ⟨e.1, rest, ?_, fun p' hp' => ?_⟩
  · exact TreeMap.get_of_mem (by rw [← hrest]; exact hmem)
  · cases hget : levels.get p' with
    | none => exact absurd (by rw [queue, hget]; rfl) hp'
    | some q => exact TreeMap.headOption_le he (TreeMap.mem_of_get hget)

/-- A side without empty queues and without a best order has no orders. -/
theorem queue_of_best_eq_none (hne : ∀ p, levels.get p ≠ some []) (h : levels.best = none) :
    levels.queue p = [] := by
  cases hget : levels.get p with
  | none => rw [queue, hget]; rfl
  | some q =>
      have hmem := TreeMap.mem_of_get hget
      cases hentries : levels.entries with
      | nil => simp [hentries] at hmem
      | cons e l =>
          have hhead : levels.headOption = some e := by simp [TreeMap.headOption, hentries]
          have hget' := TreeMap.get_of_mem (m := levels) (k := e.1) (v := e.2) (by simp [hentries])
          rw [best, hhead, Option.bind_some, List.head?_eq_none_iff] at h
          exact absurd (h ▸ hget') (hne e.1)

/-- An execution of the order at the head of a queue leaves its remainder there. -/
theorem execute_head {rest : List LimitOrder} (h : levels.get c.price = some (c :: rest))
    (r : Int64) :
    levels.execute c r =
      .ok (levels.replace c.price (if 0 < r then c.withAmount r :: rest else rest)) := by
  simp [execute, h, List.span_eq_takeWhile_dropWhile]

end Levels

namespace OrderBook

variable {ob ob' : OrderBook} {t : OrderType} {lo c s : LimitOrder} {p : Int64}

/-- Replaced levels are read on their side. -/
@[simp]
theorem levels_withLevels (ob : OrderBook) (t : OrderType) (l : Levels (orderingOf t)) :
    (ob.withLevels t l).levels t = l := by
  cases t <;> rfl

/-- Replaced levels leave the other side. -/
@[simp]
theorem levels_withLevels_reverse (ob : OrderBook) (t : OrderType) (l : Levels (orderingOf t)) :
    (ob.withLevels t l).levels t.reverse = ob.levels t.reverse := by
  cases t <;> rfl

/-- What holds of the queues set and of the queues of both sides before. -/
theorem forall_withLevels {P : (t : OrderType) → Levels (orderingOf t) → Prop}
    {l : Levels (orderingOf t)} (hl : P t l) (h : ∀ t, P t (ob.levels t)) (t' : OrderType) :
    P t' ((ob.withLevels t l).levels t') := by
  cases t <;> cases t'
  · exact hl
  · exact h .sell
  · exact h .buy
  · exact hl

/-- The other side keeps its queues. -/
theorem queue_withLevels (ob : OrderBook) (t : OrderType) (l : Levels (orderingOf t))
    (t' : OrderType) (p : Int64) :
    (ob.withLevels t l).queue t' p = if t' = t then l.queue p else ob.queue t' p := by
  cases t <;> cases t' <;> rfl

/-- Whether an order at a price of one side meets one at a price of the other. -/
def Crosses : OrderType → Int64 → Int64 → Prop
  | .buy, p, p' => p' ≤ p
  | .sell, p, p' => p ≤ p'

instance : (t : OrderType) → (p p' : Int64) → Decidable (Crosses t p p')
  | .buy, p, p' => inferInstanceAs (Decidable (p' ≤ p))
  | .sell, p, p' => inferInstanceAs (Decidable (p ≤ p'))

/-- An order is executed against the best order of the other side if their prices cross, and is
added otherwise. -/
theorem matchOrder_eq (ob : OrderBook) (lo : LimitOrder) :
    ob.matchOrder lo =
      match (ob.levels lo.side.reverse).best with
      | some c => if Crosses lo.side lo.price c.price then .orderExecuted lo c else .orderAdded lo
      | none => .orderAdded lo := by
  obtain ⟨side, price, amount, order⟩ := lo
  cases side <;> rfl

/-- An execution is against the best order of the other side, at a price that crosses it. -/
theorem matchOrder_eq_executed_iff :
    ob.matchOrder lo = .orderExecuted s c ↔
      s = lo ∧ (ob.levels lo.side.reverse).best = some c ∧
        Crosses lo.side lo.price c.price := by
  rw [matchOrder_eq]
  cases hbest : (ob.levels lo.side.reverse).best with
  | none => simp
  | some x =>
      by_cases hx : Crosses lo.side lo.price x.price
      · simp only [hx, if_true, Event.orderExecuted.injEq, Option.some.injEq]
        constructor
        · rintro ⟨rfl, rfl⟩
          exact ⟨rfl, rfl, hx⟩
        · rintro ⟨rfl, rfl, -⟩
          exact ⟨rfl, rfl⟩
      · simp only [hx, if_false, reduceCtorEq, Option.some.injEq, false_iff]
        rintro ⟨-, rfl, hc⟩
        exact hx hc

/-- An order is executed or added. -/
theorem matchOrder_cases (ob : OrderBook) (lo : LimitOrder) :
    (ob.matchOrder lo = .orderAdded lo) ∨ ∃ c, ob.matchOrder lo = .orderExecuted lo c := by
  rw [matchOrder_eq]
  cases (ob.levels lo.side.reverse).best with
  | none => exact .inl rfl
  | some x =>
      by_cases hx : Crosses lo.side lo.price x.price
      · exact .inr ⟨x, by simp [hx]⟩
      · exact .inl (by simp [hx])

/-- An added order is enqueued on its side. -/
theorem updateState_added (ob : OrderBook) (lo : LimitOrder) :
    ob.updateState (.orderAdded lo)
      = .ok (ob.withLevels lo.side ((ob.levels lo.side).enqueue lo)) := by
  obtain ⟨side, price, amount, order⟩ := lo
  cases side <;> rfl

/-- A cancelled order is cancelled on its side. -/
theorem updateState_canceled (ob : OrderBook) (lo : LimitOrder) :
    ob.updateState (.orderCanceled lo)
      = .ok (ob.withLevels lo.side ((ob.levels lo.side).cancel lo)) := by
  obtain ⟨side, price, amount, order⟩ := lo
  cases side <;> rfl

/-- An execution leaves what remains of the counter order on its side. -/
theorem updateState_executed (ob : OrderBook) (s c : LimitOrder) :
    ob.updateState (.orderExecuted s c) =
      (do let l ← (ob.levels c.side).execute c (counterRemaining s c)
          .ok (ob.withLevels c.side l)) := by
  obtain ⟨side, price, amount, order⟩ := c
  cases side <;> rfl

/-- A resting order is in the queue of some price. -/
theorem mem_resting_iff : lo ∈ ob.resting t ↔ ∃ p, lo ∈ ob.queue t p := Levels.mem_orders_iff

/-- Every order sits under its own price and on its own side. -/
def Placed (ob : OrderBook) : Prop :=
  ∀ t p, ∀ lo ∈ ob.queue t p, lo.side = t ∧ lo.price = p

/-- The empty book has every order at its price. -/
theorem placed_empty : empty.Placed := by
  intro t p lo hlo
  cases t <;> cases hlo

/-- In such a book the best order heads the queue of its own price. -/
theorem Placed.best (h : ob.Placed) (hbest : (ob.levels t).best = some c) :
    c.side = t ∧ ∃ rest, (ob.levels t).get c.price = some (c :: rest) := by
  obtain ⟨p, rest, hget, -⟩ := Levels.exists_of_best hbest
  have hmem : c ∈ ob.queue t p := by
    rw [queue, Levels.queue_of_get hget]
    exact List.mem_cons_self
  obtain ⟨hside, hprice⟩ := h t p c hmem
  exact ⟨hside, rest, hprice ▸ hget⟩

/-- What an execution against the best order does. -/
theorem Placed.updateState_executed (h : ob.Placed)
    (hmatch : ob.matchOrder lo = .orderExecuted s c) :
    ∃ rest, (ob.levels c.side).get c.price = some (c :: rest) ∧
      ob.updateState (.orderExecuted s c) =
        .ok (ob.withLevels c.side ((ob.levels c.side).replace c.price
          (if 0 < counterRemaining s c then c.withAmount (counterRemaining s c) :: rest
            else rest))) := by
  obtain ⟨rfl, hbest, -⟩ := matchOrder_eq_executed_iff.mp hmatch
  obtain ⟨hside, rest, hget⟩ := h.best hbest
  rw [← hside] at hget
  refine ⟨rest, hget, ?_⟩
  rw [OrderBook.updateState_executed, Levels.execute_head hget, ok_bind]

/-- The book after an event.  An error leaves it as it was. -/
def applyEvent (ob : OrderBook) (e : Event) : OrderBook × List Unit :=
  (okOr (ob.updateState e) ob, [])

/-- An execution is one that the book itself proposes. -/
def Arises (ob : OrderBook) : Event → Prop
  | .orderExecuted s c => ob.matchOrder s = .orderExecuted s c
  | _ => True

/-- An event that the book accepts leads to the updated book. -/
theorem applyEvent_of_ok {e : Event} (h : ob.updateState e = .ok ob') :
    (applyEvent ob e).1 = ob' := by
  rw [applyEvent, h]
  rfl

/-- Orders stay under their own prices, and no error is raised. -/
theorem Placed.updateState {e : Event} (h : ob.Placed) (he : ob.Arises e) :
    ob.updateState e = .ok (applyEvent ob e).1 ∧ (applyEvent ob e).1.Placed := by
  suffices ∃ ob', ob.updateState e = .ok ob' ∧ ob'.Placed by
    obtain ⟨ob', hstate, hplaced⟩ := this
    rw [applyEvent_of_ok hstate]
    exact ⟨hstate, hplaced⟩
  cases e with
  | orderAdded lo =>
      refine ⟨_, updateState_added ob lo, fun t p x hx => ?_⟩
      rw [queue_withLevels] at hx
      split at hx
      · rename_i ht
        rw [Levels.queue_enqueue] at hx
        split at hx
        · rename_i hp
          rcases List.mem_append.mp hx with hx | hx
          · exact ht ▸ h lo.side p x hx
          · rw [List.mem_singleton.mp hx]
            exact ⟨ht.symm, hp.symm⟩
        · exact ht ▸ h lo.side p x hx
      · exact h t p x hx
  | orderCanceled lo =>
      refine ⟨_, updateState_canceled ob lo, fun t p x hx => ?_⟩
      rw [queue_withLevels] at hx
      split at hx
      · rename_i ht
        rw [Levels.queue_cancel] at hx
        split at hx
        · exact ht ▸ h lo.side p x (List.mem_filter.mp hx).1
        · exact ht ▸ h lo.side p x hx
      · exact h t p x hx
  | orderExecuted s c =>
      -- The counter order is the head of its level, the only case that the match of the source
      -- has.
      obtain ⟨rest, hget, hstate⟩ := h.updateState_executed he
      refine ⟨_, hstate, fun t p x hx => ?_⟩
      have hqueue : ob.queue c.side c.price = c :: rest := Levels.queue_of_get hget
      rw [queue_withLevels] at hx
      split at hx
      · rename_i ht
        rw [Levels.queue_replace] at hx
        split at hx
        · rename_i hp
          have hrest : x ∈ rest → x.side = t ∧ x.price = p := fun hmem => by
            rw [ht, hp]
            exact h c.side c.price x (by rw [hqueue]; exact List.mem_cons_of_mem c hmem)
          split at hx
          · rcases List.mem_cons.mp hx with rfl | hx
            · exact ⟨ht.symm, hp.symm⟩
            · exact hrest hx
          · exact hrest hx
        · exact ht ▸ h c.side p x hx
      · exact h t p x hx

/-- Events that the book proposes are all applied. -/
theorem Placed.foldlM_updateState {es : List Event} (h : ob.Placed)
    (hes : Along applyEvent Arises ob es) :
    es.foldlM OrderBook.updateState ob = .ok (after applyEvent ob es) ∧
      (after applyEvent ob es).Placed := by
  induction es generalizing ob with
  | nil => exact ⟨rfl, h⟩
  | cons e es ih =>
      obtain ⟨hstate, hplaced⟩ := h.updateState hes.1
      rw [List.foldlM_cons, hstate, ok_bind]
      exact ih hplaced hes.2

end OrderBook

end Vsys.Matcher
