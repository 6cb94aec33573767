import Vsys.Lib.TreeMap
import Vsys.Exchange.Orders

/-!
# The order book

Limit orders, the events of a market, and the book of resting orders: two sorted maps from prices
to queues, how a submitted order meets the best resting one, and what each event does to the book.
The two sides differ in the order of their prices only, so each operation on a queue is written
once and used on both.
-/

namespace Vsys.Matcher

open Lib

/-- `LimitOrder`: a `BuyLimitOrder` or a `SellLimitOrder`, told apart by its side, for an amount
of an order that may be less than the whole. -/
@[ext]
structure LimitOrder where
  side : OrderType
  price : Int64
  amount : Int64
  order : Order
  deriving DecidableEq

namespace LimitOrder

/-- `LimitOrder.apply`. -/
def ofOrder (o : Order) : LimitOrder := ⟨o.orderType, o.price, o.amount, o⟩

/-- `partial`: the same order for another amount. -/
def withAmount (lo : LimitOrder) (amount : Int64) : LimitOrder := { lo with amount := amount }

/-- `getSpendAmount`. -/
def getSpendAmount (lo : LimitOrder) : Int64 :=
  match lo.side with
  | .buy => (longValueExact (Order.quoted lo.price lo.amount)).getD Int64.maxValue
  | .sell => lo.amount

/-- `getReceiveAmount`. -/
def getReceiveAmount (lo : LimitOrder) : Int64 :=
  match lo.side with
  | .buy => lo.amount
  | .sell => (longValueExact (Order.quoted lo.price lo.amount)).getD Int64.maxValue

/-- `Try((BigInt(part) * order.matcherFee / order.amount).bigInteger.longValueExact())`: the share
of the matcher's fee for a part of the order. -/
def feeShare (o : Order) (part : Int64) : Option Int64 :=
  if o.amount = 0 then none
  else longValueExact ((part.toInt * o.matcherFee.toInt).tdiv o.amount.toInt)

/-- `feeAmount`. -/
def feeAmount (lo : LimitOrder) : Int64 := (feeShare lo.order lo.amount).getD Int64.maxValue

/-- `remainingAmount`: what the order was executed for. -/
def remainingAmount (lo : LimitOrder) : Int64 := lo.order.amount - lo.amount

/-- `remainingFee`. -/
def remainingFee (lo : LimitOrder) : Int64 :=
  lo.order.matcherFee - (feeShare lo.order lo.remainingAmount).getD 0

/-- `validateAmount`. -/
def validateAmount (lo : LimitOrder) : Validation := lo.order.isValidAmount lo.price lo.amount

/-- `==` of limit orders, which compares their orders with `Order.equals`. -/
def equals (lo other : LimitOrder) : Bool :=
  lo.side = other.side ∧ lo.price = other.price ∧ lo.amount = other.amount
    ∧ lo.order.equals other.order

@[simp]
theorem equals_self (lo : LimitOrder) : lo.equals lo = true := by
  simp [equals]

end LimitOrder

/-- `Events.Event`. -/
inductive Event where
  | orderAdded (order : LimitOrder)
  | orderExecuted (submitted counter : LimitOrder)
  | orderCanceled (limitOrder : LimitOrder)
  deriving DecidableEq

namespace OrderExecuted

/-- `counterRemaining`. -/
def counterRemaining (submitted counter : LimitOrder) : Int64 :=
  max (counter.amount - submitted.amount) 0

/-- `submittedRemaining`. -/
def submittedRemaining (submitted counter : LimitOrder) : Int64 :=
  max (submitted.amount - counter.amount) 0

/-- `executedAmount`. -/
def executedAmount (submitted counter : LimitOrder) : Int64 :=
  min submitted.amount counter.amount

end OrderExecuted

open OrderExecuted

/-- `bidsOrdering`: the highest price first. -/
def bidsOrdering : Int64 ↪ Int :=
  ⟨fun x => -x.toInt, fun _ _ h => Int64.toInt_inj.mp (neg_injective h)⟩

/-- `asksOrdering`: the lowest price first. -/
def asksOrdering : Int64 ↪ Int := ⟨Int64.toInt, fun _ _ h => Int64.toInt_inj.mp h⟩

/-- The order in which a side lists its prices. -/
def orderingOf : OrderType → Int64 ↪ Int
  | .buy => bidsOrdering
  | .sell => asksOrdering

/-- The queues of one side, by price. -/
abbrev Levels (ordering : Int64 ↪ Int) := TreeMap Int64 (List LimitOrder) ordering

namespace Levels

variable {ordering : Int64 ↪ Int}

/-- The first order of the best price. -/
def best (levels : Levels ordering) : Option LimitOrder :=
  levels.headOption.bind fun e => e.2.head?

/-- A queue put back at its price, or the price removed with its last order. -/
def replace (levels : Levels ordering) (p : Int64) (queue : List LimitOrder) : Levels ordering :=
  if queue.isEmpty then levels.erase p else levels.insert p queue

/-- An order at the end of its price's queue. -/
def enqueue (levels : Levels ordering) (o : LimitOrder) : Levels ordering :=
  levels.insert o.price ((levels.get o.price).getD [] ++ [o])

/-- All orders of a queue that compare equal to one are taken out. -/
def cancel (levels : Levels ordering) (oo : LimitOrder) : Levels ordering :=
  match levels.get oo.price with
  | some lvl => levels.replace oo.price (lvl.filter fun lo => !lo.equals oo)
  | none => levels

/-- The first order of a queue that compares equal to `o` is left with `r`.  The tail of an empty
queue is an error. -/
def execute (levels : Levels ordering) (o : LimitOrder) (r : Int64) : Result (Levels ordering) :=
  match levels.get o.price with
  | some l =>
      let (l₁, l₂) := l.span fun lo => !lo.equals o
      match l₂ with
      | _ :: tail =>
          .ok (levels.replace o.price
            (if 0 < r then l₁ ++ [o.withAmount r] ++ tail else l₁ ++ tail))
      | [] => raise .unsupportedOperation
  | none => .ok levels

/-- The resting orders of a side, in the order in which they are met. -/
def orders (levels : Levels ordering) : List LimitOrder := levels.entries.flatMap fun e => e.2

/-- The queue at a price. -/
def queue (levels : Levels ordering) (p : Int64) : List LimitOrder := (levels.get p).getD []

end Levels

/-- `OrderBook`. -/
@[ext]
structure OrderBook where
  bids : Levels bidsOrdering
  asks : Levels asksOrdering

namespace OrderBook

/-- `OrderBook.empty`. -/
def empty : OrderBook := ⟨TreeMap.empty, TreeMap.empty⟩

/-- `bestBid`. -/
def bestBid (ob : OrderBook) : Option LimitOrder := ob.bids.best

/-- `bestAsk`. -/
def bestAsk (ob : OrderBook) : Option LimitOrder := ob.asks.best

/-- `OrderBook.matchOrder`. -/
def matchOrder (ob : OrderBook) (o : LimitOrder) : Event :=
  match o.side with
  | .buy =>
      match ob.bestAsk with
      | some c => if c.price ≤ o.price then .orderExecuted o c else .orderAdded o
      | none => .orderAdded o
  | .sell =>
      match ob.bestBid with
      | some c => if o.price ≤ c.price then .orderExecuted o c else .orderAdded o
      | none => .orderAdded o

/-- `updateCancelOrder`. -/
def updateCancelOrder (ob : OrderBook) (limitOrder : LimitOrder) : OrderBook :=
  match limitOrder.side with
  | .buy => { ob with bids := ob.bids.cancel limitOrder }
  | .sell => { ob with asks := ob.asks.cancel limitOrder }

/-- `updateExecutedBuy`. -/
def updateExecutedBuy (ob : OrderBook) (o : LimitOrder) (r : Int64) : Result OrderBook := do
  let bids ← ob.bids.execute o r
  .ok { ob with bids := bids }

/-- `updateExecutedSell`. -/
def updateExecutedSell (ob : OrderBook) (o : LimitOrder) (r : Int64) : Result OrderBook := do
  let asks ← ob.asks.execute o r
  .ok { ob with asks := asks }

/-- `updateState`. -/
def updateState (ob : OrderBook) (event : Event) : Result OrderBook :=
  match event with
  | .orderAdded o =>
      match o.side with
      | .buy => .ok { ob with bids := ob.bids.enqueue o }
      | .sell => .ok { ob with asks := ob.asks.enqueue o }
  | .orderExecuted s c =>
      match c.side with
      | .buy => ob.updateExecutedBuy c (counterRemaining s c)
      | .sell => ob.updateExecutedSell c (counterRemaining s c)
  | .orderCanceled limitOrder => .ok (ob.updateCancelOrder limitOrder)

/-- The queues of a side. -/
def levels (ob : OrderBook) : (t : OrderType) → Levels (orderingOf t)
  | .buy => ob.bids
  | .sell => ob.asks

/-- The book with the queues of a side set. -/
def withLevels (ob : OrderBook) : (t : OrderType) → Levels (orderingOf t) → OrderBook
  | .buy, levels => { ob with bids := levels }
  | .sell, levels => { ob with asks := levels }

/-- The resting orders of one side. -/
def resting (ob : OrderBook) (t : OrderType) : List LimitOrder := (ob.levels t).orders

/-- The queue of a side at a price. -/
def queue (ob : OrderBook) (t : OrderType) (p : Int64) : List LimitOrder := (ob.levels t).queue p

section Platform

variable [Platform]

/-- `OrderBook.cancelOrder`: the first level, of the bids and then of the asks, that holds the
order, and the order in it. -/
def cancelOrder (ob : OrderBook) (orderId : String) : Option Event :=
  let holds := fun e : Int64 × List LimitOrder => e.2.any fun lo => lo.order.idStr = orderId
  ((ob.bids.entries.find? holds).or (ob.asks.entries.find? holds)).bind fun e =>
    (e.2.find? fun lo => lo.order.idStr = orderId).map Event.orderCanceled

end Platform

end OrderBook

end Vsys.Matcher
