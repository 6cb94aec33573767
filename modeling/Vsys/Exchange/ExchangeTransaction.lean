import Vsys.Exchange.Orders
import Vsys.State.Reader

/-!
# Exchange transactions

A matcher executes an amount of a buy order and a sell order at a price.  What `create` checks of
such a transaction, and the transaction as one of a block.
-/

namespace Vsys

open Lib

/-- `ExchangeTransaction`. -/
structure ExchangeTransaction where
  buyOrder : Order
  sellOrder : Order
  price : Int64
  amount : Int64
  buyMatcherFee : Int64
  sellMatcherFee : Int64
  fee : Int64
  timestamp : Int64
  signature : ByteStr
  deriving DecidableEq

/-- An order that is not valid at a time is an `OrderValidationError`. -/
def orderValidated (order : Order) (atTime : Int64) : Result Unit :=
  match order.isValid atTime with
  | .ok () => .ok ()
  | .error messages => left (.orderValidationError order.bytes messages)

/-- `liftValidationError`, of the errors that an order's amounts can have. -/
def liftValidationError {α : Type} : Result α → Result α
  | .error (.left (.genericError err)) => left (.genericError s!"GenericError({err})")
  | r => r

theorem orderValidated_eq_ok_iff {order : Order} {atTime : Int64} {u : Unit} :
    orderValidated order atTime = .ok u ↔ order.isValid atTime = .ok () := by
  unfold orderValidated
  split <;> simp_all

theorem liftValidationError_eq_ok_iff {α : Type} {r : Result α} {a : α} :
    liftValidationError r = .ok a ↔ r = .ok a := by
  unfold liftValidationError
  split <;> simp

theorem exchangeTransaction_legacy : 11 ≤ TransactionType.exchangeTransaction.id := by decide

section Platform

variable [Platform]

namespace ExchangeTransaction

/-- `ExchangeTransaction.create`. -/
def create (buyOrder sellOrder : Order)
    (price amount buyMatcherFee sellMatcherFee fee timestamp : Int64) (signature : ByteStr) :
    Result ExchangeTransaction := do
  cond (0 < fee) .insufficientFee
  cond (0 < amount) .negativeAmount
  cond (0 < price) (.genericError "price should be > 0")
  cond (price ≤ Order.MaxAmount) (.genericError "price too large")
  cond (amount ≤ Order.MaxAmount) (.genericError "amount too large")
  cond (sellMatcherFee ≤ Order.MaxAmount) (.genericError "sellMatcherFee too large")
  cond (buyMatcherFee ≤ Order.MaxAmount) (.genericError "buyMatcherFee too large")
  cond (fee ≤ Order.MaxAmount) (.genericError "fee too large")
  cond (buyOrder.orderType = .buy) (.genericError "buyOrder should has OrderType.BUY")
  cond (sellOrder.orderType = .sell) (.genericError "sellOrder should has OrderType.SELL")
  cond (buyOrder.matcherPublicKey = sellOrder.matcherPublicKey)
    (.genericError "buyOrder.matcher should be the same as sellOrder.matcher")
  cond (buyOrder.assetPair.equals sellOrder.assetPair)
    (.genericError "Both orders should have same AssetPair")
  orderValidated buyOrder timestamp
  orderValidated sellOrder timestamp
  cond (price ≤ buyOrder.price ∧ sellOrder.price ≤ price) (.genericError "priceIsValid")
  .ok ⟨buyOrder, sellOrder, price, amount, buyMatcherFee, sellMatcherFee, fee, timestamp, signature⟩

variable (tx : ExchangeTransaction)

/-- A transaction that `create` builds; there is no other way to one. -/
def Created : Prop :=
  create tx.buyOrder tx.sellOrder tx.price tx.amount tx.buyMatcherFee tx.sellMatcherFee tx.fee
    tx.timestamp tx.signature = .ok tx

/-- What the checks of a transaction say. -/
theorem created_iff {tx : ExchangeTransaction} : tx.Created ↔
    0 < tx.fee ∧ 0 < tx.amount ∧ 0 < tx.price ∧ tx.price ≤ Order.MaxAmount
      ∧ tx.amount ≤ Order.MaxAmount ∧ tx.sellMatcherFee ≤ Order.MaxAmount
      ∧ tx.buyMatcherFee ≤ Order.MaxAmount ∧ tx.fee ≤ Order.MaxAmount
      ∧ tx.buyOrder.orderType = .buy ∧ tx.sellOrder.orderType = .sell
      ∧ tx.buyOrder.matcherPublicKey = tx.sellOrder.matcherPublicKey
      ∧ tx.buyOrder.assetPair.equals tx.sellOrder.assetPair
      ∧ tx.buyOrder.isValid tx.timestamp = .ok () ∧ tx.sellOrder.isValid tx.timestamp = .ok ()
      ∧ tx.price ≤ tx.buyOrder.price ∧ tx.sellOrder.price ≤ tx.price := by
  simp only [Created, create, bind_eq_ok_iff, cond_eq_ok_iff, exists_and_left, exists_const,
    orderValidated_eq_ok_iff]
  simp

/-- `sender`. -/
def sender : PublicKeyAccount := tx.buyOrder.matcherPublicKey

/-- `assetFee`. -/
def assetFee : AssetFee := (none, tx.fee, 100)

/-- `toSign`. -/
def toSign : ByteStr :=
  TransactionType.exchangeTransaction.id :: Ints.toByteArray (.ofNat tx.buyOrder.bytes.length)
    ++ Ints.toByteArray (.ofNat tx.sellOrder.bytes.length) ++ tx.buyOrder.bytes
    ++ tx.sellOrder.bytes ++ Longs.toByteArray tx.price ++ Longs.toByteArray tx.amount
    ++ Longs.toByteArray tx.buyMatcherFee ++ Longs.toByteArray tx.sellMatcherFee
    ++ Longs.toByteArray tx.fee ++ Longs.toByteArray tx.timestamp

/-- The transaction as one of a block. -/
def toTransaction : Transaction :=
  .legacy
    { transactionType := .exchangeTransaction
      legacy := exchangeTransaction_legacy
      id := Platform.fastHash tx.toSign
      timestamp := tx.timestamp
      assetFee := tx.assetFee
      signatureValid := Platform.verify tx.signature tx.toSign tx.sender.publicKey
        && tx.buyOrder.signatureValid && tx.sellOrder.signatureValid
      bytes := tx.toSign ++ tx.signature }

end ExchangeTransaction

end Platform

end Vsys
