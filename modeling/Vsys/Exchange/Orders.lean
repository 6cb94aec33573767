import Vsys.Account
import Vsys.Lib.Word

/-!
# Orders

Orders to exchange one asset for another: what is signed, what makes an order valid, and what it
spends and receives when an amount of it is executed at a price.
-/

namespace Vsys

open Lib

/-- `OrderType`. -/
inductive OrderType where
  | buy
  | sell
  deriving DecidableEq

/-- `OrderType.bytes`. -/
def OrderType.bytes : OrderType → ByteStr
  | .buy => [0]
  | .sell => [1]

/-- `OrderType.reverse`. -/
def OrderType.reverse : OrderType → OrderType
  | .buy => .sell
  | .sell => .buy

/-- A validation: success, or the label of the first check that failed. -/
abbrev Validation := Except String Unit

/-- `Order.assetIdBytes`. -/
def assetIdBytes : Option ByteStr → ByteStr
  | some a => 1 :: a
  | none => [0]

/-- `AssetPair`. -/
structure AssetPair where
  amountAsset : Option ByteStr
  priceAsset : Option ByteStr
  deriving DecidableEq

/-- `AssetPair.VSYSName`. -/
def AssetPair.VSYSName : String := "VSYS"

/-- `AssetPair.bytes`. -/
def AssetPair.bytes (pair : AssetPair) : ByteStr :=
  assetIdBytes pair.amountAsset ++ assetIdBytes pair.priceAsset

/-- `AssetPair.isValid`. -/
def AssetPair.isValid (pair : AssetPair) : Validation :=
  ensure (pair.amountAsset ≠ pair.priceAsset) "Invalid AssetPair"

/-- `Order`. -/
@[ext]
structure Order where
  senderPublicKey : PublicKeyAccount
  matcherPublicKey : PublicKeyAccount
  assetPair : AssetPair
  orderType : OrderType
  price : Int64
  amount : Int64
  timestamp : Int64
  expiration : Int64
  matcherFee : Int64
  signature : ByteStr
  deriving DecidableEq

namespace Order

/-- `MaxLiveTime`: thirty days in nanoseconds. -/
def MaxLiveTime : Int64 := 30 * 24 * 60 * 60 * 1000 * 1000000

/-- `PriceConstant`. -/
def PriceConstant : Int64 := 100000000

/-- `MaxAmount`. -/
def MaxAmount : Int64 := 100 * PriceConstant * PriceConstant

/-- `getReceiveAssetId`. -/
def getReceiveAssetId (o : Order) : Option ByteStr :=
  match o.orderType with
  | .buy => o.assetPair.amountAsset
  | .sell => o.assetPair.priceAsset

/-- `getSpendAssetId`. -/
def getSpendAssetId (o : Order) : Option ByteStr :=
  match o.orderType with
  | .buy => o.assetPair.priceAsset
  | .sell => o.assetPair.amountAsset

/-- `BigInt(matchAmount) * matchPrice / PriceConstant`. -/
def quoted (matchPrice matchAmount : Int64) : Int :=
  (matchAmount.toInt * matchPrice.toInt).tdiv PriceConstant.toInt

theorem quoted_nonneg {matchPrice matchAmount : Int64} (hprice : 0 < matchPrice)
    (hamount : 0 < matchAmount) : 0 ≤ quoted matchPrice matchAmount :=
  Int.tdiv_nonneg (Int.mul_nonneg (Int.le_of_lt (Int64.lt_iff_toInt_lt.mp hamount))
    (Int.le_of_lt (Int64.lt_iff_toInt_lt.mp hprice))) (by decide)

/-- A value that `longValueExact` may have refused. -/
def exactOrLeft (value : Option Int64) : Result Int64 :=
  match value with
  | some x => .ok x
  | none => left (.genericError "BigInteger out of long range")

/-- `getSpendAmount`: a buyer who pays in the native coin must have room for the fee as well. -/
def getSpendAmount (o : Order) (matchPrice matchAmount : Int64) : Result Int64 :=
  if o.orderType = .sell then .ok matchAmount
  else
    let spend := quoted matchPrice matchAmount
    if o.getSpendAssetId = none ∧ ¬ InWord (spend + o.matcherFee.toInt) then exactOrLeft none
    else exactOrLeft (longValueExact spend)

/-- `getReceiveAmount`. -/
def getReceiveAmount (o : Order) (matchPrice matchAmount : Int64) : Result Int64 :=
  if o.orderType = .buy then .ok matchAmount
  else exactOrLeft (longValueExact (quoted matchPrice matchAmount))

/-- `isValidAmount`. -/
def isValidAmount (o : Order) (matchPrice matchAmount : Int64) : Validation := do
  ensure (0 < matchAmount) "amount should be > 0"
  ensure (0 < matchPrice) "price should be > 0"
  ensure (matchAmount < MaxAmount) "amount too large"
  ensure ((o.getSpendAmount matchPrice matchAmount).isOk = true) "SpendAmount too large"
  ensure (0 < okOr (o.getSpendAmount matchPrice matchAmount) 0) "SpendAmount should be > 0"
  ensure ((o.getReceiveAmount matchPrice matchAmount).isOk = true) "ReceiveAmount too large"
  ensure (0 < okOr (o.getReceiveAmount matchPrice matchAmount) 0) "ReceiveAmount should be > 0"

/-- `isValid`. -/
def isValid (o : Order) (atTime : Int64) : Validation := do
  o.isValidAmount o.price o.amount
  o.assetPair.isValid
  ensure (0 < o.matcherFee) "matcherFee should be > 0"
  ensure (o.matcherFee < MaxAmount) "matcherFee too large"
  ensure (0 < o.timestamp) "timestamp should be > 0"
  ensure (o.expiration - atTime ≤ MaxLiveTime) "expiration should be earlier than 30 days"
  ensure (atTime ≤ o.expiration) "expiration should be > currentTime"

/-- `equals`: the line break after the asset pairs ends an expression whose value is dropped, and
the comparison of the order types is dropped as well. -/
def equals (o other : Order) : Bool :=
  o.price = other.price ∧ o.amount = other.amount ∧ o.expiration = other.expiration
    ∧ o.matcherFee = other.matcherFee ∧ o.signature = other.signature

@[simp]
theorem equals_self (o : Order) : o.equals o = true := by
  simp [equals]

/-- `toSign`. -/
def toSign (o : Order) : ByteStr :=
  o.senderPublicKey.publicKey ++ o.matcherPublicKey.publicKey ++ o.assetPair.bytes
    ++ o.orderType.bytes ++ Longs.toByteArray o.price ++ Longs.toByteArray o.amount
    ++ Longs.toByteArray o.timestamp ++ Longs.toByteArray o.expiration
    ++ Longs.toByteArray o.matcherFee

/-- `bytes`. -/
def bytes (o : Order) : ByteStr := o.toSign ++ o.signature

theorem exactOrLeft_eq_ok_iff {n : Int} {x : Int64} :
    exactOrLeft (longValueExact n) = .ok x ↔ x.toInt = n := by
  rw [← longValueExact_eq_some]
  unfold exactOrLeft
  cases longValueExact n with
  | none => simp
  | some y => simp

/-- What a buyer spends is the quoted amount, without a wrap. -/
theorem getSpendAmount_of_buy {o : Order} {matchPrice matchAmount x : Int64}
    (htype : o.orderType = .buy) (h : o.getSpendAmount matchPrice matchAmount = .ok x) :
    x.toInt = quoted matchPrice matchAmount := by
  have hbuy : ¬ o.orderType = .sell := by rw [htype]; decide
  rw [getSpendAmount, if_neg hbuy] at h
  simp only at h
  split at h
  · cases h
  · exact exactOrLeft_eq_ok_iff.mp h

/-- What a seller receives is the quoted amount, without a wrap. -/
theorem getReceiveAmount_of_sell {o : Order} {matchPrice matchAmount x : Int64}
    (htype : o.orderType = .sell) (h : o.getReceiveAmount matchPrice matchAmount = .ok x) :
    x.toInt = quoted matchPrice matchAmount := by
  have hsell : ¬ o.orderType = .buy := by rw [htype]; decide
  rw [getReceiveAmount, if_neg hsell] at h
  exact exactOrLeft_eq_ok_iff.mp h

/-- A valid amount at a valid price: what the checks say. -/
theorem isValidAmount_eq_ok_iff {o : Order} {matchPrice matchAmount : Int64} :
    o.isValidAmount matchPrice matchAmount = .ok () ↔
      0 < matchAmount ∧ 0 < matchPrice ∧ matchAmount < MaxAmount
        ∧ (o.getSpendAmount matchPrice matchAmount).isOk = true
        ∧ 0 < okOr (o.getSpendAmount matchPrice matchAmount) 0
        ∧ (o.getReceiveAmount matchPrice matchAmount).isOk = true
        ∧ 0 < okOr (o.getReceiveAmount matchPrice matchAmount) 0 := by
  simp only [isValidAmount, bind_eq_ok_iff, ensure_eq_ok_iff, exists_and_left, exists_const]

/-- What the checks of an order say. -/
theorem isValid_eq_ok_iff {o : Order} {atTime : Int64} :
    o.isValid atTime = .ok () ↔
      o.isValidAmount o.price o.amount = .ok () ∧ o.assetPair.amountAsset ≠ o.assetPair.priceAsset
        ∧ 0 < o.matcherFee ∧ o.matcherFee < MaxAmount ∧ 0 < o.timestamp
        ∧ o.expiration - atTime ≤ MaxLiveTime ∧ atTime ≤ o.expiration := by
  simp only [isValid, AssetPair.isValid, bind_eq_ok_iff, ensure_eq_ok_iff, exists_and_left,
    exists_const]
  constructor
  · rintro ⟨⟨⟩, h⟩
    exact h
  · exact fun h => ⟨(), h⟩

section Platform

variable [Platform]

/-- `id`. -/
def id (o : Order) : ByteStr := Platform.fastHash o.toSign

/-- `idStr`. -/
def idStr (o : Order) : String := Platform.base58 o.id

/-- `signatureValid`. -/
def signatureValid (o : Order) : Bool :=
  Platform.verify o.signature o.toSign o.senderPublicKey.publicKey

end Platform

end Order

section Platform

variable [Platform]

/-- The name of an asset: its Base58 form, or the name of the native coin. -/
def assetName (assetId : Option ByteStr) : String :=
  (assetId.map Platform.base58).getD AssetPair.VSYSName

/-- `AssetPair.key`. -/
def AssetPair.key (pair : AssetPair) : String :=
  assetName pair.amountAsset ++ "-" ++ assetName pair.priceAsset

/-- `AssetPair.equals`. -/
def AssetPair.equals (pair other : AssetPair) : Bool := pair.key = other.key

end Platform

end Vsys
