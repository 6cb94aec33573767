import Mathlib.Algebra.BigOperators.Group.Finset.Piecewise
import Mathlib.Data.List.Infix
import Vsys.Exchange.ExchangeTransaction
import Vsys.State.Stacking

/-!
# The effect of an exchange transaction

Each party pays its matcher's fee and one asset and receives the other, the matcher takes the fees
and pays the transaction's own, and both orders are filled by the amount.  One account may be
several of the three, so the changes are combined.  They add up exactly, to the transaction's fee,
where no `Long` overflows.
-/

namespace Vsys

open Lib

section Platform

variable [Platform]

namespace ExchangeTransactionDiff

/-- `isFeeValid`, with the division that raises where there is nothing to divide by. -/
def isFeeValid (feeTotal amountTotal maxfee maxAmount : Int64) : Result Bool :=
  if maxAmount = 0 then raise .arithmetic
  else .ok (feeTotal.toInt ≤ (maxfee.toInt * amountTotal.toInt).tdiv maxAmount.toInt)

/-- `enoughVolume`. -/
def enoughVolume (exTrans : ExchangeTransaction) (s : StateView) : Result Unit :=
  let filledBuy := s.filledVolumeAndFee exTrans.buyOrder.id
  let filledSell := s.filledVolumeAndFee exTrans.sellOrder.id
  let buyTotal := filledBuy.volume + exTrans.amount
  let sellTotal := filledSell.volume + exTrans.amount
  if ¬ buyTotal ≤ exTrans.buyOrder.amount then
    left (.orderValidationError exTrans.buyOrder.bytes
      s!"Too much buy. Already filled volume for the order: {filledBuy.volume}")
  else if ¬ sellTotal ≤ exTrans.sellOrder.amount then
    left (.orderValidationError exTrans.sellOrder.bytes
      s!"Too much sell. Already filled volume for the order: {filledSell.volume}")
  else do
    let buyFeeValid ← isFeeValid (filledBuy.fee + exTrans.buyMatcherFee) buyTotal
      exTrans.buyOrder.matcherFee exTrans.buyOrder.amount
    if ¬ buyFeeValid then
      left (.orderValidationError exTrans.buyOrder.bytes "Insufficient buy fee")
    else
      let sellFeeValid ← isFeeValid (filledSell.fee + exTrans.sellMatcherFee) sellTotal
        exTrans.sellOrder.matcherFee exTrans.sellOrder.amount
      if ¬ sellFeeValid then
        left (.orderValidationError exTrans.sellOrder.bytes "Insufficient sell fee")
      else .ok ()

/-- A portfolio with an amount of an asset, or of the native coin. -/
def amountIn (asset : Option ByteStr) (amount : Int64) : Portfolio :=
  match asset with
  | some assetId => ⟨0, LeaseInfo.empty, Finmap.singleton assetId amount⟩
  | none => Portfolio.ofBalance amount

/-- `Monoid.combineAll` of maps of portfolios. -/
def combineAll (maps : List (Dict Address Portfolio)) : Dict Address Portfolio :=
  maps.foldl (Dict.mergeWith Portfolio.combine) ∅

/-- `feeDiff`. -/
def feeDiff (tx : ExchangeTransaction) : Dict Address Portfolio :=
  combineAll
    [Finmap.singleton tx.buyOrder.matcherPublicKey.toAddress
        (Portfolio.ofBalance (tx.buyMatcherFee + tx.sellMatcherFee - tx.fee)),
      Finmap.singleton tx.buyOrder.senderPublicKey.toAddress
        (Portfolio.ofBalance (-tx.buyMatcherFee)),
      Finmap.singleton tx.sellOrder.senderPublicKey.toAddress
        (Portfolio.ofBalance (-tx.sellMatcherFee))]

/-- `priceDiff` and `amountDiff`, which differ in the asset and the two changes. -/
def assetDiff (tx : ExchangeTransaction) (asset : Option ByteStr) (buyChange sellChange : Int64) :
    Dict Address Portfolio :=
  Dict.mergeWith Portfolio.combine
    (Finmap.singleton tx.buyOrder.senderPublicKey.toAddress (amountIn asset buyChange))
    (Finmap.singleton tx.sellOrder.senderPublicKey.toAddress (amountIn asset sellChange))

/-- `ExchangeTransactionDiff.apply`. -/
def apply (s : StateView) (height : Nat) (tx : ExchangeTransaction) : Result Diff := do
  enoughVolume tx s
  let buyPriceAssetChange ←
    (- ·) <$> liftValidationError (tx.buyOrder.getSpendAmount tx.price tx.amount)
  let buyAmountAssetChange ← liftValidationError (tx.buyOrder.getReceiveAmount tx.price tx.amount)
  let sellPriceAssetChange ← liftValidationError (tx.sellOrder.getReceiveAmount tx.price tx.amount)
  let sellAmountAssetChange ←
    (- ·) <$> liftValidationError (tx.sellOrder.getSpendAmount tx.price tx.amount)
  .ok (Diff.apply height tx.toTransaction
    { portfolios := combineAll
        [feeDiff tx,
          assetDiff tx tx.buyOrder.assetPair.priceAsset buyPriceAssetChange sellPriceAssetChange,
          assetDiff tx tx.buyOrder.assetPair.amountAsset buyAmountAssetChange
            sellAmountAssetChange]
      orderFills := ((∅ : Dict ByteStr OrderFillInfo).insert tx.buyOrder.id
        ⟨tx.amount, tx.buyMatcherFee⟩).insert tx.sellOrder.id ⟨tx.amount, tx.sellMatcherFee⟩
      chargedFee := tx.fee } ∅)

end ExchangeTransactionDiff

end Platform

/-- The amount of an asset, or of the native coin, in a portfolio. -/
def Portfolio.amountOf (p : Portfolio) : Option ByteStr → Int64
  | some assetId => (p.assets.lookup assetId).getD 0
  | none => p.balance

@[simp]
theorem Portfolio.amountOf_empty (asset : Option ByteStr) : empty.amountOf asset = 0 := by
  cases asset <;> rfl

theorem Portfolio.amountOf_combine (p q : Portfolio) (asset : Option ByteStr) :
    (p.combine q).amountOf asset = safeSum (p.amountOf asset) (q.amountOf asset) := by
  cases asset with
  | none => rfl
  | some assetId =>
      unfold amountOf combine
      simp only [Dict.lookup_mergeWith]
      cases p.assets.lookup assetId with
      | none =>
          cases q.assets.lookup assetId with
          | none => exact (safeSum_zero 0).symm
          | some y => exact (zero_safeSum y).symm
      | some x =>
          cases q.assets.lookup assetId with
          | none => exact (safeSum_zero x).symm
          | some y => rfl

/-- Summing up words is exact where every partial sum fits. -/
theorem toInt_foldl_safeSum {x : Int64} {l : List Int64}
    (h : ∀ l', l' <+: l → InWord (x.toInt + (l'.map Int64.toInt).sum)) :
    (l.foldl safeSum x).toInt = x.toInt + (l.map Int64.toInt).sum := by
  induction l generalizing x with
  | nil => simp
  | cons y l ih =>
      have hy : (safeSum x y).toInt = x.toInt + y.toInt := by
        apply toInt_safeSum
        simpa using h [y] ⟨l, rfl⟩
      rw [List.foldl_cons, ih, hy, List.map_cons, List.sum_cons, Int.add_assoc]
      intro l' hl'
      have hcons := h (y :: l') (List.cons_prefix_cons.mpr ⟨rfl, hl'⟩)
      rwa [List.map_cons, List.sum_cons, ← Int.add_assoc, ← hy] at hcons

section Platform

variable [Platform]

namespace ExchangeTransactionDiff

variable {s : StateView} {height : Nat} {tx : ExchangeTransaction} {d : Diff} {a a' : Address}
  {asset : Option ByteStr}

omit [Platform] in
theorem amountOf_amountIn (asset asset' : Option ByteStr) (x : Int64) :
    (amountIn asset' x).amountOf asset = if asset = asset' then x else 0 := by
  cases asset' with
  | none => cases asset <;> rfl
  | some assetId' =>
      cases asset with
      | none => rfl
      | some assetId =>
          unfold Portfolio.amountOf amountIn
          simp only [Dict.lookup_singleton, Option.some.injEq]
          split <;> rfl

/-- What a map of portfolios changes for an account. -/
def change (portfolios : Dict Address Portfolio) (a : Address) (asset : Option ByteStr) : Int64 :=
  ((portfolios.lookup a).getD Portfolio.empty).amountOf asset

theorem change_mergeWith (p q : Dict Address Portfolio) (a : Address) (asset : Option ByteStr) :
    change (Dict.mergeWith Portfolio.combine p q) a asset =
      safeSum (change p a asset) (change q a asset) := by
  unfold change
  rw [← Portfolio.amountOf_combine, Dict.lookup_mergeWith]
  cases p.lookup a with
  | none =>
      cases q.lookup a with
      | none => simp
      | some y => simp
  | some x =>
      cases q.lookup a with
      | none => simp
      | some y => rfl

theorem change_singleton (p : Portfolio) :
    change (Finmap.singleton a' p) a asset = if a = a' then p.amountOf asset else 0 := by
  rw [change, Dict.lookup_singleton]
  split
  · rfl
  · exact Portfolio.amountOf_empty asset

theorem change_combineAll (maps : List (Dict Address Portfolio)) :
    change (combineAll maps) a asset = (maps.map (change · a asset)).foldl safeSum 0 := by
  have hfold (m : Dict Address Portfolio) : ∀ maps : List (Dict Address Portfolio),
      change (maps.foldl (Dict.mergeWith Portfolio.combine) m) a asset =
        (maps.map (change · a asset)).foldl safeSum (change m a asset) := by
    intro maps
    induction maps generalizing m with
    | nil => rfl
    | cons p maps ih => rw [List.foldl_cons, ih, change_mergeWith, List.map_cons, List.foldl_cons]
  rw [combineAll, hfold]
  exact congrArg (List.foldl safeSum · _) (Portfolio.amountOf_empty asset)

/-- What is moved for an account, if it is the one. -/
def part (a : Address) (asset : Option ByteStr) (who : PublicKeyAccount) (what : Option ByteStr)
    (n : Int) : Int :=
  if a = who.toAddress ∧ asset = what then n else 0

/-- What a transaction moves for an account at an asset, in the order in which the changes are
combined. -/
def parts (tx : ExchangeTransaction) (a : Address) (asset : Option ByteStr) : List Int :=
  let total := Order.quoted tx.price tx.amount
  let buyer := tx.buyOrder.senderPublicKey
  let seller := tx.sellOrder.senderPublicKey
  [part a asset tx.buyOrder.matcherPublicKey none
      (tx.buyMatcherFee.toInt + tx.sellMatcherFee.toInt - tx.fee.toInt),
    part a asset buyer none (-tx.buyMatcherFee.toInt),
    part a asset seller none (-tx.sellMatcherFee.toInt),
    part a asset buyer tx.buyOrder.assetPair.priceAsset (-total)
      + part a asset seller tx.buyOrder.assetPair.priceAsset total,
    part a asset buyer tx.buyOrder.assetPair.amountAsset tx.amount.toInt
      + part a asset seller tx.buyOrder.assetPair.amountAsset (-tx.amount.toInt)]

/-- The parties of a transaction: the matcher, the buyer and the seller. -/
def parties (tx : ExchangeTransaction) : List Address :=
  [tx.buyOrder.matcherPublicKey.toAddress, tx.buyOrder.senderPublicKey.toAddress,
    tx.sellOrder.senderPublicKey.toAddress]

/-- No `Long` overflows: the fees can be taken off, and what each party gets of the native coin
fits after every change. -/
def Fits (tx : ExchangeTransaction) : Prop :=
  InWord (-tx.buyMatcherFee.toInt) ∧ InWord (-tx.sellMatcherFee.toInt) ∧
    ∀ a ∈ parties tx, ∀ l ∈ (parts tx a none).inits, InWord l.sum

instance (tx : ExchangeTransaction) : Decidable (Fits tx) :=
  inferInstanceAs (Decidable (InWord _ ∧ InWord _ ∧
    ∀ a ∈ parties tx, ∀ l ∈ (parts tx a none).inits, InWord l.sum))

/-- An order has room for an amount and a fee, beside what it is filled by. -/
def Admits (o : Order) (filled : OrderFillInfo) (amount fee : Int64) : Prop :=
  filled.volume + amount ≤ o.amount ∧
    (filled.fee + fee).toInt ≤
      (o.matcherFee.toInt * (filled.volume + amount).toInt).tdiv o.amount.toInt

omit [Platform] in
theorem isFeeValid_eq_ok {feeTotal amountTotal maxfee maxAmount : Int64} {valid : Bool}
    (h : isFeeValid feeTotal amountTotal maxfee maxAmount = .ok valid) :
    valid = true ↔ feeTotal.toInt ≤ (maxfee.toInt * amountTotal.toInt).tdiv maxAmount.toInt := by
  unfold isFeeValid at h
  split at h
  · cases h
  · cases h
    exact decide_eq_true_iff

/-- Where the volume is enough, both orders have room. -/
theorem enoughVolume_eq_ok (h : enoughVolume tx s = .ok ()) :
    Admits tx.buyOrder (s.filledVolumeAndFee tx.buyOrder.id) tx.amount tx.buyMatcherFee ∧
      Admits tx.sellOrder (s.filledVolumeAndFee tx.sellOrder.id) tx.amount
        tx.sellMatcherFee := by
  unfold enoughVolume at h
  simp only at h
  split at h
  · cases h
  · rename_i hbuy
    split at h
    · cases h
    · rename_i hsell
      obtain ⟨buyFeeValid, hbuyFee, h⟩ := bind_eq_ok_iff.mp h
      split at h
      · cases h
      · rename_i hbuyValid
        obtain ⟨sellFeeValid, hsellFee, h⟩ := bind_eq_ok_iff.mp h
        split at h
        · cases h
        · rename_i hsellValid
          exact ⟨⟨not_not.mp hbuy, (isFeeValid_eq_ok hbuyFee).mp (not_not.mp hbuyValid)⟩,
            not_not.mp hsell, (isFeeValid_eq_ok hsellFee).mp (not_not.mp hsellValid)⟩

/-- Both parties agree on what the amount costs, and the diff consists of their changes. -/
theorem apply_eq_ok (hcreated : tx.Created) (h : apply s height tx = .ok d) :
    enoughVolume tx s = .ok () ∧
    (∃ total : Int64, total.toInt = Order.quoted tx.price tx.amount ∧
      d.portfolios = combineAll
        [feeDiff tx, assetDiff tx tx.buyOrder.assetPair.priceAsset (-total) total,
          assetDiff tx tx.buyOrder.assetPair.amountAsset tx.amount (-tx.amount)]) ∧
    d.orderFills = ((∅ : Dict ByteStr OrderFillInfo).insert tx.buyOrder.id
        ⟨tx.amount, tx.buyMatcherFee⟩).insert tx.sellOrder.id ⟨tx.amount, tx.sellMatcherFee⟩ := by
  obtain ⟨-, -, -, -, -, -, -, -, hbuy, hsell, -⟩ := ExchangeTransaction.created_iff.mp hcreated
  simp only [apply, bind_eq_ok_iff, map_eq_ok_iff, liftValidationError_eq_ok_iff] at h
  obtain ⟨⟨⟩, hvolume, _, ⟨spend, hspend, rfl⟩, receive, hreceive, total, htotal, _,
    ⟨sold, hsold, rfl⟩, hd⟩ := h
  cases hd
  rw [Order.getReceiveAmount, if_pos hbuy] at hreceive
  rw [Order.getSpendAmount, if_pos hsell] at hsold
  cases hreceive
  cases hsold
  have hspent := Order.getSpendAmount_of_buy hbuy hspend
  have hreceived := Order.getReceiveAmount_of_sell hsell htotal
  obtain rfl : spend = total := Int64.toInt_inj.mp (hspent.trans hreceived.symm)
  exact ⟨hvolume, ⟨spend, hspent, rfl⟩, rfl⟩

/-- What the parts of a diff come to, as words. -/
theorem change_portfolios (tx : ExchangeTransaction) (total : Int64) (a : Address)
    (asset : Option ByteStr) :
    change (combineAll
        [feeDiff tx, assetDiff tx tx.buyOrder.assetPair.priceAsset (-total) total,
          assetDiff tx tx.buyOrder.assetPair.amountAsset tx.amount (-tx.amount)]) a asset =
      List.foldl safeSum 0
        [change (Finmap.singleton tx.buyOrder.matcherPublicKey.toAddress
            (Portfolio.ofBalance (tx.buyMatcherFee + tx.sellMatcherFee - tx.fee))) a asset,
          change (Finmap.singleton tx.buyOrder.senderPublicKey.toAddress
            (Portfolio.ofBalance (-tx.buyMatcherFee))) a asset,
          change (Finmap.singleton tx.sellOrder.senderPublicKey.toAddress
            (Portfolio.ofBalance (-tx.sellMatcherFee))) a asset,
          change (assetDiff tx tx.buyOrder.assetPair.priceAsset (-total) total) a asset,
          change (assetDiff tx tx.buyOrder.assetPair.amountAsset tx.amount (-tx.amount)) a
            asset] := by
  rw [change_combineAll]
  simp only [List.map_cons, List.map_nil, List.foldl_cons, List.foldl_nil, zero_safeSum, feeDiff,
    change_combineAll]

/-- A change of one account in one asset, as an integer. -/
theorem toInt_change_singleton (a : Address) (asset : Option ByteStr) (who : PublicKeyAccount)
    (what : Option ByteStr) {x : Int64} {n : Int}
    (h : a = who.toAddress ∧ asset = what → x.toInt = n) :
    (change (Finmap.singleton who.toAddress (amountIn what x)) a asset).toInt =
      part a asset who what n := by
  rw [change_singleton, amountOf_amountIn]
  unfold part
  by_cases hwho : a = who.toAddress
  · by_cases hwhat : asset = what
    · rw [if_pos hwho, if_pos hwhat, if_pos ⟨hwho, hwhat⟩, h ⟨hwho, hwhat⟩]
    · rw [if_pos hwho, if_neg hwhat, if_neg fun h => hwhat h.2]
      rfl
  · rw [if_neg hwho, if_neg fun h => hwho h.1]
    rfl

/-- What changes hands in an asset is exact, as the two amounts cancel out. -/
theorem toInt_change_assetDiff (tx : ExchangeTransaction) (a : Address)
    (asset what : Option ByteStr) {x y : Int64} (hcancel : x.toInt + y.toInt = 0) :
    (change (assetDiff tx what x y) a asset).toInt =
      part a asset tx.buyOrder.senderPublicKey what x.toInt
        + part a asset tx.sellOrder.senderPublicKey what y.toInt := by
  have hbuyer := toInt_change_singleton a asset tx.buyOrder.senderPublicKey what
    fun _ => (rfl : x.toInt = x.toInt)
  have hseller := toInt_change_singleton a asset tx.sellOrder.senderPublicKey what
    fun _ => (rfl : y.toInt = y.toInt)
  rw [assetDiff, change_mergeWith, toInt_safeSum, hbuyer, hseller]
  rw [hbuyer, hseller]
  have hx := inWord_toInt x
  have hy := inWord_toInt y
  unfold part InWord at *
  split <;> split <;> omega

omit [Platform] in
/-- The matcher's part does not wrap where it fits, whatever the partial sum does. -/
theorem toInt_add_sub_exact {x y z : Int64} (h : InWord (x.toInt + y.toInt - z.toInt)) :
    (x + y - z).toInt = x.toInt + y.toInt - z.toInt := by
  unfold InWord at h
  rw [Int64.toInt_sub, Int64.toInt_add, Int.bmod_def, Int.bmod_def]
  omega

theorem part_of_ne {who : PublicKeyAccount} {what : Option ByteStr} {n : Int}
    (h : a ≠ who.toAddress ∨ asset ≠ what) : part a asset who what n = 0 := by
  refine if_neg fun heq => ?_
  rcases h with h | h
  · exact h heq.1
  · exact h heq.2

omit [Platform] in
theorem inWord_neg {n : Int} (hnonneg : 0 ≤ n) (h : InWord n) : InWord (-n) := by
  unfold InWord at *
  omega

omit [Platform] in
/-- The sums of the prefixes of the changes of an issued asset, which starts with no fees. -/
theorem sum_prefix {u v : Int} {l : List Int} (h : l <+: [0, 0, 0, u, v]) :
    l.sum = 0 ∨ l.sum = u ∨ l.sum = u + v := by
  have hmem := (List.mem_inits _ _).mpr h
  simp only [List.inits, List.map_cons, List.map_nil, List.mem_cons, List.not_mem_nil,
    or_false] at hmem
  rcases hmem with rfl | rfl | rfl | rfl | rfl | rfl <;> simp

/-- Two amounts that cancel out fit together, whoever gets them. -/
theorem inWord_parts (a : Address) (asset : Option ByteStr) (who who' : PublicKeyAccount)
    (what : Option ByteStr) {n m : Int} (hn : InWord n) (hm : InWord m) (hcancel : n + m = 0) :
    InWord (part a asset who what n + part a asset who' what m) := by
  unfold part
  unfold InWord at *
  split <;> split <;> omega

/-- Whatever the account and the asset are, the partial sums fit. -/
theorem inWord_of_fits (hcreated : tx.Created) (hfits : Fits tx) {total : Int64}
    (htotal : total.toInt = Order.quoted tx.price tx.amount) (a : Address)
    (asset : Option ByteStr) {l : List Int} (hl : l <+: parts tx a asset) : InWord l.sum := by
  cases asset with
  | none =>
      by_cases ha : a ∈ parties tx
      · exact hfits.2.2 a ha l ((List.mem_inits _ _).mpr hl)
      · simp only [parties, List.mem_cons, List.not_mem_nil, or_false, not_or] at ha
        have hzero : l.sum = 0 := by
          apply List.sum_eq_zero
          intro n hn
          have hmem := hl.subset hn
          simp only [parts, part_of_ne (.inl ha.1), part_of_ne (.inl ha.2.1),
            part_of_ne (.inl ha.2.2), List.mem_cons, List.not_mem_nil, or_false] at hmem
          omega
        rw [hzero]
        decide
  | some assetId =>
      obtain ⟨-, hamount, hprice, -, -, -, -, -, -, -, -, -, hvalid, -⟩ :=
        ExchangeTransaction.created_iff.mp hcreated
      have hpair := (Order.isValid_eq_ok_iff.mp hvalid).2.1
      have hword := inWord_toInt total
      have hnonneg := Order.quoted_nonneg hprice hamount
      have hamountWord := inWord_toInt tx.amount
      have hamountPos : 0 < tx.amount.toInt := Int64.lt_iff_toInt_lt.mp hamount
      rw [htotal] at hword
      have hu := inWord_parts a (some assetId) tx.buyOrder.senderPublicKey
        tx.sellOrder.senderPublicKey tx.buyOrder.assetPair.priceAsset
        (inWord_neg hnonneg hword) hword (Int.add_left_neg _)
      have hv := inWord_parts a (some assetId) tx.buyOrder.senderPublicKey
        tx.sellOrder.senderPublicKey tx.buyOrder.assetPair.amountAsset
        hamountWord (inWord_neg (Int.le_of_lt hamountPos) hamountWord) (Int.add_right_neg _)
      have hnone : (some assetId : Option ByteStr) ≠ none := Option.some_ne_none assetId
      rw [parts] at hl
      simp only [part_of_ne (.inr hnone)] at hl
      rcases sum_prefix hl with hsum | hsum | hsum
      · rw [hsum]
        decide
      · rw [hsum]
        exact hu
      · rw [hsum]
        -- The two assets of a valid pair differ, so only one of the amounts is in this one.
        by_cases hprice : some assetId = tx.buyOrder.assetPair.priceAsset
        · have hother : some assetId ≠ tx.buyOrder.assetPair.amountAsset :=
            fun heq => hpair (heq.symm.trans hprice)
          simp only [part_of_ne (.inr hother), Int.add_zero]
          exact hu
        · simp only [part_of_ne (.inr hprice), Int.zero_add]
          exact hv

/-- The matcher's part is the first of its own, so it fits. -/
theorem Fits.inWord_fees (hfits : Fits tx) :
    InWord (tx.buyMatcherFee.toInt + tx.sellMatcherFee.toInt - tx.fee.toInt) := by
  have hmatcher := hfits.2.2 tx.buyOrder.matcherPublicKey.toAddress List.mem_cons_self
    [part tx.buyOrder.matcherPublicKey.toAddress none tx.buyOrder.matcherPublicKey none
      (tx.buyMatcherFee.toInt + tx.sellMatcherFee.toInt - tx.fee.toInt)]
    ((List.mem_inits _ _).mpr ⟨_, rfl⟩)
  rwa [List.sum_singleton, part, if_pos ⟨rfl, rfl⟩] at hmatcher

/-- What a transaction that fits changes for an account at an asset is the sum of its parts. -/
theorem toInt_change (hcreated : tx.Created) (hfits : Fits tx) {total : Int64}
    (htotal : total.toInt = Order.quoted tx.price tx.amount) (a : Address)
    (asset : Option ByteStr) :
    (change (combineAll
        [feeDiff tx, assetDiff tx tx.buyOrder.assetPair.priceAsset (-total) total,
          assetDiff tx tx.buyOrder.assetPair.amountAsset tx.amount (-tx.amount)]) a asset).toInt =
      (parts tx a asset).sum := by
  obtain ⟨-, hamount, hprice, -⟩ := ExchangeTransaction.created_iff.mp hcreated
  have hnonneg : 0 ≤ total := by
    rw [Int64.le_iff_toInt_le, htotal]
    exact Order.quoted_nonneg hprice hamount
  have hspent := toInt_neg_of_nonneg hnonneg
  have hsold := toInt_neg_of_nonneg (Int64.le_of_lt hamount)
  have hmatcher := toInt_change_singleton a asset tx.buyOrder.matcherPublicKey none
    fun _ => toInt_add_sub_exact hfits.inWord_fees
  have hbuyer := toInt_change_singleton a asset tx.buyOrder.senderPublicKey none
    fun _ => toInt_neg_exact hfits.1
  have hseller := toInt_change_singleton a asset tx.sellOrder.senderPublicKey none
    fun _ => toInt_neg_exact hfits.2.1
  have hpriced := toInt_change_assetDiff tx a asset tx.buyOrder.assetPair.priceAsset
    (by rw [hspent, Int.add_left_neg] : (-total).toInt + total.toInt = 0)
  have hmoved := toInt_change_assetDiff tx a asset tx.buyOrder.assetPair.amountAsset
    (by rw [hsold, Int.add_right_neg] : tx.amount.toInt + (-tx.amount).toInt = 0)
  rw [hspent, htotal] at hpriced
  rw [hsold] at hmoved
  -- The five portfolios in the order in which they are added up; every sum on the way fits.
  have hwords : List.map Int64.toInt
      [change (Finmap.singleton tx.buyOrder.matcherPublicKey.toAddress
          (amountIn none (tx.buyMatcherFee + tx.sellMatcherFee - tx.fee))) a asset,
        change (Finmap.singleton tx.buyOrder.senderPublicKey.toAddress
          (amountIn none (-tx.buyMatcherFee))) a asset,
        change (Finmap.singleton tx.sellOrder.senderPublicKey.toAddress
          (amountIn none (-tx.sellMatcherFee))) a asset,
        change (assetDiff tx tx.buyOrder.assetPair.priceAsset (-total) total) a asset,
        change (assetDiff tx tx.buyOrder.assetPair.amountAsset tx.amount (-tx.amount)) a asset] =
      parts tx a asset := by
    rw [List.map_cons, List.map_cons, List.map_cons, List.map_cons, List.map_cons, List.map_nil,
      hmatcher, hbuyer, hseller, hpriced, hmoved]
    rfl
  have hzero : (0 : Int64).toInt = 0 := rfl
  rw [change_portfolios, toInt_foldl_safeSum, hzero, Int.zero_add]
  · exact congrArg List.sum hwords
  · intro l hl
    rw [hzero, Int.zero_add]
    refine inWord_of_fits hcreated hfits htotal a asset ?_
    rw [← hwords]
    exact hl.map Int64.toInt

/-- The sum of all changes of a diff in an asset, or in the native coin. -/
def totalChange (d : Diff) (asset : Option ByteStr) : Int :=
  ∑ a ∈ d.portfolios.keys, (change d.portfolios a asset).toInt

/-- Of what is moved for one account, all is counted once. -/
theorem sum_part {accounts : Finset Address} {who : PublicKeyAccount}
    (h : who.toAddress ∈ accounts) (what : Option ByteStr) (n : Int) :
    ∑ a ∈ accounts, part a asset who what n = if asset = what then n else 0 := by
  unfold part
  by_cases hwhat : asset = what
  · simp [hwhat, h]
  · simp [hwhat]

/-- The changes of a transaction that fits add up to nothing in an issued asset, and to the
transaction's fee in the native coin. -/
theorem totalChange_eq (hcreated : tx.Created) (hfits : Fits tx)
    (h : apply s height tx = .ok d) (asset : Option ByteStr) :
    totalChange d asset = if asset = none then -tx.fee.toInt else 0 := by
  obtain ⟨-, ⟨total, htotal, hportfolios⟩, -⟩ := apply_eq_ok hcreated h
  have hkeys : d.portfolios.keys = {tx.buyOrder.matcherPublicKey.toAddress,
      tx.buyOrder.senderPublicKey.toAddress, tx.sellOrder.senderPublicKey.toAddress} := by
    rw [hportfolios]
    ext a
    simp only [combineAll, feeDiff, assetDiff, List.foldl_cons, List.foldl_nil,
      Dict.keys_mergeWith, Finmap.keys_singleton, Finmap.keys_empty, Finset.mem_union,
      Finset.mem_insert, Finset.mem_singleton, Finset.notMem_empty]
    tauto
  have hmatcher : tx.buyOrder.matcherPublicKey.toAddress ∈ d.portfolios.keys := by simp [hkeys]
  have hbuyer : tx.buyOrder.senderPublicKey.toAddress ∈ d.portfolios.keys := by simp [hkeys]
  have hseller : tx.sellOrder.senderPublicKey.toAddress ∈ d.portfolios.keys := by simp [hkeys]
  have hparts : totalChange d asset = ∑ a ∈ d.portfolios.keys, (parts tx a asset).sum := by
    refine Finset.sum_congr rfl fun a _ => ?_
    rw [hportfolios]
    exact toInt_change hcreated hfits htotal a asset
  rw [hparts]
  simp only [parts, List.sum_cons, List.sum_nil, Finset.sum_add_distrib, sum_part hmatcher,
    sum_part hbuyer, sum_part hseller, Finset.sum_const_zero]
  split <;> split <;> split <;> omega

end ExchangeTransactionDiff

end Platform

end Vsys
