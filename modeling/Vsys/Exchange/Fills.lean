import Vsys.Exchange.ExchangeTransactionDiff
import Vsys.State.Persisting
import Vsys.Transaction.Fields
import Vsys.Sample

/-!
# Orders that are filled

Exchange transactions are accepted one after another, each against what its orders were filled by
before, through diffs that lie over a state or are written to it.  In every run the fills of an
order bound what was executed of it and charged for it, negative fees and all, if no two different
orders of the run have one hash.
-/

namespace Vsys

open Lib

section Platform

variable [Platform]

namespace Order

variable {o o' : Order}

omit [Platform] in
/-- What is signed determines the type, the amount and the fee of an order. -/
theorem eq_of_toSign (h : o.toSign = o'.toSign) :
    o.orderType = o'.orderType ∧ o.amount = o'.amount ∧ o.matcherFee = o'.matcherFee := by
  have hlength (x y : Int64) :
      (Longs.toByteArray x).length = (Longs.toByteArray y).length := by
    rw [Longs.length_toByteArray, Longs.length_toByteArray]
  unfold toSign at h
  obtain ⟨h, hfee⟩ := List.append_inj' h (hlength _ _)
  obtain ⟨h, -⟩ := List.append_inj' h (hlength _ _)
  obtain ⟨h, -⟩ := List.append_inj' h (hlength _ _)
  obtain ⟨h, hamount⟩ := List.append_inj' h (hlength _ _)
  obtain ⟨h, -⟩ := List.append_inj' h (hlength _ _)
  obtain ⟨-, htype⟩ := List.append_inj' h (by cases o.orderType <;> cases o'.orderType <;> rfl)
  refine ⟨?_, Longs.toByteArray_injective hamount, Longs.toByteArray_injective hfee⟩
  revert htype
  cases o.orderType <;> cases o'.orderType <;> decide

end Order

namespace ExchangeTransactionDiff

open StateWriterImpl

/-- The state after a diff, as far as orders are concerned: their fills are combined. -/
def Applied (s : StateView) (d : Diff) (s' : StateView) : Prop :=
  ∀ id, s'.filledVolumeAndFee id =
    ((d.orderFills.lookup id).getD OrderFillInfo.empty).combine (s.filledVolumeAndFee id)

/-- A diff that lies over a state is applied. -/
theorem applied_view (s : StateView) (b : BlockDiff) :
    Applied s b.txsDiff (CompositeStateReader.view s b) := fun _ => rfl

/-- Diffs that are combined within a block are applied one after the other. -/
theorem applied_combine (s : StateView) (older newer : BlockDiff) :
    Applied (CompositeStateReader.view s older) newer.txsDiff
      (CompositeStateReader.view s (older.combine newer)) := by
  intro id
  show ((Dict.mergeWith OrderFillInfo.combine older.txsDiff.orderFills
    newer.txsDiff.orderFills).lookup id |>.getD OrderFillInfo.empty).combine _ = _
  rw [Dict.lookup_mergeWith]
  simp only [CompositeStateReader.view]
  cases older.txsDiff.orderFills.lookup id with
  | none =>
      cases newer.txsDiff.orderFills.lookup id <;>
        simp [OrderFillInfo.combine, OrderFillInfo.empty]
  | some f =>
      cases newer.txsDiff.orderFills.lookup id with
      | none => simp [OrderFillInfo.combine, OrderFillInfo.empty]
      | some f' =>
          -- A sum is the same in whichever order the fills are taken, overflow or not.
          simp only [Option.merge_some_some, OrderFillInfo.combine, Option.getD_some,
            OrderFillInfo.mk.injEq]
          constructor <;> ac_rfl

/-- A diff that is written to the storage is applied. -/
theorem applied_written (stateSettings : StateSettings) (p : StateStorage) (b : BlockDiff) :
    Applied (StateReaderImpl.reader p).toStateView b.txsDiff
      (StateReaderImpl.reader (applyBlockDiff stateSettings p b)).toStateView := by
  intro id
  simp only [StateReaderImpl.reader, applyBlockDiff, Dict.lookup_updateWith]
  cases b.txsDiff.orderFills.lookup id <;>
    simp [OrderFillInfo.combine, OrderFillInfo.empty, Int64.add_comm]

/-- A run: transactions are accepted one after another, and their diffs applied.  In between the
state may change in any way that leaves the orders alone. -/
inductive Accepted (start : StateView) :
    List (ExchangeTransaction × Diff) → StateView → Prop where
  | nil : Accepted start [] start
  | exchange {txs : List (ExchangeTransaction × Diff)} {s s' : StateView} {height : Nat}
      {tx : ExchangeTransaction} {d : Diff} (run : Accepted start txs s) (created : tx.Created)
      (accepted : apply s height tx = .ok d) (applied : Applied s d s') :
      Accepted start (txs ++ [(tx, d)]) s'
  | other {txs : List (ExchangeTransaction × Diff)} {s s' : StateView}
      (run : Accepted start txs s)
      (same : ∀ id, s'.filledVolumeAndFee id = s.filledVolumeAndFee id) : Accepted start txs s'

variable {start s s' : StateView} {txs : List (ExchangeTransaction × Diff)} {height : Nat}
  {tx : ExchangeTransaction} {d : Diff} {o : Order} {f : OrderFillInfo} {amount fee : Int64}
  {id : ByteStr}

/-- A run goes on with a transaction whose diff lies over the state. -/
theorem Accepted.over (run : Accepted start txs s) (created : tx.Created)
    (accepted : apply s height tx = .ok d) :
    Accepted start (txs ++ [(tx, d)]) (CompositeStateReader.view s d.asBlockDiff) :=
  .exchange run created accepted (applied_view s d.asBlockDiff)

/-- A run goes on with a further transaction of a block, whose diff is combined with those before it
in the block. -/
theorem Accepted.within {block : BlockDiff}
    (run : Accepted start txs (CompositeStateReader.view s block)) (created : tx.Created)
    (accepted : apply (CompositeStateReader.view s block) height tx = .ok d) :
    Accepted start (txs ++ [(tx, d)])
      (CompositeStateReader.view s (block.combine d.asBlockDiff)) :=
  .exchange run created accepted (applied_combine s block d.asBlockDiff)

/-- The orders of a run. -/
def orders (txs : List (ExchangeTransaction × Diff)) : List Order :=
  txs.flatMap fun t => [t.1.buyOrder, t.1.sellOrder]

/-- What a run sums up for the order with an identifier: one quantity where it buys, and one where
it sells. -/
def sumFor (bought sold : ExchangeTransaction → Int64) (id : ByteStr)
    (txs : List (ExchangeTransaction × Diff)) : Int :=
  (txs.map fun t => (if t.1.buyOrder.id = id then (bought t.1).toInt else 0) +
    if t.1.sellOrder.id = id then (sold t.1).toInt else 0).sum

/-- The cumulative executed amount of an order. -/
def executed : ByteStr → List (ExchangeTransaction × Diff) → Int :=
  sumFor ExchangeTransaction.amount ExchangeTransaction.amount

/-- The cumulative matcher's fee charged for an order. -/
def charged : ByteStr → List (ExchangeTransaction × Diff) → Int :=
  sumFor ExchangeTransaction.buyMatcherFee ExchangeTransaction.sellMatcherFee

/-- Orders of a run that have one hash are signed over the same bytes. -/
def Collisionless (txs : List (ExchangeTransaction × Diff)) : Prop :=
  ∀ o ∈ orders txs, ∀ o' ∈ orders txs, o.id = o'.id → o.toSign = o'.toSign

instance (txs : List (ExchangeTransaction × Diff)) : Decidable (Collisionless txs) :=
  inferInstanceAs (Decidable (∀ o ∈ orders txs, ∀ o' ∈ orders txs, o.id = o'.id → _))

theorem sumFor_append (bought sold : ExchangeTransaction → Int64) (id : ByteStr)
    (txs : List (ExchangeTransaction × Diff)) (t : ExchangeTransaction × Diff) :
    sumFor bought sold id (txs ++ [t]) = sumFor bought sold id txs +
      ((if t.1.buyOrder.id = id then (bought t.1).toInt else 0) +
        if t.1.sellOrder.id = id then (sold t.1).toInt else 0) := by
  simp [sumFor]

theorem orders_append (txs : List (ExchangeTransaction × Diff)) (t : ExchangeTransaction × Diff) :
    orders (txs ++ [t]) = orders txs ++ [t.1.buyOrder, t.1.sellOrder] := by
  simp [orders]

/-- A fill that bounds what was executed and charged, within the limits of its order. -/
structure Within (o : Order) (f : OrderFillInfo) : Prop where
  volume_le : f.volume.toInt ≤ o.amount.toInt
  fee_le : f.fee.toInt ≤ (o.matcherFee.toInt * f.volume.toInt).tdiv o.amount.toInt

/-- What a fill of a run is at most, whichever order it is of. -/
structure Bounded (f : OrderFillInfo) : Prop where
  volume_nonneg : 0 ≤ f.volume.toInt
  volume_le : f.volume.toInt ≤ Order.MaxAmount.toInt
  fee_le : f.fee.toInt ≤ Order.MaxAmount.toInt

omit [Platform] in
/-- A sum that does not overflow upwards is at least the exact one. -/
theorem add_toInt_le {x y : Int64} (h : x.toInt + y.toInt ≤ 9223372036854775807) :
    x.toInt + y.toInt ≤ (x + y).toInt := by
  have hx := inWord_toInt x
  have hy := inWord_toInt y
  unfold InWord at hx hy
  rw [Int64.toInt_add, Int.bmod_def]
  omega

omit [Platform] in
/-- An order's share of its fee is at most the whole. -/
theorem share_le {fee part whole : Int} (hfee : 0 ≤ fee) (hpart : 0 ≤ part) (hle : part ≤ whole)
    (hwhole : 0 < whole) : (fee * part).tdiv whole ≤ fee := by
  rw [Int.tdiv_eq_ediv_of_nonneg (Int.mul_nonneg hfee hpart)]
  refine Int.le_trans (Int.ediv_le_ediv hwhole (Int.mul_le_mul_of_nonneg_left hle hfee)) ?_
  rw [Int.mul_ediv_cancel _ (Int.ne_of_gt hwhole)]

omit [Platform] in
/-- An order with room takes a fill without a wrap of its volume; its fee may wrap upwards only. -/
theorem Bounded.admit {time : Int64} (hf : Bounded f) (hvalid : o.isValid time = .ok ())
    (hadmits : Admits o f amount fee) (hpos : 0 < amount) (hamount : amount ≤ Order.MaxAmount)
    (hfee : fee ≤ Order.MaxAmount) :
    Bounded ((⟨amount, fee⟩ : OrderFillInfo).combine f) ∧
      Within o ((⟨amount, fee⟩ : OrderFillInfo).combine f) ∧
      ((⟨amount, fee⟩ : OrderFillInfo).combine f).volume.toInt = f.volume.toInt + amount.toInt ∧
      f.fee.toInt + fee.toInt ≤ ((⟨amount, fee⟩ : OrderFillInfo).combine f).fee.toInt := by
  obtain ⟨hvolume, hshare⟩ := hadmits
  obtain ⟨hvalidAmount, -, hfeePos, hfeeMax, -⟩ := Order.isValid_eq_ok_iff.mp hvalid
  obtain ⟨hwhole, -, hwholeMax, -⟩ := Order.isValidAmount_eq_ok_iff.mp hvalidAmount
  have hmax : Order.MaxAmount.toInt = 1000000000000000000 := by decide
  have hzero : (0 : Int64).toInt = 0 := rfl
  rw [Int64.lt_iff_toInt_lt, hzero] at hpos hwhole hfeePos
  rw [Int64.lt_iff_toInt_lt, hmax] at hwholeMax hfeeMax
  rw [Int64.le_iff_toInt_le, hmax] at hamount hfee
  rw [Int64.le_iff_toInt_le] at hvolume
  obtain ⟨hnonneg, hvolumeMax, hfeeTotal⟩ := hf
  rw [hmax] at hvolumeMax hfeeTotal
  have hexact : (f.volume + amount).toInt = f.volume.toInt + amount.toInt := by
    apply toInt_add_exact
    unfold InWord
    omega
  have hcharged : f.fee.toInt + fee.toInt ≤ (f.fee + fee).toInt := add_toInt_le (by omega)
  have hpart : 0 ≤ (f.volume + amount).toInt := by omega
  have hbound := share_le (Int.le_of_lt hfeePos) hpart hvolume hwhole
  unfold OrderFillInfo.combine
  rw [Int64.add_comm amount, Int64.add_comm fee]
  refine ⟨⟨hpart, ?_, ?_⟩, ⟨hvolume, hshare⟩, hexact, hcharged⟩
  · rw [hmax]
    exact (hvolume.trans_lt hwholeMax).le
  · rw [hmax]
    exact (hshare.trans (hbound.trans hfeeMax.le))

/-- What the fill of an identifier says about a run. -/
structure Tracks (txs : List (ExchangeTransaction × Diff)) (id : ByteStr) (f : OrderFillInfo) :
    Prop where
  bounded : Bounded f
  executed_eq : executed id txs = f.volume.toInt
  charged_le : charged id txs ≤ f.fee.toInt
  within : ∀ o ∈ orders txs, o.id = id → Within o f

theorem tracks_nil (id : ByteStr) : Tracks [] id OrderFillInfo.empty where
  bounded := ⟨by decide, by decide, by decide⟩
  executed_eq := rfl
  charged_le := Int.le_refl 0
  within := by
    intro o ho
    cases ho

/-- The two orders of a transaction have different identifiers. -/
theorem id_ne (hcreated : tx.Created) (hhash : Collisionless (txs ++ [(tx, d)])) :
    tx.sellOrder.id ≠ tx.buyOrder.id := by
  obtain ⟨-, -, -, -, -, -, -, -, hbuy, hsell, -⟩ := ExchangeTransaction.created_iff.mp hcreated
  intro hid
  have hsign := hhash tx.sellOrder (by simp [orders_append]) tx.buyOrder
    (by simp [orders_append]) hid
  have htype := (Order.eq_of_toSign hsign).1
  rw [hbuy, hsell] at htype
  cases htype

/-- A fill of one order of a transaction keeps track of the run. -/
theorem Tracks.fill {t : ExchangeTransaction × Diff} {time : Int64} (h : Tracks txs o.id f)
    (hvalid : o.isValid time = .ok ()) (hadmits : Admits o f amount fee) (hpos : 0 < amount)
    (hamount : amount ≤ Order.MaxAmount) (hfee : fee ≤ Order.MaxAmount)
    (hexecuted : executed o.id (txs ++ [t]) = executed o.id txs + amount.toInt)
    (hcharged : charged o.id (txs ++ [t]) = charged o.id txs + fee.toInt)
    (hmem : o ∈ orders (txs ++ [t])) (hhash : Collisionless (txs ++ [t])) :
    Tracks (txs ++ [t]) o.id ((⟨amount, fee⟩ : OrderFillInfo).combine f) := by
  obtain ⟨hbounded, hwithin, hvolume, hfees⟩ :=
    h.bounded.admit hvalid hadmits hpos hamount hfee
  have hbefore := h.executed_eq
  have hchargedBefore := h.charged_le
  refine ⟨hbounded, by omega, by omega, fun o' ho' hid => ?_⟩
  obtain ⟨-, hsameAmount, hsameFee⟩ := Order.eq_of_toSign (hhash o' ho' o hmem hid)
  constructor
  · rw [hsameAmount]
    exact hwithin.volume_le
  · rw [hsameAmount, hsameFee]
    exact hwithin.fee_le

/-- An accepted transaction keeps track of every order. -/
theorem Tracks.exchange (hcreated : tx.Created) (haccepted : apply s height tx = .ok d)
    (happlied : Applied s d s') (hhash : Collisionless (txs ++ [(tx, d)]))
    (h : ∀ id, Tracks txs id (s.filledVolumeAndFee id)) (id : ByteStr) :
    Tracks (txs ++ [(tx, d)]) id (s'.filledVolumeAndFee id) := by
  obtain ⟨hvolume, -, hfills⟩ := apply_eq_ok hcreated haccepted
  obtain ⟨hbuyAdmits, hsellAdmits⟩ := enoughVolume_eq_ok hvolume
  obtain ⟨-, hpos, -, -, hamount, hsellFee, hbuyFee, -, -, -, -, -, hbuyValid, hsellValid, -⟩ :=
    ExchangeTransaction.created_iff.mp hcreated
  have hne := id_ne hcreated hhash
  rw [happlied, hfills, Dict.lookup_insert_eq, Dict.lookup_insert_eq]
  -- The two orders of the transaction have different identifiers, and no other fill changes.
  by_cases hsell : id = tx.sellOrder.id
  · subst hsell
    rw [if_pos rfl]
    refine (h tx.sellOrder.id).fill hsellValid hsellAdmits hpos hamount hsellFee ?_ ?_ ?_ hhash
    · simp [executed, sumFor_append, hne.symm]
    · simp [charged, sumFor_append, hne.symm]
    · simp [orders_append]
  · rw [if_neg hsell]
    by_cases hbuy : id = tx.buyOrder.id
    · subst hbuy
      rw [if_pos rfl]
      refine (h tx.buyOrder.id).fill hbuyValid hbuyAdmits hpos hamount hbuyFee ?_ ?_ ?_ hhash
      · simp [executed, sumFor_append, hne]
      · simp [charged, sumFor_append, hne]
      · simp [orders_append]
    · rw [if_neg hbuy]
      have hsame : OrderFillInfo.empty.combine (s.filledVolumeAndFee id)
          = s.filledVolumeAndFee id := by
        simp [OrderFillInfo.combine, OrderFillInfo.empty]
      obtain ⟨hbounded, hexecuted, hcharged, hwithin⟩ := h id
      rw [Finmap.lookup_empty, Option.getD_none, hsame]
      refine ⟨hbounded, ?_, ?_, fun o ho hid => ?_⟩
      · simpa [executed, sumFor_append, Ne.symm hbuy, Ne.symm hsell] using hexecuted
      · simpa [charged, sumFor_append, Ne.symm hbuy, Ne.symm hsell] using hcharged
      · rw [orders_append, List.mem_append] at ho
        rcases ho with ho | ho
        · exact hwithin o ho hid
        · simp only [List.mem_cons, List.not_mem_nil, or_false] at ho
          rcases ho with rfl | rfl
          · exact absurd hid.symm hbuy
          · exact absurd hid.symm hsell

/-- A run without collisions has none before its last transaction. -/
theorem Collisionless.before {t : ExchangeTransaction × Diff} (h : Collisionless (txs ++ [t])) :
    Collisionless txs := by
  intro o ho o' ho'
  have hsub : ∀ x ∈ orders txs, x ∈ orders (txs ++ [t]) := by
    intro x hx
    rw [orders_append]
    exact List.mem_append_left _ hx
  exact h o (hsub o ho) o' (hsub o' ho')

/-- Over a run, the fills keep track of every order. -/
theorem Accepted.tracks (hrun : Accepted start txs s)
    (hfresh : ∀ id, start.filledVolumeAndFee id = OrderFillInfo.empty)
    (hhash : Collisionless txs) (id : ByteStr) : Tracks txs id (s.filledVolumeAndFee id) := by
  induction hrun generalizing id with
  | nil =>
      rw [hfresh]
      exact tracks_nil id
  | exchange run created accepted applied ih =>
      exact Tracks.exchange created accepted applied hhash (ih hhash.before) id
  | other run same ih =>
      rw [same]
      exact ih hhash id

/-- Every transaction of a run was created and accepted. -/
theorem Accepted.mem (hrun : Accepted start txs s) {t : ExchangeTransaction × Diff}
    (ht : t ∈ txs) : t.1.Created ∧ ∃ s height, apply s height t.1 = .ok t.2 := by
  induction hrun with
  | nil => cases ht
  | exchange run created accepted applied ih =>
      rcases List.mem_append.mp ht with ht | ht
      · exact ih ht
      · rw [List.mem_singleton.mp ht]
        exact ⟨created, _, _, accepted⟩
  | other run same ih => exact ih ht

/-- The orders of a run were valid when they were executed. -/
theorem Accepted.valid (hrun : Accepted start txs s) (ho : o ∈ orders txs) :
    ∃ time, o.isValid time = .ok () := by
  obtain ⟨t, ht, ho⟩ := List.mem_flatMap.mp ho
  obtain ⟨-, -, -, -, -, -, -, -, -, -, -, -, hbuy, hsell, -⟩ :=
    ExchangeTransaction.created_iff.mp (hrun.mem ht).1
  simp only [List.mem_cons, List.not_mem_nil, or_false] at ho
  rcases ho with rfl | rfl
  · exact ⟨_, hbuy⟩
  · exact ⟨_, hsell⟩

/-- In every run no order is executed or charged beyond its limits, and the changes of each
transaction without an overflow add up to nothing in an issued asset and to its fee in the native
coin. -/
theorem fills_within_and_balanced (hrun : Accepted start txs s)
    (hfresh : ∀ id, start.filledVolumeAndFee id = OrderFillInfo.empty)
    (hhash : Collisionless txs) :
    (∀ o ∈ orders txs, executed o.id txs ≤ o.amount.toInt ∧
      charged o.id txs ≤ o.matcherFee.toInt ∧
      charged o.id txs ≤ (o.matcherFee.toInt * executed o.id txs).tdiv o.amount.toInt) ∧
    ∀ t ∈ txs, Fits t.1 → ∀ asset,
      totalChange t.2 asset = if asset = none then -t.1.fee.toInt else 0 := by
  refine ⟨fun o ho => ?_, fun t ht hfits asset => ?_⟩
  · obtain ⟨time, hvalid⟩ := hrun.valid ho
    obtain ⟨hvalidAmount, -, hfeePos, -⟩ := Order.isValid_eq_ok_iff.mp hvalid
    have hwhole := (Order.isValidAmount_eq_ok_iff.mp hvalidAmount).1
    obtain ⟨hbounded, hexecuted, hcharged, hwithin⟩ := hrun.tracks hfresh hhash o.id
    obtain ⟨hvolume, hfee⟩ := hwithin o ho rfl
    rw [hexecuted]
    have hshare := share_le (Int.le_of_lt (Int64.lt_iff_toInt_lt.mp hfeePos))
      hbounded.volume_nonneg hvolume (Int64.lt_iff_toInt_lt.mp hwhole)
    exact ⟨hvolume, hcharged.trans (hfee.trans hshare), hcharged.trans hfee⟩
  · obtain ⟨hcreated, s, height, haccepted⟩ := hrun.mem ht
    exact totalChange_eq hcreated hfits haccepted asset

end ExchangeTransactionDiff

end Platform

end Vsys

namespace Vsys.Sample

open Lib ExchangeTransactionDiff

/-- The account of a party. -/
def party (n : Byte) : PublicKeyAccount := ⟨List.replicate 32 n⟩

/-- An order for a thousand of an asset, at a price of one native coin, with the ninth party as the
matcher. -/
def exchangeOrder (sender : Byte) (orderType : OrderType) : Order where
  senderPublicKey := party sender
  matcherPublicKey := party 9
  assetPair := ⟨some (List.replicate 32 7), none⟩
  orderType := orderType
  price := 100000000
  amount := 1000
  timestamp := 100
  expiration := 2000
  matcherFee := 300
  signature := List.replicate 64 0

/-- The matcher buys six hundred, at fees in proportion. -/
def partialTrade : ExchangeTransaction where
  buyOrder := exchangeOrder 9 .buy
  sellOrder := exchangeOrder 1 .sell
  price := 100000000
  amount := 600
  buyMatcherFee := 180
  sellMatcherFee := 180
  fee := 100
  timestamp := 1000
  signature := List.replicate 64 0

/-- A state in which no order is filled. -/
def unfilled : StateView := (StateReaderImpl.reader StateStorage.empty).toStateView

/-- The matcher buys the other four hundred from someone else, under the same order. -/
def otherTrade : ExchangeTransaction :=
  { partialTrade with
    sellOrder := exchangeOrder 2 .sell
    amount := 400
    buyMatcherFee := 120
    sellMatcherFee := 120 }

/-- The diff of the first trade. -/
def partialFill : Diff :=
  okOr (ExchangeTransactionDiff.apply unfilled 1 partialTrade) Diff.empty

/-- The state between the two trades. -/
def partlyFilled : StateView := CompositeStateReader.view unfilled partialFill.asBlockDiff

/-- The diff of the second trade. -/
def otherFill : Diff := okOr (ExchangeTransactionDiff.apply partlyFilled 1 otherTrade) Diff.empty

/-- The two trades of one order, in one block. -/
def trades : List (ExchangeTransaction × Diff) :=
  [(partialTrade, partialFill), (otherTrade, otherFill)]

/-- Both trades are created and accepted, with orders of different hashes and without overflow. -/
theorem trades_evaluate :
    (ExchangeTransactionDiff.apply unfilled 1 partialTrade).isOk = true ∧
      (ExchangeTransactionDiff.apply partlyFilled 1 otherTrade).isOk = true ∧
      (∀ o ∈ orders trades, ∀ o' ∈ orders trades, o.id = o'.id → o.toSign = o'.toSign) ∧
      Fits partialTrade ∧ Fits otherTrade ∧
      executed partialTrade.buyOrder.id trades = 1000 := by
  decide +kernel

/-- The two trades are a run that ends with their combined diffs over the state. -/
theorem trades_accepted : Accepted unfilled trades (CompositeStateReader.view unfilled
    (partialFill.asBlockDiff.combine otherFill.asBlockDiff)) := by
  obtain ⟨hfirst, hsecond, -⟩ := trades_evaluate
  have hpartial : ExchangeTransactionDiff.apply unfilled 1 partialTrade = .ok partialFill :=
    eq_ok_okOr hfirst
  have hother : ExchangeTransactionDiff.apply partlyFilled 1 otherTrade = .ok otherFill :=
    eq_ok_okOr hsecond
  have hcreated : partialTrade.Created := ExchangeTransaction.created_iff.mpr (by decide +kernel)
  have hcreated' : otherTrade.Created := ExchangeTransaction.created_iff.mpr (by decide +kernel)
  have hrun : Accepted unfilled [(partialTrade, partialFill)] partlyFilled :=
    Accepted.nil.over hcreated hpartial
  exact hrun.within hcreated' hother

/-- Two trades fill the whole of one order within its fee, and the changes of each add up to its own
fee. -/
theorem trades_balanced :
    executed partialTrade.buyOrder.id trades = 1000 ∧
      charged partialTrade.buyOrder.id trades ≤ 300 ∧
      totalChange partialFill none = -100 ∧ totalChange otherFill none = -100 := by
  obtain ⟨-, -, hhash, hfits, hfits', hexecuted⟩ := trades_evaluate
  obtain ⟨hwithin, hbalanced⟩ := fills_within_and_balanced trades_accepted (fun _ => rfl) hhash
  have hmem : partialTrade.buyOrder ∈ orders trades := by
    simp only [orders, trades, List.flatMap_cons, List.mem_append, List.mem_cons, true_or]
  have hcharged := (hwithin partialTrade.buyOrder hmem).2.1
  have hfirst : (partialTrade, partialFill) ∈ trades := by
    simp only [trades, List.mem_cons, true_or]
  have hsecond : (otherTrade, otherFill) ∈ trades := by
    simp only [trades, List.mem_cons, true_or, or_true]
  have hchange (tx : ExchangeTransaction) (d : Diff) (ht : (tx, d) ∈ trades) (hfits : Fits tx) :
      totalChange d none = -tx.fee.toInt := hbalanced (tx, d) ht hfits none
  exact ⟨hexecuted, hcharged, hchange partialTrade partialFill hfirst hfits,
    hchange otherTrade otherFill hsecond hfits'⟩

/-- A buyer who is to be paid as much as a `Long` can hold, and a bit more. -/
def negativeFeeTrade : ExchangeTransaction :=
  { partialTrade with
    buyOrder := exchangeOrder 2 .buy
    buyMatcherFee := Int64.minValue
    sellMatcherFee := 1
    fee := 1 }

/-- A negative fee is accepted.  It cannot be taken off, and the buyer and the matcher are both
charged all that a `Long` can hold. -/
theorem negativeFeeTrade_unbalanced : negativeFeeTrade.Created ∧
    ∃ d, ExchangeTransactionDiff.apply unfilled 1 negativeFeeTrade = .ok d ∧
      totalChange d none ≠ -negativeFeeTrade.fee.toInt := by
  refine ⟨ExchangeTransaction.created_iff.mpr (by decide +kernel), ?_⟩
  have htotal : (ExchangeTransactionDiff.apply unfilled 1 negativeFeeTrade).map (totalChange · none)
      = .ok (-18446744073709551017) := by decide +kernel
  cases haccepted : ExchangeTransactionDiff.apply unfilled 1 negativeFeeTrade with
  | error e =>
      rw [haccepted] at htotal
      cases htotal
  | ok d =>
      rw [haccepted] at htotal
      have hvalue : totalChange d none = -18446744073709551017 := Except.ok.inj htotal
      refine ⟨d, rfl, ?_⟩
      rw [hvalue]
      decide

end Vsys.Sample
