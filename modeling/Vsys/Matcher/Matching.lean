import Vsys.Sample
import Vsys.Matcher.BookState

/-!
# Matching a submitted order

`OrderBookActor.matchOrder` calls itself as long as something of the submitted order is left.  Each
turn meets the best order of the other side, and a transaction that cannot be made or put into the
pool cancels the resting order, drops the submitted one, or does neither.  The recursion makes
progress and ends except where it does neither.
-/

namespace Vsys.Matcher

open Lib OrderExecuted Transducer OrderBook

/-- The errors of `createTransaction` and `putIfNew`: one names the order it is about. -/
inductive TransactionError where
  | orderValidationError (order : Order) (err : String)
  | validationError (e : ValidationError)

/-- What became of the transaction of an execution. -/
abbrev Outcome := Except TransactionError Unit

/-- The actor's book, with the events processed since a message came in. -/
structure Processed where
  orderBook : OrderBook
  events : List Event

/-- `processEvent`. -/
def processEvent (a : Processed) (e : Event) : Result Processed := do
  let orderBook ← a.orderBook.updateState e
  .ok ⟨orderBook, a.events ++ [e]⟩

/-- Events are processed one after another. -/
theorem foldlM_processEvent (a : Processed) (es : List Event) :
    es.foldlM processEvent a =
      (do let orderBook ← es.foldlM OrderBook.updateState a.orderBook
          .ok ⟨orderBook, a.events ++ es⟩) := by
  induction es generalizing a with
  | nil => simp [pure, Except.pure]
  | cons e es ih =>
      rw [List.foldlM_cons, List.foldlM_cons]
      cases h : a.orderBook.updateState e with
      | error x => simp [processEvent, h]
      | ok ob => simp [processEvent, h, ih]

/-- What is left is matched again if its amount is valid, and cancelled otherwise. -/
def recheck : List Event × Option LimitOrder → List Event × Option LimitOrder
  | (es, some rem) =>
      if rem.validateAmount.isOk then (es, some rem) else (es ++ [.orderCanceled rem], none)
  | (es, none) => (es, none)

/-- What is matched again has a valid amount, and nothing else happened in the turn. -/
theorem recheck_eq_of_some {r : List Event × Option LimitOrder} {rem : LimitOrder}
    (h : (recheck r).2 = some rem) :
    recheck r = r ∧ r.2 = some rem ∧ rem.validateAmount.isOk = true := by
  obtain ⟨es, left⟩ := r
  cases left with
  | none => cases h
  | some left =>
      by_cases hvalid : left.validateAmount.isOk = true
      · simp only [recheck, hvalid, if_true, Option.some.injEq] at h ⊢
        exact ⟨trivial, h, h ▸ hvalid⟩
      · simp [recheck, hvalid] at h

section Platform

variable [Platform]

/-- The address of the account that placed an order. -/
def LimitOrder.senderAddress (lo : LimitOrder) : Address := lo.order.senderPublicKey.toAddress

/-- `processInvalidTransaction`. -/
def processInvalidTransaction (a : Processed) (submitted counter : LimitOrder)
    (err : TransactionError) : Result (Processed × Option LimitOrder) :=
  let cancelCounterOrder : Result (Processed × Option LimitOrder) := do
    let a ← processEvent a (.orderCanceled counter)
    .ok (a, some submitted)
  match err with
  | .orderValidationError order _ =>
      if order.equals submitted.order then .ok (a, none)
      else if order.equals counter.order then cancelCounterOrder
      else cancelCounterOrder
  | .validationError (.accountBalanceError errs) => do
      let a ←
        if counter.senderAddress.bytes ∈ errs.keys then (do
          let (a, _) ← cancelCounterOrder
          .ok a)
        else .ok a
      if submitted.senderAddress.bytes ∈ errs.keys then .ok (a, none)
      else .ok (a, some submitted)
  | .validationError _ => cancelCounterOrder

/-- `handleMatchEvent`: the outcome is looked at where the orders meet. -/
def handleMatchEvent (a : Processed) (e : Event) (outcome : Outcome) :
    Result (Processed × Option LimitOrder) :=
  match e with
  | .orderAdded _ => do
      let a ← processEvent a e
      .ok (a, none)
  | .orderExecuted o c =>
      match outcome with
      | .ok _ => do
          let a ← processEvent a e
          if 0 < submittedRemaining o c then .ok (a, some (o.withAmount (submittedRemaining o c)))
          else .ok (a, none)
      | .error ex => processInvalidTransaction a o c ex
  | .orderCanceled _ => .ok (a, none)

/-- `OrderBookActor.matchOrder` up to its recursive call: what is left to match, if anything. -/
def matchTurn (ob : OrderBook) (limitOrder : LimitOrder) (outcome : Outcome) :
    Result (Processed × Option LimitOrder) := do
  let (a, remOrder) ← handleMatchEvent ⟨ob, []⟩ (ob.matchOrder limitOrder) outcome
  match remOrder with
  | some rem =>
      if rem.validateAmount.isOk then .ok (a, some rem)
      else do
        let a ← processEvent a (.orderCanceled rem)
        .ok (a, none)
  | none => .ok (a, none)

/-- Whether an error takes the resting order out of the book. -/
def cancelsCounter (submitted counter : LimitOrder) : TransactionError → Bool
  | .orderValidationError order _ => !order.equals submitted.order
  | .validationError (.accountBalanceError errs) => counter.senderAddress.bytes ∈ errs.keys
  | .validationError _ => true

/-- Whether the submitted order is matched again after an error. -/
def keepsSubmitted (submitted : LimitOrder) : TransactionError → Bool
  | .orderValidationError order _ => !order.equals submitted.order
  | .validationError (.accountBalanceError errs) => submitted.senderAddress.bytes ∉ errs.keys
  | .validationError _ => true

/-- The events that an execution with an outcome leads to, and what is matched again. -/
def responses (s c : LimitOrder) : Outcome → List Event × Option LimitOrder
  | .ok _ => ([.orderExecuted s c],
      if 0 < submittedRemaining s c then some (s.withAmount (submittedRemaining s c)) else none)
  | .error err => (if cancelsCounter s c err then [.orderCanceled c] else [],
      if keepsSubmitted s err then some s else none)

/-- The events of a turn, and what is left. -/
def turnEvents (ob : OrderBook) (lo : LimitOrder) (outcome : Outcome) :
    List Event × Option LimitOrder :=
  match ob.matchOrder lo with
  | .orderExecuted s c => recheck (responses s c outcome)
  | e => ([e], none)

theorem processInvalidTransaction_eq (a : Processed) (s c : LimitOrder)
    (err : TransactionError) :
    processInvalidTransaction a s c err =
      (do let a ← (responses s c (.error err)).1.foldlM processEvent a
          .ok (a, (responses s c (.error err)).2)) := by
  have hcancel : (do
      let a ← processEvent a (.orderCanceled c)
      .ok (a, some s) : Result (Processed × Option LimitOrder)) =
        (do let a ← [Event.orderCanceled c].foldlM processEvent a
            .ok (a, some s)) := by
    simp
  unfold responses
  cases err with
  | orderValidationError order text =>
      cases h : order.equals s.order with
      | true => simp [processInvalidTransaction, cancelsCounter, keepsSubmitted, h, pure, Except.pure]
      | false => simp [processInvalidTransaction, cancelsCounter, keepsSubmitted, h]
  | validationError e =>
      cases e with
      | accountBalanceError errs =>
          by_cases hc : c.senderAddress.bytes ∈ errs.keys <;>
            by_cases hs : s.senderAddress.bytes ∈ errs.keys <;>
              simp [processInvalidTransaction, cancelsCounter, keepsSubmitted, hc, hs, pure,
                Except.pure, bind_assoc]
      | _ => exact hcancel

omit [Platform] in
/-- The rest of an execution never crosses: where something of the submitted order is left, the
counter order was filled. -/
theorem counterRemaining_of_submittedRemaining {s c : LimitOrder}
    (h : 0 < submittedRemaining s c) : counterRemaining s c = 0 := by
  have hzero : (0 : Int64).toInt = 0 := rfl
  have hpos := Int64.lt_iff_toInt_lt.mp h
  unfold submittedRemaining at hpos
  unfold counterRemaining
  rw [toInt_max, Int64.toInt_sub, Int.bmod_def, hzero] at hpos
  rw [← Int64.toInt_inj, toInt_max, Int64.toInt_sub, Int.bmod_def, hzero]
  omega

/-- A turn processes its events and leaves what they leave. -/
theorem matchTurn_eq (ob : OrderBook) (lo : LimitOrder) (outcome : Outcome) :
    matchTurn ob lo outcome =
      (do let orderBook ← (turnEvents ob lo outcome).1.foldlM OrderBook.updateState ob
          .ok (⟨orderBook, (turnEvents ob lo outcome).1⟩, (turnEvents ob lo outcome).2)) := by
  -- Every branch of the source ends with the check of what remains.
  have hfinish : ∀ (es : List Event) (rem : Option LimitOrder),
      (do let a ← es.foldlM processEvent ⟨ob, []⟩
          match rem with
          | some rem =>
              if rem.validateAmount.isOk then .ok (a, some rem)
              else do
                let a ← processEvent a (.orderCanceled rem)
                .ok (a, none)
          | none => .ok (a, none) : Result (Processed × Option LimitOrder)) =
        (do let orderBook ← (recheck (es, rem)).1.foldlM OrderBook.updateState ob
            .ok (⟨orderBook, (recheck (es, rem)).1⟩, (recheck (es, rem)).2)) := by
    intro es rem
    cases rem with
    | none => simp [recheck, foldlM_processEvent]
    | some rem =>
        by_cases hvalid : rem.validateAmount.isOk = true
        · simp [recheck, hvalid, foldlM_processEvent]
        · simp [recheck, hvalid, foldlM_processEvent, processEvent, List.foldlM_append, bind_assoc]
  unfold matchTurn turnEvents
  rcases ob.matchOrder_cases lo with h | ⟨c, h⟩
  · have := hfinish [.orderAdded lo] none
    simp only [recheck, List.foldlM_cons, List.foldlM_nil, bind_pure] at this
    simpa [h, handleMatchEvent] using this
  · rw [h]
    cases outcome with
    | ok u =>
        have := hfinish [.orderExecuted lo c] (responses lo c (.ok u)).2
        simp only [List.foldlM_cons, List.foldlM_nil, bind_pure] at this
        refine Eq.trans ?_ this
        by_cases hrem : 0 < submittedRemaining lo c <;>
          simp [handleMatchEvent, responses, hrem, bind_assoc]
    | error err =>
        have := hfinish (responses lo c (.error err)).1 (responses lo c (.error err)).2
        refine Eq.trans ?_ this
        simp [handleMatchEvent, processInvalidTransaction_eq, bind_assoc]

/-- The events of a turn are ones that the book proposes. -/
theorem along_arises_turnEvents (ob : OrderBook) (lo : LimitOrder) (outcome : Outcome) :
    Along applyEvent Arises ob (turnEvents ob lo outcome).1 := by
  have hrecheck : ∀ r : List Event × Option LimitOrder, Along applyEvent Arises ob r.1 →
      Along applyEvent Arises ob (recheck r).1 := by
    rintro ⟨es, rem⟩ h
    cases rem with
    | none => exact h
    | some rem =>
        by_cases hvalid : rem.validateAmount.isOk = true
        · simpa [recheck, hvalid] using h
        · simp only [recheck, hvalid]
          exact along_append.mpr ⟨h, trivial, trivial⟩
  unfold turnEvents
  rcases ob.matchOrder_cases lo with h | ⟨c, h⟩
  · rw [h]
    exact ⟨trivial, trivial⟩
  · rw [h]
    refine hrecheck _ ?_
    cases outcome with
    | ok u => exact ⟨h, trivial⟩
    | error err =>
        by_cases hcancel : cancelsCounter lo c err
        · simp only [responses, hcancel]
          exact ⟨trivial, trivial⟩
        · simp only [responses, hcancel]
          trivial

/-- In a book whose orders sit under their own prices, a turn raises no error. -/
theorem matchTurn_of_placed {ob : OrderBook} (h : ob.Placed) (lo : LimitOrder)
    (outcome : Outcome) :
    matchTurn ob lo outcome =
        .ok (⟨after applyEvent ob (turnEvents ob lo outcome).1, (turnEvents ob lo outcome).1⟩,
          (turnEvents ob lo outcome).2) ∧
      (after applyEvent ob (turnEvents ob lo outcome).1).Placed := by
  obtain ⟨hstate, hplaced⟩ := h.foldlM_updateState (along_arises_turnEvents ob lo outcome)
  rw [matchTurn_eq, hstate]
  exact ⟨rfl, hplaced⟩

/-- The book and what is left to match, after one more call of `matchOrder`.  An error ends the
recursion. -/
def nextCall (s : OrderBook × Option LimitOrder) (outcome : Outcome) :
    OrderBook × Option LimitOrder :=
  match s with
  | (ob, some rem) =>
      match matchTurn ob rem outcome with
      | .ok (a, rem) => (a.orderBook, rem)
      | .error _ => (ob, none)
  | (ob, none) => (ob, none)

/-- The same after some calls, by the outcomes of their transactions. -/
def calls (ob : OrderBook) (lo : LimitOrder) (outcomes : Nat → Outcome) :
    Nat → OrderBook × Option LimitOrder
  | 0 => (ob, some lo)
  | n + 1 => nextCall (calls ob lo outcomes n) (outcomes n)

/-- A recursive call is about less of the submitted order or a smaller opposite side. -/
def Progresses (before after : OrderBook × Option LimitOrder) : Prop :=
  ∀ lo lo', before.2 = some lo → after.2 = some lo' →
    lo'.amount < lo.amount ∨
      (after.1.resting lo.side.reverse).length < (before.1.resting lo.side.reverse).length

/-- A transaction that meets a balance error which names neither of the traders, for an amount
that may be matched again. -/
def Undecided (s : OrderBook × Option LimitOrder) (outcome : Outcome) : Prop :=
  ∃ lo c errs, s.2 = some lo ∧ lo.validateAmount.isOk = true ∧
    s.1.matchOrder lo = .orderExecuted lo c ∧
    outcome = .error (.validationError (.accountBalanceError errs)) ∧
    c.senderAddress.bytes ∉ errs.keys ∧ lo.senderAddress.bytes ∉ errs.keys

/-- Only such an error neither takes the resting order out nor drops the submitted one. -/
theorem not_cancelsCounter_keepsSubmitted_iff {lo c : LimitOrder} {err : TransactionError} :
    ¬ cancelsCounter lo c err ∧ keepsSubmitted lo err ↔
      ∃ errs, err = .validationError (.accountBalanceError errs) ∧
        c.senderAddress.bytes ∉ errs.keys ∧ lo.senderAddress.bytes ∉ errs.keys := by
  cases err with
  | orderValidationError order text => simp [cancelsCounter, keepsSubmitted]
  | validationError e => cases e <;> simp [cancelsCounter, keepsSubmitted]

/-- A turn that leaves something to match has shrunk the opposite side, or it was undecided and
changed nothing. -/
theorem turn_progress {ob : OrderBook} (h : ob.Placed) {lo rem : LimitOrder} {outcome : Outcome}
    (hrem : (turnEvents ob lo outcome).2 = some rem) :
    (rem.side = lo.side ∧
      ((after applyEvent ob (turnEvents ob lo outcome).1).resting lo.side.reverse).length
        < (ob.resting lo.side.reverse).length) ∨
    (rem = lo ∧ (turnEvents ob lo outcome).1 = [] ∧ Undecided (ob, some lo) outcome) := by
  rcases ob.matchOrder_cases lo with hmatch | ⟨c, hmatch⟩
  · rw [turnEvents, hmatch] at hrem
    cases hrem
  have hturn : turnEvents ob lo outcome = recheck (responses lo c outcome) := by
    rw [turnEvents, hmatch]
  rw [hturn] at hrem ⊢
  obtain ⟨hsame, hleft, hvalid⟩ := recheck_eq_of_some hrem
  rw [hsame]
  obtain ⟨-, hbest, -⟩ := matchOrder_eq_executed_iff.mp hmatch
  obtain ⟨hside, rest, hget⟩ := h.best hbest
  -- A settled exchange consumes the counter order; a failed one cancels it, or is undecided.
  cases outcome with
  | ok u =>
      left
      simp only [responses] at hleft ⊢
      split at hleft
      · rename_i hpos
        cases hleft
        obtain ⟨rest', hget', hstate⟩ := h.updateState_executed hmatch
        rw [after_cons, after_nil, applyEvent_of_ok hstate,
          counterRemaining_of_submittedRemaining hpos, if_neg (by decide), ← hside]
        refine ⟨rfl, ?_⟩
        rw [resting, levels_withLevels]
        exact Levels.length_orders_replace_lt hget' (by simp)
      · cases hleft
  | error err =>
      simp only [responses] at hleft ⊢
      split at hleft
      · rename_i hkeeps
        cases hleft
        by_cases hcancel : cancelsCounter lo c err
        · left
          refine ⟨rfl, ?_⟩
          rw [if_pos hcancel, after_cons, after_nil, applyEvent_of_ok (updateState_canceled ob c),
            ← hside, resting, levels_withLevels]
          exact Levels.length_orders_cancel_lt (by rw [hside]; exact hget)
        · right
          obtain ⟨errs, rfl, hc, hs⟩ :=
            not_cancelsCounter_keepsSubmitted_iff.mp ⟨hcancel, hkeeps⟩
          exact ⟨rfl, if_neg hcancel, lo, c, errs, rfl, hvalid, hmatch, rfl, hc, hs⟩
      · cases hleft

/-- A call in a book whose orders sit under their own prices. -/
theorem nextCall_some {ob : OrderBook} (h : ob.Placed) (lo : LimitOrder) (outcome : Outcome) :
    nextCall (ob, some lo) outcome =
      (after applyEvent ob (turnEvents ob lo outcome).1, (turnEvents ob lo outcome).2) := by
  rw [nextCall, (matchTurn_of_placed h lo outcome).1]

theorem placed_nextCall {s : OrderBook × Option LimitOrder} (h : s.1.Placed)
    (outcome : Outcome) : (nextCall s outcome).1.Placed := by
  obtain ⟨ob, left⟩ := s
  cases left with
  | none => exact h
  | some rem =>
      rw [nextCall_some h]
      exact (matchTurn_of_placed h rem outcome).2

/-- A call that is not undecided makes progress. -/
theorem progresses_nextCall {s : OrderBook × Option LimitOrder} (h : s.1.Placed)
    {outcome : Outcome} (hs : ¬ Undecided s outcome) {lo rem : LimitOrder} (hlo : s.2 = some lo)
    (hrem : (nextCall s outcome).2 = some rem) :
    rem.side = lo.side ∧ ((nextCall s outcome).1.resting lo.side.reverse).length
      < (s.1.resting lo.side.reverse).length := by
  obtain ⟨ob, left⟩ := s
  cases hlo
  rw [nextCall_some h] at hrem ⊢
  rcases turn_progress h hrem with hless | ⟨-, -, hundecided⟩
  · exact hless
  · exact absurd hundecided hs

/-- An undecided call is repeated. -/
theorem nextCall_of_undecided {s : OrderBook × Option LimitOrder} (h : s.1.Placed)
    {outcome : Outcome} (hs : Undecided s outcome) : nextCall s outcome = s := by
  obtain ⟨ob, left⟩ := s
  obtain ⟨lo, c, errs, hleft, hvalid, hmatch, rfl, hc, hlo⟩ := hs
  cases hleft
  obtain ⟨hcancel, hkeeps⟩ := not_cancelsCounter_keepsSubmitted_iff.mpr ⟨errs, rfl, hc, hlo⟩
  have hevents : turnEvents ob lo (.error (.validationError (.accountBalanceError errs)))
      = ([], some lo) := by
    simp only at hmatch
    simp [turnEvents, hmatch, responses, hcancel, hkeeps, recheck, hvalid]
  rw [nextCall_some h, hevents]
  rfl

section Calls

variable {ob : OrderBook} {lo : LimitOrder} {outcomes : Nat → Outcome}

theorem placed_calls (h : ob.Placed) (n : Nat) : (calls ob lo outcomes n).1.Placed := by
  induction n with
  | zero => exact h
  | succ n ih => exact placed_nextCall ih (outcomes n)

/-- Without undecided calls the recursion ends: every call shrinks the opposite side. -/
theorem exists_calls_eq_none (h : ob.Placed)
    (hs : ∀ n, ¬ Undecided (calls ob lo outcomes n) (outcomes n)) :
    ∃ n, (calls ob lo outcomes n).2 = none := by
  by_contra hnone
  have hleft : ∀ n, ∃ rem, (calls ob lo outcomes n).2 = some rem :=
    fun n => Option.ne_none_iff_exists'.mp fun hn => hnone ⟨n, hn⟩
  have hside : ∀ n rem, (calls ob lo outcomes n).2 = some rem → rem.side = lo.side := by
    intro n
    induction n with
    | zero =>
        intro rem hrem
        cases hrem
        rfl
    | succ n ih =>
        intro rem hrem
        obtain ⟨rem', hrem'⟩ := hleft n
        rw [(progresses_nextCall (placed_calls h n) (hs n) hrem' hrem).1, ih rem' hrem']
  obtain ⟨n, hn⟩ := WellFounded.not_rel_apply_succ (r := fun a b : Nat => a < b)
    fun n => ((calls ob lo outcomes n).1.resting lo.side.reverse).length
  obtain ⟨rem, hrem⟩ := hleft n
  obtain ⟨rem', hrem'⟩ := hleft (n + 1)
  have hless := (progresses_nextCall (placed_calls h n) (hs n) hrem hrem').2
  rw [hside n rem hrem] at hless
  exact hn hless

/-- Every recursive call makes progress and the recursion ends, exactly if no call meets a balance
error that names neither trader. -/
theorem terminates_iff (h : ob.Placed) :
    ((∃ n, (calls ob lo outcomes n).2 = none) ∧
        ∀ n, Progresses (calls ob lo outcomes n) (calls ob lo outcomes (n + 1))) ↔
      ∀ n, ¬ Undecided (calls ob lo outcomes n) (outcomes n) := by
  constructor
  -- An undecided call leaves the book and the order as they were, and the next call is the same.
  · rintro ⟨-, hprogress⟩ n hs
    have hsame := nextCall_of_undecided (placed_calls h n) hs
    obtain ⟨rem, c, errs, hleft, -⟩ := id hs
    have := hprogress n rem rem hleft (by rw [calls, hsame]; exact hleft)
    rw [calls, hsame] at this
    rcases this with hless | hless
    · exact absurd (Int64.lt_iff_toInt_lt.mp hless) (lt_irrefl _)
    · exact lt_irrefl _ hless
  · intro hs
    refine ⟨exists_calls_eq_none h hs, fun n rem rem' hrem hrem' => .inr ?_⟩
    exact (progresses_nextCall (placed_calls h n) (hs n) hrem hrem').2

end Calls

end Platform

end Vsys.Matcher

namespace Vsys.Sample

open Lib Matcher Transducer OrderBook

/-- A trader's key. -/
def trader (n : Byte) : PublicKeyAccount := ⟨List.replicate 32 n⟩

/-- Two issued assets. -/
def twoAssets : AssetPair := ⟨some (List.replicate 32 7), some (List.replicate 32 8)⟩

/-- An order at the price one. -/
def orderBy (sender : Byte) (orderType : OrderType) (amount timestamp : Int64) : Order where
  senderPublicKey := trader sender
  matcherPublicKey := trader 9
  assetPair := twoAssets
  orderType := orderType
  price := 100000000
  amount := amount
  timestamp := timestamp
  expiration := 2000
  matcherFee := 100
  signature := List.replicate 64 0

/-- A book with one order for sale. -/
def oneAsk : OrderBook := (applyEvent empty (.orderAdded (.ofOrder (orderBy 1 .sell 3 100)))).1

theorem oneAsk_placed : oneAsk.Placed :=
  (placed_empty.updateState (e := .orderAdded (.ofOrder (orderBy 1 .sell 3 100))) trivial).2

/-- A balance error that names the matcher. -/
def matcherShort : Outcome :=
  .error (.validationError (.accountBalanceError
    (Finmap.singleton (trader 9).toAddress.bytes "negative balance")))

/-- Where every transaction succeeds, the recursion ends. -/
theorem successes_end :
    (∃ n, (calls oneAsk (.ofOrder (orderBy 2 .buy 5 200)) (fun _ => .ok ()) n).2 = none) ∧
      ∀ n, Progresses (calls oneAsk (.ofOrder (orderBy 2 .buy 5 200)) (fun _ => .ok ()) n)
        (calls oneAsk (.ofOrder (orderBy 2 .buy 5 200)) (fun _ => .ok ()) (n + 1)) :=
  (terminates_iff oneAsk_placed).mpr fun n h => by
    obtain ⟨lo, c, errs, -, -, -, herr, -⟩ := h
    cases herr

/-- Where every transaction finds the matcher's balance negative, the same call is made forever. -/
theorem matcherShort_repeats :
    (∀ n, calls oneAsk (.ofOrder (orderBy 2 .buy 5 200)) (fun _ => matcherShort) n =
        (oneAsk, some (.ofOrder (orderBy 2 .buy 5 200)))) ∧
      ¬ ((∃ n, (calls oneAsk (.ofOrder (orderBy 2 .buy 5 200)) (fun _ => matcherShort) n).2
          = none) ∧
        ∀ n, Progresses (calls oneAsk (.ofOrder (orderBy 2 .buy 5 200)) (fun _ => matcherShort) n)
          (calls oneAsk (.ofOrder (orderBy 2 .buy 5 200)) (fun _ => matcherShort) (n + 1))) := by
  have hsame : ∀ n, calls oneAsk (.ofOrder (orderBy 2 .buy 5 200)) (fun _ => matcherShort) n =
      (oneAsk, some (.ofOrder (orderBy 2 .buy 5 200))) := by
    intro n
    induction n with
    | zero => rfl
    | succ n ih =>
        rw [calls, ih]
        exact nextCall_of_undecided oneAsk_placed
          ⟨.ofOrder (orderBy 2 .buy 5 200), .ofOrder (orderBy 1 .sell 3 100),
            Finmap.singleton (trader 9).toAddress.bytes "negative balance", rfl,
            by decide +kernel, by decide +kernel, rfl, by decide +kernel, by decide +kernel⟩
  refine ⟨hsame, ?_⟩
  rintro ⟨⟨n, hn⟩, -⟩
  rw [hsame n] at hn
  cases hn

end Vsys.Sample
