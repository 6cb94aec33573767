import Vsys.Chain.BlockCrashes
import Vsys.Chain.PoolRuns

/-!
# What the miner packs

The pool packs transactions at the height of the state, and the block they make is checked at the
height above it.  A diff of the one height is a diff of the other with its transactions and
contracts dated anew, unless the transaction contends for a slot: the weighted balances it is
decided by grow with the height.
-/

namespace Vsys

open Lib CompositeStateReader

section Platform

variable [Platform]

namespace Diff

/-- The diff with its transactions and contracts entered at another height. -/
def dated (height : Nat) (d : Diff) : Diff where
  toChanges :=
    { d.toChanges with contracts := Dict.mapValues (fun _ t => (height, t.2)) d.contracts }
  transactions := Dict.mapValues (fun _ t => (height, t.2)) d.transactions

variable {height height' : Nat} {d e : Diff}

/-- The empty diff has no height to change. -/
theorem dated_empty : empty.dated height = empty := by
  have htransactions : (empty.dated height).transactions = empty.transactions :=
    Dict.mapValues_empty _
  have hcontracts : (empty.dated height).contracts = empty.contracts := Dict.mapValues_empty _
  exact Diff.ext rfl rfl rfl rfl rfl rfl rfl rfl hcontracts rfl rfl rfl rfl rfl rfl rfl
    htransactions

/-- Combined diffs are dated one by one. -/
theorem dated_combine : (d.combine e).dated height = (d.dated height).combine (e.dated height) :=
  Diff.ext rfl rfl rfl rfl rfl rfl rfl rfl (Dict.mapValues_overlay _ _ _) rfl rfl rfl rfl rfl rfl
    rfl (Dict.mapValues_overlay _ _ _)

/-- A diff of some changes is dated by dating its transaction and its contracts. -/
theorem dated_apply {tx : Transaction} {c : Changes} {related : Dict Address Bool} :
    (Diff.apply height tx c related).dated height' = Diff.apply height' tx
      { c with contracts := Dict.mapValues (fun _ t => (height', t.2)) c.contracts } related :=
  Diff.ext rfl rfl rfl rfl rfl rfl rfl rfl rfl rfl rfl rfl rfl rfl rfl rfl
    (Dict.mapValues_singleton _ _ _)

/-- The diff of a transaction that enters no contract. -/
theorem dated_apply_of_empty {tx : Transaction} {c : Changes} {related : Dict Address Bool}
    (hc : c.contracts = ∅) :
    (Diff.apply height tx c related).dated height' = Diff.apply height' tx c related := by
  rw [dated_apply, hc, Dict.mapValues_empty, ← hc]

end Diff

/-- Two lookups that fail, or find nothing, or find the same at two heights. -/
inductive SameBelow {α : Type} : Result (Option (Nat × α)) → Result (Option (Nat × α)) → Prop
  | failed (e : Fault) : SameBelow (.error e) (.error e)
  | missing : SameBelow (.ok none) (.ok none)
  | found (height height' : Nat) (a : α) :
      SameBelow (.ok (some (height, a))) (.ok (some (height', a)))

omit [Platform] in
/-- A lookup answers the same as itself. -/
theorem SameBelow.refl {α : Type} (x : Result (Option (Nat × α))) : SameBelow x x := by
  rcases x with e | _ | ⟨height, a⟩
  · exact .failed e
  · exact .missing
  · exact .found height height a

omit [Platform] in
/-- What is computed from two lookups alike but for the height is alike if the computation is. -/
theorem SameBelow.bind_eq_map {α β γ : Type} {x x' : Result (Option (Nat × α))} (h : SameBelow x x')
    {f : Option (Nat × α) → Result β} {g : Option (Nat × α) → Result γ} {k : β → γ}
    (hnone : g none = k <$> f none)
    (hsome : ∀ height height' a, g (some (height', a)) = k <$> f (some (height, a))) :
    x' >>= g = k <$> (x >>= f) := by
  cases h with
  | failed e => rfl
  | missing => exact hnone
  | found height height' a => exact hsome height height' a

/-- A state and one that tells other heights for transactions and contracts. -/
inductive StateView.Redated (s : StateView) : StateView → Prop
  | intro {transactionInfo contractContent}
    (transactions : ∀ id, SameBelow (s.transactionInfo id) (transactionInfo id))
    (contracts : ∀ id, SameBelow (s.contractContent id) (contractContent id)) :
    Redated s { s with transactionInfo := transactionInfo, contractContent := contractContent }

/-- A state over a diff is the state over the dated diff but for the heights. -/
theorem Diff.redated_view {s : StateView} {height : Nat} {d : Diff} :
    (view s d.asBlockDiff).Redated (view s (d.dated height).asBlockDiff) := by
  have hcontains : (view s (d.dated height).asBlockDiff).containsTransaction
      = (view s d.asBlockDiff).containsTransaction := by
    funext id
    change (((Dict.mapValues _ d.transactions).lookup id).isSome || _)
      = ((d.transactions.lookup id).isSome || _)
    rw [Dict.lookup_mapValues, Option.isSome_map]
  have hview : view s (d.dated height).asBlockDiff = { view s d.asBlockDiff with
      transactionInfo := (view s (d.dated height).asBlockDiff).transactionInfo
      contractContent := (view s (d.dated height).asBlockDiff).contractContent } :=
    StateView.ext rfl rfl hcontains rfl rfl rfl rfl rfl rfl rfl rfl rfl rfl rfl rfl rfl rfl rfl rfl
      rfl rfl rfl rfl
  rw [hview]
  refine .intro (fun id => ?_) fun id => ?_
  · simp only [view, Diff.asBlockDiff, Diff.dated, Dict.lookup_mapValues]
    cases d.transactions.lookup id with
    | none => exact .refl _
    | some t => exact .found _ _ _
  · simp only [view, Diff.asBlockDiff, Diff.dated, Dict.lookup_mapValues]
    cases d.contracts.lookup id with
    | none => exact .refl _
    | some t => exact .found _ _ _

section Differs

variable {fs : FunctionalitySettings} {height height' : Nat} {s s' : StateView}

/-- A lease is found in two states that differ in heights alone alike. -/
theorem StateView.Redated.findLeaseTransaction (h : s.Redated s') (id : ByteStr) :
    s'.findLeaseTransaction id = s.findLeaseTransaction id := by
  cases h with
  | intro transactions contracts =>
      refine ((transactions id).bind_eq_map rfl fun height height' info => ?_).trans (id_map _)
      obtain ⟨status, fee, tx⟩ := info
      cases tx with
      | _ => rfl

/-- Two states that differ in heights alone have the same snapshots on a walk. -/
theorem StateView.Redated.minBySnapshotLoop (h : s.Redated s') {a : Address} {atHeight : Nat}
    {bottomNotIncluded : Int} {fuel deeperHeight : Nat} {list : List Snapshot} :
    s'.minBySnapshotLoop a atHeight bottomNotIncluded fuel deeperHeight list
      = s.minBySnapshotLoop a atHeight bottomNotIncluded fuel deeperHeight list := by
  have hsnapshots : s'.snapshotAtHeight = s.snapshotAtHeight := by
    cases h with
    | intro transactions contracts => rfl
  induction fuel generalizing deeperHeight list with
  | zero => rfl
  | succ fuel ih => simp only [StateView.minBySnapshotLoop, hsnapshots, ih]

/-- Two states that differ in heights alone have the same snapshots to take the minimum of. -/
theorem StateView.Redated.snapshotsToMin (h : s.Redated s') {a : Address}
    {atHeight confirmations : Nat} :
    s'.snapshotsToMin a atHeight confirmations = s.snapshotsToMin a atHeight confirmations := by
  rw [StateView.snapshotsToMin, StateView.snapshotsToMin]
  simp only [h.minBySnapshotLoop]
  cases h with
  | intro transactions contracts => rfl

/-- The diff of a payment at another height is its diff dated. -/
theorem PaymentTransactionDiff.apply_dated {tx : PaymentTransaction} :
    apply height' tx = Diff.dated height' <$> apply height tx := by
  refine bind_eq_map_bind fun sender => ?_
  exact congrArg Except.ok (Diff.dated_apply_of_empty rfl).symm

/-- The diff of a lease at another height is its diff dated. -/
theorem LeaseTransactionsDiff.lease_dated (hs : s.Redated s') {tx : LeaseTransaction} :
    lease s' height' tx = Diff.dated height' <$> lease s height tx := by
  cases hs with
  | intro transactions contracts =>
      refine bind_eq_map_bind fun sender => bind_eq_map_bind fun recipient => ?_
      dsimp only
      split
      · rfl
      · split
        · rfl
        · exact congrArg Except.ok (Diff.dated_apply_of_empty rfl).symm

/-- The diff of a cancellation at another height is its diff dated. -/
theorem LeaseTransactionsDiff.leaseCancel_dated (hs : s.Redated s') {tx : LeaseCancelTransaction} :
    leaseCancel s' height' tx = Diff.dated height' <$> leaseCancel s height tx := by
  rw [leaseCancel, hs.findLeaseTransaction]
  cases hs with
  | intro transactions contracts =>
      refine bind_eq_map_bind fun found => ?_
      cases found with
      | none => rfl
      | some lease =>
          refine bind_eq_map_bind fun recipient => bind_eq_map_bind fun leaseSender => ?_
          dsimp only
          split
          · rfl
          · refine bind_eq_map_bind fun canceller => ?_
            split
            · exact congrArg Except.ok (Diff.dated_apply_of_empty rfl).symm
            · rfl

/-- The diff of a release at another height is its diff dated. -/
theorem ReleaseSlotsTransactionDiff.apply_dated (hs : s.Redated s') {tx : ReleaseSlotsTransaction} :
    apply s' fs height' tx = Diff.dated height' <$> apply s fs height tx := by
  cases hs with
  | intro transactions contracts =>
      refine bind_eq_map_bind fun sender => ?_
      dsimp only
      split_ifs
      · rfl
      · exact congrArg Except.ok (Diff.dated_apply_of_empty rfl).symm
      · rfl
      · rfl
      · rfl

/-- The diff of a database entry at another height is its diff dated. -/
theorem DbTransactionDiff.put_dated {tx : DbPutTransaction} :
    put height' tx = Diff.dated height' <$> put height tx := by
  refine bind_eq_map_bind fun sender => ?_
  split_ifs
  · rfl
  · rfl
  · refine bind_eq_map_bind fun storageKey => ?_
    exact congrArg Except.ok (Diff.dated_apply_of_empty rfl).symm

/-- The same context at another height of a state. -/
def ExecutionContext.redated (s' : StateView) (height' : Nat) (context : ExecutionContext) :
    ExecutionContext := { context with state := s', height := height' }

/-- A function sees neither the heights of transactions and contracts nor that of its own. -/
theorem OpcFuncDiffer.run_redated {data : List DataEntry} (hs : s.Redated s')
    {exContext exContext' : Result ExecutionContext}
    (hstate : ∀ context, exContext = .ok context → context.state = s)
    (hsame : exContext' = ExecutionContext.redated s' height' <$> exContext) :
    (do let context ← exContext'; apply context data)
      = (do let context ← exContext; apply context data) := by
  subst hsame
  cases exContext with
  | error e => rfl
  | ok context =>
      obtain rfl := hstate context rfl
      cases hs with
      | intro transactions contracts => rfl

/-- The context of a registration at another height is its context with that height. -/
theorem ExecutionContext.fromRegConTx_redated {tx : RegisterContractTransaction.Checked} :
    fromRegConTx s' height' tx = redated s' height' <$> fromRegConTx s height tx := by
  rw [fromRegConTx, fromRegConTx]
  cases signersOf tx.proofs with
  | error e => rfl
  | ok signers => rfl

/-- The context of a call at another height is its context with that height. -/
theorem ExecutionContext.fromExeConTx_redated (hs : s.Redated s')
    {tx : ExecuteContractFunctionTransaction.Checked} :
    fromExeConTx s' height' tx = redated s' height' <$> fromExeConTx s height tx := by
  cases hs with
  | intro transactions contracts =>
      refine bind_eq_map_bind fun signers => (contracts tx.contractId.bytes).bind_eq_map rfl ?_
      intro height height' content
      dsimp only
      split
      · rfl
      · rfl

/-- A contract transaction at another height has its diff dated if its opcodes do the same there. -/
theorem contractDiff_dated {tx : Transaction} {sender : PublicKeyAccount} {fee : Int64}
    {contracts contracts' : Dict ByteStr (Nat × ByteStr × Contract × Finset Address)}
    {fromValidationError : ValidationError → TransactionStatus} {outcome outcome' : Result OpcDiff}
    (hcontracts : Dict.mapValues (fun _ t => (height', t.2)) contracts = contracts')
    (houtcome : outcome' = outcome) :
    contractDiff height' tx sender fee contracts' fromValidationError outcome'
      = Diff.dated height' <$>
        contractDiff height tx sender fee contracts fromValidationError outcome := by
  subst hcontracts houtcome
  cases outcome' with
  | ok df =>
      refine congrArg Except.ok ?_
      rw [Diff.dated_apply]
  | error e =>
      cases e with
      | left e => exact congrArg Except.ok (Diff.dated_apply_of_empty rfl).symm
      | raised e => rfl

/-- The diff of a registration at another height is its diff dated. -/
theorem RegisterContractTransactionDiff.apply_dated (hs : s.Redated s')
    {tx : RegisterContractTransaction.Checked} :
    apply s' height' tx = Diff.dated height' <$> apply s height tx := by
  rw [apply, apply]
  split
  · rfl
  · refine bind_eq_map_bind fun sender => contractDiff_dated (Dict.mapValues_singleton _ _ _)
      (OpcFuncDiffer.run_redated hs (fun context h => ?_) ExecutionContext.fromRegConTx_redated)
    obtain ⟨signers, -, rfl⟩ := ExecutionContext.fromRegConTx_eq_ok h
    rfl

/-- The diff of a call at another height is its diff dated. -/
theorem ExecuteContractFunctionTransactionDiff.apply_dated (hs : s.Redated s')
    {tx : ExecuteContractFunctionTransaction.Checked} :
    apply s' height' tx = Diff.dated height' <$> apply s height tx := by
  rw [apply, apply]
  split
  · rfl
  · refine bind_eq_map_bind fun sender => contractDiff_dated (Dict.mapValues_empty _)
      (OpcFuncDiffer.run_redated hs (fun context h => ?_)
        (ExecutionContext.fromExeConTx_redated hs))
    obtain ⟨signers, _, _, _, _, -, -, -, -, rfl⟩ := ExecutionContext.fromExeConTx_eq_ok h
    rfl

/-- The comparison a contender has to win: its weighted balance against that of the owner of the
slot. -/
def ContendSlotsTransactionDiff.outweighs (s : StateView) (fs : FunctionalitySettings)
    (height : Nat) (sender : Address) (slotId : Int) : Result Bool := do
  let contendGen ← SPoSCalc.mintingBalance s fs sender height
  let slotGen ←
    match s.slotAddress slotId with
    | some l =>
        match Address.fromString l with
        | .ok owner => SPoSCalc.mintingBalance s fs owner height
        | .error (.left _) => .ok 0
        | .error (.raised e) => raise e
    | none => .ok 0
  .ok (slotGen < contendGen)

/-- What the outcome of the comparison makes of a contender. -/
def ContendSlotsTransactionDiff.decided (s : StateView) (height : Nat)
    (tx : ContendSlotsTransaction) (sender : PublicKeyAccount) (wins : Bool) : Diff :=
  if wins then
    Diff.apply height (.contendSlots tx)
      { feeCharged sender tx.fee with
        slotids := Finmap.singleton tx.slotId.toInt (some sender.toAddress.address)
        addToSlot := Finmap.singleton sender.toAddress.address (some tx.slotId.toInt)
        slotNum := if (s.slotAddress tx.slotId.toInt).isSome then 0 else 1 } ∅
  else
    Diff.apply height (.contendSlots tx)
      { feeCharged sender tx.fee with txStatus := .contendFailed } ∅

namespace ContendSlotsTransactionDiff

variable {tx : ContendSlotsTransaction} {sender : PublicKeyAccount}

/-- A contender who may have the slot is decided by the comparison. -/
theorem apply_of_contends (hsender : tx.proofs.headPublicKey = .ok sender)
    (h : Contends fs s tx sender) : apply s fs height tx
      = decided s height tx sender <$> outweighs s fs height sender.toAddress tx.slotId.toInt := by
  have hcount : ¬ Proofs.MaxProofs < tx.proofs.proofs.length := Nat.not_lt.mpr tx.proofs.count
  have hfree : ¬ (s.addressSlot sender.toAddress.address).isSome ∧
      isValidSlotID fs tx.slotId.toInt := ⟨by rw [h.free]; exact Bool.false_ne_true, h.valid⟩
  rw [apply, hsender, ok_bind]
  dsimp only
  rw [if_neg hcount, if_pos hfree, if_neg (Int64.not_lt.mpr h.owns), outweighs]
  refine bind_eq_map_bind fun contendGen => ?_
  have hdecided (slotGen : Int64) (slotIncrease : Int)
      (hincrease : slotIncrease = if (s.slotAddress tx.slotId.toInt).isSome then 0 else 1) :
      (if slotGen < contendGen then
          .ok (Diff.apply height (.contendSlots tx)
            { feeCharged sender tx.fee with
              slotids := Finmap.singleton tx.slotId.toInt (some sender.toAddress.address)
              addToSlot := Finmap.singleton sender.toAddress.address (some tx.slotId.toInt)
              slotNum := slotIncrease } ∅)
        else .ok (Diff.apply height (.contendSlots tx)
          { feeCharged sender tx.fee with txStatus := .contendFailed } ∅) : Result Diff)
        = .ok (decided s height tx sender (slotGen < contendGen)) := by
    subst hincrease
    by_cases hwins : slotGen < contendGen
    · rw [if_pos hwins, decided, if_pos (decide_eq_true hwins)]
    · rw [if_neg hwins, decided, if_neg (by rwa [decide_eq_true_eq])]
  -- A slot without an owner, or whose owner is no address, has the weight zero.
  cases hslot : s.slotAddress tx.slotId.toInt with
  | none => exact hdecided 0 1 (by rw [hslot]; rfl)
  | some l =>
      dsimp only
      cases Address.fromString l with
      | ok owner =>
          dsimp only
          cases SPoSCalc.mintingBalance s fs owner height with
          | error e => rfl
          | ok gen => exact hdecided gen 0 (by rw [hslot]; rfl)
      | error e =>
          cases e with
          | left e => exact hdecided 0 0 (by rw [hslot]; rfl)
          | raised e => rfl

/-- A contender passes the checks before the weighing in two states that differ in heights alone
alike. -/
theorem contends_iff_of_redated (hs : s.Redated s') :
    Contends fs s' tx sender ↔ Contends fs s tx sender := by
  cases hs with
  | intro transactions contracts => exact ⟨fun h => ⟨h.1, h.2, h.3⟩, fun h => ⟨h.1, h.2, h.3⟩⟩

/-- Any other contender meets the same at every height. -/
theorem apply_dated_of_not_contends (hs : s.Redated s')
    (h : ∀ sender, tx.proofs.headPublicKey = .ok sender → ¬ Contends fs s tx sender) :
    apply s' fs height' tx = Diff.dated height' <$> apply s fs height tx := by
  have hcount : ¬ Proofs.MaxProofs < tx.proofs.proofs.length := Nat.not_lt.mpr tx.proofs.count
  cases hs with
  | intro transactions contracts =>
      rw [apply, apply]
      cases hsender : tx.proofs.headPublicKey with
      | error e => rfl
      | ok sender =>
          rw [ok_bind, ok_bind]
          dsimp only
          rw [if_neg hcount, if_neg hcount]
          split_ifs with hasks hpoor hslot
          · exact congrArg Except.ok (Diff.dated_apply_of_empty rfl).symm
          · have hfree : s.addressSlot sender.toAddress.address = none := by simpa using hasks.1
            exact absurd ⟨hfree, hasks.2, Int64.not_lt.mp hpoor⟩ (h sender hsender)
          · rfl
          · rfl

/-- The diff of a decided contention at another height is its diff dated. -/
theorem decided_dated (hs : s.Redated s') {wins : Bool} :
    decided s' height' tx sender wins = (decided s height tx sender wins).dated height' := by
  cases hs with
  | intro transactions contracts =>
      cases wins with
      | true => exact (Diff.dated_apply_of_empty rfl).symm
      | false => exact (Diff.dated_apply_of_empty rfl).symm

/-- Two states that differ in heights alone weigh a contender and an owner alike. -/
theorem outweighs_redated (hs : s.Redated s') {a : Address} {slotId : Int} :
    outweighs s' fs height a slotId = outweighs s fs height a slotId := by
  have hbalance (a : Address) :
      SPoSCalc.mintingBalance s' fs a height = SPoSCalc.mintingBalance s fs a height := by
    rw [SPoSCalc.mintingBalance, StateView.effectiveBalanceAtHeightWithConfirmations,
      StateView.minBySnapshot, hs.snapshotsToMin]
    cases hs with
    | intro transactions contracts => rfl
  simp only [outweighs, hbalance]
  cases hs with
  | intro transactions contracts => rfl

end ContendSlotsTransactionDiff

/-- A diff that leaves no balance negative does so at another height. -/
theorem BalanceDiffValidation.apply_dated {d : Diff} (hs : s.Redated s')
    (h : BalanceDiffValidation.apply s d = .ok d) :
    BalanceDiffValidation.apply s' (d.dated height') = .ok (d.dated height') := by
  refine BalanceDiffValidation.apply_eq_ok_iff.mpr ⟨rfl, ?_⟩
  cases hs with
  | intro transactions contracts => exact (BalanceDiffValidation.apply_eq_ok_iff.mp h).2

namespace TransactionDiffer

/-- The verdict on a transaction is the same at a height and at the one above it.  A genesis or a
minting transaction has the height of its block, and a contender may have a weighted balance that
has grown by then, or that of the owner of the slot. -/
def Steady (fs : FunctionalitySettings) (height : Nat) (s : StateView) : Transaction → Prop
  | .genesis _ => False
  | .minting _ => False
  | .contendSlots tx => ∀ sender, tx.proofs.headPublicKey = .ok sender →
      ContendSlotsTransactionDiff.Contends fs s tx sender →
      ContendSlotsTransactionDiff.outweighs s fs (height + 1) sender.toAddress tx.slotId.toInt
        = ContendSlotsTransactionDiff.outweighs s fs height sender.toAddress tx.slotId.toInt
  | _ => True

variable {prev : Option Int64} {timestamp : Int64} {tx : Transaction} {d : Diff}

/-- A steady transaction has at the next height its diff dated, whatever its kind. -/
theorem ownDiff_dated (hs : s.Redated s') (hsteady : Steady fs height s tx) :
    ownDiff fs (height + 1) s' tx = Diff.dated (height + 1) <$> ownDiff fs height s tx := by
  cases tx with
  | genesis tx => exact hsteady.elim
  | minting tx => exact hsteady.elim
  | payment tx => exact PaymentTransactionDiff.apply_dated
  | lease tx => exact LeaseTransactionsDiff.lease_dated hs
  | leaseCancel tx => exact LeaseTransactionsDiff.leaseCancel_dated hs
  | contendSlots tx =>
      by_cases h : ∃ sender, tx.proofs.headPublicKey = .ok sender ∧
          ContendSlotsTransactionDiff.Contends fs s tx sender
      · obtain ⟨sender, hsender, h⟩ := h
        rw [ownDiff, ownDiff, ContendSlotsTransactionDiff.apply_of_contends hsender h,
          ContendSlotsTransactionDiff.apply_of_contends hsender
            ((ContendSlotsTransactionDiff.contends_iff_of_redated hs).mpr h),
          ContendSlotsTransactionDiff.outweighs_redated hs, hsteady sender hsender h, ← comp_map]
        exact congrArg (· <$> _) (funext fun wins => ContendSlotsTransactionDiff.decided_dated hs)
      · exact ContendSlotsTransactionDiff.apply_dated_of_not_contends hs
          fun sender hsender hcontends => h ⟨sender, hsender, hcontends⟩
  | releaseSlots tx => exact ReleaseSlotsTransactionDiff.apply_dated hs
  | registerContract tx => exact RegisterContractTransactionDiff.apply_dated hs
  | executeContractFunction tx => exact ExecuteContractFunctionTransactionDiff.apply_dated hs
  | dbPut tx => exact DbTransactionDiff.put_dated
  | legacy tx => rfl

/-- What passes the checks at a height and a time passes them at the height above and at another
time that it is not in the future of; nothing else looks at the time. -/
theorem commonChecks_redated {timestamp' : Int64} (hs : s.Redated s')
    (hfuture : CommonValidation.disallowTxFromFuture timestamp' tx = .ok ())
    (h : commonChecks fs prev timestamp height s tx = .ok ()) :
    commonChecks fs prev timestamp' (height + 1) s' tx = .ok () := by
  obtain ⟨hexamined, hsending⟩ := commonChecks_eq_ok_iff.mp h
  refine commonChecks_eq_ok_iff.mpr ⟨⟨hexamined.signed, hfuture, hexamined.notFromPast, ?_, ?_⟩, ?_⟩
  · have hactivated := hexamined.activated
    cases tx with
    | registerContract tx =>
        have hheight := cond_eq_ok_iff.mp hactivated
        exact cond_eq_ok_iff.mpr (by omega)
    | executeContractFunction tx =>
        have hheight := cond_eq_ok_iff.mp hactivated
        exact cond_eq_ok_iff.mpr (by omega)
    | _ tx => exact hactivated
  · cases hs with
    | intro transactions contracts => exact hexamined.fresh
  · cases hs with
    | intro transactions contracts => exact hsending

/-- A steady transaction that is accepted at a height is accepted with the same effect at the one
above it, at any time that it is not in the future of. -/
theorem apply_dated {timestamp' : Int64} (hs : s.Redated s') (hsteady : Steady fs height s tx)
    (hfuture : CommonValidation.disallowTxFromFuture timestamp' tx = .ok ())
    (h : apply fs prev timestamp height s tx = .ok d) :
    apply fs prev timestamp' (height + 1) s' tx = .ok (d.dated (height + 1)) := by
  obtain ⟨hchecks, hown, hbalance⟩ := apply_eq_ok_iff.mp h
  refine apply_eq_ok_iff.mpr ⟨commonChecks_redated hs hfuture hchecks, ?_,
    BalanceDiffValidation.apply_dated hs hbalance⟩
  rw [ownDiff_dated hs hsteady, hown]
  rfl

/-- Any other is refused there, or ends in another status. -/
theorem status_ne_of_not_steady {timestamp' : Int64} {d' : Diff} (hs : s.Redated s')
    (hsteady : ¬ Steady fs height s tx) (h : apply fs prev timestamp height s tx = .ok d)
    (h' : apply fs prev timestamp' (height + 1) s' tx = .ok d') : d'.txStatus ≠ d.txStatus := by
  obtain ⟨-, hown, -⟩ := apply_eq_ok_iff.mp h
  obtain ⟨-, hown', -⟩ := apply_eq_ok_iff.mp h'
  -- A genesis or minting transaction is bound to its height; a contender may win at one and lose
  -- at the next.
  cases tx with
  | genesis tx =>
      have hheight {height : Nat} {d : Diff} (h : ownDiff fs height s (.genesis tx) = .ok d) :
          height = 1 := by
        by_contra hne
        rw [ownDiff, GenesisTransactionDiff.apply, if_pos hne] at h
        cases h
      have hsame := hheight hown
      have hnext := hheight hown'
      omega
  | minting tx =>
      have hheight {height : Nat} {d : Diff} (h : ownDiff fs height s (.minting tx) = .ok d) :
          tx.currentBlockHeight.toInt = height := by
        by_contra hne
        rw [ownDiff, MintingTransactionDiff.apply, if_pos hne] at h
        cases h
      have hsame := hheight hown
      have hnext := hheight hown'
      omega
  | contendSlots tx =>
      simp only [Steady, not_forall] at hsteady
      obtain ⟨sender, hsender, hcontends, hverdict⟩ := hsteady
      rw [ownDiff, ContendSlotsTransactionDiff.apply_of_contends hsender hcontends] at hown
      rw [ownDiff, ContendSlotsTransactionDiff.apply_of_contends hsender
        ((ContendSlotsTransactionDiff.contends_iff_of_redated hs).mpr hcontends),
        ContendSlotsTransactionDiff.outweighs_redated hs] at hown'
      obtain ⟨wins, hwins, rfl⟩ := map_eq_ok_iff.mp hown
      obtain ⟨wins', hwins', rfl⟩ := map_eq_ok_iff.mp hown'
      have hne : wins' ≠ wins := fun h => hverdict (by rw [hwins, hwins', h])
      cases wins with
      | true =>
          cases wins' with
          | true => exact absurd rfl hne
          | false => exact TransactionStatus.noConfusion
      | false =>
          cases wins' with
          | true => exact TransactionStatus.noConfusion
          | false => exact absurd rfl hne
  | _ tx => exact absurd trivial hsteady

end TransactionDiffer

namespace BlockDiffer

variable {prev : Option Int64} {timestamp timestamp' : Int64}

/-- Every transaction is steady in the state after those before it. -/
def AllSteady (fs : FunctionalitySettings) (s : StateView) (prev : Option Int64) (timestamp : Int64)
    (txs : List ProcessedTransaction) : Prop :=
  ∀ before tx after d, txs = before ++ tx :: after →
    before.foldlM (txStep fs s prev timestamp s.height) Diff.empty = .ok d →
    TransactionDiffer.Steady fs s.height (view s d.asBlockDiff) tx.transaction

/-- A transaction is added to a block's diff if its own diff is made, has the recorded fee and
status, and is combined with it. -/
theorem txStep_eq_ok_iff {d e : Diff} {tx : ProcessedTransaction} :
    txStep fs s prev timestamp height d tx = .ok e ↔ ∃ newDiff,
      TransactionDiffer.apply fs prev timestamp height (view s d.asBlockDiff) tx.transaction
        = .ok newDiff ∧
      (newDiff.chargedFee = tx.feeCharged ∧ newDiff.txStatus = tx.status) ∧
      e = d.combine newDiff := by
  rw [txStep, bind_eq_ok_iff]
  refine exists_congr fun newDiff => and_congr_right fun _ => ?_
  split
  · rename_i h
    rw [and_iff_right h, Except.ok.injEq, eq_comm]
  · rename_i h
    exact iff_of_false left_ne_ok.mp fun hcon => h hcon.1

/-- A transaction of a block at the height of the state is one of a later block above it if it is
steady and not in that block's future, and only then. -/
theorem txStep_dated {d e : Diff} {tx : ProcessedTransaction}
    (h : txStep fs s prev timestamp height d tx = .ok e) :
    (TransactionDiffer.Steady fs height (view s d.asBlockDiff) tx.transaction ∧
        CommonValidation.disallowTxFromFuture timestamp' tx.transaction = .ok () →
      txStep fs s prev timestamp' (height + 1) (d.dated (height + 1)) tx
        = .ok (e.dated (height + 1))) ∧
    (¬ (TransactionDiffer.Steady fs height (view s d.asBlockDiff) tx.transaction ∧
        CommonValidation.disallowTxFromFuture timestamp' tx.transaction = .ok ()) →
      ∀ e', txStep fs s prev timestamp' (height + 1) (d.dated (height + 1)) tx ≠ .ok e') := by
  obtain ⟨newDiff, happly, hclaims, rfl⟩ := txStep_eq_ok_iff.mp h
  constructor
  · rintro ⟨hsteady, hfuture⟩
    exact txStep_eq_ok_iff.mpr ⟨_, TransactionDiffer.apply_dated Diff.redated_view hsteady hfuture
      happly, hclaims, Diff.dated_combine⟩
  · intro hnot e' h'
    obtain ⟨newDiff', happly', hclaims', -⟩ := txStep_eq_ok_iff.mp h'
    obtain ⟨hchecks, -⟩ := TransactionDiffer.apply_eq_ok_iff.mp happly'
    refine hnot ⟨?_, (TransactionDiffer.commonChecks_eq_ok_iff.mp hchecks).1.notFromFuture⟩
    by_contra hsteady
    exact TransactionDiffer.status_ne_of_not_steady Diff.redated_view hsteady happly happly'
      (hclaims'.2.trans hclaims.2.symm)

/-- The transactions of a block at the height of the state are those of a later block above it if
and only if all of them are steady, and none is in the future of that block. -/
theorem foldlM_txStep_dated_iff {txs : List ProcessedTransaction} {d e : Diff}
    (h : txs.foldlM (txStep fs s prev timestamp s.height) Diff.empty = .ok d) :
    txs.foldlM (txStep fs s prev timestamp' (s.height + 1)) Diff.empty = .ok e ↔
      e = d.dated (s.height + 1) ∧ AllSteady fs s prev timestamp txs ∧
        ∀ p ∈ txs, CommonValidation.disallowTxFromFuture timestamp' p.transaction = .ok () := by
  have hfollows := @foldlM_follows_iff _ _ _ _ (txStep fs s prev timestamp' (s.height + 1))
    (Diff.dated (s.height + 1)) _ (fun _ _ _ => txStep_dated) _ _ _ e h
  rw [Diff.dated_empty] at hfollows
  rw [hfollows]
  refine and_congr_right fun _ => ⟨fun hall => ⟨fun before tx after d hsplit hbefore =>
    (hall before tx after d hsplit hbefore).1, fun p hp => ?_⟩, fun hall before tx after d hsplit
      hbefore => ⟨hall.1 before tx after d hsplit hbefore, hall.2 tx (hsplit ▸ by simp)⟩⟩
  obtain ⟨before, after, rfl⟩ := List.append_of_mem hp
  obtain ⟨d', hbefore, -⟩ := foldlM_append_eq_ok_iff.mp h
  exact (hall before p after d' rfl hbefore).2

/-- The transactions of a block that is accepted are signed. -/
theorem signatureValid_of_foldlM {txs : List ProcessedTransaction} {d e : Diff}
    (h : txs.foldlM (txStep fs s prev timestamp height) d = .ok e) {tx : ProcessedTransaction}
    (htx : tx ∈ txs) : tx.transaction.signatureValid = true := by
  obtain ⟨before, after, rfl⟩ := List.append_of_mem htx
  obtain ⟨d₁, -, h⟩ := foldlM_append_eq_ok_iff.mp h
  obtain ⟨d₂, hstep, -⟩ := foldlM_cons_eq_ok_iff.mp h
  obtain ⟨newDiff, happly, -⟩ := txStep_eq_ok_iff.mp hstep
  obtain ⟨hchecks, -⟩ := TransactionDiffer.apply_eq_ok_iff.mp happly
  exact (TransactionDiffer.commonChecks_eq_ok_iff.mp hchecks).1.signed

/-- A signed block is accepted if its transactions are, one after another, and its snapshots can be
taken. -/
theorem exists_fromBlock_iff {b : Block} (hsigned : b.signatureValid = .ok true) :
    (∃ d, fromBlock fs s prev b = .ok d) ↔ ∃ d,
      b.transactionData.foldlM (txStep fs s prev b.timestamp (s.height + 1)) Diff.empty = .ok d ∧
      ∀ a portfolioDiff, ¬ Unsnapped fs s (s.height + 1) d.portfolios a portfolioDiff := by
  constructor
  · rintro ⟨d, h⟩
    obtain ⟨diff, snapshots, hdiff, hsnapshots, -⟩ := fromBlock_eq_ok h
    refine ⟨diff, hdiff, fun a portfolioDiff hunsnapped => ?_⟩
    have hraises := raises_newSnapshots_iff.mpr ⟨a, portfolioDiff, hunsnapped⟩
    rw [hsnapshots] at hraises
    exact Raises.ok hraises
  · rintro ⟨d, hd, hsnapped⟩
    have hsignatures : b.transactions.find? (fun tx => !tx.signatureValid) = none := by
      refine List.find?_eq_none.mpr fun tx htx => ?_
      obtain ⟨p, hp, rfl⟩ := List.mem_map.mp htx
      rw [signatureValid_of_foldlM hd hp]
      exact Bool.false_ne_true
    have hvalid : b.validateSignatures = .ok () := by
      rw [Block.validateSignatures, hsigned, ok_bind, if_pos rfl, hsignatures]
    have hsnapshots : ¬ Raises (newSnapshots fs s (s.height + 1) d.portfolios) := by
      rw [raises_newSnapshots_iff]
      rintro ⟨a, portfolioDiff, h⟩
      exact hsnapped a portfolioDiff h
    obtain ⟨snapshots, hok⟩ : ∃ snapshots, newSnapshots fs s (s.height + 1) d.portfolios
        = .ok snapshots := by
      rw [newSnapshots] at hsnapshots ⊢
      split at hsnapshots
      · rename_i hall
        rw [if_pos hall]
        exact ⟨_, rfl⟩
      · exact absurd Raises.raise hsnapshots
    refine ⟨⟨d, 1, snapshots⟩, ?_⟩
    rw [fromBlock, hvalid, ok_bind, apply, Block.feesDistribution, hd, ok_bind, hok, ok_bind]

end BlockDiffer

namespace UtxPool

variable {utxSettings : UtxSettings} {history : History} {ts : Int64} {pool pool' : UtxPool}
  {packed : List ProcessedTransaction}

/-- A transaction is packed with the outcome it has after those packed before it, or it is left. -/
theorem packStep_eq_ok {prev : Option Int64} {packing packing' : Packing} {tx : Transaction}
    (h : packStep fs s prev ts packing tx = .ok packing') :
    (packing'.valid = packing.valid ∧ packing'.diff = packing.diff) ∨
    ∃ newDiff, packing.valid.length < Block.MaxTransactionsPerBlockVer1 - 1 ∧
      TransactionDiffer.apply fs prev ts s.height (view s packing.diff.asBlockDiff) tx
        = .ok newDiff ∧
      packing'.valid = ⟨newDiff.txStatus, newDiff.chargedFee, tx⟩ :: packing.valid ∧
      packing'.diff = packing.diff.combine newDiff := by
  rw [packStep] at h
  split at h
  · rename_i hroom
    split at h
    · rename_i newDiff happly
      obtain rfl := Except.ok.inj h
      exact .inr ⟨newDiff, hroom, happly, rfl, rfl⟩
    · obtain rfl := Except.ok.inj h
      exact .inl ⟨rfl, rfl⟩
    · cases h
  · obtain rfl := Except.ok.inj h
    exact .inl ⟨rfl, rfl⟩

/-- The transactions packed so far are a block at the height of the state, with room for one. -/
structure Packing.Sound (fs : FunctionalitySettings) (s : StateView) (prev : Option Int64)
    (ts : Int64) (packing : Packing) : Prop where
  accepted : packing.valid.reverse.foldlM (BlockDiffer.txStep fs s prev ts s.height) Diff.empty
    = .ok packing.diff
  room : packing.valid.length ≤ Block.MaxTransactionsPerBlockVer1 - 1

/-- Trying one more transaction keeps the packed ones sound. -/
theorem Packing.Sound.packStep {prev : Option Int64} {packing packing' : Packing}
    {tx : Transaction} (hs : packing.Sound fs s prev ts)
    (h : packStep fs s prev ts packing tx = .ok packing') : packing'.Sound fs s prev ts := by
  obtain ⟨hvalid, hdiff⟩ | ⟨newDiff, hroom, happly, hvalid, hdiff⟩ := packStep_eq_ok h
  · exact ⟨by rw [hvalid, hdiff]; exact hs.accepted, by rw [hvalid]; exact hs.room⟩
  · refine ⟨?_, by rw [hvalid]; exact hroom⟩
    rw [hvalid, hdiff, List.reverse_cons]
    refine foldlM_append_eq_ok_iff.mpr ⟨_, hs.accepted, foldlM_cons_eq_ok_iff.mpr ⟨_, ?_, rfl⟩⟩
    exact BlockDiffer.txStep_eq_ok_iff.mpr ⟨newDiff, happly, ⟨rfl, rfl⟩, rfl⟩

/-- The pool's order is the order of packing. -/
theorem sublist_of_foldlM_packStep {prev : Option Int64} {txs : List Transaction}
    {packing packing' : Packing} (h : txs.foldlM (packStep fs s prev ts) packing = .ok packing') :
    ∃ taken : List Transaction, taken.Sublist txs ∧
      packing'.valid.map ProcessedTransaction.transaction
        = taken.reverse ++ packing.valid.map ProcessedTransaction.transaction := by
  induction txs generalizing packing with
  | nil =>
      obtain rfl := Except.ok.inj h
      exact ⟨[], .slnil, rfl⟩
  | cons tx txs ih =>
      obtain ⟨packing₁, hstep, hrest⟩ := foldlM_cons_eq_ok_iff.mp h
      obtain ⟨taken, htaken, hvalid⟩ := ih hrest
      obtain ⟨hsame, -⟩ | ⟨newDiff, -, -, hnew, -⟩ := packStep_eq_ok hstep
      · exact ⟨taken, htaken.cons tx, by rw [hvalid, hsame]⟩
      · refine ⟨tx :: taken, htaken.cons_cons tx, ?_⟩
        rw [hvalid, hnew, List.map_cons, List.reverse_cons, List.append_assoc]
        rfl

end UtxPool

/-- A part of a sorted list is sorted. -/
theorem TransactionsOrdering.sorted_of_sublist {txs taken : List Transaction}
    (h : taken.Sublist (sorted txs)) : sorted taken = taken := by
  have htrans (x y z : Transaction) (hxy : decide (orderBy x ≤ orderBy y) = true)
      (hyz : decide (orderBy y ≤ orderBy z) = true) : decide (orderBy x ≤ orderBy z) = true :=
    decide_eq_true (le_trans (of_decide_eq_true hxy) (of_decide_eq_true hyz))
  have htotal (x y : Transaction) :
      (decide (orderBy x ≤ orderBy y) || decide (orderBy y ≤ orderBy x)) = true := by
    rw [Bool.or_eq_true, decide_eq_true_eq, decide_eq_true_eq]
    exact le_total _ _
  exact List.mergeSort_of_pairwise ((List.pairwise_mergeSort htrans htotal txs).sublist h)

/-- The minting transaction of a block of the same time is accepted where it is not too old, new,
and its reward leaves the recipient solvent. -/
theorem TransactionDiffer.minting_eq_ok_iff {prev : Option Int64} {m : MintingTransaction}
    {d : Diff} (hheight : m.currentBlockHeight.toInt = height) :
    apply fs prev m.timestamp height s (.minting m) = .ok d ↔
      d = Diff.apply height (.minting m)
        { portfolios := Finmap.singleton m.recipient (Portfolio.ofBalance m.amount) } ∅ ∧
      CommonValidation.disallowTxFromPast prev (.minting m) = .ok () ∧
      s.containsTransaction (Transaction.minting m).id = false ∧
      BalanceDiffValidation.Solvent
        ((s.accountPortfolio m.recipient).combine (Portfolio.ofBalance m.amount)) := by
  -- The block has the time of its minting transaction, which is never in its future.
  have hfuture : CommonValidation.disallowTxFromFuture m.timestamp (.minting m) = .ok () := by
    refine cond_eq_ok_iff.mpr ?_
    change ¬ CommonValidation.MaxTimeTransactionOverBlockDiff < m.timestamp - m.timestamp
    rw [Int64.sub_self]
    decide
  have hown : ownDiff fs height s (.minting m) = .ok (Diff.apply height (.minting m)
      { portfolios := Finmap.singleton m.recipient (Portfolio.ofBalance m.amount) } ∅) := by
    rw [ownDiff, MintingTransactionDiff.apply, if_neg (not_not.mpr hheight),
      if_neg (not_not.mpr m.amount_eq)]
  have hchecks : commonChecks fs prev m.timestamp height s (.minting m) = .ok () ↔
      CommonValidation.disallowTxFromPast prev (.minting m) = .ok () ∧
        s.containsTransaction (Transaction.minting m).id = false := by
    rw [commonChecks_eq_ok_iff]
    exact ⟨fun h => ⟨h.1.notFromPast, h.1.fresh⟩,
      fun h => ⟨⟨rfl, hfuture, h.1, rfl, h.2⟩, rfl⟩⟩
  have hbalance {d : Diff} (hd : d = Diff.apply height (.minting m)
      { portfolios := Finmap.singleton m.recipient (Portfolio.ofBalance m.amount) } ∅) :
      BalanceDiffValidation.apply s d = .ok d ↔ BalanceDiffValidation.Solvent
        ((s.accountPortfolio m.recipient).combine (Portfolio.ofBalance m.amount)) := by
    subst hd
    rw [BalanceDiffValidation.apply_eq_ok_iff, and_iff_right rfl]
    constructor
    · intro h
      exact h _ _ (Dict.lookup_singleton _ _ _ |>.trans (if_pos rfl))
    · intro h acc pf hpf
      change (Finmap.singleton m.recipient _ : Dict Address Portfolio).lookup acc = some pf at hpf
      rw [Dict.lookup_singleton] at hpf
      split at hpf
      · rename_i hacc
        obtain rfl := Option.some.inj hpf
        rw [hacc]
        exact h
      · cases hpf
  rw [apply_eq_ok_iff, hchecks, hown, Except.ok.injEq]
  constructor
  · rintro ⟨⟨hpast, hfresh⟩, hd, hsolvent⟩
    exact ⟨hd.symm, hpast, hfresh, (hbalance hd.symm).mp hsolvent⟩
  · rintro ⟨hd, hpast, hfresh, hsolvent⟩
    exact ⟨⟨hpast, hfresh⟩, hd.symm, (hbalance hd).mpr hsolvent⟩

namespace UtxPool

/-- What the miner packs is a block at the height of the state: some of the pool's transactions in
their order, and room left for the minting transaction. -/
theorem packUnconfirmed_eq_ok {last : Option Block} (hlast : history.lastBlock = .ok last)
    (h : packUnconfirmed fs utxSettings s history ts pool = (.ok packed, pool')) :
    (∃ d, packed.foldlM (BlockDiffer.txStep fs s (last.map Block.timestamp) ts s.height) Diff.empty
        = .ok d) ∧
      packed.length ≤ Block.MaxTransactionsPerBlockVer1 - 1 ∧
      TransactionsOrdering.sorted (packed.map ProcessedTransaction.transaction)
        = packed.map ProcessedTransaction.transaction := by
  obtain ⟨_, fresh, -, h⟩ := Action.bind_eq_ok_iff.mp h
  obtain ⟨last', pool₁, hlast', h⟩ := Action.bind_eq_ok_iff.mp h
  obtain rfl := Except.ok.inj (hlast.symm.trans (Prod.mk.inj hlast').1)
  obtain ⟨pool₂, pool₃, hget, h⟩ := Action.bind_eq_ok_iff.mp h
  obtain ⟨packing, pool₄, hpacking, h⟩ := Action.bind_eq_ok_iff.mp h
  obtain ⟨_, pool₅, -, h⟩ := Action.bind_eq_ok_iff.mp h
  obtain rfl := Except.ok.inj (Prod.mk.inj h).1
  replace hpacking := (Prod.mk.inj hpacking).1
  have hsound : packing.Sound fs s (last.map Block.timestamp) ts :=
    foldlM_invariant (fun packing packing' tx _ hs h => hs.packStep h)
      ⟨rfl, Nat.zero_le _⟩ hpacking
  obtain ⟨taken, htaken, hvalid⟩ := sublist_of_foldlM_packStep hpacking
  have htxs : packing.valid.reverse.map ProcessedTransaction.transaction = taken := by
    rw [List.map_reverse, hvalid, List.map_nil, List.append_nil, List.reverse_reverse]
  refine ⟨⟨_, hsound.accepted⟩, by rw [List.length_reverse]; exact hsound.room, ?_⟩
  rw [htxs]
  exact TransactionsOrdering.sorted_of_sublist htaken

/-- What the packed transactions and the minting transaction must be for the block they make to be
accepted.  The pool packs at a reading `ts` of the clock, and the block has the time of its minting
transaction, an earlier reading. -/
structure Forgeable (fs : FunctionalitySettings) (s : StateView) (prev : Option Int64) (ts : Int64)
    (packed : List ProcessedTransaction) (m : MintingTransaction) : Prop where
  steady : BlockDiffer.AllSteady fs s prev ts packed
  punctual : ∀ p ∈ packed, CommonValidation.disallowTxFromFuture m.timestamp p.transaction = .ok ()
  timely : CommonValidation.disallowTxFromPast prev (.minting m) = .ok ()
  fresh : ∀ d, packed.foldlM (BlockDiffer.txStep fs s prev ts s.height) Diff.empty = .ok d →
    (view s d.asBlockDiff).containsTransaction (Transaction.minting m).id = false
  rewarded : ∀ d, packed.foldlM (BlockDiffer.txStep fs s prev ts s.height) Diff.empty = .ok d →
    BalanceDiffValidation.Solvent
      (((view s d.asBlockDiff).accountPortfolio m.recipient).combine (Portfolio.ofBalance m.amount))
  snapped : ∀ d, packed.foldlM (BlockDiffer.txStep fs s prev ts s.height) Diff.empty = .ok d →
    ∀ a portfolioDiff, ¬ BlockDiffer.Unsnapped fs s (s.height + 1)
      (Dict.mergeWith Portfolio.combine d.portfolios
        (Finmap.singleton m.recipient (Portfolio.ofBalance m.amount))) a portfolioDiff

/-- The block the miner makes of what it packs and its minting transaction is in order, and is
accepted on the same state exactly if the packed transactions are steady and not in its future, and
nothing is wrong with the minting transaction and the snapshots. -/
theorem forged_accepted_iff {last : Option Block} (hlast : history.lastBlock = .ok last)
    (hpack : packUnconfirmed fs utxSettings s history ts pool = (.ok packed, pool'))
    {m : MintingTransaction} (hheight : m.currentBlockHeight.toInt = s.height + 1) {b : Block}
    (hb : b.timestamp = m.timestamp) (hsigned : b.signatureValid = .ok true)
    (htxs : b.transactionData = packed ++ [⟨.success, 0, .minting m⟩]) :
    Coordinator.isSorted b ∧
      ((∃ d, BlockDiffer.fromBlock fs s (last.map Block.timestamp) b = .ok d) ↔
        Forgeable fs s (last.map Block.timestamp) ts packed m) := by
  obtain ⟨⟨d, hd⟩, -, hsorted⟩ := packUnconfirmed_eq_ok hlast hpack
  constructor
  · rw [Coordinator.isSorted, Block.transactions, htxs, List.map_append, List.map_singleton,
      List.dropLast_concat, hsorted]
  · rw [BlockDiffer.exists_fromBlock_iff hsigned, htxs, hb]
    have hmint (u e : Diff) : [(⟨.success, 0, .minting m⟩ : ProcessedTransaction)].foldlM
          (BlockDiffer.txStep fs s (last.map Block.timestamp) m.timestamp (s.height + 1)) u
          = .ok e ↔
        (CommonValidation.disallowTxFromPast (last.map Block.timestamp) (.minting m) = .ok () ∧
          (view s u.asBlockDiff).containsTransaction (Transaction.minting m).id = false ∧
          BalanceDiffValidation.Solvent
            (((view s u.asBlockDiff).accountPortfolio m.recipient).combine
              (Portfolio.ofBalance m.amount))) ∧
        e = u.combine (Diff.apply (s.height + 1) (.minting m)
          { portfolios := Finmap.singleton m.recipient (Portfolio.ofBalance m.amount) } ∅) := by
      rw [foldlM_cons_eq_ok_iff]
      simp only [List.foldlM_nil, pure_eq_ok_iff, BlockDiffer.txStep_eq_ok_iff,
        TransactionDiffer.minting_eq_ok_iff hheight]
      constructor
      · rintro ⟨_, ⟨_, ⟨rfl, hminted⟩, -, rfl⟩, rfl⟩
        exact ⟨hminted, rfl⟩
      · rintro ⟨hminted, rfl⟩
        exact ⟨_, ⟨_, ⟨rfl, hminted⟩, ⟨rfl, rfl⟩, rfl⟩, rfl⟩
    -- The packing has computed one diff, so a condition on every such diff is one on it.
    have hunique {d' : Diff} (hd' : packed.foldlM (BlockDiffer.txStep fs s
        (last.map Block.timestamp) ts s.height) Diff.empty = .ok d') : d' = d :=
      Except.ok.inj (hd'.symm.trans hd)
    have hfresh : (view s (d.dated (s.height + 1)).asBlockDiff).containsTransaction
        = (view s d.asBlockDiff).containsTransaction := by
      have hredated := @Diff.redated_view _ s (s.height + 1) d
      revert hredated
      generalize view s (d.dated (s.height + 1)).asBlockDiff = s'
      intro hredated
      cases hredated with
      | intro transactions contracts => rfl
    constructor
    · rintro ⟨e, hfold, hsnapped⟩
      obtain ⟨u, hu, hlast'⟩ := foldlM_append_eq_ok_iff.mp hfold
      obtain ⟨rfl, hsteady, hpunctual⟩ := (BlockDiffer.foldlM_txStep_dated_iff hd).mp hu
      obtain ⟨⟨hpast, hnew, hsolvent⟩, rfl⟩ := (hmint _ _).mp hlast'
      rw [hfresh] at hnew
      exact
        { steady := hsteady
          punctual := hpunctual
          timely := hpast
          fresh := fun d' hd' => by rw [hunique hd']; exact hnew
          rewarded := fun d' hd' => by rw [hunique hd']; exact hsolvent
          snapped := fun d' hd' => by rw [hunique hd']; exact hsnapped }
    · intro h
      have hpacked := (BlockDiffer.foldlM_txStep_dated_iff hd).mpr ⟨rfl, h.steady, h.punctual⟩
      refine ⟨_, foldlM_append_eq_ok_iff.mpr ⟨_, hpacked,
        (hmint _ _).mpr ⟨⟨h.timely, ?_, h.rewarded d hd⟩, rfl⟩⟩, h.snapped d hd⟩
      rw [hfresh]
      exact h.fresh d hd

end UtxPool

end Differs

end Platform

namespace Sample

open UtxPool

/-- The pool with one payment, after the first block. -/
def paymentPool : UtxPool :=
  (putIfNew fs poolSettings afterGenesis.1.toStateView history 1 (transfer 1) UtxPool.empty).2

/-- What the miner packs of it, some time after it has read the clock for its block. -/
def packedPayment : List ProcessedTransaction :=
  okOr (packUnconfirmed fs poolSettings afterGenesis.1.toStateView history 5 paymentPool).1 []

/-- The reward of the next block. -/
def nextReward : MintingTransaction :=
  ⟨owner, MintingReward, 1, 2, mintingTransaction.amount_eq⟩

/-- The block the miner makes. -/
def forgedBlock : Block :=
  { secondBlock with
    transactionData := packedPayment ++ [⟨.success, 0, .minting nextReward⟩] }

/-- The payment is packed, and the block is accepted. -/
theorem forgedBlock_forgeable : packedPayment.length = 1 ∧
    Forgeable fs afterGenesis.1.toStateView (some genesisBlock.timestamp) 5 packedPayment
      nextReward := by
  have hlast : history.lastBlock = .ok (some genesisBlock) := by decide +kernel
  have hok : (packUnconfirmed fs poolSettings afterGenesis.1.toStateView history 5
      paymentPool).1.isOk = true := by decide +kernel
  have hpack : packUnconfirmed fs poolSettings afterGenesis.1.toStateView history 5 paymentPool
      = (.ok packedPayment, (packUnconfirmed fs poolSettings afterGenesis.1.toStateView history 5
        paymentPool).2) := by
    have hresult := @eq_ok_okOr _ _ _ [] hok
    rw [← packedPayment] at hresult
    rw [← hresult]
  have haccepted : (BlockDiffer.fromBlock fs afterGenesis.1.toStateView
      ((some genesisBlock).map Block.timestamp) forgedBlock).isOk = true := by decide +kernel
  have hheight : nextReward.currentBlockHeight.toInt = afterGenesis.1.height + 1 := by
    decide +kernel
  have hsigned : forgedBlock.signatureValid = .ok true := by decide +kernel
  have hforged := (forged_accepted_iff (b := forgedBlock) (m := nextReward) hlast hpack hheight
    rfl hsigned rfl).2
  have hblock := @eq_ok_okOr _ _ _ BlockDiff.empty haccepted
  have hforgeable := hforged.mp ⟨_, hblock⟩
  exact ⟨by decide +kernel, hforgeable⟩

end Sample

end Vsys
