import Vsys.Diffs.Transactions
import Vsys.Opc.Supply
import Vsys.Transaction.RoundTrip

/-!
# Contract functions, all or nothing

A function runs its opcodes one after another, each on the state with the effects of all earlier
ones.  Either every opcode succeeds, and the diff of the transaction is all their effects with the
fee, or it is the fee alone.
-/

namespace Vsys

open Lib

section Platform

variable [Platform]

namespace OpcFuncDiffer

/-- The effects of some opcodes, one after another. -/
def combined (effects : List OpcDiff) : OpcDiff := effects.foldl OpcDiff.combine OpcDiff.empty

/-- What an opcode is run in: the context of the function, with the state that the effects so far
leave. -/
def contextAfter (context : ExecutionContext) (effects : List OpcDiff) : ExecutionContext :=
  { context with state := stateSoFar context (combined effects) }

/-- Lines that run one after another from the data of the call: their effects, and the stack they
leave. -/
inductive Executed (context : ExecutionContext) (data : List DataEntry) :
    List ByteStr → List OpcDiff → List DataEntry → Prop
  | start : Executed context data [] [] data
  | line {lines : List ByteStr} {effects : List OpcDiff} {stack stack' : List DataEntry}
      (hlines : Executed context data lines effects stack) (opc : ByteStr) (effect : OpcDiff)
      (hopc : OpcDiffer.apply (contextAfter context effects) opc stack = .ok (effect, stack')) :
      Executed context data (lines ++ [opc]) (effects ++ [effect]) stack'

/-- A line of a function fails after the lines before it have run. -/
def AnOpcodeFails (context : ExecutionContext) (data : List DataEntry) : Prop :=
  ∃ before opc after effects stack e, opcLines context.opcFunc = before ++ opc :: after ∧
    Executed context data before effects stack ∧
    OpcDiffer.apply (contextAfter context effects) opc stack = .error e

/-- The newest entry under a key. -/
def newest (entries : OpcDiff → Dict ByteStr ByteStr) (effects : List OpcDiff) (key : ByteStr) :
    Option ByteStr :=
  effects.foldl (fun entry effect => ((entries effect).lookup key).or entry) none

/-- The sum of what effects add under a key. -/
def added {α : Type} [Zero α] [Add α] (sums : OpcDiff → Dict ByteStr α) (effects : List OpcDiff)
    (key : ByteStr) : α :=
  effects.foldl (fun sum effect => sum + ((sums effect).lookup key).getD 0) 0

/-- A state seen with some effects: the newest entries, and the sums of what was added. -/
structure Sees (seen s : StateView) (effects : List OpcDiff) : Prop where
  contractInfo : ∀ key, seen.contractInfo key =
    match newest OpcDiff.contractDB effects key with
    | some entry => some <$> explicitGet (DataEntry.fromBytes entry)
    | none => s.contractInfo key
  tokenInfo : ∀ key, seen.tokenInfo key =
    match newest OpcDiff.tokenDB effects key with
    | some entry => some <$> explicitGet (DataEntry.fromBytes entry)
    | none => s.tokenInfo key
  contractTokens : ∀ key,
    seen.contractTokens key = s.contractTokens key + added OpcDiff.contractTokens effects key
  tokenAccountBalance : ∀ key, seen.tokenAccountBalance key =
    safeSum (added OpcDiff.tokenAccountBalance effects key) (s.tokenAccountBalance key)

variable {context : ExecutionContext} {data stack : List DataEntry} {effects : List OpcDiff}
  {lines : List ByteStr} {d : OpcDiff}

theorem combined_concat (effects : List OpcDiff) (effect : OpcDiff) :
    combined (effects ++ [effect]) = (combined effects).combine effect := by
  rw [combined, List.foldl_append]
  rfl

omit [Platform] in
/-- A sum of two maps has the sum under every key. -/
theorem getD_mergeWith {α : Type} [Zero α] [Add α] (hleft : ∀ x : α, 0 + x = x)
    (hright : ∀ x : α, x + 0 = x) (older newer : Dict ByteStr α) (key : ByteStr) :
    ((Dict.mergeWith (· + ·) older newer).lookup key).getD 0
      = (older.lookup key).getD 0 + (newer.lookup key).getD 0 := by
  rw [Dict.lookup_mergeWith]
  cases older.lookup key with
  | none =>
      cases newer.lookup key with
      | none => exact (hleft 0).symm
      | some y => exact (hleft y).symm
  | some x =>
      cases newer.lookup key with
      | none => exact (hright x).symm
      | some y => rfl

/-- The combined effects have the newest entries and the sums. -/
theorem lookup_combined (effects : List OpcDiff) (key : ByteStr) :
    (combined effects).contractDB.lookup key = newest OpcDiff.contractDB effects key ∧
      (combined effects).tokenDB.lookup key = newest OpcDiff.tokenDB effects key ∧
      ((combined effects).contractTokens.lookup key).getD 0
        = added OpcDiff.contractTokens effects key ∧
      ((combined effects).tokenAccountBalance.lookup key).getD 0
        = added OpcDiff.tokenAccountBalance effects key := by
  induction effects using List.reverseRecOn with
  | nil => exact ⟨rfl, rfl, rfl, rfl⟩
  | append_singleton effects effect ih =>
      obtain ⟨hcontract, htoken, htokens, hbalance⟩ := ih
      rw [combined_concat, newest, newest, added, added, List.foldl_append, List.foldl_append,
        List.foldl_append, List.foldl_append]
      refine ⟨?_, ?_, ?_, ?_⟩
      · rw [OpcDiff.combine, Dict.lookup_overlay, hcontract]
        rfl
      · rw [OpcDiff.combine, Dict.lookup_overlay, htoken]
        rfl
      · rw [OpcDiff.combine, getD_mergeWith Int32.zero_add Int32.add_zero, htokens]
        rfl
      · rw [OpcDiff.combine, getD_mergeWith Int64.zero_add Int64.add_zero, hbalance]
        rfl

/-- An opcode sees the effects of all the lines before it. -/
theorem contextAfter_sees (context : ExecutionContext) (effects : List OpcDiff) :
    Sees (contextAfter context effects).state context.state effects where
  contractInfo := fun key => by
    rw [← (lookup_combined effects key).1]
    rfl
  tokenInfo := fun key => by
    rw [← (lookup_combined effects key).2.1]
    rfl
  contractTokens := fun key => by
    rw [← (lookup_combined effects key).2.2.1]
    rfl
  tokenAccountBalance := fun key => by
    rw [← (lookup_combined effects key).2.2.2]
    rfl

/-- Lines that run one after another are a successful fold. -/
theorem Executed.foldlM (h : Executed context data lines effects stack) :
    lines.foldlM (step context) (OpcDiff.empty, data) = .ok (combined effects, stack) := by
  induction h with
  | start => rfl
  | line hlines opc effect hopc ih =>
      rw [foldlM_append_eq_ok_iff]
      refine ⟨_, ih, foldlM_cons_eq_ok_iff.mpr ⟨_, ?_, rfl⟩⟩
      rw [step]
      show (OpcDiffer.apply (contextAfter context _) opc _ >>= _) = _
      rw [hopc, combined_concat]
      rfl

/-- A successful fold is lines that run one after another. -/
theorem executed_of_foldlM (h : lines.foldlM (step context) (OpcDiff.empty, data) = .ok (d, stack)) :
    ∃ effects, Executed context data lines effects stack ∧ d = combined effects := by
  induction lines using List.reverseRecOn generalizing d stack with
  | nil =>
      obtain ⟨rfl, rfl⟩ := Prod.mk.inj (Except.ok.inj h)
      exact ⟨[], .start, rfl⟩
  | append_singleton lines opc ih =>
      obtain ⟨⟨before, stack'⟩, hlines, hopc⟩ := foldlM_append_eq_ok_iff.mp h
      obtain ⟨effects, hexecuted, rfl⟩ := ih hlines
      obtain ⟨⟨d', stack''⟩, hstep, hlast⟩ := foldlM_cons_eq_ok_iff.mp hopc
      obtain ⟨rfl, rfl⟩ := Prod.mk.inj (Except.ok.inj hlast)
      obtain ⟨effect, happly, rfl⟩ := step_eq_ok hstep
      exact ⟨effects ++ [effect], hexecuted.line opc effect happly, (combined_concat _ _).symm⟩

/-- A function succeeds only as a fold over all its lines. -/
theorem foldlM_of_apply (h : apply context data = .ok d) :
    ∃ stack, (opcLines context.opcFunc).foldlM (step context) (OpcDiff.empty, data)
      = .ok (d, stack) := by
  unfold apply at h
  unfold opcLines
  cases hbytes : fromBytes context.opcFunc with
  | error e =>
      rw [hbytes] at h
      cases h
  | ok parts =>
      obtain ⟨funcIdx, funcType, listReturnTypes, listParaTypes, listOpcLines⟩ := parts
      rw [hbytes] at h
      dsimp only at h ⊢
      split at h
      · cases h
      · split at h
        · cases h
        · obtain ⟨⟨d', stack⟩, hfold, hd⟩ := bind_eq_ok_iff.mp h
          obtain rfl := Except.ok.inj hd
          exact ⟨stack, hfold⟩

/-- A function that succeeds has the effects of all its lines and no others. -/
theorem executed_of_apply (h : apply context data = .ok d) :
    ∃ effects stack, Executed context data (opcLines context.opcFunc) effects stack ∧
      d = combined effects := by
  obtain ⟨stack, hfold⟩ := foldlM_of_apply h
  obtain ⟨effects, hexecuted, hd⟩ := executed_of_foldlM hfold
  exact ⟨effects, stack, hexecuted, hd⟩

/-- A line that stops the fold after the lines before it went through is a line that fails. -/
theorem anOpcodeFails_of_foldlM {before after : List ByteStr} {opc : ByteStr}
    {done : OpcDiff × List DataEntry}
    (hlines : opcLines context.opcFunc = before ++ opc :: after)
    (hbefore : before.foldlM (step context) (OpcDiff.empty, data) = .ok done)
    (hopc : (OpcDiffer.apply { context with state := stateSoFar context done.1 } opc
      done.2).isOk = false) :
    AnOpcodeFails context data := by
  obtain ⟨d, stack⟩ := done
  obtain ⟨effects, hexecuted, rfl⟩ := executed_of_foldlM hbefore
  cases hline : OpcDiffer.apply (contextAfter context effects) opc stack with
  | ok result =>
      have : (OpcDiffer.apply (contextAfter context effects) opc stack).isOk = false := hopc
      rw [hline] at this
      cases this
  | error e => exact ⟨before, opc, after, effects, stack, e, hlines, hexecuted, hline⟩

/-- A function of which a line fails does not succeed. -/
theorem not_ok_of_fails (h : AnOpcodeFails context data) : apply context data ≠ .ok d := by
  intro hok
  obtain ⟨before, opc, after, effects, stack, e, hlines, hexecuted, hopc⟩ := h
  obtain ⟨last, hfold⟩ := foldlM_of_apply hok
  rw [hlines, foldlM_append_eq_ok_iff] at hfold
  obtain ⟨st, hbefore, hrest⟩ := hfold
  obtain rfl := Except.ok.inj (hexecuted.foldlM.symm.trans hbefore)
  obtain ⟨st', hstep, -⟩ := foldlM_cons_eq_ok_iff.mp hrest
  obtain ⟨⟨effect, stack'⟩, happly, -⟩ := bind_eq_ok_iff.mp hstep
  exact absurd (hopc.symm.trans happly) (by simp)

end OpcFuncDiffer

omit [Platform] in
/-- The status of an error is no success. -/
theorem contractStatus_ne_success (e : ValidationError) : contractStatus e ≠ .success := by
  intro h
  cases e <;> cases h

omit [Platform] in
theorem ExecuteContractFunctionTransactionDiff.fromValidationError_ne_success (e : ValidationError) :
    fromValidationError e ≠ .success := by
  unfold fromValidationError
  split
  · decide
  · exact contractStatus_ne_success e

/-- A diff that charges the fee and does nothing else. -/
structure FeeOnly (diff : Diff) (sender : PublicKeyAccount) (fee : Int64) : Prop where
  status : diff.txStatus ≠ .success
  changes : diff.toChanges = { feeCharged sender fee with txStatus := diff.txStatus }

/-- A diff with the effects of a function, the contract it registers and the fee, and nothing
else. -/
structure AllEffects (diff : Diff) (sender : PublicKeyAccount) (fee : Int64)
    (contracts : Dict ByteStr (Nat × ByteStr × Contract × Finset Address))
    (effects : List OpcDiff) : Prop where
  status : diff.txStatus = .success
  changes : diff.toChanges = { (OpcFuncDiffer.combined effects).changes with
    portfolios := (feeCharged sender fee).portfolios, contracts := contracts, chargedFee := fee }

/-- All or nothing: when a line of the function fails, the diff is the fee; and the diff is either the
fee, or all the effects of lines that have run one after another. -/
structure Atomic (context : Result ExecutionContext) (data : List DataEntry)
    (sender : PublicKeyAccount) (fee : Int64)
    (contracts : Dict ByteStr (Nat × ByteStr × Contract × Finset Address)) (diff : Diff) : Prop where
  failed : ∀ c, context = .ok c → OpcFuncDiffer.AnOpcodeFails c data → FeeOnly diff sender fee
  nothing : diff.txStatus ≠ .success → FeeOnly diff sender fee
  all : diff.txStatus = .success → ∃ c effects stack, context = .ok c ∧
    OpcFuncDiffer.Executed c data (opcLines c.opcFunc) effects stack ∧
    AllEffects diff sender fee contracts effects

/-- Both contract differs are all or nothing. -/
theorem contractDiff_atomic {height : Nat} {tx : Transaction} {sender : PublicKeyAccount}
    {fee : Int64} {contracts : Dict ByteStr (Nat × ByteStr × Contract × Finset Address)}
    {fromValidationError : ValidationError → TransactionStatus}
    (hstatus : ∀ e, fromValidationError e ≠ .success) {context : Result ExecutionContext}
    {data : List DataEntry} {diff : Diff}
    (h : contractDiff height tx sender fee contracts fromValidationError (do
      let c ← context
      OpcFuncDiffer.apply c data) = .ok diff) :
    Atomic context data sender fee contracts diff := by
  cases hrun : (do let c ← context; OpcFuncDiffer.apply c data : Result OpcDiff) with
  | error fault =>
      rw [hrun] at h
      cases fault with
      | raised e => cases h
      | left e =>
          obtain rfl := Except.ok.inj h
          have hfee : FeeOnly (Diff.apply height tx
              { feeCharged sender fee with txStatus := fromValidationError e } ∅) sender fee :=
            ⟨hstatus e, rfl⟩
          exact ⟨fun _ _ _ => hfee, fun _ => hfee, fun hsuccess => absurd hsuccess (hstatus e)⟩
  | ok df =>
      rw [hrun] at h
      obtain rfl := Except.ok.inj h
      obtain ⟨c, hcontext, happly⟩ := bind_eq_ok_iff.mp hrun
      refine ⟨fun c' hc' hfails => ?_, fun hstatus' => absurd rfl hstatus', fun _ => ?_⟩
      · obtain rfl := Except.ok.inj (hcontext.symm.trans hc')
        exact absurd happly (OpcFuncDiffer.not_ok_of_fails hfails)
      · obtain ⟨effects, stack, hexecuted, rfl⟩ := OpcFuncDiffer.executed_of_apply happly
        exact ⟨c, effects, stack, hcontext, hexecuted, rfl, rfl⟩

/-- The diff of a registration or of a call is all or nothing, and every line of a function sees the
effects of all the lines before it. -/
theorem contract_transactions_atomic :
    (∀ (s : StateView) (height : Nat) (tx : RegisterContractTransaction.Checked) (diff : Diff),
      RegisterContractTransactionDiff.apply s height tx = .ok diff →
      ∃ sender, tx.proofs.headPublicKey = .ok sender ∧
        Atomic (ExecutionContext.fromRegConTx s height tx) tx.data sender tx.fee
          (Finmap.singleton tx.contractId.bytes
            (height, (Transaction.registerContract tx).id, tx.contract, {sender.toAddress})) diff) ∧
    (∀ (s : StateView) (height : Nat) (tx : ExecuteContractFunctionTransaction.Checked) (diff : Diff),
      ExecuteContractFunctionTransactionDiff.apply s height tx = .ok diff →
      ∃ sender, tx.proofs.headPublicKey = .ok sender ∧
        Atomic (ExecutionContext.fromExeConTx s height tx) tx.data sender tx.fee ∅ diff) ∧
    ∀ (context : ExecutionContext) (effects : List OpcDiff),
      OpcFuncDiffer.Sees (OpcFuncDiffer.contextAfter context effects).state context.state
        effects := by
  refine ⟨?_, ?_, OpcFuncDiffer.contextAfter_sees⟩
  · intro s height tx diff h
    unfold RegisterContractTransactionDiff.apply at h
    split at h
    · cases h
    · obtain ⟨sender, hsender, h⟩ := bind_eq_ok_iff.mp h
      exact ⟨sender, hsender, contractDiff_atomic contractStatus_ne_success h⟩
  · intro s height tx diff h
    unfold ExecuteContractFunctionTransactionDiff.apply at h
    split at h
    · cases h
    · obtain ⟨sender, hsender, h⟩ := bind_eq_ok_iff.mp h
      exact ⟨sender, hsender, contractDiff_atomic
        ExecuteContractFunctionTransactionDiff.fromValidationError_ne_success h⟩

end Platform

namespace Sample

/-- A registration of the permitted contract, whose trigger creates a token. -/
def creation : RegisterContractTransaction.Checked :=
  ⟨⟨ContractPermitted.contract, TokenOverflow.createData, "", 100, 100, 0, fullProofs,
    noDescription_length, fee_pos, feeScale_eq⟩, TokenOverflow.createData_valid⟩

/-- The same registration with the unity zero. -/
def unitlessCreation : RegisterContractTransaction.Checked :=
  ⟨{ creation.toRegisterContractTransaction with
      data := [TokenOverflow.amount 0, TokenOverflow.amount 0, TokenOverflow.text] },
    by decide +kernel⟩

/-- The diff of the registration. -/
def creationDiff : Diff :=
  okOr (RegisterContractTransactionDiff.apply TokenOverflow.start 1 creation) Diff.empty

/-- The diff of the registration with the unity zero. -/
def unitlessCreationDiff : Diff :=
  okOr (RegisterContractTransactionDiff.apply TokenOverflow.start 1 unitlessCreation) Diff.empty

/-- What the trigger with the unity zero is run in. -/
def unitlessContext : ExecutionContext :=
  okOr (ExecutionContext.fromRegConTx TokenOverflow.start 1 unitlessCreation)
    (TokenOverflow.contextOf TokenOverflow.start [])

/-- The lines of the trigger before the one that makes the token, which write the issuer and the
maker, and that line. -/
def triggerLines : List ByteStr × ByteStr :=
  ((opcLines unitlessContext.opcFunc).take 3, (opcLines unitlessContext.opcFunc).getLastD [])

/-- What the first lines of the trigger leave. -/
def issuerWritten : OpcDiff × List DataEntry :=
  okOr (triggerLines.1.foldlM (OpcFuncDiffer.step unitlessContext)
    (OpcDiff.empty, unitlessCreation.data)) (OpcDiff.empty, [])

/-- The first lines of the trigger write two entries, and then the token is refused. -/
theorem unitlessCreation_evaluates :
    (RegisterContractTransactionDiff.apply TokenOverflow.start 1 creation).isOk = true ∧
      creationDiff.txStatus = .success ∧
      (RegisterContractTransactionDiff.apply TokenOverflow.start 1 unitlessCreation).isOk = true ∧
      unitlessCreationDiff.txStatus = .contractInvalidTokenInfo ∧
      (ExecutionContext.fromRegConTx TokenOverflow.start 1 unitlessCreation).isOk = true ∧
      opcLines unitlessContext.opcFunc = triggerLines.1 ++ [triggerLines.2] ∧
      (triggerLines.1.foldlM (OpcFuncDiffer.step unitlessContext)
        (OpcDiff.empty, unitlessCreation.data)).isOk = true ∧
      issuerWritten.1.contractDB.keys.card = 2 ∧
      (OpcDiffer.apply
        { unitlessContext with state := OpcFuncDiffer.stateSoFar unitlessContext issuerWritten.1 }
        triggerLines.2 issuerWritten.2).isOk = false := by
  decide +kernel

/-- A registration succeeds with all its effects.  One whose trigger fails, at the line after it
has written the issuer and the maker, is charged its fee and nothing else. -/
theorem creation_atomic :
    creationDiff.txStatus = .success ∧
      (∃ sender, creation.proofs.headPublicKey = .ok sender ∧
        Atomic (ExecutionContext.fromRegConTx TokenOverflow.start 1 creation) creation.data sender
          creation.fee (Finmap.singleton creation.contractId.bytes (1,
            (Transaction.registerContract creation).id, creation.contract, {sender.toAddress}))
          creationDiff) ∧
      issuerWritten.1.contractDB.keys.card = 2 ∧
      OpcFuncDiffer.AnOpcodeFails unitlessContext unitlessCreation.data ∧
      ∃ sender, unitlessCreation.proofs.headPublicKey = .ok sender ∧
        FeeOnly unitlessCreationDiff sender unitlessCreation.fee := by
  obtain ⟨hcreation, hsuccess, hunitless, -, hcontext, hlines, hfold, hwritten, hlast⟩ :=
    unitlessCreation_evaluates
  have hcreated : RegisterContractTransactionDiff.apply TokenOverflow.start 1 creation
      = .ok creationDiff := eq_ok_okOr hcreation
  have hrun : ExecutionContext.fromRegConTx TokenOverflow.start 1 unitlessCreation
      = .ok unitlessContext := eq_ok_okOr hcontext
  have hdiff : RegisterContractTransactionDiff.apply TokenOverflow.start 1 unitlessCreation
      = .ok unitlessCreationDiff := eq_ok_okOr hunitless
  have hbefore : triggerLines.1.foldlM (OpcFuncDiffer.step unitlessContext)
      (OpcDiff.empty, unitlessCreation.data) = .ok issuerWritten := eq_ok_okOr hfold
  have hfails : OpcFuncDiffer.AnOpcodeFails unitlessContext unitlessCreation.data :=
    OpcFuncDiffer.anOpcodeFails_of_foldlM hlines hbefore hlast
  obtain ⟨sender, hsender, hatomic⟩ :=
    contract_transactions_atomic.1 _ 1 unitlessCreation _ hdiff
  have hfee : FeeOnly unitlessCreationDiff sender unitlessCreation.fee :=
    hatomic.failed _ hrun hfails
  exact ⟨hsuccess, contract_transactions_atomic.1 _ 1 creation _ hcreated, hwritten,
    hfails, sender, hsender, hfee⟩

end Sample

end Vsys
