import Vsys.Chain.Invariants
import Vsys.Contract.Authorisation
import Vsys.Diffs.Atomicity

/-!
# Who can change the tokens of a contract

A contract that has been registered stays what it is, and so does its maker.  What other contracts'
functions write is their own, so its state variables and its tokens change by calls of its own
functions alone, and those have found the signature they ask for.
-/

namespace Vsys

open Lib CompositeStateReader

section Platform

variable [Platform]

/-- The registration a transaction is: of one contract, and with success. -/
def ProcessedTransaction.registrationOf (c : ContractAccount) (p : ProcessedTransaction) :
    Option RegisterContractTransaction.Checked :=
  match p.transaction with
  | .registerContract tx => if p.status = .success ∧ tx.contractId = c then some tx else none
  | _ => none

/-- The registrations of a contract among some transactions. -/
def registrations (c : ContractAccount) (done : List ProcessedTransaction) :
    List RegisterContractTransaction.Checked :=
  done.filterMap (ProcessedTransaction.registrationOf c)

/-- The last of them. -/
def lastRegistration (c : ContractAccount) (done : List ProcessedTransaction) :
    Option RegisterContractTransaction.Checked :=
  (registrations c done).getLast?

/-- A state has the contract of a registration, with its signer as the maker. -/
structure StateView.Registered (s : StateView) (c : ContractAccount)
    (tx : RegisterContractTransaction.Checked) : Prop where
  content : ∃ height id, s.contractContent c.bytes = .ok (some (height, id, tx.contract))
  maker : ∃ signer, tx.proofs.headPublicKey = .ok signer ∧
    s.VariableIs c ContractPermitted.StateVar.maker signer.toAddress

/-- Changes that do not touch a contract. -/
structure Changes.Spares (c : ContractAccount) (ch : Changes) : Prop where
  contracts : ch.contracts.lookup c.bytes = none
  contractDB : ∀ var, ch.contractDB.lookup (stateVarKey c var) = none
  contractTokens : ch.contractTokens.lookup c.bytes = none
  tokenDB : ∀ i rest, ch.tokenDB.lookup (c.tokenId i ++ rest) = none
  tokenAccountBalance : ∀ i rest, ch.tokenAccountBalance.lookup (c.tokenId i ++ rest) = none

/-- A call of a function of a contract by a signer. -/
structure Transaction.Calls (c : ContractAccount) (sender : PublicKeyAccount)
    (exe : ExecuteContractFunctionTransaction.Checked) : Prop where
  contractId : exe.contractId = c
  sender : exe.proofs.headPublicKey = .ok sender

omit [Platform] in
/-- The signer the differs read is the one the opcodes see. -/
theorem ExecutionContext.signersOf_of_headPublicKey {proofs : Proofs} {sender : PublicKeyAccount}
    (hsender : proofs.headPublicKey = .ok sender) : signersOf proofs = .ok [sender] := by
  obtain ⟨proof, hproofs, rfl⟩ := Proofs.headPublicKey_eq_ok_iff.mp hsender
  rw [signersOf, hproofs]
  simp only [List.mapM_cons, List.mapM_nil, EllipticCurve25519Proof.fromBytes_bytes, rightGet,
    ok_bind]
  rfl

omit [Platform] in
theorem ExecutionContext.head_signersOf {proofs : Proofs} {signers : List PublicKeyAccount}
    {sender : PublicKeyAccount} (hsigners : ExecutionContext.signersOf proofs = .ok signers)
    (hsender : proofs.headPublicKey = .ok sender) : signers.head? = some sender := by
  obtain rfl := Except.ok.inj ((signersOf_of_headPublicKey hsender).symm.trans hsigners)
  rfl

section Transactions

variable {fs : FunctionalitySettings} {s : StateView} {height : Nat} {t : Transaction}
  {ch : Changes} {related : Dict Address Bool} {c : ContractAccount} {df : OpcDiff}

/-- What a function of another contract writes. -/
theorem OpcDiff.Own.spares {c' : ContractAccount} {ch : Changes} (h : df.Own c') (hne : c' ≠ c)
    (hcontracts : ch.contracts.lookup c.bytes = none) (hdb : ch.contractDB = df.contractDB)
    (htokens : ch.contractTokens = df.contractTokens)
    (hinfo : ch.tokenDB = df.tokenDB) (hbalance : ch.tokenAccountBalance = df.tokenAccountBalance) :
    ch.Spares c := by
  refine ⟨hcontracts, fun var => ?_, ?_, fun i rest => ?_, fun i rest => ?_⟩
  · rw [hdb]
    refine h.contractDB.lookup_eq_none ?_
    rintro ⟨var', hkey⟩
    exact hne (stateVarKey_inj.mp hkey).1.symm
  · rw [htokens]
    exact h.contractTokens.lookup_eq_none fun hkey => hne (ContractAccount.ext hkey).symm
  · rw [hinfo]
    exact h.tokenDB.lookup_eq_none fun hkey => hne hkey.eq_of_tokenId.symm
  · rw [hbalance]
    exact h.tokenAccountBalance.lookup_eq_none fun hkey => hne hkey.eq_of_tokenId.symm

/-- A transaction leaves a contract alone, registers it, or calls one of its functions. -/
theorem TransactionEffect.contract_cases (h : TransactionEffect fs height s t ch related)
    (c : ContractAccount) :
    ch.Spares c ∨
    (∃ tx, t = .registerContract tx ∧ ch.txStatus = .success ∧ tx.contractId = c) ∨
    ∃ exe sender context, ∃ df : OpcDiff,
      t = .executeContractFunction exe ∧ Transaction.Calls c sender exe ∧
      ExecutionContext.fromExeConTx s height exe = .ok context ∧
      OpcFuncDiffer.apply context exe.data = .ok df ∧ ch = { df.changes with
        portfolios := (feeCharged sender exe.fee).portfolios
        contracts := ∅
        chargedFee := exe.fee } := by
  cases h with
  | registerContract tx sender hsender context hcontext df happly =>
      by_cases hc : tx.contractId = c
      · exact .inr (.inl ⟨tx, rfl, rfl, hc⟩)
      · left
        obtain ⟨signers, -, rfl⟩ := ExecutionContext.fromRegConTx_eq_ok hcontext
        refine (OpcFuncDiffer.own_apply happly).spares hc ?_ rfl rfl rfl rfl
        rw [Dict.lookup_singleton, if_neg]
        exact fun hbytes => hc (ContractAccount.ext hbytes).symm
  | executeContractFunction exe sender hsender context hcontext df happly =>
      by_cases hc : exe.contractId = c
      · exact .inr (.inr ⟨exe, sender, context, df, rfl, ⟨hc, hsender⟩, hcontext, happly, rfl⟩)
      · left
        obtain ⟨_, _, _, _, _, -, -, -, -, rfl⟩ := ExecutionContext.fromExeConTx_eq_ok hcontext
        exact (OpcFuncDiffer.own_apply happly).spares hc (Finmap.lookup_empty _) rfl rfl rfl rfl
  | _ =>
      exact .inl ⟨Finmap.lookup_empty _, fun _ => Finmap.lookup_empty _, Finmap.lookup_empty _,
        fun _ _ => Finmap.lookup_empty _, fun _ _ => Finmap.lookup_empty _⟩

/-- A contract that is registered. -/
theorem contractContent_view {e : Diff} {id txId : ByteStr} {registered : Nat}
    {contract : Contract} {accounts : Finset Address}
    (h : e.contracts.lookup id = some (registered, txId, contract, accounts)) :
    (view s e.asBlockDiff).contractContent id = .ok (some (registered, txId, contract)) := by
  have hcontracts : e.asBlockDiff.txsDiff.contracts.lookup id
      = some (registered, txId, contract, accounts) := h
  simp only [view, hcontracts]

/-- A variable that is set to an address. -/
theorem StateView.variableIs_view {e : Diff} {var : Byte} {a : Address}
    (h : e.contractDB.lookup (stateVarKey c var) = some (⟨a.bytes, .address⟩ : DataEntry).bytes) :
    (view s e.asBlockDiff).VariableIs c var a := by
  have hread := DataEntry.fromBytes_bytes (DataEntry.valid_address a) (by simp)
  have hdb : e.asBlockDiff.txsDiff.contractDB.lookup (stateVarKey c var)
      = some (⟨a.bytes, .address⟩ : DataEntry).bytes := h
  simp only [StateView.VariableIs, view, hdb, hread]
  rfl

/-- What a contract that is not touched keeps. -/
theorem StateView.Registered.spared {tx : RegisterContractTransaction.Checked} {e : Diff}
    (h : s.Registered c tx) (hcontract : e.contracts.lookup c.bytes = none)
    (hvar : e.contractDB.lookup (stateVarKey c ContractPermitted.StateVar.maker) = none) :
    (view s e.asBlockDiff).Registered c tx := by
  obtain ⟨⟨height, id, hcontent⟩, signer, hsigner, hmaker⟩ := h
  have hcontracts : e.asBlockDiff.txsDiff.contracts.lookup c.bytes = none := hcontract
  have hdb : e.asBlockDiff.txsDiff.contractDB.lookup
      (stateVarKey c ContractPermitted.StateVar.maker) = none := hvar
  refine ⟨⟨height, id, ?_⟩, signer, hsigner, ?_⟩
  · simp only [view, hcontracts, hcontent]
  · simp only [StateView.VariableIs, view, hdb]
    exact hmaker

end Transactions

section Chain

variable {fs : FunctionalitySettings} {s : StateView} {done : List ProcessedTransaction}
  {p : ProcessedTransaction} {e : Diff} {c : ContractAccount}
  {tx : RegisterContractTransaction.Checked}

theorem ProcessedTransaction.registrationOf_eq_some_iff : p.registrationOf c = some tx ↔
    p.transaction = .registerContract tx ∧ p.status = .success ∧ tx.contractId = c := by
  unfold registrationOf
  split
  · rename_i t ht
    constructor
    · intro h
      split at h
      · rename_i hp
        obtain rfl := Option.some.inj h
        exact ⟨ht, hp⟩
      · cases h
    · rintro ⟨ht', hp⟩
      obtain rfl := Transaction.registerContract.inj (ht.symm.trans ht')
      exact if_pos hp
  · rename_i hother
    exact ⟨fun h => (by cases h), fun h => absurd h.1 (hother tx)⟩

/-- The last registration is that of the last transaction, or an earlier one. -/
theorem lastRegistration_concat : lastRegistration c (done ++ [p])
    = (p.registrationOf c).or (lastRegistration c done) := by
  rw [lastRegistration, registrations, List.filterMap_append, List.getLast?_append]
  cases hp : p.registrationOf c with
  | none => simp [hp, lastRegistration, registrations]
  | some tx => simp [hp]

/-- A registration that succeeds brings its contract, and makes its signer the maker. -/
theorem Accepted.registered (h : Accepted fs s p e) (hreg : p.registrationOf c = some tx)
    (hpermitted : tx.contract.IsPermitted) : (view s e.asBlockDiff).Registered c tx := by
  obtain ⟨ht, hstatus, rfl⟩ := ProcessedTransaction.registrationOf_eq_some_iff.mp hreg
  obtain ⟨-, ⟨ch, related, heffect, rfl⟩, -⟩ := h.applies
  have hsuccess : ch.txStatus = .success := h.status.trans hstatus
  rw [ht] at heffect
  cases heffect with
  | registerFailed _ sender hsender error =>
      exact absurd hsuccess (contractStatus_ne_success error)
  | registerContract _ sender hsender context hcontext df happly =>
      obtain ⟨signers, hsigners, rfl⟩ := ExecutionContext.fromRegConTx_eq_ok hcontext
      obtain ⟨signer, hsigner, hdb⟩ := OpcFuncDiffer.initFunc_eq_ok
        (OpcFuncDiffer.stateVar_eq hpermitted) (OpcFuncDiffer.trigger_eq hpermitted) happly
      obtain rfl := Option.some.inj
        ((ExecutionContext.head_signersOf hsigners hsender).symm.trans hsigner)
      exact ⟨⟨_, _, contractContent_view Finmap.lookup_singleton_eq⟩, sender, hsender,
        StateView.variableIs_view (hdb _ (.inr rfl))⟩

/-- A call of a function of a registered contract that succeeds. -/
theorem StateView.Registered.authorised {exe : ExecuteContractFunctionTransaction.Checked}
    {sender : PublicKeyAccount} {context : ExecutionContext} {height : Nat} {df : OpcDiff}
    (h : s.Registered c tx) (hpermitted : tx.contract.IsPermitted)
    (hcall : Transaction.Calls c sender exe)
    (hcontext : ExecutionContext.fromExeConTx s height exe = .ok context)
    (happly : OpcFuncDiffer.apply context exe.data = .ok df) :
    df.Authorised s c sender.toAddress := by
  obtain ⟨⟨registered, id, hcontent⟩, -⟩ := h
  obtain ⟨hc, hsender⟩ := hcall
  obtain ⟨signers, _, _, contract, opcFunc, hsigners, hfound, -, hfunc, rfl⟩ :=
    ExecutionContext.fromExeConTx_eq_ok hcontext
  rw [hc, hcontent] at hfound
  obtain ⟨-, hsame⟩ := Prod.mk.inj (Option.some.inj (Except.ok.inj hfound))
  obtain ⟨-, rfl⟩ := Prod.mk.inj hsame
  obtain ⟨signer, hsigner, hauthorised⟩ := OpcFuncDiffer.calledBySigner_of_apply hpermitted rfl
    (List.mem_of_getElem? hfunc) happly
  obtain rfl := Option.some.inj
    ((ExecutionContext.head_signersOf hsigners hsender).symm.trans hsigner)
  exact hc ▸ hauthorised

/-- A transaction that is no registration of a contract keeps it and its maker. -/
theorem Accepted.keepsRegistered (h : Accepted fs s p e) (hs : s.Registered c tx)
    (hpermitted : tx.contract.IsPermitted) (hreg : p.registrationOf c = none) :
    (view s e.asBlockDiff).Registered c tx := by
  obtain ⟨-, ⟨ch, related, heffect, rfl⟩, -⟩ := h.applies
  have hstatus : ch.txStatus = p.status := h.status
  obtain hspares | ⟨tx', ht, hsuccess, hc⟩ | ⟨exe, sender, context, df, ht, hcall, hcontext, happly,
    rfl⟩ := heffect.contract_cases c
  · exact hs.spared hspares.contracts (hspares.contractDB _)
  · have hsome := ProcessedTransaction.registrationOf_eq_some_iff.mpr
      ⟨ht, hstatus.symm.trans hsuccess, hc⟩
    cases hreg.symm.trans hsome
  · have hauthorised := hs.authorised hpermitted hcall hcontext happly
    exact hs.spared (Finmap.lookup_empty _) hauthorised.maker

/-- In every state of a chain each contract that has been registered is there, with the signer of
its registration as its maker. -/
theorem registered_invariant (fs : FunctionalitySettings) : ChainInvariant fs fun done s =>
    ∀ c tx, lastRegistration c done = some tx → tx.contract.IsPermitted → s.Registered c tx where
  empty := fun c tx h => by cases h
  transaction := fun _ hs h c tx hlast hpermitted => by
    rw [lastRegistration_concat, Option.or_eq_some_iff] at hlast
    obtain hreg | ⟨hreg, hlast⟩ := hlast
    · exact h.registered hreg hpermitted
    · exact h.keepsRegistered (hs c tx hlast hpermitted) hpermitted hreg
  block := fun _ _ hs c tx hlast hpermitted =>
    ⟨(hs c tx hlast hpermitted).content, (hs c tx hlast hpermitted).maker⟩
  write := fun {L done p d} ss hp hd hs c tx hlast hpermitted => by
    obtain ⟨⟨height, id, hcontent⟩, signer, hsigner, hmaker⟩ := hs c tx hlast hpermitted
    have hwritten := StateStorage.view_eq_written_except ss hp.sound hd.stackable.fits
      hd.issuedAssets
    refine ⟨⟨height, id, ?_⟩, signer, hsigner, ?_⟩
    · -- the contract is read back from its bytes, as it is a permitted one
      rw [StateStorage.contractContent_written]
      cases hc : d.txsDiff.contracts.lookup c.bytes with
      | none =>
          simp only [view, hc] at hcontent
          exact hcontent
      | some content =>
          simp only [view, hc] at hcontent
          obtain ⟨rfl, hsame⟩ := Prod.mk.inj (Option.some.inj (Except.ok.inj hcontent))
          obtain ⟨rfl, hcontract⟩ := Prod.mk.inj hsame
          simp only [hcontract, hpermitted.fromBytes_bytes]
          rfl
    · rw [← hwritten]
      exact hmaker

/-- The balances of a contract's tokens after a transaction. -/
theorem tokenAccountBalance_view (k : ByteStr) : (view s e.asBlockDiff).tokenAccountBalance k
    = safeSum ((e.tokenAccountBalance.lookup k).getD 0) (s.tokenAccountBalance k) := rfl

theorem tokenInfo_view_of_none {k : ByteStr} (h : e.tokenDB.lookup k = none) :
    (view s e.asBlockDiff).tokenInfo k = s.tokenInfo k := by
  have hdb : e.asBlockDiff.txsDiff.tokenDB.lookup k = none := h
  simp only [view, hdb]

theorem contractInfo_view_of_none {k : ByteStr} (h : e.contractDB.lookup k = none) :
    (view s e.asBlockDiff).contractInfo k = s.contractInfo k := by
  have hdb : e.asBlockDiff.txsDiff.contractDB.lookup k = none := h
  simp only [view, hdb]

/-- A transaction is a call of a function of a contract by an address. -/
def ProcessedTransaction.CalledBy (c : ContractAccount) (a : Address) (p : ProcessedTransaction) :
    Prop :=
  ∃ exe sender, p.transaction = .executeContractFunction exe ∧
    Transaction.Calls c sender exe ∧ sender.toAddress = a

/-- The maker of a contract is the signer of its registration. -/
def RegisterContractTransaction.MadeBy (tx : RegisterContractTransaction) (a : Address) : Prop :=
  ∃ signer, tx.proofs.headPublicKey = .ok signer ∧ signer.toAddress = a

/-- What a transaction does to a permitted contract, but for its registration: it takes from the
balances of the caller alone, changes the totals and the unities of the tokens for the issuer alone,
and the issuer for the signer of the registration alone. -/
structure Authorised (c : ContractAccount) (tx : RegisterContractTransaction.Checked)
    (p : ProcessedTransaction) (s s' : StateView) : Prop where
  balance : ∀ i a, s'.tokens.balance c i a < s.tokens.balance c i a → p.CalledBy c a
  total : ∀ i, s'.tokens.total c i ≠ s.tokens.total c i →
    ∃ a, p.CalledBy c a ∧ s.VariableIs c ContractPermitted.StateVar.issuer a
  info : ∀ i key, s'.tokenInfo (tokenKey (c.tokenId i) key)
      ≠ s.tokenInfo (tokenKey (c.tokenId i) key) →
    key = .unity ∧ ∃ a, p.CalledBy c a ∧ s.VariableIs c ContractPermitted.StateVar.issuer a
  issuer : s'.contractInfo (stateVarKey c ContractPermitted.StateVar.issuer)
      ≠ s.contractInfo (stateVarKey c ContractPermitted.StateVar.issuer) →
    ∃ a, p.CalledBy c a ∧ tx.MadeBy a
  maker : ∃ a, tx.MadeBy a ∧ s'.VariableIs c ContractPermitted.StateVar.maker a

/-- An amount no change of which has been written. -/
theorem tokenAccountBalance_view_of_none {k : ByteStr} (h : e.tokenAccountBalance.lookup k = none) :
    (view s e.asBlockDiff).tokenAccountBalance k = s.tokenAccountBalance k := by
  rw [tokenAccountBalance_view, h, Option.getD_none, zero_safeSum]

/-- A transaction that does not touch a contract needs nobody's authority over it. -/
theorem authorised_of_spares (hs : (view s e.asBlockDiff).Registered c tx)
    (h : e.toChanges.Spares c) : Authorised c tx p s (view s e.asBlockDiff) := by
  have hamount (i : Int32) (rest : ByteStr) :
      (view s e.asBlockDiff).tokenAccountBalance (c.tokenId i ++ rest)
        = s.tokenAccountBalance (c.tokenId i ++ rest) :=
    tokenAccountBalance_view_of_none (h.tokenAccountBalance i rest)
  obtain ⟨-, signer, hsigner, hmaker⟩ := hs
  refine ⟨fun i a hlt => ?_, fun i hne => ?_, fun i key hne => ?_, fun hne => ?_,
    signer.toAddress, ⟨signer, hsigner, rfl⟩, hmaker⟩
  · exact absurd (congrArg Int64.toInt (hamount i a.bytes)) hlt.ne
  · exact absurd (congrArg Int64.toInt (hamount i _)) hne
  · exact absurd (tokenInfo_view_of_none (h.tokenDB i _)) hne
  · exact absurd (contractInfo_view_of_none (h.contractDB _)) hne

/-- A transaction that calls a function of the contract has the authority of its signer. -/
theorem authorised_of_call {exe : ExecuteContractFunctionTransaction.Checked}
    {sender : PublicKeyAccount} {df : OpcDiff} (hs : (view s e.asBlockDiff).Registered c tx)
    (hbefore : s.Registered c tx)
    (ht : p.transaction = .executeContractFunction exe) (hcall : Transaction.Calls c sender exe)
    (hdf : df.Authorised s c sender.toAddress) (hdb : e.contractDB = df.contractDB)
    (hinfo : e.tokenDB = df.tokenDB) (hbalance : e.tokenAccountBalance = df.tokenAccountBalance) :
    Authorised c tx p s (view s e.asBlockDiff) := by
  have hcalled : p.CalledBy c sender.toAddress := ⟨exe, sender, ht, hcall, rfl⟩
  obtain ⟨-, signer, hsigner, hmaker⟩ := hs
  refine ⟨fun i a hlt => ?_, fun i hne => ?_, fun i key hne => ?_, fun hne => ?_,
    signer.toAddress, ⟨signer, hsigner, rfl⟩, hmaker⟩
  · -- whoever is not the caller can only gain, and the sum is exact
    by_contra hother
    have ha : a ≠ sender.toAddress := fun ha => hother (ha ▸ hcalled)
    refine absurd hlt ?_
    cases hv : df.tokenAccountBalance.lookup (balanceKey (c.tokenId i) a.bytes) with
    | none =>
        exact (congrArg Int64.toInt (tokenAccountBalance_view_of_none (hbalance ▸ hv))).not_lt
    | some v =>
        obtain ⟨hgain, hword⟩ := hdf.balance i a v ha hv
        have hamount : (view s e.asBlockDiff).tokenAccountBalance
            (balanceKey (c.tokenId i) a.bytes)
              = safeSum v (s.tokenAccountBalance (balanceKey (c.tokenId i) a.bytes)) := by
          rw [tokenAccountBalance_view, hbalance, hv, Option.getD_some]
        have hsum : (view s e.asBlockDiff).tokens.balance c i a
            = v.toInt + s.tokens.balance c i a :=
          (congrArg Int64.toInt hamount).trans (toInt_safeSum hword)
        rw [Int64.le_iff_toInt_le, Int64.toInt_zero] at hgain
        omega
  · cases hv : df.tokenAccountBalance.lookup (tokenKey (c.tokenId i) .total) with
    | none =>
        exact absurd (congrArg Int64.toInt (tokenAccountBalance_view_of_none (hbalance ▸ hv))) hne
    | some v => exact ⟨_, hcalled, hdf.total i v hv⟩
  · cases hv : df.tokenDB.lookup (tokenKey (c.tokenId i) key) with
    | none => exact absurd (tokenInfo_view_of_none (hinfo ▸ hv)) hne
    | some v => exact ⟨(hdf.info i key v hv).1, _, hcalled, (hdf.info i key v hv).2⟩
  · cases hv : df.contractDB.lookup (stateVarKey c ContractPermitted.StateVar.issuer) with
    | none => exact absurd (contractInfo_view_of_none (hdb ▸ hv)) hne
    | some v =>
        obtain ⟨-, maker, hregistrant, hvar⟩ := hbefore
        exact ⟨_, hcalled, maker, hregistrant, hvar.eq (hdf.issuer v hv)⟩

/-- In every chain a permitted contract that has been registered obeys the signatures of its caller,
its issuer and its maker: whatever transaction comes next, short of one that registers a contract of
the same account. -/
theorem Passed.obeys_signatures (h : Passed fs done s) (haccepted : Accepted fs s p e)
    (hlast : lastRegistration c done = some tx) (hpermitted : tx.contract.IsPermitted)
    (hreg : p.registrationOf c = none) : Authorised c tx p s (view s e.asBlockDiff) := by
  have hbefore := (registered_invariant fs).passed h c tx hlast hpermitted
  have hafter := haccepted.keepsRegistered hbefore hpermitted hreg
  obtain ⟨-, ⟨ch, related, heffect, rfl⟩, -⟩ := haccepted.applies
  have hstatus : ch.txStatus = p.status := haccepted.status
  -- The transaction leaves the contract alone, registers it, or calls one of its functions.
  obtain hspares | ⟨tx', ht, hsuccess, hc⟩ | ⟨exe, sender, context, df, ht, hcall, hcontext, happly,
    rfl⟩ := heffect.contract_cases c
  · exact authorised_of_spares hafter hspares
  · have hsome := ProcessedTransaction.registrationOf_eq_some_iff.mpr
      ⟨ht, hstatus.symm.trans hsuccess, hc⟩
    cases hreg.symm.trans hsome
  · exact authorised_of_call hafter hbefore ht hcall
      (hbefore.authorised hpermitted hcall hcontext happly) rfl rfl rfl

end Chain

end Platform

namespace Sample

open TokenOverflow (amount text)

theorem tokenData_valid : ValidData [amount 1000, amount 1, text] := by
  simp only [ValidData, DataEntry.Valid]
  decide

/-- A registration of a permitted contract. -/
def registersToken : RegisterContractTransaction.Checked :=
  ⟨⟨ContractPermitted.contract, [amount 1000, amount 1, text], "", 100, 100, 0, fullProofs,
    noDescription_length, fee_pos, feeScale_eq⟩, tokenData_valid⟩

theorem issueAmount_valid : ValidData [amount 5] := by
  simp only [ValidData, DataEntry.Valid]
  decide

/-- A call of `issue` by its issuer. -/
def issuesToken : ExecuteContractFunctionTransaction.Checked :=
  ⟨⟨registersToken.contractId, 1, [amount 5], [], 100, 100, 0, fullProofs, noAttachment_length,
    fee_pos, feeScale_eq⟩, issueAmount_valid⟩

/-- The first transactions of a chain: the coins, and the registration. -/
def tokenTransactions : List ProcessedTransaction :=
  [⟨.success, 0, .genesis genesisTransaction⟩, ⟨.success, 100, .registerContract registersToken⟩]

/-- What they change. -/
def tokenDiff : Diff :=
  okOr (tokenTransactions.foldlM (BlockDiffer.txStep fs initialState.toStateView none 0 1)
    Diff.empty) Diff.empty

/-- The state they leave. -/
def tokenState : StateView := view initialState.toStateView tokenDiff.asBlockDiff

/-- What the call changes. -/
def issueDiff : Diff :=
  okOr (TransactionDiffer.apply fs none 0 1 tokenState (.executeContractFunction issuesToken))
    Diff.empty

/-- What the transactions and the call evaluate to. -/
theorem issueDiff_evaluates :
    (tokenTransactions.foldlM (BlockDiffer.txStep fs initialState.toStateView none 0 1)
      Diff.empty).isOk = true ∧
    lastRegistration registersToken.contractId tokenTransactions = some registersToken ∧
    (TransactionDiffer.apply fs none 0 1 tokenState
      (.executeContractFunction issuesToken)).isOk = true ∧
    issueDiff.chargedFee = 100 ∧ issueDiff.txStatus = .success ∧
    (view tokenState issueDiff.asBlockDiff).tokens.balance registersToken.contractId 0 owner
      = 5 := by
  decide +kernel

theorem tokenState_passed : Passed fs tokenTransactions tokenState :=
  .intro [] initialState .empty none 0 tokenTransactions tokenDiff
    (eq_ok_okOr issueDiff_evaluates.1)

/-- The call is accepted. -/
theorem issueDiff_accepted : Accepted fs tokenState
    ⟨.success, 100, .executeContractFunction issuesToken⟩ issueDiff where
  applied := ⟨none, 0, eq_ok_okOr issueDiff_evaluates.2.2.1⟩
  fee := issueDiff_evaluates.2.2.2.1
  status := issueDiff_evaluates.2.2.2.2.1

/-- The issuer has signed, and has five tokens more. -/
theorem issueDiff_obeys :
    Authorised registersToken.contractId registersToken
      ⟨.success, 100, .executeContractFunction issuesToken⟩ tokenState
      (view tokenState issueDiff.asBlockDiff) ∧
    (view tokenState issueDiff.asBlockDiff).tokens.balance registersToken.contractId 0 owner = 5 :=
  ⟨tokenState_passed.obeys_signatures issueDiff_accepted issueDiff_evaluates.2.1 (.inl rfl) rfl,
    issueDiff_evaluates.2.2.2.2.2⟩

end Sample

end Vsys
