import Vsys.Diffs.Transactions

/-!
# What an accepted transaction does

Each differ as a relation between a transaction and its changes, with the checks it has passed: the
relation has one case for each way a transaction ends, and everything later is a case analysis of
it.
-/

namespace Vsys

open Lib

variable [Platform]

/-- The ways a transaction of its own kind ends at a height on a state, with its changes and the
accounts it is related to beyond those whose portfolios it changes. -/
inductive TransactionEffect (fs : FunctionalitySettings) (height : Nat) (s : StateView) :
    Transaction → Changes → Dict Address Bool → Prop
  | genesis (tx : GenesisTransaction) (hheight : height = 1)
      (hslot : ¬ (tx.slotId.toInt < fs.numOfSlots ∧ 0 ≤ tx.slotId.toInt)) :
      TransactionEffect fs height s (.genesis tx)
        { portfolios := Finmap.singleton tx.recipient (Portfolio.ofBalance tx.amount) } ∅
  | genesisSlot (tx : GenesisTransaction) (hheight : height = 1)
      (hslot : tx.slotId.toInt < fs.numOfSlots ∧ 0 ≤ tx.slotId.toInt) :
      TransactionEffect fs height s (.genesis tx)
        { portfolios := Finmap.singleton tx.recipient (Portfolio.ofBalance tx.amount)
          slotids := Finmap.singleton tx.slotId.toInt (some tx.recipient.address)
          addToSlot := Finmap.singleton tx.recipient.address (some tx.slotId.toInt)
          slotNum := 1 } ∅
  | minting (tx : MintingTransaction) (hheight : tx.currentBlockHeight.toInt = height)
      (hamount : tx.amount = MintingReward) :
      TransactionEffect fs height s (.minting tx)
        { portfolios := Finmap.singleton tx.recipient (Portfolio.ofBalance tx.amount) } ∅
  | payment (tx : PaymentTransaction) (sender : PublicKeyAccount)
      (hsender : tx.proofs.headPublicKey = .ok sender) :
      TransactionEffect fs height s (.payment tx)
        { portfolios := Dict.mergeWith Portfolio.combine
            (Finmap.singleton tx.recipient (Portfolio.ofBalance tx.amount))
            (Finmap.singleton sender.toAddress (Portfolio.ofBalance (-tx.amount - tx.fee)))
          chargedFee := tx.fee } ∅
  | lease (tx : LeaseTransaction) (sender : PublicKeyAccount) (recipient : Address)
      (hsender : tx.proofs.headPublicKey = .ok sender)
      (hrecipient : s.resolveAliasEi tx.recipient = .ok recipient)
      (hself : recipient ≠ sender.toAddress)
      (hspendable : ¬ (s.accountPortfolio sender.toAddress).balance
        - (s.accountPortfolio sender.toAddress).leaseInfo.leaseOut < tx.amount) :
      TransactionEffect fs height s (.lease tx)
        { portfolios :=
            ((∅ : Dict Address Portfolio).insert sender.toAddress
              ⟨-tx.fee, ⟨0, tx.amount⟩, ∅⟩).insert recipient ⟨0, ⟨tx.amount, 0⟩, ∅⟩
          leaseState := Finmap.singleton (Transaction.lease tx).id true
          chargedFee := tx.fee } ∅
  | leaseCancel (tx : LeaseCancelTransaction) (lease : LeaseTransaction)
      (sender : PublicKeyAccount) (recipient : Address)
      (hlease : s.findLeaseTransaction tx.leaseId = .ok (some lease))
      (hrecipient : s.resolveAliasEi lease.recipient = .ok recipient)
      (hactive : s.isLeaseActive lease = true)
      (hlessor : lease.proofs.headPublicKey = .ok sender)
      (hsender : tx.proofs.headPublicKey = .ok sender) :
      TransactionEffect fs height s (.leaseCancel tx)
        { portfolios := Dict.mergeWith Portfolio.combine
            (Finmap.singleton sender.toAddress ⟨-tx.fee, ⟨0, -lease.amount⟩, ∅⟩)
            (Finmap.singleton recipient ⟨0, ⟨-lease.amount, 0⟩, ∅⟩)
          leaseState := Finmap.singleton (Transaction.lease lease).id false
          chargedFee := tx.fee } ∅
  | contendFailed (tx : ContendSlotsTransaction) (sender : PublicKeyAccount)
      (hsender : tx.proofs.headPublicKey = .ok sender) :
      TransactionEffect fs height s (.contendSlots tx)
        { feeCharged sender tx.fee with txStatus := .contendFailed } ∅
  | contendSlots (tx : ContendSlotsTransaction) (sender : PublicKeyAccount)
      (hsender : tx.proofs.headPublicKey = .ok sender)
      (hfree : s.addressSlot sender.toAddress.address = none)
      (hvalid : isValidSlotID fs tx.slotId.toInt = true) :
      TransactionEffect fs height s (.contendSlots tx)
        { feeCharged sender tx.fee with
          slotids := Finmap.singleton tx.slotId.toInt (some sender.toAddress.address)
          addToSlot := Finmap.singleton sender.toAddress.address (some tx.slotId.toInt)
          slotNum := if (s.slotAddress tx.slotId.toInt).isSome then 0 else 1 } ∅
  | releaseSlots (tx : ReleaseSlotsTransaction) (sender : PublicKeyAccount)
      (hsender : tx.proofs.headPublicKey = .ok sender)
      (hslot : s.slotAddress tx.slotId.toInt = some sender.toAddress.address)
      (henough : MinimalSlotNumber < s.effectiveSlotAddressSize)
      (hvalid : isValidSlotID fs tx.slotId.toInt = true) :
      TransactionEffect fs height s (.releaseSlots tx)
        { feeCharged sender tx.fee with
          slotids := Finmap.singleton tx.slotId.toInt none
          addToSlot := Finmap.singleton sender.toAddress.address none
          slotNum := -1 } ∅
  | registerContract (tx : RegisterContractTransaction.Checked) (sender : PublicKeyAccount)
      (hsender : tx.proofs.headPublicKey = .ok sender) (context : ExecutionContext)
      (hcontext : ExecutionContext.fromRegConTx s height tx = .ok context) (df : OpcDiff)
      (happly : OpcFuncDiffer.apply context tx.data = .ok df) :
      TransactionEffect fs height s (.registerContract tx)
        { df.changes with
          portfolios := (feeCharged sender tx.fee).portfolios
          contracts := Finmap.singleton tx.contractId.bytes
            (height, (Transaction.registerContract tx).id, tx.contract, {sender.toAddress})
          chargedFee := tx.fee } df.relatedAddress
  | registerFailed (tx : RegisterContractTransaction.Checked) (sender : PublicKeyAccount)
      (hsender : tx.proofs.headPublicKey = .ok sender) (e : ValidationError) :
      TransactionEffect fs height s (.registerContract tx)
        { feeCharged sender tx.fee with
          txStatus := RegisterContractTransactionDiff.fromValidationError e } ∅
  | executeContractFunction (tx : ExecuteContractFunctionTransaction.Checked) (sender : PublicKeyAccount)
      (hsender : tx.proofs.headPublicKey = .ok sender) (context : ExecutionContext)
      (hcontext : ExecutionContext.fromExeConTx s height tx = .ok context) (df : OpcDiff)
      (happly : OpcFuncDiffer.apply context tx.data = .ok df) :
      TransactionEffect fs height s (.executeContractFunction tx)
        { df.changes with
          portfolios := (feeCharged sender tx.fee).portfolios
          contracts := ∅
          chargedFee := tx.fee } df.relatedAddress
  | executeFailed (tx : ExecuteContractFunctionTransaction.Checked) (sender : PublicKeyAccount)
      (hsender : tx.proofs.headPublicKey = .ok sender) (e : ValidationError) :
      TransactionEffect fs height s (.executeContractFunction tx)
        { feeCharged sender tx.fee with
          txStatus := ExecuteContractFunctionTransactionDiff.fromValidationError e } ∅
  | dbPut (tx : DbPutTransaction) (sender : PublicKeyAccount)
      (hsender : tx.proofs.headPublicKey = .ok sender) (storageKey : ByteStr)
      (hkey : tx.storageKey = .ok storageKey) :
      TransactionEffect fs height s (.dbPut tx)
        { feeCharged sender tx.fee with
          dbEntries := Finmap.singleton storageKey tx.entry } ∅

section Differs

variable {fs : FunctionalitySettings} {height : Nat} {s : StateView} {d : Diff}

/-- A diff is one of the ways a transaction ends. -/
def HasEffect (fs : FunctionalitySettings) (height : Nat) (s : StateView) (tx : Transaction)
    (d : Diff) : Prop :=
  ∃ c related, TransactionEffect fs height s tx c related ∧ d = Diff.apply height tx c related

/-- The diff of a genesis transaction has its effect. -/
theorem GenesisTransactionDiff.apply_eq_ok {tx : GenesisTransaction}
    (h : GenesisTransactionDiff.apply fs height tx = .ok d) :
    HasEffect fs height s (.genesis tx) d := by
  unfold GenesisTransactionDiff.apply at h
  simp only at h
  split_ifs at h with hheight hslot
  · cases h
  · exact ⟨_, _, .genesisSlot tx (not_not.mp hheight) hslot, (Except.ok.inj h).symm⟩
  · exact ⟨_, _, .genesis tx (not_not.mp hheight) hslot, (Except.ok.inj h).symm⟩

/-- The diff of a minting transaction has its effect. -/
theorem MintingTransactionDiff.apply_eq_ok {tx : MintingTransaction}
    (h : MintingTransactionDiff.apply height tx = .ok d) :
    HasEffect fs height s (.minting tx) d := by
  unfold MintingTransactionDiff.apply at h
  split_ifs at h with hheight hamount
  · cases h
  · cases h
  · exact ⟨_, _, .minting tx (not_not.mp hheight) (not_not.mp hamount), (Except.ok.inj h).symm⟩

/-- The diff of a payment has its effect. -/
theorem PaymentTransactionDiff.apply_eq_ok {tx : PaymentTransaction}
    (h : PaymentTransactionDiff.apply height tx = .ok d) :
    HasEffect fs height s (.payment tx) d := by
  obtain ⟨sender, hsender, h⟩ := bind_eq_ok_iff.mp h
  exact ⟨_, _, .payment tx sender hsender, (Except.ok.inj h).symm⟩

/-- The diff of a lease has its effect. -/
theorem LeaseTransactionsDiff.lease_eq_ok {tx : LeaseTransaction}
    (h : LeaseTransactionsDiff.lease s height tx = .ok d) :
    HasEffect fs height s (.lease tx) d := by
  obtain ⟨sender, hsender, h⟩ := bind_eq_ok_iff.mp h
  obtain ⟨recipient, hrecipient, h⟩ := bind_eq_ok_iff.mp h
  simp only at h
  split_ifs at h with hself hspendable
  · cases h
  · cases h
  · exact ⟨_, _, .lease tx sender recipient hsender hrecipient hself hspendable,
      (Except.ok.inj h).symm⟩

/-- The diff of a cancellation has its effect. -/
theorem LeaseTransactionsDiff.leaseCancel_eq_ok {tx : LeaseCancelTransaction}
    (h : LeaseTransactionsDiff.leaseCancel s height tx = .ok d) :
    HasEffect fs height s (.leaseCancel tx) d := by
  obtain ⟨found, hlease, h⟩ := bind_eq_ok_iff.mp h
  match found with
  | none => cases h
  | some lease =>
      obtain ⟨recipient, hrecipient, h⟩ := bind_eq_ok_iff.mp h
      obtain ⟨lessor, hlessor, h⟩ := bind_eq_ok_iff.mp h
      by_cases hactive : s.isLeaseActive lease = true
      · rw [if_neg (not_not.mpr hactive)] at h
        obtain ⟨sender, hsender, h⟩ := bind_eq_ok_iff.mp h
        by_cases hsame : sender = lessor
        · subst hsame
          rw [if_pos rfl] at h
          exact ⟨_, _, .leaseCancel tx lease sender recipient hlease hrecipient hactive hlessor
            hsender, (Except.ok.inj h).symm⟩
        · rw [if_neg hsame] at h
          cases h
      · rw [if_pos hactive] at h
        cases h

/-- The diff of a contention has its effect, whether the contender wins or not. -/
theorem ContendSlotsTransactionDiff.apply_eq_ok {tx : ContendSlotsTransaction}
    (h : ContendSlotsTransactionDiff.apply s fs height tx = .ok d) :
    HasEffect fs height s (.contendSlots tx) d := by
  obtain ⟨sender, hsender, h⟩ := bind_eq_ok_iff.mp h
  -- what the contender's share decides, however the owner's is found
  have hcontend {slotGen contendGen : Int64} {slotIncrease : Int}
      (hchecks : (¬ (s.addressSlot sender.toAddress.address).isSome = true) ∧
        isValidSlotID fs tx.slotId.toInt = true)
      (hincrease : slotIncrease = if (s.slotAddress tx.slotId.toInt).isSome then 0 else 1)
      (h : (if slotGen < contendGen then
          .ok (Diff.apply height (.contendSlots tx)
            { feeCharged sender tx.fee with
              slotids := Finmap.singleton tx.slotId.toInt (some sender.toAddress.address)
              addToSlot := Finmap.singleton sender.toAddress.address (some tx.slotId.toInt)
              slotNum := slotIncrease } ∅)
        else .ok (Diff.apply height (.contendSlots tx)
          { feeCharged sender tx.fee with txStatus := .contendFailed } ∅) : Result Diff) = .ok d) :
      HasEffect fs height s (.contendSlots tx) d := by
    split_ifs at h
    · subst hincrease
      have hfree : s.addressSlot sender.toAddress.address = none := by simpa using hchecks.1
      exact ⟨_, _, .contendSlots tx sender hsender hfree hchecks.2, (Except.ok.inj h).symm⟩
    · exact ⟨_, _, .contendFailed tx sender hsender, (Except.ok.inj h).symm⟩
  simp only at h
  split_ifs at h with _ hchecks
  · cases h
  · exact ⟨_, _, .contendFailed tx sender hsender, (Except.ok.inj h).symm⟩
  · obtain ⟨contendGen, -, h⟩ := bind_eq_ok_iff.mp h
    split at h
    · rename_i l hl
      split at h
      · obtain ⟨gen, -, h⟩ := bind_eq_ok_iff.mp h
        exact hcontend hchecks (by rw [hl]; rfl) h
      · exact hcontend hchecks (by rw [hl]; rfl) h
      · cases h
    · rename_i hl
      exact hcontend hchecks (by rw [hl]; rfl) h
  · cases h
  · cases h

/-- The diff of a release has its effect. -/
theorem ReleaseSlotsTransactionDiff.apply_eq_ok {tx : ReleaseSlotsTransaction}
    (h : ReleaseSlotsTransactionDiff.apply s fs height tx = .ok d) :
    HasEffect fs height s (.releaseSlots tx) d := by
  obtain ⟨sender, hsender, h⟩ := bind_eq_ok_iff.mp h
  simp only at h
  split_ifs at h with _ hrelease
  · cases h
  · obtain ⟨henough, hslot, hvalid⟩ := hrelease
    exact ⟨_, _, .releaseSlots tx sender hsender (by simpa using hslot) (by simpa using henough)
      hvalid, (Except.ok.inj h).symm⟩
  · cases h
  · cases h
  · cases h

/-- A contract function that runs leaves its effect, and one that does not the fee alone. -/
theorem contractDiff_eq_ok {tx : Transaction} {sender : PublicKeyAccount} {fee : Int64}
    {contracts : Dict ByteStr (Nat × ByteStr × Contract × Finset Address)}
    {fromValidationError : ValidationError → TransactionStatus} {outcome : Result OpcDiff}
    (h : contractDiff height tx sender fee contracts fromValidationError outcome = .ok d) :
    (∃ df, outcome = .ok df ∧
      d = Diff.apply height tx
        { df.changes with
          portfolios := (feeCharged sender fee).portfolios
          contracts := contracts
          chargedFee := fee } df.relatedAddress) ∨
    ∃ e, d = Diff.apply height tx
      { feeCharged sender fee with txStatus := fromValidationError e } ∅ := by
  unfold contractDiff at h
  split at h
  · exact .inl ⟨_, rfl, (Except.ok.inj h).symm⟩
  · exact .inr ⟨_, (Except.ok.inj h).symm⟩
  · cases h

/-- The diff of a registration has its effect, whether its opcodes succeed or not. -/
theorem RegisterContractTransactionDiff.apply_eq_ok {tx : RegisterContractTransaction.Checked}
    (h : RegisterContractTransactionDiff.apply s height tx = .ok d) :
    HasEffect fs height s (.registerContract tx) d := by
  unfold RegisterContractTransactionDiff.apply at h
  split_ifs at h
  · cases h
  · obtain ⟨sender, hsender, h⟩ := bind_eq_ok_iff.mp h
    obtain ⟨df, hdf, rfl⟩ | ⟨e, rfl⟩ := contractDiff_eq_ok h
    · obtain ⟨context, hcontext, happly⟩ := bind_eq_ok_iff.mp hdf
      exact ⟨_, _, .registerContract tx sender hsender context hcontext df happly, rfl⟩
    · exact ⟨_, _, .registerFailed tx sender hsender e, rfl⟩

/-- The diff of a call has its effect, whether its opcodes succeed or not. -/
theorem ExecuteContractFunctionTransactionDiff.apply_eq_ok
    {tx : ExecuteContractFunctionTransaction.Checked}
    (h : ExecuteContractFunctionTransactionDiff.apply s height tx = .ok d) :
    HasEffect fs height s (.executeContractFunction tx) d := by
  unfold ExecuteContractFunctionTransactionDiff.apply at h
  split_ifs at h
  · cases h
  · obtain ⟨sender, hsender, h⟩ := bind_eq_ok_iff.mp h
    obtain ⟨df, hdf, rfl⟩ | ⟨e, rfl⟩ := contractDiff_eq_ok h
    · obtain ⟨context, hcontext, happly⟩ := bind_eq_ok_iff.mp hdf
      exact ⟨_, _, .executeContractFunction tx sender hsender context hcontext df happly, rfl⟩
    · exact ⟨_, _, .executeFailed tx sender hsender e, rfl⟩

/-- The diff of a database entry has its effect. -/
theorem DbTransactionDiff.put_eq_ok {tx : DbPutTransaction}
    (h : DbTransactionDiff.put height tx = .ok d) : HasEffect fs height s (.dbPut tx) d := by
  obtain ⟨sender, hsender, h⟩ := bind_eq_ok_iff.mp h
  split_ifs at h
  · cases h
  · cases h
  · obtain ⟨storageKey, hkey, h⟩ := bind_eq_ok_iff.mp h
    exact ⟨_, _, .dbPut tx sender hsender storageKey hkey, (Except.ok.inj h).symm⟩

section Effect

variable {tx : Transaction} {c : Changes} {related : Dict Address Bool}

/-- A genesis transaction is one of the first block. -/
theorem TransactionEffect.height_of_genesis {g : GenesisTransaction}
    (h : TransactionEffect fs height s tx c related) (hg : tx = .genesis g) : height = 1 := by
  cases h with
  | genesis tx hheight => exact hheight
  | genesisSlot tx hheight => exact hheight
  | _ => cases hg

/-- Only a transaction with a type up to 10 has an effect. -/
theorem TransactionEffect.type_le (h : TransactionEffect fs height s tx c related) :
    tx.transactionType.id ≤ 10 := by
  cases h <;> simp only [Transaction.transactionType] <;> decide

/-- The contract a transaction brings is the one it registers. -/
theorem TransactionEffect.contract (h : TransactionEffect fs height s tx c related) {id : ByteStr}
    {content : Nat × ByteStr × Contract × Finset Address}
    (hid : c.contracts.lookup id = some content) :
    ∃ reg, tx = .registerContract reg ∧ content.2.2.1 = reg.contract := by
  cases h with
  | registerContract reg sender hsender context hcontext df happly =>
      rw [Dict.lookup_singleton] at hid
      split at hid
      · exact ⟨reg, rfl, by rw [← Option.some.inj hid]⟩
      · cases hid
  | _ => cases hid

/-- No transaction issues an asset. -/
theorem TransactionEffect.issuedAssets_eq (h : TransactionEffect fs height s tx c related) :
    c.issuedAssets = ∅ := by
  cases h <;> rfl

end Effect

namespace TransactionDiffer

/-- The own diff of a transaction has its effect, whatever its kind. -/
theorem ownDiff_eq_ok {tx : Transaction} (h : ownDiff fs height s tx = .ok d) :
    HasEffect fs height s tx d := by
  cases tx with
  | genesis tx => exact GenesisTransactionDiff.apply_eq_ok h
  | payment tx => exact PaymentTransactionDiff.apply_eq_ok h
  | lease tx => exact LeaseTransactionsDiff.lease_eq_ok h
  | leaseCancel tx => exact LeaseTransactionsDiff.leaseCancel_eq_ok h
  | minting tx => exact MintingTransactionDiff.apply_eq_ok h
  | contendSlots tx => exact ContendSlotsTransactionDiff.apply_eq_ok h
  | releaseSlots tx => exact ReleaseSlotsTransactionDiff.apply_eq_ok h
  | registerContract tx => exact RegisterContractTransactionDiff.apply_eq_ok h
  | executeContractFunction tx => exact ExecuteContractFunctionTransactionDiff.apply_eq_ok h
  | dbPut tx => exact DbTransactionDiff.put_eq_ok h
  | legacy tx => cases h

variable {prevBlockTimestamp : Option Int64} {currentBlockTimestamp : Int64} {tx : Transaction}

/-- An accepted transaction passes the checks before its own differ and the balance check after
it. -/
theorem apply_eq_ok_iff :
    apply fs prevBlockTimestamp currentBlockTimestamp height s tx = .ok d ↔
      commonChecks fs prevBlockTimestamp currentBlockTimestamp height s tx = .ok () ∧
      ownDiff fs height s tx = .ok d ∧ BalanceDiffValidation.apply s d = .ok d := by
  constructor
  · intro h
    simp only [apply] at h
    split at h
    · cases h
    · obtain ⟨_, hchecks, h⟩ := bind_eq_ok_iff.mp h
      obtain ⟨own, hown, h⟩ := bind_eq_ok_iff.mp h
      obtain ⟨rfl, -⟩ := BalanceDiffValidation.apply_eq_ok_iff.mp h
      exact ⟨hchecks, hown, h⟩
  · rintro ⟨hchecks, hown, hsolvent⟩
    simp only [apply, hchecks, ok_bind, hown, hsolvent]

/-- An accepted transaction is new, ends in one of its ways, and leaves every account it touches
solvent. -/
theorem apply_eq_ok
    (h : apply fs prevBlockTimestamp currentBlockTimestamp height s tx = .ok d) :
    s.containsTransaction tx.id = false ∧ HasEffect fs height s tx d ∧
      ∀ acc pf, d.portfolios.lookup acc = some pf →
        BalanceDiffValidation.Solvent ((s.accountPortfolio acc).combine pf) := by
  obtain ⟨hchecks, hown, hsolvent⟩ := apply_eq_ok_iff.mp h
  refine ⟨?_, ownDiff_eq_ok hown, (BalanceDiffValidation.apply_eq_ok_iff.mp hsolvent).2⟩
  obtain ⟨_, _, hchecks⟩ := bind_eq_ok_iff.mp hchecks
  obtain ⟨_, _, hchecks⟩ := bind_eq_ok_iff.mp hchecks
  obtain ⟨_, _, hchecks⟩ := bind_eq_ok_iff.mp hchecks
  obtain ⟨_, _, hchecks⟩ := bind_eq_ok_iff.mp hchecks
  obtain ⟨_, hnew, _⟩ := bind_eq_ok_iff.mp hchecks
  exact cond_eq_ok_iff.mp hnew

end TransactionDiffer

end Differs

end Vsys
