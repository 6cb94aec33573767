import Vsys.Diffs.Common
import Vsys.Opc.Differ

/-!
# The effect of each transaction

One differ for each kind of transaction, and `TransactionDiffer`, which runs the common checks, the
transaction's own differ and the balance check, in this order.
-/

namespace Vsys

open Lib

variable [Platform]

/-- The diff that charges the sender the fee: the part every signed transaction's diff shares. -/
def feeCharged (sender : PublicKeyAccount) (fee : Int64) : Changes :=
  { portfolios := Finmap.singleton sender.toAddress (Portfolio.ofBalance (-fee))
    chargedFee := fee }

/-- `GenesisTransactionDiff.apply`. -/
def GenesisTransactionDiff.apply (fs : FunctionalitySettings) (height : Nat)
    (tx : GenesisTransaction) : Result Diff :=
  let portfolios := Finmap.singleton tx.recipient (Portfolio.ofBalance tx.amount)
  let slotId := tx.slotId.toInt
  if height ≠ 1 then
    left (.genericError "GenesisTransaction cannot appear in non-initial block")
  else if slotId < fs.numOfSlots ∧ 0 ≤ slotId then
    .ok (Diff.apply height (.genesis tx)
      { portfolios := portfolios
        slotids := Finmap.singleton slotId (some tx.recipient.address)
        addToSlot := Finmap.singleton tx.recipient.address (some slotId)
        slotNum := 1 } ∅)
  else .ok (Diff.apply height (.genesis tx) { portfolios := portfolios } ∅)

/-- `MintingTransactionDiff.apply`. -/
def MintingTransactionDiff.apply (height : Nat) (tx : MintingTransaction) : Result Diff :=
  if tx.currentBlockHeight.toInt ≠ height then
    left (.genericError
      "Invalid MintingTransaction, minting transaction height is different from the block height")
  else if tx.amount ≠ MintingReward then left (.wrongMintingReward tx.amount)
  else
    .ok (Diff.apply height (.minting tx)
      { portfolios := Finmap.singleton tx.recipient (Portfolio.ofBalance tx.amount) } ∅)

/-- `PaymentTransactionDiff.apply`.  The two changes are combined, so a payment to oneself costs
the fee alone. -/
def PaymentTransactionDiff.apply (height : Nat) (tx : PaymentTransaction) : Result Diff := do
  let sender ← tx.proofs.headPublicKey
  .ok (Diff.apply height (.payment tx)
    { portfolios := Dict.mergeWith Portfolio.combine
        (Finmap.singleton tx.recipient (Portfolio.ofBalance tx.amount))
        (Finmap.singleton sender.toAddress (Portfolio.ofBalance (-tx.amount - tx.fee)))
      chargedFee := tx.fee } ∅)

/-- `LeaseTransactionsDiff.lease`. -/
def LeaseTransactionsDiff.lease (s : StateView) (height : Nat) (tx : LeaseTransaction) :
    Result Diff := do
  let sender ← tx.proofs.headPublicKey
  let recipient ← s.resolveAliasEi tx.recipient
  if recipient = sender.toAddress then left (.genericError "Cannot lease to self")
  else
    let ap := s.accountPortfolio sender.toAddress
    if ap.balance - ap.leaseInfo.leaseOut < tx.amount then
      left (.genericError
        s!"Cannot lease more than own: Balance:{ap.balance}, already leased: {ap.leaseInfo.leaseOut}")
    else
      .ok (Diff.apply height (.lease tx)
        { portfolios :=
            ((∅ : Dict Address Portfolio).insert sender.toAddress ⟨-tx.fee, ⟨0, tx.amount⟩, ∅⟩).insert
              recipient ⟨0, ⟨tx.amount, 0⟩, ∅⟩
          leaseState := Finmap.singleton (Transaction.lease tx).id true
          chargedFee := tx.fee } ∅)

/-- `LeaseTransactionsDiff.leaseCancel`. -/
def LeaseTransactionsDiff.leaseCancel (s : StateView) (height : Nat)
    (tx : LeaseCancelTransaction) : Result Diff := do
  match ← s.findLeaseTransaction tx.leaseId with
  | none => left (.genericError "Related LeaseTransaction not found")
  | some lease =>
      let recipient ← s.resolveAliasEi lease.recipient
      let isLeaseActive := s.isLeaseActive lease
      let leaseSender ← lease.proofs.headPublicKey
      if ¬ isLeaseActive then left (.genericError "Cannot cancel already cancelled lease")
      else
        let canceller ← tx.proofs.headPublicKey
        if canceller = leaseSender then
          .ok (Diff.apply height (.leaseCancel tx)
            { portfolios := Dict.mergeWith Portfolio.combine
                (Finmap.singleton canceller.toAddress ⟨-tx.fee, ⟨0, -lease.amount⟩, ∅⟩)
                (Finmap.singleton recipient ⟨0, ⟨-lease.amount, 0⟩, ∅⟩)
              leaseState := Finmap.singleton (Transaction.lease lease).id false
              chargedFee := tx.fee } ∅)
        else left (.genericError "LeaseTransaction was leased by other sender")

/-- Whether a slot transaction names a slot that exists. -/
def isValidSlotID (fs : FunctionalitySettings) (slotId : Int) : Bool :=
  slotId < fs.numOfSlots ∧ 0 ≤ slotId ∧ slotId.tmod SlotGap = 0

/-- `ContendSlotsTransactionDiff.apply`. -/
def ContendSlotsTransactionDiff.apply (s : StateView) (fs : FunctionalitySettings) (height : Nat)
    (tx : ContendSlotsTransaction) : Result Diff := do
  let sender ← tx.proofs.headPublicKey
  let slotId := tx.slotId.toInt
  let multiSlotsCheck := (s.addressSlot sender.toAddress.address).isSome
  let contendFailed :=
    Diff.apply height (.contendSlots tx)
      { feeCharged sender tx.fee with txStatus := .contendFailed } ∅
  if Proofs.MaxProofs < tx.proofs.proofs.length then
    left (.genericError "Too many proofs, max 1 proofs")
  else if ¬ multiSlotsCheck ∧ isValidSlotID fs slotId then
    let contendEffectiveBalance := (s.accountPortfolio sender.toAddress).effectiveBalance
    if contendEffectiveBalance - tx.fee < SPoSCalc.MinimalEffectiveBalanceForContender then
      .ok contendFailed
    else
      let contendGen ← SPoSCalc.mintingBalance s fs sender.toAddress height
      let (slotGen, slotIncrease) ←
        match s.slotAddress slotId with
        | some l =>
            match Address.fromString l with
            | .ok arr => do
                let gen ← SPoSCalc.mintingBalance s fs arr height
                .ok (gen, 0)
            | .error (.left _) => .ok (0, 0)
            | .error (.raised e) => raise e
        | none => .ok ((0, 1) : Int64 × Int)
      if slotGen < contendGen then
        .ok (Diff.apply height (.contendSlots tx)
          { feeCharged sender tx.fee with
            slotids := Finmap.singleton slotId (some sender.toAddress.address)
            addToSlot := Finmap.singleton sender.toAddress.address (some slotId)
            slotNum := slotIncrease } ∅)
      else .ok contendFailed
  else if multiSlotsCheck then
    left (.genericError
      s!"{sender.toAddress.address} already owned one slot or contended by other node")
  else left (.invalidSlotId slotId)

/-- `MinimalSlotNumber` of `ReleaseSlotsTransactionDiff`. -/
def MinimalSlotNumber : Int := 10

/-- `ReleaseSlotsTransactionDiff.apply`. -/
def ReleaseSlotsTransactionDiff.apply (s : StateView) (fs : FunctionalitySettings) (height : Nat)
    (tx : ReleaseSlotsTransaction) : Result Diff := do
  let sender ← tx.proofs.headPublicKey
  let slotId := tx.slotId.toInt
  let hasEnoughMiner := MinimalSlotNumber < s.effectiveSlotAddressSize
  let isValidAddress := s.slotAddress slotId = some sender.toAddress.address
  if Proofs.MaxProofs < tx.proofs.proofs.length then
    left (.genericError "Too many proofs, max 1 proofs")
  else if hasEnoughMiner ∧ isValidAddress ∧ isValidSlotID fs slotId then
    .ok (Diff.apply height (.releaseSlots tx)
      { feeCharged sender tx.fee with
        slotids := Finmap.singleton slotId none
        addToSlot := Finmap.singleton sender.toAddress.address none
        slotNum := -1 } ∅)
  else if ¬ isValidSlotID fs slotId then left (.invalidSlotId slotId)
  else if ¬ hasEnoughMiner then
    left (.genericError
      s!"{s.effectiveSlotAddressSize} effective slot address(es) left, can not release the minting right")
  else
    left (.genericError
      s!"{sender.toAddress.address} can not release the minting right of slot id: {slotId}")

/-- The status `fromValidationError` of both contract differs gives an error. -/
def contractStatus : ValidationError → TransactionStatus
  | .invalidContract => .invalidContract
  | .invalidContractAddress => .invalidContractAddress
  | .invalidDataEntry => .invalidDataEntry
  | .contractDataTypeMismatch => .contractDataTypeMismatch
  | .contractInvalidStateVariable => .contractInvalidStateVariable
  | .contractStateVariableNotDefined => .contractStateVariableNotDefined
  | .contractInvalidOPCData => .contractInvalidOPCData
  | .contractUnsupportedOPC => .contractUnsupportedOPC
  | .contractInvalidSigner => .contractInvalidSigner
  | .contractInvalidCaller => .contractInvalidCaller
  | .contractInvalidFunction => .contractInvalidFunction
  | .contractInvalidTokenIndex => .contractInvalidTokenIndex
  | .contractInvalidAmount => .contractInvalidAmount
  | .contractLocalVariableIndexOutOfRange => .contractLocalVariableIndexOutOfRange
  | .contractTokenBalanceInsufficient => .contractTokenBalanceInsufficient
  | .contractTokenMaxExceeded => .contractTokenMaxExceeded
  | .contractInvalidTokenInfo => .contractInvalidTokenInfo
  | .contractUnsupportedWithdraw => .contractUnsupportedWithdraw
  | .contractUnsupportedDeposit => .contractUnsupportedDeposit
  | _ => .failed

/-- `fromValidationError` of the register differ. -/
def RegisterContractTransactionDiff.fromValidationError : ValidationError → TransactionStatus :=
  contractStatus

/-- `fromValidationError` of the execute differ, which also knows an invalid function index. -/
def ExecuteContractFunctionTransactionDiff.fromValidationError :
    ValidationError → TransactionStatus
  | .invalidFunctionIndex => .invalidFunctionIndex
  | e => contractStatus e

/-- What both contract differs make of the outcome of the function: its effect with the fee, or the
fee alone under the status of the error. -/
def contractDiff (height : Nat) (tx : Transaction) (sender : PublicKeyAccount) (fee : Int64)
    (contracts : Dict ByteStr (Nat × ByteStr × Contract × Finset Address))
    (fromValidationError : ValidationError → TransactionStatus) (outcome : Result OpcDiff) :
    Result Diff :=
  match outcome with
  | .ok df =>
      .ok (Diff.apply height tx
        { df.changes with
          portfolios := (feeCharged sender fee).portfolios
          contracts := contracts
          chargedFee := fee } df.relatedAddress)
  | .error (.left e) =>
      .ok (Diff.apply height tx
        { feeCharged sender fee with txStatus := fromValidationError e } ∅)
  | .error (.raised e) => raise e

/-- `RegisterContractTransactionDiff.apply`. -/
def RegisterContractTransactionDiff.apply (s : StateView) (height : Nat)
    (tx : RegisterContractTransaction.Checked) : Result Diff :=
  if Proofs.MaxProofs < tx.proofs.proofs.length then
    left (.genericError "Too many proofs, max 1 proofs")
  else do
    let sender ← tx.proofs.headPublicKey
    let contractInfo := (height, (Transaction.registerContract tx).id, tx.contract, {sender.toAddress})
    contractDiff height (.registerContract tx) sender tx.fee
      (Finmap.singleton tx.contractId.bytes contractInfo) fromValidationError do
        let exContext ← ExecutionContext.fromRegConTx s height tx
        OpcFuncDiffer.apply exContext tx.data

/-- `ExecuteContractFunctionTransactionDiff.apply`. -/
def ExecuteContractFunctionTransactionDiff.apply (s : StateView) (height : Nat)
    (tx : ExecuteContractFunctionTransaction.Checked) : Result Diff :=
  if Proofs.MaxProofs < tx.proofs.proofs.length then
    left (.genericError "Too many proofs, max 1 proofs")
  else do
    let sender ← tx.proofs.headPublicKey
    contractDiff height (.executeContractFunction tx) sender tx.fee ∅ fromValidationError do
      let exContext ← ExecutionContext.fromExeConTx s height tx
      OpcFuncDiffer.apply exContext tx.data

/-- `DbTransactionDiff.put`. -/
def DbTransactionDiff.put (height : Nat) (tx : DbPutTransaction) : Result Diff := do
  let sender ← tx.proofs.headPublicKey
  if Proofs.MaxProofs < tx.proofs.proofs.length then
    left (.genericError "Too many proofs, max 1 proofs")
  else if 30 < utf16Length tx.dbKey ∨ utf16Length tx.dbKey < 1 then left .invalidDbKey
  else
    let storageKey ← tx.storageKey
    .ok (Diff.apply height (.dbPut tx)
      { feeCharged sender tx.fee with dbEntries := Finmap.singleton storageKey tx.entry } ∅)

namespace TransactionDiffer

/-- The differ of the transaction's own kind. -/
def ownDiff (settings : FunctionalitySettings) (currentBlockHeight : Nat) (s : StateView) :
    Transaction → Result Diff
  | .genesis tx => GenesisTransactionDiff.apply settings currentBlockHeight tx
  | .payment tx => PaymentTransactionDiff.apply currentBlockHeight tx
  | .lease tx => LeaseTransactionsDiff.lease s currentBlockHeight tx
  | .leaseCancel tx => LeaseTransactionsDiff.leaseCancel s currentBlockHeight tx
  | .minting tx => MintingTransactionDiff.apply currentBlockHeight tx
  | .contendSlots tx => ContendSlotsTransactionDiff.apply s settings currentBlockHeight tx
  | .releaseSlots tx => ReleaseSlotsTransactionDiff.apply s settings currentBlockHeight tx
  | .registerContract tx => RegisterContractTransactionDiff.apply s currentBlockHeight tx
  | .executeContractFunction tx =>
      ExecuteContractFunctionTransactionDiff.apply s currentBlockHeight tx
  | .dbPut tx => DbTransactionDiff.put currentBlockHeight tx
  | .legacy _ => left .unsupportedTransactionType

/-- The checks before the transaction's own differ. -/
def commonChecks (settings : FunctionalitySettings) (prevBlockTimestamp : Option Int64)
    (currentBlockTimestamp : Int64) (currentBlockHeight : Nat) (s : StateView)
    (tx : Transaction) : Result Unit := do
  tx.validateSignatures
  CommonValidation.disallowTxFromFuture currentBlockTimestamp tx
  CommonValidation.disallowTxFromPast prevBlockTimestamp tx
  CommonValidation.disallowBeforeActivationHeight settings currentBlockHeight tx
  CommonValidation.disallowDuplicateIds s currentBlockHeight tx
  CommonValidation.disallowSendingGreaterThanBalance s tx
  CommonValidation.disallowInvalidFeeScale tx

/-- `TransactionDiffer.apply`; every error is told together with the transaction. -/
def apply (settings : FunctionalitySettings) (prevBlockTimestamp : Option Int64)
    (currentBlockTimestamp : Int64) (currentBlockHeight : Nat) (s : StateView)
    (tx : Transaction) : Result Diff :=
  let positiveDiff := do
    commonChecks settings prevBlockTimestamp currentBlockTimestamp currentBlockHeight s tx
    let diff ← ownDiff settings currentBlockHeight s tx
    BalanceDiffValidation.apply s diff
  match positiveDiff with
  | .error (.left e) => left (.transactionValidationError e tx.id)
  | r => r

end TransactionDiffer

end Vsys
