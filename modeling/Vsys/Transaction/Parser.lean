import Vsys.Contract.Permitted
import Vsys.Transaction.Types

/-!
# Reading transactions back

`TransactionParser` and `ProcessedTransactionParser`.  Their callers either unwrap the result or
run inside a `Try`, so a `Failure` and an exception are errors alike here.
-/

namespace Vsys

open Lib

variable [Platform]

/-- `Proofs.fromBytes`. -/
def Proofs.fromBytes (ab : ByteStr) : Result Proofs :=
  match ab with
  | 1 :: tail => do
      let arrs ← Deser.parseArrays tail
      Proofs.create arrs
  | _ => left (.genericError "Proofs version must be 1")

/-- `AddressOrAlias.fromBytes`: the recipient at `position` and the position after it. -/
def AddressOrAlias.fromBytes (bytes : ByteStr) (position : Nat) : Result (AddressOrAlias × Int) :=
  match bytes[position]? with
  | none => raise .indexOutOfBounds
  | some 29 => do
      let a ← Address.fromBytes (slice bytes position (position + 26))
      .ok (.address a, position + 26)
  | some 2 => do
      let (_, aliasEnd) ← Deser.parseArraySize bytes (position + 2)
      let aliasBytes := slice bytes position aliasEnd
      match aliasBytes with
      | _ :: network :: rest =>
          if network = Platform.chainId then do
            let name ← Deser.deserilizeString (rest.drop 2)
            if h : 4 ≤ name.length ∧ name.length ≤ 30 ∧ name.toList.all Alias.validAliasChar then
              .ok (.alias ⟨name, h⟩, aliasEnd)
            else left (.genericError "Alias name is not valid")
          else left (.genericError "Alias network byte doesn't match current scheme")
      | _ => raise .noSuchElement
  | some _ => left .invalidAddress

/-- `GenesisTransaction.parseTail`. -/
def GenesisTransaction.parseTail (data : ByteStr) : Result GenesisTransaction := do
  if data.length < 46 then raise .illegalArgument
  let timestamp ← Longs.fromByteArray (slice data 0 8)
  let recipient ← Address.fromBytes (slice data 8 34)
  let amount ← Longs.fromByteArray (slice data 34 42)
  let slotId ← Ints.fromByteArray (slice data 42 46)
  GenesisTransaction.create recipient amount slotId timestamp

/-- `PaymentTransaction.parseTail`. -/
def PaymentTransaction.parseTail (bytes : ByteStr) : Result PaymentTransaction := do
  let timestamp ← Longs.fromByteArray (slice bytes 0 8)
  let amount ← Longs.fromByteArray (slice bytes 8 16)
  let feeAmount ← Longs.fromByteArray (slice bytes 16 24)
  let feeScale ← Shorts.fromByteArray (slice bytes 24 26)
  let recipient ← Address.fromBytes (slice bytes 26 52)
  let (attachment, toSignLength) ← Deser.parseArraySize bytes 52
  let proofs ← Proofs.fromBytes (slice bytes toSignLength bytes.length)
  PaymentTransaction.createWithProof recipient amount feeAmount feeScale timestamp attachment proofs

/-- `LeaseTransaction.parseTail`. -/
def LeaseTransaction.parseTail (bytes : ByteStr) : Result LeaseTransaction := do
  let (recipient, quantityStart) ← AddressOrAlias.fromBytes bytes 0
  let quantity ← Longs.fromByteArray (slice bytes quantityStart (quantityStart + 8))
  let fee ← Longs.fromByteArray (slice bytes (quantityStart + 8) (quantityStart + 16))
  let feeScale ← Shorts.fromByteArray (slice bytes (quantityStart + 16) (quantityStart + 18))
  let timestamp ← Longs.fromByteArray (slice bytes (quantityStart + 18) (quantityStart + 26))
  let proofs ← Proofs.fromBytes (slice bytes (quantityStart + 26) bytes.length)
  LeaseTransaction.createWithProof quantity fee feeScale timestamp recipient proofs

/-- `LeaseCancelTransaction.parseTail`. -/
def LeaseCancelTransaction.parseTail (bytes : ByteStr) : Result LeaseCancelTransaction := do
  let fee ← Longs.fromByteArray (slice bytes 0 8)
  let feeScale ← Shorts.fromByteArray (slice bytes 8 10)
  let timestamp ← Longs.fromByteArray (slice bytes 10 18)
  let leaseId := slice bytes 18 50
  let proofs ← Proofs.fromBytes (slice bytes 50 bytes.length)
  LeaseCancelTransaction.createWithProof leaseId fee feeScale timestamp proofs

/-- `MintingTransaction.parseTail`. -/
def MintingTransaction.parseTail (data : ByteStr) : Result MintingTransaction := do
  if data.length < 46 then raise .illegalArgument
  let timestamp ← Longs.fromByteArray (slice data 0 8)
  let recipient ← Address.fromBytes (slice data 8 34)
  let amount ← Longs.fromByteArray (slice data 34 42)
  let currentBlockHeight ← Ints.fromByteArray (slice data 42 46)
  MintingTransaction.create recipient amount timestamp currentBlockHeight

/-- `parseTail` of both slot transactions. -/
def SlotTransaction.parseTail (bytes : ByteStr) : Result SlotTransaction := do
  let slotId ← Ints.fromByteArray (slice bytes 0 4)
  let fee ← Longs.fromByteArray (slice bytes 4 12)
  let feeScale ← Shorts.fromByteArray (slice bytes 12 14)
  let timestamp ← Longs.fromByteArray (slice bytes 14 22)
  let proofs ← Proofs.fromBytes (slice bytes 22 bytes.length)
  SlotTransaction.create slotId fee feeScale timestamp proofs

/-- `ContendSlotsTransaction.parseTail`. -/
def ContendSlotsTransaction.parseTail (bytes : ByteStr) : Result ContendSlotsTransaction := do
  let tx ← SlotTransaction.parseTail bytes
  .ok ⟨tx⟩

/-- `ReleaseSlotsTransaction.parseTail`. -/
def ReleaseSlotsTransaction.parseTail (bytes : ByteStr) : Result ReleaseSlotsTransaction := do
  let tx ← SlotTransaction.parseTail bytes
  .ok ⟨tx⟩

/-- `ExecuteContractFunctionTransaction.parseTail`. -/
def ExecuteContractFunctionTransaction.parseTail (bytes : ByteStr) :
    Result ExecuteContractFunctionTransaction := do
  let contractId ← ContractAccount.fromBytes (slice bytes 0 26)
  let funcIdx ← Shorts.fromByteArray (slice bytes 26 28)
  let (dataBytes, dataEnd) ← Deser.parseArraySize bytes 28
  let data ← DataEntry.parseArrays dataBytes
  let (description, descriptionEnd) ← Deser.parseArraySize bytes dataEnd
  let fee ← Longs.fromByteArray (slice bytes descriptionEnd (descriptionEnd + 8))
  let feeScale ← Shorts.fromByteArray (slice bytes (descriptionEnd + 8) (descriptionEnd + 10))
  let timestamp ← Longs.fromByteArray (slice bytes (descriptionEnd + 10) (descriptionEnd + 18))
  let proofs ← Proofs.fromBytes (slice bytes (descriptionEnd + 18) bytes.length)
  ExecuteContractFunctionTransaction.createWithProof contractId funcIdx data description fee
    feeScale timestamp proofs

/-- A call that is read has the entries `DataEntry.parseArrays` finds in its bytes. -/
theorem ExecuteContractFunctionTransaction.parseTail_eq_ok {bytes : ByteStr}
    {tx : ExecuteContractFunctionTransaction}
    (h : ExecuteContractFunctionTransaction.parseTail bytes = .ok tx) :
    ∃ dataBytes dataEnd, Deser.parseArraySize bytes 28 = .ok (dataBytes, dataEnd) ∧
      DataEntry.parseArrays dataBytes = .ok tx.data := by
  obtain ⟨contractId, -, h⟩ := bind_eq_ok_iff.mp h
  obtain ⟨funcIdx, -, h⟩ := bind_eq_ok_iff.mp h
  obtain ⟨⟨dataBytes, dataEnd⟩, hbytes, h⟩ := bind_eq_ok_iff.mp h
  obtain ⟨data, hdata, h⟩ := bind_eq_ok_iff.mp h
  obtain ⟨⟨description, descriptionEnd⟩, -, h⟩ := bind_eq_ok_iff.mp h
  obtain ⟨fee, -, h⟩ := bind_eq_ok_iff.mp h
  obtain ⟨feeScale, -, h⟩ := bind_eq_ok_iff.mp h
  obtain ⟨timestamp, -, h⟩ := bind_eq_ok_iff.mp h
  obtain ⟨proofs, -, h⟩ := bind_eq_ok_iff.mp h
  simp only [createWithProof] at h
  split_ifs at h
  · obtain rfl := Except.ok.inj h
    exact ⟨dataBytes, dataEnd, hbytes, hdata⟩
  all_goals cases h

theorem ExecuteContractFunctionTransaction.data_valid_of_parseTail {bytes : ByteStr}
    {tx : ExecuteContractFunctionTransaction}
    (h : ExecuteContractFunctionTransaction.parseTail bytes = .ok tx) : ValidData tx.data := by
  obtain ⟨dataBytes, -, -, hdata⟩ := ExecuteContractFunctionTransaction.parseTail_eq_ok h
  exact DataEntry.valid_of_parseArrays hdata

/-- `ExecuteContractFunctionTransaction.parseTail`, with what is known of the entries. -/
def ExecuteContractFunctionTransaction.Checked.parseTail (bytes : ByteStr) :
    Result ExecuteContractFunctionTransaction.Checked :=
  match h : ExecuteContractFunctionTransaction.parseTail bytes with
  | .ok tx => .ok ⟨tx, ExecuteContractFunctionTransaction.data_valid_of_parseTail h⟩
  | .error e => .error e

theorem ExecuteContractFunctionTransaction.Checked.parseTail_eq_ok_iff {bytes : ByteStr}
    {tx : ExecuteContractFunctionTransaction.Checked} :
    parseTail bytes = .ok tx ↔
      ExecuteContractFunctionTransaction.parseTail bytes = .ok tx.toExecuteContractFunctionTransaction := by
  constructor
  · intro hread
    unfold parseTail at hread
    split at hread
    · rename_i tx' h
      rw [← Except.ok.inj hread]
      exact h
    · cases hread
  · intro hread
    unfold parseTail
    split
    · rename_i tx' h
      obtain rfl := Except.ok.inj (h.symm.trans hread)
      rfl
    · rename_i e h
      cases h.symm.trans hread

/-- `Entry.fromBytes`, with the one data type there is. -/
def Entry.fromBytes (bytes : ByteStr) : Result Entry :=
  match bytes with
  | [] => left .invalidDataLength
  | 1 :: data => do
      let text ← Deser.deserilizeString data
      Entry.buildEntry text
  | _ :: _ => left .invalidDataType

/-- `DbPutTransaction.parseTail`. -/
def DbPutTransaction.parseTail (bytes : ByteStr) : Result DbPutTransaction := do
  let (dbKeyBytes, dbKeyEnd) ← Deser.parseArraySize bytes 0
  let dbKey ← Deser.deserilizeString dbKeyBytes
  let (dbEntryBytes, dbEntryEnd) ← Deser.parseArraySize bytes dbKeyEnd
  let dbEntry ← Entry.fromBytes dbEntryBytes
  let fee ← Longs.fromByteArray (slice bytes dbEntryEnd (dbEntryEnd + 8))
  let feeScale ← Shorts.fromByteArray (slice bytes (dbEntryEnd + 8) (dbEntryEnd + 10))
  let timestamp ← Longs.fromByteArray (slice bytes (dbEntryEnd + 10) (dbEntryEnd + 18))
  let proofs ← Proofs.fromBytes (slice bytes (dbEntryEnd + 18) bytes.length)
  DbPutTransaction.create dbKey dbEntry fee feeScale timestamp proofs

/-- `RegisterContractTransaction.parseTail`. -/
def RegisterContractTransaction.parseTail (bytes : ByteStr) :
    Result RegisterContractTransaction := do
  let (contractBytes, contractEnd) ← Deser.parseArraySize bytes 0
  let contract ← Contract.fromBytes contractBytes
  let (dataBytes, dataEnd) ← Deser.parseArraySize bytes contractEnd
  let data ← DataEntry.parseArrays dataBytes
  let (descriptionBytes, descriptionEnd) ← Deser.parseArraySize bytes dataEnd
  let description ← Deser.deserilizeString descriptionBytes
  let fee ← Longs.fromByteArray (slice bytes descriptionEnd (descriptionEnd + 8))
  let feeScale ← Shorts.fromByteArray (slice bytes (descriptionEnd + 8) (descriptionEnd + 10))
  let timestamp ← Longs.fromByteArray (slice bytes (descriptionEnd + 10) (descriptionEnd + 18))
  let proofs ← Proofs.fromBytes (slice bytes (descriptionEnd + 18) bytes.length)
  RegisterContractTransaction.createWithProof contract data description fee feeScale timestamp
    proofs

/-- A registration that is read has the contract and the entries the parsers find in its bytes. -/
theorem RegisterContractTransaction.parseTail_eq_ok {bytes : ByteStr}
    {tx : RegisterContractTransaction} (h : RegisterContractTransaction.parseTail bytes = .ok tx) :
    ∃ contractBytes contractEnd dataBytes dataEnd,
      Contract.fromBytes contractBytes = .ok tx.contract ∧
      Deser.parseArraySize bytes contractEnd = .ok (dataBytes, dataEnd) ∧
      DataEntry.parseArrays dataBytes = .ok tx.data := by
  obtain ⟨⟨contractBytes, contractEnd⟩, -, h⟩ := bind_eq_ok_iff.mp h
  obtain ⟨contract, hcontract, h⟩ := bind_eq_ok_iff.mp h
  obtain ⟨⟨dataBytes, dataEnd⟩, hbytes, h⟩ := bind_eq_ok_iff.mp h
  obtain ⟨data, hdata, h⟩ := bind_eq_ok_iff.mp h
  obtain ⟨⟨descriptionBytes, descriptionEnd⟩, -, h⟩ := bind_eq_ok_iff.mp h
  obtain ⟨description, -, h⟩ := bind_eq_ok_iff.mp h
  obtain ⟨fee, -, h⟩ := bind_eq_ok_iff.mp h
  obtain ⟨feeScale, -, h⟩ := bind_eq_ok_iff.mp h
  obtain ⟨timestamp, -, h⟩ := bind_eq_ok_iff.mp h
  obtain ⟨proofs, -, h⟩ := bind_eq_ok_iff.mp h
  simp only [createWithProof] at h
  split_ifs at h
  · obtain rfl := Except.ok.inj h
    exact ⟨contractBytes, contractEnd, dataBytes, dataEnd, hcontract, hbytes, hdata⟩
  all_goals cases h

theorem RegisterContractTransaction.data_valid_of_parseTail {bytes : ByteStr}
    {tx : RegisterContractTransaction} (h : RegisterContractTransaction.parseTail bytes = .ok tx) :
    ValidData tx.data := by
  obtain ⟨-, -, dataBytes, -, -, -, hdata⟩ := RegisterContractTransaction.parseTail_eq_ok h
  exact DataEntry.valid_of_parseArrays hdata

/-- `RegisterContractTransaction.parseTail`, with what is known of the entries. -/
def RegisterContractTransaction.Checked.parseTail (bytes : ByteStr) :
    Result RegisterContractTransaction.Checked :=
  match h : RegisterContractTransaction.parseTail bytes with
  | .ok tx => .ok ⟨tx, RegisterContractTransaction.data_valid_of_parseTail h⟩
  | .error e => .error e

theorem RegisterContractTransaction.Checked.parseTail_eq_ok_iff {bytes : ByteStr}
    {tx : RegisterContractTransaction.Checked} :
    parseTail bytes = .ok tx ↔
      RegisterContractTransaction.parseTail bytes = .ok tx.toRegisterContractTransaction := by
  constructor
  · intro hread
    unfold parseTail at hread
    split at hread
    · rename_i tx' h
      rw [← Except.ok.inj hread]
      exact h
    · cases hread
  · intro hread
    unfold parseTail
    split
    · rename_i tx' h
      obtain rfl := Except.ok.inj (h.symm.trans hread)
      rfl
    · rename_i e h
      cases h.symm.trans hread

/-- The transaction types above ten, by their number. -/
def TransactionType.legacyFromByte (b : Byte) : Option {t : TransactionType // 11 ≤ t.id} :=
  match b with
  | 11 => some ⟨.issueTransaction, by decide⟩
  | 12 => some ⟨.transferTransaction, by decide⟩
  | 13 => some ⟨.reissueTransaction, by decide⟩
  | 14 => some ⟨.burnTransaction, by decide⟩
  | 15 => some ⟨.exchangeTransaction, by decide⟩
  | 16 => some ⟨.createAliasTransaction, by decide⟩
  | _ => none

/-- `parseTail` of the transaction types above ten. -/
def LegacyTransaction.parseTail (b : Byte) (data : ByteStr) : Result LegacyTransaction := do
  let ⟨transactionType, legacy⟩ ← getOrRaise (.exception "Invalid transaction type")
    (TransactionType.legacyFromByte b)
  let (id, timestamp, assetFee, signatureValid, bytes) ←
    getOrRaise (.exception "Failure") (Platform.legacyTail b data)
  .ok ⟨transactionType, legacy, id, timestamp, assetFee, signatureValid, bytes⟩

/-- `TransactionParser.parseBytes`. -/
def TransactionParser.parseBytes (data : ByteStr) : Result Transaction :=
  match data with
  | [] => raise .noSuchElement
  | 1 :: tail => Transaction.genesis <$> GenesisTransaction.parseTail tail
  | 2 :: tail => Transaction.payment <$> PaymentTransaction.parseTail tail
  | 3 :: tail => Transaction.lease <$> LeaseTransaction.parseTail tail
  | 4 :: tail => Transaction.leaseCancel <$> LeaseCancelTransaction.parseTail tail
  | 5 :: tail => Transaction.minting <$> MintingTransaction.parseTail tail
  | 6 :: tail => Transaction.contendSlots <$> ContendSlotsTransaction.parseTail tail
  | 7 :: tail => Transaction.releaseSlots <$> ReleaseSlotsTransaction.parseTail tail
  | 8 :: tail => Transaction.registerContract <$> RegisterContractTransaction.Checked.parseTail tail
  | 9 :: tail =>
      Transaction.executeContractFunction
        <$> ExecuteContractFunctionTransaction.Checked.parseTail tail
  | 10 :: tail => Transaction.dbPut <$> DbPutTransaction.parseTail tail
  | b :: tail => Transaction.legacy <$> LegacyTransaction.parseTail b tail

/-- The transaction status with a number. -/
def TransactionStatus.fromByte (b : Byte) : Option TransactionStatus :=
  [unprocessed, success, failed, contendFailed, invalidContract, invalidContractAddress,
    invalidDataEntry, invalidFunctionIndex, contractDataTypeMismatch,
    contractInvalidStateVariable, contractStateVariableNotDefined, contractInvalidOPCData,
    contractUnsupportedOPC, contractInvalidFunction, contractInvalidTokenIndex,
    contractInvalidAmount, contractLocalVariableIndexOutOfRange,
    contractTokenBalanceInsufficient, contractTokenMaxExceeded, contractInvalidTokenInfo,
    contractUnsupportedWithdraw, contractUnsupportedDeposit, contractInvalidSigner,
    contractInvalidCaller].find? fun s => s.id = b

/-- `ProcessedTransactionParser.parseBytes`. -/
def ProcessedTransactionParser.parseBytes (data : ByteStr) : Result ProcessedTransaction :=
  if 8 < data.length then
    match data with
    | [] => raise .noSuchElement
    | b :: tail => do
        let status ← getOrRaise (.exception "Invalid transaction status")
          (TransactionStatus.fromByte b)
        let fee ← Longs.fromByteArray (slice tail 0 8)
        let transaction ← TransactionParser.parseBytes (slice tail 8 tail.length)
        .ok ⟨status, fee, transaction⟩
  else raise .illegalArgument

end Vsys
