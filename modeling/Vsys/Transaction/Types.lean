import Vsys.Lib.Word
import Vsys.Contract.Data
import Vsys.Transaction.Proofs

/-!
# Transactions

The ten kinds of transaction the chain processes, each with what its constructor checks as a field,
and the older kinds it still parses but never accepts.  The constructors of the contract transactions
take any data entries; those a node parses, from the bytes of a peer or the text of a request, are
checked.
-/

namespace Vsys

open Lib

variable [Platform]

/-- `SPoSCalc.SlotGap`. -/
def SlotGap : Int := if Platform.chainId = 59 then 4 else 1

/-- `SPoSCalc.BaseReward`. -/
def BaseReward : Int64 := 50000000

/-- `SPoSCalc.MintingReward`. -/
def MintingReward : Int64 := BaseReward * Int64.ofInt SlotGap

/-- `TransactionParser.DefaultFeeScale`. -/
def DefaultFeeScale : Int16 := 100

/-- `TransactionParser.TransactionType`. -/
inductive TransactionType where
  | genesisTransaction
  | paymentTransaction
  | leaseTransaction
  | leaseCancelTransaction
  | mintingTransaction
  | contendSlotsTransaction
  | releaseSlotsTransaction
  | registerContractTransaction
  | executeContractFunctionTransaction
  | dbPutTransaction
  | issueTransaction
  | transferTransaction
  | reissueTransaction
  | burnTransaction
  | exchangeTransaction
  | createAliasTransaction
  deriving DecidableEq

/-- The number of a transaction type. -/
def TransactionType.id : TransactionType → Byte
  | genesisTransaction => 1
  | paymentTransaction => 2
  | leaseTransaction => 3
  | leaseCancelTransaction => 4
  | mintingTransaction => 5
  | contendSlotsTransaction => 6
  | releaseSlotsTransaction => 7
  | registerContractTransaction => 8
  | executeContractFunctionTransaction => 9
  | dbPutTransaction => 10
  | issueTransaction => 11
  | transferTransaction => 12
  | reissueTransaction => 13
  | burnTransaction => 14
  | exchangeTransaction => 15
  | createAliasTransaction => 16

/-- The name of a transaction type. -/
def TransactionType.name : TransactionType → String
  | genesisTransaction => "GenesisTransaction"
  | paymentTransaction => "PaymentTransaction"
  | leaseTransaction => "LeaseTransaction"
  | leaseCancelTransaction => "LeaseCancelTransaction"
  | mintingTransaction => "MintingTransaction"
  | contendSlotsTransaction => "ContendSlotsTransaction"
  | releaseSlotsTransaction => "ReleaseSlotsTransaction"
  | registerContractTransaction => "RegisterContractTransaction"
  | executeContractFunctionTransaction => "ExecuteContractFunctionTransaction"
  | dbPutTransaction => "DbPutTransaction"
  | issueTransaction => "IssueTransaction"
  | transferTransaction => "TransferTransaction"
  | reissueTransaction => "ReissueTransaction"
  | burnTransaction => "BurnTransaction"
  | exchangeTransaction => "ExchangeTransaction"
  | createAliasTransaction => "CreateAliasTransaction"

/-- An asset fee: the asset, if it is not the native coin, the fee and its scale. -/
abbrev AssetFee := Option ByteStr × Int64 × Int16

/-- `GenesisTransaction`. -/
structure GenesisTransaction where
  recipient : Address
  amount : Int64
  slotId : Int32
  timestamp : Int64
  amount_nonneg : 0 ≤ amount
  deriving DecidableEq

namespace GenesisTransaction

/-- `GenesisTransaction.create`. -/
def create (recipient : Address) (amount : Int64) (slotId : Int32) (timestamp : Int64) :
    Result GenesisTransaction :=
  if h : 0 ≤ amount then .ok ⟨recipient, amount, slotId, timestamp, h⟩
  else left .negativeAmount

/-- `GenesisTransaction.toSign`. -/
def toSign (tx : GenesisTransaction) : ByteStr :=
  TransactionType.genesisTransaction.id :: Longs.toByteArray tx.timestamp
    ++ Longs.toByteArray tx.amount ++ Ints.toByteArray tx.slotId ++ tx.recipient.bytes

/-- `GenesisTransaction.bytes`, which has its own field order. -/
def bytes (tx : GenesisTransaction) : ByteStr :=
  TransactionType.genesisTransaction.id :: Longs.toByteArray tx.timestamp
    ++ tx.recipient.bytes ++ Longs.toByteArray tx.amount ++ Ints.toByteArray tx.slotId

end GenesisTransaction

/-- `PaymentTransaction`. -/
structure PaymentTransaction where
  recipient : Address
  amount : Int64
  fee : Int64
  feeScale : Int16
  timestamp : Int64
  attachment : ByteStr
  proofs : Proofs
  attachment_length : attachment.length ≤ 140
  amount_pos : 0 < amount
  fee_pos : 0 < fee
  no_overflow : (addExact amount fee).isSome
  feeScale_eq : feeScale = DefaultFeeScale
  deriving DecidableEq

namespace PaymentTransaction

/-- `PaymentTransaction.createWithProof`. -/
def createWithProof (recipient : Address) (amount feeAmount : Int64) (feeScale : Int16)
    (timestamp : Int64) (attachment : ByteStr) (proofs : Proofs) : Result PaymentTransaction :=
  if hattachment : attachment.length ≤ 140 then
    if hamount : 0 < amount then
      if hfee : 0 < feeAmount then
        if hsum : (addExact amount feeAmount).isSome then
          if hscale : feeScale = DefaultFeeScale then
            .ok ⟨recipient, amount, feeAmount, feeScale, timestamp, attachment, proofs,
              hattachment, hamount, hfee, hsum, hscale⟩
          else left (.wrongFeeScale feeScale)
        else left .overflowError
      else left .insufficientFee
    else left .negativeAmount
  else left .tooBigArray

/-- `PaymentTransaction.toSign`. -/
def toSign (tx : PaymentTransaction) : ByteStr :=
  TransactionType.paymentTransaction.id :: Longs.toByteArray tx.timestamp
    ++ Longs.toByteArray tx.amount ++ Longs.toByteArray tx.fee ++ Shorts.toByteArray tx.feeScale
    ++ tx.recipient.bytes ++ Deser.serializeArray tx.attachment

end PaymentTransaction

/-- The check of `LeaseTransaction.createWithProof` that the first proof's address is not the
recipient; the empty list of proofs passes, and an alias passes. -/
def LeaseTransaction.notToSelf (recipient : AddressOrAlias) (proofs : Proofs) : Bool :=
  match recipient, proofs.proofs.head? with
  | .address a, some proof => proof.publicKey.toAddress.address ≠ a.address
  | _, _ => true

/-- `LeaseTransaction`. -/
structure LeaseTransaction where
  amount : Int64
  fee : Int64
  feeScale : Int16
  timestamp : Int64
  recipient : AddressOrAlias
  proofs : Proofs
  amount_pos : 0 < amount
  no_overflow : (addExact amount fee).isSome
  fee_pos : 0 < fee
  feeScale_eq : feeScale = DefaultFeeScale
  not_to_self : LeaseTransaction.notToSelf recipient proofs
  deriving DecidableEq

namespace LeaseTransaction

/-- `LeaseTransaction.createWithProof`. -/
def createWithProof (amount fee : Int64) (feeScale : Int16) (timestamp : Int64)
    (recipient : AddressOrAlias) (proofs : Proofs) : Result LeaseTransaction :=
  if hamount : 0 < amount then
    if hsum : (addExact amount fee).isSome then
      if hfee : 0 < fee then
        if hscale : feeScale = DefaultFeeScale then
          if hself : notToSelf recipient proofs then
            .ok ⟨amount, fee, feeScale, timestamp, recipient, proofs,
              hamount, hsum, hfee, hscale, hself⟩
          else left .toSelf
        else left (.wrongFeeScale feeScale)
      else left .insufficientFee
    else left .overflowError
  else left .negativeAmount

/-- `LeaseTransaction.toSign`. -/
def toSign (tx : LeaseTransaction) : ByteStr :=
  TransactionType.leaseTransaction.id :: tx.recipient.bytes ++ Longs.toByteArray tx.amount
    ++ Longs.toByteArray tx.fee ++ Shorts.toByteArray tx.feeScale ++ Longs.toByteArray tx.timestamp

end LeaseTransaction

/-- `LeaseCancelTransaction`. -/
structure LeaseCancelTransaction where
  leaseId : ByteStr
  fee : Int64
  feeScale : Int16
  timestamp : Int64
  proofs : Proofs
  leaseId_length : leaseId.length = 32
  fee_pos : 0 < fee
  feeScale_eq : feeScale = DefaultFeeScale
  deriving DecidableEq

namespace LeaseCancelTransaction

/-- `LeaseCancelTransaction.createWithProof`. -/
def createWithProof (leaseId : ByteStr) (fee : Int64) (feeScale : Int16) (timestamp : Int64)
    (proofs : Proofs) : Result LeaseCancelTransaction :=
  if hid : leaseId.length = 32 then
    if hfee : 0 < fee then
      if hscale : feeScale = DefaultFeeScale then
        .ok ⟨leaseId, fee, feeScale, timestamp, proofs, hid, hfee, hscale⟩
      else left (.wrongFeeScale feeScale)
    else left .insufficientFee
  else left (.genericError "Lease transaction id is invalid")

/-- `LeaseCancelTransaction.toSign`. -/
def toSign (tx : LeaseCancelTransaction) : ByteStr :=
  TransactionType.leaseCancelTransaction.id :: Longs.toByteArray tx.fee
    ++ Shorts.toByteArray tx.feeScale ++ Longs.toByteArray tx.timestamp ++ tx.leaseId

end LeaseCancelTransaction

/-- `MintingTransaction`. -/
structure MintingTransaction where
  recipient : Address
  amount : Int64
  timestamp : Int64
  currentBlockHeight : Int32
  amount_eq : amount = MintingReward
  deriving DecidableEq

namespace MintingTransaction

/-- `MintingTransaction.create`. -/
def create (recipient : Address) (amount timestamp : Int64) (currentBlockHeight : Int32) :
    Result MintingTransaction :=
  if h : amount = MintingReward then .ok ⟨recipient, amount, timestamp, currentBlockHeight, h⟩
  else left (.wrongMintingReward amount)

/-- `MintingTransaction.toSign`, which is also `MintingTransaction.bytes`. -/
def toSign (tx : MintingTransaction) : ByteStr :=
  TransactionType.mintingTransaction.id :: Longs.toByteArray tx.timestamp ++ tx.recipient.bytes
    ++ Longs.toByteArray tx.amount ++ Ints.toByteArray tx.currentBlockHeight

end MintingTransaction

/-- The body `ContendSlotsTransaction` and `ReleaseSlotsTransaction` share. -/
structure SlotTransaction where
  slotId : Int32
  fee : Int64
  feeScale : Int16
  timestamp : Int64
  proofs : Proofs
  fee_pos : 0 < fee
  feeScale_eq : feeScale = DefaultFeeScale
  slot_gap : slotId.toInt.tmod SlotGap = 0
  deriving DecidableEq

namespace SlotTransaction

/-- `create` of both slot transactions. -/
def create (slotId : Int32) (fee : Int64) (feeScale : Int16) (timestamp : Int64)
    (proofs : Proofs) : Result SlotTransaction :=
  if hfee : 0 < fee then
    if hscale : feeScale = DefaultFeeScale then
      if hslot : slotId.toInt.tmod SlotGap = 0 then
        .ok ⟨slotId, fee, feeScale, timestamp, proofs, hfee, hscale, hslot⟩
      else left (.invalidSlotId slotId.toInt)
    else left (.wrongFeeScale feeScale)
  else left .insufficientFee

/-- `toSign` of both slot transactions, after the type byte. -/
def toSign (transactionType : TransactionType) (tx : SlotTransaction) : ByteStr :=
  transactionType.id :: Ints.toByteArray tx.slotId ++ Longs.toByteArray tx.fee
    ++ Shorts.toByteArray tx.feeScale ++ Longs.toByteArray tx.timestamp

end SlotTransaction

/-- `ContendSlotsTransaction`. -/
structure ContendSlotsTransaction extends SlotTransaction
  deriving DecidableEq

/-- `ReleaseSlotsTransaction`. -/
structure ReleaseSlotsTransaction extends SlotTransaction
  deriving DecidableEq

/-- `ContendSlotsTransaction.toSign`. -/
def ContendSlotsTransaction.toSign (tx : ContendSlotsTransaction) : ByteStr :=
  tx.toSlotTransaction.toSign .contendSlotsTransaction

/-- `ReleaseSlotsTransaction.toSign`. -/
def ReleaseSlotsTransaction.toSign (tx : ReleaseSlotsTransaction) : ByteStr :=
  tx.toSlotTransaction.toSign .releaseSlotsTransaction

/-- `RegisterContractTransaction`. -/
structure RegisterContractTransaction where
  contract : Contract
  data : List DataEntry
  description : String
  fee : Int64
  feeScale : Int16
  timestamp : Int64
  proofs : Proofs
  description_length : (Deser.serilizeString description).length ≤ 140
  fee_pos : 0 < fee
  feeScale_eq : feeScale = DefaultFeeScale
  deriving DecidableEq

namespace RegisterContractTransaction

/-- `RegisterContractTransaction.createWithProof`, of any data entries. -/
def createWithProof (contract : Contract) (data : List DataEntry) (description : String)
    (fee : Int64) (feeScale : Int16) (timestamp : Int64) (proofs : Proofs) :
    Result RegisterContractTransaction :=
  if hdescription : (Deser.serilizeString description).length ≤ 140 then
    if hfee : 0 < fee then
      if hscale : feeScale = DefaultFeeScale then
        .ok ⟨contract, data, description, fee, feeScale, timestamp, proofs,
          hdescription, hfee, hscale⟩
      else left (.wrongFeeScale feeScale)
    else left .insufficientFee
  else left (.invalidUTF8String "contractDescription")

/-- `RegisterContractTransaction.toSign`. -/
def toSign (tx : RegisterContractTransaction) : ByteStr :=
  TransactionType.registerContractTransaction.id :: Deser.serializeArray tx.contract.bytes
    ++ Deser.serializeArray (DataEntry.serializeArrays tx.data)
    ++ Deser.serializeArray (Deser.serilizeString tx.description)
    ++ Longs.toByteArray tx.fee ++ Shorts.toByteArray tx.feeScale ++ Longs.toByteArray tx.timestamp

/-- `RegisterContractTransaction.contractId`. -/
def contractId (tx : RegisterContractTransaction) : ContractAccount :=
  ContractAccount.fromId (Platform.fastHash tx.toSign)

/-- A registration that a node reads or is asked for: its data entries come from
`DataEntry.parseArrays`, which checks each of them. -/
structure Checked extends RegisterContractTransaction where
  data_valid : ValidData data
  deriving DecidableEq

end RegisterContractTransaction

/-- `ExecuteContractFunctionTransaction`. -/
structure ExecuteContractFunctionTransaction where
  contractId : ContractAccount
  funcIdx : Int16
  data : List DataEntry
  attachment : ByteStr
  fee : Int64
  feeScale : Int16
  timestamp : Int64
  proofs : Proofs
  attachment_length : attachment.length ≤ 140
  fee_pos : 0 < fee
  feeScale_eq : feeScale = DefaultFeeScale
  deriving DecidableEq

namespace ExecuteContractFunctionTransaction

/-- `ExecuteContractFunctionTransaction.createWithProof`, of any data entries. -/
def createWithProof (contractId : ContractAccount) (funcIdx : Int16) (data : List DataEntry)
    (attachment : ByteStr) (fee : Int64) (feeScale : Int16) (timestamp : Int64)
    (proofs : Proofs) : Result ExecuteContractFunctionTransaction :=
  if hattachment : attachment.length ≤ 140 then
    if hfee : 0 < fee then
      if hscale : feeScale = DefaultFeeScale then
        .ok ⟨contractId, funcIdx, data, attachment, fee, feeScale, timestamp, proofs,
          hattachment, hfee, hscale⟩
      else left (.wrongFeeScale feeScale)
    else left .insufficientFee
  else left .tooBigArray

/-- `ExecuteContractFunctionTransaction.toSign`. -/
def toSign (tx : ExecuteContractFunctionTransaction) : ByteStr :=
  TransactionType.executeContractFunctionTransaction.id :: tx.contractId.bytes
    ++ Shorts.toByteArray tx.funcIdx ++ Deser.serializeArray (DataEntry.serializeArrays tx.data)
    ++ Deser.serializeArray tx.attachment ++ Longs.toByteArray tx.fee
    ++ Shorts.toByteArray tx.feeScale ++ Longs.toByteArray tx.timestamp

/-- A call that a node reads or is asked for, with data entries from `DataEntry.parseArrays`. -/
structure Checked extends ExecuteContractFunctionTransaction where
  data_valid : ValidData data
  deriving DecidableEq

end ExecuteContractFunctionTransaction

/-- The number of UTF-16 units of a string, which is its length in Scala. -/
def utf16Length (s : String) : Nat := (s.toList.map fun c => if c.toNat < 65536 then 1 else 2).sum

/-- `database.Entry`, of the only data type there is, byte arrays. -/
structure Entry where
  data : String
  maxLength : utf16Length data ≤ 16384
  deriving DecidableEq

/-- The type byte and the UTF-8 bytes of the data. -/
def Entry.bytes (e : Entry) : ByteStr := 1 :: Deser.serilizeString e.data

/-- `Entry.buildEntry`. -/
def Entry.buildEntry (data : String) : Result Entry :=
  if h : utf16Length data ≤ 16384 then .ok ⟨data, h⟩
  else left (.tooLongDbEntry (utf16Length data) 16384)

/-- `DbPutTransaction`. -/
structure DbPutTransaction where
  dbKey : String
  entry : Entry
  fee : Int64
  feeScale : Int16
  timestamp : Int64
  proofs : Proofs
  dbKey_length : 1 ≤ utf16Length dbKey ∧ utf16Length dbKey ≤ 30
  fee_pos : 0 < fee
  feeScale_eq : feeScale = DefaultFeeScale
  deriving DecidableEq

namespace DbPutTransaction

/-- `DbPutTransaction.create`. -/
def create (dbKey : String) (dbEntry : Entry) (fee : Int64) (feeScale : Int16)
    (timestamp : Int64) (proofs : Proofs) : Result DbPutTransaction :=
  if hkey : 1 ≤ utf16Length dbKey ∧ utf16Length dbKey ≤ 30 then
    if hfee : 0 < fee then
      if hscale : feeScale = DefaultFeeScale then
        .ok ⟨dbKey, dbEntry, fee, feeScale, timestamp, proofs, hkey, hfee, hscale⟩
      else left (.wrongFeeScale feeScale)
    else left .insufficientFee
  else left .invalidDbKey

/-- `DbPutTransaction.toSign`. -/
def toSign (tx : DbPutTransaction) : ByteStr :=
  TransactionType.dbPutTransaction.id :: Deser.serializeArray (Deser.serilizeString tx.dbKey)
    ++ Deser.serializeArray tx.entry.bytes ++ Longs.toByteArray tx.fee
    ++ Shorts.toByteArray tx.feeScale ++ Longs.toByteArray tx.timestamp

/-- `DbPutTransaction.generateKey`. -/
def generateKey (owner : Address) (key : String) : ByteStr :=
  owner.bytes ++ Deser.serilizeString key

/-- `DbPutTransaction.storageKey`, which raises when there is no proof. -/
def storageKey (tx : DbPutTransaction) : Result ByteStr := do
  let publicKey ← tx.proofs.headPublicKey
  .ok (generateKey publicKey.toAddress tx.dbKey)

end DbPutTransaction

/-- A transaction of one of the six older types.  The code still parses them, and every path into
the state turns them away by their type. -/
structure LegacyTransaction where
  transactionType : TransactionType
  legacy : 11 ≤ transactionType.id
  id : ByteStr
  timestamp : Int64
  assetFee : AssetFee
  /-- Whether the transaction and its descendants are correctly signed. -/
  signatureValid : Bool
  bytes : ByteStr
  deriving DecidableEq

/-- `Transaction`, as the parser and the API make them. -/
inductive Transaction where
  | genesis (tx : GenesisTransaction)
  | payment (tx : PaymentTransaction)
  | lease (tx : LeaseTransaction)
  | leaseCancel (tx : LeaseCancelTransaction)
  | minting (tx : MintingTransaction)
  | contendSlots (tx : ContendSlotsTransaction)
  | releaseSlots (tx : ReleaseSlotsTransaction)
  | registerContract (tx : RegisterContractTransaction.Checked)
  | executeContractFunction (tx : ExecuteContractFunctionTransaction.Checked)
  | dbPut (tx : DbPutTransaction)
  | legacy (tx : LegacyTransaction)
  deriving DecidableEq

namespace Transaction

/-- `transactionType`. -/
def transactionType : Transaction → TransactionType
  | genesis _ => .genesisTransaction
  | payment _ => .paymentTransaction
  | lease _ => .leaseTransaction
  | leaseCancel _ => .leaseCancelTransaction
  | minting _ => .mintingTransaction
  | contendSlots _ => .contendSlotsTransaction
  | releaseSlots _ => .releaseSlotsTransaction
  | registerContract _ => .registerContractTransaction
  | executeContractFunction _ => .executeContractFunctionTransaction
  | dbPut _ => .dbPutTransaction
  | legacy tx => tx.transactionType

/-- `timestamp`. -/
def timestamp : Transaction → Int64
  | genesis tx => tx.timestamp
  | payment tx => tx.timestamp
  | lease tx => tx.timestamp
  | leaseCancel tx => tx.timestamp
  | minting tx => tx.timestamp
  | contendSlots tx => tx.timestamp
  | releaseSlots tx => tx.timestamp
  | registerContract tx => tx.timestamp
  | executeContractFunction tx => tx.timestamp
  | dbPut tx => tx.timestamp
  | legacy tx => tx.timestamp

/-- `assetFee`. -/
def assetFee : Transaction → AssetFee
  | genesis _ => (none, 0, 100)
  | payment tx => (none, tx.fee, tx.feeScale)
  | lease tx => (none, tx.fee, tx.feeScale)
  | leaseCancel tx => (none, tx.fee, tx.feeScale)
  | minting _ => (none, 0, 100)
  | contendSlots tx => (none, tx.fee, tx.feeScale)
  | releaseSlots tx => (none, tx.fee, tx.feeScale)
  | registerContract tx => (none, tx.fee, tx.feeScale)
  | executeContractFunction tx => (none, tx.fee, tx.feeScale)
  | dbPut tx => (none, tx.fee, tx.feeScale)
  | legacy tx => tx.assetFee

/-- `transactionFee`: zero when the fee is in an asset. -/
def transactionFee (tx : Transaction) : Int64 :=
  match tx.assetFee.1 with
  | some _ => 0
  | none => tx.assetFee.2.1

/-- The signed bytes and the proofs of a `ProvenTransaction`. -/
def proven : Transaction → Option (ByteStr × Proofs)
  | payment tx => some (tx.toSign, tx.proofs)
  | lease tx => some (tx.toSign, tx.proofs)
  | leaseCancel tx => some (tx.toSign, tx.proofs)
  | contendSlots tx => some (tx.toSign, tx.proofs)
  | releaseSlots tx => some (tx.toSign, tx.proofs)
  | registerContract tx => some (tx.toSign, tx.proofs)
  | executeContractFunction tx => some (tx.toSign, tx.proofs)
  | dbPut tx => some (tx.toSign, tx.proofs)
  | _ => none

/-- `id`: the hash of the signed bytes. -/
def id : Transaction → ByteStr
  | genesis tx => Platform.fastHash tx.toSign
  | payment tx => Platform.fastHash tx.toSign
  | lease tx => Platform.fastHash tx.toSign
  | leaseCancel tx => Platform.fastHash tx.toSign
  | minting tx => Platform.fastHash tx.toSign
  | contendSlots tx => Platform.fastHash tx.toSign
  | releaseSlots tx => Platform.fastHash tx.toSign
  | registerContract tx => Platform.fastHash tx.toSign
  | executeContractFunction tx => Platform.fastHash tx.toSign
  | dbPut tx => Platform.fastHash tx.toSign
  | legacy tx => tx.id

/-- `bytes`. -/
def bytes : Transaction → ByteStr
  | genesis tx => tx.bytes
  | payment tx => tx.toSign ++ tx.proofs.bytes
  | lease tx => tx.toSign ++ tx.proofs.bytes
  | leaseCancel tx => tx.toSign ++ tx.proofs.bytes
  | minting tx => tx.toSign
  | contendSlots tx => tx.toSign ++ tx.proofs.bytes
  | releaseSlots tx => tx.toSign ++ tx.proofs.bytes
  | registerContract tx => tx.toSign ++ tx.proofs.bytes
  | executeContractFunction tx => tx.toSign ++ tx.proofs.bytes
  | dbPut tx => tx.toSign ++ tx.proofs.bytes
  | legacy tx => tx.bytes

/-- `signatureValid`: genesis and minting transactions are not signed. -/
def signatureValid (tx : Transaction) : Bool :=
  match tx with
  | legacy tx => tx.signatureValid
  | tx =>
      match tx.proven with
      | some (toSign, proofs) => proofs.verifyProofs toSign
      | none => true

/-- `Signed.validateSignatures` of a transaction. -/
def validateSignatures (tx : Transaction) : Result Unit :=
  cond (tx.signatureValid = true) (.invalidSignature tx.id none)

end Transaction

/-- `TransactionStatus`. -/
inductive TransactionStatus where
  | unprocessed
  | success
  | failed
  | contendFailed
  | invalidContract
  | invalidContractAddress
  | invalidDataEntry
  | invalidFunctionIndex
  | contractDataTypeMismatch
  | contractInvalidStateVariable
  | contractStateVariableNotDefined
  | contractInvalidOPCData
  | contractUnsupportedOPC
  | contractInvalidFunction
  | contractInvalidTokenIndex
  | contractInvalidAmount
  | contractLocalVariableIndexOutOfRange
  | contractTokenBalanceInsufficient
  | contractTokenMaxExceeded
  | contractInvalidTokenInfo
  | contractUnsupportedWithdraw
  | contractUnsupportedDeposit
  | contractInvalidSigner
  | contractInvalidCaller
  deriving DecidableEq

/-- The number of a transaction status. -/
def TransactionStatus.id : TransactionStatus → Byte
  | unprocessed => 1
  | success => 2
  | failed => 3
  | contendFailed => 4
  | invalidContract => 5
  | invalidContractAddress => 6
  | invalidDataEntry => 7
  | invalidFunctionIndex => 8
  | contractDataTypeMismatch => 9
  | contractInvalidStateVariable => 10
  | contractStateVariableNotDefined => 11
  | contractInvalidOPCData => 12
  | contractUnsupportedOPC => 13
  | contractInvalidFunction => 14
  | contractInvalidTokenIndex => 15
  | contractInvalidAmount => 16
  | contractLocalVariableIndexOutOfRange => 17
  | contractTokenBalanceInsufficient => 18
  | contractTokenMaxExceeded => 19
  | contractInvalidTokenInfo => 20
  | contractUnsupportedWithdraw => 21
  | contractUnsupportedDeposit => 22
  | contractInvalidSigner => 23
  | contractInvalidCaller => 24

/-- `ProcessedTransaction`. -/
structure ProcessedTransaction where
  status : TransactionStatus
  feeCharged : Int64
  transaction : Transaction
  deriving DecidableEq

/-- `ProcessedTransaction.bytes`. -/
def ProcessedTransaction.bytes (p : ProcessedTransaction) : ByteStr :=
  p.status.id :: Longs.toByteArray p.feeCharged ++ p.transaction.bytes

end Vsys
