import Vsys.State.Reader

/-!
# The opcodes of contract functions

What each opcode does to the state and to the stack of local variables.  An opcode that writes
returns an `OpcDiff`; one that reads puts a value at a place of the stack.
-/

namespace Vsys

open Lib

variable [Platform]

/-- `OpcDiff`. -/
structure OpcDiff where
  contractDB : Dict ByteStr ByteStr := ∅
  contractTokens : Dict ByteStr Int32 := ∅
  tokenDB : Dict ByteStr ByteStr := ∅
  tokenAccountBalance : Dict ByteStr Int64 := ∅
  relatedAddress : Dict Address Bool := ∅

namespace OpcDiff

/-- `OpcDiff.empty`. -/
def empty : OpcDiff := {}

/-- `opcDiffMonoid.combine`. -/
def combine (older newer : OpcDiff) : OpcDiff where
  contractDB := Dict.overlay older.contractDB newer.contractDB
  contractTokens := Dict.mergeWith (· + ·) older.contractTokens newer.contractTokens
  tokenDB := Dict.overlay older.tokenDB newer.tokenDB
  tokenAccountBalance :=
    Dict.mergeWith (· + ·) older.tokenAccountBalance newer.tokenAccountBalance
  relatedAddress := Dict.overlay older.relatedAddress newer.relatedAddress

/-- The effect of an opcode diff as that of a transaction. -/
def changes (d : OpcDiff) : Changes :=
  { contractDB := d.contractDB
    contractTokens := d.contractTokens
    tokenDB := d.tokenDB
    tokenAccountBalance := d.tokenAccountBalance }

/-- `asTransactionDiff`. -/
def asTransactionDiff (d : OpcDiff) (height : Nat) (tx : Transaction) : Diff :=
  Diff.apply height tx d.changes d.relatedAddress

/-- `asBlockDiff`. -/
def asBlockDiff (d : OpcDiff) (height : Nat) (tx : Transaction) : BlockDiff :=
  (d.asTransactionDiff height tx).asBlockDiff

end OpcDiff

/-- `ExecutionContext`. -/
structure ExecutionContext where
  signers : List PublicKeyAccount
  state : StateView
  height : Nat
  transaction : Transaction
  contractId : ContractAccount
  opcFunc : ByteStr
  stateVar : List ByteStr
  description : ByteStr

/-- `Seq.patch(pointer, Seq(value), 1)`. -/
def patch (dataStack : List DataEntry) (pointer : Byte) (value : DataEntry) : List DataEntry :=
  dataStack.take pointer.toInt.toNat ++ [value] ++ dataStack.drop (pointer.toInt.toNat + 1)

/-- The local variable with an index, when the index is one. -/
def localVariable (data : List DataEntry) (index : Byte) : Option DataEntry :=
  if 0 ≤ index then data[index.toInt.toNat]? else none

/-- The local variables an opcode names, when `max` and `min` of the indices are in range. -/
def localVariables (data : List DataEntry) (indices : ByteStr) : Option (List DataEntry) :=
  indices.mapM (localVariable data)

/-- Whether a place of the stack can be written: inside it or just after its end. -/
def pointerOutOfRange (dataStack : List DataEntry) (pointer : Byte) : Bool :=
  dataStack.length < pointer.toInt ∨ pointer < 0

namespace AssertOpcDiff

/-- A check of one amount: `gtEq0`, `ltInt64` and `gt0`. -/
def assertAmount (check : Int64 → Bool) (text : String) (v : DataEntry) : Result OpcDiff := do
  let value ← Longs.fromByteArray v.data
  if v.dataType = .amount ∧ check value then .ok OpcDiff.empty else left (.genericError text)

/-- `AssertOpcDiff.gtEq0`. -/
def gtEq0 : DataEntry → Result OpcDiff :=
  assertAmount (fun value => 0 ≤ value) "Invalid Assert (gteq0): Value is negative"

/-- `AssertOpcDiff.ltInt64`. -/
def ltInt64 : DataEntry → Result OpcDiff :=
  assertAmount (fun value => value ≤ Int64.maxValue) "Invalid Assert (ltint64): Value is invalid"

/-- `AssertOpcDiff.gt0`, whose message names the entry and so reads no number from it. -/
def gt0 (v : DataEntry) : Result OpcDiff :=
  if v.dataType = .amount then
    assertAmount (fun value => 0 < value) "Invalid Assert (gt0): Value is non-positive" v
  else left (.genericError "Invalid Assert (gt0): Value is non-positive")

/-- `AssertOpcDiff.ltEq`. -/
def ltEq (v1 v2 : DataEntry) : Result OpcDiff :=
  if v1.dataType = .amount ∧ v2.dataType = .amount then do
    let value1 ← Longs.fromByteArray v1.data
    let value2 ← Longs.fromByteArray v2.data
    if value1 ≤ value2 then .ok OpcDiff.empty
    else left (.genericError "Invalid Assert (lteq0): Value is larger")
  else do
    let _ ← Longs.fromByteArray v2.data
    left (.genericError "Invalid Assert (lteq0): Value is larger")

/-- Equality of two `Either` values of `Address.fromBytes`. -/
def sameAddress (add1 add2 : ByteStr) : Result Bool :=
  match Address.fromBytes add1, Address.fromBytes add2 with
  | .error (.raised e), _ => raise e
  | _, .error (.raised e) => raise e
  | .ok a, .ok b => .ok (a = b)
  | .error (.left _), .error (.left _) => .ok true
  | _, _ => .ok false

/-- `AssertOpcDiff.eq`. -/
def eq (add1 add2 : DataEntry) : Result OpcDiff := do
  let unequal := left (.genericError "Invalid Assert (eq): DataEntry is not equal")
  if add1.dataType = .address ∧ add2.dataType = .address then
    if ← sameAddress add1.data add2.data then return OpcDiff.empty
  if add1.dataType = .amount ∧ add2.dataType = .amount then
    let value1 ← Longs.fromByteArray add1.data
    let value2 ← Longs.fromByteArray add2.data
    if value1 = value2 then return OpcDiff.empty
  unequal

/-- `isCallerOrigin` and `isSignerOrigin`, which differ in the error: the address is the first
signer's. -/
def isOrigin (error : ValidationError) (context : ExecutionContext) (address : DataEntry) :
    Result OpcDiff := do
  let signer ← getOrRaise .noSuchElement context.signers.head?
  if address.dataType ≠ .address then left .contractDataTypeMismatch
  else if address.data ≠ signer.toAddress.bytes then left error
  else .ok OpcDiff.empty

/-- `AssertOpcDiff.isCallerOrigin`. -/
def isCallerOrigin : ExecutionContext → DataEntry → Result OpcDiff :=
  isOrigin .contractInvalidCaller

/-- `AssertOpcDiff.isSignerOrigin`. -/
def isSignerOrigin : ExecutionContext → DataEntry → Result OpcDiff :=
  isOrigin .contractInvalidSigner

/-- `AssertOpcDiff.parseBytes`. -/
def parseBytes (context : ExecutionContext) (bytes : ByteStr) (data : List DataEntry) :
    Result OpcDiff :=
  match bytes with
  | [] => raise .noSuchElement
  | assertType :: indices =>
      match assertType, localVariables data indices with
      | 1, some [v] => gtEq0 v
      | 2, some [v1, v2] => ltEq v1 v2
      | 3, some [m] => ltInt64 m
      | 4, some [v] => gt0 v
      | 5, some [add1, add2] => eq add1 add2
      | 6, some [address] => isCallerOrigin context address
      | 7, some [address] => isSignerOrigin context address
      | _, _ => left .contractInvalidOPCData

end AssertOpcDiff

namespace LoadOpcDiff

/-- `LoadOpcDiff.signer`, which is also `LoadOpcDiff.caller`. -/
def signer (context : ExecutionContext) (dataStack : List DataEntry) (pointer : Byte) :
    Result (List DataEntry) :=
  if pointerOutOfRange dataStack pointer then left .contractLocalVariableIndexOutOfRange
  else do
    let signer ← getOrRaise .noSuchElement context.signers.head?
    .ok (patch dataStack pointer ⟨signer.toAddress.bytes, .address⟩)

/-- `LoadOpcDiff.parseBytes`. -/
def parseBytes (context : ExecutionContext) (bytes : ByteStr) (data : List DataEntry) :
    Result (List DataEntry) :=
  match bytes with
  | [] => raise .noSuchElement
  | [1, pointer] => signer context data pointer
  | [2, pointer] => signer context data pointer
  | _ => left .contractInvalidOPCData

end LoadOpcDiff

/-- The key of a state variable of a contract. -/
def stateVarKey (contractId : ContractAccount) (index : Byte) : ByteStr :=
  contractId.bytes ++ [index]

/-- The state variable with an index, when the index is one. -/
def stateVariable (stateVar : List ByteStr) (index : Byte) : Option ByteStr :=
  if 0 ≤ index then stateVar[index.toInt.toNat]? else none

namespace CDBVOpcDiff

/-- `CDBVOpcDiff.set`. -/
def set (context : ExecutionContext) (stateVar : ByteStr) (value : DataEntry) :
    Result OpcDiff := do
  if ← Contract.checkStateVar stateVar value.dataType then
    let index ← getOrRaise .indexOutOfBounds stateVar.head?
    let contractDB := Finmap.singleton (stateVarKey context.contractId index) value.bytes
    if value.dataType = .address then
      let a ← rightGet (Address.fromBytes value.data)
      .ok { relatedAddress := Finmap.singleton a true, contractDB := contractDB }
    else .ok { contractDB := contractDB }
  else left .contractInvalidStateVariable

/-- `CDBVOpcDiff.parseBytes`. -/
def parseBytes (context : ExecutionContext) (bytes : ByteStr) (data : List DataEntry) :
    Result OpcDiff :=
  match bytes with
  | [] => raise .noSuchElement
  | [1, var, index] =>
      match stateVariable context.stateVar var, localVariable data index with
      | some stateVar, some value => set context stateVar value
      | _, _ => left .contractInvalidOPCData
  | _ => left .contractInvalidOPCData

end CDBVOpcDiff

namespace CDBVROpcDiff

/-- `CDBVROpcDiff.get`. -/
def get (context : ExecutionContext) (stateVar : ByteStr) (dataStack : List DataEntry)
    (pointer : Byte) : Result (List DataEntry) := do
  let typeByte ← getOrRaise .indexOutOfBounds stateVar[1]?
  let dataType ← getOrRaise .noSuchElement (DataType.fromByte typeByte)
  if ← Contract.checkStateVar stateVar dataType then
    if pointerOutOfRange dataStack pointer then left .contractLocalVariableIndexOutOfRange
    else
      let index ← getOrRaise .indexOutOfBounds stateVar.head?
      match ← context.state.contractInfo (stateVarKey context.contractId index) with
      | some v => .ok (patch dataStack pointer v)
      | none => left .contractStateVariableNotDefined
  else left .contractInvalidStateVariable

/-- `CDBVROpcDiff.parseBytes`. -/
def parseBytes (context : ExecutionContext) (bytes : ByteStr) (data : List DataEntry) :
    Result (List DataEntry) :=
  match bytes with
  | [] => raise .noSuchElement
  | [1, var, pointer] =>
      match stateVariable context.stateVar var with
      | some stateVar => get context stateVar data pointer
      | none => left .contractInvalidOPCData
  | _ => left .contractInvalidOPCData

end CDBVROpcDiff

/-- The keys of a token: its maximum, total, unity and description. -/
inductive TokenKey where
  | max
  | total
  | unity
  | desc

/-- The byte a token key ends with. -/
def TokenKey.id : TokenKey → Byte
  | max => 0
  | total => 1
  | unity => 2
  | desc => 3

/-- The key of a token's maximum, total, unity or description. -/
def tokenKey (tokenID : ByteStr) (key : TokenKey) : ByteStr := tokenID ++ [key.id]

/-- The key of an account's balance of a token. -/
def balanceKey (tokenID account : ByteStr) : ByteStr := tokenID ++ account

/-- The token identifier of an index: `tokenIdFromBytes(contractId, index).right.get`. -/
def tokenIdOf (context : ExecutionContext) (index : ByteStr) : Result ByteStr :=
  rightGet (ContractAccount.tokenIdFromBytes context.contractId.bytes index)

/-- The index of the first token. -/
def firstToken : DataEntry := ⟨Ints.toByteArray 0, .int32⟩

namespace TDBOpcDiff

/-- `TDBOpcDiff.newToken`. -/
def newToken (context : ExecutionContext) (max unity desc : DataEntry) : Result OpcDiff :=
  if max.dataType ≠ .amount ∨ unity.dataType ≠ .amount ∨ desc.dataType ≠ .shortText then
    left .contractDataTypeMismatch
  else do
    let maxValue ← Longs.fromByteArray max.data
    if maxValue < 0 then left .contractInvalidTokenInfo
    else
      let unityValue ← Longs.fromByteArray unity.data
      if unityValue ≤ 0 then left .contractInvalidTokenInfo
      else
        let contractTokens := context.state.contractTokens context.contractId.bytes
        let tokenID ← tokenIdOf context (Ints.toByteArray contractTokens)
        .ok { tokenDB := (((∅ : Dict ByteStr ByteStr).insert (tokenKey tokenID .max) max.bytes).insert
                (tokenKey tokenID .unity) unity.bytes).insert (tokenKey tokenID .desc) desc.bytes
              contractTokens := Finmap.singleton context.contractId.bytes 1
              tokenAccountBalance := Finmap.singleton (tokenKey tokenID .total) 0 }

/-- `TDBOpcDiff.split`. -/
def split (context : ExecutionContext) (newUnity tokenIndex : DataEntry) : Result OpcDiff :=
  if newUnity.dataType ≠ .amount ∨ tokenIndex.dataType ≠ .int32 then
    left .contractDataTypeMismatch
  else do
    let contractTokens := context.state.contractTokens context.contractId.bytes
    let tokenNumber ← Ints.fromByteArray tokenIndex.data
    let newUnityValue ← Longs.fromByteArray newUnity.data
    let tokenID ← tokenIdOf context tokenIndex.data
    if contractTokens ≤ tokenNumber ∨ tokenNumber < 0 then left .contractInvalidTokenIndex
    else if newUnityValue ≤ 0 then left .contractInvalidTokenInfo
    else .ok { tokenDB := Finmap.singleton (tokenKey tokenID .unity) newUnity.bytes }

/-- `TDBOpcDiff.parseBytes`. -/
def parseBytes (context : ExecutionContext) (bytes : ByteStr) (data : List DataEntry) :
    Result OpcDiff :=
  match bytes with
  | [] => raise .noSuchElement
  | tdbType :: indices =>
      match tdbType, localVariables data indices with
      | 1, some [max, unity, desc] => newToken context max unity desc
      | 2, some [newUnity] => split context newUnity firstToken
      | 2, some [newUnity, tokenIndex] => split context newUnity tokenIndex
      | _, _ => left .contractInvalidOPCData

end TDBOpcDiff

namespace TDBROpcDiff

/-- The checks and the token identifier all of `TDBROpcDiff` starts with. -/
def readToken (context : ExecutionContext) (tokenIndex : DataEntry) (dataStack : List DataEntry)
    (pointer : Byte) (value : ByteStr → Result DataEntry) : Result (List DataEntry) :=
  if tokenIndex.dataType ≠ .int32 then left .contractDataTypeMismatch
  else if pointerOutOfRange dataStack pointer then left .contractLocalVariableIndexOutOfRange
  else do
    let contractTokens := context.state.contractTokens context.contractId.bytes
    let tokenNumber ← Ints.fromByteArray tokenIndex.data
    let tokenID ← tokenIdOf context tokenIndex.data
    if contractTokens ≤ tokenNumber ∨ tokenNumber < 0 then left .contractInvalidTokenIndex
    else
      let v ← value tokenID
      .ok (patch dataStack pointer v)

/-- `max`, `unity` and `desc`: an entry of the token's information. -/
def info (key : TokenKey) (context : ExecutionContext) (tokenIndex : DataEntry)
    (dataStack : List DataEntry) (pointer : Byte) : Result (List DataEntry) :=
  readToken context tokenIndex dataStack pointer fun tokenID => do
    match ← context.state.tokenInfo (tokenKey tokenID key) with
    | some v => .ok v
    | none => left .contractInvalidTokenInfo

/-- `TDBROpcDiff.max`. -/
def max := info .max

/-- `TDBROpcDiff.unity`. -/
def unity := info .unity

/-- `TDBROpcDiff.desc`. -/
def desc := info .desc

/-- `TDBROpcDiff.total`. -/
def total (context : ExecutionContext) (tokenIndex : DataEntry) (dataStack : List DataEntry)
    (pointer : Byte) : Result (List DataEntry) :=
  readToken context tokenIndex dataStack pointer fun tokenID =>
    let t := context.state.tokenAccountBalance (tokenKey tokenID .total)
    .ok ⟨Longs.toByteArray t, .amount⟩

/-- `TDBROpcDiff.parseBytes`: the last operand is the place of the result, and a token index
before it is optional. -/
def parseBytes (context : ExecutionContext) (bytes : ByteStr) (data : List DataEntry) :
    Result (List DataEntry) :=
  match bytes with
  | [] => raise .noSuchElement
  | [tdbrType, pointer] => read tdbrType firstToken pointer
  | [tdbrType, index, pointer] =>
      match localVariable data index with
      | some tokenIndex => read tdbrType tokenIndex pointer
      | none => left .contractInvalidOPCData
  | _ => left .contractInvalidOPCData
where
  read (tdbrType : Byte) (tokenIndex : DataEntry) (pointer : Byte) : Result (List DataEntry) :=
    match tdbrType with
    | 1 => max context tokenIndex data pointer
    | 2 => total context tokenIndex data pointer
    | 3 => unity context tokenIndex data pointer
    | 4 => desc context tokenIndex data pointer
    | _ => left .contractInvalidOPCData

end TDBROpcDiff

namespace TDBAOpcDiff

/-- `TDBAOpcDiff.deposit`. -/
def deposit (context : ExecutionContext) (issuer amount tokenIndex : DataEntry) :
    Result OpcDiff :=
  if issuer.dataType ≠ .address ∨ amount.dataType ≠ .amount ∨ tokenIndex.dataType ≠ .int32 then
    left .contractDataTypeMismatch
  else do
    let contractTokens := context.state.contractTokens context.contractId.bytes
    let tokenNumber ← Ints.fromByteArray tokenIndex.data
    let depositAmount ← Longs.fromByteArray amount.data
    let tokenID ← tokenIdOf context tokenIndex.data
    let tokenTotalKey := tokenKey tokenID .total
    let issuerBalanceKey := balanceKey tokenID issuer.data
    let currentTotal := context.state.tokenAccountBalance tokenTotalKey
    let maxInfo ← context.state.tokenInfo (tokenKey tokenID .max)
    let tokenMax ← Longs.fromByteArray (maxInfo.getD ⟨Longs.toByteArray 0, .amount⟩).data
    if contractTokens ≤ tokenNumber ∨ tokenNumber < 0 then left .contractInvalidTokenIndex
    else if (addExact depositAmount currentTotal).isNone then left .overflowError
    else if depositAmount < 0 then left .contractInvalidAmount
    else if tokenMax < depositAmount + currentTotal then left .contractTokenMaxExceeded
    else
      let a ← rightGet (Address.fromBytes issuer.data)
      .ok { relatedAddress := Finmap.singleton a true
            tokenAccountBalance :=
              ((∅ : Dict ByteStr Int64).insert tokenTotalKey depositAmount).insert
                issuerBalanceKey depositAmount }

/-- `TDBAOpcDiff.withdraw`. -/
def withdraw (context : ExecutionContext) (issuer amount tokenIndex : DataEntry) :
    Result OpcDiff :=
  if issuer.dataType ≠ .address ∨ amount.dataType ≠ .amount ∨ tokenIndex.dataType ≠ .int32 then
    left .contractDataTypeMismatch
  else do
    let contractTokens := context.state.contractTokens context.contractId.bytes
    let tokenNumber ← Ints.fromByteArray tokenIndex.data
    let withdrawAmount ← Longs.fromByteArray amount.data
    let tokenID ← tokenIdOf context tokenIndex.data
    let tokenTotalKey := tokenKey tokenID .total
    let issuerBalanceKey := balanceKey tokenID issuer.data
    let issuerCurrentBalance := context.state.tokenAccountBalance issuerBalanceKey
    if contractTokens ≤ tokenNumber ∨ tokenNumber < 0 then left .contractInvalidTokenIndex
    else if issuerCurrentBalance < withdrawAmount then left .contractTokenBalanceInsufficient
    else if withdrawAmount < 0 then left .contractInvalidAmount
    else
      let a ← rightGet (Address.fromBytes issuer.data)
      .ok { relatedAddress := Finmap.singleton a true
            tokenAccountBalance :=
              ((∅ : Dict ByteStr Int64).insert tokenTotalKey (-withdrawAmount)).insert
                issuerBalanceKey (-withdrawAmount) }

/-- `TDBAOpcDiff.transfer`.  A transfer to oneself changes no balance: a map with one key twice
would keep the second change alone. -/
def transfer (context : ExecutionContext) (sender recipient amount tokenIndex : DataEntry) :
    Result OpcDiff :=
  if sender.dataType = .contractAccount then left .contractUnsupportedWithdraw
  else if recipient.dataType = .contractAccount then left .contractUnsupportedDeposit
  else if sender.dataType ≠ .address ∨ recipient.dataType ≠ .address ∨
      amount.dataType ≠ .amount ∨ tokenIndex.dataType ≠ .int32 then
    left .contractDataTypeMismatch
  else do
    let contractTokens := context.state.contractTokens context.contractId.bytes
    let tokenNumber ← Ints.fromByteArray tokenIndex.data
    let transferAmount ← Longs.fromByteArray amount.data
    let tokenID ← tokenIdOf context tokenIndex.data
    let senderBalanceKey := balanceKey tokenID sender.data
    let senderCurrentBalance := context.state.tokenAccountBalance senderBalanceKey
    let recipientBalanceKey := balanceKey tokenID recipient.data
    let recipientCurrentBalance := context.state.tokenAccountBalance recipientBalanceKey
    if contractTokens ≤ tokenNumber ∨ tokenNumber < 0 then left .contractInvalidTokenIndex
    else if senderCurrentBalance < transferAmount then left .contractTokenBalanceInsufficient
    else if (addExact transferAmount recipientCurrentBalance).isNone then left .overflowError
    else if transferAmount < 0 then left .contractInvalidAmount
    else
      let s ← rightGet (Address.fromBytes sender.data)
      let r ← rightGet (Address.fromBytes recipient.data)
      let relatedAddress := ((∅ : Dict Address Bool).insert s true).insert r true
      if sender.bytes = recipient.bytes then .ok { relatedAddress := relatedAddress }
      else
        .ok { relatedAddress := relatedAddress
              tokenAccountBalance :=
                ((∅ : Dict ByteStr Int64).insert senderBalanceKey (-transferAmount)).insert
                  recipientBalanceKey transferAmount }

/-- `TDBAOpcDiff.parseBytes`; without a token index the opcodes work on the first token. -/
def parseBytes (context : ExecutionContext) (bytes : ByteStr) (data : List DataEntry) :
    Result OpcDiff :=
  match bytes with
  | [] => raise .noSuchElement
  | tdbaType :: indices =>
      match tdbaType, localVariables data indices with
      | 1, some [issuer, amount] => deposit context issuer amount firstToken
      | 1, some [issuer, amount, tokenIndex] => deposit context issuer amount tokenIndex
      | 2, some [issuer, amount] => withdraw context issuer amount firstToken
      | 2, some [issuer, amount, tokenIndex] => withdraw context issuer amount tokenIndex
      | 3, some [sender, recipient, amount] =>
          transfer context sender recipient amount firstToken
      | 3, some [sender, recipient, amount, tokenIndex] =>
          transfer context sender recipient amount tokenIndex
      | _, _ => left .contractInvalidOPCData

end TDBAOpcDiff

namespace TDBAROpcDiff

/-- `TDBAROpcDiff.balance`. -/
def balance (context : ExecutionContext) (address tokenIndex : DataEntry)
    (dataStack : List DataEntry) (pointer : Byte) : Result (List DataEntry) :=
  if tokenIndex.dataType ≠ .int32 ∨ address.dataType ≠ .address then
    left .contractDataTypeMismatch
  else if pointerOutOfRange dataStack pointer then left .contractLocalVariableIndexOutOfRange
  else do
    let contractTokens := context.state.contractTokens context.contractId.bytes
    let tokenNumber ← Ints.fromByteArray tokenIndex.data
    let tokenID ← tokenIdOf context tokenIndex.data
    if contractTokens ≤ tokenNumber ∨ tokenNumber < 0 then left .contractInvalidTokenIndex
    else
      let b := context.state.tokenAccountBalance (balanceKey tokenID address.data)
      .ok (patch dataStack pointer ⟨Longs.toByteArray b, .amount⟩)

/-- `TDBAROpcDiff.parseBytes`. -/
def parseBytes (context : ExecutionContext) (bytes : ByteStr) (data : List DataEntry) :
    Result (List DataEntry) :=
  match bytes with
  | [] => raise .noSuchElement
  | [1, index, pointer] =>
      match localVariables data [index] with
      | some [address] => balance context address firstToken data pointer
      | _ => left .contractInvalidOPCData
  | [1, index, token, pointer] =>
      match localVariables data [index, token] with
      | some [address, tokenIndex] => balance context address tokenIndex data pointer
      | _ => left .contractInvalidOPCData
  | _ => left .contractInvalidOPCData

end TDBAROpcDiff

namespace ReturnOpcDiff

/-- `ReturnOpcDiff.parseBytes`; its one opcode, `value`, is not supported. -/
def parseBytes (bytes : ByteStr) : Result (List DataEntry) :=
  match bytes with
  | [] => raise .noSuchElement
  | [1, _] => left .contractUnsupportedOPC
  | _ => left .contractInvalidOPCData

end ReturnOpcDiff

end Vsys
