import Vsys.Contract.Data

/-!
# The permitted contracts

The two contracts the chain admits, assembled from opcodes and operand indices as the code
assembles them, and `Contract.fromBytes`, which admits nothing else.
-/

namespace Vsys

open Lib

/-- `Deser.deserilizeString`, which raises on bytes that are not UTF-8. -/
def Deser.deserilizeString (bytes : ByteStr) : Result String :=
  getOrRaise (.exception "MalformedInputException")
    (String.fromUTF8? ⟨(bytes.map Int8.toUInt8).toArray⟩)

namespace ContractPermitted

namespace OpcId

def opcAssertIsCallerOrigin : ByteStr := [1, 6]
def opcAssertIsSignerOrigin : ByteStr := [1, 7]
def opcLoadSigner : ByteStr := [2, 1]
def opcLoadCaller : ByteStr := [2, 2]
def opcCDBVSet : ByteStr := [3, 1]
def opcCDBVRGet : ByteStr := [4, 1]
def opcTDBNewToken : ByteStr := [5, 1]
def opcTDBSplit : ByteStr := [5, 2]
def opcTDBROpcMax : ByteStr := [6, 1]
def opcTDBROpcTotal : ByteStr := [6, 2]
def opcTDBADeposit : ByteStr := [7, 1]
def opcTDBAWithdraw : ByteStr := [7, 2]
def opcTDBATransfer : ByteStr := [7, 3]
def opcTDBARBalance : ByteStr := [8, 1]
def opcReturnValue : ByteStr := [9, 1]

end OpcId

namespace StateVar

def issuer : Byte := 0
def maker : Byte := 1

end StateVar

/-- `ContractPermitted.listOpc`: opcodes with their operands, each with its length. -/
def listOpc (ids indexInput : List ByteStr) : ByteStr :=
  let lines := (ids.zip indexInput).map fun x => x.1 ++ x.2
  Shorts.toByteArray (Int16.ofNat ((lines.map fun l => l.length + 2).sum + 2))
    ++ Shorts.toByteArray (Int16.ofNat ids.length)
    ++ (lines.map fun l => Shorts.toByteArray (Int16.ofNat l.length) ++ l).flatten

namespace OpcLine

open OpcId StateVar

def initOpcLine : ByteStr :=
  listOpc [opcLoadSigner, opcCDBVSet, opcCDBVSet, opcTDBNewToken]
    [[3], [issuer, 3], [maker, 3], [0, 1, 2]]

def supersedeOpcLine : ByteStr :=
  listOpc [opcCDBVRGet, opcAssertIsSignerOrigin, opcCDBVSet] [[maker, 1], [1], [issuer, 0]]

def issueOpcLine : ByteStr :=
  listOpc [opcCDBVRGet, opcAssertIsCallerOrigin, opcTDBADeposit] [[issuer, 1], [1], [1, 0]]

def destroyOpcLine : ByteStr :=
  listOpc [opcCDBVRGet, opcAssertIsCallerOrigin, opcTDBAWithdraw] [[issuer, 1], [1], [1, 0]]

def splitOpcLine : ByteStr :=
  listOpc [opcCDBVRGet, opcAssertIsCallerOrigin, opcTDBSplit] [[issuer, 1], [1], [0]]

def sendOpcLine : ByteStr := listOpc [opcLoadCaller, opcTDBATransfer] [[2], [2, 0, 1]]

def transferOpcLine : ByteStr :=
  listOpc [opcAssertIsCallerOrigin, opcTDBATransfer] [[0], [0, 1, 2]]

def depositOpcLine : ByteStr :=
  listOpc [opcAssertIsCallerOrigin, opcTDBATransfer] [[0], [0, 1, 2]]

def withdrawOpcLine : ByteStr :=
  listOpc [opcAssertIsCallerOrigin, opcTDBATransfer] [[1], [0, 1, 2]]

def totalSupplyOpcLine : ByteStr := listOpc [opcTDBROpcTotal, opcReturnValue] [[0], [0]]

def maxSupplyOpcLine : ByteStr := listOpc [opcTDBROpcMax, opcReturnValue] [[0], [0]]

def balanceOfOpcLine : ByteStr := listOpc [opcTDBARBalance, opcReturnValue] [[0, 1], [1]]

def getIssuerOpcLine : ByteStr := listOpc [opcCDBVRGet, opcReturnValue] [[issuer, 0], [0]]

end OpcLine

/-- `ContractPermitted.protoType`. -/
def protoType (listReturnType listParaTypes : ByteStr) : ByteStr :=
  Deser.serializeArray listReturnType ++ Deser.serializeArray listParaTypes

/-- A function: its index, its type byte (zero for the trigger and for every public function), its
prototype and its opcodes. -/
def function (index : Int16) (listReturnType listParaTypes : List DataType) (opcLine : ByteStr) :
    ByteStr :=
  Shorts.toByteArray index ++ [0]
    ++ protoType (listReturnType.map DataType.id) (listParaTypes.map DataType.id) ++ opcLine

open OpcLine

/-- `initFunc`. -/
def initFunc : ByteStr := function 0 [] [.amount, .amount, .shortText] initOpcLine

def supersedeFunc : ByteStr := function 0 [] [.account] supersedeOpcLine

def issueFunc : ByteStr := function 1 [] [.amount] issueOpcLine

def destroyFunc : ByteStr := function 2 [] [.amount] destroyOpcLine

def splitFunc : ByteStr := function 3 [] [.amount] splitOpcLine

/-- The functions behind `split` have one index in `contract` and the one before it in
`contractWithoutSplit`. -/
def sendFunc (index : Int16) : ByteStr := function index [] [.account, .amount] sendOpcLine

def transferFunc (index : Int16) : ByteStr :=
  function index [] [.account, .account, .amount] transferOpcLine

def depositFunc (index : Int16) : ByteStr :=
  function index [] [.account, .contractAccount, .amount] depositOpcLine

def withdrawFunc (index : Int16) : ByteStr :=
  function index [] [.contractAccount, .account, .amount] withdrawOpcLine

def totalSupplyFunc (index : Int16) : ByteStr := function index [.amount] [] totalSupplyOpcLine

def maxSupplyFunc (index : Int16) : ByteStr := function index [.amount] [] maxSupplyOpcLine

def balanceOfFunc (index : Int16) : ByteStr :=
  function index [.amount] [.account] balanceOfOpcLine

def getIssuerFunc (index : Int16) : ByteStr := function index [.account] [] getIssuerOpcLine

/-- `ContractPermitted.textualFunc`. -/
def textualFunc (name : String) (ret para : List String) : ByteStr :=
  Deser.serializeArray (Deser.serilizeString name)
    ++ Deser.serializeArray (Deser.serializeArrays (ret.map Deser.serilizeString))
    ++ Deser.serializeArrays (para.map Deser.serilizeString)

def initFuncBytes : ByteStr :=
  textualFunc "init" [] ["max", "unity", "tokenDescription", "signer"]

def supersedeFuncBytes : ByteStr := textualFunc "supersede" [] ["newIssuer", "maker"]

def issueFuncBytes : ByteStr := textualFunc "issue" [] ["amount", "issuer"]

def destroyFuncBytes : ByteStr := textualFunc "destroy" [] ["amount", "issuer"]

def splitFuncBytes : ByteStr := textualFunc "split" [] ["newUnity", "issuer"]

/-- The textual descriptions both contracts have from `send` on. -/
def sharedFuncBytes : List ByteStr :=
  [textualFunc "send" [] ["recipient", "amount", "caller"],
   textualFunc "transfer" [] ["sender", "recipient", "amount"],
   textualFunc "deposit" [] ["sender", "smart", "amount"],
   textualFunc "withdraw" [] ["smart", "recipient", "amount"],
   textualFunc "totalSupply" ["total"] ["total"],
   textualFunc "maxSupply" ["max"] ["max"],
   textualFunc "balanceOf" ["balance"] ["address", "balance"],
   textualFunc "getIssuer" ["issuer"] ["issuer"]]

/-- `stateVarTextual`. -/
def stateVarTextual : ByteStr := Deser.serializeArrays (["issuer", "maker"].map Deser.serilizeString)

/-- `triggerTextual`. -/
def triggerTextual : ByteStr := Deser.serializeArrays [initFuncBytes]

/-- `descriptorTextual`. -/
def descriptorTextual : ByteStr :=
  Deser.serializeArrays
    ([supersedeFuncBytes, issueFuncBytes, destroyFuncBytes, splitFuncBytes] ++ sharedFuncBytes)

/-- `descriptorTextualWithoutSplit`. -/
def descriptorTextualWithoutSplit : ByteStr :=
  Deser.serializeArrays
    ([supersedeFuncBytes, issueFuncBytes, destroyFuncBytes] ++ sharedFuncBytes)

/-- The state variables of both contracts: the issuer and the maker, both addresses. -/
def stateVar : List ByteStr :=
  [[StateVar.issuer, DataType.address.id], [StateVar.maker, DataType.address.id]]

/-- `ContractPermitted.contract`. -/
def contract : Contract where
  languageCode := Deser.serilizeString "vdds"
  languageVersion := Ints.toByteArray 1
  trigger := [initFunc]
  descriptor := [supersedeFunc, issueFunc, destroyFunc, splitFunc, sendFunc 4, transferFunc 5,
    depositFunc 6, withdrawFunc 7, totalSupplyFunc 8, maxSupplyFunc 9, balanceOfFunc 10,
    getIssuerFunc 11]
  stateVar := stateVar
  textual := [triggerTextual, descriptorTextual, stateVarTextual]

/-- `ContractPermitted.contractWithoutSplit`. -/
def contractWithoutSplit : Contract where
  languageCode := Deser.serilizeString "vdds"
  languageVersion := Ints.toByteArray 1
  trigger := [initFunc]
  descriptor := [supersedeFunc, issueFunc, destroyFunc, sendFunc 3, transferFunc 4,
    depositFunc 5, withdrawFunc 6, totalSupplyFunc 7, maxSupplyFunc 8, balanceOfFunc 9,
    getIssuerFunc 10]
  stateVar := stateVar
  textual := [triggerTextual, descriptorTextualWithoutSplit, stateVarTextual]

end ContractPermitted

namespace Contract

/-- The part of `Contract.fromBytes` before its check: the fields of the byte string. -/
def fieldsFromBytes (bytes : ByteStr) : Result Contract := do
  let (triggerBytes, triggerEnd) ← Deser.parseArraySize bytes 8
  let trigger ← Deser.parseArrays triggerBytes
  let (descriptorBytes, descriptorEnd) ← Deser.parseArraySize bytes triggerEnd
  let descriptor ← Deser.parseArrays descriptorBytes
  let (stateVarBytes, stateVarEnd) ← Deser.parseArraySize bytes descriptorEnd
  let stateVar ← Deser.parseArrays stateVarBytes
  let textual ← Deser.parseArrays (slice bytes stateVarEnd bytes.length)
  .ok { languageCode := slice bytes 0 4
        languageVersion := slice bytes 4 8
        trigger := trigger
        descriptor := descriptor
        stateVar := stateVar
        textual := textual }

/-- `Contract.paraFromBytes`. -/
def paraFromBytes (bytes : ByteStr) : Result (List String) := do
  let listParaNameBytes ← Deser.parseArrays bytes
  listParaNameBytes.mapM Deser.deserilizeString

/-- The names of one function in `Contract.funcFromBytes`. -/
def funcNamesFromBytes (b : ByteStr) : Result (List String) := do
  let (funcNameBytes, funcNameEnd) ← Deser.parseArraySize b 0
  let funcName ← Deser.deserilizeString funcNameBytes
  let (listReturnNameBytes, listReturnNameEnd) ← Deser.parseArraySize b funcNameEnd
  let listReturnNames ← paraFromBytes listReturnNameBytes
  let listParaNames ← paraFromBytes (slice b listReturnNameEnd b.length)
  .ok (listReturnNames ++ [funcName] ++ listParaNames)

/-- `Contract.textualFromBytes`: the names of the triggers, the descriptors and the state
variables. -/
def textualFromBytes (bs : List ByteStr) : Result (List String) := do
  let triggerBytes ← getOrRaise .noSuchElement bs.head?
  let descriptorBytes ← getOrRaise .indexOutOfBounds bs[1]?
  let stateVarBytes ← getOrRaise .noSuchElement bs.getLast?
  let triggerFunc ← (← Deser.parseArrays triggerBytes).mapM funcNamesFromBytes
  let descriptorFunc ← (← Deser.parseArrays descriptorBytes).mapM funcNamesFromBytes
  let stateVar ← paraFromBytes stateVarBytes
  .ok (triggerFunc.flatten ++ descriptorFunc.flatten ++ stateVar)

/-- The words `Contract.identifierCheck` does not allow as names. -/
def illegalIdf : List String :=
  ["register", "unit", "while", "if", "for", "return", "match", "context", "contract", "int",
   "long", "short", "boolean", "trait", "lazy", "class", "else", "true", "false", "private",
   "val", "var", "try", "catch", "throw", "define", "transaction", "else", "public", "jump",
   "trigger", "then"]

/-- `Contract.identifierCheck`; an empty name raises. -/
def identifierCheck (str : String) : Result Bool :=
  let letter (c : Char) : Bool := c = '_' ∨ ('a' ≤ c ∧ c ≤ 'z') ∨ ('A' ≤ c ∧ c ≤ 'Z')
  match str.toList with
  | [] => raise .noSuchElement
  | head :: tail =>
      .ok (letter head && (tail.all fun c => letter c || ('0' ≤ c && c ≤ '9'))
        && !illegalIdf.contains str.toLower)

/-- `Contract.isByteArrayValid`: the bytes of a permitted contract, with legal names. -/
def isByteArrayValid (bytes : ByteStr) (textual : List ByteStr) : Result Bool :=
  if bytes ≠ ContractPermitted.contract.bytes ∧
      bytes ≠ ContractPermitted.contractWithoutSplit.bytes then .ok false
  else do
    let names ← textualFromBytes textual
    let checks ← names.mapM identifierCheck
    .ok (checks.all id)

/-- `Contract.fromBytes`: whatever goes wrong inside is an invalid contract. -/
def fromBytes (bytes : ByteStr) : Result Contract :=
  let contract := do
    let contract ← fieldsFromBytes bytes
    if ← isByteArrayValid bytes contract.textual then return contract
    left .invalidContract
  match contract with
  | .ok contract => .ok contract
  | .error _ => left .invalidContract

/-- The two contracts are read back, and their bytes fit the length they are written with. -/
theorem permitted_evaluates :
    (fromBytes ContractPermitted.contract.bytes = .ok ContractPermitted.contract ∧
      ContractPermitted.contract.bytes.length ≤ 32767) ∧
    fromBytes ContractPermitted.contractWithoutSplit.bytes
      = .ok ContractPermitted.contractWithoutSplit ∧
    ContractPermitted.contractWithoutSplit.bytes.length ≤ 32767 := by
  decide +kernel

theorem fromBytes_contract :
    fromBytes ContractPermitted.contract.bytes = .ok ContractPermitted.contract :=
  permitted_evaluates.1.1

theorem fromBytes_contractWithoutSplit :
    fromBytes ContractPermitted.contractWithoutSplit.bytes
      = .ok ContractPermitted.contractWithoutSplit :=
  permitted_evaluates.2.1

end Contract

end Vsys
