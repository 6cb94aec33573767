import Vsys.Opc.Operations

/-!
# Running a contract function

`OpcDiffer` dispatches on the opcode, and `OpcFuncDiffer` runs the opcodes of a function one after
another, each against the state the earlier ones left.
-/

namespace Vsys

open Lib

variable [Platform]

/-- The outcome of an opcode that writes: the stack stays as it is. -/
def keepingData (data : List DataEntry) (r : Result OpcDiff) :
    Result (OpcDiff × List DataEntry) := do
  let opcDiff ← r
  .ok (opcDiff, data)

/-- The outcome of an opcode that reads: the state stays as it is. -/
def keepingState (r : Result (List DataEntry)) : Result (OpcDiff × List DataEntry) := do
  let data ← r
  .ok (OpcDiff.empty, data)

/-- `OpcDiffer.apply`. -/
def OpcDiffer.apply (context : ExecutionContext) (opc : ByteStr) (data : List DataEntry) :
    Result (OpcDiff × List DataEntry) :=
  match opc with
  | [] => raise .noSuchElement
  | opcType :: tail =>
      match opcType with
      | 1 => keepingData data (AssertOpcDiff.parseBytes context tail data)
      | 2 => keepingState (LoadOpcDiff.parseBytes context tail data)
      | 3 => keepingData data (CDBVOpcDiff.parseBytes context tail data)
      | 4 => keepingState (CDBVROpcDiff.parseBytes context tail data)
      | 5 => keepingData data (TDBOpcDiff.parseBytes context tail data)
      | 6 => keepingState (TDBROpcDiff.parseBytes context tail data)
      | 7 => keepingData data (TDBAOpcDiff.parseBytes context tail data)
      | 8 => keepingState (TDBAROpcDiff.parseBytes context tail data)
      | 9 => keepingState (ReturnOpcDiff.parseBytes tail)
      | _ => left .contractUnsupportedOPC

namespace OpcFuncDiffer

/-- `OpcFuncDiffer.fromBytes`: the index, the type byte, the return types, the parameter types and
the opcode lines of a function. -/
def fromBytes (bytes : ByteStr) : Result (Int16 × Byte × ByteStr × ByteStr × List ByteStr) := do
  let funcIdx ← Shorts.fromByteArray (slice bytes 0 2)
  let funcType ← getOrRaise .indexOutOfBounds bytes[2]?
  let (listReturnTypes, listReturnTypeEnd) ← Deser.parseArraySize bytes 3
  let (listParaTypes, listParaTypeEnd) ← Deser.parseArraySize bytes listReturnTypeEnd
  let (listOpcLinesBytes, _) ← Deser.parseArraySize bytes listParaTypeEnd
  let listOpcLines ← Deser.parseArrays listOpcLinesBytes
  .ok (funcIdx, funcType, listReturnTypes, listParaTypes, listOpcLines)

/-- The state an opcode sees: the function's effect so far over the state it started from. -/
def stateSoFar (context : ExecutionContext) (d : OpcDiff) : StateView :=
  CompositeStateReader.view context.state (d.asBlockDiff context.height context.transaction)

/-- One opcode of the fold: run on the state so far, with its effect added. -/
def step (context : ExecutionContext) (st : OpcDiff × List DataEntry) (opc : ByteStr) :
    Result (OpcDiff × List DataEntry) := do
  let (opcDiff, d) ←
    OpcDiffer.apply { context with state := stateSoFar context st.1 } opc st.2
  .ok (st.1.combine opcDiff, d)

/-- `OpcFuncDiffer.apply`. -/
def apply (context : ExecutionContext) (data : List DataEntry) : Result OpcDiff :=
  match fromBytes context.opcFunc with
  | .error _ => left .contractInvalidFunction
  | .ok (_, _, _, listParaTypes, listOpcLines) =>
      if ¬ DataType.checkTypes listParaTypes (data.map fun d => d.dataType.id) then
        left .contractDataTypeMismatch
      else if listOpcLines.all fun opc => opc.length < 2 then left .contractInvalidOPCData
      else do
        let (opcDiff, _) ← listOpcLines.foldlM (step context) (OpcDiff.empty, data)
        .ok opcDiff

end OpcFuncDiffer

namespace ExecutionContext

/-- `tx.proofs.proofs.map(x => EllipticCurve25519Proof.fromBytes(x.bytes.arr).toOption.get)`. -/
def signersOf (proofs : Proofs) : Result (List PublicKeyAccount) :=
  proofs.proofs.mapM fun x => do
    let proof ← rightGet (EllipticCurve25519Proof.fromBytes x.bytes)
    .ok proof.publicKey

/-- `ExecutionContext.fromRegConTx`. -/
def fromRegConTx (s : StateView) (height : Nat) (tx : RegisterContractTransaction.Checked) :
    Result ExecutionContext := do
  let signers ← signersOf tx.proofs
  let isTrigger (a : ByteStr) : Bool := a[2]? = some 0
  .ok { signers := signers
        state := s
        height := height
        transaction := .registerContract tx
        contractId := tx.contractId
        opcFunc := (tx.contract.trigger.find? isTrigger).getD []
        stateVar := tx.contract.stateVar
        description := Deser.serilizeString tx.description }

/-- `ExecutionContext.fromExeConTx`. -/
def fromExeConTx (s : StateView) (height : Nat) (tx : ExecuteContractFunctionTransaction.Checked) :
    Result ExecutionContext := do
  let signers ← signersOf tx.proofs
  match ← s.contractContent tx.contractId.bytes with
  | some (_, _, contract) =>
      match if 0 ≤ tx.funcIdx then contract.descriptor[tx.funcIdx.toInt.toNat]? else none with
      | some opcFunc =>
          .ok { signers := signers
                state := s
                height := height
                transaction := .executeContractFunction tx
                contractId := tx.contractId
                opcFunc := opcFunc
                stateVar := contract.stateVar
                description := tx.attachment }
      | none => left .invalidFunctionIndex
  | none => left .invalidContractAddress

end ExecutionContext

end Vsys
