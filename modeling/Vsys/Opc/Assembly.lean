import Vsys.Opc.Differ
import Vsys.Transaction.Fields

/-!
# Contracts and functions read back from their bytes

A contract is a list of nested arrays with 2-byte lengths, and so is each of its functions.  The
assembler codes the opcode lines of a function on its own; they are arrays of arrays all the same,
so whatever is assembled is read back as it was.
-/

namespace Vsys

open Lib

namespace Deser

variable {bs : List ByteStr}

/-- Few arrays, each short enough for its length. -/
structure Fits (bs : List ByteStr) : Prop where
  count : bs.length ≤ 32767
  arrays : ∀ b ∈ bs, b.length ≤ 32767

theorem length_serializeArrays (bs : List ByteStr) :
    (serializeArrays bs).length = 2 + (bs.map fun b => b.length + 2).sum := by
  have hlengths : (bs.map serializeArray).map List.length = bs.map fun b => b.length + 2 := by
    rw [List.map_map]
    exact List.map_congr_left fun b _ => (length_serializeArray b).trans (Nat.add_comm _ _)
  rw [serializeArrays, List.length_append, Shorts.length_toByteArray, List.length_flatten, hlengths]

/-- Arrays that fit a length together fit theirs one by one. -/
theorem fits_of_length (h : (serializeArrays bs).length ≤ 32767) : Fits bs := by
  rw [length_serializeArrays] at h
  refine ⟨?_, fun b hb => ?_⟩
  · have hcount := List.length_le_sum_of_one_le (bs.map fun b => b.length + 2) fun n hn => by
      obtain ⟨b, -, rfl⟩ := List.mem_map.mp hn
      omega
    rw [List.length_map] at hcount
    omega
  · have hmem := List.le_sum_of_mem (List.mem_map_of_mem (f := fun b => b.length + 2) hb)
    omega

theorem Fits.parseArrays (h : Fits bs) : parseArrays (serializeArrays bs) = .ok bs :=
  parseArrays_serializeArrays h.count h.arrays

end Deser

namespace Contract

variable {c : Contract}

/-- A contract whose parts fit their lengths. -/
structure Fits (c : Contract) : Prop where
  languageCode : c.languageCode.length = 4
  languageVersion : c.languageVersion.length = 4
  trigger : (Deser.serializeArrays c.trigger).length ≤ 32767
  descriptor : (Deser.serializeArrays c.descriptor).length ≤ 32767
  stateVar : (Deser.serializeArrays c.stateVar).length ≤ 32767
  textual : Deser.Fits c.textual

/-- The fields of a contract are read back from its bytes. -/
theorem Fits.fieldsFromBytes_bytes (h : c.Fits) : fieldsFromBytes c.bytes = .ok c := by
  have hparts : c.bytes = [c.languageCode, c.languageVersion,
      Deser.serializeArray (Deser.serializeArrays c.trigger),
      Deser.serializeArray (Deser.serializeArrays c.descriptor),
      Deser.serializeArray (Deser.serializeArrays c.stateVar),
      Deser.serializeArrays c.textual].flatten := by
    simp [bytes]
  obtain ⟨hcode, hversion, htrigger, hdescriptor, hstateVar, htextual, hend⟩ := parts_of_eq hparts
  have hcodeLength := h.languageCode
  have hversionLength := h.languageVersion
  simp only [Deser.length_serializeArray, hcodeLength, hversionLength, Parts]
    at hversion htrigger hdescriptor hstateVar htextual hend
  rw [fieldsFromBytes, htrigger.array h.trigger (by omega)]
  simp only [ok_bind, (Deser.fits_of_length h.trigger).parseArrays]
  rw [hdescriptor.array h.descriptor (by omega)]
  simp only [ok_bind, (Deser.fits_of_length h.descriptor).parseArrays]
  rw [hstateVar.array h.stateVar (by omega)]
  simp only [ok_bind, (Deser.fits_of_length h.stateVar).parseArrays]
  rw [htextual.slice (by omega) (by omega), h.textual.parseArrays, ok_bind,
    hcode.slice (by omega) (by omega), hversion.slice (by omega) (by omega)]

end Contract

namespace ContractPermitted

variable {ids indexInput : List ByteStr}

/-- The opcode lines: each opcode followed by its operand indices. -/
def opcLinesOf (ids indexInput : List ByteStr) : List ByteStr :=
  List.zipWith (· ++ ·) ids indexInput

/-- When every opcode has its operands, the opcode lines are coded as an array of arrays. -/
theorem listOpc_eq (h : ids.length ≤ indexInput.length) :
    listOpc ids indexInput
      = Deser.serializeArray (Deser.serializeArrays (opcLinesOf ids indexInput)) := by
  have hlines : (ids.zip indexInput).map (fun x => x.1 ++ x.2) = opcLinesOf ids indexInput :=
    List.map_zip_eq_zipWith
  have hcount : (opcLinesOf ids indexInput).length = ids.length := by
    rw [opcLinesOf, List.length_zipWith, Nat.min_eq_left h]
  rw [Deser.serializeArray, Deser.length_serializeArrays, Deser.serializeArrays, hcount, listOpc,
    hlines, Nat.add_comm 2, List.append_assoc]
  rfl

end ContractPermitted

namespace OpcFuncDiffer

open ContractPermitted

variable {ids indexInput : List ByteStr} {listReturnTypes listParaTypes : ByteStr}

/-- A function is read back as it was assembled. -/
theorem fromBytes_assembled (funcIdx : Int16) (funcType : Byte)
    (hreturn : listReturnTypes.length ≤ 32767) (hpara : listParaTypes.length ≤ 32767)
    (hoperands : ids.length ≤ indexInput.length)
    (hlines : (Deser.serializeArrays (opcLinesOf ids indexInput)).length ≤ 32767) :
    fromBytes (Shorts.toByteArray funcIdx ++ [funcType]
        ++ protoType listReturnTypes listParaTypes ++ listOpc ids indexInput)
      = .ok (funcIdx, funcType, listReturnTypes, listParaTypes, opcLinesOf ids indexInput) := by
  generalize hfunction : Shorts.toByteArray funcIdx ++ [funcType]
    ++ protoType listReturnTypes listParaTypes ++ listOpc ids indexInput = function
  have hparts : function = [Shorts.toByteArray funcIdx, [funcType],
      Deser.serializeArray listReturnTypes, Deser.serializeArray listParaTypes,
      Deser.serializeArray (Deser.serializeArrays (opcLinesOf ids indexInput))].flatten := by
    rw [← hfunction, listOpc_eq hoperands, protoType]
    simp
  obtain ⟨hindex, htype, hreturnTypes, hparaTypes, hopcLines, -⟩ := parts_of_eq hparts
  simp only [Deser.length_serializeArray, Shorts.length_toByteArray, List.length_singleton]
    at htype hreturnTypes hparaTypes hopcLines
  have hhead := htype.head
  simp only [Nat.zero_add] at hhead
  rw [fromBytes, hindex.short (by omega) (by omega), ok_bind, hhead]
  simp only [getOrRaise, ok_bind]
  rw [hreturnTypes.array hreturn (by omega)]
  simp only [ok_bind]
  rw [hparaTypes.array hpara (by omega)]
  simp only [ok_bind]
  rw [hopcLines.array hlines (by omega)]
  simp only [ok_bind, (Deser.fits_of_length hlines).parseArrays]

end OpcFuncDiffer

open ContractPermitted in
/-- Arrays of arrays, contracts and functions that fit their lengths are read back as they were
written. -/
theorem encodings_read_back :
    (∀ bs, Deser.Fits bs → Deser.parseArrays (Deser.serializeArrays bs) = .ok bs) ∧
      (∀ c : Contract, c.Fits → Contract.fieldsFromBytes c.bytes = .ok c) ∧
      ∀ (funcIdx : Int16) (funcType : Byte) (listReturnTypes listParaTypes : ByteStr)
        (ids indexInput : List ByteStr), listReturnTypes.length ≤ 32767 →
        listParaTypes.length ≤ 32767 → ids.length ≤ indexInput.length →
        (Deser.serializeArrays (opcLinesOf ids indexInput)).length ≤ 32767 →
        OpcFuncDiffer.fromBytes (Shorts.toByteArray funcIdx ++ [funcType]
            ++ protoType listReturnTypes listParaTypes ++ listOpc ids indexInput)
          = .ok (funcIdx, funcType, listReturnTypes, listParaTypes, opcLinesOf ids indexInput) :=
  ⟨fun _ h => h.parseArrays, fun _ h => h.fieldsFromBytes_bytes,
    fun funcIdx funcType _ _ _ _ hreturn hpara hoperands hlines =>
      OpcFuncDiffer.fromBytes_assembled funcIdx funcType hreturn hpara hoperands hlines⟩

namespace Sample

open ContractPermitted

/-- The permitted contract fits its lengths. -/
theorem contract_fits : contract.Fits where
  languageCode := by decide +kernel
  languageVersion := by decide +kernel
  trigger := by decide +kernel
  descriptor := by decide +kernel
  stateVar := by decide +kernel
  textual := ⟨by decide +kernel, by decide +kernel⟩

/-- The permitted contract and its function `send` are read back. -/
theorem contract_read_back :
    Contract.fieldsFromBytes contract.bytes = .ok contract ∧
      OpcFuncDiffer.fromBytes (Shorts.toByteArray 4 ++ [0] ++ protoType [] [7, 3]
          ++ listOpc [[2, 2], [7, 3]] [[2], [2, 0, 1]])
        = .ok (4, 0, [], [7, 3], [[2, 2, 2], [7, 3, 2, 0, 1]]) :=
  ⟨encodings_read_back.2.1 contract contract_fits,
    encodings_read_back.2.2 4 0 [] [7, 3] [[2, 2], [7, 3]] [[2], [2, 0, 1]] (by decide) (by decide)
      (by decide) (by decide)⟩

end Sample

end Vsys
