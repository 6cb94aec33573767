import Vsys.Contract.Entries
import Vsys.Diffs.Atomicity

/-!
# When a contract function raises

An opcode raises where it reads a number, an address or a type from bytes that hold none, and a
function raises at the first line that does so on the stack and the state the lines before it leave.
-/

namespace Vsys

open Lib

namespace Raises

/-- A choice raises if the chosen side does. -/
theorem ite_iff {α : Type} {p : Prop} [Decidable p] {r r' : Result α} :
    Raises (if p then r else r') ↔ p ∧ Raises r ∨ ¬ p ∧ Raises r' := by
  split <;> simp [*]

end Raises

section Platform

variable [Platform]

/-- The bytes are those of an address. -/
def HoldsAddress (bytes : ByteStr) : Prop := ∃ a, Address.fromBytes bytes = .ok a

/-- An assert reads a number from too few bytes, in `gtEq0`, `ltInt64` and `ltEq` also from an entry
that is no amount, as their messages name the number; or it reads an address from too few. -/
inductive AssertOpcDiff.Crashes : Byte → List DataEntry → Prop
  | gtEq0 (v : DataEntry) (hshort : v.data.length < 8) : Crashes 1 [v]
  | ltEq (v1 v2 : DataEntry) (hshort : v2.data.length < 8 ∨
      v1.dataType = .amount ∧ v2.dataType = .amount ∧ v1.data.length < 8) : Crashes 2 [v1, v2]
  | ltInt64 (m : DataEntry) (hshort : m.data.length < 8) : Crashes 3 [m]
  | gt0 (v : DataEntry) (htype : v.dataType = .amount) (hshort : v.data.length < 8) : Crashes 4 [v]
  | eqAddress (add1 add2 : DataEntry) (htype : add1.dataType = .address ∧ add2.dataType = .address)
      (hshort : add1.data.length < 2 ∨ add2.data.length < 2) : Crashes 5 [add1, add2]
  | eqAmount (add1 add2 : DataEntry) (htype : add1.dataType = .amount ∧ add2.dataType = .amount)
      (hshort : add1.data.length < 8 ∨ add2.data.length < 8) : Crashes 5 [add1, add2]

/-- The type of a state variable is no number of a type, or an address is stored that is none. -/
inductive CDBVOpcDiff.Crashes (value : DataEntry) : ByteStr → Prop
  | type (index typeByte : Byte) (htype : DataType.fromByte typeByte = none) :
      Crashes value [index, typeByte]
  | address (index typeByte : Byte) (htype : DataType.fromByte typeByte = some .address)
      (hvalue : value.dataType = .address) (hdata : ¬ HoldsAddress value.data) :
      Crashes value [index, typeByte]

/-- A state variable has no type, or an unknown one, or its entry in the state cannot be read. -/
inductive CDBVROpcDiff.Crashes (context : ExecutionContext) (stack : List DataEntry)
    (pointer : Byte) : ByteStr → Prop
  | short (stateVar : ByteStr) (hshort : stateVar.length < 2) : Crashes context stack pointer stateVar
  | type (index typeByte : Byte) (rest : ByteStr) (htype : DataType.fromByte typeByte = none) :
      Crashes context stack pointer (index :: typeByte :: rest)
  | entry (index typeByte : Byte) (htype : (DataType.fromByte typeByte).isSome)
      (hpointer : ¬ pointerOutOfRange stack pointer)
      (hentry : Raises (context.state.contractInfo (stateVarKey context.contractId index))) :
      Crashes context stack pointer [index, typeByte]

/-- What an index says that names a token of the contract: its identifier. -/
structure NamesToken (context : ExecutionContext) (tokenIndex : DataEntry) (tokenID : ByteStr) :
    Prop where
  number : ∃ tokenNumber, Ints.fromByteArray tokenIndex.data = .ok tokenNumber ∧ 0 ≤ tokenNumber ∧
    tokenNumber < context.state.contractTokens context.contractId.bytes
  id : tokenIdOf context tokenIndex.data = .ok tokenID

/-- A number of a token is read from too few bytes. -/
inductive TDBOpcDiff.Crashes : Byte → List DataEntry → Prop
  | max (max unity desc : DataEntry)
      (htype : max.dataType = .amount ∧ unity.dataType = .amount ∧ desc.dataType = .shortText)
      (hshort : max.data.length < 8) : Crashes 1 [max, unity, desc]
  | unity (max unity desc : DataEntry) (maxValue : Int64)
      (htype : max.dataType = .amount ∧ unity.dataType = .amount ∧ desc.dataType = .shortText)
      (hmax : Longs.fromByteArray max.data = .ok maxValue) (hnonneg : 0 ≤ maxValue)
      (hshort : unity.data.length < 8) : Crashes 1 [max, unity, desc]
  | split (newUnity : DataEntry) (htype : newUnity.dataType = .amount)
      (hshort : newUnity.data.length < 8) : Crashes 2 [newUnity]
  | splitIndexed (newUnity tokenIndex : DataEntry)
      (htype : newUnity.dataType = .amount ∧ tokenIndex.dataType = .int32)
      (hshort : newUnity.data.length < 8 ∨ tokenIndex.data.length < 4) :
      Crashes 2 [newUnity, tokenIndex]

/-- An index of a token is too short, or the information on the token cannot be read. -/
inductive TDBROpcDiff.Crashes (context : ExecutionContext) (stack : List DataEntry)
    (pointer : Byte) (tokenIndex : DataEntry) (tdbrType : Byte) : Prop
  | index (hknown : tdbrType ∈ [(1 : Byte), 2, 3, 4]) (htype : tokenIndex.dataType = .int32)
      (hpointer : ¬ pointerOutOfRange stack pointer) (hshort : tokenIndex.data.length < 4)
  | info (key : TokenKey) (tokenID : ByteStr)
      (hkey : (tdbrType, key) ∈ [((1 : Byte), TokenKey.max), (3, .unity), (4, .desc)])
      (htype : tokenIndex.dataType = .int32) (hpointer : ¬ pointerOutOfRange stack pointer)
      (hnames : NamesToken context tokenIndex tokenID)
      (hinfo : Raises (context.state.tokenInfo (tokenKey tokenID key)))

namespace TDBAOpcDiff

/-- A number is read from too few bytes, the maximum of the token cannot be read, or a deposit that
passes all checks is made to an address that is none. -/
inductive DepositCrashes (context : ExecutionContext) (issuer amount tokenIndex : DataEntry) : Prop
  | short (hshort : tokenIndex.data.length < 4 ∨ amount.data.length < 8)
  | max (tokenID : ByteStr) (hid : tokenIdOf context tokenIndex.data = .ok tokenID)
      (hmax : Raises (context.state.tokenInfo (tokenKey tokenID .max)))
  | shortMax (tokenID : ByteStr) (maxInfo : DataEntry)
      (hid : tokenIdOf context tokenIndex.data = .ok tokenID)
      (hinfo : context.state.tokenInfo (tokenKey tokenID .max) = .ok (some maxInfo))
      (hmax : maxInfo.data.length < 8)
  | issuer (tokenID : ByteStr) (depositAmount tokenMax : Int64) (maxInfo : Option DataEntry)
      (hnames : NamesToken context tokenIndex tokenID)
      (hamount : Longs.fromByteArray amount.data = .ok depositAmount)
      (hinfo : context.state.tokenInfo (tokenKey tokenID .max) = .ok maxInfo)
      (hmax : Longs.fromByteArray (maxInfo.getD ⟨Longs.toByteArray 0, .amount⟩).data = .ok tokenMax)
      (hexact : (addExact depositAmount
        (context.state.tokenAccountBalance (tokenKey tokenID .total))).isSome)
      (hnonneg : 0 ≤ depositAmount)
      (hle : depositAmount + context.state.tokenAccountBalance (tokenKey tokenID .total) ≤ tokenMax)
      (hissuer : ¬ HoldsAddress issuer.data)

/-- A number is read from too few bytes, or a withdrawal that passes all checks is made from an
address that is none. -/
inductive WithdrawCrashes (context : ExecutionContext) (issuer amount tokenIndex : DataEntry) : Prop
  | short (hshort : tokenIndex.data.length < 4 ∨ amount.data.length < 8)
  | issuer (tokenID : ByteStr) (withdrawAmount : Int64)
      (hnames : NamesToken context tokenIndex tokenID)
      (hamount : Longs.fromByteArray amount.data = .ok withdrawAmount)
      (hle : withdrawAmount ≤ context.state.tokenAccountBalance (balanceKey tokenID issuer.data))
      (hnonneg : 0 ≤ withdrawAmount) (hissuer : ¬ HoldsAddress issuer.data)

/-- A number is read from too few bytes, or a transfer that passes all checks has an address that is
none. -/
inductive TransferCrashes (context : ExecutionContext) (sender recipient amount tokenIndex : DataEntry) :
    Prop
  | short (hshort : tokenIndex.data.length < 4 ∨ amount.data.length < 8)
  | party (tokenID : ByteStr) (transferAmount : Int64)
      (hnames : NamesToken context tokenIndex tokenID)
      (hamount : Longs.fromByteArray amount.data = .ok transferAmount)
      (hle : transferAmount ≤ context.state.tokenAccountBalance (balanceKey tokenID sender.data))
      (hexact : (addExact transferAmount
        (context.state.tokenAccountBalance (balanceKey tokenID recipient.data))).isSome)
      (hnonneg : 0 ≤ transferAmount)
      (hparty : ¬ HoldsAddress sender.data ∨ ¬ HoldsAddress recipient.data)

/-- The operands have the types the opcode asks for, and it crashes on them. -/
inductive Crashes (context : ExecutionContext) : Byte → List DataEntry → Prop
  | deposit (issuer amount : DataEntry) (htype : issuer.dataType = .address ∧ amount.dataType = .amount)
      (h : DepositCrashes context issuer amount firstToken) : Crashes context 1 [issuer, amount]
  | depositIndexed (issuer amount tokenIndex : DataEntry)
      (htype : issuer.dataType = .address ∧ amount.dataType = .amount ∧ tokenIndex.dataType = .int32)
      (h : DepositCrashes context issuer amount tokenIndex) :
      Crashes context 1 [issuer, amount, tokenIndex]
  | withdraw (issuer amount : DataEntry)
      (htype : issuer.dataType = .address ∧ amount.dataType = .amount)
      (h : WithdrawCrashes context issuer amount firstToken) : Crashes context 2 [issuer, amount]
  | withdrawIndexed (issuer amount tokenIndex : DataEntry)
      (htype : issuer.dataType = .address ∧ amount.dataType = .amount ∧ tokenIndex.dataType = .int32)
      (h : WithdrawCrashes context issuer amount tokenIndex) :
      Crashes context 2 [issuer, amount, tokenIndex]
  | transfer (sender recipient amount : DataEntry)
      (htype : sender.dataType = .address ∧ recipient.dataType = .address ∧
        amount.dataType = .amount)
      (h : TransferCrashes context sender recipient amount firstToken) :
      Crashes context 3 [sender, recipient, amount]
  | transferIndexed (sender recipient amount tokenIndex : DataEntry)
      (htype : sender.dataType = .address ∧ recipient.dataType = .address ∧
        amount.dataType = .amount ∧ tokenIndex.dataType = .int32)
      (h : TransferCrashes context sender recipient amount tokenIndex) :
      Crashes context 3 [sender, recipient, amount, tokenIndex]

end TDBAOpcDiff

/-- A line has no opcode, or no code after a known opcode, or its opcode crashes on the local
variables it names. -/
inductive OpcDiffer.Crashes (context : ExecutionContext) (stack : List DataEntry) : ByteStr → Prop
  | empty : Crashes context stack []
  | noCode (opcType : Byte) (hknown : opcType ∈ [(1 : Byte), 2, 3, 4, 5, 6, 7, 8, 9]) : Crashes context stack [opcType]
  | assert (assertType : Byte) (indices : ByteStr) (operands : List DataEntry)
      (hoperands : localVariables stack indices = some operands)
      (h : AssertOpcDiff.Crashes assertType operands) : Crashes context stack (1 :: assertType :: indices)
  | set (var index : Byte) (stateVar : ByteStr) (value : DataEntry)
      (hvar : stateVariable context.stateVar var = some stateVar)
      (hvalue : localVariable stack index = some value) (h : CDBVOpcDiff.Crashes value stateVar) :
      Crashes context stack [3, 1, var, index]
  | get (var pointer : Byte) (stateVar : ByteStr)
      (hvar : stateVariable context.stateVar var = some stateVar)
      (h : CDBVROpcDiff.Crashes context stack pointer stateVar) :
      Crashes context stack [4, 1, var, pointer]
  | tdb (tdbType : Byte) (indices : ByteStr) (operands : List DataEntry)
      (hoperands : localVariables stack indices = some operands)
      (h : TDBOpcDiff.Crashes tdbType operands) : Crashes context stack (5 :: tdbType :: indices)
  | tdbr (tdbrType pointer : Byte) (h : TDBROpcDiff.Crashes context stack pointer firstToken tdbrType) :
      Crashes context stack [6, tdbrType, pointer]
  | tdbrIndexed (tdbrType index pointer : Byte) (tokenIndex : DataEntry)
      (hindex : localVariable stack index = some tokenIndex)
      (h : TDBROpcDiff.Crashes context stack pointer tokenIndex tdbrType) :
      Crashes context stack [6, tdbrType, index, pointer]
  | tdba (tdbaType : Byte) (indices : ByteStr) (operands : List DataEntry)
      (hoperands : localVariables stack indices = some operands)
      (h : TDBAOpcDiff.Crashes context tdbaType operands) :
      Crashes context stack (7 :: tdbaType :: indices)
  | tdbar (index token pointer : Byte) (address tokenIndex : DataEntry)
      (hoperands : localVariables stack [index, token] = some [address, tokenIndex])
      (htype : address.dataType = .address ∧ tokenIndex.dataType = .int32)
      (hpointer : ¬ pointerOutOfRange stack pointer) (hshort : tokenIndex.data.length < 4) :
      Crashes context stack [8, 1, index, token, pointer]

variable {context : ExecutionContext} {stack : List DataEntry}

/-- A line that keeps the stack raises if its diff does. -/
@[simp]
theorem Raises.keepingData_iff {r : Result OpcDiff} :
    Raises (keepingData stack r) ↔ Raises r := by
  simp [keepingData]

/-- A line that keeps the state raises if its stack does. -/
@[simp]
theorem Raises.keepingState_iff {r : Result (List DataEntry)} :
    Raises (keepingState r) ↔ Raises r := by
  simp [keepingState]

/-- Every index makes an identifier. -/
theorem tokenIdOf_eq_ok (context : ExecutionContext) (index : ByteStr) :
    ∃ tokenID, tokenIdOf context index = .ok tokenID := by
  rw [tokenIdOf, ContractAccount.tokenIdFromBytes, context.contractId.valid]
  exact ⟨_, rfl⟩

/-- Getting an address out of its parsing raises unless the bytes are one. -/
theorem Raises.rightGet_address_iff {bytes : ByteStr} :
    Raises (rightGet (Address.fromBytes bytes)) ↔ ¬ HoldsAddress bytes :=
  Raises.rightGet_iff

namespace AssertOpcDiff

/-- An assertion on an amount raises on fewer than eight bytes. -/
theorem raises_assertAmount_iff {check : Int64 → Bool} {text : String} {v : DataEntry} :
    Raises (assertAmount check text v) ↔ v.data.length < 8 := by
  simp [assertAmount, Raises.ite_iff, Raises.long_iff]

/-- A comparison raises on an amount with too few bytes. -/
theorem raises_ltEq_iff {v1 v2 : DataEntry} : Raises (ltEq v1 v2) ↔ v2.data.length < 8 ∨
    v1.dataType = .amount ∧ v2.dataType = .amount ∧ v1.data.length < 8 := by
  rw [ltEq]
  split
  · rename_i htypes
    by_cases hfirst : v1.data.length < 8
    · simp [Raises.long_iff, hfirst, htypes]
    · obtain ⟨value1, hvalue1⟩ := Longs.exists_ok (Nat.le_of_not_lt hfirst)
      simp [Raises.ite_iff, Raises.long_iff, hvalue1, hfirst]
  · rename_i htypes
    have hmixed : ¬ (v1.dataType = .amount ∧ v2.dataType = .amount ∧ v1.data.length < 8) :=
      fun h => htypes ⟨h.1, h.2.1⟩
    simp [Raises.long_iff, hmixed]

/-- Comparing two addresses raises on one without its first two bytes. -/
theorem raises_sameAddress_iff {add1 add2 : ByteStr} :
    Raises (sameAddress add1 add2) ↔ add1.length < 2 ∨ add2.length < 2 := by
  rw [← @Raises.address_iff _ add1, ← @Raises.address_iff _ add2, sameAddress]
  generalize Address.fromBytes add1 = first
  generalize Address.fromBytes add2 = second
  match first, second with
  | .error (.raised _), _ => simp
  | .ok _, .ok _ => simp
  | .ok _, .error (.left _) => simp
  | .ok _, .error (.raised _) => simp
  | .error (.left _), .ok _ => simp
  | .error (.left _), .error (.left _) => simp
  | .error (.left _), .error (.raised _) => simp

/-- An equality raises on addresses or amounts with too few bytes. -/
theorem raises_eq_iff {add1 add2 : DataEntry} : Raises (eq add1 add2) ↔
    add1.dataType = .address ∧ add2.dataType = .address ∧
      (add1.data.length < 2 ∨ add2.data.length < 2) ∨
    add1.dataType = .amount ∧ add2.dataType = .amount ∧
      (add1.data.length < 8 ∨ add2.data.length < 8) := by
  rw [eq]
  by_cases haddress : add1.dataType = .address ∧ add2.dataType = .address
  · simp [haddress, Raises.ite_iff, raises_sameAddress_iff]
  · simp only [haddress]
    by_cases hamount : add1.dataType = .amount ∧ add2.dataType = .amount
    · by_cases hfirst : add1.data.length < 8
      · simp [hamount, hfirst, Raises.long_iff]
      · obtain ⟨value1, hvalue1⟩ := Longs.exists_ok (Nat.le_of_not_lt hfirst)
        simp [hamount, hfirst, hvalue1, Raises.ite_iff, Raises.long_iff]
    · have hnone (p : Prop) : ¬ (add1.dataType = .amount ∧ add2.dataType = .amount ∧ p) :=
        fun h => hamount ⟨h.1, h.2.1⟩
      have hnone' (p : Prop) : ¬ (add1.dataType = .address ∧ add2.dataType = .address ∧ p) :=
        fun h => haddress ⟨h.1, h.2.1⟩
      simp [hamount, hnone, hnone']

/-- The check of the caller does not raise while there is a signer. -/
theorem raises_isOrigin {error : ValidationError} {address : DataEntry}
    (hsigners : context.signers ≠ []) : ¬ Raises (isOrigin error context address) := by
  simp [isOrigin, Raises.ite_iff, hsigners]

/-- An assertion line raises exactly on operands that it crashes on. -/
theorem raises_parseBytes_iff (hsigners : context.signers ≠ []) {assertType : Byte}
    {indices : ByteStr} : Raises (parseBytes context (assertType :: indices) stack) ↔
      ∃ operands, localVariables stack indices = some operands ∧ Crashes assertType operands := by
  constructor
  · intro h
    simp only [parseBytes] at h
    split at h <;> rename_i hoperands
    · exact ⟨_, hoperands, .gtEq0 _ (raises_assertAmount_iff.mp h)⟩
    · exact ⟨_, hoperands, .ltEq _ _ (raises_ltEq_iff.mp h)⟩
    · exact ⟨_, hoperands, .ltInt64 _ (raises_assertAmount_iff.mp h)⟩
    · rw [gt0, Raises.ite_iff, raises_assertAmount_iff] at h
      obtain ⟨htype, hshort⟩ | ⟨-, h⟩ := h
      · exact ⟨_, hoperands, .gt0 _ htype hshort⟩
      · exact absurd h Raises.left
    · obtain ⟨hadd1, hadd2, hshort⟩ | ⟨hadd1, hadd2, hshort⟩ := raises_eq_iff.mp h
      · exact ⟨_, hoperands, .eqAddress _ _ ⟨hadd1, hadd2⟩ hshort⟩
      · exact ⟨_, hoperands, .eqAmount _ _ ⟨hadd1, hadd2⟩ hshort⟩
    · exact absurd h (raises_isOrigin hsigners)
    · exact absurd h (raises_isOrigin hsigners)
    · exact absurd h Raises.left
  · rintro ⟨operands, hoperands, h⟩
    simp only [parseBytes, hoperands]
    cases h with
    | gtEq0 v hshort => exact raises_assertAmount_iff.mpr hshort
    | ltEq v1 v2 hshort => exact raises_ltEq_iff.mpr hshort
    | ltInt64 m hshort => exact raises_assertAmount_iff.mpr hshort
    | gt0 v htype hshort =>
        show Raises (gt0 v)
        rw [gt0, if_pos htype]
        exact raises_assertAmount_iff.mpr hshort
    | eqAddress add1 add2 htype hshort =>
        exact raises_eq_iff.mpr (.inl ⟨htype.1, htype.2, hshort⟩)
    | eqAmount add1 add2 htype hshort =>
        exact raises_eq_iff.mpr (.inr ⟨htype.1, htype.2, hshort⟩)

end AssertOpcDiff

/-- A loading line raises exactly without its second byte. -/
theorem LoadOpcDiff.raises_parseBytes_iff (hsigners : context.signers ≠ []) {bytes : ByteStr} :
    Raises (parseBytes context bytes stack) ↔ bytes = [] := by
  have hsigner (pointer : Byte) : ¬ Raises (signer context stack pointer) := by
    simp [signer, Raises.ite_iff, hsigners]
  match bytes with
  | [] => simp [parseBytes]
  | _ :: _ =>
      unfold parseBytes
      split <;> simp_all

/-- Writing a state variable raises exactly where it crashes. -/
theorem CDBVOpcDiff.raises_set_iff {stateVar : ByteStr} {value : DataEntry} :
    Raises (set context stateVar value) ↔ Crashes value stateVar := by
  constructor
  · intro h
    match stateVar with
    | [] => simp [set, Contract.checkStateVar] at h
    | [_] => simp [set, Contract.checkStateVar] at h
    | _ :: _ :: _ :: _ => simp [set, Contract.checkStateVar] at h
    | [index, typeByte] =>
        cases htype : DataType.fromByte typeByte with
        | none => exact .type index typeByte htype
        | some stateVarType =>
            simp [set, Contract.checkStateVar, htype, getOrRaise, Raises.ite_iff,
              Raises.rightGet_address_iff] at h
            obtain ⟨heq, hvalue, hdata⟩ := h
            rw [← heq, hvalue] at htype
            exact .address index typeByte htype hvalue hdata
  · intro h
    cases h with
    | type index typeByte htype => simp [set, Contract.checkStateVar, htype, getOrRaise]
    | address index typeByte htype hvalue hdata =>
        simp [set, Contract.checkStateVar, htype, hvalue, getOrRaise, Raises.rightGet_address_iff,
          hdata]

/-- Reading a state variable raises exactly where it crashes. -/
theorem CDBVROpcDiff.raises_get_iff {stateVar : ByteStr} {pointer : Byte} :
    Raises (get context stateVar stack pointer) ↔ Crashes context stack pointer stateVar := by
  constructor
  · intro h
    match stateVar with
    | [] => exact .short _ (Nat.succ_pos 1)
    | [_] => exact .short _ (Nat.lt_succ_self 1)
    | index :: typeByte :: rest =>
        cases htype : DataType.fromByte typeByte with
        | none => exact .type index typeByte rest htype
        | some dataType =>
            match rest with
            | _ :: _ => simp [get, Contract.checkStateVar, htype, getOrRaise] at h
            | [] =>
                simp [get, Contract.checkStateVar, htype, getOrRaise, Raises.ite_iff] at h
                obtain ⟨hpointer, hentry⟩ := h
                refine .entry index typeByte (by rw [htype]; rfl) (by simpa using hpointer) ?_
                rcases hentry with hentry | ⟨info, -, hinfo⟩
                · exact hentry
                · cases info with
                  | none => exact absurd hinfo Raises.left
                  | some v => exact absurd hinfo Raises.ok
  · intro h
    cases h with
    | short stateVar hshort =>
        have hnone : stateVar[1]? = none := List.getElem?_eq_none (Nat.le_of_lt_succ hshort)
        simp [get, hnone]
    | type index typeByte rest htype => simp [get, htype, getOrRaise]
    | entry index typeByte htype hpointer hentry =>
        obtain ⟨dataType, htype⟩ := Option.isSome_iff_exists.mp htype
        simp [get, Contract.checkStateVar, htype, getOrRaise, hpointer, hentry]
namespace TDBOpcDiff

/-- Creating a token raises exactly on amounts with too few bytes. -/
theorem raises_newToken_iff {max unity desc : DataEntry} :
    Raises (newToken context max unity desc) ↔ Crashes 1 [max, unity, desc] := by
  obtain ⟨tokenID, hid⟩ := tokenIdOf_eq_ok context
    (Ints.toByteArray (context.state.contractTokens context.contractId.bytes))
  constructor
  · intro h
    rw [newToken] at h
    split at h
    · exact absurd h Raises.left
    · rename_i htype
      simp only [not_or, not_not] at htype
      by_cases hshort : max.data.length < 8
      · exact .max max unity desc htype hshort
      · obtain ⟨maxValue, hmax⟩ := Longs.exists_ok (Nat.le_of_not_lt hshort)
        simp [hmax, hid, Raises.ite_iff, Raises.long_iff] at h
        exact .unity max unity desc maxValue htype hmax h.1 h.2
  · intro h
    cases h with
    | max max unity desc htype hshort =>
        simp [newToken, htype, Raises.long_iff, hshort]
    | unity max unity desc maxValue htype hmax hnonneg hshort =>
        simp [newToken, htype, hmax, Raises.ite_iff, hnonneg, Raises.long_iff, hshort]

/-- Splitting a token raises exactly on a unity or an index with too few bytes. -/
theorem raises_split_iff {newUnity tokenIndex : DataEntry} :
    Raises (split context newUnity tokenIndex) ↔ (newUnity.dataType = .amount ∧
      tokenIndex.dataType = .int32) ∧ (newUnity.data.length < 8 ∨ tokenIndex.data.length < 4) := by
  obtain ⟨tokenID, hid⟩ := tokenIdOf_eq_ok context tokenIndex.data
  rw [split, Raises.ite_iff]
  by_cases hindex : tokenIndex.data.length < 4
  · simp [Raises.int_iff, hindex]
  · obtain ⟨tokenNumber, hnumber⟩ := Ints.exists_ok (Nat.le_of_not_lt hindex)
    simp [hnumber, hid, hindex, Raises.ite_iff, Raises.long_iff]

/-- A line on a token raises exactly on operands that it crashes on. -/
theorem raises_parseBytes_iff {tdbType : Byte} {indices : ByteStr} :
    Raises (parseBytes context (tdbType :: indices) stack) ↔
      ∃ operands, localVariables stack indices = some operands ∧ Crashes tdbType operands := by
  constructor
  · intro h
    simp only [parseBytes] at h
    split at h <;> rename_i hoperands
    · exact ⟨_, hoperands, raises_newToken_iff.mp h⟩
    · obtain ⟨htype, hshort⟩ := raises_split_iff.mp h
      exact ⟨_, hoperands, .split _ htype.1 (hshort.resolve_right (by decide))⟩
    · obtain ⟨htype, hshort⟩ := raises_split_iff.mp h
      exact ⟨_, hoperands, .splitIndexed _ _ htype hshort⟩
    · exact absurd h Raises.left
  · rintro ⟨operands, hoperands, h⟩
    simp only [parseBytes, hoperands]
    cases h with
    | max max unity desc htype hshort =>
        exact raises_newToken_iff.mpr (.max max unity desc htype hshort)
    | unity max unity desc maxValue htype hmax hnonneg hshort =>
        exact raises_newToken_iff.mpr (.unity max unity desc maxValue htype hmax hnonneg hshort)
    | split newUnity htype hshort =>
        exact raises_split_iff.mpr ⟨⟨htype, rfl⟩, .inl hshort⟩
    | splitIndexed newUnity tokenIndex htype hshort => exact raises_split_iff.mpr ⟨htype, hshort⟩

end TDBOpcDiff

/-- What an index names, once it is read. -/
theorem namesToken_iff {tokenIndex : DataEntry} {tokenID tokenID' : ByteStr} {tokenNumber : Int32}
    (hnumber : Ints.fromByteArray tokenIndex.data = .ok tokenNumber)
    (hid : tokenIdOf context tokenIndex.data = .ok tokenID) :
    NamesToken context tokenIndex tokenID' ↔
      ¬ (context.state.contractTokens context.contractId.bytes ≤ tokenNumber ∨ tokenNumber < 0) ∧
        tokenID' = tokenID := by
  rw [not_or, Int32.not_le, Int32.not_lt]
  constructor
  · rintro ⟨⟨tokenNumber', hnumber', hnonneg, hlt⟩, hid'⟩
    obtain rfl := Except.ok.inj (hnumber'.symm.trans hnumber)
    exact ⟨⟨hlt, hnonneg⟩, Except.ok.inj (hid'.symm.trans hid)⟩
  · rintro ⟨⟨hlt, hnonneg⟩, rfl⟩
    exact ⟨⟨tokenNumber, hnumber, hnonneg, hlt⟩, hid⟩

namespace TDBROpcDiff

variable {pointer : Byte} {tokenIndex : DataEntry}

/-- Reading an entry of a token raises on an index with too few bytes, or where the entry's own
reading does. -/
theorem raises_readToken_iff {value : ByteStr → Result DataEntry} :
    Raises (readToken context tokenIndex stack pointer value) ↔
      tokenIndex.dataType = .int32 ∧ ¬ pointerOutOfRange stack pointer ∧
        (tokenIndex.data.length < 4 ∨
          ∃ tokenID, NamesToken context tokenIndex tokenID ∧ Raises (value tokenID)) := by
  obtain ⟨tokenID, hid⟩ := tokenIdOf_eq_ok context tokenIndex.data
  rw [readToken, Raises.ite_iff, Raises.ite_iff]
  by_cases hindex : tokenIndex.data.length < 4
  · simp [Raises.int_iff, hindex]
  · obtain ⟨tokenNumber, hnumber⟩ := Ints.exists_ok (Nat.le_of_not_lt hindex)
    simp only [namesToken_iff hnumber hid, and_assoc, exists_and_left, exists_eq_left]
    simp [hnumber, hid, hindex, Raises.ite_iff]

/-- Reading the description of a token raises on an index with too few bytes, or on an entry
that cannot be read. -/
theorem raises_info_iff {key : TokenKey} :
    Raises (info key context tokenIndex stack pointer) ↔
      tokenIndex.dataType = .int32 ∧ ¬ pointerOutOfRange stack pointer ∧
        (tokenIndex.data.length < 4 ∨ ∃ tokenID, NamesToken context tokenIndex tokenID ∧
          Raises (context.state.tokenInfo (tokenKey tokenID key))) := by
  rw [info, raises_readToken_iff]
  refine and_congr_right fun _ => and_congr_right fun _ => or_congr_right
    (exists_congr fun tokenID => and_congr_right fun _ => ?_)
  constructor
  · intro h
    rcases Raises.bind_iff.mp h with h | ⟨entry, -, h⟩
    · exact h
    · cases entry with
      | none => exact absurd h Raises.left
      | some v => exact absurd h Raises.ok
  · exact fun h => Raises.bind_iff.mpr (.inl h)

/-- Reading a token raises exactly where it crashes. -/
theorem raises_read_iff {tdbrType : Byte} :
    Raises (parseBytes.read context stack tdbrType tokenIndex pointer) ↔
      Crashes context stack pointer tokenIndex tdbrType := by
  constructor
  · intro h
    unfold parseBytes.read at h
    split at h
    · obtain ⟨htype, hpointer, hshort | ⟨tokenID, hnames, hinfo⟩⟩ := raises_info_iff.mp h
      · exact .index (by decide) htype hpointer hshort
      · exact .info .max tokenID (.head _) htype hpointer hnames hinfo
    · obtain ⟨htype, hpointer, hshort | ⟨tokenID, hnames, hinfo⟩⟩ := raises_readToken_iff.mp h
      · exact .index (by decide) htype hpointer hshort
      · exact absurd hinfo Raises.ok
    · obtain ⟨htype, hpointer, hshort | ⟨tokenID, hnames, hinfo⟩⟩ := raises_info_iff.mp h
      · exact .index (by decide) htype hpointer hshort
      · exact .info .unity tokenID (.tail _ (.head _)) htype hpointer hnames hinfo
    · obtain ⟨htype, hpointer, hshort | ⟨tokenID, hnames, hinfo⟩⟩ := raises_info_iff.mp h
      · exact .index (by decide) htype hpointer hshort
      · exact .info .desc tokenID (.tail _ (.tail _ (.head _))) htype hpointer hnames hinfo
    · exact absurd h Raises.left
  · intro h
    cases h with
    | index hknown htype hpointer hshort =>
        simp only [List.mem_cons, List.not_mem_nil, or_false] at hknown
        rcases hknown with rfl | rfl | rfl | rfl
        · exact raises_info_iff.mpr ⟨htype, hpointer, .inl hshort⟩
        · exact raises_readToken_iff.mpr ⟨htype, hpointer, .inl hshort⟩
        · exact raises_info_iff.mpr ⟨htype, hpointer, .inl hshort⟩
        · exact raises_info_iff.mpr ⟨htype, hpointer, .inl hshort⟩
    | info key tokenID hkey htype hpointer hnames hinfo =>
        have hread := raises_info_iff.mpr ⟨htype, hpointer, .inr ⟨tokenID, hnames, hinfo⟩⟩
        simp only [List.mem_cons, Prod.mk.injEq, List.not_mem_nil, or_false] at hkey
        obtain ⟨rfl, rfl⟩ | ⟨rfl, rfl⟩ | ⟨rfl, rfl⟩ := hkey
        · exact hread
        · exact hread
        · exact hread

end TDBROpcDiff

namespace TDBAOpcDiff

variable {issuer amount tokenIndex sender recipient : DataEntry}

omit [Platform] in
/-- The numbers are read first. -/
theorem raises_operands {α : Type} {f : Int32 → Int64 → Result α}
    (h : tokenIndex.data.length < 4 ∨ amount.data.length < 8) :
    Raises (do
      let tokenNumber ← Ints.fromByteArray tokenIndex.data
      let value ← Longs.fromByteArray amount.data
      f tokenNumber value) := by
  by_cases hindex : tokenIndex.data.length < 4
  · simp [Raises.int_iff, hindex]
  · obtain ⟨tokenNumber, hnumber⟩ := Ints.exists_ok (Nat.le_of_not_lt hindex)
    simp [hnumber, Raises.long_iff, h.resolve_left hindex]

/-- A withdrawal raises exactly where it crashes, once its operands have the right types. -/
theorem raises_withdraw_iff : Raises (withdraw context issuer amount tokenIndex) ↔
    (issuer.dataType = .address ∧ amount.dataType = .amount ∧ tokenIndex.dataType = .int32) ∧
      WithdrawCrashes context issuer amount tokenIndex := by
  obtain ⟨tokenID, hid⟩ := tokenIdOf_eq_ok context tokenIndex.data
  rw [withdraw]
  split
  · rename_i htype
    constructor
    · exact fun h => absurd h Raises.left
    · rintro ⟨⟨hissuer, hamount, hindex⟩, -⟩
      simp [hissuer, hamount, hindex] at htype
  rename_i htype
  simp only [not_or, not_not] at htype
  by_cases hshort : tokenIndex.data.length < 4 ∨ amount.data.length < 8
  · exact iff_of_true (raises_operands hshort) ⟨htype, .short hshort⟩
  obtain ⟨hindex, hamount⟩ := not_or.mp hshort
  obtain ⟨tokenNumber, hnumber⟩ := Ints.exists_ok (Nat.le_of_not_lt hindex)
  obtain ⟨withdrawAmount, hvalue⟩ := Longs.exists_ok (Nat.le_of_not_lt hamount)
  simp only [hnumber, hvalue, hid, ok_bind]
  constructor
  · intro h
    simp only [Raises.ite_iff, Raises.left, and_false, false_or, Raises.bind_iff,
      Raises.rightGet_address_iff, Raises.ok, exists_false, or_false] at h
    obtain ⟨hindex, hle, hnonneg, hissuer⟩ := h
    exact ⟨htype, .issuer tokenID withdrawAmount ((namesToken_iff hnumber hid).mpr ⟨hindex, rfl⟩)
      hvalue (Int64.not_lt.mp hle) (Int64.not_lt.mp hnonneg) hissuer⟩
  · rintro ⟨-, h⟩
    cases h with
    | short h => exact absurd h hshort
    | issuer tokenID' withdrawAmount' hnames hvalue' hle hnonneg hissuer =>
        obtain ⟨hindex, rfl⟩ := (namesToken_iff hnumber hid).mp hnames
        obtain rfl := Except.ok.inj (hvalue'.symm.trans hvalue)
        rw [if_neg hindex, if_neg (Int64.not_lt.mpr hle), if_neg (Int64.not_lt.mpr hnonneg)]
        simp [Raises.rightGet_address_iff, hissuer]

/-- A transfer raises exactly where it crashes, once its operands have the right types. -/
theorem raises_transfer_iff : Raises (transfer context sender recipient amount tokenIndex) ↔
    (sender.dataType = .address ∧ recipient.dataType = .address ∧ amount.dataType = .amount ∧
      tokenIndex.dataType = .int32) ∧
      TransferCrashes context sender recipient amount tokenIndex := by
  obtain ⟨tokenID, hid⟩ := tokenIdOf_eq_ok context tokenIndex.data
  rw [transfer]
  split
  · rename_i hsender
    simp [hsender]
  split
  · rename_i hrecipient
    simp [hrecipient]
  split
  · rename_i htype
    constructor
    · exact fun h => absurd h Raises.left
    · rintro ⟨⟨hsender, hrecipient, hamount, hindex⟩, -⟩
      simp [hsender, hrecipient, hamount, hindex] at htype
  rename_i htype
  simp only [not_or, not_not] at htype
  by_cases hshort : tokenIndex.data.length < 4 ∨ amount.data.length < 8
  · exact iff_of_true (raises_operands hshort) ⟨htype, .short hshort⟩
  obtain ⟨hindex, hamount⟩ := not_or.mp hshort
  obtain ⟨tokenNumber, hnumber⟩ := Ints.exists_ok (Nat.le_of_not_lt hindex)
  obtain ⟨transferAmount, hvalue⟩ := Longs.exists_ok (Nat.le_of_not_lt hamount)
  simp only [hnumber, hvalue, hid, ok_bind]
  constructor
  · intro h
    simp only [Raises.ite_iff, Raises.left, and_false, false_or, Raises.bind_iff,
      Raises.rightGet_address_iff, Raises.ok, exists_false, or_false] at h
    obtain ⟨hindex, hle, hexact, hnonneg, hparty⟩ := h
    refine ⟨htype, .party tokenID transferAmount ((namesToken_iff hnumber hid).mpr ⟨hindex, rfl⟩)
      hvalue (Int64.not_lt.mp hle) (by simpa [Option.isSome_iff_ne_none] using hexact) (Int64.not_lt.mp hnonneg) ?_⟩
    rcases hparty with hsender | ⟨s, -, hrecipient⟩
    · exact .inl hsender
    · exact .inr hrecipient
  · rintro ⟨-, h⟩
    cases h with
    | short h => exact absurd h hshort
    | party tokenID' transferAmount' hnames hvalue' hle hexact hnonneg hparty =>
        obtain ⟨hindex, rfl⟩ := (namesToken_iff hnumber hid).mp hnames
        obtain rfl := Except.ok.inj (hvalue'.symm.trans hvalue)
        rw [if_neg hindex, if_neg (Int64.not_lt.mpr hle), if_neg (by simpa [Option.isSome_iff_ne_none] using hexact),
          if_neg (Int64.not_lt.mpr hnonneg)]
        simp only [Raises.bind_iff, Raises.rightGet_address_iff]
        by_cases hsender : HoldsAddress sender.data
        · obtain ⟨s, hs⟩ := hsender
          exact .inr ⟨s, by rw [hs]; rfl, .inl (hparty.resolve_left (not_not.mpr ⟨s, hs⟩))⟩
        · exact .inl hsender

/-- A deposit raises exactly where it crashes, once its operands have the right types. -/
theorem raises_deposit_iff : Raises (deposit context issuer amount tokenIndex) ↔
    (issuer.dataType = .address ∧ amount.dataType = .amount ∧ tokenIndex.dataType = .int32) ∧
      DepositCrashes context issuer amount tokenIndex := by
  obtain ⟨tokenID, hid⟩ := tokenIdOf_eq_ok context tokenIndex.data
  rw [deposit]
  split
  · rename_i htype
    constructor
    · exact fun h => absurd h Raises.left
    · rintro ⟨⟨hissuer, hamount, hindex⟩, -⟩
      simp [hissuer, hamount, hindex] at htype
  rename_i htype
  simp only [not_or, not_not] at htype
  -- The source reads both numbers before it looks anything up.
  by_cases hshort : tokenIndex.data.length < 4 ∨ amount.data.length < 8
  · exact iff_of_true (raises_operands hshort) ⟨htype, .short hshort⟩
  obtain ⟨hindex, hamount⟩ := not_or.mp hshort
  obtain ⟨tokenNumber, hnumber⟩ := Ints.exists_ok (Nat.le_of_not_lt hindex)
  obtain ⟨depositAmount, hvalue⟩ := Longs.exists_ok (Nat.le_of_not_lt hamount)
  simp only [hnumber, hvalue, hid, ok_bind]
  constructor
  · intro h
    refine ⟨htype, ?_⟩
    rcases Raises.bind_iff.mp h with hinfo | ⟨maxInfo, hinfo, h⟩
    · exact .max tokenID hid hinfo
    rcases Raises.bind_iff.mp h with hmax | ⟨tokenMax, hmax, h⟩
    · rw [Raises.long_iff] at hmax
      cases maxInfo with
      | none => exact absurd hmax (by decide)
      | some maxInfo => exact .shortMax tokenID maxInfo hid hinfo hmax
    · simp only [Raises.ite_iff, Raises.left, and_false, false_or, Raises.bind_iff,
        Raises.rightGet_address_iff, Raises.ok, exists_false, or_false] at h
      obtain ⟨hindex, hexact, hnonneg, hle, hissuer⟩ := h
      exact .issuer tokenID depositAmount tokenMax maxInfo
        ((namesToken_iff hnumber hid).mpr ⟨hindex, rfl⟩) hvalue hinfo hmax
        (by simpa [Option.isSome_iff_ne_none] using hexact) (Int64.not_lt.mp hnonneg)
        (Int64.not_lt.mp hle) hissuer
  · rintro ⟨-, h⟩
    cases h with
    | short h => exact absurd h hshort
    | max tokenID' hid' hmax =>
        obtain rfl := Except.ok.inj (hid'.symm.trans hid)
        exact Raises.bind_iff.mpr (.inl hmax)
    | shortMax tokenID' maxInfo hid' hinfo hmax =>
        obtain rfl := Except.ok.inj (hid'.symm.trans hid)
        simp [hinfo, Raises.long_iff, hmax]
    | issuer tokenID' depositAmount' tokenMax maxInfo hnames hvalue' hinfo hmax hexact hnonneg hle
        hissuer =>
        obtain ⟨hindex, rfl⟩ := (namesToken_iff hnumber hid).mp hnames
        obtain rfl := Except.ok.inj (hvalue'.symm.trans hvalue)
        simp only [hinfo, hmax, ok_bind]
        rw [if_neg hindex, if_neg (by simpa [Option.isSome_iff_ne_none] using hexact),
          if_neg (Int64.not_lt.mpr hnonneg), if_neg (Int64.not_lt.mpr hle)]
        simp [Raises.rightGet_address_iff, hissuer]

/-- A line on token balances raises exactly on operands that it crashes on. -/
theorem raises_parseBytes_iff {tdbaType : Byte} {indices : ByteStr} :
    Raises (parseBytes context (tdbaType :: indices) stack) ↔
      ∃ operands, localVariables stack indices = some operands ∧
        Crashes context tdbaType operands := by
  constructor
  · intro h
    simp only [parseBytes] at h
    split at h <;> rename_i hoperands
    · obtain ⟨htype, h⟩ := raises_deposit_iff.mp h
      exact ⟨_, hoperands, .deposit _ _ ⟨htype.1, htype.2.1⟩ h⟩
    · obtain ⟨htype, h⟩ := raises_deposit_iff.mp h
      exact ⟨_, hoperands, .depositIndexed _ _ _ htype h⟩
    · obtain ⟨htype, h⟩ := raises_withdraw_iff.mp h
      exact ⟨_, hoperands, .withdraw _ _ ⟨htype.1, htype.2.1⟩ h⟩
    · obtain ⟨htype, h⟩ := raises_withdraw_iff.mp h
      exact ⟨_, hoperands, .withdrawIndexed _ _ _ htype h⟩
    · obtain ⟨htype, h⟩ := raises_transfer_iff.mp h
      exact ⟨_, hoperands, .transfer _ _ _ ⟨htype.1, htype.2.1, htype.2.2.1⟩ h⟩
    · obtain ⟨htype, h⟩ := raises_transfer_iff.mp h
      exact ⟨_, hoperands, .transferIndexed _ _ _ _ htype h⟩
    · exact absurd h Raises.left
  · rintro ⟨operands, hoperands, h⟩
    simp only [parseBytes, hoperands]
    cases h with
    | deposit issuer amount htype h =>
        exact raises_deposit_iff.mpr ⟨⟨htype.1, htype.2, rfl⟩, h⟩
    | depositIndexed issuer amount tokenIndex htype h => exact raises_deposit_iff.mpr ⟨htype, h⟩
    | withdraw issuer amount htype h =>
        exact raises_withdraw_iff.mpr ⟨⟨htype.1, htype.2, rfl⟩, h⟩
    | withdrawIndexed issuer amount tokenIndex htype h => exact raises_withdraw_iff.mpr ⟨htype, h⟩
    | transfer sender recipient amount htype h =>
        exact raises_transfer_iff.mpr ⟨⟨htype.1, htype.2.1, htype.2.2, rfl⟩, h⟩
    | transferIndexed sender recipient amount tokenIndex htype h =>
        exact raises_transfer_iff.mpr ⟨htype, h⟩

end TDBAOpcDiff

/-- Reading a balance raises exactly on an index with too few bytes. -/
theorem TDBAROpcDiff.raises_balance_iff {address tokenIndex : DataEntry} {pointer : Byte} :
    Raises (balance context address tokenIndex stack pointer) ↔
      (address.dataType = .address ∧ tokenIndex.dataType = .int32) ∧
        ¬ pointerOutOfRange stack pointer ∧ tokenIndex.data.length < 4 := by
  obtain ⟨tokenID, hid⟩ := tokenIdOf_eq_ok context tokenIndex.data
  rw [balance, Raises.ite_iff, Raises.ite_iff]
  by_cases hindex : tokenIndex.data.length < 4
  · simp [Raises.int_iff, hindex, and_comm]
  · obtain ⟨tokenNumber, hnumber⟩ := Ints.exists_ok (Nat.le_of_not_lt hindex)
    simp [hnumber, hid, hindex, Raises.ite_iff]

namespace OpcDiffer

/-- An opcode raises exactly where it crashes. -/
theorem raises_apply_iff (hsigners : context.signers ≠ []) {opc : ByteStr} :
    Raises (apply context opc stack) ↔ Crashes context stack opc := by
  constructor
  · intro h
    cases opc with
    | nil => exact .empty
    | cons opcType tail =>
        -- The first byte chooses the family, and each family has its lemma on what raises in it.
        simp only [apply] at h
        split at h
        all_goals try simp only [Raises.keepingData_iff, Raises.keepingState_iff] at h
        · -- asserts
          cases tail with
          | nil => exact .noCode 1 (by decide)
          | cons assertType indices =>
              obtain ⟨operands, hoperands, h⟩ :=
                (AssertOpcDiff.raises_parseBytes_iff hsigners).mp h
              exact .assert assertType indices operands hoperands h
        · obtain rfl := (LoadOpcDiff.raises_parseBytes_iff hsigners).mp h
          exact .noCode 2 (by decide)
        · -- state variables, written and read
          unfold CDBVOpcDiff.parseBytes at h
          split at h
          · exact .noCode 3 (by decide)
          · split at h
            · rename_i hvar hvalue
              exact .set _ _ _ _ hvar hvalue (CDBVOpcDiff.raises_set_iff.mp h)
            · exact absurd h Raises.left
          · exact absurd h Raises.left
        · unfold CDBVROpcDiff.parseBytes at h
          split at h
          · exact .noCode 4 (by decide)
          · split at h
            · rename_i hvar
              exact .get _ _ _ hvar (CDBVROpcDiff.raises_get_iff.mp h)
            · exact absurd h Raises.left
          · exact absurd h Raises.left
        · -- tokens
          cases tail with
          | nil => exact .noCode 5 (by decide)
          | cons tdbType indices =>
              obtain ⟨operands, hoperands, h⟩ := TDBOpcDiff.raises_parseBytes_iff.mp h
              exact .tdb tdbType indices operands hoperands h
        · unfold TDBROpcDiff.parseBytes at h
          split at h
          · exact .noCode 6 (by decide)
          · exact .tdbr _ _ (TDBROpcDiff.raises_read_iff.mp h)
          · split at h
            · rename_i hindex
              exact .tdbrIndexed _ _ _ _ hindex (TDBROpcDiff.raises_read_iff.mp h)
            · exact absurd h Raises.left
          · exact absurd h Raises.left
        · cases tail with
          | nil => exact .noCode 7 (by decide)
          | cons tdbaType indices =>
              obtain ⟨operands, hoperands, h⟩ := TDBAOpcDiff.raises_parseBytes_iff.mp h
              exact .tdba tdbaType indices operands hoperands h
        · unfold TDBAROpcDiff.parseBytes at h
          split at h
          · exact .noCode 8 (by decide)
          · split at h
            · exact absurd (TDBAROpcDiff.raises_balance_iff.mp h).2.2 (by decide)
            · exact absurd h Raises.left
          · split at h
            · rename_i hoperands
              obtain ⟨htype, hpointer, hshort⟩ := TDBAROpcDiff.raises_balance_iff.mp h
              exact .tdbar _ _ _ _ _ hoperands htype hpointer hshort
            · exact absurd h Raises.left
          · exact absurd h Raises.left
        · unfold ReturnOpcDiff.parseBytes at h
          split at h
          · exact .noCode 9 (by decide)
          · exact absurd h Raises.left
          · exact absurd h Raises.left
        · exact absurd h Raises.left
  · intro h
    cases h with
    | empty => exact Raises.raise
    | noCode opcType hknown =>
        simp only [List.mem_cons, List.not_mem_nil, or_false] at hknown
        rcases hknown with rfl | rfl | rfl | rfl | rfl | rfl | rfl | rfl | rfl <;> exact ⟨_, rfl⟩
    | assert assertType indices operands hoperands h =>
        exact Raises.keepingData_iff.mpr
          ((AssertOpcDiff.raises_parseBytes_iff hsigners).mpr ⟨operands, hoperands, h⟩)
    | set var index stateVar value hvar hvalue h =>
        have hparse : CDBVOpcDiff.parseBytes context [1, var, index] stack
            = CDBVOpcDiff.set context stateVar value :=
          (CDBVOpcDiff.parseBytes.eq_2 ..).trans (by rw [hvar, hvalue])
        exact Raises.keepingData_iff.mpr (hparse ▸ CDBVOpcDiff.raises_set_iff.mpr h)
    | get var pointer stateVar hvar h =>
        have hparse : CDBVROpcDiff.parseBytes context [1, var, pointer] stack
            = CDBVROpcDiff.get context stateVar stack pointer :=
          (CDBVROpcDiff.parseBytes.eq_2 ..).trans (by rw [hvar])
        exact Raises.keepingState_iff.mpr (hparse ▸ CDBVROpcDiff.raises_get_iff.mpr h)
    | tdb tdbType indices operands hoperands h =>
        exact Raises.keepingData_iff.mpr
          (TDBOpcDiff.raises_parseBytes_iff.mpr ⟨operands, hoperands, h⟩)
    | tdbr tdbrType pointer h =>
        exact Raises.keepingState_iff.mpr (TDBROpcDiff.raises_read_iff.mpr h)
    | tdbrIndexed tdbrType index pointer tokenIndex hindex h =>
        refine Raises.keepingState_iff.mpr ?_
        simp only [TDBROpcDiff.parseBytes, hindex]
        exact TDBROpcDiff.raises_read_iff.mpr h
    | tdba tdbaType indices operands hoperands h =>
        exact Raises.keepingData_iff.mpr
          (TDBAOpcDiff.raises_parseBytes_iff.mpr ⟨operands, hoperands, h⟩)
    | tdbar index token pointer address tokenIndex hoperands htype hpointer hshort =>
        have hparse : TDBAROpcDiff.parseBytes context [1, index, token, pointer] stack
            = TDBAROpcDiff.balance context address tokenIndex stack pointer :=
          (TDBAROpcDiff.parseBytes.eq_3 ..).trans (by rw [hoperands])
        refine Raises.keepingState_iff.mpr (hparse ▸ TDBAROpcDiff.raises_balance_iff.mpr ?_)
        exact ⟨htype, hpointer, hshort⟩

end OpcDiffer

namespace OpcFuncDiffer

variable {data : List DataEntry} {lines : List ByteStr}

/-- A line that crashes is reached: all lines before it have run. -/
def ReachesCrash (context : ExecutionContext) (data : List DataEntry) (lines : List ByteStr) : Prop :=
  ∃ before opc after effects stack, lines = before ++ opc :: after ∧
    Executed context data before effects stack ∧
    OpcDiffer.Crashes (contextAfter context effects) stack opc

/-- The lines of a function are run: its bytes are those of a function, the data have the types of
its parameters, and not all its lines are too short. -/
def Runs (context : ExecutionContext) (data : List DataEntry) : Prop :=
  ∃ funcIdx funcType returnTypes paraTypes lines,
    fromBytes context.opcFunc = .ok (funcIdx, funcType, returnTypes, paraTypes, lines) ∧
    DataType.checkTypes paraTypes (data.map fun d => d.dataType.id) ∧ ∃ opc ∈ lines, 2 ≤ opc.length

/-- The lines of a function raise exactly if one of them is reached that crashes. -/
theorem raises_foldlM_iff (hsigners : context.signers ≠ []) :
    Raises (lines.foldlM (step context) (OpcDiff.empty, data)) ↔ ReachesCrash context data lines := by
  induction lines using List.reverseRecOn with
  | nil =>
      refine iff_of_false Raises.ok ?_
      rintro ⟨before, opc, after, -, -, hlines, -⟩
      exact absurd hlines (by simp)
  | append_singleton lines opc ih =>
      have hlast {effects : List OpcDiff} {stack : List DataEntry} :
          Raises (step context (combined effects, stack) opc) ↔
            OpcDiffer.Crashes (contextAfter context effects) stack opc := by
        rw [← @OpcDiffer.raises_apply_iff _ (contextAfter context effects) stack hsigners]
        simp only [step, Raises.bind_iff, Raises.ok, and_false, exists_false, or_false]
        rfl
      rw [List.foldlM_append, Raises.bind_iff, ih]
      constructor
      · rintro (⟨before, opc', after, effects, stack, rfl, hexecuted, hcrash⟩ | ⟨⟨d, stack⟩, hfold, h⟩)
        · exact ⟨before, opc', after ++ [opc], effects, stack, by simp, hexecuted, hcrash⟩
        · obtain ⟨effects, hexecuted, rfl⟩ := executed_of_foldlM hfold
          simp only [List.foldlM_cons, List.foldlM_nil, Raises.bind_iff, Raises.pure_iff, and_false,
            exists_false, or_false] at h
          exact ⟨lines, opc, [], effects, stack, rfl, hexecuted, hlast.mp h⟩
      · rintro ⟨before, opc', after, effects, stack, hlines, hexecuted, hcrash⟩
        rcases List.eq_nil_or_concat after with rfl | ⟨after, opc'', rfl⟩
        · obtain ⟨rfl, hopc⟩ := List.append_inj' hlines rfl
          obtain rfl := (List.cons.inj hopc).1
          refine .inr ⟨_, hexecuted.foldlM, ?_⟩
          rw [List.foldlM_cons, Raises.bind_iff]
          exact .inl (hlast.mpr hcrash)
        · refine .inl ⟨before, opc', after, effects, stack, ?_, hexecuted, hcrash⟩
          rw [List.concat_eq_append, ← List.cons_append, ← List.append_assoc] at hlines
          exact (List.append_inj' hlines rfl).1

/-- A function raises where its lines are run and one that crashes is reached. -/
theorem raises_apply_iff (hsigners : context.signers ≠ []) :
    Raises (apply context data) ↔
      Runs context data ∧ ReachesCrash context data (opcLines context.opcFunc) := by
  rw [apply, opcLines]
  cases hbytes : fromBytes context.opcFunc with
  | error e =>
      refine iff_of_false Raises.left ?_
      rintro ⟨⟨_, _, _, _, _, hok, -⟩, -⟩
      exact absurd (hbytes.symm.trans hok) (by simp)
  | ok parts =>
      obtain ⟨funcIdx, funcType, returnTypes, paraTypes, lines⟩ := parts
      dsimp only
      constructor
      · intro h
        split at h
        · exact absurd h Raises.left
        · rename_i htypes
          split at h
          · exact absurd h Raises.left
          · rename_i hlines
            simp only [Raises.bind_iff, Raises.ok, and_false, exists_false, or_false] at h
            refine ⟨⟨_, _, _, _, _, hbytes, not_not.mp htypes, ?_⟩, (raises_foldlM_iff hsigners).mp h⟩
            rw [List.all_eq_true, not_forall] at hlines
            obtain ⟨opc, hopc⟩ := hlines
            obtain ⟨hmem, hlong⟩ := Classical.not_imp.mp hopc
            exact ⟨opc, hmem, Nat.le_of_not_lt (of_decide_eq_false (Bool.not_eq_true _ ▸ hlong))⟩
      · rintro ⟨⟨_, _, _, _, _, hok, htypes, opc, hopc, hlength⟩, hcrash⟩
        obtain ⟨-, -, -, rfl, rfl⟩ := Prod.mk.inj (Except.ok.inj (hbytes.symm.trans hok))
        have hlines : ¬ lines.all (fun opc => decide (opc.length < 2)) := by
          rw [List.all_eq_true]
          intro hshort
          exact absurd (of_decide_eq_true (hshort opc hopc)) (Nat.not_lt.mpr hlength)
        rw [if_neg (not_not.mpr htypes), if_neg hlines, Raises.bind_iff]
        exact .inl ((raises_foldlM_iff hsigners).mpr hcrash)

/-- A function raises no exception exactly when no line that crashes is reached. -/
theorem total_iff (context : ExecutionContext) (data : List DataEntry)
    (hsigners : context.signers ≠ []) :
    ¬ Raises (apply context data) ↔
      (Runs context data → ¬ ReachesCrash context data (opcLines context.opcFunc)) := by
  rw [← not_and, not_iff_not]
  exact raises_apply_iff hsigners

end OpcFuncDiffer

end Platform

namespace Sample

/-- A context with one signer and no state variables. -/
def crashContext (opcFunc : ByteStr) : ExecutionContext :=
  { TokenOverflow.contextOf TokenOverflow.start opcFunc with
    signers := [⟨List.replicate 32 0⟩], opcFunc := opcFunc }

/-- A function that loads the signer. -/
def loadingFunc : ByteStr :=
  ContractPermitted.function 0 [] [] (ContractPermitted.listOpc [[2, 1]] [[0]])

/-- A function with an empty line before that. -/
def emptyLineFunc : ByteStr :=
  ContractPermitted.function 0 [] [] (ContractPermitted.listOpc [[], [2, 1]] [[], [0]])

/-- A function that only loads the signer returns. -/
theorem loadingFunc_total : ¬ Raises (OpcFuncDiffer.apply (crashContext loadingFunc) []) := by
  refine (OpcFuncDiffer.total_iff (crashContext loadingFunc) [] (by decide)).mpr ?_
  rintro - ⟨before, opc, after, effects, stack, hlines, hexecuted, hcrash⟩
  have hline : opcLines loadingFunc = [[2, 1, 0]] := by decide +kernel
  have hsingle : [[2, 1, 0]] = before ++ opc :: after := hline.symm.trans hlines
  rcases List.singleton_eq_append_iff.mp hsingle with ⟨-, hopc⟩ | ⟨-, hnil⟩
  · obtain ⟨rfl, -⟩ := List.cons.inj hopc
    nomatch hcrash
  · cases hnil

/-- One line of two bytes is enough for the empty line to be run. -/
theorem emptyLineFunc_raises : (crashContext emptyLineFunc).signers ≠ [] ∧
    opcLines emptyLineFunc = [[], [2, 1, 0]] ∧
    Raises (OpcFuncDiffer.apply (crashContext emptyLineFunc) []) := by
  decide +kernel

end Sample

end Vsys
