import Vsys.Opc.Frames
import Vsys.Opc.Assembly
import Vsys.Transaction.RoundTrip

/-!
# Who may do what with a token

The checks of the permitted contracts are opcodes themselves.  Running the opcodes of each function
one by one shows what it writes, and whose signature it has found before it does: the sender's, the
issuer's or the maker's.
-/

namespace Vsys

open Lib

variable [Platform]

/-- A state variable of a contract is an address. -/
def StateView.VariableIs (s : StateView) (c : ContractAccount) (var : Byte) (a : Address) : Prop :=
  s.contractInfo (stateVarKey c var) = .ok (some ⟨a.bytes, .address⟩)

/-- The address in a state variable is one. -/
theorem StateView.VariableIs.eq {s : StateView} {c : ContractAccount} {var : Byte} {a a' : Address}
    (h : s.VariableIs c var a) (h' : s.VariableIs c var a') : a = a' := by
  have hentry := Option.some.inj (Except.ok.inj (h.symm.trans h'))
  exact Address.ext (DataEntry.mk.inj hentry).1

/-- What a function may write that a signer has called: state variables and tokens of the contract
as far as the signer is the maker or the issuer, and of the balances of others only gains. -/
structure OpcDiff.Authorised (s : StateView) (c : ContractAccount) (signer : Address)
    (d : OpcDiff) : Prop where
  maker : d.contractDB.lookup (stateVarKey c ContractPermitted.StateVar.maker) = none
  issuer : ∀ v, d.contractDB.lookup (stateVarKey c ContractPermitted.StateVar.issuer) = some v →
    s.VariableIs c ContractPermitted.StateVar.maker signer
  count : d.contractTokens = ∅
  info : ∀ i key v, d.tokenDB.lookup (tokenKey (c.tokenId i) key) = some v →
    key = .unity ∧ s.VariableIs c ContractPermitted.StateVar.issuer signer
  total : ∀ i v, d.tokenAccountBalance.lookup (tokenKey (c.tokenId i) .total) = some v →
    s.VariableIs c ContractPermitted.StateVar.issuer signer
  balance : ∀ i a v, a ≠ signer →
    d.tokenAccountBalance.lookup (balanceKey (c.tokenId i) a.bytes) = some v →
    0 ≤ v ∧ InWord (v.toInt + s.tokens.balance c i a)

variable {context : ExecutionContext} {data data' : List DataEntry} {d : OpcDiff}
  {v : DataEntry} {pointer : Byte}

omit [Platform] in
/-- Both state variables of a permitted contract are addresses. -/
theorem stateVariable_stateVar {var : Byte}
    (hvar : var = ContractPermitted.StateVar.issuer ∨ var = ContractPermitted.StateVar.maker) :
    stateVariable ContractPermitted.stateVar var = some [var, DataType.address.id] := by
  obtain rfl | rfl := hvar
  · rfl
  · rfl

namespace OpcDiffer

open ContractPermitted

/-- `opcLoadSigner` and `opcLoadCaller`. -/
theorem load_eq_ok {kind : Byte} (hkind : kind = 1 ∨ kind = 2)
    (h : apply context [2, kind, pointer] data = .ok (d, data')) :
    d = OpcDiff.empty ∧ ∃ signer, context.signers.head? = some signer ∧
      data' = patch data pointer ⟨signer.toAddress.bytes, .address⟩ := by
  obtain ⟨rfl, hload⟩ := keepingState_eq_ok h
  have hsigner : LoadOpcDiff.signer context data pointer = .ok data' := by
    obtain rfl | rfl := hkind
    · exact hload
    · exact hload
  unfold LoadOpcDiff.signer at hsigner
  split at hsigner
  · exact (left_ne_ok.mp hsigner).elim
  · obtain ⟨signer, hhead, hdata⟩ := bind_eq_ok_iff.mp hsigner
    exact ⟨rfl, signer, getOrRaise_eq_ok_iff.mp hhead, (Except.ok.inj hdata).symm⟩

/-- `opcAssertIsCallerOrigin` and `opcAssertIsSignerOrigin`. -/
theorem assert_eq {kind index : Byte} (hkind : kind = 6 ∨ kind = 7)
    (hv : localVariable data index = some v) : ∃ error, apply context [1, kind, index] data
      = keepingData data (AssertOpcDiff.isOrigin error context v) := by
  have hvars : localVariables data [index] = some [v] := by
    rw [localVariables, List.mapM_cons, hv]
    rfl
  obtain rfl | rfl := hkind
  · refine ⟨.contractInvalidCaller, congrArg (keepingData data) ?_⟩
    simp only [AssertOpcDiff.parseBytes, hvars]
    rfl
  · refine ⟨.contractInvalidSigner, congrArg (keepingData data) ?_⟩
    simp only [AssertOpcDiff.parseBytes, hvars]
    rfl

/-- An assertion on the caller passes only for the address of the first signer, and changes
nothing. -/
theorem assert_eq_ok {kind index : Byte} (hkind : kind = 6 ∨ kind = 7)
    (h : apply context [1, kind, index] data = .ok (d, data'))
    (hv : localVariable data index = some v) :
    d = OpcDiff.empty ∧ data' = data ∧ ∃ signer, context.signers.head? = some signer ∧
      v = ⟨signer.toAddress.bytes, .address⟩ := by
  obtain ⟨error, heq⟩ := assert_eq hkind hv
  obtain ⟨horigin, rfl⟩ := keepingData_eq_ok (heq.symm.trans h)
  obtain ⟨rfl, htype, signer, hsigner, hdata⟩ := AssertOpcDiff.isOrigin_eq_ok horigin
  refine ⟨rfl, rfl, signer, hsigner, ?_⟩
  rw [← hdata, ← htype]

/-- `opcCDBVRGet` of the issuer or of the maker. -/
theorem read_eq {var : Byte} (hvars : context.stateVar = stateVar)
    (hvar : var = StateVar.issuer ∨ var = StateVar.maker) :
    apply context [4, 1, var, pointer] data
      = keepingState (CDBVROpcDiff.get context [var, DataType.address.id] data pointer) := by
  have hparse : CDBVROpcDiff.parseBytes context [1, var, pointer] data
      = CDBVROpcDiff.get context [var, DataType.address.id] data pointer := by
    unfold CDBVROpcDiff.parseBytes
    split
    · rename_i hline
      cases hline
    · rename_i hline
      simp only [List.cons.injEq] at hline
      obtain ⟨-, rfl, rfl, -⟩ := hline
      rw [hvars, stateVariable_stateVar hvar]
    · rename_i hline
      exact (hline _ _ rfl).elim
  exact congrArg keepingState hparse

/-- A line that reads the issuer or the maker patches what is stored for it into the stack. -/
theorem read_eq_ok {var : Byte} (hvars : context.stateVar = stateVar)
    (hvar : var = StateVar.issuer ∨ var = StateVar.maker)
    (h : apply context [4, 1, var, pointer] data = .ok (d, data')) :
    d = OpcDiff.empty ∧ ∃ v, context.state.contractInfo (stateVarKey context.contractId var)
      = .ok (some v) ∧ data' = patch data pointer v := by
  obtain ⟨rfl, hget⟩ := keepingState_eq_ok ((read_eq hvars hvar).symm.trans h)
  unfold CDBVROpcDiff.get at hget
  obtain ⟨typeByte, htype, hget⟩ := bind_eq_ok_iff.mp hget
  obtain rfl := Option.some.inj (getOrRaise_eq_ok_iff.mp htype)
  obtain ⟨dataType, hdataType, hget⟩ := bind_eq_ok_iff.mp hget
  obtain ⟨b, -, hget⟩ := bind_eq_ok_iff.mp hget
  cases b with
  | false => exact (left_ne_ok.mp hget).elim
  | true =>
      rw [if_pos rfl, ite_left_eq_ok_iff] at hget
      obtain ⟨index, hindex, hget⟩ := bind_eq_ok_iff.mp hget.2
      obtain rfl := Option.some.inj (getOrRaise_eq_ok_iff.mp hindex)
      obtain ⟨found, hfound, hget⟩ := bind_eq_ok_iff.mp hget
      cases found with
      | none => exact (left_ne_ok.mp hget).elim
      | some v => exact ⟨rfl, v, hfound, (Except.ok.inj hget).symm⟩

/-- `opcCDBVSet` of the issuer or of the maker. -/
theorem set_eq {var index : Byte} (hvars : context.stateVar = stateVar)
    (hvar : var = StateVar.issuer ∨ var = StateVar.maker) (hv : localVariable data index = some v) :
    apply context [3, 1, var, index] data
      = keepingData data (CDBVOpcDiff.set context [var, DataType.address.id] v) := by
  have hparse : CDBVOpcDiff.parseBytes context [1, var, index] data
      = CDBVOpcDiff.set context [var, DataType.address.id] v := by
    unfold CDBVOpcDiff.parseBytes
    split
    · rename_i hline
      cases hline
    · rename_i hline
      simp only [List.cons.injEq] at hline
      obtain ⟨-, rfl, rfl, -⟩ := hline
      rw [hvars, stateVariable_stateVar hvar, hv]
    · rename_i hline
      exact (hline _ _ rfl).elim
  exact congrArg (keepingData data) hparse

/-- A line that writes the issuer or the maker writes the variable on the stack, and nothing
else. -/
theorem set_eq_ok {var index : Byte} (hvars : context.stateVar = stateVar)
    (hvar : var = StateVar.issuer ∨ var = StateVar.maker) (hv : localVariable data index = some v)
    (h : apply context [3, 1, var, index] data = .ok (d, data')) :
    data' = data ∧ d.contractDB = Finmap.singleton (stateVarKey context.contractId var) v.bytes ∧
      d.contractTokens = ∅ ∧ d.tokenDB = ∅ ∧ d.tokenAccountBalance = ∅ := by
  obtain ⟨hset, rfl⟩ := keepingData_eq_ok ((set_eq hvars hvar hv).symm.trans h)
  obtain ⟨index, -, hindex, hd⟩ := CDBVOpcDiff.set_eq_ok hset
  obtain rfl := Option.some.inj hindex
  exact ⟨rfl, hd⟩

/-- `opcReturnValue` is not supported. -/
theorem return_ne_ok : apply context [9, 1, pointer] data ≠ .ok (d, data') := by
  intro h
  exact left_ne_ok.mp (keepingState_eq_ok h).2

end OpcDiffer

namespace TDBOpcDiff

/-- Creating a token writes no state variable. -/
theorem newToken_contractDB {max unity desc : DataEntry}
    (h : newToken context max unity desc = .ok d) : d.contractDB = ∅ := by
  obtain ⟨-, h⟩ := ite_left_eq_ok_iff.mp h
  obtain ⟨_, -, h⟩ := bind_eq_ok_iff.mp h
  obtain ⟨-, h⟩ := ite_left_eq_ok_iff.mp h
  obtain ⟨_, -, h⟩ := bind_eq_ok_iff.mp h
  obtain ⟨-, h⟩ := ite_left_eq_ok_iff.mp h
  obtain ⟨_, -, h⟩ := bind_eq_ok_iff.mp h
  obtain rfl := Except.ok.inj h
  rfl

/-- A split writes the unity of the first token alone. -/
theorem split_keys {newUnity : DataEntry} (h : split context newUnity firstToken = .ok d) :
    d.contractDB = ∅ ∧ d.contractTokens = ∅ ∧ d.tokenAccountBalance = ∅ ∧
      Dict.KeysIn (fun k => k = tokenKey (context.contractId.tokenId 0) .unity) d.tokenDB := by
  obtain ⟨-, h⟩ := ite_left_eq_ok_iff.mp h
  obtain ⟨_, -, h⟩ := bind_eq_ok_iff.mp h
  obtain ⟨_, -, h⟩ := bind_eq_ok_iff.mp h
  obtain ⟨tokenID, hid, h⟩ := bind_eq_ok_iff.mp h
  obtain rfl := Except.ok.inj ((tokenIdOf_toByteArray context 0).symm.trans hid)
  simp only [ite_left_eq_ok_iff] at h
  obtain ⟨-, -, h⟩ := h
  obtain rfl := Except.ok.inj h
  exact ⟨rfl, rfl, rfl, Dict.keysIn_singleton rfl⟩

end TDBOpcDiff

namespace TDBAOpcDiff

/-- The keys of a change of supply: the total of the first token, and the balance of the issuer. -/
def SupplyKey (context : ExecutionContext) (issuer : DataEntry) (k : ByteStr) : Prop :=
  k = tokenKey (context.contractId.tokenId 0) .total ∨
    k = balanceKey (context.contractId.tokenId 0) issuer.data

/-- A deposit changes the total and the balance of its account at most. -/
theorem deposit_keys {issuer amount : DataEntry}
    (h : deposit context issuer amount firstToken = .ok d) :
    d.contractDB = ∅ ∧ d.contractTokens = ∅ ∧ d.tokenDB = ∅ ∧
      Dict.KeysIn (SupplyKey context issuer) d.tokenAccountBalance := by
  obtain ⟨-, h⟩ := ite_left_eq_ok_iff.mp h
  obtain ⟨_, -, h⟩ := bind_eq_ok_iff.mp h
  obtain ⟨_, -, h⟩ := bind_eq_ok_iff.mp h
  obtain ⟨tokenID, hid, h⟩ := bind_eq_ok_iff.mp h
  obtain rfl := Except.ok.inj ((tokenIdOf_toByteArray context 0).symm.trans hid)
  obtain ⟨_, -, h⟩ := bind_eq_ok_iff.mp h
  obtain ⟨_, -, h⟩ := bind_eq_ok_iff.mp h
  simp only [ite_left_eq_ok_iff] at h
  obtain ⟨-, -, -, -, h⟩ := h
  obtain ⟨_, -, h⟩ := bind_eq_ok_iff.mp h
  obtain rfl := Except.ok.inj h
  exact ⟨rfl, rfl, rfl, (Dict.keysIn_empty.insert (.inl rfl)).insert (.inr rfl)⟩

/-- A withdrawal changes the total and the balance of its account at most. -/
theorem withdraw_keys {issuer amount : DataEntry}
    (h : withdraw context issuer amount firstToken = .ok d) :
    d.contractDB = ∅ ∧ d.contractTokens = ∅ ∧ d.tokenDB = ∅ ∧
      Dict.KeysIn (SupplyKey context issuer) d.tokenAccountBalance := by
  obtain ⟨-, h⟩ := ite_left_eq_ok_iff.mp h
  obtain ⟨_, -, h⟩ := bind_eq_ok_iff.mp h
  obtain ⟨_, -, h⟩ := bind_eq_ok_iff.mp h
  obtain ⟨tokenID, hid, h⟩ := bind_eq_ok_iff.mp h
  obtain rfl := Except.ok.inj ((tokenIdOf_toByteArray context 0).symm.trans hid)
  simp only [ite_left_eq_ok_iff] at h
  obtain ⟨-, -, -, h⟩ := h
  obtain ⟨_, -, h⟩ := bind_eq_ok_iff.mp h
  obtain rfl := Except.ok.inj h
  exact ⟨rfl, rfl, rfl, (Dict.keysIn_empty.insert (.inl rfl)).insert (.inr rfl)⟩

/-- A transfer changes balances of the first token alone, and that of nobody but the sender for the
worse. -/
theorem transfer_keys {sender recipient amount : DataEntry}
    (h : transfer context sender recipient amount firstToken = .ok d) :
    d.contractDB = ∅ ∧ d.contractTokens = ∅ ∧ d.tokenDB = ∅ ∧
      (∀ i, d.tokenAccountBalance.lookup (tokenKey (context.contractId.tokenId i) .total) = none) ∧
      ∀ i a v, a.bytes ≠ sender.data →
        d.tokenAccountBalance.lookup (balanceKey (context.contractId.tokenId i) a.bytes) = some v →
        0 ≤ v ∧ InWord (v.toInt + context.state.tokens.balance context.contractId i a) := by
  unfold transfer at h
  simp only [ite_left_eq_ok_iff] at h
  obtain ⟨-, -, -, h⟩ := h
  obtain ⟨_, -, h⟩ := bind_eq_ok_iff.mp h
  obtain ⟨x, -, h⟩ := bind_eq_ok_iff.mp h
  obtain ⟨tokenID, hid, h⟩ := bind_eq_ok_iff.mp h
  obtain rfl := Except.ok.inj ((tokenIdOf_toByteArray context 0).symm.trans hid)
  simp only [ite_left_eq_ok_iff] at h
  obtain ⟨-, -, hsum, hnonneg, h⟩ := h
  obtain ⟨s, hs, h⟩ := bind_eq_ok_iff.mp h
  obtain ⟨r, hr, h⟩ := bind_eq_ok_iff.mp h
  have hsbytes := Address.fromBytes_eq_ok_iff.mp (rightGet_eq_ok_iff.mp hs)
  have hrbytes := Address.fromBytes_eq_ok_iff.mp (rightGet_eq_ok_iff.mp hr)
  -- The source writes nothing when the sender is the recipient.
  split at h
  · obtain rfl := Except.ok.inj h
    refine ⟨rfl, rfl, rfl, fun _ => Finmap.lookup_empty _, fun i a v _ hv => ?_⟩
    rw [Finmap.lookup_empty] at hv
    cases hv
  · obtain rfl := Except.ok.inj h
    refine ⟨rfl, rfl, rfl, fun i => ?_, fun i a v ha hv => ?_⟩
    · rw [← hsbytes, ← hrbytes, Dict.lookup_insert_eq, if_neg tokenKey_ne_balanceKey,
        Dict.lookup_insert_eq, if_neg tokenKey_ne_balanceKey, Finmap.lookup_empty]
    · rw [← hsbytes, ← hrbytes, Dict.lookup_insert_eq, Dict.lookup_insert_eq] at hv
      split at hv
      · rename_i hkey
        obtain ⟨-, rfl, rfl⟩ := balanceKey_inj.mp hkey
        obtain rfl := Option.some.inj hv
        refine ⟨Int64.not_lt.mp hnonneg, ?_⟩
        rw [← hrbytes] at hsum
        exact inWord_of_not hsum
      · split at hv
        · rename_i hkey
          exact absurd (by rw [(balanceKey_inj.mp hkey).2.2, hsbytes]) ha
        · rw [Finmap.lookup_empty] at hv
          cases hv

end TDBAOpcDiff

namespace OpcFuncDiffer

open ContractPermitted

/-- The context an opcode runs in as long as none has written. -/
def untouched (context : ExecutionContext) : ExecutionContext :=
  { context with state := stateSoFar context OpcDiff.empty }

/-- The state before the first line of a function has the tokens of the state of the call. -/
theorem tokens_untouched : (untouched context).state.tokens = context.state.tokens :=
  tokens_stateSoFar.trans (TokenState.after_empty _)

/-- The state before the first line of a function has the variables of the state of the call. -/
theorem contractInfo_untouched (k : ByteStr) :
    (untouched context).state.contractInfo k = context.state.contractInfo k := rfl

/-- The first opcode that writes, and every one before it. -/
theorem step_untouched {opc : ByteStr}
    (h : step context (OpcDiff.empty, data) opc = .ok (d, data')) :
    OpcDiffer.apply (untouched context) opc data = .ok (d, data') := by
  obtain ⟨e, happly, rfl⟩ := step_eq_ok h
  rw [OpcDiff.empty_combine]
  exact happly

/-- A function of one line behind a check. -/
theorem foldlM_two {opc opc' : ByteStr} {P : List DataEntry → Prop}
    (hfirst : ∀ {d data₁}, OpcDiffer.apply (untouched context) opc data = .ok (d, data₁) →
      d = OpcDiff.empty ∧ P data₁)
    (h : [opc, opc'].foldlM (step context) (OpcDiff.empty, data) = .ok (d, data')) :
    ∃ data₁, P data₁ ∧ OpcDiffer.apply (untouched context) opc' data₁ = .ok (d, data') := by
  obtain ⟨⟨d₁, data₁⟩, hstep, h⟩ := foldlM_cons_eq_ok_iff.mp h
  obtain ⟨rfl, hP⟩ := hfirst (step_untouched hstep)
  obtain ⟨st, hact, h⟩ := foldlM_cons_eq_ok_iff.mp h
  obtain rfl := Except.ok.inj h
  exact ⟨data₁, hP, step_untouched hact⟩

/-- The lines of a function for the issuer or the maker alone: read who that is, check that it has
signed, and act. -/
theorem guarded_eq_ok {var kind : Byte} {act : ByteStr} {x : DataEntry}
    (hvars : context.stateVar = stateVar) (hvar : var = StateVar.issuer ∨ var = StateVar.maker)
    (hkind : kind = 6 ∨ kind = 7)
    (h : [[4, 1, var, 1], [1, kind, 1], act].foldlM (step context) (OpcDiff.empty, [x])
      = .ok (d, data')) :
    ∃ signer, context.signers.head? = some signer ∧
      context.state.VariableIs context.contractId var signer.toAddress ∧
      OpcDiffer.apply (untouched context) act [x, ⟨signer.toAddress.bytes, .address⟩]
        = .ok (d, data') := by
  obtain ⟨⟨d₁, data₁⟩, hread, h⟩ := foldlM_cons_eq_ok_iff.mp h
  have hstart : (untouched context).stateVar = stateVar := hvars
  obtain ⟨rfl, v, hv, hdata⟩ := OpcDiffer.read_eq_ok hstart hvar (step_untouched hread)
  have hstack : data₁ = [x, v] := hdata
  subst hstack
  obtain ⟨data₂, ⟨rfl, signer, hsigner, rfl⟩, hact⟩ := foldlM_two
    (P := fun data₂ => data₂ = [x, v] ∧ ∃ signer, (untouched context).signers.head? = some signer ∧
      v = ⟨signer.toAddress.bytes, .address⟩)
    (fun happly => OpcDiffer.assert_eq_ok hkind happly rfl) h
  exact ⟨signer, hsigner, hv, hact⟩

/-- What is assembled fits its lengths, and has an operand for every opcode and a line that is not
too short. -/
def Assembles (ret para : List DataType) (ids operands : List ByteStr) : Prop :=
  ret.length ≤ 32767 ∧ para.length ≤ 32767 ∧ ids.length ≤ operands.length ∧
    (Deser.serializeArrays (opcLinesOf ids operands)).length ≤ 32767 ∧
    ¬ (opcLinesOf ids operands).all fun opc => opc.length < 2

instance (ret para : List DataType) (ids operands : List ByteStr) :
    Decidable (Assembles ret para ids operands) := inferInstanceAs (Decidable (_ ∧ _))

/-- An assembled function succeeds if its data is of the types of its parameters and its lines
succeed. -/
theorem apply_function_iff {index : Int16} {ret para : List DataType} {ids operands : List ByteStr}
    (hfunc : context.opcFunc = function index ret para (listOpc ids operands))
    (h : Assembles ret para ids operands) :
    apply context data = .ok d ↔
      DataType.checkTypes (para.map DataType.id) (data.map fun d => d.dataType.id) ∧
      ∃ data', (opcLinesOf ids operands).foldlM (step context) (OpcDiff.empty, data)
        = .ok (d, data') := by
  obtain ⟨hret, hpara, hoperands, hlines, hlong⟩ := h
  rw [← List.length_map DataType.id] at hret hpara
  have hread := fromBytes_assembled index 0 hret hpara hoperands hlines
  rw [apply, hfunc, function, hread]
  simp only [ite_left_eq_ok_iff, not_not, hlong, Bool.false_eq_true, not_false_eq_true, true_and]
  refine and_congr_right fun _ => ?_
  constructor
  · intro h
    obtain ⟨⟨d', data'⟩, hfold, h⟩ := bind_eq_ok_iff.mp h
    obtain rfl := Except.ok.inj h
    exact ⟨data', hfold⟩
  · rintro ⟨data', hfold⟩
    rw [hfold]
    rfl

omit [Platform] in
/-- As many values as parameters. -/
theorem length_of_checkTypes {para types : ByteStr} (h : DataType.checkTypes para types) :
    types.length = para.length := by
  rw [DataType.checkTypes, decide_eq_true_iff] at h
  exact h.1.symm

/-- A transfer from an account that has signed. -/
theorem authorised_transfer {signer : PublicKeyAccount} {sender recipient amount : DataEntry}
    (hsender : sender = ⟨signer.toAddress.bytes, .address⟩)
    (h : TDBAOpcDiff.transfer (untouched context) sender recipient amount firstToken = .ok d) :
    d.Authorised context.state context.contractId signer.toAddress := by
  obtain ⟨hdb, htokens, hinfo, htotal, hbalance⟩ := TDBAOpcDiff.transfer_keys h
  rw [tokens_untouched] at hbalance
  refine ⟨by rw [hdb]; exact Finmap.lookup_empty _, fun v hv => ?_, htokens, fun i key v hv => ?_,
    fun i v hv => ?_, fun i a v ha hv => ?_⟩
  · rw [hdb, Finmap.lookup_empty] at hv
    cases hv
  · rw [hinfo, Finmap.lookup_empty] at hv
    cases hv
  · cases (htotal i).symm.trans hv
  · refine hbalance i a v (fun hbytes => ha (Address.ext ?_)) hv
    rw [hbytes, hsender]

/-- A change of supply for an issuer that has signed. -/
theorem authorised_supply {signer : PublicKeyAccount} {issuer : DataEntry}
    (hissuer : issuer = ⟨signer.toAddress.bytes, .address⟩)
    (hvar : context.state.VariableIs context.contractId StateVar.issuer signer.toAddress)
    (h : d.contractDB = ∅ ∧ d.contractTokens = ∅ ∧ d.tokenDB = ∅ ∧
      Dict.KeysIn (TDBAOpcDiff.SupplyKey (untouched context) issuer) d.tokenAccountBalance) :
    d.Authorised context.state context.contractId signer.toAddress := by
  obtain ⟨hdb, htokens, hinfo, hkeys⟩ := h
  refine ⟨by rw [hdb]; exact Finmap.lookup_empty _, fun v hv => ?_, htokens, fun i key v hv => ?_,
    fun _ _ _ => hvar, fun i a v ha hv => ?_⟩
  · rw [hdb, Finmap.lookup_empty] at hv
    cases hv
  · rw [hinfo, Finmap.lookup_empty] at hv
    cases hv
  · -- the only balance under a key of the supply is the issuer's
    obtain hkey | hkey := hkeys _ _ hv
    · exact absurd hkey.symm tokenKey_ne_balanceKey
    · rw [hissuer] at hkey
      exact absurd (balanceKey_inj.mp hkey).2.2 ha

/-- The functions of the permitted contracts, by their names in `FunId` and `FunIdWithoutSplit`. -/
inductive FunId where
  | supersede
  | issue
  | destroy
  | split
  | send
  | transfer
  | deposit
  | withdraw
  | totalSupply
  | maxSupply
  | balanceOf
  | getIssuer

/-- The bytes of a function, with its index in a contract. -/
def FunId.func (index : Int16) : FunId → ByteStr
  | supersede => supersedeFunc
  | issue => issueFunc
  | destroy => destroyFunc
  | split => splitFunc
  | send => sendFunc index
  | transfer => transferFunc index
  | deposit => depositFunc index
  | withdraw => withdrawFunc index
  | totalSupply => totalSupplyFunc index
  | maxSupply => maxSupplyFunc index
  | balanceOf => balanceOfFunc index
  | getIssuer => getIssuerFunc index

/-- The functions of a permitted contract in the order of their indices: those of `FunId`, or those
of `FunIdWithoutSplit`. -/
def funIds (c : Contract) : List FunId :=
  if c = contract then
    [.supersede, .issue, .destroy, .split, .send, .transfer, .deposit, .withdraw, .totalSupply,
      .maxSupply, .balanceOf, .getIssuer]
  else
    [.supersede, .issue, .destroy, .send, .transfer, .deposit, .withdraw, .totalSupply,
      .maxSupply, .balanceOf, .getIssuer]

omit [Platform] in
/-- The permitted contracts have the same state variables. -/
theorem stateVar_eq {c : Contract} (hc : c.IsPermitted) : c.stateVar = stateVar := by
  obtain rfl | rfl := hc
  · rfl
  · rfl

omit [Platform] in
/-- The permitted contracts have the same trigger. -/
theorem trigger_eq {c : Contract} (hc : c.IsPermitted) :
    (c.trigger.find? fun a => a[2]? = some 0).getD [] = initFunc := by
  obtain rfl | rfl := hc
  · decide
  · decide

omit [Platform] in
/-- The permitted contracts have the same functions, but for `split`. -/
theorem descriptor_eq {c : Contract} (hc : c.IsPermitted) :
    c.descriptor = (funIds c).mapIdx fun i f => f.func (Int16.ofNat i) := by
  obtain rfl | rfl := hc
  · rw [funIds, if_pos rfl]
    rfl
  · have hne : contractWithoutSplit ≠ contract := by decide +kernel
    rw [funIds, if_neg hne]
    rfl

omit [Platform] in
/-- A function of a permitted contract is one of the known functions, at some index. -/
theorem exists_funId {c : Contract} (hc : c.IsPermitted) {f : ByteStr} (hf : f ∈ c.descriptor) :
    ∃ (id : FunId) (index : Int16), f = id.func index := by
  rw [descriptor_eq hc] at hf
  obtain ⟨i, hi, rfl⟩ := List.mem_mapIdx.mp hf
  exact ⟨_, _, rfl⟩

/-- A function that ends with a value to return does not succeed. -/
theorem return_last_ne_ok {opc : ByteStr} {pointer : Byte} :
    [opc, [9, 1, pointer]].foldlM (step context) (OpcDiff.empty, data) ≠ .ok (d, data') := by
  intro h
  obtain ⟨⟨d₁, data₁⟩, -, h⟩ := foldlM_cons_eq_ok_iff.mp h
  obtain ⟨st, hreturn, -⟩ := foldlM_cons_eq_ok_iff.mp h
  obtain ⟨e, happly, -⟩ := step_eq_ok hreturn
  exact OpcDiffer.return_ne_ok happly

section Functions

variable {index : Int16}

/-- A function that succeeds has been called by a signer who is allowed what it does. -/
def CalledBySigner (context : ExecutionContext) (d : OpcDiff) : Prop :=
  ∃ signer, context.signers.head? = some signer ∧
    d.Authorised context.state context.contractId signer.toAddress

/-- Only the maker's signature lets `supersede` succeed. -/
theorem calledBySigner_supersede (hvars : context.stateVar = stateVar)
    (hfunc : context.opcFunc = supersedeFunc) (h : apply context data = .ok d) :
    CalledBySigner context d := by
  obtain ⟨htypes, data', hrun⟩ := (apply_function_iff hfunc (by decide)).mp h
  obtain ⟨x, rfl⟩ := List.length_eq_one_iff.mp (List.length_map _ ▸ length_of_checkTypes htypes)
  obtain ⟨signer, hsigner, hmaker, hact⟩ := guarded_eq_ok hvars (.inr rfl) (.inr rfl) hrun
  have hstart : (untouched context).stateVar = stateVar := hvars
  obtain ⟨-, hdb, htokens, hinfo, hbalance⟩ := OpcDiffer.set_eq_ok hstart (.inl rfl) rfl hact
  refine ⟨signer, hsigner, ?_, fun _ _ => hmaker, htokens, fun i key v hv => ?_, fun i v hv => ?_,
    fun i a v _ hv => ?_⟩
  · rw [hdb, Dict.lookup_singleton, if_neg]
    intro hkey
    exact absurd (stateVarKey_inj.mp hkey).2 (by decide)
  · rw [hinfo, Finmap.lookup_empty] at hv
    cases hv
  · rw [hbalance, Finmap.lookup_empty] at hv
    cases hv
  · rw [hbalance, Finmap.lookup_empty] at hv
    cases hv

/-- Only the issuer's signature lets `issue` succeed. -/
theorem calledBySigner_issue (hvars : context.stateVar = stateVar)
    (hfunc : context.opcFunc = issueFunc) (h : apply context data = .ok d) :
    CalledBySigner context d := by
  obtain ⟨htypes, data', hrun⟩ := (apply_function_iff hfunc (by decide)).mp h
  obtain ⟨x, rfl⟩ := List.length_eq_one_iff.mp (List.length_map _ ▸ length_of_checkTypes htypes)
  obtain ⟨signer, hsigner, hissuer, hact⟩ := guarded_eq_ok hvars (.inl rfl) (.inl rfl) hrun
  have hdeposit : TDBAOpcDiff.deposit (untouched context) ⟨signer.toAddress.bytes, .address⟩ x
      firstToken = .ok d := (OpcDiffer.keepingData_eq_ok hact).1
  exact ⟨signer, hsigner, authorised_supply rfl hissuer (TDBAOpcDiff.deposit_keys hdeposit)⟩

/-- Only the issuer's signature lets `destroy` succeed. -/
theorem calledBySigner_destroy (hvars : context.stateVar = stateVar)
    (hfunc : context.opcFunc = destroyFunc) (h : apply context data = .ok d) :
    CalledBySigner context d := by
  obtain ⟨htypes, data', hrun⟩ := (apply_function_iff hfunc (by decide)).mp h
  obtain ⟨x, rfl⟩ := List.length_eq_one_iff.mp (List.length_map _ ▸ length_of_checkTypes htypes)
  obtain ⟨signer, hsigner, hissuer, hact⟩ := guarded_eq_ok hvars (.inl rfl) (.inl rfl) hrun
  have hwithdraw : TDBAOpcDiff.withdraw (untouched context) ⟨signer.toAddress.bytes, .address⟩ x
      firstToken = .ok d := (OpcDiffer.keepingData_eq_ok hact).1
  exact ⟨signer, hsigner, authorised_supply rfl hissuer (TDBAOpcDiff.withdraw_keys hwithdraw)⟩

/-- Only the issuer's signature lets `split` succeed. -/
theorem calledBySigner_split (hvars : context.stateVar = stateVar)
    (hfunc : context.opcFunc = splitFunc) (h : apply context data = .ok d) :
    CalledBySigner context d := by
  obtain ⟨htypes, data', hrun⟩ := (apply_function_iff hfunc (by decide)).mp h
  obtain ⟨x, rfl⟩ := List.length_eq_one_iff.mp (List.length_map _ ▸ length_of_checkTypes htypes)
  obtain ⟨signer, hsigner, hissuer, hact⟩ := guarded_eq_ok hvars (.inl rfl) (.inl rfl) hrun
  have hsplit : TDBOpcDiff.split (untouched context) x firstToken = .ok d :=
    (OpcDiffer.keepingData_eq_ok hact).1
  obtain ⟨hdb, htokens, hbalance, hkeys⟩ := TDBOpcDiff.split_keys hsplit
  refine ⟨signer, hsigner, ?_, fun v hv => ?_, htokens, fun i key v hv => ?_, fun i v hv => ?_,
    fun i a v _ hv => ?_⟩
  · rw [hdb]
    exact Finmap.lookup_empty _
  · rw [hdb, Finmap.lookup_empty] at hv
    cases hv
  · exact ⟨(tokenKey_inj.mp (hkeys _ _ hv)).2.2, hissuer⟩
  · rw [hbalance, Finmap.lookup_empty] at hv
    cases hv
  · rw [hbalance, Finmap.lookup_empty] at hv
    cases hv

/-- `send` takes from the account of its signer only. -/
theorem calledBySigner_send (hfunc : context.opcFunc = sendFunc index)
    (h : apply context data = .ok d) : CalledBySigner context d := by
  obtain ⟨htypes, data', hrun⟩ := (apply_function_iff hfunc (by decide)).mp h
  obtain ⟨r, a, rfl⟩ := List.length_eq_two.mp (List.length_map _ ▸ length_of_checkTypes htypes)
  obtain ⟨data₁, ⟨signer, hsigner, hdata⟩, hact⟩ := foldlM_two
    (fun happly => OpcDiffer.load_eq_ok (.inr rfl) happly) hrun
  have hstack : data₁ = [r, a, ⟨signer.toAddress.bytes, .address⟩] := hdata
  subst hstack
  have htransfer : TDBAOpcDiff.transfer (untouched context) ⟨signer.toAddress.bytes, .address⟩ r a
      firstToken = .ok d := (OpcDiffer.keepingData_eq_ok hact).1
  exact ⟨signer, hsigner, authorised_transfer rfl htransfer⟩

/-- The lines of `transfer` and of `deposit`. -/
theorem calledBySigner_of_lines {s r a : DataEntry}
    (h : [[1, 6, 0], [7, 3, 0, 1, 2]].foldlM (step context) (OpcDiff.empty, [s, r, a])
      = .ok (d, data')) : CalledBySigner context d := by
  obtain ⟨data₁, ⟨rfl, signer, hsigner, hs⟩, hact⟩ := foldlM_two
    (fun happly => OpcDiffer.assert_eq_ok (.inl rfl) happly rfl) h
  have htransfer : TDBAOpcDiff.transfer (untouched context) s r a firstToken = .ok d :=
    (OpcDiffer.keepingData_eq_ok hact).1
  exact ⟨signer, hsigner, authorised_transfer hs htransfer⟩

/-- `transfer` takes from the account of its signer only. -/
theorem calledBySigner_transfer (hfunc : context.opcFunc = transferFunc index)
    (h : apply context data = .ok d) : CalledBySigner context d := by
  obtain ⟨htypes, data', hrun⟩ := (apply_function_iff hfunc (by decide)).mp h
  obtain ⟨s, r, a, rfl⟩ := List.length_eq_three.mp
    (List.length_map _ ▸ length_of_checkTypes htypes)
  exact calledBySigner_of_lines hrun

/-- `deposit` takes from the account of its signer only. -/
theorem calledBySigner_deposit (hfunc : context.opcFunc = depositFunc index)
    (h : apply context data = .ok d) : CalledBySigner context d := by
  obtain ⟨htypes, data', hrun⟩ := (apply_function_iff hfunc (by decide)).mp h
  obtain ⟨s, r, a, rfl⟩ := List.length_eq_three.mp
    (List.length_map _ ▸ length_of_checkTypes htypes)
  exact calledBySigner_of_lines hrun

/-- `withdraw` checks the recipient alone, but takes from a contract, which no transfer does. -/
theorem withdraw_ne_ok (hfunc : context.opcFunc = withdrawFunc index) :
    apply context data ≠ .ok d := by
  intro h
  obtain ⟨htypes, data', hrun⟩ := (apply_function_iff hfunc (by decide)).mp h
  obtain ⟨s, r, a, rfl⟩ := List.length_eq_three.mp
    (List.length_map _ ▸ length_of_checkTypes htypes)
  obtain ⟨data₁, ⟨rfl, -⟩, hact⟩ := foldlM_two
    (fun happly => OpcDiffer.assert_eq_ok (.inl rfl) happly rfl) hrun
  have htransfer : TDBAOpcDiff.transfer (untouched context) s r a firstToken = .ok d :=
    (OpcDiffer.keepingData_eq_ok hact).1
  unfold TDBAOpcDiff.transfer at htransfer
  simp only [ite_left_eq_ok_iff, not_or, not_not] at htransfer
  obtain ⟨-, -, ⟨haddress, -⟩, -⟩ := htransfer
  simp only [List.map_cons, haddress] at htypes
  exact absurd htypes (by simp [DataType.checkTypes, DataType.check, DataType.id])

end Functions

/-- Every function of a permitted contract that succeeds has been called by a signer who is allowed
what it does. -/
theorem calledBySigner_of_apply {c : Contract} (hc : c.IsPermitted)
    (hvars : context.stateVar = c.stateVar) (hfunc : context.opcFunc ∈ c.descriptor)
    (h : apply context data = .ok d) : CalledBySigner context d := by
  have hstate : context.stateVar = stateVar := hvars.trans (stateVar_eq hc)
  obtain ⟨id, index, hf⟩ := exists_funId hc hfunc
  -- a function that returns a value never gets there
  have hreturns {index : Int16} {ret para : List DataType} {opc operands : ByteStr} {pointer : Byte}
      (hf : context.opcFunc = function index ret para
        (listOpc [opc, [9, 1]] [operands, [pointer]]))
      (hassembles : Assembles ret para [opc, [9, 1]] [operands, [pointer]]) :
      CalledBySigner context d := by
    obtain ⟨-, data', hrun⟩ := (apply_function_iff hf hassembles).mp h
    exact (return_last_ne_ok hrun).elim
  cases id with
  | supersede => exact calledBySigner_supersede hstate hf h
  | issue => exact calledBySigner_issue hstate hf h
  | destroy => exact calledBySigner_destroy hstate hf h
  | split => exact calledBySigner_split hstate hf h
  | send => exact calledBySigner_send hf h
  | transfer => exact calledBySigner_transfer hf h
  | deposit => exact calledBySigner_deposit hf h
  | withdraw => exact (withdraw_ne_ok hf h).elim
  | totalSupply => exact hreturns hf (by decide)
  | maxSupply => exact hreturns hf (by decide)
  | balanceOf => exact hreturns hf (by decide)
  | getIssuer => exact hreturns hf (by decide)

/-- The trigger of a permitted contract makes its signer the issuer and the maker. -/
theorem initFunc_eq_ok (hvars : context.stateVar = stateVar) (hfunc : context.opcFunc = initFunc)
    (h : apply context data = .ok d) :
    ∃ signer, context.signers.head? = some signer ∧
      ∀ var, var = StateVar.issuer ∨ var = StateVar.maker →
        d.contractDB.lookup (stateVarKey context.contractId var)
          = some (⟨signer.toAddress.bytes, .address⟩ : DataEntry).bytes := by
  obtain ⟨htypes, data', hrun⟩ := (apply_function_iff hfunc (by decide)).mp h
  obtain ⟨max, unity, desc, rfl⟩ := List.length_eq_three.mp
    (List.length_map _ ▸ length_of_checkTypes htypes)
  obtain ⟨⟨d₁, data₁⟩, hload, hrun⟩ := foldlM_cons_eq_ok_iff.mp hrun
  obtain ⟨rfl, signer, hsigner, hdata⟩ := OpcDiffer.load_eq_ok (.inl rfl) (step_untouched hload)
  have hstack : data₁ = [max, unity, desc, ⟨signer.toAddress.bytes, .address⟩] := hdata
  subst hstack
  obtain ⟨⟨d₂, data₂⟩, hissuer, hrun⟩ := foldlM_cons_eq_ok_iff.mp hrun
  have hstart : (untouched context).stateVar = stateVar := hvars
  obtain ⟨rfl, hdb₂, -⟩ := OpcDiffer.set_eq_ok hstart (.inl rfl) rfl (step_untouched hissuer)
  obtain ⟨⟨d₃, data₃⟩, hmaker, hrun⟩ := foldlM_cons_eq_ok_iff.mp hrun
  obtain ⟨e₃, hset, rfl⟩ := step_eq_ok hmaker
  have hlater : ({ context with state := stateSoFar context d₂ } : ExecutionContext).stateVar
      = stateVar := hvars
  obtain ⟨rfl, hdb₃, -⟩ := OpcDiffer.set_eq_ok hlater (.inr rfl) rfl hset
  obtain ⟨st, htoken, hrun⟩ := foldlM_cons_eq_ok_iff.mp hrun
  obtain rfl := Except.ok.inj hrun
  obtain ⟨e₄, hnew, rfl⟩ := step_eq_ok htoken
  have hdb₄ := TDBOpcDiff.newToken_contractDB (OpcDiffer.keepingData_eq_ok hnew).1
  refine ⟨signer, hsigner, fun var hvar => ?_⟩
  have hlookup : ((d₂.combine e₃).combine e₄).contractDB.lookup (stateVarKey context.contractId var)
      = (e₃.contractDB.lookup (stateVarKey context.contractId var)).or
        (d₂.contractDB.lookup (stateVarKey context.contractId var)) := by
    simp only [OpcDiff.combine, hdb₄, Dict.lookup_overlay, Finmap.lookup_empty, Option.none_or]
  -- The last line writes no variable, and the two before it write one each.
  rw [hlookup, hdb₃, hdb₂]
  obtain rfl | rfl := hvar
  · have hne : stateVarKey context.contractId StateVar.issuer
        ≠ stateVarKey context.contractId StateVar.maker :=
      fun hkey => absurd (stateVarKey_inj.mp hkey).2 (by decide)
    rw [Dict.lookup_singleton, if_neg hne, Option.none_or]
    exact Finmap.lookup_singleton_eq
  · rw [Finmap.lookup_singleton_eq, Option.some_or]

end OpcFuncDiffer

end Vsys
