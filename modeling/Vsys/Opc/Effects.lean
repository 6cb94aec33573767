import Vsys.Opc.Tokens

/-!
# What each opcode does

The effect of every opcode on the tokens of its contract, and the entries it leaves on the stack.
An opcode that writes has one of the effects of `OpcDiff.TokenEffect`; one that reads replaces one
entry of the stack by a valid one.
-/

namespace Vsys

open Lib

variable [Platform]

/-- Every entry a state gives out is valid. -/
structure StateView.EntriesValid (s : StateView) : Prop where
  contractInfo : ∀ k d, s.contractInfo k = .ok (some d) → d.Valid
  tokenInfo : ∀ k d, s.tokenInfo k = .ok (some d) → d.Valid

/-- A diff writes entries as bytes, so what is read through it is valid again. -/
theorem StateView.EntriesValid.view {s : StateView} (h : s.EntriesValid) (d : BlockDiff) :
    (CompositeStateReader.view s d).EntriesValid := by
  have hread {bytes : ByteStr} {e : DataEntry}
      (he : some <$> explicitGet (DataEntry.fromBytes bytes) = .ok (some e)) : e.Valid := by
    obtain ⟨e', he', heq⟩ := map_eq_ok_iff.mp he
    obtain rfl := Option.some.inj heq
    exact DataEntry.valid_of_fromBytes (explicitGet_eq_ok_iff.mp he')
  constructor
  · intro k e he
    simp only [CompositeStateReader.view] at he
    split at he
    · exact hread he
    · exact h.contractInfo k e he
  · intro k e he
    simp only [CompositeStateReader.view] at he
    split at he
    · exact hread he
    · exact h.tokenInfo k e he

/-- A valid entry patched into valid data leaves it valid. -/
theorem ValidData.patch {data : List DataEntry} {pointer : Byte} {v : DataEntry}
    (h : ValidData data) (hv : v.Valid) : ValidData (patch data pointer v) := by
  intro d hd
  simp only [Vsys.patch, List.append_assoc, List.mem_append, List.mem_singleton] at hd
  obtain hd | rfl | hd := hd
  · exact h d (List.mem_of_mem_take hd)
  · exact hv
  · exact h d (List.mem_of_mem_drop hd)

omit [Platform] in
/-- A local variable is one of the data. -/
theorem localVariable_mem {data : List DataEntry} {index : Byte} {v : DataEntry}
    (h : localVariable data index = some v) : v ∈ data := by
  unfold localVariable at h
  split at h
  · exact List.mem_of_getElem? h
  · cases h

omit [Platform] in
/-- The variables an opcode names are entries of the stack. -/
theorem localVariables_mem {data : List DataEntry} {indices : ByteStr} {vs : List DataEntry}
    (h : localVariables data indices = some vs) : ∀ v ∈ vs, v ∈ data := by
  induction indices generalizing vs with
  | nil =>
      obtain rfl := Option.some.inj h
      simp
  | cons index rest ih =>
      rw [localVariables, List.mapM_cons] at h
      obtain ⟨v, hv, h⟩ := Option.bind_eq_some_iff.mp h
      obtain ⟨vs', hvs, h⟩ := Option.bind_eq_some_iff.mp h
      obtain rfl := Option.some.inj h
      intro w hw
      obtain rfl | hw := List.mem_cons.mp hw
      · exact localVariable_mem hv
      · exact ih hvs w hw

namespace AssertOpcDiff

/-- An assertion on an amount changes nothing. -/
theorem assertAmount_eq_ok {check : Int64 → Bool} {text : String} {v : DataEntry} {d : OpcDiff}
    (h : assertAmount check text v = .ok d) : d = OpcDiff.empty := by
  obtain ⟨_, _, h⟩ := bind_eq_ok_iff.mp h
  split at h
  · exact (Except.ok.inj h).symm
  · exact (left_ne_ok.mp h).elim

/-- The check of the caller changes nothing, and passes with the address of the first signer
only. -/
theorem isOrigin_eq_ok {error : ValidationError} {context : ExecutionContext} {address : DataEntry}
    {d : OpcDiff} (h : isOrigin error context address = .ok d) :
    d = OpcDiff.empty ∧ address.dataType = .address ∧
      ∃ signer, context.signers.head? = some signer ∧ address.data = signer.toAddress.bytes := by
  obtain ⟨signer, hsigner, h⟩ := bind_eq_ok_iff.mp h
  split at h
  · exact (left_ne_ok.mp h).elim
  · rename_i htype
    split at h
    · exact (left_ne_ok.mp h).elim
    · rename_i hdata
      exact ⟨(Except.ok.inj h).symm, not_not.mp htype, signer, getOrRaise_eq_ok_iff.mp hsigner,
        not_not.mp hdata⟩

/-- An equality changes nothing. -/
theorem eq_eq_ok {add1 add2 : DataEntry} {d : OpcDiff} (h : eq add1 add2 = .ok d) :
    d = OpcDiff.empty := by
  have hamount (h : (if add1.dataType = .amount ∧ add2.dataType = .amount then do
        let value1 ← Longs.fromByteArray add1.data
        let value2 ← Longs.fromByteArray add2.data
        if value1 = value2 then return OpcDiff.empty
        left (.genericError "Invalid Assert (eq): DataEntry is not equal")
      else left (.genericError "Invalid Assert (eq): DataEntry is not equal") : Result OpcDiff)
      = .ok d) : d = OpcDiff.empty := by
    split at h
    · obtain ⟨_, _, h⟩ := bind_eq_ok_iff.mp h
      obtain ⟨_, _, h⟩ := bind_eq_ok_iff.mp h
      split at h
      · exact (Except.ok.inj h).symm
      · exact (left_ne_ok.mp h).elim
    · exact (left_ne_ok.mp h).elim
  unfold eq at h
  simp only at h
  split at h
  · obtain ⟨b, _, h⟩ := bind_eq_ok_iff.mp h
    cases b with
    | true => exact (Except.ok.inj h).symm
    | false => exact hamount h
  · exact hamount h

/-- A comparison changes nothing. -/
theorem ltEq_eq_ok {v1 v2 : DataEntry} {d : OpcDiff} (h : ltEq v1 v2 = .ok d) :
    d = OpcDiff.empty := by
  unfold ltEq at h
  split at h
  · obtain ⟨_, _, h⟩ := bind_eq_ok_iff.mp h
    obtain ⟨_, _, h⟩ := bind_eq_ok_iff.mp h
    split at h
    · exact (Except.ok.inj h).symm
    · exact (left_ne_ok.mp h).elim
  · obtain ⟨_, _, h⟩ := bind_eq_ok_iff.mp h
    exact (left_ne_ok.mp h).elim

/-- An assertion that holds has no effect. -/
theorem parseBytes_eq_ok {context : ExecutionContext} {bytes : ByteStr} {data : List DataEntry}
    {d : OpcDiff} (h : parseBytes context bytes data = .ok d) : d = OpcDiff.empty := by
  unfold parseBytes at h
  split at h
  · exact (raise_ne_ok.mp h).elim
  · split at h
    · exact assertAmount_eq_ok h
    · exact ltEq_eq_ok h
    · exact assertAmount_eq_ok h
    · unfold gt0 at h
      split at h
      · exact assertAmount_eq_ok h
      · exact (left_ne_ok.mp h).elim
    · exact eq_eq_ok h
    · exact (isOrigin_eq_ok h).1
    · exact (isOrigin_eq_ok h).1
    · exact (left_ne_ok.mp h).elim

end AssertOpcDiff

/-- The signer of a context, when an opcode could load it. -/
theorem LoadOpcDiff.parseBytes_eq_ok {context : ExecutionContext} {bytes : ByteStr}
    {data data' : List DataEntry} (h : LoadOpcDiff.parseBytes context bytes data = .ok data') :
    ∃ pointer signer, context.signers.head? = some signer ∧
      data' = patch data pointer ⟨signer.toAddress.bytes, .address⟩ := by
  have hsigner {pointer : Byte} (h : LoadOpcDiff.signer context data pointer = .ok data') :
      ∃ pointer signer, context.signers.head? = some signer ∧
        data' = patch data pointer ⟨signer.toAddress.bytes, .address⟩ := by
    unfold LoadOpcDiff.signer at h
    split at h
    · exact (left_ne_ok.mp h).elim
    · obtain ⟨signer, hsigner, h⟩ := bind_eq_ok_iff.mp h
      exact ⟨pointer, signer, getOrRaise_eq_ok_iff.mp hsigner, (Except.ok.inj h).symm⟩
  unfold LoadOpcDiff.parseBytes at h
  split at h
  · exact (raise_ne_ok.mp h).elim
  · exact hsigner h
  · exact hsigner h
  · exact (left_ne_ok.mp h).elim

namespace CDBVOpcDiff

/-- Setting a state variable touches no token. -/
theorem set_eq_ok {context : ExecutionContext} {stateVar : ByteStr} {value : DataEntry}
    {d : OpcDiff} (h : set context stateVar value = .ok d) :
    ∃ index, Contract.checkStateVar stateVar value.dataType = .ok true ∧
      stateVar.head? = some index ∧
      d.contractDB = Finmap.singleton (stateVarKey context.contractId index) value.bytes ∧
      d.contractTokens = ∅ ∧ d.tokenDB = ∅ ∧ d.tokenAccountBalance = ∅ := by
  obtain ⟨b, hcheck, h⟩ := bind_eq_ok_iff.mp h
  cases b with
  | false => exact (left_ne_ok.mp h).elim
  | true =>
      obtain ⟨index, hindex, h⟩ := bind_eq_ok_iff.mp h
      refine ⟨index, hcheck, getOrRaise_eq_ok_iff.mp hindex, ?_⟩
      dsimp only at h
      split at h
      · obtain ⟨a, _, h⟩ := bind_eq_ok_iff.mp h
        obtain rfl := Except.ok.inj h
        exact ⟨rfl, rfl, rfl, rfl⟩
      · obtain rfl := Except.ok.inj h
        exact ⟨rfl, rfl, rfl, rfl⟩

/-- A line that writes a state variable changes no token and no balance. -/
theorem parseBytes_eq_ok {context : ExecutionContext} {bytes : ByteStr} {data : List DataEntry}
    {d : OpcDiff} (h : parseBytes context bytes data = .ok d) :
    d.contractTokens = ∅ ∧ d.tokenDB = ∅ ∧ d.tokenAccountBalance = ∅ := by
  unfold parseBytes at h
  split at h
  · exact (raise_ne_ok.mp h).elim
  · split at h
    · obtain ⟨_, _, _, _, hd⟩ := set_eq_ok h
      exact hd
    · exact (left_ne_ok.mp h).elim
  · exact (left_ne_ok.mp h).elim

end CDBVOpcDiff

/-- A state variable an opcode reads replaces one entry of the stack. -/
theorem CDBVROpcDiff.parseBytes_eq_ok {context : ExecutionContext} {bytes : ByteStr}
    {data data' : List DataEntry} (h : CDBVROpcDiff.parseBytes context bytes data = .ok data') :
    ∃ pointer k v, context.state.contractInfo k = .ok (some v) ∧ data' = patch data pointer v := by
  unfold CDBVROpcDiff.parseBytes at h
  split at h
  · exact (raise_ne_ok.mp h).elim
  · split at h
    · obtain ⟨_, _, h⟩ := bind_eq_ok_iff.mp h
      obtain ⟨_, _, h⟩ := bind_eq_ok_iff.mp h
      obtain ⟨b, _, h⟩ := bind_eq_ok_iff.mp h
      cases b with
      | false => exact (left_ne_ok.mp h).elim
      | true =>
          rw [if_pos rfl] at h
          split at h
          · exact (left_ne_ok.mp h).elim
          · obtain ⟨_, _, h⟩ := bind_eq_ok_iff.mp h
            obtain ⟨v, hv, h⟩ := bind_eq_ok_iff.mp h
            cases v with
            | none => exact (left_ne_ok.mp h).elim
            | some v => exact ⟨_, _, v, hv, (Except.ok.inj h).symm⟩
    · exact (left_ne_ok.mp h).elim
  · exact (left_ne_ok.mp h).elim

omit [Platform] in
/-- The index of the first token has four bytes. -/
theorem firstToken_length : firstToken.dataType = .int32 → firstToken.data.length = 4 :=
  fun _ => Ints.length_toByteArray 0

/-- The bytes of an index name the token of that index. -/
theorem tokenIdOf_toByteArray (context : ExecutionContext) (index : Int32) :
    tokenIdOf context (Ints.toByteArray index) = .ok (context.contractId.tokenId index) := by
  rw [tokenIdOf, ContractAccount.tokenIdFromBytes_toByteArray]
  rfl

namespace TDBOpcDiff

variable {context : ExecutionContext} {d : OpcDiff}

/-- A new token takes the next index. -/
theorem newToken_eq_ok {max unity desc : DataEntry} (hmax : max.Valid)
    (h : newToken context max unity desc = .ok d) :
    d.TokenEffect context.state.tokens context.contractId := by
  unfold newToken at h
  split at h
  · exact (left_ne_ok.mp h).elim
  · rename_i htypes
    obtain ⟨m, hm, h⟩ := bind_eq_ok_iff.mp h
    split at h
    · exact (left_ne_ok.mp h).elim
    · rename_i hnonneg
      obtain ⟨_, _, h⟩ := bind_eq_ok_iff.mp h
      split at h
      · exact (left_ne_ok.mp h).elim
      · dsimp only at h
        rw [tokenIdOf_toByteArray, ok_bind] at h
        obtain rfl := Except.ok.inj h
        exact .newToken max unity desc m hmax (not_not.mp (not_or.mp htypes).1) hm
          (Int64.not_lt.mp hnonneg) rfl rfl rfl

/-- Splitting a token writes the token database only, and counts no token. -/
theorem split_eq_ok {newUnity tokenIndex : DataEntry} (hindex : tokenIndex.dataType = .int32 → tokenIndex.data.length = 4)
    (h : split context newUnity tokenIndex = .ok d) :
    d.TokenEffect context.state.tokens context.contractId ∧ d.contractTokens = ∅ := by
  unfold split at h
  split at h
  · exact (left_ne_ok.mp h).elim
  · rename_i htypes
    simp only [not_or, not_not] at htypes
    obtain ⟨i, hi, h⟩ := bind_eq_ok_iff.mp h
    obtain ⟨_, _, h⟩ := bind_eq_ok_iff.mp h
    rw [tokenIdOf_eq (hindex htypes.2) hi, ok_bind] at h
    split at h
    · exact (left_ne_ok.mp h).elim
    · split at h
      · exact (left_ne_ok.mp h).elim
      · obtain rfl := Except.ok.inj h
        exact ⟨.split i newUnity rfl rfl rfl, rfl⟩

end TDBOpcDiff

namespace TDBAOpcDiff

variable {context : ExecutionContext} {d : OpcDiff}

omit [Platform] in
/-- What the range check of an index leaves. -/
theorem index_of_not {n i : Int32} (h : ¬ (n ≤ i ∨ i < 0)) : 0 ≤ i ∧ i < n :=
  ⟨Int32.not_lt.mp (not_or.mp h).2, Int32.not_le.mp (not_or.mp h).1⟩

omit [Platform] in
/-- What the overflow check of a sum leaves. -/
theorem inWord_of_not {x y : Int64} (h : ¬ (addExact x y).isNone = true) :
    InWord (x.toInt + y.toInt) := by
  by_contra hword
  exact h (by rw [addExact_eq_none.mpr hword]; rfl)

/-- A deposit changes the total and one balance by the same amount, and counts no token. -/
theorem deposit_eq_ok {issuer amount tokenIndex : DataEntry} (hindex : tokenIndex.dataType = .int32 → tokenIndex.data.length = 4)
    (h : deposit context issuer amount tokenIndex = .ok d) :
    d.TokenEffect context.state.tokens context.contractId ∧ d.contractTokens = ∅ := by
  unfold deposit at h
  split at h
  · exact (left_ne_ok.mp h).elim
  · rename_i htypes
    simp only [not_or, not_not] at htypes
    obtain ⟨i, hi, h⟩ := bind_eq_ok_iff.mp h
    obtain ⟨x, _, h⟩ := bind_eq_ok_iff.mp h
    rw [tokenIdOf_eq (hindex htypes.2.2) hi, ok_bind] at h
    dsimp only at h
    obtain ⟨maxInfo, hmaxInfo, h⟩ := bind_eq_ok_iff.mp h
    obtain ⟨m, hm, h⟩ := bind_eq_ok_iff.mp h
    split at h
    · exact (left_ne_ok.mp h).elim
    · rename_i hrange
      split at h
      · exact (left_ne_ok.mp h).elim
      · rename_i hsum
        split at h
        · exact (left_ne_ok.mp h).elim
        · rename_i hnonneg
          split at h
          · exact (left_ne_ok.mp h).elim
          · rename_i hmax
            obtain ⟨a, ha, h⟩ := bind_eq_ok_iff.mp h
            obtain rfl := Except.ok.inj h
            have hword := inWord_of_not hsum
            rw [Int64.not_lt, Int64.le_iff_toInt_le, toInt_add_exact hword] at hmax
            refine ⟨.deposit i a x m (index_of_not hrange).1 (index_of_not hrange).2
              (Int64.not_lt.mp hnonneg) hword maxInfo hmaxInfo hm hmax rfl rfl ?_, rfl⟩
            rw [Address.fromBytes_eq_ok_iff.mp (rightGet_eq_ok_iff.mp ha)]

/-- A withdrawal changes the total and one balance by the same amount, and counts no token. -/
theorem withdraw_eq_ok {issuer amount tokenIndex : DataEntry} (hindex : tokenIndex.dataType = .int32 → tokenIndex.data.length = 4)
    (h : withdraw context issuer amount tokenIndex = .ok d) :
    d.TokenEffect context.state.tokens context.contractId ∧ d.contractTokens = ∅ := by
  unfold withdraw at h
  split at h
  · exact (left_ne_ok.mp h).elim
  · rename_i htypes
    simp only [not_or, not_not] at htypes
    obtain ⟨i, hi, h⟩ := bind_eq_ok_iff.mp h
    obtain ⟨x, _, h⟩ := bind_eq_ok_iff.mp h
    rw [tokenIdOf_eq (hindex htypes.2.2) hi, ok_bind] at h
    dsimp only at h
    split at h
    · exact (left_ne_ok.mp h).elim
    · rename_i hrange
      split at h
      · exact (left_ne_ok.mp h).elim
      · rename_i hle
        split at h
        · exact (left_ne_ok.mp h).elim
        · rename_i hnonneg
          obtain ⟨a, ha, h⟩ := bind_eq_ok_iff.mp h
          obtain rfl := Except.ok.inj h
          have hbytes := Address.fromBytes_eq_ok_iff.mp (rightGet_eq_ok_iff.mp ha)
          rw [Int64.not_lt, Int64.le_iff_toInt_le, ← hbytes] at hle
          refine ⟨.withdraw i a x (index_of_not hrange).1 (index_of_not hrange).2
            (Int64.not_lt.mp hnonneg) hle rfl rfl ?_, rfl⟩
          rw [hbytes]

/-- A transfer moves an amount between two balances, and counts no token. -/
theorem transfer_eq_ok {sender recipient amount tokenIndex : DataEntry}
    (hindex : tokenIndex.dataType = .int32 → tokenIndex.data.length = 4)
    (h : transfer context sender recipient amount tokenIndex = .ok d) :
    d.TokenEffect context.state.tokens context.contractId ∧ d.contractTokens = ∅ := by
  unfold transfer at h
  split at h
  · exact (left_ne_ok.mp h).elim
  · split at h
    · exact (left_ne_ok.mp h).elim
    · split at h
      · exact (left_ne_ok.mp h).elim
      · rename_i htypes
        simp only [not_or, not_not] at htypes
        obtain ⟨i, hi, h⟩ := bind_eq_ok_iff.mp h
        obtain ⟨x, _, h⟩ := bind_eq_ok_iff.mp h
        rw [tokenIdOf_eq (hindex htypes.2.2.2) hi, ok_bind] at h
        dsimp only at h
        split at h
        · exact (left_ne_ok.mp h).elim
        · rename_i hrange
          split at h
          · exact (left_ne_ok.mp h).elim
          · rename_i hle
            split at h
            · exact (left_ne_ok.mp h).elim
            · rename_i hsum
              split at h
              · exact (left_ne_ok.mp h).elim
              · rename_i hnonneg
                obtain ⟨s, hs, h⟩ := bind_eq_ok_iff.mp h
                obtain ⟨r, hr, h⟩ := bind_eq_ok_iff.mp h
                have hsbytes := Address.fromBytes_eq_ok_iff.mp (rightGet_eq_ok_iff.mp hs)
                have hrbytes := Address.fromBytes_eq_ok_iff.mp (rightGet_eq_ok_iff.mp hr)
                split at h
                · obtain rfl := Except.ok.inj h
                  exact ⟨.none rfl rfl rfl, rfl⟩
                · rename_i hne
                  obtain rfl := Except.ok.inj h
                  rw [Int64.not_lt, Int64.le_iff_toInt_le, ← hsbytes] at hle
                  rw [← hrbytes] at hsum
                  -- The source compares the entries, and entries of one type differ as their
                  -- addresses do.
                  have hsr : s ≠ r := by
                    rintro rfl
                    refine hne ?_
                    rw [DataEntry.bytes, DataEntry.bytes, htypes.1, htypes.2.1, ← hsbytes, hrbytes]
                  refine ⟨.transfer i s r x hsr (index_of_not hrange).1 (index_of_not hrange).2
                    (Int64.not_lt.mp hnonneg) hle (inWord_of_not hsum) rfl rfl ?_, rfl⟩
                  rw [hsbytes, hrbytes]

/-- Every token opcode that succeeds has one of the effects. -/
theorem parseBytes_eq_ok {bytes : ByteStr} {data : List DataEntry} (hdata : ValidData data)
    (h : parseBytes context bytes data = .ok d) :
    d.TokenEffect context.state.tokens context.contractId ∧ d.contractTokens = ∅ := by
  unfold parseBytes at h
  split at h
  · exact (raise_ne_ok.mp h).elim
  · split at h
    · exact deposit_eq_ok firstToken_length h
    · rename_i hvars
      exact deposit_eq_ok (hdata _ (localVariables_mem hvars _ (by simp))).length_int32 h
    · exact withdraw_eq_ok firstToken_length h
    · rename_i hvars
      exact withdraw_eq_ok (hdata _ (localVariables_mem hvars _ (by simp))).length_int32 h
    · exact transfer_eq_ok firstToken_length h
    · rename_i hvars
      exact transfer_eq_ok (hdata _ (localVariables_mem hvars _ (by simp))).length_int32 h
    · exact (left_ne_ok.mp h).elim

end TDBAOpcDiff

/-- Whether an opcode line creates a token. -/
def isNewToken (opc : ByteStr) : Bool := opc.take 2 = [5, 1]

/-- A line on a token of the contract changes tokens of that contract only, and counts at most
one more. -/
theorem TDBOpcDiff.parseBytes_eq_ok {context : ExecutionContext} {d : OpcDiff} {bytes : ByteStr}
    {data : List DataEntry} (hdata : ValidData data)
    (h : TDBOpcDiff.parseBytes context bytes data = .ok d) :
    d.TokenEffect context.state.tokens context.contractId ∧
      ((d.contractTokens.lookup context.contractId.bytes).isSome → isNewToken (5 :: bytes)) := by
  unfold TDBOpcDiff.parseBytes at h
  split at h
  · exact (raise_ne_ok.mp h).elim
  · split at h
    · rename_i hvars
      exact ⟨newToken_eq_ok (hdata _ (localVariables_mem hvars _ (by simp))) h, fun _ => rfl⟩
    · have hsplit := split_eq_ok firstToken_length h
      exact ⟨hsplit.1, by simp [hsplit.2]⟩
    · rename_i hvars
      have hsplit := split_eq_ok
        (hdata _ (localVariables_mem hvars _ (by simp))).length_int32 h
      exact ⟨hsplit.1, by simp [hsplit.2]⟩
    · exact (left_ne_ok.mp h).elim

namespace TDBROpcDiff

variable {context : ExecutionContext} {tokenIndex : DataEntry} {data data' : List DataEntry}
  {pointer : Byte}

/-- Reading an entry of a token patches its value into the stack. -/
theorem readToken_eq_ok {value : ByteStr → Result DataEntry}
    (h : readToken context tokenIndex data pointer value = .ok data') :
    ∃ tokenID v, value tokenID = .ok v ∧ data' = patch data pointer v := by
  unfold readToken at h
  split at h
  · exact (left_ne_ok.mp h).elim
  · split at h
    · exact (left_ne_ok.mp h).elim
    · obtain ⟨_, _, h⟩ := bind_eq_ok_iff.mp h
      obtain ⟨tokenID, _, h⟩ := bind_eq_ok_iff.mp h
      split at h
      · exact (left_ne_ok.mp h).elim
      · obtain ⟨v, hv, h⟩ := bind_eq_ok_iff.mp h
        exact ⟨tokenID, v, hv, (Except.ok.inj h).symm⟩

/-- Reading the description of a token keeps the stack valid. -/
theorem info_valid {key : TokenKey} (hs : context.state.EntriesValid) (hdata : ValidData data)
    (h : info key context tokenIndex data pointer = .ok data') : ValidData data' := by
  obtain ⟨tokenID, v, hv, rfl⟩ := readToken_eq_ok h
  obtain ⟨o, ho, hv⟩ := bind_eq_ok_iff.mp hv
  cases o with
  | none => exact (left_ne_ok.mp hv).elim
  | some e =>
      obtain rfl := Except.ok.inj hv
      exact hdata.patch (hs.tokenInfo _ _ ho)

/-- Reading the total of a token keeps the stack valid. -/
theorem total_valid (ht : context.state.tokens.Conserved) (hdata : ValidData data)
    (h : total context tokenIndex data pointer = .ok data') : ValidData data' := by
  obtain ⟨tokenID, v, hv, rfl⟩ := readToken_eq_ok h
  obtain rfl := Except.ok.inj hv
  exact hdata.patch (DataEntry.valid_amount (Int64.le_iff_toInt_le.mpr (ht.nonneg _)))

/-- Reading a token keeps the stack valid, whatever is read. -/
theorem read_valid {tdbrType : Byte} (hs : context.state.EntriesValid)
    (ht : context.state.tokens.Conserved) (hdata : ValidData data)
    (h : parseBytes.read context data tdbrType tokenIndex pointer = .ok data') :
    ValidData data' := by
  unfold parseBytes.read at h
  split at h
  · exact info_valid hs hdata h
  · exact total_valid ht hdata h
  · exact info_valid hs hdata h
  · exact info_valid hs hdata h
  · exact (left_ne_ok.mp h).elim

/-- A line that reads a token keeps the stack valid. -/
theorem parseBytes_valid {bytes : ByteStr} (hs : context.state.EntriesValid)
    (ht : context.state.tokens.Conserved) (hdata : ValidData data)
    (h : parseBytes context bytes data = .ok data') : ValidData data' := by
  unfold parseBytes at h
  split at h
  · exact (raise_ne_ok.mp h).elim
  · exact read_valid hs ht hdata h
  · split at h
    · exact read_valid hs ht hdata h
    · exact (left_ne_ok.mp h).elim
  · exact (left_ne_ok.mp h).elim

end TDBROpcDiff

namespace TDBAROpcDiff

variable {context : ExecutionContext} {data data' : List DataEntry}

/-- Reading a balance keeps the stack valid. -/
theorem balance_valid {address tokenIndex : DataEntry} {pointer : Byte}
    (ht : context.state.tokens.Conserved) (hdata : ValidData data)
    (h : balance context address tokenIndex data pointer = .ok data') : ValidData data' := by
  unfold balance at h
  split at h
  · exact (left_ne_ok.mp h).elim
  · split at h
    · exact (left_ne_ok.mp h).elim
    · obtain ⟨_, _, h⟩ := bind_eq_ok_iff.mp h
      obtain ⟨_, _, h⟩ := bind_eq_ok_iff.mp h
      split at h
      · exact (left_ne_ok.mp h).elim
      · obtain rfl := Except.ok.inj h
        exact hdata.patch (DataEntry.valid_amount (Int64.le_iff_toInt_le.mpr (ht.nonneg _)))

/-- A line that reads a balance keeps the stack valid. -/
theorem parseBytes_valid {bytes : ByteStr} (ht : context.state.tokens.Conserved)
    (hdata : ValidData data) (h : parseBytes context bytes data = .ok data') :
    ValidData data' := by
  unfold parseBytes at h
  split at h
  · exact (raise_ne_ok.mp h).elim
  · split at h
    · exact balance_valid ht hdata h
    · exact (left_ne_ok.mp h).elim
  · split at h
    · exact balance_valid ht hdata h
    · exact (left_ne_ok.mp h).elim
  · exact (left_ne_ok.mp h).elim

end TDBAROpcDiff

omit [Platform] in
/-- A returning line never succeeds. -/
theorem ReturnOpcDiff.parseBytes_ne_ok {bytes : ByteStr} {data : List DataEntry} :
    ReturnOpcDiff.parseBytes bytes ≠ .ok data := by
  unfold ReturnOpcDiff.parseBytes
  split <;> simp

namespace OpcDiffer

variable {context : ExecutionContext} {opc : ByteStr} {data data' : List DataEntry} {d : OpcDiff}

/-- A line that keeps the stack returns its diff and the same stack. -/
theorem keepingData_eq_ok {r : Result OpcDiff} (h : keepingData data r = .ok (d, data')) :
    r = .ok d ∧ data' = data := by
  obtain ⟨d', hd, h⟩ := bind_eq_ok_iff.mp h
  obtain ⟨rfl, rfl⟩ := Prod.mk.inj (Except.ok.inj h)
  exact ⟨hd, rfl⟩

/-- A line that keeps the state returns the empty diff and its stack. -/
theorem keepingState_eq_ok {r : Result (List DataEntry)} (h : keepingState r = .ok (d, data')) :
    d = OpcDiff.empty ∧ r = .ok data' := by
  obtain ⟨data'', hdata, h⟩ := bind_eq_ok_iff.mp h
  obtain ⟨rfl, rfl⟩ := Prod.mk.inj (Except.ok.inj h)
  exact ⟨rfl, hdata⟩

/-- What one opcode does: it has one of the effects on the tokens, creates a token only where its
line says so, and leaves a valid stack. -/
theorem apply_eq_ok (hs : context.state.EntriesValid) (ht : context.state.tokens.Conserved)
    (hdata : ValidData data) (h : apply context opc data = .ok (d, data')) :
    d.TokenEffect context.state.tokens context.contractId ∧
      ((d.contractTokens.lookup context.contractId.bytes).isSome → isNewToken opc) ∧
      ValidData data' := by
  have hnone (hd : d = OpcDiff.empty) :
      d.TokenEffect context.state.tokens context.contractId ∧
        ((d.contractTokens.lookup context.contractId.bytes).isSome → isNewToken opc) := by
    subst hd
    exact ⟨.none rfl rfl rfl, by simp [OpcDiff.empty]⟩
  -- The families in the order of their first byte; only those of tokens touch a token.
  unfold apply at h
  split at h
  · exact (raise_ne_ok.mp h).elim
  · split at h
    · obtain ⟨hd, rfl⟩ := keepingData_eq_ok h
      have heffect := hnone (AssertOpcDiff.parseBytes_eq_ok hd)
      exact ⟨heffect.1, heffect.2, hdata⟩
    · obtain ⟨hd, h⟩ := keepingState_eq_ok h
      obtain ⟨_, _, _, rfl⟩ := LoadOpcDiff.parseBytes_eq_ok h
      exact ⟨(hnone hd).1, (hnone hd).2, hdata.patch (DataEntry.valid_address _)⟩
    · obtain ⟨hd, rfl⟩ := keepingData_eq_ok h
      obtain ⟨htokens, hinfo, hbalance⟩ := CDBVOpcDiff.parseBytes_eq_ok hd
      exact ⟨.none htokens hinfo hbalance, by simp [htokens], hdata⟩
    · obtain ⟨hd, h⟩ := keepingState_eq_ok h
      obtain ⟨_, _, _, hv, rfl⟩ := CDBVROpcDiff.parseBytes_eq_ok h
      exact ⟨(hnone hd).1, (hnone hd).2, hdata.patch (hs.contractInfo _ _ hv)⟩
    · obtain ⟨hd, rfl⟩ := keepingData_eq_ok h
      have heffect := TDBOpcDiff.parseBytes_eq_ok hdata hd
      exact ⟨heffect.1, heffect.2, hdata⟩
    · obtain ⟨hd, h⟩ := keepingState_eq_ok h
      exact ⟨(hnone hd).1, (hnone hd).2, TDBROpcDiff.parseBytes_valid hs ht hdata h⟩
    · obtain ⟨hd, rfl⟩ := keepingData_eq_ok h
      have heffect := TDBAOpcDiff.parseBytes_eq_ok hdata hd
      exact ⟨heffect.1, by simp [heffect.2], hdata⟩
    · obtain ⟨hd, h⟩ := keepingState_eq_ok h
      exact ⟨(hnone hd).1, (hnone hd).2, TDBAROpcDiff.parseBytes_valid ht hdata h⟩
    · obtain ⟨_, h⟩ := keepingState_eq_ok h
      exact (ReturnOpcDiff.parseBytes_ne_ok h).elim
    · exact (left_ne_ok.mp h).elim

end OpcDiffer

end Vsys
