import Vsys.Opc.Supply

/-!
# What a function leaves alone

Whatever the opcodes of a function are and whatever is on its stack, all it writes is under keys of
its own contract.
-/

namespace Vsys

open Lib

variable [Platform]

omit [Platform] in
/-- A check that does not fail. -/
theorem ite_left_eq_ok_iff {α : Type} {p : Prop} [Decidable p] {e : ValidationError} {r : Result α}
    {a : α} : (if p then left e else r) = .ok a ↔ ¬ p ∧ r = .ok a := by
  split
  · rename_i hp
    exact ⟨fun h => (left_ne_ok.mp h).elim, fun h => absurd hp h.1⟩
  · rename_i hp
    exact ⟨fun h => ⟨hp, h⟩, fun h => h.2⟩

/-- A key under the identifier of a token of a contract. -/
def OwnTokenKey (c : ContractAccount) (k : ByteStr) : Prop :=
  k.tail.take 21 = c.bytes.tail.take 21

/-- A diff that writes nothing but keys of one contract. -/
structure OpcDiff.Own (c : ContractAccount) (d : OpcDiff) : Prop where
  contractDB : Dict.KeysIn (fun k => ∃ i, k = stateVarKey c i) d.contractDB
  contractTokens : Dict.KeysIn (fun k => k = c.bytes) d.contractTokens
  tokenDB : Dict.KeysIn (OwnTokenKey c) d.tokenDB
  tokenAccountBalance : Dict.KeysIn (OwnTokenKey c) d.tokenAccountBalance

variable {context : ExecutionContext} {c c' : ContractAccount} {d d' : OpcDiff}
  {data data' : List DataEntry}

theorem OpcDiff.own_empty : OpcDiff.empty.Own c :=
  ⟨Dict.keysIn_empty, Dict.keysIn_empty, Dict.keysIn_empty, Dict.keysIn_empty⟩

theorem OpcDiff.Own.combine (h : d.Own c) (h' : d'.Own c) : (d.combine d').Own c :=
  ⟨h.contractDB.overlay h'.contractDB, h.contractTokens.mergeWith _ h'.contractTokens,
    h.tokenDB.overlay h'.tokenDB, h.tokenAccountBalance.mergeWith _ h'.tokenAccountBalance⟩

/-- A key of a token of a contract, whatever index it has been made from. -/
theorem ownTokenKey_of_tokenIdOf {index tokenID : ByteStr}
    (h : tokenIdOf context index = .ok tokenID) (rest : ByteStr) :
    OwnTokenKey context.contractId (tokenID ++ rest) := by
  have hlength : context.contractId.bytes.tail.length - 4 = 21 := by
    simp [context.contractId.length_bytes]
  rw [tokenIdOf, ContractAccount.tokenIdFromBytes, context.contractId.valid, ok_bind, if_pos rfl,
    hlength] at h
  obtain rfl := Except.ok.inj (rightGet_eq_ok_iff.mp h)
  have htake : (context.contractId.bytes.tail.take 21).length = 21 := by
    simp [context.contractId.length_bytes]
  rw [OwnTokenKey]
  simp only [List.nil_append, List.cons_append, List.tail_cons, List.append_assoc]
  exact List.take_left' htake

/-- Keys of tokens belong to one contract. -/
theorem OwnTokenKey.eq_of_tokenId {rest : ByteStr} {i : Int32}
    (h : OwnTokenKey c (c'.tokenId i ++ rest)) : c' = c := by
  have htake : (c'.bytes.tail.take 21).length = 21 := by simp [c'.length_bytes]
  refine ContractAccount.eq_of_take_tail ?_
  rw [← h, ContractAccount.tokenId]
  simp only [List.nil_append, List.cons_append, List.tail_cons, List.append_assoc]
  exact (List.take_left' htake).symm

theorem stateVarKey_inj {i i' : Byte} :
    stateVarKey c i = stateVarKey c' i' ↔ c = c' ∧ i = i' := by
  constructor
  · intro h
    obtain ⟨hc, hi⟩ := List.append_inj h (by rw [c.length_bytes, c'.length_bytes])
    exact ⟨ContractAccount.ext hc, List.head_eq_of_cons_eq hi⟩
  · rintro ⟨rfl, rfl⟩
    rfl

theorem CDBVOpcDiff.own_parseBytes {bytes : ByteStr}
    (h : CDBVOpcDiff.parseBytes context bytes data = .ok d) : d.Own context.contractId := by
  unfold CDBVOpcDiff.parseBytes at h
  split at h
  · exact (raise_ne_ok.mp h).elim
  · split at h
    · obtain ⟨index, -, -, hdb, htokens, hinfo, hbalance⟩ := set_eq_ok h
      refine ⟨?_, htokens ▸ Dict.keysIn_empty, hinfo ▸ Dict.keysIn_empty,
        hbalance ▸ Dict.keysIn_empty⟩
      rw [hdb]
      exact Dict.keysIn_singleton ⟨index, rfl⟩
    · exact (left_ne_ok.mp h).elim
  · exact (left_ne_ok.mp h).elim

namespace TDBOpcDiff

theorem own_newToken {max unity desc : DataEntry} (h : newToken context max unity desc = .ok d) :
    d.Own context.contractId := by
  obtain ⟨-, h⟩ := ite_left_eq_ok_iff.mp h
  obtain ⟨_, -, h⟩ := bind_eq_ok_iff.mp h
  obtain ⟨-, h⟩ := ite_left_eq_ok_iff.mp h
  obtain ⟨_, -, h⟩ := bind_eq_ok_iff.mp h
  obtain ⟨-, h⟩ := ite_left_eq_ok_iff.mp h
  obtain ⟨tokenID, hid, h⟩ := bind_eq_ok_iff.mp h
  obtain rfl := Except.ok.inj h
  have hown := ownTokenKey_of_tokenIdOf hid
  exact ⟨Dict.keysIn_empty, Dict.keysIn_singleton rfl,
    ((Dict.keysIn_empty.insert (hown _)).insert (hown _)).insert (hown _),
    Dict.keysIn_singleton (hown _)⟩

theorem own_split {newUnity tokenIndex : DataEntry}
    (h : split context newUnity tokenIndex = .ok d) :
    d.Own context.contractId := by
  obtain ⟨-, h⟩ := ite_left_eq_ok_iff.mp h
  obtain ⟨_, -, h⟩ := bind_eq_ok_iff.mp h
  obtain ⟨_, -, h⟩ := bind_eq_ok_iff.mp h
  obtain ⟨tokenID, hid, h⟩ := bind_eq_ok_iff.mp h
  obtain ⟨-, h⟩ := ite_left_eq_ok_iff.mp h
  obtain ⟨-, h⟩ := ite_left_eq_ok_iff.mp h
  obtain rfl := Except.ok.inj h
  exact ⟨Dict.keysIn_empty, Dict.keysIn_empty,
    Dict.keysIn_singleton (ownTokenKey_of_tokenIdOf hid _), Dict.keysIn_empty⟩

theorem own_parseBytes {bytes : ByteStr} (h : parseBytes context bytes data = .ok d) :
    d.Own context.contractId := by
  unfold parseBytes at h
  split at h
  · exact (raise_ne_ok.mp h).elim
  · split at h
    · exact own_newToken h
    · exact own_split h
    · exact own_split h
    · exact (left_ne_ok.mp h).elim

end TDBOpcDiff

namespace TDBAOpcDiff

/-- A diff with the amounts of two keys of one token. -/
theorem own_amounts {index tokenID rest rest' : ByteStr} {x x' : Int64}
    {relatedAddress : Dict Address Bool} (hid : tokenIdOf context index = .ok tokenID) :
    OpcDiff.Own context.contractId
      { relatedAddress := relatedAddress
        tokenAccountBalance := ((∅ : Dict ByteStr Int64).insert (tokenID ++ rest) x).insert
          (tokenID ++ rest') x' } :=
  ⟨Dict.keysIn_empty, Dict.keysIn_empty, Dict.keysIn_empty,
    (Dict.keysIn_empty.insert (ownTokenKey_of_tokenIdOf hid _)).insert
      (ownTokenKey_of_tokenIdOf hid _)⟩

theorem own_deposit {issuer amount tokenIndex : DataEntry}
    (h : deposit context issuer amount tokenIndex = .ok d) : d.Own context.contractId := by
  obtain ⟨-, h⟩ := ite_left_eq_ok_iff.mp h
  obtain ⟨_, -, h⟩ := bind_eq_ok_iff.mp h
  obtain ⟨_, -, h⟩ := bind_eq_ok_iff.mp h
  obtain ⟨tokenID, hid, h⟩ := bind_eq_ok_iff.mp h
  obtain ⟨_, -, h⟩ := bind_eq_ok_iff.mp h
  obtain ⟨_, -, h⟩ := bind_eq_ok_iff.mp h
  simp only [ite_left_eq_ok_iff] at h
  obtain ⟨-, -, -, -, h⟩ := h
  obtain ⟨_, -, h⟩ := bind_eq_ok_iff.mp h
  obtain rfl := Except.ok.inj h
  exact own_amounts hid

theorem own_withdraw {issuer amount tokenIndex : DataEntry}
    (h : withdraw context issuer amount tokenIndex = .ok d) : d.Own context.contractId := by
  obtain ⟨-, h⟩ := ite_left_eq_ok_iff.mp h
  obtain ⟨_, -, h⟩ := bind_eq_ok_iff.mp h
  obtain ⟨_, -, h⟩ := bind_eq_ok_iff.mp h
  obtain ⟨tokenID, hid, h⟩ := bind_eq_ok_iff.mp h
  simp only [ite_left_eq_ok_iff] at h
  obtain ⟨-, -, -, h⟩ := h
  obtain ⟨_, -, h⟩ := bind_eq_ok_iff.mp h
  obtain rfl := Except.ok.inj h
  exact own_amounts hid

theorem own_transfer {sender recipient amount tokenIndex : DataEntry}
    (h : transfer context sender recipient amount tokenIndex = .ok d) :
    d.Own context.contractId := by
  unfold transfer at h
  simp only [ite_left_eq_ok_iff] at h
  obtain ⟨-, -, -, h⟩ := h
  obtain ⟨_, -, h⟩ := bind_eq_ok_iff.mp h
  obtain ⟨_, -, h⟩ := bind_eq_ok_iff.mp h
  obtain ⟨tokenID, hid, h⟩ := bind_eq_ok_iff.mp h
  simp only [ite_left_eq_ok_iff] at h
  obtain ⟨-, -, -, -, h⟩ := h
  obtain ⟨_, -, h⟩ := bind_eq_ok_iff.mp h
  obtain ⟨_, -, h⟩ := bind_eq_ok_iff.mp h
  split at h
  · obtain rfl := Except.ok.inj h
    exact ⟨Dict.keysIn_empty, Dict.keysIn_empty, Dict.keysIn_empty, Dict.keysIn_empty⟩
  · obtain rfl := Except.ok.inj h
    exact own_amounts hid

theorem own_parseBytes {bytes : ByteStr} (h : parseBytes context bytes data = .ok d) :
    d.Own context.contractId := by
  unfold parseBytes at h
  split at h
  · exact (raise_ne_ok.mp h).elim
  · split at h
    · exact own_deposit h
    · exact own_deposit h
    · exact own_withdraw h
    · exact own_withdraw h
    · exact own_transfer h
    · exact own_transfer h
    · exact (left_ne_ok.mp h).elim

end TDBAOpcDiff

/-- What an opcode writes is its contract's own. -/
theorem OpcDiffer.own_apply {opc : ByteStr}
    (h : OpcDiffer.apply context opc data = .ok (d, data')) :
    d.Own context.contractId := by
  have hread {r : Result (List DataEntry)} (h : keepingState r = .ok (d, data')) :
      d.Own context.contractId := by
    rw [(keepingState_eq_ok h).1]
    exact OpcDiff.own_empty
  unfold OpcDiffer.apply at h
  split at h
  · exact (raise_ne_ok.mp h).elim
  · split at h
    · obtain ⟨hassert, -⟩ := keepingData_eq_ok h
      rw [AssertOpcDiff.parseBytes_eq_ok hassert]
      exact OpcDiff.own_empty
    · exact hread h
    · exact CDBVOpcDiff.own_parseBytes (keepingData_eq_ok h).1
    · exact hread h
    · exact TDBOpcDiff.own_parseBytes (keepingData_eq_ok h).1
    · exact hread h
    · exact TDBAOpcDiff.own_parseBytes (keepingData_eq_ok h).1
    · exact hread h
    · exact hread h
    · exact (left_ne_ok.mp h).elim

/-- What a function writes is its contract's own. -/
theorem OpcFuncDiffer.own_apply (h : OpcFuncDiffer.apply context data = .ok d) :
    d.Own context.contractId := by
  obtain ⟨data', hfold⟩ := apply_eq_ok h
  refine foldlM_invariant (I := fun st : OpcDiff × List DataEntry => st.1.Own context.contractId)
    ?_ OpcDiff.own_empty hfold
  rintro ⟨d, data⟩ ⟨d', data'⟩ opc - hd hstep
  obtain ⟨e, happly, rfl⟩ := step_eq_ok hstep
  have he := @OpcDiffer.own_apply _ { context with state := stateSoFar context d } e data data' opc
    happly
  exact hd.combine he

end Vsys
