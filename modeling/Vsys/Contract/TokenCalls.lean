import Vsys.Contract.Authorisation
import Vsys.Lib.Token

/-!
# What the permitted contracts compute

The functions of a permitted contract against the token they are for: a function succeeds exactly if
its data is a call and the call is allowed, and what it writes is what the call does.
-/

namespace Vsys

open Lib ContractPermitted
open scoped Ledger

/-- The eight bytes that are a long. -/
theorem Longs.toByteArray_of_fromByteArray {bytes : ByteStr} {x : Int64}
    (hlength : bytes.length = 8) (h : Longs.fromByteArray bytes = .ok x) :
    Longs.toByteArray x = bytes := by
  rw [Longs.fromByteArray, if_pos (by omega), List.take_of_length_le (by omega)] at h
  obtain rfl := Except.ok.inj h
  have hlt : BigEndian.decode bytes < 2 ^ 64 := by
    have := BigEndian.decode_lt bytes
    rw [hlength] at this
    exact this
  rw [Longs.toByteArray]
  show BigEndian.encode 8 (UInt64.ofNat (BigEndian.decode bytes)).toNat = bytes
  rw [UInt64.toNat_ofNat_of_lt' hlt, ← hlength, BigEndian.encode_decode]

variable [Platform]

/-- The largest amount. -/
def wordLimit : Int := 9223372036854775807

/-- What a state stores of a token: the state variables of the contract, and its first token. -/
structure StateView.Holds (s : StateView) (c : ContractAccount) (t : Token Address) : Prop where
  maker : s.VariableIs c StateVar.maker t.maker
  issuer : s.VariableIs c StateVar.issuer t.issuer
  count : s.contractTokens c.bytes = 1
  max : ∃ m : Int64, m.toInt = t.max ∧
    s.tokenInfo (tokenKey (c.tokenId 0) .max) = .ok (some ⟨Longs.toByteArray m, .amount⟩)
  unity : ∃ u : Int64, u.toInt = t.unity ∧
    s.tokenInfo (tokenKey (c.tokenId 0) .unity) = .ok (some ⟨Longs.toByteArray u, .amount⟩)
  total : s.tokens.total c 0 = t.total
  balance : ∀ a, s.tokens.balance c 0 a = t.balance a

/-- A state with the same entries of contracts and the same tokens holds the same token of the
contract. -/
theorem StateView.Holds.congr {s s' : StateView} {c : ContractAccount} {t : Token Address}
    (h : s.Holds c t) (hinfo : ∀ k, s'.contractInfo k = s.contractInfo k)
    (htokens : s'.tokens = s.tokens) : s'.Holds c t where
  maker := (hinfo _).trans h.maker
  issuer := (hinfo _).trans h.issuer
  count := (congrFun (congrArg TokenState.contractTokens htokens) _).trans h.count
  max := by
    obtain ⟨m, hm, hmax⟩ := h.max
    exact ⟨m, hm, (congrFun (congrArg TokenState.tokenInfo htokens) _).trans hmax⟩
  unity := by
    obtain ⟨u, hu, hunity⟩ := h.unity
    exact ⟨u, hu, (congrFun (congrArg TokenState.tokenInfo htokens) _).trans hunity⟩
  total := htokens ▸ h.total
  balance := htokens ▸ h.balance

/-- The maximum of a token that a state holds is a word. -/
theorem StateView.Holds.max_le {s : StateView} {c : ContractAccount} {t : Token Address}
    (h : s.Holds c t) : t.max ≤ wordLimit := by
  obtain ⟨m, hm, -⟩ := h.max
  have hle := (inWord_toInt m).2
  rw [← hm]
  exact hle

namespace DataEntry

variable {d : DataEntry} {a : Address} {x : Int64}

/-- The address an entry is. -/
def address? (d : DataEntry) : Option Address :=
  if d.dataType = .address then (Address.fromBytes d.data).toOption else none

/-- The amount an entry is. -/
def amount? (d : DataEntry) : Option Int64 :=
  if d.dataType = .amount then (Longs.fromByteArray d.data).toOption else none

/-- An entry is read as an address exactly if it is the entry of that address. -/
theorem address?_eq_some_iff : d.address? = some a ↔ d = ⟨a.bytes, .address⟩ := by
  constructor
  · intro h
    unfold address? at h
    split at h
    · rename_i htype
      cases hread : Address.fromBytes d.data with
      | error e => 
          rw [hread] at h
          cases h
      | ok a' =>
          rw [hread] at h
          obtain rfl := Option.some.inj h
          rw [Address.fromBytes_eq_ok_iff.mp hread, ← htype]
    · cases h
  · rintro rfl
    rw [address?, if_pos rfl, Address.fromBytes_bytes]
    rfl

/-- A valid amount has eight bytes. -/
theorem Valid.length_amount (hd : d.Valid) (htype : d.dataType = .amount) : d.data.length = 8 := by
  rw [Valid, htype, checkDataType] at hd
  split at hd
  · assumption
  · cases hd

/-- A valid amount is the entry of the word it is read as. -/
theorem Valid.eq_amount (hd : d.Valid) (htype : d.dataType = .amount)
    (hread : Longs.fromByteArray d.data = .ok x) : d = ⟨Longs.toByteArray x, .amount⟩ := by
  rw [Longs.toByteArray_of_fromByteArray (hd.length_amount htype) hread, ← htype]

/-- A valid entry is read as an amount exactly if it is the entry of that amount. -/
theorem amount?_eq_some_iff (hd : d.Valid) :
    d.amount? = some x ↔ d = ⟨Longs.toByteArray x, .amount⟩ := by
  constructor
  · intro h
    unfold amount? at h
    split at h
    · rename_i htype
      cases hread : Longs.fromByteArray d.data with
      | error e => 
          rw [hread] at h
          cases h
      | ok x' =>
          rw [hread] at h
          obtain rfl := Option.some.inj h
          exact hd.eq_amount htype hread
    · cases h
  · rintro rfl
    rw [amount?, if_pos rfl, Longs.fromByteArray_toByteArray]
    rfl

/-- An amount and what holds of it. -/
theorem Valid.amount_iff (hd : d.Valid) {P : Int64 → Prop} :
    (d.dataType = .amount ∧ ∃ x, Longs.fromByteArray d.data = .ok x ∧ P x) ↔
      ∃ x, d = ⟨Longs.toByteArray x, .amount⟩ ∧ P x := by
  constructor
  · rintro ⟨htype, x, hread, hx⟩
    exact ⟨x, hd.eq_amount htype hread, hx⟩
  · rintro ⟨x, rfl, hx⟩
    exact ⟨rfl, x, Longs.fromByteArray_toByteArray x, hx⟩

end DataEntry

variable {context : ExecutionContext} {data data' : List DataEntry} {d : OpcDiff}
  {v : DataEntry} {pointer : Byte} {signer : PublicKeyAccount}

namespace OpcDiffer

/-- The line that reads an address of the contract puts it on the stack. -/
theorem read_ok {var : Byte} (hvars : context.stateVar = stateVar)
    (hvar : var = StateVar.issuer ∨ var = StateVar.maker)
    (hpointer : pointerOutOfRange data pointer = false)
    (hv : context.state.contractInfo (stateVarKey context.contractId var) = .ok (some v)) :
    apply context [4, 1, var, pointer] data = .ok (OpcDiff.empty, patch data pointer v) := by
  have hget : CDBVROpcDiff.get context [var, DataType.address.id] data pointer
      = .ok (patch data pointer v) := by
    simp only [CDBVROpcDiff.get, List.getElem?_cons_succ, List.getElem?_cons_zero, getOrRaise,
      ok_bind, DataType.fromByte_id, Contract.checkStateVar, hpointer, List.head?_cons, hv]
    rfl
  rw [read_eq hvars hvar, hget]
  rfl

/-- The line that checks an address passes when it is that of the first signer. -/
theorem assert_ok {kind index : Byte} (hkind : kind = 6 ∨ kind = 7)
    (hsigner : context.signers.head? = some signer)
    (hv : localVariable data index = some ⟨signer.toAddress.bytes, .address⟩) :
    apply context [1, kind, index] data = .ok (OpcDiff.empty, data) := by
  obtain ⟨error, heq⟩ := assert_eq hkind hv
  have horigin : AssertOpcDiff.isOrigin error context ⟨signer.toAddress.bytes, .address⟩
      = .ok OpcDiff.empty := by
    simp [AssertOpcDiff.isOrigin, hsigner, getOrRaise]
  rw [heq, horigin]
  rfl

/-- The line that loads an address puts that of the first signer on the stack. -/
theorem load_ok {kind : Byte} (hkind : kind = 1 ∨ kind = 2)
    (hsigner : context.signers.head? = some signer)
    (hpointer : pointerOutOfRange data pointer = false) :
    apply context [2, kind, pointer] data
      = .ok (OpcDiff.empty, patch data pointer ⟨signer.toAddress.bytes, .address⟩) := by
  have hload : LoadOpcDiff.signer context data pointer
      = .ok (patch data pointer ⟨signer.toAddress.bytes, .address⟩) := by
    rw [LoadOpcDiff.signer, hpointer, hsigner]
    rfl
  obtain rfl | rfl := hkind
  · show keepingState (LoadOpcDiff.signer context data pointer) = _
    rw [hload]
    rfl
  · show keepingState (LoadOpcDiff.signer context data pointer) = _
    rw [hload]
    rfl

end OpcDiffer

/-- A change of a state variable. -/
def CDBVOpcDiff.setDiff (c : ContractAccount) (var : Byte) (a : Address) : OpcDiff where
  relatedAddress := Finmap.singleton a true
  contractDB := Finmap.singleton (stateVarKey c var) (⟨a.bytes, .address⟩ : DataEntry).bytes

/-- What is set is an address. -/
theorem CDBVOpcDiff.set_eq_ok_iff {var : Byte} :
    CDBVOpcDiff.set context [var, DataType.address.id] v = .ok d ↔
      ∃ a : Address, v = ⟨a.bytes, .address⟩ ∧ d = setDiff context.contractId var a := by
  constructor
  · intro h
    obtain ⟨b, hcheck, h⟩ := bind_eq_ok_iff.mp h
    have htype : decide (v.dataType = .address) = b := by
      simpa [Contract.checkStateVar, DataType.fromByte_id, getOrRaise] using hcheck
    cases b with
    | false => exact (left_ne_ok.mp h).elim
    | true =>
        obtain ⟨index, hindex, h⟩ := bind_eq_ok_iff.mp h
        obtain rfl := Option.some.inj (getOrRaise_eq_ok_iff.mp hindex)
        rw [decide_eq_true_iff] at htype
        simp only [htype, if_true] at h
        obtain ⟨a, ha, h⟩ := bind_eq_ok_iff.mp h
        have hbytes := Address.fromBytes_eq_ok_iff.mp (rightGet_eq_ok_iff.mp ha)
        obtain rfl : v = ⟨a.bytes, .address⟩ := by rw [hbytes, ← htype]
        exact ⟨a, rfl, (Except.ok.inj h).symm⟩
  · rintro ⟨a, rfl, rfl⟩
    simp [CDBVOpcDiff.set, setDiff, Contract.checkStateVar, DataType.fromByte_id, getOrRaise,
      rightGet]

omit [Platform] in
/-- The exact sum is missing exactly if the sum is out of the range of words. -/
theorem isNone_addExact_iff {x y : Int64} :
    (addExact x y).isNone = true ↔ ¬ InWord (x.toInt + y.toInt) := by
  rw [Option.isNone_iff_eq_none, addExact_eq_none]

/-- An address is read back from its bytes. -/
theorem rightGet_address (a : Address) : rightGet (Address.fromBytes a.bytes) = .ok a := by
  rw [Address.fromBytes_bytes]
  rfl

/-- The entry of the first token names token 0 of the contract. -/
theorem tokenIdOf_firstToken : tokenIdOf context firstToken.data
    = .ok (context.contractId.tokenId 0) :=
  tokenIdOf_toByteArray context 0

omit [Platform] in
/-- The entry of the first token is the index 0. -/
theorem firstToken_index : Ints.fromByteArray firstToken.data = .ok 0 :=
  Ints.fromByteArray_toByteArray 0

/-- A contract whose token the state holds has token 0. -/
theorem StateView.Holds.firstToken_exists {s : StateView} {c : ContractAccount} {t : Token Address}
    (h : s.Holds c t) : ¬ (s.contractTokens c.bytes ≤ 0 ∨ (0 : Int32) < 0) := by
  rw [h.count]
  decide

namespace TDBAOpcDiff

/-- A change of the supply and of one balance. -/
def supplyDiff (c : ContractAccount) (a : Address) (x : Int64) : OpcDiff where
  relatedAddress := Finmap.singleton a true
  tokenAccountBalance :=
    ((∅ : Dict ByteStr Int64).insert (tokenKey (c.tokenId 0) .total) x).insert
      (balanceKey (c.tokenId 0) a.bytes) x

variable {t : Token Address} {a : Address} {amount : DataEntry}

/-- A deposit succeeds with an amount, not negative, that keeps the total within the maximum,
and it adds the amount to the total and to the account. -/
theorem deposit_eq_ok_iff (hs : context.state.Holds context.contractId t) :
    deposit context ⟨a.bytes, .address⟩ amount firstToken = .ok d ↔
      amount.dataType = .amount ∧ ∃ x, Longs.fromByteArray amount.data = .ok x ∧
        InWord (x.toInt + t.total) ∧ 0 ≤ x.toInt ∧ x.toInt + t.total ≤ t.max ∧
        d = supplyDiff context.contractId a x := by
  obtain ⟨m, hm, hmax⟩ := hs.max
  have htotal : (context.state.tokenAccountBalance
      (tokenKey (context.contractId.tokenId 0) .total)).toInt = t.total := hs.total
  simp only [deposit, ite_left_eq_ok_iff, bind_eq_ok_iff, tokenIdOf_firstToken, firstToken_index,
    hmax, rightGet_address, Except.ok.injEq, exists_eq_left', Option.getD_some,
    Longs.fromByteArray_toByteArray, hs.firstToken_exists, not_false_eq_true, true_and]
  refine and_congr (by simp [firstToken]) (exists_congr fun x => and_congr_right fun _ => ?_)
  rw [isNone_addExact_iff, not_not, htotal]
  refine and_congr_right fun hword => and_congr (by simp [Int64.le_iff_toInt_le]) (and_congr ?_ ?_)
  · rw [Int64.not_lt, Int64.le_iff_toInt_le, toInt_add_exact (htotal ▸ hword), htotal, hm]
  · exact eq_comm

/-- A withdrawal succeeds with an amount, not negative, that the account has, and it takes the
amount from the total and from the account. -/
theorem withdraw_eq_ok_iff (hs : context.state.Holds context.contractId t) :
    withdraw context ⟨a.bytes, .address⟩ amount firstToken = .ok d ↔
      amount.dataType = .amount ∧ ∃ x, Longs.fromByteArray amount.data = .ok x ∧
        x.toInt ≤ t.balance a ∧ 0 ≤ x.toInt ∧ d = supplyDiff context.contractId a (-x) := by
  have hbalance : (context.state.tokenAccountBalance
      (balanceKey (context.contractId.tokenId 0) a.bytes)).toInt = t.balance a := hs.balance a
  simp only [withdraw, ite_left_eq_ok_iff, bind_eq_ok_iff, tokenIdOf_firstToken, firstToken_index,
    rightGet_address, Except.ok.injEq, exists_eq_left', hs.firstToken_exists,
    not_false_eq_true, true_and]
  refine and_congr (by simp [firstToken]) (exists_congr fun x => and_congr_right fun _ => ?_)
  rw [Int64.not_lt, Int64.le_iff_toInt_le, hbalance]
  exact and_congr_right fun _ => and_congr (by simp [Int64.le_iff_toInt_le]) eq_comm

/-- A change of two balances, unless they are one. -/
def transferDiff (c : ContractAccount) (s r : Address) (x : Int64) : OpcDiff where
  relatedAddress := ((∅ : Dict Address Bool).insert s true).insert r true
  tokenAccountBalance := if s = r then ∅ else
    ((∅ : Dict ByteStr Int64).insert (balanceKey (c.tokenId 0) s.bytes) (-x)).insert
      (balanceKey (c.tokenId 0) r.bytes) x

/-- The recipient of a transfer is an address. -/
theorem exists_recipient {sender recipient : DataEntry}
    (h : transfer context sender recipient amount firstToken = .ok d) :
    ∃ r : Address, recipient = ⟨r.bytes, .address⟩ := by
  simp only [transfer, ite_left_eq_ok_iff, bind_eq_ok_iff, not_or, not_not] at h
  obtain ⟨-, -, ⟨-, htype, -⟩, _, -, _, -, _, -, -, -, -, -, _, -, r, hr, -⟩ := h
  refine ⟨r, ?_⟩
  rw [Address.fromBytes_eq_ok_iff.mp (rightGet_eq_ok_iff.mp hr), ← htype]

/-- A transfer succeeds with an amount, not negative, that the sender has and the recipient can
hold, and it moves the amount. -/
theorem transfer_eq_ok_iff {r : Address} (hs : context.state.Holds context.contractId t) :
    transfer context ⟨a.bytes, .address⟩ ⟨r.bytes, .address⟩ amount firstToken = .ok d ↔
      amount.dataType = .amount ∧ ∃ x, Longs.fromByteArray amount.data = .ok x ∧
        x.toInt ≤ t.balance a ∧ InWord (x.toInt + t.balance r) ∧ 0 ≤ x.toInt ∧
        d = transferDiff context.contractId a r x := by
  have hbalance (b : Address) : (context.state.tokenAccountBalance
      (balanceKey (context.contractId.tokenId 0) b.bytes)).toInt = t.balance b := hs.balance b
  have hsame : (⟨a.bytes, .address⟩ : DataEntry).bytes = (⟨r.bytes, .address⟩ : DataEntry).bytes ↔
      a = r := by
    simp [DataEntry.bytes, Address.ext_iff]
  simp only [transfer, ite_left_eq_ok_iff, bind_eq_ok_iff, tokenIdOf_firstToken, firstToken_index,
    rightGet_address, Except.ok.injEq, exists_eq_left', hs.firstToken_exists,
    not_false_eq_true, true_and, hsame]
  refine (and_iff_right (by simp)).trans ((and_iff_right (by simp)).trans
    (and_congr (by simp [firstToken]) (exists_congr fun x => and_congr_right fun _ => ?_)))
  rw [Int64.not_lt, Int64.le_iff_toInt_le, hbalance, isNone_addExact_iff, not_not, hbalance]
  refine and_congr_right fun _ => and_congr_right fun _ =>
    and_congr (by simp [Int64.le_iff_toInt_le]) ?_
  unfold transferDiff
  split
  · rw [Except.ok.injEq, eq_comm]
  · rw [Except.ok.injEq, eq_comm]

end TDBAOpcDiff

namespace TDBOpcDiff

/-- A token that is new. -/
def newTokenDiff (c : ContractAccount) (i : Int32) (max unity desc : DataEntry) : OpcDiff where
  tokenDB := (((∅ : Dict ByteStr ByteStr).insert (tokenKey (c.tokenId i) .max) max.bytes).insert
    (tokenKey (c.tokenId i) .unity) unity.bytes).insert (tokenKey (c.tokenId i) .desc) desc.bytes
  contractTokens := Finmap.singleton c.bytes 1
  tokenAccountBalance := Finmap.singleton (tokenKey (c.tokenId i) .total) 0

/-- A new token is made of a maximum, not negative, of a positive unity and of a text. -/
theorem newToken_eq_ok_iff {max unity desc : DataEntry} :
    newToken context max unity desc = .ok d ↔
      max.dataType = .amount ∧ unity.dataType = .amount ∧ desc.dataType = .shortText ∧
        ∃ m, Longs.fromByteArray max.data = .ok m ∧ 0 ≤ m.toInt ∧
        ∃ u, Longs.fromByteArray unity.data = .ok u ∧ 0 < u.toInt ∧
          d = newTokenDiff context.contractId
            (context.state.contractTokens context.contractId.bytes) max unity desc := by
  simp only [newToken, ite_left_eq_ok_iff, bind_eq_ok_iff, tokenIdOf_toByteArray,
    Except.ok.injEq, exists_eq_left', not_or, not_not, and_assoc]
  refine and_congr_right fun _ => and_congr_right fun _ => and_congr_right fun _ =>
    exists_congr fun m => and_congr_right fun _ => and_congr ?_ (exists_congr fun u =>
      and_congr_right fun _ => and_congr ?_ eq_comm)
  · simp [Int64.le_iff_toInt_le]
  · simp [Int64.lt_iff_toInt_lt]

/-- A change of the unity. -/
def splitDiff (c : ContractAccount) (newUnity : DataEntry) : OpcDiff where
  tokenDB := Finmap.singleton (tokenKey (c.tokenId 0) .unity) newUnity.bytes

/-- A token is split by a positive unity, and only its unity is written. -/
theorem split_eq_ok_iff {t : Token Address} {newUnity : DataEntry}
    (hs : context.state.Holds context.contractId t) :
    split context newUnity firstToken = .ok d ↔
      newUnity.dataType = .amount ∧ ∃ x, Longs.fromByteArray newUnity.data = .ok x ∧ 0 < x.toInt ∧
        d = splitDiff context.contractId newUnity := by
  simp only [split, ite_left_eq_ok_iff, bind_eq_ok_iff, tokenIdOf_firstToken, firstToken_index,
    Except.ok.injEq, exists_eq_left', hs.firstToken_exists, not_false_eq_true, true_and]
  refine and_congr (by simp [firstToken]) (exists_congr fun x => and_congr_right fun _ => ?_)
  exact and_congr (by simp [Int64.lt_iff_toInt_lt]) eq_comm

end TDBOpcDiff

namespace OpcFuncDiffer

/-- What a call a contract can store: amounts and unities that fit a word. -/
def diffOf (c : ContractAccount) (t : Token Address) : Token.Call Address → OpcDiff
  | .supersede newIssuer => CDBVOpcDiff.setDiff c StateVar.issuer newIssuer
  | .issue amount => TDBAOpcDiff.supplyDiff c t.issuer (Int64.ofInt amount)
  | .destroy amount => TDBAOpcDiff.supplyDiff c t.issuer (-Int64.ofInt amount)
  | .split newUnity =>
      TDBOpcDiff.splitDiff c ⟨Longs.toByteArray (Int64.ofInt newUnity), .amount⟩
  | .transfer sender recipient amount =>
      TDBAOpcDiff.transferDiff c sender recipient (Int64.ofInt amount)

/-- The call of an amount. -/
def amountCall (call : Int → Token.Call Address) : List DataEntry → Option (Token.Call Address)
  | [amount] => amount.amount?.map fun x => call x.toInt
  | _ => none

/-- The call that the data of a function is, from a caller. -/
def callOf (caller : Address) : FunId → List DataEntry → Option (Token.Call Address)
  | .supersede, [newIssuer] => newIssuer.address?.map .supersede
  | .issue, data => amountCall .issue data
  | .destroy, data => amountCall .destroy data
  | .split, data => amountCall .split data
  | .send, [recipient, amount] => do
      some (.transfer caller (← recipient.address?) (← amount.amount?).toInt)
  | .transfer, [sender, recipient, amount] => do
      some (.transfer (← sender.address?) (← recipient.address?) (← amount.amount?).toInt)
  | _, _ => none

/-- A line that keeps the stack succeeds if its diff is made. -/
theorem keepingData_eq_ok_iff {r : Result OpcDiff} :
    (∃ data', keepingData data r = .ok (d, data')) ↔ r = .ok d := by
  constructor
  · rintro ⟨data', h⟩
    exact (OpcDiffer.keepingData_eq_ok h).1
  · rintro rfl
    exact ⟨data, rfl⟩

/-- The first line of a function runs in the state of the call. -/
theorem step_untouched_iff {opc : ByteStr} :
    step context (OpcDiff.empty, data) opc = .ok (d, data') ↔
      OpcDiffer.apply (untouched context) opc data = .ok (d, data') := by
  refine ⟨step_untouched, fun h => bind_eq_ok_iff.mpr ⟨(d, data'), h, ?_⟩⟩
  simp only [OpcDiff.empty_combine]

variable {t : Token Address}

/-- Nothing is different in the state of a function that has not written. -/
theorem holds_untouched (h : context.state.Holds context.contractId t) :
    (untouched context).state.Holds (untouched context).contractId t :=
  h.congr contractInfo_untouched tokens_untouched

/-- A function that loads a caller and guards it with a stored address does its one act if the
caller is the signer and the address. -/
theorem guarded_eq_ok_iff {var kind : Byte} {act : ByteStr} {x : DataEntry} {a : Address}
    (hvars : context.stateVar = stateVar) (hvar : var = StateVar.issuer ∨ var = StateVar.maker)
    (hkind : kind = 6 ∨ kind = 7) (hsigner : context.signers.head? = some signer)
    (ha : context.state.VariableIs context.contractId var a) :
    [[4, 1, var, 1], [1, kind, 1], act].foldlM (step context) (OpcDiff.empty, [x])
        = .ok (d, data') ↔
      signer.toAddress = a ∧
        OpcDiffer.apply (untouched context) act [x, ⟨a.bytes, .address⟩] = .ok (d, data') := by
  constructor
  · intro h
    obtain ⟨signer', hsigner', hvariable, hact⟩ := guarded_eq_ok hvars hvar hkind h
    obtain rfl := Option.some.inj (hsigner.symm.trans hsigner')
    have hsame := hvariable.eq ha
    exact ⟨hsame, hsame ▸ hact⟩
  · rintro ⟨rfl, hact⟩
    have hstart : (untouched context).stateVar = stateVar := hvars
    have hread : OpcDiffer.apply (untouched context) [4, 1, var, 1] [x]
        = .ok (OpcDiff.empty, [x, ⟨signer.toAddress.bytes, .address⟩]) :=
      OpcDiffer.read_ok hstart hvar rfl ha
    have hassert : OpcDiffer.apply (untouched context) [1, kind, 1]
        [x, ⟨signer.toAddress.bytes, .address⟩]
        = .ok (OpcDiff.empty, [x, ⟨signer.toAddress.bytes, .address⟩]) :=
      OpcDiffer.assert_ok hkind hsigner rfl
    exact foldlM_cons_eq_ok_iff.mpr ⟨_, step_untouched_iff.mpr hread, foldlM_cons_eq_ok_iff.mpr
      ⟨_, step_untouched_iff.mpr hassert, foldlM_cons_eq_ok_iff.mpr
        ⟨_, step_untouched_iff.mpr hact, rfl⟩⟩⟩

section Calls

variable {caller : Address} {call : Token.Call Address}

/-- The arguments of `supersede` are one address. -/
theorem callOf_supersede_iff : callOf caller .supersede data = some call ↔
    ∃ a : Address, data = [⟨a.bytes, .address⟩] ∧ .supersede a = call := by
  rcases data with _ | ⟨x, _ | ⟨y, rest⟩⟩
  · simp [callOf]
  · simp [callOf, DataEntry.address?_eq_some_iff]
  · simp [callOf]

/-- The arguments of a function of an amount are one amount. -/
theorem amountCall_iff {f : Int → Token.Call Address} (hdata : ValidData data) :
    amountCall f data = some call ↔
      ∃ x : Int64, data = [⟨Longs.toByteArray x, .amount⟩] ∧ f x.toInt = call := by
  rcases data with _ | ⟨x, _ | ⟨y, rest⟩⟩
  · simp [amountCall]
  · simp [amountCall, DataEntry.amount?_eq_some_iff (hdata x List.mem_cons_self)]
  · simp [amountCall]

/-- The arguments of `send` are the recipient and an amount. -/
theorem callOf_send_iff (hdata : ValidData data) : callOf caller .send data = some call ↔
    ∃ (r : Address) (x : Int64), data = [⟨r.bytes, .address⟩, ⟨Longs.toByteArray x, .amount⟩] ∧
      .transfer caller r x.toInt = call := by
  rcases data with _ | ⟨y, _ | ⟨x, _ | ⟨z, rest⟩⟩⟩
  · simp [callOf]
  · simp [callOf]
  · have hx := hdata x (by simp)
    simp [callOf, Option.bind_eq_some_iff, DataEntry.amount?_eq_some_iff hx,
      DataEntry.address?_eq_some_iff, and_assoc]
  · simp [callOf]

/-- The arguments of `transfer` are the sender, the recipient and an amount. -/
theorem callOf_transfer_iff (hdata : ValidData data) : callOf caller .transfer data = some call ↔
    ∃ (s r : Address) (x : Int64),
      data = [⟨s.bytes, .address⟩, ⟨r.bytes, .address⟩, ⟨Longs.toByteArray x, .amount⟩] ∧
      .transfer s r x.toInt = call := by
  rcases data with _ | ⟨z, _ | ⟨y, _ | ⟨x, _ | ⟨w, rest⟩⟩⟩⟩
  · simp [callOf]
  · simp [callOf]
  · simp [callOf]
  · have hx := hdata x (by simp)
    simp [callOf, Option.bind_eq_some_iff, DataEntry.amount?_eq_some_iff hx,
      DataEntry.address?_eq_some_iff, and_assoc]
  · simp [callOf]

end Calls

/-- A function that does what a call does. -/
def Computes (context : ExecutionContext) (data : List DataEntry) (t : Token Address)
    (caller : Address) (call : Option (Token.Call Address)) : Prop :=
  ∀ d, apply context data = .ok d ↔ ∃ c, call = some c ∧ t.Allowed wordLimit caller c ∧
    d = diffOf context.contractId t c

/-- A function of one parameter for the issuer or the maker alone. -/
theorem guarded_apply_iff {index : Int16} {ret : List DataType} {para : DataType}
    {ids operands : List ByteStr} {var kind : Byte} {act : ByteStr} {a : Address}
    {R : DataEntry → Prop}
    (hfunc : context.opcFunc = function index ret [para] (listOpc ids operands))
    (hassembles : Assembles ret [para] ids operands)
    (hlines : opcLinesOf ids operands = [[4, 1, var, 1], [1, kind, 1], act])
    (hvars : context.stateVar = stateVar) (hvar : var = StateVar.issuer ∨ var = StateVar.maker)
    (hkind : kind = 6 ∨ kind = 7) (hsigner : context.signers.head? = some signer)
    (ha : context.state.VariableIs context.contractId var a)
    (hact : ∀ x, (∃ data', OpcDiffer.apply (untouched context) act [x, ⟨a.bytes, .address⟩]
      = .ok (d, data')) ↔ R x) :
    apply context data = .ok d ↔
      ∃ x, data = [x] ∧ DataType.check para.id x.dataType.id ∧ signer.toAddress = a ∧ R x := by
  rw [apply_function_iff hfunc hassembles, hlines]
  constructor
  · rintro ⟨htypes, data', hrun⟩
    obtain ⟨x, rfl⟩ := List.length_eq_one_iff.mp (List.length_map _ ▸ length_of_checkTypes htypes)
    obtain ⟨hsame, happly⟩ := (guarded_eq_ok_iff hvars hvar hkind hsigner ha).mp hrun
    exact ⟨x, rfl, by simpa [DataType.checkTypes] using htypes, hsame, (hact x).mp ⟨data', happly⟩⟩
  · rintro ⟨x, rfl, hcheck, hsame, hx⟩
    obtain ⟨data', happly⟩ := (hact x).mpr hx
    exact ⟨by simpa [DataType.checkTypes] using hcheck, data',
      (guarded_eq_ok_iff hvars hvar hkind hsigner ha).mpr ⟨hsame, happly⟩⟩

/-- `supersede` computes the ledger's change of the issuer. -/
theorem computes_supersede (hs : context.state.Holds context.contractId t)
    (hvars : context.stateVar = stateVar) (hsigner : context.signers.head? = some signer)
    (hfunc : context.opcFunc = supersedeFunc) :
    Computes context data t signer.toAddress (callOf signer.toAddress .supersede data) := by
  intro d
  have hstart : (untouched context).stateVar = stateVar := hvars
  have hset (x : DataEntry) : (∃ data', OpcDiffer.apply (untouched context)
      [3, 1, StateVar.issuer, 0] [x, ⟨t.maker.bytes, .address⟩] = .ok (d, data')) ↔
      CDBVOpcDiff.set (untouched context) [StateVar.issuer, DataType.address.id] x = .ok d := by
    rw [OpcDiffer.set_eq hstart (.inl rfl) rfl]
    exact keepingData_eq_ok_iff
  rw [guarded_apply_iff hfunc (by decide) rfl hvars (.inr rfl) (.inr rfl) hsigner hs.maker hset]
  simp only [callOf_supersede_iff, CDBVOpcDiff.set_eq_ok_iff]
  constructor
  · rintro ⟨_, rfl, -, hmaker, a, rfl, rfl⟩
    exact ⟨_, ⟨a, rfl, rfl⟩, hmaker, rfl⟩
  · rintro ⟨_, ⟨a, rfl, rfl⟩, hmaker, rfl⟩
    exact ⟨_, rfl, rfl, hmaker, a, rfl, rfl⟩

/-- `issue` computes the ledger's issue. -/
theorem computes_issue (hs : context.state.Holds context.contractId t) (ht : t.Sound)
    (hvars : context.stateVar = stateVar) (hsigner : context.signers.head? = some signer)
    (hdata : ValidData data) (hfunc : context.opcFunc = issueFunc) :
    Computes context data t signer.toAddress (callOf signer.toAddress .issue data) := by
  intro d
  have hdeposit (x : DataEntry) : (∃ data', OpcDiffer.apply (untouched context) [7, 1, 1, 0]
      [x, ⟨t.issuer.bytes, .address⟩] = .ok (d, data')) ↔
      TDBAOpcDiff.deposit (untouched context) ⟨t.issuer.bytes, .address⟩ x firstToken = .ok d :=
    keepingData_eq_ok_iff
  rw [guarded_apply_iff hfunc (by decide) rfl hvars (.inl rfl) (.inl rfl) hsigner hs.issuer
    hdeposit]
  simp only [callOf, amountCall_iff hdata]
  constructor
  · rintro ⟨x, rfl, -, hissuer, hx⟩
    obtain ⟨x, rfl, hword, hnonneg, hmax, rfl⟩ := ((hdata _ List.mem_cons_self).amount_iff).mp
      ((TDBAOpcDiff.deposit_eq_ok_iff (holds_untouched hs)).mp hx)
    refine ⟨_, ⟨x, rfl, rfl⟩, ⟨hissuer, hnonneg, Int.add_comm _ _ ▸ hmax⟩, ?_⟩
    rw [diffOf, Int64.ofInt_toInt]
    rfl
  · rintro ⟨_, ⟨x, rfl, rfl⟩, ⟨hissuer, hnonneg, hmax⟩, rfl⟩
    have hlimit := hs.max_le
    have htotal := ht.total_nonneg
    refine ⟨_, rfl, rfl, hissuer, (TDBAOpcDiff.deposit_eq_ok_iff (holds_untouched hs)).mpr
      ⟨rfl, x, Longs.fromByteArray_toByteArray x, ?_, hnonneg, Int.add_comm _ _ ▸ hmax, ?_⟩⟩
    · unfold wordLimit at hlimit
      unfold InWord
      omega
    · rw [diffOf, Int64.ofInt_toInt]
      rfl

/-- `destroy` computes the ledger's destruction. -/
theorem computes_destroy (hs : context.state.Holds context.contractId t)
    (hvars : context.stateVar = stateVar) (hsigner : context.signers.head? = some signer)
    (hdata : ValidData data) (hfunc : context.opcFunc = destroyFunc) :
    Computes context data t signer.toAddress (callOf signer.toAddress .destroy data) := by
  intro d
  have hwithdraw (x : DataEntry) : (∃ data', OpcDiffer.apply (untouched context) [7, 2, 1, 0]
      [x, ⟨t.issuer.bytes, .address⟩] = .ok (d, data')) ↔
      TDBAOpcDiff.withdraw (untouched context) ⟨t.issuer.bytes, .address⟩ x firstToken = .ok d :=
    keepingData_eq_ok_iff
  rw [guarded_apply_iff hfunc (by decide) rfl hvars (.inl rfl) (.inl rfl) hsigner hs.issuer
    hwithdraw]
  simp only [callOf, amountCall_iff hdata]
  constructor
  · rintro ⟨x, rfl, -, hissuer, hx⟩
    obtain ⟨x, rfl, hle, hnonneg, rfl⟩ := ((hdata _ List.mem_cons_self).amount_iff).mp
      ((TDBAOpcDiff.withdraw_eq_ok_iff (holds_untouched hs)).mp hx)
    refine ⟨_, ⟨x, rfl, rfl⟩, ⟨hissuer, hnonneg, hle⟩, ?_⟩
    rw [diffOf, Int64.ofInt_toInt]
    rfl
  · rintro ⟨_, ⟨x, rfl, rfl⟩, ⟨hissuer, hnonneg, hle⟩, rfl⟩
    refine ⟨_, rfl, rfl, hissuer, (TDBAOpcDiff.withdraw_eq_ok_iff (holds_untouched hs)).mpr
      ⟨rfl, x, Longs.fromByteArray_toByteArray x, hle, hnonneg, ?_⟩⟩
    rw [diffOf, Int64.ofInt_toInt]
    rfl

/-- `split` computes the ledger's split. -/
theorem computes_split (hs : context.state.Holds context.contractId t)
    (hvars : context.stateVar = stateVar) (hsigner : context.signers.head? = some signer)
    (hdata : ValidData data) (hfunc : context.opcFunc = splitFunc) :
    Computes context data t signer.toAddress (callOf signer.toAddress .split data) := by
  intro d
  have hsplit (x : DataEntry) : (∃ data', OpcDiffer.apply (untouched context) [5, 2, 0]
      [x, ⟨t.issuer.bytes, .address⟩] = .ok (d, data')) ↔
      TDBOpcDiff.split (untouched context) x firstToken = .ok d := keepingData_eq_ok_iff
  rw [guarded_apply_iff hfunc (by decide) rfl hvars (.inl rfl) (.inl rfl) hsigner hs.issuer hsplit]
  simp only [callOf, amountCall_iff hdata]
  constructor
  · rintro ⟨x, rfl, -, hissuer, hx⟩
    obtain ⟨x, rfl, hpos, rfl⟩ := ((hdata _ List.mem_cons_self).amount_iff).mp
      ((TDBOpcDiff.split_eq_ok_iff (holds_untouched hs)).mp hx)
    refine ⟨_, ⟨x, rfl, rfl⟩, ⟨hissuer, hpos, (inWord_toInt x).2⟩, ?_⟩
    rw [diffOf, Int64.ofInt_toInt]
    rfl
  · rintro ⟨_, ⟨x, rfl, rfl⟩, ⟨hissuer, hpos, -⟩, rfl⟩
    refine ⟨_, rfl, rfl, hissuer, (TDBOpcDiff.split_eq_ok_iff (holds_untouched hs)).mpr
      ⟨rfl, x, Longs.fromByteArray_toByteArray x, hpos, ?_⟩⟩
    rw [diffOf, Int64.ofInt_toInt]
    rfl

/-- A transfer, as a call of a caller who is its sender. -/
theorem transfer_iff {caller : Address} {r x : DataEntry}
    (hs : context.state.Holds context.contractId t) (ht : t.Sound) (hx : x.Valid) :
    TDBAOpcDiff.transfer (untouched context) ⟨caller.bytes, .address⟩ r x firstToken = .ok d ↔
      ∃ (b : Address) (n : Int64), r = ⟨b.bytes, .address⟩ ∧
        x = ⟨Longs.toByteArray n, .amount⟩ ∧
        t.Allowed wordLimit caller (.transfer caller b n.toInt) ∧
        d = diffOf context.contractId t (.transfer caller b n.toInt) := by
  have hword (b : Address) (n : Int64) (hn : 0 ≤ n.toInt) :
      InWord (n.toInt + t.balance b) ↔ t.balance b + n.toInt ≤ wordLimit := by
    have hb := ht.nonneg b
    unfold InWord wordLimit
    omega
  constructor
  · intro h
    obtain ⟨b, rfl⟩ := TDBAOpcDiff.exists_recipient h
    obtain ⟨n, rfl, hle, hsum, hnonneg, rfl⟩ := hx.amount_iff.mp
      ((TDBAOpcDiff.transfer_eq_ok_iff (holds_untouched hs)).mp h)
    refine ⟨b, n, rfl, rfl, ⟨rfl, hnonneg, hle, (hword b n hnonneg).mp hsum⟩, ?_⟩
    rw [diffOf, Int64.ofInt_toInt]
    rfl
  · rintro ⟨b, n, rfl, rfl, ⟨-, hnonneg, hle, hsum⟩, rfl⟩
    refine (TDBAOpcDiff.transfer_eq_ok_iff (holds_untouched hs)).mpr
      ⟨rfl, n, Longs.fromByteArray_toByteArray n, hle, (hword b n hnonneg).mpr hsum, hnonneg, ?_⟩
    rw [diffOf, Int64.ofInt_toInt]
    rfl

/-- `send` computes the ledger's transfer from the caller. -/
theorem computes_send {index : Int16} (hs : context.state.Holds context.contractId t)
    (ht : t.Sound) (hsigner : context.signers.head? = some signer) (hdata : ValidData data)
    (hfunc : context.opcFunc = sendFunc index) :
    Computes context data t signer.toAddress (callOf signer.toAddress .send data) := by
  intro d
  rw [apply_function_iff hfunc (by decide)]
  simp only [callOf_send_iff hdata]
  constructor
  · rintro ⟨htypes, data', hrun⟩
    obtain ⟨r, x, rfl⟩ := List.length_eq_two.mp (List.length_map _ ▸ length_of_checkTypes htypes)
    obtain ⟨data₁, ⟨signer', hsigner', hstack⟩, hact⟩ := foldlM_two
      (fun happly => OpcDiffer.load_eq_ok (.inr rfl) happly) hrun
    obtain rfl := Option.some.inj (hsigner.symm.trans hsigner')
    have hdata₁ : data₁ = [r, x, ⟨signer.toAddress.bytes, .address⟩] := hstack
    subst hdata₁
    have htransfer : TDBAOpcDiff.transfer (untouched context) ⟨signer.toAddress.bytes, .address⟩ r x
        firstToken = .ok d := (OpcDiffer.keepingData_eq_ok hact).1
    obtain ⟨b, n, rfl, rfl, hallowed, rfl⟩ := (transfer_iff hs ht (hdata x (by simp))).mp htransfer
    exact ⟨_, ⟨b, n, rfl, rfl⟩, hallowed, rfl⟩
  · rintro ⟨_, ⟨b, n, rfl, rfl⟩, hallowed, rfl⟩
    have htransfer := (transfer_iff hs ht (hdata _ (List.mem_cons_of_mem _ List.mem_cons_self))).mpr
      ⟨b, n, rfl, rfl, hallowed, rfl⟩
    have hload : OpcDiffer.apply (untouched context) [2, 2, 2]
        [⟨b.bytes, .address⟩, ⟨Longs.toByteArray n, .amount⟩]
        = .ok (OpcDiff.empty, [⟨b.bytes, .address⟩, ⟨Longs.toByteArray n, .amount⟩,
            ⟨signer.toAddress.bytes, .address⟩]) :=
      OpcDiffer.load_ok (.inr rfl) hsigner rfl
    have hlast : ∃ data', OpcDiffer.apply (untouched context) [7, 3, 2, 0, 1]
        [⟨b.bytes, .address⟩, ⟨Longs.toByteArray n, .amount⟩, ⟨signer.toAddress.bytes, .address⟩]
          = .ok (diffOf context.contractId t (.transfer signer.toAddress b n.toInt), data') :=
      keepingData_eq_ok_iff.mpr htransfer
    obtain ⟨data', hact⟩ := hlast
    exact ⟨rfl, data', foldlM_cons_eq_ok_iff.mpr ⟨_, step_untouched_iff.mpr hload,
      foldlM_cons_eq_ok_iff.mpr ⟨_, step_untouched_iff.mpr hact, rfl⟩⟩⟩

/-- `transfer` computes the ledger's transfer between two named accounts. -/
theorem computes_transfer {index : Int16} (hs : context.state.Holds context.contractId t)
    (ht : t.Sound) (hsigner : context.signers.head? = some signer) (hdata : ValidData data)
    (hfunc : context.opcFunc = transferFunc index) :
    Computes context data t signer.toAddress (callOf signer.toAddress .transfer data) := by
  intro d
  rw [apply_function_iff hfunc (by decide)]
  simp only [callOf_transfer_iff hdata]
  constructor
  · rintro ⟨htypes, data', hrun⟩
    obtain ⟨s, r, x, rfl⟩ := List.length_eq_three.mp
      (List.length_map _ ▸ length_of_checkTypes htypes)
    obtain ⟨data₁, ⟨rfl, signer', hsigner', rfl⟩, hact⟩ := foldlM_two
      (fun happly => OpcDiffer.assert_eq_ok (.inl rfl) happly rfl) hrun
    obtain rfl := Option.some.inj (hsigner.symm.trans hsigner')
    have htransfer : TDBAOpcDiff.transfer (untouched context) ⟨signer.toAddress.bytes, .address⟩ r x
        firstToken = .ok d := (OpcDiffer.keepingData_eq_ok hact).1
    obtain ⟨b, n, rfl, rfl, hallowed, rfl⟩ := (transfer_iff hs ht (hdata x (by simp))).mp htransfer
    exact ⟨_, ⟨_, b, n, rfl, rfl⟩, hallowed, rfl⟩
  · rintro ⟨_, ⟨a, b, n, rfl, rfl⟩, hallowed, rfl⟩
    obtain rfl : signer.toAddress = a := hallowed.1
    have htransfer := (transfer_iff hs ht (hdata _ (List.mem_cons_of_mem _
      (List.mem_cons_of_mem _ List.mem_cons_self)))).mpr ⟨b, n, rfl, rfl, hallowed, rfl⟩
    have hassert : OpcDiffer.apply (untouched context) [1, 6, 0]
        [⟨signer.toAddress.bytes, .address⟩, ⟨b.bytes, .address⟩, ⟨Longs.toByteArray n, .amount⟩]
        = .ok (OpcDiff.empty, [⟨signer.toAddress.bytes, .address⟩, ⟨b.bytes, .address⟩,
            ⟨Longs.toByteArray n, .amount⟩]) :=
      OpcDiffer.assert_ok (.inl rfl) hsigner rfl
    obtain ⟨data', hact⟩ := keepingData_eq_ok_iff.mpr htransfer
    exact ⟨rfl, data', foldlM_cons_eq_ok_iff.mpr ⟨_, step_untouched_iff.mpr hassert,
      foldlM_cons_eq_ok_iff.mpr ⟨_, step_untouched_iff.mpr hact, rfl⟩⟩⟩

/-- `deposit` is a transfer to a contract, which no transfer is. -/
theorem deposit_ne_ok {index : Int16} (hfunc : context.opcFunc = depositFunc index) :
    apply context data ≠ .ok d := by
  intro h
  obtain ⟨htypes, data', hrun⟩ := (apply_function_iff hfunc (by decide)).mp h
  obtain ⟨s, r, x, rfl⟩ := List.length_eq_three.mp
    (List.length_map _ ▸ length_of_checkTypes htypes)
  obtain ⟨data₁, ⟨rfl, -⟩, hact⟩ := foldlM_two
    (fun happly => OpcDiffer.assert_eq_ok (.inl rfl) happly rfl) hrun
  have htransfer : TDBAOpcDiff.transfer (untouched context) s r x firstToken = .ok d :=
    (OpcDiffer.keepingData_eq_ok hact).1
  obtain ⟨b, rfl⟩ := TDBAOpcDiff.exists_recipient htransfer
  exact absurd htypes (by simp [DataType.checkTypes, DataType.check, DataType.id])

/-- What never succeeds is no call. -/
theorem computes_none {caller : Address} (h : ∀ d, apply context data ≠ .ok d) :
    Computes context data t caller none := by
  intro d
  constructor
  · intro happly
    exact (h d happly).elim
  · rintro ⟨c, hc, -⟩
    cases hc

/-- A function that returns a value never gets there. -/
theorem computes_returns {index : Int16} {ret para : List DataType} {opc operands : ByteStr}
    {pointer : Byte} {caller : Address}
    (hfunc : context.opcFunc = function index ret para
      (listOpc [opc, [9, 1]] [operands, [pointer]]))
    (hassembles : Assembles ret para [opc, [9, 1]] [operands, [pointer]]) :
    Computes context data t caller none := by
  refine computes_none fun d happly => ?_
  obtain ⟨-, data', hrun⟩ := (apply_function_iff hfunc hassembles).mp happly
  exact return_last_ne_ok hrun

/-- Every function of a permitted contract does what its call does, if it is one and is allowed, and
fails otherwise. -/
theorem computes {id : FunId} {index : Int16} (hs : context.state.Holds context.contractId t)
    (ht : t.Sound) (hvars : context.stateVar = stateVar)
    (hsigner : context.signers.head? = some signer) (hdata : ValidData data)
    (hfunc : context.opcFunc = id.func index) :
    Computes context data t signer.toAddress (callOf signer.toAddress id data) := by
  cases id with
  | supersede => exact computes_supersede hs hvars hsigner hfunc
  | issue => exact computes_issue hs ht hvars hsigner hdata hfunc
  | destroy => exact computes_destroy hs hvars hsigner hdata hfunc
  | split => exact computes_split hs hvars hsigner hdata hfunc
  | send => exact computes_send hs ht hsigner hdata hfunc
  | transfer => exact computes_transfer hs ht hsigner hdata hfunc
  | deposit => exact computes_none fun d => deposit_ne_ok hfunc
  | withdraw => exact computes_none fun d => withdraw_ne_ok hfunc
  | totalSupply => exact computes_returns hfunc (by decide)
  | maxSupply => exact computes_returns hfunc (by decide)
  | balanceOf => exact computes_returns hfunc (by decide)
  | getIssuer => exact computes_returns hfunc (by decide)

/-- What the trigger of a contract writes first: its issuer and its maker. -/
def variablesDiff (c : ContractAccount) (a : Address) : OpcDiff :=
  (CDBVOpcDiff.setDiff c StateVar.issuer a).combine (CDBVOpcDiff.setDiff c StateVar.maker a)

/-- All that it writes: those, and a token. -/
def startDiff (c : ContractAccount) (i : Int32) (a : Address) (max unity desc : DataEntry) :
    OpcDiff :=
  (variablesDiff c a).combine (TDBOpcDiff.newTokenDiff c i max unity desc)

/-- A line runs in the state that the lines before it leave, and its diff is combined with
theirs. -/
theorem step_eq_ok_iff {d' : OpcDiff} {opc : ByteStr} :
    step context (d, data) opc = .ok (d', data') ↔
      ∃ e, OpcDiffer.apply { context with state := stateSoFar context d } opc data
          = .ok (e, data') ∧
        d' = d.combine e := by
  refine ⟨step_eq_ok, ?_⟩
  rintro ⟨e, happly, rfl⟩
  exact bind_eq_ok_iff.mpr ⟨(e, data'), happly, rfl⟩

/-- An address that is set, wherever in a function. -/
theorem step_set_iff {d' : OpcDiff} {var index : Byte} {a : Address}
    (hvars : context.stateVar = stateVar) (hvar : var = StateVar.issuer ∨ var = StateVar.maker)
    (hv : localVariable data index = some ⟨a.bytes, .address⟩) :
    step context (d, data) [3, 1, var, index] = .ok (d', data') ↔
      data' = data ∧ d' = d.combine (CDBVOpcDiff.setDiff context.contractId var a) := by
  have hlater : ({ context with state := stateSoFar context d } : ExecutionContext).stateVar
      = stateVar := hvars
  have hset := OpcDiffer.set_eq hlater hvar hv
  have hdiff : CDBVOpcDiff.set { context with state := stateSoFar context d }
      [var, DataType.address.id] ⟨a.bytes, .address⟩
      = .ok (CDBVOpcDiff.setDiff context.contractId var a) :=
    CDBVOpcDiff.set_eq_ok_iff.mpr ⟨a, rfl, rfl⟩
  rw [hdiff] at hset
  rw [step_eq_ok_iff, hset]
  constructor
  · rintro ⟨e, he, rfl⟩
    obtain ⟨rfl, rfl⟩ := Prod.mk.inj (Except.ok.inj he)
    exact ⟨rfl, rfl⟩
  · rintro ⟨rfl, rfl⟩
    exact ⟨_, rfl, rfl⟩

/-- The state a contract's first token is created in. -/
def prepared (context : ExecutionContext) (a : Address) : ExecutionContext :=
  { context with state := stateSoFar context (variablesDiff context.contractId a) }

/-- The prepared state of a trigger has as many tokens of each contract as the one before. -/
theorem contractTokens_prepared {a : Address} (id : ByteStr) :
    (prepared context a).state.contractTokens id = context.state.contractTokens id := by
  have hempty : (variablesDiff context.contractId a).contractTokens.lookup id = none := by
    simp [variablesDiff, OpcDiff.combine, CDBVOpcDiff.setDiff]
  show context.state.contractTokens id
    + ((variablesDiff context.contractId a).contractTokens.lookup id).getD 0 = _
  rw [hempty]
  exact Int32.add_zero _

/-- The lines of the trigger. -/
theorem init_lines_iff {x y z : DataEntry} (hvars : context.stateVar = stateVar)
    (hsigner : context.signers.head? = some signer) :
    (∃ data', [[2, 1, 3], [3, 1, StateVar.issuer, 3], [3, 1, StateVar.maker, 3],
        [5, 1, 0, 1, 2]].foldlM (step context) (OpcDiff.empty, [x, y, z]) = .ok (d, data')) ↔
      ∃ e, TDBOpcDiff.newToken (prepared context signer.toAddress) x y z = .ok e ∧
        d = (variablesDiff context.contractId signer.toAddress).combine e := by
  have hload : OpcDiffer.apply (untouched context) [2, 1, 3] [x, y, z]
      = .ok (OpcDiff.empty, [x, y, z, ⟨signer.toAddress.bytes, .address⟩]) :=
    OpcDiffer.load_ok (.inl rfl) hsigner rfl
  have hissuer : step context (OpcDiff.empty, [x, y, z, ⟨signer.toAddress.bytes, .address⟩])
      [3, 1, StateVar.issuer, 3]
      = .ok (CDBVOpcDiff.setDiff context.contractId StateVar.issuer signer.toAddress,
          [x, y, z, ⟨signer.toAddress.bytes, .address⟩]) :=
    (step_set_iff hvars (.inl rfl) rfl).mpr ⟨rfl, (OpcDiff.empty_combine _).symm⟩
  have hmaker : step context (CDBVOpcDiff.setDiff context.contractId StateVar.issuer
      signer.toAddress, [x, y, z, ⟨signer.toAddress.bytes, .address⟩]) [3, 1, StateVar.maker, 3]
      = .ok (variablesDiff context.contractId signer.toAddress,
          [x, y, z, ⟨signer.toAddress.bytes, .address⟩]) :=
    (step_set_iff hvars (.inr rfl) rfl).mpr ⟨rfl, rfl⟩
  -- The first three lines cannot fail, so that the trigger succeeds as its last line does.
  constructor
  · rintro ⟨data', hrun⟩
    obtain ⟨st₁, hfirst, hrun⟩ := foldlM_cons_eq_ok_iff.mp hrun
    obtain rfl := Except.ok.inj ((step_untouched_iff.mpr hload).symm.trans hfirst)
    obtain ⟨st₂, hsecond, hrun⟩ := foldlM_cons_eq_ok_iff.mp hrun
    obtain rfl := Except.ok.inj (hissuer.symm.trans hsecond)
    obtain ⟨st₃, hthird, hrun⟩ := foldlM_cons_eq_ok_iff.mp hrun
    obtain rfl := Except.ok.inj (hmaker.symm.trans hthird)
    obtain ⟨st₄, hlast, hrun⟩ := foldlM_cons_eq_ok_iff.mp hrun
    obtain rfl := Except.ok.inj hrun
    obtain ⟨e, hnew, rfl⟩ := step_eq_ok hlast
    exact ⟨e, (OpcDiffer.keepingData_eq_ok hnew).1, rfl⟩
  · rintro ⟨e, hnew, rfl⟩
    have hlast : ∃ data', OpcDiffer.apply (prepared context signer.toAddress) [5, 1, 0, 1, 2]
        [x, y, z, ⟨signer.toAddress.bytes, .address⟩] = .ok (e, data') :=
      keepingData_eq_ok_iff.mpr hnew
    obtain ⟨data', hact⟩ := hlast
    exact ⟨data', foldlM_cons_eq_ok_iff.mpr ⟨_, step_untouched_iff.mpr hload,
      foldlM_cons_eq_ok_iff.mpr ⟨_, hissuer, foldlM_cons_eq_ok_iff.mpr ⟨_, hmaker,
        foldlM_cons_eq_ok_iff.mpr ⟨_, step_eq_ok_iff.mpr ⟨e, hact, rfl⟩, rfl⟩⟩⟩⟩⟩

/-- The trigger of a permitted contract succeeds if it is given two amounts and a text, of which the
second, the unity, is not zero. -/
theorem init_apply_iff (hvars : context.stateVar = stateVar)
    (hsigner : context.signers.head? = some signer) (hdata : ValidData data)
    (hfunc : context.opcFunc = initFunc) :
    apply context data = .ok d ↔ ∃ (m u : Int64) (desc : DataEntry),
      data = [⟨Longs.toByteArray m, .amount⟩, ⟨Longs.toByteArray u, .amount⟩, desc] ∧
      desc.dataType = .shortText ∧ 0 ≤ m.toInt ∧ 0 < u.toInt ∧
      d = startDiff context.contractId (context.state.contractTokens context.contractId.bytes)
        signer.toAddress ⟨Longs.toByteArray m, .amount⟩ ⟨Longs.toByteArray u, .amount⟩ desc := by
  rw [apply_function_iff hfunc (by decide)]
  constructor
  · rintro ⟨htypes, hrun⟩
    obtain ⟨x, y, z, rfl⟩ := List.length_eq_three.mp
      (List.length_map _ ▸ length_of_checkTypes htypes)
    obtain ⟨e, hnew, rfl⟩ := (init_lines_iff hvars hsigner).mp hrun
    obtain ⟨hx, hy, hz, m, hm, hmax, u, hu, hunity, rfl⟩ := TDBOpcDiff.newToken_eq_ok_iff.mp hnew
    obtain rfl := (hdata x (by simp)).eq_amount hx hm
    obtain rfl := (hdata y (by simp)).eq_amount hy hu
    refine ⟨m, u, z, rfl, hz, hmax, hunity, ?_⟩
    rw [contractTokens_prepared]
    rfl
  · rintro ⟨m, u, z, rfl, hz, hmax, hunity, rfl⟩
    refine ⟨by simp [hz, DataType.checkTypes, DataType.check],
      (init_lines_iff hvars hsigner).mpr ⟨_, TDBOpcDiff.newToken_eq_ok_iff.mpr ⟨rfl, rfl, hz, m,
        Longs.fromByteArray_toByteArray m, hmax, u, Longs.fromByteArray_toByteArray u, hunity, rfl⟩,
        ?_⟩⟩
    rw [contractTokens_prepared]
    rfl

end OpcFuncDiffer

end Vsys
