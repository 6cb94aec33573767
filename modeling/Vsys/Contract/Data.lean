import Vsys.Account

/-!
# Contract data

The typed values a contract function works on, and the contract itself: triggers, descriptors and
state variables as byte strings.
-/

namespace Vsys

open Lib

/-- `contract.DataType`. -/
inductive DataType where
  | publicKey
  | address
  | amount
  | int32
  | shortText
  | contractAccount
  | account
  deriving DecidableEq

namespace DataType

/-- The number of a data type. -/
def id : DataType → Byte
  | publicKey => 1
  | address => 2
  | amount => 3
  | int32 => 4
  | shortText => 5
  | contractAccount => 6
  | account => 7

/-- `DataType.fromByte`. -/
def fromByte (b : Byte) : Option DataType :=
  match b with
  | 1 => some publicKey
  | 2 => some address
  | 3 => some amount
  | 4 => some int32
  | 5 => some shortText
  | 6 => some contractAccount
  | 7 => some account
  | _ => none

@[simp]
theorem fromByte_id (t : DataType) : fromByte t.id = some t := by cases t <;> rfl

theorem id_injective : Function.Injective id := by
  intro s t h
  have hs := fromByte_id s
  rw [h, fromByte_id] at hs
  exact (Option.some.inj hs).symm

/-- `DataType.check`: equal types, or an account against an address or a contract account, in
either order. -/
def check (a b : Byte) : Bool :=
  a = b ∨ (if a = account.id then b = address.id ∨ b = contractAccount.id
    else b = account.id ∧ (a = address.id ∨ a = contractAccount.id))

/-- `DataType.checkTypes`. -/
def checkTypes (paraTypes dataTypes : ByteStr) : Bool :=
  paraTypes.length = dataTypes.length ∧
    (paraTypes.zip dataTypes).all fun types => check types.1 types.2

end DataType

variable [Platform]

/-- A typed value. -/
structure DataEntry where
  data : ByteStr
  dataType : DataType
  deriving DecidableEq

namespace DataEntry

/-- `RegisterContractTransaction.MaxDescriptionSize`. -/
def MaxDescriptionSize : Nat := 140

/-- The type byte followed by the data. -/
def bytes (d : DataEntry) : ByteStr := d.dataType.id :: d.data

/-- `Either.isRight`; an exception inside escapes. -/
def isRight {α : Type} : Result α → Result Bool
  | .ok _ => .ok true
  | .error (.left _) => .ok false
  | .error (.raised e) => raise e

/-- `DataEntry.checkDataType`. -/
def checkDataType (data : ByteStr) : DataType → Result Bool
  | .publicKey => .ok (data.length = 32)
  | .address => isRight (Address.fromBytes data)
  | .amount =>
      if data.length = 8 then do
        let amount ← Longs.fromByteArray data
        .ok (0 ≤ amount)
      else .ok false
  | .int32 =>
      if data.length = 4 then do
        let value ← Ints.fromByteArray data
        .ok (0 ≤ value)
      else .ok false
  | .shortText => do
      let length ← Shorts.fromByteArray (slice data 0 2)
      .ok (length.toInt + 2 = data.length ∧ data.length ≤ 2 + MaxDescriptionSize)
  | .contractAccount => isRight (ContractAccount.fromBytes data)
  | .account => .ok false

/-- An entry the code's own check accepts. -/
def Valid (d : DataEntry) : Prop := checkDataType d.data d.dataType = .ok true

instance (d : DataEntry) : Decidable d.Valid := inferInstanceAs (Decidable (_ = _))

/-- `DataEntry.create`.  A short text gets its length in front; text that fails so is tried once
more as it is. -/
def create (data : ByteStr) (dataType : DataType) : Result DataEntry := do
  let withSize := Shorts.toByteArray (Int16.ofNat data.length) ++ data
  if dataType = .shortText then
    if ← checkDataType withSize dataType then return ⟨withSize, dataType⟩
  if ← checkDataType data dataType then return ⟨data, dataType⟩
  left .invalidDataEntry

/-- `DataEntry.fromBytes`. -/
def fromBytes (bytes : ByteStr) : Result DataEntry :=
  match bytes with
  | [] => left .invalidDataEntry
  | b :: data =>
      match DataType.fromByte b with
      | none => left .invalidDataEntry
      | some .shortText => create (slice bytes 3 bytes.length) .shortText
      | some dataType => create data dataType

/-- The number of bytes `DataEntry.parseArraySize` takes for the data of each type. -/
def dataLength (bytes : ByteStr) (position : Int) : DataType → Result Int
  | .publicKey => .ok 32
  | .address => .ok 26
  | .amount => .ok 8
  | .int32 => .ok 4
  | .shortText => do
      let length ← Shorts.fromByteArray (slice bytes (position + 1) (position + 3))
      .ok (2 + length.toInt)
  | .contractAccount => .ok 26
  | .account => left .invalidDataEntry

/-- `DataEntry.parseArraySize`: the entry at `position` and the position after it. -/
def parseArraySize (bytes : ByteStr) (position : Int) : Result (DataEntry × Int) := do
  if position < 0 then raise .indexOutOfBounds
  let b ← getOrRaise .indexOutOfBounds bytes[position.toNat]?
  match DataType.fromByte b with
  | none => left .invalidDataEntry
  | some dataType =>
      let length ← dataLength bytes position dataType
      let data := slice bytes (position + 1) (position + 1 + length)
      if ← checkDataType data dataType then return (⟨data, dataType⟩, position + 1 + length)
      left .invalidDataEntry

/-- The loop of `DataEntry.parseArrays`: `count` entries from `position` on. -/
def parseArraysFrom (bytes : ByteStr) : Nat → Int → Result (List DataEntry)
  | 0, _ => .ok []
  | count + 1, position => do
      let (arr, nextPos) ← parseArraySize bytes position
      let rest ← parseArraysFrom bytes count nextPos
      .ok (arr :: rest)

/-- `DataEntry.parseArrays`. -/
def parseArrays (bytes : ByteStr) : Result (List DataEntry) := do
  let length ← Shorts.fromByteArray (slice bytes 0 2)
  parseArraysFrom bytes length.toInt.toNat 2

/-- `DataEntry.serializeArrays`. -/
def serializeArrays (ds : List DataEntry) : ByteStr :=
  Shorts.toByteArray (Int16.ofNat ds.length) ++ (ds.map bytes).flatten

omit [Platform] in
theorem isRight_eq_ok_true_iff {α : Type} {r : Result α} :
    isRight r = .ok true ↔ ∃ a, r = .ok a := by
  match r with
  | .ok a => simp [isRight]
  | .error (.left e) => simp [isRight]
  | .error (.raised e) => simp [isRight]

theorem Valid.length_int32 {d : DataEntry} (h : d.Valid) (htype : d.dataType = .int32) :
    d.data.length = 4 := by
  rw [Valid, htype, checkDataType] at h
  split at h
  · assumption
  · cases h

theorem Valid.amount {d : DataEntry} (h : d.Valid) (htype : d.dataType = .amount) :
    ∃ v, Longs.fromByteArray d.data = .ok v ∧ 0 ≤ v := by
  rw [Valid, htype, checkDataType] at h
  split at h
  · obtain ⟨v, hv, h⟩ := bind_eq_ok_iff.mp h
    exact ⟨v, hv, by simpa using h⟩
  · cases h

theorem valid_amount {v : Int64} (h : 0 ≤ v) : Valid ⟨Longs.toByteArray v, .amount⟩ := by
  simp [Valid, checkDataType, h]

theorem valid_address (a : Address) : Valid ⟨a.bytes, .address⟩ := by
  simp [Valid, checkDataType, isRight]

/-- What `create` makes is valid. -/
theorem valid_of_create {data : ByteStr} {dataType : DataType} {d : DataEntry}
    (h : create data dataType = .ok d) : d.Valid := by
  have hlast (h : (do if ← checkDataType data dataType then return ⟨data, dataType⟩
                      left .invalidDataEntry : Result DataEntry) = .ok d) : d.Valid := by
    obtain ⟨b, hb, h⟩ := bind_eq_ok_iff.mp h
    cases b with
    | false => exact (left_ne_ok.mp h).elim
    | true =>
        obtain rfl := Except.ok.inj h
        exact hb
  unfold create at h
  simp only at h
  split at h
  · obtain ⟨b, hb, h⟩ := bind_eq_ok_iff.mp h
    cases b with
    | false => exact hlast h
    | true =>
        obtain rfl := Except.ok.inj h
        exact hb
  · exact hlast h

/-- What is read from bytes is valid. -/
theorem valid_of_fromBytes {bytes : ByteStr} {d : DataEntry} (h : fromBytes bytes = .ok d) :
    d.Valid := by
  match bytes with
  | [] => exact (left_ne_ok.mp h).elim
  | b :: data =>
      simp only [fromBytes] at h
      split at h
      · exact (left_ne_ok.mp h).elim
      · exact valid_of_create h
      · exact valid_of_create h

theorem valid_of_parseArraySize {bytes : ByteStr} {position next : Int} {d : DataEntry}
    (h : parseArraySize bytes position = .ok (d, next)) : d.Valid := by
  unfold parseArraySize at h
  simp only at h
  split at h
  · cases h
  obtain ⟨b, _, h⟩ := bind_eq_ok_iff.mp h
  split at h
  · exact (left_ne_ok.mp h).elim
  · obtain ⟨length, _, h⟩ := bind_eq_ok_iff.mp h
    obtain ⟨valid, hvalid, h⟩ := bind_eq_ok_iff.mp h
    cases valid with
    | false => exact (left_ne_ok.mp h).elim
    | true =>
        obtain ⟨rfl, -⟩ := Prod.mk.inj (Except.ok.inj h)
        exact hvalid

/-- The entries `parseArrays` reads are valid. -/
theorem valid_of_parseArraysFrom {bytes : ByteStr} {count : Nat} {position : Int}
    {ds : List DataEntry} (h : parseArraysFrom bytes count position = .ok ds) :
    ∀ d ∈ ds, d.Valid := by
  induction count generalizing position ds with
  | zero =>
      obtain rfl := Except.ok.inj h
      simp
  | succ count ih =>
      obtain ⟨⟨arr, next⟩, harr, h⟩ := bind_eq_ok_iff.mp h
      obtain ⟨rest, hrest, h⟩ := bind_eq_ok_iff.mp h
      obtain rfl := Except.ok.inj h
      exact List.forall_mem_cons.mpr ⟨valid_of_parseArraySize harr, ih hrest⟩

/-- A valid entry other than a text reads back from its bytes. -/
theorem fromBytes_bytes {d : DataEntry} (h : d.Valid) (htype : d.dataType ≠ .shortText) :
    fromBytes d.bytes = .ok d := by
  have hcreate : create d.data d.dataType = .ok d := by
    unfold create
    simp only
    rw [if_neg htype, show checkDataType d.data d.dataType = .ok true from h]
    rfl
  unfold fromBytes
  simp only [bytes, DataType.fromByte_id]
  exact hcreate

end DataEntry

/-- Every entry is valid. -/
def ValidData (data : List DataEntry) : Prop := ∀ d ∈ data, d.Valid

instance (data : List DataEntry) : Decidable (ValidData data) :=
  inferInstanceAs (Decidable (∀ d ∈ data, d.Valid))

/-- The entries `DataEntry.parseArrays` returns are valid. -/
theorem DataEntry.valid_of_parseArrays {bytes : ByteStr} {data : List DataEntry}
    (h : DataEntry.parseArrays bytes = .ok data) : ValidData data := by
  obtain ⟨_, _, h⟩ := bind_eq_ok_iff.mp h
  exact DataEntry.valid_of_parseArraysFrom h

/-- `contract.Contract`. -/
structure Contract where
  languageCode : ByteStr
  languageVersion : ByteStr
  trigger : List ByteStr
  descriptor : List ByteStr
  stateVar : List ByteStr
  textual : List ByteStr
  deriving DecidableEq

namespace Contract

/-- `Contract.bytes`. -/
def bytes (c : Contract) : ByteStr :=
  c.languageCode ++ c.languageVersion
    ++ Deser.serializeArray (Deser.serializeArrays c.trigger)
    ++ Deser.serializeArray (Deser.serializeArrays c.descriptor)
    ++ Deser.serializeArray (Deser.serializeArrays c.stateVar)
    ++ Deser.serializeArrays c.textual

/-- `Contract.checkStateVar`; `DataType(stateVar(1))` raises for a number that names no type. -/
def checkStateVar (stateVar : ByteStr) (dataType : DataType) : Result Bool :=
  match stateVar with
  | [_, b] => do
      let stateVarType ← getOrRaise .noSuchElement (DataType.fromByte b)
      .ok (dataType = stateVarType)
  | _ => .ok false

end Contract

end Vsys
