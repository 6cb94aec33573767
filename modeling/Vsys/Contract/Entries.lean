import Vsys.Sample
import Vsys.Transaction.Fields

/-!
# When the parsers of data entries raise

An entry is read in steps, and some of them read a byte or a length without a look at how many bytes
there are.  Whether they raise is decided where the entries that can be read end: by the bytes that
follow.
-/

namespace Vsys

open Lib

namespace Raises

@[simp]
theorem isRight_iff {α : Type} {r : Result α} : Raises (DataEntry.isRight r) ↔ Raises r := by
  match r with
  | .ok a => simp [DataEntry.isRight]
  | .error (.left v) => simp [DataEntry.isRight]
  | .error (.raised e) => simp [DataEntry.isRight]

end Raises

theorem DataType.id_of_fromByte {b : Byte} {t : DataType} (h : fromByte b = some t) : t.id = b := by
  unfold fromByte at h
  split at h <;> cases h <;> rfl

section Platform

variable [Platform]

theorem Raises.versionedBytesValid_iff {version : Byte} {bytes : ByteStr} :
    Raises (versionedBytesValid version bytes) ↔ bytes.length < 2 := by
  match bytes with
  | [] => simp [versionedBytesValid]
  | [_] => simp [versionedBytesValid]
  | _ :: _ :: rest => simp [versionedBytesValid]

theorem Raises.address_iff {bytes : ByteStr} :
    Raises (Address.fromBytes bytes) ↔ bytes.length < 2 := by
  have hvalid : Raises (Address.isByteArrayValid bytes) ↔ bytes.length < 2 :=
    Raises.versionedBytesValid_iff
  unfold Address.fromBytes
  split <;> rename_i h <;> rw [h] at hvalid
  · simpa using hvalid
  · simpa using hvalid
  · simpa only [Raises.error_iff] using hvalid

theorem Raises.contractAccount_iff {bytes : ByteStr} :
    Raises (ContractAccount.fromBytes bytes) ↔ bytes.length < 2 := by
  have hvalid : Raises (ContractAccount.isByteArrayValid bytes) ↔ bytes.length < 2 :=
    Raises.versionedBytesValid_iff
  unfold ContractAccount.fromBytes
  split <;> rename_i h <;> rw [h] at hvalid
  · simpa using hvalid
  · simpa using hvalid
  · simpa only [Raises.error_iff] using hvalid

namespace DataEntry

/-- The check of an address or a contract account reads two bytes, and that of a text reads the two
bytes of its length. -/
theorem raises_checkDataType_iff {data : ByteStr} {dataType : DataType} :
    Raises (checkDataType data dataType) ↔
      dataType ∈ [.address, .contractAccount, .shortText] ∧ data.length < 2 := by
  cases dataType with
  | publicKey => simp [checkDataType]
  | address => simp [checkDataType, Raises.address_iff]
  | amount =>
      rw [checkDataType]
      split
      · simp [Raises.long_iff, ‹data.length = 8›]
      · simp
  | int32 =>
      rw [checkDataType]
      split
      · simp [Raises.int_iff, ‹data.length = 4›]
      · simp
  | shortText =>
      simp only [checkDataType, Raises.bind_iff, Raises.short_iff, Raises.ok, and_false,
        exists_false, or_false, slice, List.length_take, List.length_drop]
      simp
  | contractAccount => simp [checkDataType, Raises.contractAccount_iff]
  | account => simp [checkDataType]

variable {bytes data : ByteStr} {d : DataEntry} {ds : List DataEntry} {i : Nat}

/-- The bytes begin with a length that is not negative. -/
def Prefixed (data : ByteStr) : Prop :=
  ∃ (length : Int16) (rest : ByteStr), data = Shorts.toByteArray length ++ rest ∧ 0 ≤ length.toInt

/-- The bytes say whether they begin with an entry: there is a type byte, two bytes follow that of an
address or a contract account, and a length that is not negative follows that of a text. -/
def Readable : ByteStr → Prop
  | [] => False
  | b :: data =>
      match DataType.fromByte b with
      | some .address => 2 ≤ data.length
      | some .contractAccount => 2 ≤ data.length
      | some .shortText => Prefixed data
      | _ => True

omit [Platform] in
theorem prefixed_iff :
    Prefixed data ↔ ∃ length, Shorts.fromByteArray (data.take 2) = .ok length ∧ 0 ≤ length.toInt := by
  constructor
  · rintro ⟨length, rest, rfl, hlength⟩
    refine ⟨length, ?_, hlength⟩
    rw [List.take_left' (Shorts.length_toByteArray length), Shorts.fromByteArray_toByteArray]
  · rintro ⟨length, hread, hlength⟩
    have htwo : (data.take 2).length = 2 := by
      have hshort : ¬ Raises (Shorts.fromByteArray (data.take 2)) := by simp [hread]
      rw [Raises.short_iff, List.length_take] at hshort
      rw [List.length_take]
      omega
    refine ⟨length, data.drop 2, ?_, hlength⟩
    rw [Shorts.toByteArray_of_fromByteArray htwo hread, List.take_append_drop]

omit [Platform] in
/-- A slice behind a type byte. -/
theorem slice_data {b : Byte} (h : bytes.drop i = b :: data) (length : Int) :
    slice bytes (i + 1) (i + 1 + length) = data.take length.toNat := by
  have hrest : bytes.drop (i + 1) = data := by
    rw [← List.drop_drop, h]
    rfl
  have hstart : ((i : Int) + 1).toNat = i + 1 := by omega
  have hcount : ((i : Int) + 1 + length).toNat - (i + 1) = length.toNat := by omega
  rw [slice, hstart, hrest, hcount]

/-- The parser raises exactly where the bytes do not say whether an entry begins. -/
theorem raises_parseArraySize_iff : Raises (parseArraySize bytes i) ↔ ¬ Readable (bytes.drop i) := by
  rw [parseArraySize, if_neg (by omega), Int.toNat_natCast]
  simp only
  -- Without a type byte, or before a length that is cut off, the source reads past the end.
  cases hdrop : bytes.drop i with
  | nil =>
      have hnone : bytes[i]? = none := by
        rw [List.getElem?_eq_none_iff]
        exact List.drop_eq_nil_iff.mp hdrop
      simp [hnone, Readable]
  | cons b data =>
      have hsome : bytes[i]? = some b := by
        rw [← Nat.add_zero i, ← List.getElem?_drop, hdrop]
        rfl
      have hslice := slice_data hdrop
      simp only [hsome, getOrRaise, ok_bind, Readable]
      cases htype : DataType.fromByte b with
      | none => simp
      | some dataType =>
          cases dataType with
          | shortText =>
              have hsize : slice bytes ((i : Int) + 1) (i + 3) = data.take 2 := by
                have htwo := hslice 2
                rwa [Int.add_assoc] at htwo
              simp only [dataLength, hsize, prefixed_iff]
              by_cases hshort : Raises (Shorts.fromByteArray (data.take 2))
              · have hnone : ∀ length, Shorts.fromByteArray (data.take 2) ≠ .ok length := by
                  rintro length hlength
                  rw [hlength] at hshort
                  exact Raises.ok hshort
                simp [hshort, hnone]
              · -- a text is cut off inside its length when that is negative
                rw [Raises.short_iff, List.length_take] at hshort
                obtain ⟨length, hlength⟩ : ∃ length, Shorts.fromByteArray (data.take 2) = .ok length :=
                  ⟨_, if_pos (by rw [List.length_take]; omega)⟩
                simp [hlength, hslice, raises_checkDataType_iff]
                omega
          | _ => simp [dataLength, hslice, raises_checkDataType_iff]

/-- An entry that is read lies where it is read. -/
theorem drop_of_parseArraySize {next : Int} (h : parseArraySize bytes i = .ok (d, next)) :
    next = ((i + d.bytes.length : Nat) : Int) ∧
      bytes.drop i = d.bytes ++ bytes.drop (i + d.bytes.length) := by
  obtain ⟨-, hnext, -⟩ := parseArraySize_eq_ok h
  refine ⟨by omega, ?_⟩
  rw [← List.drop_drop, eq_comm, ← List.prefix_iff_eq_append]
  rw [parseArraySize, if_neg (by omega)] at h
  simp only [Int.toNat_natCast] at h
  obtain ⟨b, hb, h⟩ := bind_eq_ok_iff.mp h
  rw [getOrRaise_eq_ok_iff] at hb
  obtain ⟨hi, rfl⟩ := List.getElem?_eq_some_iff.mp hb
  have hdrop := List.drop_eq_getElem_cons hi
  split at h
  · exact (left_ne_ok.mp h).elim
  · rename_i dataType htype
    obtain ⟨length, -, h⟩ := bind_eq_ok_iff.mp h
    obtain ⟨valid, -, h⟩ := bind_eq_ok_iff.mp h
    cases valid with
    | false => exact (left_ne_ok.mp h).elim
    | true =>
        obtain ⟨rfl, -⟩ := Prod.mk.inj (Except.ok.inj h)
        rw [slice_data hdrop, DataEntry.bytes, DataType.id_of_fromByte htype, hdrop]
        exact List.cons_prefix_cons.mpr ⟨rfl, List.take_prefix _ _⟩

/-- A valid entry that the bytes go on with is read, and the rest is left. -/
theorem parseArraySize_of_drop {after : ByteStr} (hd : d.Valid)
    (h : bytes.drop i = d.bytes ++ after) :
    parseArraySize bytes i = .ok (d, ((i + d.bytes.length : Nat) : Int)) ∧
      bytes.drop (i + d.bytes.length) = after := by
  have hi : i < bytes.length := by
    have hlength := congrArg List.length h
    rw [List.length_drop, List.length_append, length_bytes] at hlength
    omega
  refine ⟨parseArraySize_bytes ⟨bytes.take i, after, ?_, ?_⟩ hd, ?_⟩
  · rw [← h, List.take_append_drop]
  · rw [List.length_take]
    omega
  · rw [← List.drop_drop, h, List.drop_left]

/-- A run of the parser raises exactly where the entries that can be read end in bytes that do not
say whether another begins. -/
theorem raises_parseArraysFrom_iff {count : Nat} :
    Raises (parseArraysFrom bytes count i) ↔
      ∃ ds after, ds.length < count ∧ ValidData ds ∧
        bytes.drop i = (ds.map DataEntry.bytes).flatten ++ after ∧ ¬ Readable after := by
  induction count generalizing i with
  | zero => simp [parseArraysFrom]
  | succ count ih =>
      rw [parseArraysFrom, Raises.bind_iff, raises_parseArraySize_iff]
      constructor
      · rintro (hfirst | ⟨⟨d, next⟩, hd, hrest⟩)
        · exact ⟨[], bytes.drop i, Nat.succ_pos _, by simp [ValidData], rfl, hfirst⟩
        · obtain ⟨rfl, hdrop⟩ := drop_of_parseArraySize hd
          simp only [Raises.bind_iff, Raises.ok, and_false, exists_false, or_false] at hrest
          obtain ⟨ds, after, hlength, hds, hafter, hnot⟩ := ih.mp hrest
          refine ⟨d :: ds, after, Nat.succ_lt_succ hlength,
            List.forall_mem_cons.mpr ⟨valid_of_parseArraySize hd, hds⟩, ?_, hnot⟩
          rw [hdrop, hafter, List.map_cons, List.flatten_cons, List.append_assoc]
      · rintro ⟨ds, after, hlength, hds, hafter, hnot⟩
        cases ds with
        | nil => exact .inl (hafter ▸ hnot)
        | cons d ds =>
            obtain ⟨hd, hds⟩ := List.forall_mem_cons.mp hds
            rw [List.map_cons, List.flatten_cons, List.append_assoc] at hafter
            obtain ⟨hread, hdrop⟩ := parseArraySize_of_drop hd hafter
            refine .inr ⟨_, hread, ?_⟩
            simp only [Raises.bind_iff, Raises.ok, and_false, exists_false, or_false]
            exact ih.mpr ⟨ds, after, Nat.lt_of_succ_lt_succ hlength, hds, hdrop, hnot⟩

/-- The entries a run reads are as many as it is asked for, and lie one after another. -/
theorem drop_of_parseArraysFrom {count : Nat} (h : parseArraysFrom bytes count i = .ok ds) :
    ds.length = count ∧ (ds.map DataEntry.bytes).flatten <+: bytes.drop i := by
  induction count generalizing i ds with
  | zero =>
      obtain rfl := Except.ok.inj h
      exact ⟨rfl, List.nil_prefix⟩
  | succ count ih =>
      obtain ⟨⟨d, next⟩, hd, h⟩ := bind_eq_ok_iff.mp h
      obtain ⟨rest, hrest, h⟩ := bind_eq_ok_iff.mp h
      obtain rfl := Except.ok.inj h
      obtain ⟨rfl, hdrop⟩ := drop_of_parseArraySize hd
      obtain ⟨hlength, hflatten⟩ := ih hrest
      rw [hdrop, List.length_cons, hlength, List.map_cons, List.flatten_cons]
      exact ⟨rfl, (List.prefix_append_right_inj _).mpr hflatten⟩

/-- The bytes begin with a count of entries that is not negative, and wherever fewer entries end they
say whether another begins. -/
def Framed (bytes : ByteStr) : Prop :=
  ∃ (count : Int16) (rest : ByteStr), bytes = Shorts.toByteArray count ++ rest ∧ 0 ≤ count.toInt ∧
    ∀ ds after, (ds.length : Int) < count.toInt → ValidData ds →
      rest = (ds.map DataEntry.bytes).flatten ++ after → Readable after

/-- The parser returns, and what it reads is valid and written as the bytes begin. -/
def Parses (bytes : ByteStr) : Prop :=
  ¬ Raises (parseArrays bytes) ∧
    ∀ ds, parseArrays bytes = .ok ds → ValidData ds ∧ serializeArrays ds <+: bytes

theorem parseArrays_append (count : Int16) (rest : ByteStr) :
    parseArrays (Shorts.toByteArray count ++ rest)
      = parseArraysFrom (Shorts.toByteArray count ++ rest) count.toInt.toNat (2 : Nat) := by
  have hcount : Holds (Shorts.toByteArray count ++ rest) 0 (Shorts.toByteArray count) :=
    ⟨[], rest, rfl, rfl⟩
  rw [parseArrays, hcount.short (by rfl) (by rfl)]
  rfl

omit [Platform] in
theorem serializeArrays_prefix_iff {count : Int16} {rest : ByteStr} :
    serializeArrays ds <+: Shorts.toByteArray count ++ rest ↔
      Int16.ofNat ds.length = count ∧ (ds.map DataEntry.bytes).flatten <+: rest := by
  constructor
  · rintro ⟨after, h⟩
    rw [serializeArrays, List.append_assoc] at h
    obtain ⟨hcount, hrest⟩ := List.append_inj h (by simp)
    exact ⟨Shorts.toByteArray_injective hcount, after, hrest⟩
  · rintro ⟨rfl, hrest⟩
    exact (List.prefix_append_right_inj _).mpr hrest

theorem framed_append_iff {count : Int16} {rest : ByteStr} :
    Framed (Shorts.toByteArray count ++ rest) ↔
      0 ≤ count.toInt ∧ ∀ ds after, (ds.length : Int) < count.toInt → ValidData ds →
        rest = (ds.map DataEntry.bytes).flatten ++ after → Readable after := by
  constructor
  · rintro ⟨count', rest', h, hframed⟩
    obtain ⟨hcount, rfl⟩ := List.append_inj h (by simp)
    obtain rfl := Shorts.toByteArray_injective hcount
    exact hframed
  · intro hframed
    exact ⟨count, rest, rfl, hframed⟩

/-- Entries are parsed exactly where the bytes are framed. -/
theorem parses_iff : Parses bytes ↔ Framed bytes := by
  by_cases hshort : bytes.length < 2
  · constructor
    · rintro ⟨hreturns, -⟩
      refine absurd ?_ hreturns
      rw [parseArrays, Raises.bind_iff, Raises.short_iff]
      refine .inl (Nat.lt_of_le_of_lt ?_ hshort)
      rw [slice, List.length_take, List.length_drop]
      omega
    · rintro ⟨count, rest, rfl, -⟩
      rw [List.length_append, Shorts.length_toByteArray] at hshort
      omega
  · obtain ⟨count, rest, rfl⟩ : ∃ count rest, bytes = Shorts.toByteArray count ++ rest := by
      have htwo : (bytes.take 2).length = 2 := by
        rw [List.length_take]
        omega
      obtain ⟨count, hread⟩ : ∃ count, Shorts.fromByteArray (bytes.take 2) = .ok count :=
        ⟨_, if_pos htwo.ge⟩
      refine ⟨count, bytes.drop 2, ?_⟩
      rw [Shorts.toByteArray_of_fromByteArray htwo hread, List.take_append_drop]
    have hdrop : (Shorts.toByteArray count ++ rest).drop 2 = rest :=
      List.drop_left' (Shorts.length_toByteArray count)
    rw [framed_append_iff, Parses, parseArrays_append, raises_parseArraysFrom_iff, hdrop]
    constructor
    · rintro ⟨hreturns, hread⟩
      -- a negative count reads no entries, and no entries are written with the count zero
      have hcount : 0 ≤ count.toInt := by
        by_contra hnegative
        rw [Int.toNat_of_nonpos (by omega)] at hread
        obtain ⟨-, hprefix⟩ := hread [] rfl
        obtain ⟨rfl, -⟩ := serializeArrays_prefix_iff.mp hprefix
        exact hnegative (by decide)
      refine ⟨hcount, fun ds after hlength hds hafter => ?_⟩
      by_contra hnot
      exact hreturns ⟨ds, after, by omega, hds, hafter, hnot⟩
    · rintro ⟨hcount, hreadable⟩
      refine ⟨?_, fun ds hds => ⟨valid_of_parseArraysFrom hds, ?_⟩⟩
      · rintro ⟨ds, after, hlength, hds, hafter, hnot⟩
        exact hnot (hreadable ds after (by omega) hds hafter)
      · obtain ⟨hlength, hflatten⟩ := drop_of_parseArraysFrom hds
        rw [hdrop] at hflatten
        refine serializeArrays_prefix_iff.mpr ⟨?_, hflatten⟩
        rw [← Int16.toInt_inj, hlength, Int16.toInt_ofNat_of_lt]
        · omega
        · have := count.toInt_lt
          omega

/-- A text that is not too long is accepted with its length in front. -/
theorem checkDataType_withSize (h : data.length ≤ 140) :
    checkDataType (Shorts.toByteArray (Int16.ofNat data.length) ++ data) .shortText = .ok true := by
  have hsize : Holds (Shorts.toByteArray (Int16.ofNat data.length) ++ data) 0
      (Shorts.toByteArray (Int16.ofNat data.length)) := ⟨[], data, rfl, rfl⟩
  have hlength := Int16.toInt_ofNat_of_lt (n := data.length) (by omega)
  rw [checkDataType, hsize.short (by rfl) (by rfl), ok_bind, hlength, List.length_append,
    Shorts.length_toByteArray, MaxDescriptionSize]
  simp only [Except.ok.injEq, decide_eq_true_eq]
  omega

/-- The length of a text that is put in front of it is always there, and a text that is tried
without it is a long one. -/
theorem raises_create_iff {dataType : DataType} :
    Raises (create data dataType) ↔ dataType ∈ [.address, .contractAccount] ∧ data.length < 2 := by
  by_cases htype : dataType = .shortText
  · subst htype
    have hsize : ¬ Raises
        (checkDataType (Shorts.toByteArray (Int16.ofNat data.length) ++ data) .shortText) := by
      rw [raises_checkDataType_iff, List.length_append, Shorts.length_toByteArray]
      omega
    by_cases hshort : data.length < 2
    · simp [create, checkDataType_withSize (show data.length ≤ 140 by omega)]
    · simp [create, hsize, raises_checkDataType_iff, hshort]
  · simp [create, htype, raises_checkDataType_iff]

/-- One entry is parsed without an exception exactly where an address or a contract account has two
bytes behind its type. -/
theorem raises_fromBytes_iff :
    Raises (fromBytes bytes) ↔
      (bytes.head? = some DataType.address.id ∨ bytes.head? = some DataType.contractAccount.id) ∧
        bytes.length < 3 := by
  match bytes with
  | [] => simp [fromBytes]
  | b :: data =>
      cases htype : DataType.fromByte b with
      | none =>
          have haddress : b ≠ DataType.address.id := by
            rintro rfl
            cases htype
          have hcontract : b ≠ DataType.contractAccount.id := by
            rintro rfl
            cases htype
          simp [fromBytes, htype, haddress, hcontract]
      | some dataType =>
          obtain rfl := DataType.id_of_fromByte htype
          simp only [fromBytes, htype]
          cases dataType <;> simp [raises_create_iff, DataType.id] <;> omega

/-- A text is read back from its bytes, since `create` puts the same length in front. -/
theorem fromBytes_bytes_of_valid (h : d.Valid) : fromBytes d.bytes = .ok d := by
  by_cases htype : d.dataType = .shortText
  · obtain ⟨data, dataType⟩ := d
    obtain rfl : dataType = .shortText := htype
    obtain ⟨length, hread, hlength, htwo⟩ := shortText_length h
    simp only at hlength htwo
    have hsize : slice data 0 2 = data.take 2 := rfl
    have htake : (data.take 2).length = 2 := by
      rw [List.length_take]
      omega
    have htext : slice (5 :: data) 3 (5 :: data).length = data.drop 2 := by
      refine List.take_of_length_le ?_
      simp
    have hwhole : Shorts.toByteArray (Int16.ofNat (data.drop 2).length) ++ data.drop 2 = data := by
      have hcount : Int16.ofNat (data.drop 2).length = length := by
        have hmax := length.toInt_lt
        rw [← Int16.toInt_inj, List.length_drop, Int16.toInt_ofNat_of_lt (by omega)]
        omega
      rw [hcount, Shorts.toByteArray_of_fromByteArray htake hread, List.take_append_drop]
    have hcheck : checkDataType data .shortText = .ok true := h
    change create (slice (5 :: data) 3 (5 :: data).length) .shortText = _
    rw [htext, create, hwhole, hcheck]
    rfl
  · exact fromBytes_bytes h htype

/-- The parsers of entries return exactly on bytes that say where each entry begins, and what
`create` makes is always read back. -/
theorem parsers_total_iff :
    (∀ bytes, (¬ Raises (fromBytes bytes) ∧ Parses bytes) ↔
      (bytes.head? ∈ [some DataType.address.id, some DataType.contractAccount.id] →
        3 ≤ bytes.length) ∧ Framed bytes) ∧
    ∀ ds : List DataEntry, (∀ d ∈ ds, ∃ data dataType, create data dataType = .ok d) →
      ds.length ≤ 32767 →
      parseArrays (serializeArrays ds) = .ok ds ∧ ∀ d ∈ ds, fromBytes d.bytes = .ok d := by
  constructor
  · intro bytes
    rw [raises_fromBytes_iff, parses_iff, List.mem_pair, not_and, not_lt]
  · intro ds hcreated hcount
    have hds : ValidData ds := by
      intro d hd
      obtain ⟨data, dataType, hcreate⟩ := hcreated d hd
      exact valid_of_create hcreate
    exact ⟨parseArrays_serializeArrays hds hcount, fun d hd => fromBytes_bytes_of_valid (hds d hd)⟩

end DataEntry

end Platform

namespace Sample

/-- A lone type byte of an address raises, and so does a missing count; a negative count is taken for
no entries. -/
theorem entries_raise :
    Raises (DataEntry.fromBytes [2]) ∧ Raises (DataEntry.parseArrays []) ∧
      Raises (DataEntry.parseArrays [0, 1]) ∧ Raises (DataEntry.parseArrays [0, 1, 5, -1, -1]) ∧
      DataEntry.parseArrays [-1, -1] = .ok [] ∧
      ¬ DataEntry.serializeArrays [] <+: [-1, -1] := by
  decide +kernel

end Sample

end Vsys
