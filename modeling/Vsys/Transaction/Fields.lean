import Mathlib.Algebra.Order.BigOperators.Group.List
import Vsys.Lib.Layout
import Vsys.Transaction.Parser

/-!
# Fields read back from their bytes

Numbers, arrays, data entries, proofs and recipients at a position of a byte string.  The one thing
that can go wrong is a length: the prefixes are signed 16-bit numbers, so an array of more than
32767 bytes is never read.
-/

namespace Vsys

open Lib

/-- A short number is read back from its two bytes. -/
@[simp]
theorem Shorts.fromByteArray_toByteArray (x : Int16) :
    Shorts.fromByteArray (Shorts.toByteArray x) = .ok x := by
  have hlength : (Shorts.toByteArray x).length = 2 := Shorts.length_toByteArray x
  have hlt : x.toUInt16.toNat < 256 ^ 2 := x.toUInt16.toNat_lt
  rw [Shorts.fromByteArray, if_pos hlength.ge, List.take_of_length_le hlength.le,
    Shorts.toByteArray, BigEndian.decode_encode, Nat.mod_eq_of_lt hlt, UInt16.ofNat_toNat,
    Int16.toInt16_toUInt16]

/-- Short numbers with the same bytes are the same. -/
theorem Shorts.toByteArray_injective : Function.Injective Shorts.toByteArray := by
  intro x y h
  have hx := Shorts.fromByteArray_toByteArray x
  rw [h, Shorts.fromByteArray_toByteArray] at hx
  exact (Except.ok.inj hx).symm

/-- Long numbers with the same bytes are the same. -/
theorem Longs.toByteArray_injective : Function.Injective Longs.toByteArray := by
  intro x y h
  have hx := Longs.fromByteArray_toByteArray x
  rw [h, Longs.fromByteArray_toByteArray] at hx
  exact (Except.ok.inj hx).symm

/-- The beginning of a slice. -/
theorem slice_slice {bytes : ByteStr} {start stop : Int} {n : Nat} (hstart : 0 ≤ start)
    (h : n ≤ (slice bytes start stop).length) :
    slice (slice bytes start stop) 0 n = slice bytes start (start + n) := by
  rw [slice, List.length_take] at h
  have hcount : (start + n).toNat - start.toNat = n := by omega
  simp only [slice, Int.toNat_zero, List.drop_zero, Int.toNat_natCast, Nat.sub_zero,
    List.take_take, hcount]
  rw [Nat.min_eq_left (by omega)]

namespace Lib.Holds

variable {bytes part : ByteStr} {i : Nat} {start stop : Int}

/-- A part that the bytes hold is their slice. -/
theorem slice (h : Holds bytes i part) (hstart : start = i) (hstop : stop = i + part.length) :
    slice bytes start stop = part := by
  have htake := h.take_drop
  have hcount : (((i : Int) + part.length).toNat) - i = part.length := by omega
  rw [Vsys.slice, hstart, hstop, Int.toNat_natCast, hcount]
  exact htake

/-- A long number that the bytes hold is read from them. -/
theorem long {x : Int64} (h : Holds bytes i (Longs.toByteArray x)) (hstart : start = i)
    (hstop : stop = i + 8) : Longs.fromByteArray (Vsys.slice bytes start stop) = .ok x := by
  rw [h.slice hstart (by simpa using hstop), Longs.fromByteArray_toByteArray]

/-- A number that the bytes hold is read from them. -/
theorem int {x : Int32} (h : Holds bytes i (Ints.toByteArray x)) (hstart : start = i)
    (hstop : stop = i + 4) : Ints.fromByteArray (Vsys.slice bytes start stop) = .ok x := by
  rw [h.slice hstart (by simpa using hstop), Ints.fromByteArray_toByteArray]

/-- A short number that the bytes hold is read from them. -/
theorem short {x : Int16} (h : Holds bytes i (Shorts.toByteArray x)) (hstart : start = i)
    (hstop : stop = i + 2) : Shorts.fromByteArray (Vsys.slice bytes start stop) = .ok x := by
  rw [h.slice hstart (by simpa using hstop), Shorts.fromByteArray_toByteArray]

/-- An array whose length fits its prefix. -/
theorem array {b : ByteStr} (h : Holds bytes i (Deser.serializeArray b)) (hb : b.length ≤ 32767)
    (hstart : start = i) :
    Deser.parseArraySize bytes start = .ok (b, ((i + 2 + b.length : Nat) : Int)) := by
  have hlength := Int16.toInt_ofNat_of_lt (n := b.length) (by omega)
  have hdata := h.right
  rw [Shorts.length_toByteArray] at hdata
  rw [Deser.parseArraySize, h.left.short hstart (by omega)]
  simp only [ok_bind, hlength]
  rw [hdata.slice (by push_cast; omega) (by push_cast; omega)]
  congr 2
  push_cast
  omega

end Lib.Holds

namespace Deser

/-- An array with its length takes two bytes more. -/
@[simp]
theorem length_serializeArray (b : ByteStr) : (serializeArray b).length = 2 + b.length := by
  rw [serializeArray, List.length_append, Shorts.length_toByteArray]

/-- Arrays whose lengths differ by less than a prefix wraps at are told apart by their prefixes. -/
theorem serializeArray_append_inj {a b r r' : ByteStr} (hab : a.length < b.length + 65536)
    (hba : b.length < a.length + 65536) (h : serializeArray a ++ r = serializeArray b ++ r') :
    a = b ∧ r = r' := by
  rw [serializeArray, serializeArray, List.append_assoc, List.append_assoc] at h
  obtain ⟨hsize, hrest⟩ := List.append_inj h (by simp)
  have hmod := BigEndian.encode_inj.mp hsize
  have hwrap (n : Nat) : (Int16.ofNat n).toUInt16.toNat % 256 ^ 2 = n % 65536 := by
    rw [Int16.toUInt16_ofNat', UInt16.toNat_ofNat']
    omega
  rw [hwrap, hwrap] at hmod
  exact List.append_inj hrest (by omega)

/-- No array that is read is longer than a prefix can say. -/
theorem length_parseArraySize {bytes arr : ByteStr} {position next : Int}
    (h : parseArraySize bytes position = .ok (arr, next)) : arr.length ≤ 32767 := by
  obtain ⟨length, -, h⟩ := bind_eq_ok_iff.mp h
  obtain ⟨rfl, -⟩ := Prod.mk.inj (Except.ok.inj h)
  have hlength : length.toInt ≤ 32767 := Int16.toInt_le length
  rw [slice, List.length_take]
  omega

/-- Arrays whose lengths fit a short number are read back from their place. -/
theorem parseArraysFrom_serializeArray {bytes : ByteStr} {bs : List ByteStr} {i : Nat}
    (h : Holds bytes i (bs.map serializeArray).flatten) (hbs : ∀ b ∈ bs, b.length ≤ 32767) :
    parseArraysFrom bytes bs.length i = .ok bs := by
  induction bs generalizing i with
  | nil => rfl
  | cons b bs ih =>
      have hb := hbs b List.mem_cons_self
      rw [List.map_cons, List.flatten_cons] at h
      have hrest := h.right
      rw [serializeArray, List.length_append, Shorts.length_toByteArray, ← Nat.add_assoc] at hrest
      rw [List.length_cons, parseArraysFrom, h.left.array hb rfl]
      simp only [ok_bind]
      rw [ih hrest fun b hb => hbs b (List.mem_cons_of_mem _ hb)]
      rfl

/-- Few short arrays. -/
theorem parseArrays_serializeArrays {bs : List ByteStr} (hcount : bs.length ≤ 32767)
    (hbs : ∀ b ∈ bs, b.length ≤ 32767) : parseArrays (serializeArrays bs) = .ok bs := by
  have hparts : serializeArrays bs = [Shorts.toByteArray (Int16.ofNat bs.length),
      (bs.map serializeArray).flatten].flatten := by simp [serializeArrays]
  obtain ⟨hsize, harrays, -⟩ := parts_of_eq hparts
  rw [Shorts.length_toByteArray] at harrays
  have hlength := Int16.toInt_ofNat_of_lt (n := bs.length) (by omega)
  rw [parseArrays, hsize.short (by rfl) (by rfl)]
  simp only [ok_bind, hlength, Int.toNat_natCast]
  exact parseArraysFrom_serializeArray harrays hbs

/-- A string comes back from its UTF-8 bytes. -/
theorem deserilizeString_serilizeString (s : String) :
    deserilizeString (serilizeString s) = .ok s := by
  have hbytes : ((serilizeString s).map Int8.toUInt8).toArray = s.toUTF8.data := by
    simp [serilizeString, Function.comp_def]
  have hdecode : String.fromUTF8? ⟨((serilizeString s).map Int8.toUInt8).toArray⟩ = some s := by
    rw [hbytes]
    exact dif_pos s.isValidUTF8
  rw [deserilizeString, hdecode]
  rfl

/-- A string is read back from its bytes, so different strings have different bytes. -/
theorem serilizeString_injective : Function.Injective serilizeString := by
  intro s t h
  have hs := deserilizeString_serilizeString s
  rw [h, deserilizeString_serilizeString] at hs
  exact (Except.ok.inj hs).symm

/-- The bytes a string is read from are the string's own. -/
theorem serilizeString_of_deserilizeString {b : ByteStr} {s : String}
    (h : deserilizeString b = .ok s) : serilizeString s = b := by
  unfold deserilizeString at h
  cases hdecode : String.fromUTF8? ⟨(b.map Int8.toUInt8).toArray⟩ with
  | none =>
      rw [hdecode] at h
      cases h
  | some t =>
      rw [hdecode] at h
      obtain rfl := Except.ok.inj h
      unfold String.fromUTF8? at hdecode
      split at hdecode
      · obtain rfl := Option.some.inj hdecode
        simp [serilizeString, String.fromUTF8, Function.comp_def]
      · cases hdecode

/-- The bytes of a text are those of its characters. -/
theorem utf8ByteSize_ofList (l : List Char) :
    (String.ofList l).utf8ByteSize = (l.map Char.utf8Size).sum := by
  induction l with
  | nil => rfl
  | cons c l ih =>
      have hsplit : String.ofList (c :: l) = String.singleton c ++ String.ofList l := by
        rw [String.singleton_eq_ofList, ← String.ofList_append]
        rfl
      rw [hsplit, String.utf8ByteSize_append, String.utf8ByteSize_singleton, ih, List.map_cons,
        List.sum_cons]

/-- The bytes of a text are as many as those of its characters together. -/
theorem length_serilizeString (s : String) :
    (serilizeString s).length = (s.toList.map Char.utf8Size).sum := by
  rw [← utf8ByteSize_ofList, String.ofList_toList]
  simp [serilizeString]

/-- A character takes at most four bytes. -/
theorem length_serilizeString_le (s : String) : (serilizeString s).length ≤ 4 * s.length := by
  have hsum := List.sum_le_card_nsmul (s.toList.map Char.utf8Size) 4 fun n hn => by
    obtain ⟨c, -, rfl⟩ := List.mem_map.mp hn
    exact c.utf8Size_le_four
  rw [length_serilizeString, ← String.length_toList]
  simpa [Nat.mul_comm] using hsum

end Deser

/-- A text has at least as many UTF-16 units as characters. -/
theorem length_le_utf16Length (s : String) : s.length ≤ utf16Length s := by
  have hsum := List.card_nsmul_le_sum (s.toList.map fun c => if c.toNat < 65536 then 1 else 2) 1
    fun n hn => by
      obtain ⟨c, -, rfl⟩ := List.mem_map.mp hn
      split <;> omega
  rw [utf16Length, ← String.length_toList]
  simpa using hsum

variable [Platform]

namespace DataEntry

variable {bytes : ByteStr} {d : DataEntry} {ds : List DataEntry} {position next : Int}

omit [Platform] in
/-- An entry takes one byte more than its data. -/
theorem length_bytes (d : DataEntry) : d.bytes.length = 1 + d.data.length := by
  rw [DataEntry.bytes, List.length_cons, Nat.add_comm]

/-- A valid short text begins with the length of the rest. -/
theorem shortText_length {data : ByteStr} (h : checkDataType data .shortText = .ok true) :
    ∃ length, Shorts.fromByteArray (slice data 0 2) = .ok length ∧
      length.toInt + 2 = data.length ∧ 2 ≤ data.length := by
  obtain ⟨length, hlength, h⟩ := bind_eq_ok_iff.mp h
  simp only [Except.ok.injEq, decide_eq_true_eq] at h
  refine ⟨length, hlength, h.1, ?_⟩
  unfold Shorts.fromByteArray at hlength
  split at hlength
  · rename_i hsize
    simp only [slice, List.length_take, List.length_drop] at hsize
    omega
  · cases hlength

/-- The data of a valid entry has the length the parser takes it to have. -/
theorem dataLength_eq_ok (hd : d.Valid) (hposition : 0 ≤ position) {stop : Int}
    (hdata : slice bytes (position + 1) stop = d.data) :
    dataLength bytes position d.dataType = .ok (d.data.length : Int) := by
  unfold Valid at hd
  cases htype : d.dataType with
  | publicKey =>
      rw [htype] at hd
      simp only [checkDataType, Except.ok.injEq, decide_eq_true_eq] at hd
      rw [dataLength, hd]
      rfl
  | address =>
      rw [htype, checkDataType, isRight_eq_ok_true_iff] at hd
      obtain ⟨a, ha⟩ := hd
      rw [dataLength, ← Address.fromBytes_eq_ok_iff.mp ha, a.length_bytes]
      rfl
  | amount =>
      rw [htype, checkDataType] at hd
      split at hd
      · rename_i hlength
        rw [dataLength, hlength]
        rfl
      · cases hd
  | int32 =>
      rw [dataLength, Valid.length_int32 hd htype]
      rfl
  | shortText =>
      rw [htype] at hd
      obtain ⟨length, hlength, hsum, htwo⟩ := shortText_length hd
      -- the prefix the parser reads is the one inside the data
      have hsize : slice bytes (position + 1) (position + 3) = slice d.data 0 2 := by
        rw [← hdata] at htwo ⊢
        have hsub := slice_slice (by omega) htwo
        simpa [Int.add_assoc] using hsub.symm
      rw [dataLength, hsize, hlength, ok_bind, ← hsum, Int.add_comm]
  | contractAccount =>
      rw [htype, checkDataType, isRight_eq_ok_true_iff] at hd
      obtain ⟨c, hc⟩ := hd
      unfold ContractAccount.fromBytes at hc
      split at hc
      · rename_i hbytes
        rw [dataLength, length_of_versionedBytesValid hbytes]
        rfl
      · exact (left_ne_ok.mp hc).elim
      · cases hc
  | account =>
      rw [htype] at hd
      cases hd

/-- A valid entry at a position is read from there. -/
theorem parseArraySize_bytes {i : Nat} (h : Holds bytes i d.bytes) (hd : d.Valid) :
    parseArraySize bytes i = .ok (d, ((i + d.bytes.length : Nat) : Int)) := by
  have hdata : Holds bytes (i + 1) d.data := h.right (a := [d.dataType.id])
  have hslice : slice bytes (i + 1) (i + 1 + d.data.length) = d.data :=
    hdata.slice (by push_cast; rfl) (by push_cast; rfl)
  have hcheck : checkDataType d.data d.dataType = .ok true := hd
  rw [parseArraySize, if_neg (by omega), Int.toNat_natCast, h.head]
  simp only [getOrRaise, ok_bind, DataType.fromByte_id,
    dataLength_eq_ok hd (Int.natCast_nonneg i) hslice, hslice, hcheck]
  rw [length_bytes]
  push_cast
  rw [← Int.add_assoc]
  rfl

/-- The bytes of a valid entry end by themselves. -/
theorem bytes_append_inj {e : DataEntry} {r r' : ByteStr} (hd : d.Valid) (he : e.Valid)
    (h : d.bytes ++ r = e.bytes ++ r') : d = e ∧ r = r' := by
  have hread : parseArraySize (d.bytes ++ r) (0 : Nat) = _ :=
    parseArraySize_bytes ⟨[], r, rfl, rfl⟩ hd
  have hread' : parseArraySize (e.bytes ++ r') (0 : Nat) = _ :=
    parseArraySize_bytes ⟨[], r', rfl, rfl⟩ he
  rw [h, hread'] at hread
  obtain rfl := (Prod.mk.inj (Except.ok.inj hread)).1
  exact ⟨rfl, List.append_cancel_left h⟩

/-- The data of a transaction are told apart by their bytes, however many there are. -/
theorem serializeArrays_inj {es : List DataEntry} (hds : ValidData ds) (hes : ValidData es)
    (h : serializeArrays ds = serializeArrays es) : ds = es := by
  obtain ⟨-, hflatten⟩ := List.append_inj h (by simp)
  exact flatten_map_inj (fun _ _ _ _ => bytes_append_inj) (fun _ => List.cons_ne_nil _ _) hds hes
    hflatten

/-- Valid entries are read back from their place. -/
theorem parseArraysFrom_bytes {i : Nat} (h : Holds bytes i (ds.map DataEntry.bytes).flatten)
    (hds : ValidData ds) : parseArraysFrom bytes ds.length i = .ok ds := by
  induction ds generalizing i with
  | nil => rfl
  | cons d ds ih =>
      obtain ⟨hd, hds⟩ := List.forall_mem_cons.mp hds
      rw [List.map_cons, List.flatten_cons] at h
      rw [List.length_cons, parseArraysFrom, parseArraySize_bytes h.left hd]
      simp only [ok_bind]
      rw [ih h.right hds]
      rfl

omit [Platform] in
/-- Entries are at most as many as their bytes. -/
theorem length_le_length_flatten (ds : List DataEntry) :
    ds.length ≤ (ds.map DataEntry.bytes).flatten.length := by
  induction ds with
  | nil => exact Nat.zero_le _
  | cons d ds ih =>
      rw [List.map_cons, List.flatten_cons, List.length_append, List.length_cons, length_bytes]
      omega

omit [Platform] in
/-- Entries with their count take two bytes more. -/
theorem length_serializeArrays (ds : List DataEntry) :
    (serializeArrays ds).length = 2 + (ds.map DataEntry.bytes).flatten.length := by
  rw [serializeArrays, List.length_append, Shorts.length_toByteArray]

/-- Entries are read back together, if a length can count them. -/
theorem parseArrays_serializeArrays (hds : ValidData ds) (hcount : ds.length ≤ 32767) :
    parseArrays (serializeArrays ds) = .ok ds := by
  have hparts : serializeArrays ds = [Shorts.toByteArray (Int16.ofNat ds.length),
      (ds.map DataEntry.bytes).flatten].flatten := by simp [serializeArrays]
  obtain ⟨hsize, hentries, -⟩ := parts_of_eq hparts
  rw [Shorts.length_toByteArray] at hentries
  have hshort := Int16.toInt_ofNat_of_lt (n := ds.length) (by omega)
  rw [parseArrays, hsize.short (by rfl) (by rfl)]
  simp only [ok_bind, hshort, Int.toNat_natCast]
  exact parseArraysFrom_bytes hentries hds

omit [Platform] in
/-- No more entries than bytes. -/
theorem length_le_length_serializeArrays (ds : List DataEntry) :
    ds.length ≤ (serializeArrays ds).length := by
  have hcount := length_le_length_flatten ds
  rw [length_serializeArrays]
  omega

/-- An entry that is read ends within the bytes, and takes as many as it has. -/
theorem parseArraySize_eq_ok (h : parseArraySize bytes position = .ok (d, next)) :
    0 ≤ position ∧ next = position + d.bytes.length ∧ next ≤ bytes.length := by
  unfold parseArraySize at h
  simp only at h
  split at h
  · cases h
  rename_i hposition
  obtain ⟨b, hb, h⟩ := bind_eq_ok_iff.mp h
  split at h
  · exact (left_ne_ok.mp h).elim
  · rename_i dataType htype
    obtain ⟨length, hlength, h⟩ := bind_eq_ok_iff.mp h
    obtain ⟨valid, hvalid, h⟩ := bind_eq_ok_iff.mp h
    cases valid with
    | false => exact (left_ne_ok.mp h).elim
    | true =>
        obtain ⟨hentry, rfl⟩ := Prod.mk.inj (Except.ok.inj h)
        have hdata : slice bytes (position + 1) (position + 1 + length) = d.data :=
          congrArg DataEntry.data hentry
        have htaken : dataLength bytes position d.dataType = .ok (d.data.length : Int) :=
          dataLength_eq_ok (hentry ▸ hvalid) (not_lt.mp hposition) hdata
        rw [← congrArg DataEntry.dataType hentry, hlength, Except.ok.injEq] at htaken
        have hbound : position.toNat < bytes.length := by
          unfold getOrRaise at hb
          split at hb
          · rename_i hget
            exact (List.getElem?_eq_some_iff.mp hget).1
          · cases hb
        have hslice : (slice bytes (position + 1) (position + 1 + length)).length
            ≤ bytes.length - (position + 1).toNat := by
          rw [slice, List.length_take, List.length_drop]
          exact min_le_right _ _
        rw [hdata] at hslice
        rw [length_bytes]
        omega

/-- Entries that are read take no more bytes than there are. -/
theorem parseArraysFrom_eq_ok {count : Nat} (h : parseArraysFrom bytes count position = .ok ds)
    (hposition : 0 ≤ position) (hbound : position ≤ bytes.length) :
    position + (ds.map DataEntry.bytes).flatten.length ≤ bytes.length := by
  induction count generalizing position ds with
  | zero =>
      obtain rfl := Except.ok.inj h
      simpa using hbound
  | succ count ih =>
      obtain ⟨⟨d, next⟩, hd, h⟩ := bind_eq_ok_iff.mp h
      obtain ⟨rest, hrest, h⟩ := bind_eq_ok_iff.mp h
      obtain rfl := Except.ok.inj h
      obtain ⟨-, rfl, hnext⟩ := parseArraySize_eq_ok hd
      have hle := ih hrest (by omega) hnext
      rw [List.map_cons, List.flatten_cons, List.length_append]
      push_cast
      omega

/-- Entries that are read take no more bytes than they are read from. -/
theorem length_of_parseArrays (h : parseArrays bytes = .ok ds) :
    (serializeArrays ds).length ≤ bytes.length := by
  obtain ⟨count, hcount, hparse⟩ := bind_eq_ok_iff.mp h
  have htwo : 2 ≤ bytes.length := by
    unfold Shorts.fromByteArray at hcount
    split at hcount
    · rename_i hsize
      simp only [slice, List.length_take, List.length_drop] at hsize
      omega
    · cases hcount
  have hle := parseArraysFrom_eq_ok hparse (by omega) (by omega)
  rw [length_serializeArrays]
  omega

end DataEntry

namespace Proofs

omit [Platform] in
/-- Proofs are read back from their bytes. -/
theorem mapM_fromBytes_bytes (ps : List EllipticCurve25519Proof) :
    (ps.map EllipticCurve25519Proof.bytes).mapM EllipticCurve25519Proof.fromBytes = .ok ps := by
  induction ps with
  | nil => rfl
  | cons p ps ih =>
      rw [List.map_cons, List.mapM_cons, EllipticCurve25519Proof.fromBytes_bytes, ok_bind, ih]
      rfl

omit [Platform] in
/-- The bytes of proofs have a known type. -/
theorem forM_checkProofType_bytes (ps : List EllipticCurve25519Proof) :
    (ps.map EllipticCurve25519Proof.bytes).forM checkProofType = .ok () := by
  induction ps with
  | nil => rfl
  | cons p ps ih =>
      rw [List.map_cons, List.forM_eq_forM, List.forM_cons]
      exact ih

omit [Platform] in
/-- The bytes of proofs make these proofs again. -/
theorem create_bytes (p : Proofs) :
    create (p.proofs.map EllipticCurve25519Proof.bytes) = .ok p := by
  have hcount : (p.proofs.map EllipticCurve25519Proof.bytes).length ≤ MaxProofs := by
    rw [List.length_map]
    exact p.count
  have hsizes : ∀ b ∈ p.proofs.map EllipticCurve25519Proof.bytes, b.length ≤ MaxProofSize := by
    intro b hb
    obtain ⟨proof, hproof, rfl⟩ := List.mem_map.mp hb
    exact p.sizes proof hproof
  rw [create, dif_pos hcount, dif_pos hsizes, forM_checkProofType_bytes, ok_bind]
  split
  · rename_i e he
    rw [mapM_fromBytes_bytes] at he
    cases he
  · rename_i proofs hproofs
    rw [mapM_fromBytes_bytes] at hproofs
    obtain rfl := Except.ok.inj hproofs
    rfl

omit [Platform] in
/-- Proofs are always read back. -/
@[simp]
theorem fromBytes_bytes (p : Proofs) : fromBytes p.bytes = .ok p := by
  have hcount := p.count
  have hsmall : ∀ b ∈ p.proofs.map EllipticCurve25519Proof.bytes, b.length ≤ 32767 := by
    intro b hb
    obtain ⟨proof, hproof, rfl⟩ := List.mem_map.mp hb
    have := p.sizes proof hproof
    omega
  have hparse := Deser.parseArrays_serializeArrays (by rw [List.length_map]; omega) hsmall
  change (Deser.parseArrays _ >>= create) = _
  rw [hparse, ok_bind, create_bytes]

end Proofs

/-- The address of a contract is read back from its bytes. -/
@[simp]
theorem ContractAccount.fromBytes_bytes (c : ContractAccount) :
    ContractAccount.fromBytes c.bytes = .ok c := by
  unfold fromBytes
  split
  · rfl
  · rename_i h
    rw [c.valid] at h
    cases h
  · rename_i h
    rw [c.valid] at h
    cases h

/-- The first byte of an address is its version. -/
theorem Address.head_bytes (a : Address) : ∃ rest, a.bytes = 29 :: rest := by
  have hvalid := a.valid
  match hbytes : a.bytes, hvalid with
  | version :: network :: rest, hvalid =>
      simp only [Address.isByteArrayValid, versionedBytesValid, Except.ok.injEq,
        decide_eq_true_eq] at hvalid
      exact ⟨network :: rest, by rw [hvalid.1]; rfl⟩

omit [Platform] in
/-- The name of an alias has at most 120 bytes. -/
theorem Alias.length_name_bytes (a : Alias) : (Deser.serilizeString a.name).length ≤ 120 := by
  have hbound := Deser.length_serilizeString_le a.name
  have hname := a.valid.2.1
  omega

/-- An alias takes four bytes more than its name. -/
theorem Alias.length_bytes (a : Alias) :
    a.bytes.length = 4 + (Deser.serilizeString a.name).length := by
  rw [Alias.bytes, List.length_cons, List.length_cons, Deser.serializeArray, List.length_append,
    Shorts.length_toByteArray]
  omega

/-- A recipient at a position is read from there. -/
theorem AddressOrAlias.fromBytes_bytes {bytes : ByteStr} {i : Nat} {r : AddressOrAlias}
    (h : Holds bytes i r.bytes) :
    AddressOrAlias.fromBytes bytes i = .ok (r, ((i + r.bytes.length : Nat) : Int)) := by
  match r, h with
  | .address a, h =>
      obtain ⟨rest, hrest⟩ := a.head_bytes
      have hhead : bytes[i]? = some 29 := by
        rw [AddressOrAlias.bytes, hrest] at h
        exact h.head
      have hslice : slice bytes i (i + 26) = a.bytes :=
        Holds.slice h rfl (by rw [a.length_bytes]; rfl)
      rw [fromBytes, hhead]
      simp only [hslice, Address.fromBytes_bytes, ok_bind, AddressOrAlias.bytes, a.length_bytes]
      push_cast
      rfl
  | .alias b, h =>
      have hlength := b.length_name_bytes
      have hhead : bytes[i]? = some 2 := Holds.head h
      have harray : Holds bytes (i + 2) (Deser.serializeArray (Deser.serilizeString b.name)) :=
        Holds.right (a := [2, Platform.chainId]) h
      have hslice : slice bytes i ((i + 2 + 2 + (Deser.serilizeString b.name).length : Nat) : Int)
          = b.bytes := h.slice rfl (by rw [AddressOrAlias.bytes, b.length_bytes]; push_cast; omega)
      have hname : (Deser.serializeArray (Deser.serilizeString b.name)).drop 2
          = Deser.serilizeString b.name := by
        rw [Deser.serializeArray, List.drop_left' (Shorts.length_toByteArray _)]
      rw [fromBytes, hhead, AddressOrAlias.bytes, b.length_bytes]
      simp only [harray.array (by omega) (by push_cast; rfl), ok_bind, hslice]
      simp only [Alias.bytes, if_true, hname, Deser.deserilizeString_serilizeString, ok_bind,
        dif_pos b.valid]
      have hend : i + 2 + 2 + (Deser.serilizeString b.name).length
          = i + (4 + (Deser.serilizeString b.name).length) := by omega
      rw [hend]
      rfl

end Vsys
