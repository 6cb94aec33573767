import Vsys.Network.Messages
import Vsys.Transaction.Fields

/-!
# Payloads of the list messages

The signatures, peers and checkpoint a message carries, read back from their bytes.  Each decoder
trusts the count in front: it multiplies the count in 32 bits, or takes a negative count for an
empty list, and so accepts some bytes that no message is written as.
-/

namespace Vsys

open Lib

/-- The number in front of a message, whose four bytes are filled up with zeros. -/
def countWord (bytes : ByteStr) : Int32 :=
  (UInt32.ofNat (BigEndian.decode ((bytes ++ List.replicate 4 0).take 4))).toInt32

/-- On some bytes, a decoder returns exactly the sound message that is written so. -/
def ExactOn {M : Type} (Sound : M → Prop) (serializeData : M → ByteStr)
    (deserializeData : ByteStr → Result M) (bytes : ByteStr) : Prop :=
  ∀ m, deserializeData bytes = .ok m ↔ Sound m ∧ bytes = serializeData m

section

variable {bytes : ByteStr}

/-- The position of a record, computed in 32 bits. -/
theorem position_eq (start width i : Nat) :
    Int32.ofNat start + Int32.ofNat i * Int32.ofNat width = Int32.ofNat (start + i * width) := by
  rw [Int32.ofNat_add, Int32.ofNat_mul]

/-- A copy is filled up with zeros, unless it starts after the end. -/
theorem copyOfRange_eq {start count : Nat} (hstop : start + count < 2 ^ 31) :
    copyOfRange bytes (Int32.ofNat start) (Int32.ofNat (start + count))
      = if start ≤ bytes.length then
          .ok ((bytes.drop start ++ List.replicate count 0).take count)
        else raise .indexOutOfBounds := by
  have hstart := Int32.toInt_ofNat_of_lt (n := start) (by omega)
  have hend := Int32.toInt_ofNat_of_lt (n := start + count) hstop
  have horder : ¬ Int32.ofNat (start + count) < Int32.ofNat start := by
    rw [Int32.lt_iff_toInt_lt, hstart, hend]
    omega
  rw [copyOfRange, if_neg horder, hstart, hend]
  by_cases hinside : start ≤ bytes.length
  · rw [if_pos hinside, if_neg (by omega)]
    have hcount : start + count - start = count := by omega
    simp only [Int.toNat_natCast, hcount]
  · rw [if_neg hinside, if_pos (by omega)]

/-- A part of the bytes is copied as it is. -/
theorem copyOfRange_inside {start count : Nat} (hinside : start + count ≤ bytes.length)
    (hstop : start + count < 2 ^ 31) :
    copyOfRange bytes (Int32.ofNat start) (Int32.ofNat (start + count))
      = .ok ((bytes.drop start).take count) := by
  rw [copyOfRange_eq hstop, if_pos (by omega), List.take_append_of_le_length]
  rw [List.length_drop]
  omega

/-- A part that the bytes hold is copied out of them, at indices that are words. -/
theorem Lib.Holds.copyOfRange {part : ByteStr} {start : Nat} (h : Holds bytes start part)
    (hstop : bytes.length < 2 ^ 31) {count : Nat} (hcount : part.length = count) :
    copyOfRange bytes (Int32.ofNat start) (Int32.ofNat (start + count)) = .ok part := by
  have hbound := h.bound
  rw [copyOfRange_inside (by omega) (by omega), ← hcount, h.take_drop]

/-- The number in front of a message, as the decoders read it. -/
theorem fromByteArray_copyOfRange :
    (copyOfRange bytes 0 4 >>= Ints.fromByteArray) = .ok (countWord bytes) := by
  have hcopy := @copyOfRange_eq bytes 0 4 (by omega)
  rw [if_pos (Nat.zero_le _), List.drop_zero] at hcopy
  show (copyOfRange bytes (Int32.ofNat 0) (Int32.ofNat (0 + 4)) >>= _) = _
  rw [hcopy, ok_bind, Ints.fromByteArray, if_pos, List.take_take]
  · rfl
  · simp

/-- The first four bytes are read as the count. -/
theorem fromByteArray_take (hlength : 4 ≤ bytes.length) :
    Ints.fromByteArray (bytes.take 4) = .ok (countWord bytes) := by
  rw [Ints.fromByteArray, if_pos (by rw [List.length_take]; omega), List.take_take, countWord,
    List.take_append_of_le_length hlength]
  rfl

/-- A count written in front is the count. -/
theorem countWord_append (x : Int32) (rest : ByteStr) :
    countWord (Ints.toByteArray x ++ rest) = x := by
  have hlength : 4 ≤ (Ints.toByteArray x ++ rest).length := by
    rw [List.length_append, Ints.length_toByteArray]
    omega
  have hread := fromByteArray_take hlength
  rw [List.take_left' (Ints.length_toByteArray x), Ints.fromByteArray_toByteArray] at hread
  exact (Except.ok.inj hread).symm

/-- What is left of a length that wraps. -/
theorem toInt_add_mul (a c b : Int32) :
    ((a + c * b).toInt - (a.toInt + c.toInt * b.toInt)) % 4294967296 = 0 := by
  rw [Int32.toInt_add, Int32.toInt_mul]
  generalize c.toInt * b.toInt = product
  rw [Int.bmod_def, Int.bmod_def]
  omega

end

namespace SignaturesSeqSpec

variable {bytes : ByteStr} {signatures : List ByteStr}

/-- Signatures of blocks. -/
def Sound (signatures : List ByteStr) : Prop := ∀ s ∈ signatures, s.length = 64

/-- The length that the count announces fits the bytes only if it does without wrapping. -/
def Unwrapped (bytes : ByteStr) : Prop :=
  (4 + countWord bytes * SignatureLength).toInt = bytes.length →
    4 + (countWord bytes).toInt * 64 = bytes.length

/-- Signatures take 64 bytes each. -/
theorem length_flatten (h : Sound signatures) :
    signatures.flatten.length = signatures.length * 64 := by
  rw [List.length_flatten, List.map_eq_replicate_iff.mpr h, List.sum_replicate, Nat.nsmul_eq_mul]

/-- A message of signatures takes four bytes and 64 more for each. -/
theorem length_serializeData (h : Sound signatures) :
    (serializeData signatures).length = 4 + signatures.length * 64 := by
  rw [serializeData, List.length_append, Ints.length_toByteArray, length_flatten h]

/-- The announced length of signatures differs from the real one by a multiple of 2^32. -/
theorem announced (c : Int32) :
    ((4 + c * SignatureLength).toInt - (4 + c.toInt * 64)) % 4294967296 = 0 :=
  toInt_add_mul 4 c SignatureLength

/-- The signatures of some bytes are their pieces of 64 bytes. -/
theorem deserializeData_eq (hlength : 4 ≤ bytes.length) :
    deserializeData bytes
      = if (bytes.length : Int) = (4 + countWord bytes * SignatureLength).toInt then
          .ok ((List.range (countWord bytes).toInt.toNat).map fun i =>
            slice bytes (4 + Int32.ofNat i * SignatureLength).toInt
              (4 + Int32.ofNat i * SignatureLength + SignatureLength).toInt)
        else raise (.exception "assertion failed: Data does not match length") := by
  rw [deserializeData, fromByteArray_take hlength]
  rfl

/-- The slices that are read are those of 64 bytes each, one behind the other. -/
theorem pieces_eq {count : Nat} (hbytes : bytes.length < 2 ^ 31)
    (hlength : bytes.length = 4 + count * 64) :
    ((List.range count).map fun i => slice bytes (4 + Int32.ofNat i * SignatureLength).toInt
        (4 + Int32.ofNat i * SignatureLength + SignatureLength).toInt)
      = (List.range count).map fun i => (bytes.drop (4 + i * 64)).take 64 := by
  refine List.map_congr_left fun i hi => ?_
  have hi := List.mem_range.mp hi
  have hposition : (4 : Int32) + Int32.ofNat i * SignatureLength = Int32.ofNat (4 + i * 64) :=
    position_eq 4 64 i
  have hstop : (4 : Int32) + Int32.ofNat i * SignatureLength + SignatureLength
      = Int32.ofNat (4 + i * 64 + 64) := by
    rw [hposition, Int32.ofNat_add (4 + i * 64)]
    rfl
  rw [hstop, hposition, Int32.toInt_ofNat_of_lt (by omega), Int32.toInt_ofNat_of_lt (by omega),
    slice]
  congr 1
  omega

/-- Signatures come back from their bytes. -/
theorem deserializeData_serializeData (h : Sound signatures)
    (hlength : (serializeData signatures).length < 2 ^ 31) :
    deserializeData (serializeData signatures) = .ok signatures := by
  have hwhole := length_serializeData h
  have hcount : (Int32.ofNat signatures.length).toInt = signatures.length :=
    Int32.toInt_ofNat_of_lt (by omega)
  have hword : countWord (serializeData signatures) = Int32.ofNat signatures.length :=
    countWord_append _ _
  have hannounced := announced (Int32.ofNat signatures.length)
  have hmax := (4 + Int32.ofNat signatures.length * SignatureLength).toInt_lt
  have hmin := (4 + Int32.ofNat signatures.length * SignatureLength).le_toInt
  rw [deserializeData_eq (by omega), hword, if_pos (by omega), hcount, Int.toNat_natCast,
    pieces_eq hlength hwhole]
  congr 1
  refine List.ext_getElem? fun i => ?_
  rw [List.getElem?_map]
  by_cases hi : i < signatures.length
  · have hrecord : Holds (serializeData signatures) (4 + i * 64) signatures[i] := by
      refine @Holds.record _ _ _ _ id _ _ h ?_ i _ (List.getElem?_eq_getElem hi)
      rw [List.map_id]
      refine ⟨Ints.toByteArray (Int32.ofNat signatures.length), [], ?_, Ints.length_toByteArray _⟩
      rw [List.append_nil, serializeData]
    have hpiece := hrecord.take_drop
    rw [h _ (List.getElem_mem hi)] at hpiece
    rw [List.getElem?_range hi, Option.map_some, hpiece, List.getElem?_eq_getElem hi]
  · rw [List.getElem?_eq_none (by rw [List.length_range]; omega), Option.map_none,
      List.getElem?_eq_none (by omega)]

/-- What is read from bytes whose length does not wrap is written so. -/
theorem eq_serializeData (hbytes : bytes.length < 2 ^ 31) (hunwrapped : Unwrapped bytes)
    (h : deserializeData bytes = .ok signatures) :
    Sound signatures ∧ bytes = serializeData signatures := by
  have hlength : 4 ≤ bytes.length := by
    by_contra hshort
    rw [deserializeData, Ints.fromByteArray, if_neg (by rw [List.length_take]; omega)] at h
    cases h
  rw [deserializeData_eq hlength] at h
  split at h
  · rename_i hannounced
    have hcount := hunwrapped hannounced.symm
    obtain ⟨count, hcountEq⟩ : ∃ count : Nat, (countWord bytes).toInt = count :=
      Int.eq_ofNat_of_zero_le (by omega)
    have hwhole : bytes.length = 4 + count * 64 := by omega
    rw [hcountEq, Int.toNat_natCast, pieces_eq hbytes hwhole] at h
    obtain rfl := Except.ok.inj h
    have hword : countWord bytes = Int32.ofNat count := by
      rw [← Int32.toInt_inj, hcountEq, Int32.toInt_ofNat_of_lt (by omega)]
    refine ⟨?_, ?_⟩
    · intro s hs
      obtain ⟨i, hi, rfl⟩ := List.mem_map.mp hs
      have hi := List.mem_range.mp hi
      rw [List.length_take, List.length_drop]
      omega
    · rw [serializeData, List.length_map, List.length_range, flatten_pieces, ← hword,
        List.take_of_length_le (by rw [List.length_drop]; omega)]
      have htake := Ints.toByteArray_of_fromByteArray (by rw [List.length_take]; omega)
        (fromByteArray_take hlength)
      rw [htake, List.take_append_drop]
  · cases h

/-- The decoder of signatures is exact where the length does not wrap, and nowhere else. -/
theorem exactOn_iff (hbytes : bytes.length < 2 ^ 31) :
    ExactOn Sound serializeData deserializeData bytes ↔ Unwrapped bytes := by
  constructor
  · intro hexact hannounced
    have hmod := announced (countWord bytes)
    have hlength : 4 ≤ bytes.length := by omega
    have hread := deserializeData_eq hlength
    rw [if_pos hannounced.symm] at hread
    obtain ⟨hsound, hwritten⟩ := (hexact _).mp hread
    have hcount := congrArg List.length hwritten
    rw [length_serializeData hsound] at hcount
    have hword := congrArg countWord hwritten
    rw [serializeData, countWord_append] at hword
    rw [hword, Int32.toInt_ofNat_of_lt (by omega)]
    omega
  · intro hunwrapped signatures
    constructor
    · exact eq_serializeData hbytes hunwrapped
    · rintro ⟨hsound, rfl⟩
      exact deserializeData_serializeData hsound hbytes

end SignaturesSeqSpec

namespace PeersSpec

variable {bytes : ByteStr} {peers : List InetSocketAddress} {peer : InetSocketAddress} {i : Nat}

/-- Peers with IPv4 addresses. -/
def Sound (peers : List InetSocketAddress) : Prop := ∀ peer ∈ peers, peer.address.bytes.length = 4

/-- A count whose length fits the bytes is not negative. -/
def Counted (bytes : ByteStr) : Prop :=
  (4 + countWord bytes * (4 + 4)).toInt = bytes.length → 0 ≤ (countWord bytes).toInt

/-- The bytes of one peer. -/
def record (peer : InetSocketAddress) : ByteStr := peer.address.bytes ++ Ints.toByteArray peer.port

/-- The peer with an index. -/
def readPeer (bytes : ByteStr) (i : Nat) : Result InetSocketAddress := do
  let position := 4 + Int32.ofNat i * (4 + 4)
  let addressBytes ← copyOfRange bytes position (position + 4)
  let address ← InetAddress.getByAddress addressBytes
  let portBytes ← copyOfRange bytes (position + 4) (position + 4 + 4)
  let port ← Ints.fromByteArray portBytes
  InetSocketAddress.create address port

/-- A known peer takes eight bytes. -/
theorem length_record (h : peer.address.bytes.length = 4) : (record peer).length = 8 := by
  rw [record, List.length_append, h, Ints.length_toByteArray]

/-- A message of peers takes four bytes and eight more for each. -/
theorem length_serializeData (h : Sound peers) :
    (serializeData peers).length = 4 + peers.length * 8 := by
  have hwidth : ∀ peer ∈ peers, (record peer).length = 8 := fun peer hpeer =>
    length_record (h peer hpeer)
  have hmap : (peers.map record).map List.length = List.replicate peers.length 8 := by
    rw [List.map_map]
    exact List.map_eq_replicate_iff.mpr hwidth
  show (Ints.toByteArray _ ++ (peers.map record).flatten).length = _
  rw [List.length_append, Ints.length_toByteArray, List.length_flatten, hmap, List.sum_replicate,
    Nat.nsmul_eq_mul]

/-- The announced length of peers differs from the real one by a multiple of 2^32. -/
theorem announced (c : Int32) : ((4 + c * (4 + 4)).toInt - (4 + c.toInt * 8)) % 4294967296 = 0 :=
  toInt_add_mul 4 c (4 + 4)

/-- Peers are read one by one if the announced length is the length of the bytes. -/
theorem deserializeData_eq :
    deserializeData bytes
      = if (bytes.length : Int) = (4 + countWord bytes * (4 + 4)).toInt then
          (List.range (countWord bytes).toInt.toNat).mapM (readPeer bytes)
        else raise (.exception "assertion failed: Data does not match length") := by
  have hword := @fromByteArray_copyOfRange bytes
  rw [bind_eq_ok_iff] at hword
  obtain ⟨lengthBytes, hlengthBytes, hlength⟩ := hword
  rw [deserializeData, hlengthBytes, ok_bind, hlength, ok_bind]
  rfl

/-- A peer is read from the four bytes of its address and the four of its port. -/
theorem readPeer_eq (i : Nat) :
    readPeer bytes i = (do
      let addressBytes ← copyOfRange bytes (Int32.ofNat (4 + i * 8)) (Int32.ofNat (4 + i * 8 + 4))
      let address ← InetAddress.getByAddress addressBytes
      let portBytes ← copyOfRange bytes (Int32.ofNat (4 + i * 8 + 4)) (Int32.ofNat (4 + i * 8 + 4 + 4))
      let port ← Ints.fromByteArray portBytes
      InetSocketAddress.create address port) := by
  have hposition : (4 : Int32) + Int32.ofNat i * (4 + 4) = Int32.ofNat (4 + i * 8) :=
    position_eq 4 8 i
  have hnext : Int32.ofNat (4 + i * 8) + 4 = Int32.ofNat (4 + i * 8 + 4) :=
    (Int32.ofNat_add _ _).symm
  have hend : Int32.ofNat (4 + i * 8 + 4) + 4 = Int32.ofNat (4 + i * 8 + 4 + 4) :=
    (Int32.ofNat_add _ _).symm
  rw [readPeer]
  simp only [hposition, hnext, hend]

/-- A peer that has its bytes is read back. -/
theorem readPeer_record (hbytes : bytes.length < 2 ^ 31) (hpeer : peer.address.bytes.length = 4)
    (h : Holds bytes (4 + i * 8) (record peer)) : readPeer bytes i = .ok peer := by
  have hport := h.right
  rw [hpeer] at hport
  rw [readPeer_eq, h.left.copyOfRange hbytes hpeer, ok_bind, peer.address.getByAddress_bytes,
    ok_bind, hport.copyOfRange hbytes (Ints.length_toByteArray _), ok_bind,
    Ints.fromByteArray_toByteArray, ok_bind, InetSocketAddress.create, dif_pos peer.port_range]

/-- A peer that lies in the bytes is written as its bytes. -/
theorem record_of_readPeer (hbytes : bytes.length < 2 ^ 31)
    (hinside : 4 + i * 8 + 8 ≤ bytes.length) (h : readPeer bytes i = .ok peer) :
    peer.address.bytes.length = 4 ∧ (bytes.drop (4 + i * 8)).take 8 = record peer := by
  rw [readPeer_eq, copyOfRange_inside (by omega) (by omega), ok_bind] at h
  obtain ⟨address, haddress, h⟩ := bind_eq_ok_iff.mp h
  rw [copyOfRange_inside (by omega) (by omega), ok_bind] at h
  obtain ⟨port, hport, h⟩ := bind_eq_ok_iff.mp h
  have hlength : ((bytes.drop (4 + i * 8)).take 4).length = 4 := by
    rw [List.length_take, List.length_drop]
    omega
  rw [InetAddress.getByAddress, dif_pos hlength] at haddress
  obtain rfl := Except.ok.inj haddress
  rw [InetSocketAddress.create] at h
  split at h
  · obtain rfl := Except.ok.inj h
    refine ⟨hlength, ?_⟩
    have hportBytes := Ints.toByteArray_of_fromByteArray
      (by rw [List.length_take, List.length_drop]; omega) hport
    show List.take (4 + 4) _ = _ ++ Ints.toByteArray port
    rw [hportBytes, List.take_add, List.drop_drop]
  · cases h

/-- Past the end there is no port. -/
theorem readPeer_end (hbytes : bytes.length < 2 ^ 31) (hend : bytes.length = 4 + i * 8) :
    readPeer bytes i ≠ .ok peer := by
  intro h
  rw [readPeer_eq] at h
  obtain ⟨_, -, h⟩ := bind_eq_ok_iff.mp h
  obtain ⟨_, -, h⟩ := bind_eq_ok_iff.mp h
  obtain ⟨portBytes, hport, -⟩ := bind_eq_ok_iff.mp h
  have houtside : (Int32.ofNat (4 + i * 8 + 4)).toInt < 0 ∨
      (bytes.length : Int) < (Int32.ofNat (4 + i * 8 + 4)).toInt := by
    have hsize : Int32.size = 4294967296 := rfl
    rw [Int32.toInt_ofNat', hsize, Int.bmod_def]
    omega
  rw [copyOfRange, if_pos houtside] at hport
  split at hport <;> cases hport

/-- Peers come back from their bytes. -/
theorem deserializeData_serializeData (h : Sound peers)
    (hlength : (serializeData peers).length < 2 ^ 31) :
    deserializeData (serializeData peers) = .ok peers := by
  have hwhole := length_serializeData h
  have hcount : (Int32.ofNat peers.length).toInt = peers.length :=
    Int32.toInt_ofNat_of_lt (by omega)
  have hword : countWord (serializeData peers) = Int32.ofNat peers.length := countWord_append _ _
  have hannounced := announced (Int32.ofNat peers.length)
  have hmax := (4 + Int32.ofNat peers.length * (4 + 4)).toInt_lt
  have hmin := (4 + Int32.ofNat peers.length * (4 + 4)).le_toInt
  rw [deserializeData_eq, hword, if_pos (by omega), hcount, Int.toNat_natCast,
    mapM_range_eq_ok_iff]
  refine ⟨rfl, fun i peer hpeer => ?_⟩
  have hsound := h peer (List.mem_of_getElem? hpeer)
  refine readPeer_record hlength hsound ?_
  refine Holds.record (fun peer hpeer => length_record (h peer hpeer)) ?_ hpeer
  refine ⟨Ints.toByteArray (Int32.ofNat peers.length), [], ?_, Ints.length_toByteArray _⟩
  rw [List.append_nil]
  rfl

/-- What is read from bytes whose count is not negative is written so. -/
theorem eq_serializeData (hbytes : bytes.length < 2 ^ 31) (hcounted : Counted bytes)
    (h : deserializeData bytes = .ok peers) : Sound peers ∧ bytes = serializeData peers := by
  rw [deserializeData_eq] at h
  split at h
  · rename_i hannounced
    have hcount := hcounted hannounced.symm
    have hmod := announced (countWord bytes)
    have hmax := (countWord bytes).toInt_lt
    obtain ⟨count, hcountEq⟩ : ∃ count : Nat, (countWord bytes).toInt = count :=
      Int.eq_ofNat_of_zero_le hcount
    rw [hcountEq, Int.toNat_natCast] at h
    obtain ⟨hlength, hall⟩ := mapM_range_eq_ok_iff.mp h
    -- a count that wraps announces a peer at the end of the bytes
    have hwhole : bytes.length = 4 + count * 8 := by
      by_contra hwraps
      obtain ⟨i, hi⟩ : ∃ i : Nat, bytes.length = 4 + i * 8 := ⟨(bytes.length - 4) / 8, by omega⟩
      have hlt : i < peers.length := by omega
      exact readPeer_end hbytes hi (hall i _ (List.getElem?_eq_getElem hlt))
    -- Each record is inside the bytes, so that none of it was filled up with zeros.
    have hrecord : ∀ (i : Nat) (peer : InetSocketAddress), peers[i]? = some peer →
        peer.address.bytes.length = 4 ∧ (bytes.drop (4 + i * 8)).take 8 = record peer := by
      intro i peer hpeer
      have hi := (List.getElem?_eq_some_iff.mp hpeer).1
      exact record_of_readPeer hbytes (by omega) (hall i peer hpeer)
    refine ⟨?_, ?_⟩
    · intro peer hpeer
      obtain ⟨i, hi⟩ := List.mem_iff_getElem?.mp hpeer
      exact (hrecord i peer hi).1
    · have hpieces : (List.range count).map (fun i => (bytes.drop (4 + i * 8)).take 8)
          = peers.map record := by
        refine List.ext_getElem (by simp [hlength]) fun i hi hi' => ?_
        rw [List.getElem_map, List.getElem_range, List.getElem_map]
        rw [List.length_map] at hi'
        exact (hrecord i _ (List.getElem?_eq_getElem hi')).2
      have hflat := flatten_pieces bytes 4 8 count
      rw [hpieces, List.take_of_length_le (by rw [List.length_drop]; omega)] at hflat
      have hword : countWord bytes = Int32.ofNat count := by
        rw [← Int32.toInt_inj, hcountEq, Int32.toInt_ofNat_of_lt (by omega)]
      have htake := Ints.toByteArray_of_fromByteArray (by rw [List.length_take]; omega)
        (@fromByteArray_take bytes (by omega))
      show bytes = Ints.toByteArray (Int32.ofNat peers.length) ++ (peers.map record).flatten
      rw [hflat, hlength, ← hword, htake, List.take_append_drop]
  · cases h

/-- The decoder of peers is exact where the count is not negative, and nowhere else. -/
theorem exactOn_iff (hbytes : bytes.length < 2 ^ 31) :
    ExactOn Sound serializeData deserializeData bytes ↔ Counted bytes := by
  constructor
  · intro hexact hannounced
    by_contra hnegative
    have hread := @deserializeData_eq bytes
    have hnone : (countWord bytes).toInt.toNat = 0 := by omega
    rw [if_pos hannounced.symm, hnone] at hread
    obtain ⟨-, hwritten⟩ := (hexact []).mp hread
    have hword := congrArg countWord hwritten
    rw [serializeData, countWord_append] at hword
    rw [hword] at hnegative
    exact hnegative (by decide)
  · intro hcounted peers
    constructor
    · exact eq_serializeData hbytes hcounted
    · rintro ⟨hsound, rfl⟩
      exact deserializeData_serializeData hsound hbytes

end PeersSpec

namespace CheckpointMessageSpec

variable {bytes : ByteStr} {cp : Checkpoint} {item : BlockCheckpoint} {i : Nat}

/-- Checkpoints with at most `MaxCheckpoints` items, all signatures of 64 bytes. -/
structure Sound (cp : Checkpoint) : Prop where
  count : cp.items.length ≤ 10
  items : ∀ item ∈ cp.items, item.signature.length = 64
  signature : cp.signature.length = 64

/-- The bytes are as long as a count that does not exceed `MaxCheckpoints` says, when they go as far
as the signature of the last item. -/
def Whole (bytes : ByteStr) : Prop :=
  countWord bytes ≤ MaxCheckpoints → (countWord bytes).toInt * 68 - 60 ≤ bytes.length →
    0 ≤ (countWord bytes).toInt ∧ (bytes.length : Int) = 4 + (countWord bytes).toInt * 68 + 64

/-- The bytes of one item. -/
def record (item : BlockCheckpoint) : ByteStr := Ints.toByteArray item.height ++ item.signature

/-- The item with an index. -/
def readItem (bytes : ByteStr) (i : Nat) : Result BlockCheckpoint := do
  let position := 4 + Int32.ofNat i * (4 + SignatureLength)
  let heightBytes ← copyOfRange bytes position (position + 4)
  let height ← Ints.fromByteArray heightBytes
  let blockSignature ← copyOfRange bytes (position + 4) (position + 4 + SignatureLength)
  .ok ⟨height, blockSignature⟩

/-- An item of a checkpoint takes 68 bytes. -/
theorem length_record (h : item.signature.length = 64) : (record item).length = 68 := by
  rw [record, List.length_append, h, Ints.length_toByteArray]

/-- A checkpoint takes four bytes, 68 for each item and 64 for its signature. -/
theorem length_serializeData (h : Sound cp) :
    (serializeData cp).length = 4 + cp.items.length * 68 + 64 := by
  have hwidth : ∀ item ∈ cp.items, (record item).length = 68 := fun item hitem =>
    length_record (h.items item hitem)
  have hmap : (cp.items.map record).map List.length = List.replicate cp.items.length 68 := by
    rw [List.map_map]
    exact List.map_eq_replicate_iff.mpr hwidth
  show ((Ints.toByteArray _ ++ (cp.items.map record).flatten) ++ cp.signature).length = _
  rw [List.length_append, List.length_append, Ints.length_toByteArray, List.length_flatten, hmap,
    List.sum_replicate, Nat.nsmul_eq_mul, h.signature]

/-- The items of a checkpoint are read one by one if they are not too many, and its signature is
the last 64 bytes. -/
theorem deserializeData_eq :
    deserializeData bytes
      = if countWord bytes ≤ MaxCheckpoints then do
          let items ← (List.range (countWord bytes).toInt.toNat).mapM (readItem bytes)
          .ok ⟨items, bytes.drop (bytes.length - 64)⟩
        else raise .illegalArgument := by
  have hword := @fromByteArray_copyOfRange bytes
  rw [bind_eq_ok_iff] at hword
  obtain ⟨lengthBytes, hlengthBytes, hlength⟩ := hword
  rw [deserializeData, hlengthBytes, ok_bind, hlength, ok_bind]
  rfl

/-- An item is read from the four bytes of its height and the 64 of its signature. -/
theorem readItem_eq (i : Nat) :
    readItem bytes i = (do
      let heightBytes ← copyOfRange bytes (Int32.ofNat (4 + i * 68)) (Int32.ofNat (4 + i * 68 + 4))
      let height ← Ints.fromByteArray heightBytes
      let blockSignature ← copyOfRange bytes (Int32.ofNat (4 + i * 68 + 4))
        (Int32.ofNat (4 + i * 68 + 4 + 64))
      .ok ⟨height, blockSignature⟩) := by
  have hposition : (4 : Int32) + Int32.ofNat i * (4 + SignatureLength) = Int32.ofNat (4 + i * 68) :=
    position_eq 4 68 i
  have hnext : Int32.ofNat (4 + i * 68) + 4 = Int32.ofNat (4 + i * 68 + 4) :=
    (Int32.ofNat_add _ _).symm
  have hend : Int32.ofNat (4 + i * 68 + 4) + SignatureLength = Int32.ofNat (4 + i * 68 + 4 + 64) :=
    (Int32.ofNat_add _ _).symm
  rw [readItem]
  simp only [hposition, hnext, hend]

/-- An item that has its bytes is read back. -/
theorem readItem_record (hbytes : bytes.length < 2 ^ 31) (hitem : item.signature.length = 64)
    (h : Holds bytes (4 + i * 68) (record item)) : readItem bytes i = .ok item := by
  have hsignature := h.right
  rw [Ints.length_toByteArray] at hsignature
  rw [readItem_eq, h.left.copyOfRange hbytes (Ints.length_toByteArray _), ok_bind,
    Ints.fromByteArray_toByteArray, ok_bind, hsignature.copyOfRange hbytes hitem, ok_bind]

/-- An item that lies in the bytes is written as its bytes. -/
theorem record_of_readItem (hbytes : bytes.length < 2 ^ 31)
    (hinside : 4 + i * 68 + 68 ≤ bytes.length) (h : readItem bytes i = .ok item) :
    item.signature.length = 64 ∧ (bytes.drop (4 + i * 68)).take 68 = record item := by
  rw [readItem_eq, copyOfRange_inside (by omega) (by omega), ok_bind] at h
  obtain ⟨height, hheight, h⟩ := bind_eq_ok_iff.mp h
  rw [copyOfRange_inside (by omega) (by omega), ok_bind] at h
  obtain rfl := Except.ok.inj h
  refine ⟨by rw [List.length_take, List.length_drop]; omega, ?_⟩
  have hheightBytes := Ints.toByteArray_of_fromByteArray
    (by rw [List.length_take, List.length_drop]; omega) hheight
  show List.take (4 + 64) _ = Ints.toByteArray height ++ _
  rw [hheightBytes, List.take_add, List.drop_drop]

/-- An item is read when the bytes go as far as its signature. -/
theorem readItem_isOk (hi : i < 10) :
    (∃ item, readItem bytes i = .ok item) ↔ 4 + i * 68 + 4 ≤ bytes.length := by
  rw [readItem_eq, copyOfRange_eq (by omega)]
  by_cases hstart : 4 + i * 68 ≤ bytes.length
  · rw [if_pos hstart, ok_bind, Ints.fromByteArray, if_pos (by simp), ok_bind,
      copyOfRange_eq (by omega)]
    by_cases hsignature : 4 + i * 68 + 4 ≤ bytes.length
    · rw [if_pos hsignature]
      exact ⟨fun _ => hsignature, fun _ => ⟨_, rfl⟩⟩
    · rw [if_neg hsignature]
      refine iff_of_false ?_ hsignature
      rintro ⟨item, h⟩
      cases h
  · rw [if_neg hstart]
    refine iff_of_false ?_ (by omega)
    rintro ⟨item, h⟩
    cases h

/-- A checkpoint is read when the bytes go as far as the signature of the last item. -/
theorem deserializeData_isOk :
    (∃ cp, deserializeData bytes = .ok cp) ↔
      countWord bytes ≤ MaxCheckpoints ∧ (countWord bytes).toInt * 68 - 60 ≤ bytes.length := by
  rw [deserializeData_eq]
  by_cases hcount : countWord bytes ≤ MaxCheckpoints
  · have hten : (countWord bytes).toInt ≤ 10 := Int32.le_iff_toInt_le.mp hcount
    rw [if_pos hcount]
    constructor
    · rintro ⟨cp, h⟩
      refine ⟨hcount, ?_⟩
      -- A copy that starts after the end raises; the copies of the last record start last.
      obtain ⟨items, hitems, -⟩ := bind_eq_ok_iff.mp h
      obtain ⟨hlength, hall⟩ := mapM_range_eq_ok_iff.mp hitems
      by_cases hnone : (countWord bytes).toInt ≤ 0
      · omega
      · have hlast : items.length - 1 < items.length := by omega
        have hread := hall _ _ (List.getElem?_eq_getElem hlast)
        have hreach := (readItem_isOk (by omega)).mp ⟨_, hread⟩
        omega
    · rintro ⟨-, hreach⟩
      have hread : ∀ i, i < (countWord bytes).toInt.toNat →
          ∃ item, readItem bytes i = .ok item := by
        intro i hi
        exact (readItem_isOk (by omega)).mpr (by omega)
      have : Nonempty BlockCheckpoint := ⟨⟨0, []⟩⟩
      choose! item hitem using hread
      refine ⟨⟨(List.range (countWord bytes).toInt.toNat).map item, _⟩, bind_eq_ok_iff.mpr
        ⟨_, mapM_range_eq_ok_iff.mpr ⟨by rw [List.length_map, List.length_range], ?_⟩, rfl⟩⟩
      intro i b hb
      rw [List.getElem?_map] at hb
      obtain ⟨j, hj, rfl⟩ := Option.map_eq_some_iff.mp hb
      obtain ⟨hlt, rfl⟩ := List.getElem?_eq_some_iff.mp hj
      rw [List.length_range] at hlt
      rw [List.getElem_range]
      exact hitem i hlt
  · rw [if_neg hcount]
    refine iff_of_false ?_ fun h => hcount h.1
    rintro ⟨cp, h⟩
    cases h

/-- The count of a written checkpoint is the number of its items, in a word. -/
theorem countWord_serializeData : countWord (serializeData cp) = Int32.ofNat cp.items.length := by
  show countWord ((Ints.toByteArray _ ++ (cp.items.map record).flatten) ++ cp.signature) = _
  rw [List.append_assoc, countWord_append]

/-- Checkpoints come back from their bytes. -/
theorem deserializeData_serializeData (h : Sound cp) :
    deserializeData (serializeData cp) = .ok cp := by
  have hwhole := length_serializeData h
  have hitems := h.count
  have hcount : (Int32.ofNat cp.items.length).toInt = cp.items.length :=
    Int32.toInt_ofNat_of_lt (by omega)
  have hle : Int32.ofNat cp.items.length ≤ MaxCheckpoints := by
    rw [Int32.le_iff_toInt_le, hcount]
    have : MaxCheckpoints.toInt = 10 := rfl
    omega
  rw [deserializeData_eq, countWord_serializeData, if_pos hle, hcount, Int.toNat_natCast,
    mapM_range_eq_ok_iff.mpr, ok_bind]
  · have hsignature : (serializeData cp).drop ((serializeData cp).length - 64) = cp.signature := by
      rw [hwhole, serializeData]
      refine List.drop_left' ?_
      have := congrArg List.length (show serializeData cp = cp.toSign ++ cp.signature from rfl)
      rw [List.length_append, h.signature] at this
      omega
    rw [hsignature]
  · refine ⟨rfl, fun i item hitem => ?_⟩
    refine readItem_record (by omega) (h.items item (List.mem_of_getElem? hitem)) ?_
    refine Holds.record (fun item hitem => length_record (h.items item hitem)) ?_ hitem
    exact ⟨Ints.toByteArray (Int32.ofNat cp.items.length), cp.signature,
      List.append_assoc _ _ _, Ints.length_toByteArray _⟩

/-- What is read from bytes of the length that their count says is written so. -/
theorem eq_serializeData (hwhole : Whole bytes) (h : deserializeData bytes = .ok cp) :
    Sound cp ∧ bytes = serializeData cp := by
  obtain ⟨hmax, hreach⟩ := deserializeData_isOk.mp ⟨cp, h⟩
  obtain ⟨hnonneg, hlength⟩ := hwhole hmax hreach
  have hten : (countWord bytes).toInt ≤ 10 := Int32.le_iff_toInt_le.mp hmax
  obtain ⟨count, hcountEq⟩ : ∃ count : Nat, (countWord bytes).toInt = count :=
    Int.eq_ofNat_of_zero_le hnonneg
  rw [deserializeData_eq, if_pos hmax, hcountEq, Int.toNat_natCast] at h
  obtain ⟨items, hitems, h⟩ := bind_eq_ok_iff.mp h
  obtain rfl := Except.ok.inj h
  obtain ⟨hitemsLength, hall⟩ := mapM_range_eq_ok_iff.mp hitems
  have hrecord : ∀ (i : Nat) (item : BlockCheckpoint), items[i]? = some item →
      item.signature.length = 64 ∧ (bytes.drop (4 + i * 68)).take 68 = record item := by
    intro i item hitem
    have hi := (List.getElem?_eq_some_iff.mp hitem).1
    exact record_of_readItem (by omega) (by omega) (hall i item hitem)
  refine ⟨⟨?_, ?_, ?_⟩, ?_⟩
  · show items.length ≤ 10
    omega
  · intro item hitem
    obtain ⟨i, hi⟩ := List.mem_iff_getElem?.mp hitem
    exact (hrecord i item hi).1
  · show (bytes.drop (bytes.length - 64)).length = 64
    rw [List.length_drop]
    omega
  · have hpieces : (List.range count).map (fun i => (bytes.drop (4 + i * 68)).take 68)
        = items.map record := by
      refine List.ext_getElem (by simp [hitemsLength]) fun i hi hi' => ?_
      rw [List.getElem_map, List.getElem_range, List.getElem_map]
      rw [List.length_map] at hi'
      exact (hrecord i _ (List.getElem?_eq_getElem hi')).2
    have hflat := flatten_pieces bytes 4 68 count
    rw [hpieces] at hflat
    have hword : countWord bytes = Int32.ofNat count := by
      rw [← Int32.toInt_inj, hcountEq, Int32.toInt_ofNat_of_lt (by omega)]
    have htake := Ints.toByteArray_of_fromByteArray (by rw [List.length_take]; omega)
      (@fromByteArray_take bytes (by omega))
    have hrest : bytes.drop (bytes.length - 64) = (bytes.drop 4).drop (count * 68) := by
      rw [List.drop_drop]
      congr 1
      omega
    show bytes = (Ints.toByteArray (Int32.ofNat items.length) ++ (items.map record).flatten)
      ++ bytes.drop (bytes.length - 64)
    rw [hflat, hitemsLength, ← hword, htake, hrest, List.append_assoc, List.take_append_drop,
      List.take_append_drop]

/-- The decoder of checkpoints is exact where the bytes have the length that their count says, and
nowhere else. -/
theorem exactOn_iff :
    ExactOn Sound serializeData deserializeData bytes ↔ Whole bytes := by
  constructor
  · intro hexact hmax hreach
    obtain ⟨cp, hcp⟩ := deserializeData_isOk.mpr ⟨hmax, hreach⟩
    obtain ⟨hsound, rfl⟩ := (hexact cp).mp hcp
    have hcount := hsound.count
    rw [countWord_serializeData, length_serializeData hsound,
      Int32.toInt_ofNat_of_lt (by omega)]
    omega
  · intro hwhole cp
    constructor
    · exact eq_serializeData hwhole
    · rintro ⟨hsound, rfl⟩
      exact deserializeData_serializeData hsound

end CheckpointMessageSpec

/-- Each list message is read exactly where its count says how long the bytes are: signatures where
their length does not wrap, peers where their count is not negative, and a checkpoint where nothing
is missing and nothing follows. -/
theorem exactOn_iff_of_length_lt (bytes : ByteStr) (hbytes : bytes.length < 2 ^ 31) :
    (ExactOn SignaturesSeqSpec.Sound SignaturesSeqSpec.serializeData
        SignaturesSeqSpec.deserializeData bytes ↔ SignaturesSeqSpec.Unwrapped bytes) ∧
      (ExactOn PeersSpec.Sound PeersSpec.serializeData PeersSpec.deserializeData bytes ↔
        PeersSpec.Counted bytes) ∧
      (ExactOn CheckpointMessageSpec.Sound CheckpointMessageSpec.serializeData
        CheckpointMessageSpec.deserializeData bytes ↔ CheckpointMessageSpec.Whole bytes) :=
  ⟨SignaturesSeqSpec.exactOn_iff hbytes, PeersSpec.exactOn_iff hbytes,
    CheckpointMessageSpec.exactOn_iff⟩

namespace Sample

/-- The bytes of two signatures. -/
def twoSignatures : ByteStr :=
  [0, 0, 0, 2] ++ List.replicate 64 7 ++ List.replicate 64 8

/-- The bytes of two peers. -/
def twoPeers : ByteStr :=
  [0, 0, 0, 2, 127, 0, 0, 1, 0, 0, 35, 41, 10, 0, 0, -1, 0, 0, 0, 80]

/-- The bytes of a checkpoint with two items. -/
def twoItems : ByteStr :=
  [0, 0, 0, 2, 0, 0, 0, 5] ++ List.replicate 64 7 ++ [0, 0, 0, 3] ++ List.replicate 64 8
    ++ List.replicate 64 9

/-- The three are read as lists of two, and their counts say how long they are. -/
theorem twoItems_evaluate :
    SignaturesSeqSpec.deserializeData twoSignatures
        = .ok [List.replicate 64 7, List.replicate 64 8] ∧
      List.map InetSocketAddress.port <$> PeersSpec.deserializeData twoPeers = .ok [9001, 80] ∧
      Checkpoint.items <$> CheckpointMessageSpec.deserializeData twoItems
        = .ok [⟨5, List.replicate 64 7⟩, ⟨3, List.replicate 64 8⟩] ∧
      4 + (countWord twoSignatures).toInt * 64 = twoSignatures.length ∧
      0 ≤ (countWord twoPeers).toInt ∧ twoPeers.length < 2 ^ 31 ∧ 0 ≤ (countWord twoItems).toInt ∧
      (twoItems.length : Int) = 4 + (countWord twoItems).toInt * 68 + 64 ∧
      twoSignatures.length < 2 ^ 31 ∧ twoItems.length < 2 ^ 31 := by
  decide +kernel

/-- Two signatures, two peers and two items of a checkpoint are read from their bytes, and nothing
else is. -/
theorem twoItems_exactOn :
    (SignaturesSeqSpec.deserializeData twoSignatures
        = .ok [List.replicate 64 7, List.replicate 64 8] ∧
      ExactOn SignaturesSeqSpec.Sound SignaturesSeqSpec.serializeData
        SignaturesSeqSpec.deserializeData twoSignatures) ∧
      (List.map InetSocketAddress.port <$> PeersSpec.deserializeData twoPeers = .ok [9001, 80] ∧
        ExactOn PeersSpec.Sound PeersSpec.serializeData PeersSpec.deserializeData twoPeers) ∧
      Checkpoint.items <$> CheckpointMessageSpec.deserializeData twoItems
        = .ok [⟨5, List.replicate 64 7⟩, ⟨3, List.replicate 64 8⟩] ∧
      ExactOn CheckpointMessageSpec.Sound CheckpointMessageSpec.serializeData
        CheckpointMessageSpec.deserializeData twoItems := by
  obtain ⟨hsignatures, hpeers, hitems, hunwrapped, hcounted, htwoPeers, hcount, hwhole,
    htwoSignatures, htwoItems⟩ := twoItems_evaluate
  exact ⟨⟨hsignatures, (exactOn_iff_of_length_lt _ htwoSignatures).1.mpr fun _ => hunwrapped⟩,
    ⟨hpeers, (exactOn_iff_of_length_lt _ htwoPeers).2.1.mpr fun _ => hcounted⟩, hitems,
    (exactOn_iff_of_length_lt _ htwoItems).2.2.mpr fun _ _ => ⟨hcount, hwhole⟩⟩

/-- The least count is taken for an empty list of signatures and of peers, and no bytes at all for
an empty checkpoint. -/
theorem leastCount_read :
    SignaturesSeqSpec.deserializeData [-128, 0, 0, 0] = .ok [] ∧
      ¬ ExactOn SignaturesSeqSpec.Sound SignaturesSeqSpec.serializeData
        SignaturesSeqSpec.deserializeData [-128, 0, 0, 0] ∧
      PeersSpec.deserializeData [-128, 0, 0, 0] = .ok [] ∧
      ¬ ExactOn PeersSpec.Sound PeersSpec.serializeData PeersSpec.deserializeData
        [-128, 0, 0, 0] ∧
      CheckpointMessageSpec.deserializeData [] = .ok ⟨[], []⟩ ∧
      ¬ ExactOn CheckpointMessageSpec.Sound CheckpointMessageSpec.serializeData
        CheckpointMessageSpec.deserializeData [] := by
  have hsignatures : SignaturesSeqSpec.deserializeData [-128, 0, 0, 0] = .ok [] := by
    decide +kernel
  have hpeers : PeersSpec.deserializeData [-128, 0, 0, 0] = .ok [] := by decide +kernel
  have hcheckpoint : CheckpointMessageSpec.deserializeData [] = .ok ⟨[], []⟩ := by decide +kernel
  refine ⟨hsignatures, fun h => ?_, hpeers, fun h => ?_, hcheckpoint, fun h => ?_⟩
  · exact absurd ((h []).mp hsignatures).2 (by decide +kernel)
  · exact absurd ((h []).mp hpeers).2 (by decide +kernel)
  · exact absurd ((h ⟨[], []⟩).mp hcheckpoint).2 (by decide +kernel)

end Sample

end Vsys
