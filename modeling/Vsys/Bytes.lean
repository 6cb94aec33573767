import Mathlib.Data.Nat.Size
import Vsys.ValidationError

/-!
# Byte strings of numbers and arrays

Guava's `Longs`, `Ints` and `Shorts`, Scala's `BigInt`, and `Deser`'s length-prefixed arrays.  The prefix is a signed
16-bit number, so a prefix above 32767 reads back negative.
-/

namespace Vsys

open Lib

/-- `Array.slice(from, until)`. -/
def slice (bytes : ByteStr) (start stop : Int) : ByteStr :=
  (bytes.drop start.toNat).take (stop.toNat - start.toNat)

/-- Guava's `Longs.toByteArray`. -/
def Longs.toByteArray (x : Int64) : ByteStr := BigEndian.encode 8 x.toUInt64.toNat

/-- Guava's `Longs.fromByteArray`, which reads the first eight bytes. -/
def Longs.fromByteArray (bytes : ByteStr) : Result Int64 :=
  if 8 ≤ bytes.length then .ok (UInt64.ofNat (BigEndian.decode (bytes.take 8))).toInt64
  else raise .illegalArgument

/-- Guava's `Ints.toByteArray`. -/
def Ints.toByteArray (x : Int32) : ByteStr := BigEndian.encode 4 x.toUInt32.toNat

/-- Guava's `Ints.fromByteArray`, which reads the first four bytes. -/
def Ints.fromByteArray (bytes : ByteStr) : Result Int32 :=
  if 4 ≤ bytes.length then .ok (UInt32.ofNat (BigEndian.decode (bytes.take 4))).toInt32
  else raise .illegalArgument

/-- Guava's `Shorts.toByteArray`. -/
def Shorts.toByteArray (x : Int16) : ByteStr := BigEndian.encode 2 x.toUInt16.toNat

/-- Guava's `Shorts.fromByteArray`, which reads the first two bytes. -/
def Shorts.fromByteArray (bytes : ByteStr) : Result Int16 :=
  if 2 ≤ bytes.length then .ok (UInt16.ofNat (BigEndian.decode (bytes.take 2))).toInt16
  else raise .illegalArgument

@[simp]
theorem Longs.length_toByteArray (x : Int64) : (Longs.toByteArray x).length = 8 :=
  BigEndian.length_encode _ _

@[simp]
theorem Ints.length_toByteArray (x : Int32) : (Ints.toByteArray x).length = 4 :=
  BigEndian.length_encode _ _

@[simp]
theorem Shorts.length_toByteArray (x : Int16) : (Shorts.toByteArray x).length = 2 :=
  BigEndian.length_encode _ _

/-- Reading a long back from its own bytes, whatever follows them. -/
theorem Longs.fromByteArray_append (x : Int64) (rest : ByteStr) :
    Longs.fromByteArray (Longs.toByteArray x ++ rest) = .ok x := by
  have hlen : (Longs.toByteArray x).length = 8 := Longs.length_toByteArray x
  have hlt : x.toUInt64.toNat < 256 ^ 8 := x.toUInt64.toNat_lt
  rw [Longs.fromByteArray, if_pos (by simp), List.take_left' hlen, Longs.toByteArray,
    BigEndian.decode_encode, Nat.mod_eq_of_lt hlt, UInt64.ofNat_toNat,
    Int64.toInt64_toUInt64]

@[simp]
theorem Longs.fromByteArray_toByteArray (x : Int64) :
    Longs.fromByteArray (Longs.toByteArray x) = .ok x := by
  simpa using Longs.fromByteArray_append x []

theorem Ints.fromByteArray_append (x : Int32) (rest : ByteStr) :
    Ints.fromByteArray (Ints.toByteArray x ++ rest) = .ok x := by
  have hlen : (Ints.toByteArray x).length = 4 := Ints.length_toByteArray x
  have hlt : x.toUInt32.toNat < 256 ^ 4 := x.toUInt32.toNat_lt
  rw [Ints.fromByteArray, if_pos (by simp), List.take_left' hlen, Ints.toByteArray,
    BigEndian.decode_encode, Nat.mod_eq_of_lt hlt, UInt32.ofNat_toNat,
    Int32.toInt32_toUInt32]

@[simp]
theorem Ints.fromByteArray_toByteArray (x : Int32) :
    Ints.fromByteArray (Ints.toByteArray x) = .ok x := by
  simpa using Ints.fromByteArray_append x []

/-- The four bytes that are an integer. -/
theorem Ints.toByteArray_of_fromByteArray {bytes : ByteStr} {x : Int32} (hlength : bytes.length = 4)
    (h : Ints.fromByteArray bytes = .ok x) : Ints.toByteArray x = bytes := by
  rw [Ints.fromByteArray, if_pos (by omega), List.take_of_length_le (by omega)] at h
  obtain rfl := Except.ok.inj h
  have hlt : BigEndian.decode bytes < 2 ^ 32 := by
    have := BigEndian.decode_lt bytes
    rw [hlength] at this
    exact this
  rw [Ints.toByteArray]
  show BigEndian.encode 4 (UInt32.ofNat (BigEndian.decode bytes)).toNat = bytes
  rw [UInt32.toNat_ofNat_of_lt' hlt, ← hlength, BigEndian.encode_decode]

/-- The two bytes that are a short. -/
theorem Shorts.toByteArray_of_fromByteArray {bytes : ByteStr} {x : Int16}
    (hlength : bytes.length = 2) (h : Shorts.fromByteArray bytes = .ok x) :
    Shorts.toByteArray x = bytes := by
  rw [Shorts.fromByteArray, if_pos (by omega), List.take_of_length_le (by omega)] at h
  obtain rfl := Except.ok.inj h
  have hlt : BigEndian.decode bytes < 2 ^ 16 := by
    have := BigEndian.decode_lt bytes
    rw [hlength] at this
    exact this
  rw [Shorts.toByteArray]
  show BigEndian.encode 2 (UInt16.ofNat (BigEndian.decode bytes)).toNat = bytes
  rw [UInt16.toNat_ofNat_of_lt' hlt, ← hlength, BigEndian.encode_decode]

theorem Ints.toByteArray_injective : Function.Injective Ints.toByteArray := by
  intro x y h
  have hx := Ints.fromByteArray_toByteArray x
  rw [h, Ints.fromByteArray_toByteArray] at hx
  exact (Except.ok.inj hx).symm

theorem Ints.exists_ok {bytes : ByteStr} (h : 4 ≤ bytes.length) :
    ∃ x, Ints.fromByteArray bytes = .ok x := ⟨_, if_pos h⟩

theorem Longs.exists_ok {bytes : ByteStr} (h : 8 ≤ bytes.length) :
    ∃ x, Longs.fromByteArray bytes = .ok x := ⟨_, if_pos h⟩

namespace Raises

theorem short_iff {bytes : ByteStr} : Raises (Shorts.fromByteArray bytes) ↔ bytes.length < 2 := by
  unfold Shorts.fromByteArray
  split
  · rename_i h
    exact iff_of_false Raises.ok (Nat.not_lt.mpr h)
  · rename_i h
    exact iff_of_true Raises.raise (Nat.lt_of_not_le h)

theorem int_iff {bytes : ByteStr} : Raises (Ints.fromByteArray bytes) ↔ bytes.length < 4 := by
  unfold Ints.fromByteArray
  split
  · rename_i h
    exact iff_of_false Raises.ok (Nat.not_lt.mpr h)
  · rename_i h
    exact iff_of_true Raises.raise (Nat.lt_of_not_le h)

theorem long_iff {bytes : ByteStr} : Raises (Longs.fromByteArray bytes) ↔ bytes.length < 8 := by
  unfold Longs.fromByteArray
  split
  · rename_i h
    exact iff_of_false Raises.ok (Nat.not_lt.mpr h)
  · rename_i h
    exact iff_of_true Raises.raise (Nat.lt_of_not_le h)

end Raises

/-- `BigInt.toByteArray`: the shortest two's complement. -/
def BigInt.toByteArray (n : Int) : ByteStr :=
  let bitLength := Nat.size (if 0 ≤ n then n else -n - 1).toNat
  let length := bitLength / 8 + 1
  BigEndian.encode length (n % 256 ^ length).toNat

/-- `BigInt(bytes)`: two's complement. -/
def BigInt.ofByteArray (bytes : ByteStr) : Result Int :=
  if bytes = [] then raise .illegalArgument
  else
    let n := BigEndian.decode bytes
    .ok (if 2 * n < 256 ^ bytes.length then n else n - 256 ^ bytes.length)

/-- A number comes back from its two's complement. -/
theorem BigInt.ofByteArray_toByteArray (n : Int) : ofByteArray (toByteArray n) = .ok n := by
  generalize hmagnitude : (if 0 ≤ n then n else -n - 1).toNat = magnitude
  obtain ⟨length, hlength⟩ : ∃ length, length = Nat.size magnitude / 8 + 1 := ⟨_, rfl⟩
  have hbytes : toByteArray n = BigEndian.encode length (n % 256 ^ length).toNat := by
    rw [toByteArray, hmagnitude, hlength]
  -- the number of bytes leaves room for the sign
  have hroom : 2 * (magnitude + 1) ≤ 256 ^ length := by
    have hsize : magnitude < 2 ^ Nat.size magnitude := Nat.lt_size_self magnitude
    have hpow : 2 ^ Nat.size magnitude * 2 ≤ 2 ^ (8 * length) := by
      rw [← Nat.pow_succ]
      exact Nat.pow_le_pow_right (by omega) (by omega)
    rw [Nat.pow_mul] at hpow
    have h256 : (2 : Nat) ^ 8 = 256 := rfl
    rw [h256] at hpow
    omega
  have hlong : (toByteArray n).length = length := by rw [hbytes, BigEndian.length_encode]
  have hsome : toByteArray n ≠ [] := by
    rw [← List.length_pos_iff, hlong]
    omega
  obtain ⟨modulus, hmodulus⟩ : ∃ modulus : Nat, modulus = 256 ^ length := ⟨_, rfl⟩
  have hcast : (256 : Int) ^ length = (modulus : Int) := by rw [hmodulus]; push_cast; rfl
  have hdecode : (BigEndian.decode (toByteArray n) : Int) = n % modulus := by
    rw [hbytes, BigEndian.decode_encode, hcast, ← hmodulus]
    have := Int.emod_lt_of_pos n (b := modulus) (by omega)
    have := Int.emod_nonneg n (b := modulus) (by omega)
    rw [Nat.mod_eq_of_lt (by omega)]
    omega
  rw [ofByteArray, if_neg hsome, hlong]
  simp only [hcast, ← hmodulus, Except.ok.injEq]
  by_cases hn : 0 ≤ n
  · rw [if_pos hn] at hmagnitude
    rw [Int.emod_eq_of_lt hn (by omega)] at hdecode
    rw [if_pos (by omega), hdecode]
  · rw [if_neg hn] at hmagnitude
    have hwrap : n % modulus = n + modulus := by
      rw [← Int.add_emod_right, Int.emod_eq_of_lt (by omega) (by omega)]
    rw [hwrap] at hdecode
    rw [if_neg (by omega), hdecode]
    omega

/-- `Deser.serializeArray`, which is also `BytesSerializable.arrayWithSize`: the length is cut to
sixteen bits. -/
def Deser.serializeArray (b : ByteStr) : ByteStr :=
  Shorts.toByteArray (Int16.ofNat b.length) ++ b

/-- `Deser.serializeArrays`. -/
def Deser.serializeArrays (bs : List ByteStr) : ByteStr :=
  Shorts.toByteArray (Int16.ofNat bs.length) ++ (bs.map Deser.serializeArray).flatten

/-- `Deser.parseArraySize`: the array at `position` and the position after it. -/
def Deser.parseArraySize (bytes : ByteStr) (position : Int) : Result (ByteStr × Int) := do
  let length ← Shorts.fromByteArray (slice bytes position (position + 2))
  .ok (slice bytes (position + 2) (position + 2 + length.toInt), position + 2 + length.toInt)

/-- The loop of `Deser.parseArrays`: `count` arrays from `position` on. -/
def Deser.parseArraysFrom (bytes : ByteStr) : Nat → Int → Result (List ByteStr)
  | 0, _ => .ok []
  | count + 1, position => do
      let (arr, nextPos) ← Deser.parseArraySize bytes position
      let rest ← Deser.parseArraysFrom bytes count nextPos
      .ok (arr :: rest)

/-- `Deser.parseArrays`. -/
def Deser.parseArrays (bytes : ByteStr) : Result (List ByteStr) := do
  let length ← Shorts.fromByteArray (slice bytes 0 2)
  Deser.parseArraysFrom bytes length.toInt.toNat 2

/-- `Deser.serilizeString`: the UTF-8 bytes of a string. -/
def Deser.serilizeString (s : String) : ByteStr :=
  s.toUTF8.data.toList.map fun b => b.toInt8

end Vsys
