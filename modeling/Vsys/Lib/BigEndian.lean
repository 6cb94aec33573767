import Mathlib.Data.List.Induction
import Mathlib.Algebra.Order.Ring.Nat

/-!
# Big-endian byte strings

Numbers as fixed-width big-endian strings of signed bytes.  Encoding at a width and decoding
gives the number back modulo `256 ^ width`, and decoding then encoding gives back every string of
that width.
-/

namespace Vsys.Lib

/-- A signed byte. -/
abbrev Byte := Int8

namespace BigEndian

/-- The byte whose unsigned value is `n` modulo 256. -/
def ofUnsigned (n : Nat) : Byte := Int8.ofNat n

/-- The unsigned value of a byte. -/
def unsigned (b : Byte) : Nat := b.toUInt8.toNat

/-- The low `width` base-256 digits of `n`, most significant first. -/
def encode : Nat → Nat → List Byte
  | 0, _ => []
  | width + 1, n => encode width (n / 256) ++ [ofUnsigned n]

/-- The number whose base-256 digits are the given bytes, most significant first. -/
def decode (bytes : List Byte) : Nat :=
  bytes.foldl (fun n b => n * 256 + unsigned b) 0

@[simp]
theorem unsigned_ofUnsigned (n : Nat) : unsigned (ofUnsigned n) = n % 256 := by
  simp [unsigned, ofUnsigned, Int8.ofNat, UInt8.toNat]

theorem unsigned_lt (b : Byte) : unsigned b < 256 := b.toUInt8.toNat_lt

@[simp]
theorem ofUnsigned_unsigned (b : Byte) : ofUnsigned (unsigned b) = b := by
  apply Int8.toBitVec.inj
  apply BitVec.eq_of_toNat_eq
  have := unsigned_ofUnsigned (unsigned b)
  rw [Nat.mod_eq_of_lt (unsigned_lt b)] at this
  exact this

@[simp]
theorem length_encode (width n : Nat) : (encode width n).length = width := by
  induction width generalizing n with
  | zero => rfl
  | succ width ih => simp [encode, ih]

theorem decode_append_singleton (bytes : List Byte) (b : Byte) :
    decode (bytes ++ [b]) = decode bytes * 256 + unsigned b := by
  simp [decode]

@[simp]
theorem decode_encode (width n : Nat) : decode (encode width n) = n % 256 ^ width := by
  induction width generalizing n with
  | zero => simp [encode, decode, Nat.mod_one]
  | succ width ih =>
      rw [encode, decode_append_singleton, ih, unsigned_ofUnsigned, Nat.pow_succ',
        Nat.mod_mul, Nat.mul_comm, Nat.add_comm]

theorem decode_lt (bytes : List Byte) : decode bytes < 256 ^ bytes.length := by
  induction bytes using List.reverseRecOn with
  | nil => simp [decode]
  | append_singleton bytes b ih =>
      rw [decode_append_singleton, List.length_append, List.length_singleton, Nat.pow_succ]
      have := unsigned_lt b
      omega

theorem encode_decode (bytes : List Byte) : encode bytes.length (decode bytes) = bytes := by
  induction bytes using List.reverseRecOn with
  | nil => rfl
  | append_singleton bytes b ih =>
      rw [decode_append_singleton, List.length_append, List.length_singleton, encode]
      have hb := unsigned_lt b
      have hdiv : (decode bytes * 256 + unsigned b) / 256 = decode bytes := by omega
      have hmod : ofUnsigned (decode bytes * 256 + unsigned b) = b := by
        rw [← ofUnsigned_unsigned (ofUnsigned _), unsigned_ofUnsigned, Nat.mul_add_mod',
          Nat.mod_eq_of_lt hb, ofUnsigned_unsigned]
      rw [hdiv, hmod, ih]

/-- Encodings of one width are equal exactly for numbers equal modulo `256 ^ width`. -/
theorem encode_inj {width m n : Nat} :
    encode width m = encode width n ↔ m % 256 ^ width = n % 256 ^ width := by
  constructor
  · intro h
    rw [← decode_encode, ← decode_encode, h]
  · intro h
    have hm := encode_decode (encode width m)
    have hn := encode_decode (encode width n)
    rw [length_encode, decode_encode] at hm hn
    rw [← hm, ← hn, h]

end BigEndian

end Vsys.Lib
