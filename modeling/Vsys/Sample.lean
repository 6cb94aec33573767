import Mathlib.Data.Finset.Sort
import Mathlib.Data.Prod.Lex
import Vsys.Transaction.Types

/-!
# A platform to run the model on

The assumptions of `Platform` can be met together: byte strings of thirty-two bytes for hashes, one
character for each byte as the digits, and sorted sets.  Signatures are not checked.
-/

namespace Vsys.Sample

open Lib

/-- A polynomial hash. -/
def hash (b : ByteStr) : ByteStr :=
  BigEndian.encode 32 (b.foldl (fun h x => h * 257 + BigEndian.unsigned x + 1) 0)

/-- The digit of a byte. -/
def digit (b : Byte) : Char := Char.ofNat (BigEndian.unsigned b + 256)

theorem toNat_digit (b : Byte) : (digit b).toNat = BigEndian.unsigned b + 256 := by
  have h := BigEndian.unsigned_lt b
  have hvalid : Nat.isValidChar (BigEndian.unsigned b + 256) := .inl (by omega)
  rw [digit, Char.ofNat, dif_pos hvalid]
  rfl

/-- The order byte strings are listed in: by length, and then by the number they encode. -/
def rank (b : ByteStr) : Nat ×ₗ Nat := toLex (b.length, BigEndian.decode b)

theorem rank_injective : Function.Injective rank := by
  intro a b h
  obtain ⟨hlength, hdecode⟩ := Prod.mk.inj (toLex.injective h)
  rw [← BigEndian.encode_decode a, ← BigEndian.encode_decode b, hlength, hdecode]

/-- Byte strings in the order of their ranks. -/
def listed (s : Finset ByteStr) : List ByteStr :=
  (s.map ⟨rank, rank_injective⟩).sort.map fun r => BigEndian.encode (ofLex r).1 (ofLex r).2

theorem encode_rank (b : ByteStr) : BigEndian.encode (ofLex (rank b)).1 (ofLex (rank b)).2 = b :=
  BigEndian.encode_decode b

theorem mem_listed (s : Finset ByteStr) (id : ByteStr) : id ∈ listed s ↔ id ∈ s := by
  simp only [listed, List.mem_map, Finset.mem_sort, Finset.mem_map, Function.Embedding.coeFn_mk]
  constructor
  · rintro ⟨_, ⟨b, hb, rfl⟩, rfl⟩
    rwa [encode_rank]
  · intro hid
    exact ⟨rank id, ⟨id, hid, rfl⟩, encode_rank id⟩

theorem nodup_listed (s : Finset ByteStr) : (listed s).Nodup := by
  refine List.Nodup.map_on ?_ (Finset.sort_nodup _ _)
  intro x hx y hy h
  simp only [Finset.mem_sort, Finset.mem_map, Function.Embedding.coeFn_mk] at hx hy
  obtain ⟨a, -, rfl⟩ := hx
  obtain ⟨b, -, rfl⟩ := hy
  rw [encode_rank, encode_rank] at h
  rw [h]

scoped instance platform : Platform where
  chainId := 77
  secureHash := hash
  secureHash_length := fun _ => BigEndian.length_encode _ _
  fastHash := hash
  fastHash_length := fun _ => BigEndian.length_encode _ _
  verify := fun _ _ _ => true
  base58 := fun b => String.ofList (b.map digit)
  decodeBase58 := fun s => some (s.toList.map fun c => BigEndian.ofUnsigned (c.toNat - 256))
  decodeBase58_base58 := fun b => by
    simp only [String.toList_ofList, List.map_map, Option.some.injEq]
    refine (List.map_congr_left fun x _ => ?_).trans (List.map_id b)
    simp [toNat_digit, BigEndian.ofUnsigned_unsigned]
  base58_length := fun b h => by
    simp [h]
  base58_colon := fun b h => by
    simp only [String.toList_ofList, List.mem_map] at h
    obtain ⟨x, -, hx⟩ := h
    have hnat := congrArg Char.toNat hx
    rw [toNat_digit] at hnat
    have hcolon : ':'.toNat = 58 := rfl
    omega
  merkleRoot := fun bs => hash bs.flatten
  merkleRoot_length := fun _ => BigEndian.length_encode _ _
  setToList := listed
  nodup_setToList := nodup_listed
  mem_setToList := mem_listed
  cached := fun _ s => s
  cached_subset := fun _ _ => Finset.Subset.refl _
  legacyTail := fun _ _ => none

/-- The fee of every sample. -/
theorem fee_pos : 0 < (100 : Int64) := by
  decide

/-- The fee scale of every sample. -/
theorem feeScale_eq : (100 : Int16) = DefaultFeeScale := rfl

/-- The amount of most payments. -/
theorem amount_pos : 0 < (5 : Int64) := by
  decide

theorem amount_fee : (addExact 5 100).isSome = true := by
  decide

theorem noAttachment_length : ([] : ByteStr).length ≤ 140 := by
  decide

theorem noData_valid : ValidData [] := by
  decide

theorem noDescription_length : (Deser.serilizeString "").length ≤ 140 := by
  decide

end Vsys.Sample
