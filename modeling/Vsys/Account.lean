import Mathlib.Data.Fintype.Vector
import Mathlib.Data.Fintype.EquivFin
import Vsys.Bytes

/-!
# Accounts

Addresses, contract accounts and aliases.  An address is a byte string that carries the proof that
the code's own check accepts it, so an invalid one cannot be built.  There are finitely many
addresses, which is what lets supplies be sums over all of them.
-/

namespace Vsys

open Lib

/-- The external code and the global setting the chain rests on: the hash functions, Curve25519
signatures, Merkle roots, Base58, the iteration order of hash sets, the eviction of caches, the
parsers of the transaction types the chain no longer accepts, and the chain identifier of the
current address scheme. -/
class Platform where
  /-- `AddressScheme.current.chainId`. -/
  chainId : Byte
  /-- `SecureCryptographicHash.hash`. -/
  secureHash : ByteStr → ByteStr
  secureHash_length : ∀ b, (secureHash b).length = 32
  /-- `FastCryptographicHash.hash`. -/
  fastHash : ByteStr → ByteStr
  fastHash_length : ∀ b, (fastHash b).length = 32
  /-- `EllipticCurveImpl.verify(signature, message, publicKey)`. -/
  verify : ByteStr → ByteStr → ByteStr → Bool
  /-- `Base58.encode`. -/
  base58 : ByteStr → String
  /-- `Base58.decode`. -/
  decodeBase58 : String → Option ByteStr
  decodeBase58_base58 : ∀ b, decodeBase58 (base58 b) = some b
  /-- A byte string of an address's length has at most 36 Base58 digits. -/
  base58_length : ∀ b, b.length = 26 → (base58 b).length ≤ 36
  /-- The colon is no Base58 digit. -/
  base58_colon : ∀ b, ':' ∉ (base58 b).toList
  /-- `MerkleTree(_)(FastCryptographicHash).rootHash`. -/
  merkleRoot : List ByteStr → ByteStr
  merkleRoot_length : ∀ bs, (merkleRoot bs).length = 32
  /-- The order in which a set of identifiers is listed. -/
  setToList : Finset ByteStr → List ByteStr
  nodup_setToList : ∀ s, (setToList s).Nodup
  mem_setToList : ∀ s id, id ∈ setToList s ↔ id ∈ s
  /-- The keys a cache of a maximum size still holds after it has taken one more. -/
  cached : Nat → Finset ByteStr → Finset ByteStr
  cached_subset : ∀ n s, cached n s ⊆ s
  /-- `parseTail` of a transaction type from 11 to 16: the identifier, the timestamp, the asset
  fee, whether the signatures are valid, and the bytes. -/
  legacyTail : Byte → ByteStr →
    Option (ByteStr × Int64 × (Option ByteStr × Int64 × Int16) × Bool × ByteStr)

variable [Platform]

open Platform

/-- `calcCheckSum`. -/
def calcCheckSum (withoutChecksum : ByteStr) : ByteStr := (secureHash withoutChecksum).take 4

/-- `isByteArrayValid` of `Address` and of `ContractAccount`, which differ in the version byte:
the version, the network, the length and the checksum, after two reads that can raise. -/
def versionedBytesValid (addressVersion : Byte) : ByteStr → Result Bool
  | [] => raise .noSuchElement
  | [_] => raise .noSuchElement
  | version :: network :: rest =>
      let addressBytes := version :: network :: rest
      .ok (version = addressVersion ∧ network = chainId ∧ addressBytes.length = 26 ∧
        addressBytes.drop (addressBytes.length - 4)
          = calcCheckSum (addressBytes.take (addressBytes.length - 4)))

/-- The bytes of version, network and payload followed by their checksum. -/
def versionedBytes (addressVersion : Byte) (payload : ByteStr) : ByteStr :=
  let withoutChecksum := addressVersion :: chainId :: payload
  withoutChecksum ++ calcCheckSum withoutChecksum

theorem length_calcCheckSum (b : ByteStr) : (calcCheckSum b).length = 4 := by
  simp [calcCheckSum, secureHash_length]

/-- A payload of twenty bytes always makes valid bytes. -/
theorem versionedBytesValid_versionedBytes {version : Byte} {payload : ByteStr}
    (hpayload : payload.length = 20) :
    versionedBytesValid version (versionedBytes version payload) = .ok true := by
  have hsum := length_calcCheckSum (version :: chainId :: payload)
  have hlen : (version :: chainId :: payload).length = 22 := by simp [hpayload]
  have htotal : (versionedBytes version payload).length = 26 := by
    simp [versionedBytes, hpayload, hsum]
  have hdrop : (versionedBytes version payload).drop 22
      = calcCheckSum (version :: chainId :: payload) := by
    rw [versionedBytes, ← hlen, List.drop_left]
  have htake : (versionedBytes version payload).take 22 = version :: chainId :: payload := by
    rw [versionedBytes, ← hlen, List.take_left]
  change versionedBytesValid version
    (version :: chainId :: (payload ++ calcCheckSum (version :: chainId :: payload))) = .ok true
  have hbytes : version :: chainId :: (payload ++ calcCheckSum (version :: chainId :: payload))
      = versionedBytes version payload := rfl
  simp only [versionedBytesValid, hbytes, htotal, hdrop, htake, and_self, decide_true]

theorem length_of_versionedBytesValid {version : Byte} {bytes : ByteStr}
    (h : versionedBytesValid version bytes = .ok true) : bytes.length = 26 := by
  match bytes, h with
  | version' :: network :: rest, h =>
      simp only [versionedBytesValid, Except.ok.injEq, decide_eq_true_eq] at h
      exact h.2.2.1

/-- `Address.AddressVersion`. -/
def Address.AddressVersion : Byte := 29

/-- `Address.isByteArrayValid`. -/
def Address.isByteArrayValid (addressBytes : ByteStr) : Result Bool :=
  versionedBytesValid Address.AddressVersion addressBytes

/-- An address: bytes the code's check accepts. -/
@[ext]
structure Address where
  bytes : ByteStr
  valid : Address.isByteArrayValid bytes = .ok true
  deriving DecidableEq

namespace Address

theorem length_bytes (a : Address) : a.bytes.length = 26 := length_of_versionedBytesValid a.valid

/-- The Base58 form of the address. -/
def address (a : Address) : String := base58 a.bytes

/-- `Address.fromPublicKey`. -/
def fromPublicKey (publicKey : ByteStr) : Address where
  bytes := versionedBytes AddressVersion ((secureHash publicKey).take 20)
  valid := versionedBytesValid_versionedBytes (by simp [secureHash_length])

/-- `Address.fromBytes`. -/
def fromBytes (addressBytes : ByteStr) : Result Address :=
  match h : isByteArrayValid addressBytes with
  | .ok true => .ok ⟨addressBytes, h⟩
  | .ok false => left .invalidAddress
  | .error e => .error e

/-- `Address.fromBase58String`. -/
def fromBase58String (address : String) : Result Address :=
  if address.length > 36 then left .invalidAddress
  else match decodeBase58 address with
    | some byteArray => fromBytes byteArray
    | none => left .invalidAddress

/-- `Address.fromString`, which drops the optional prefix `address:`. -/
def fromString (address : String) : Result Address :=
  if "address:".toList.isPrefixOf address.toList then
    fromBase58String (String.ofList (address.toList.drop 8))
  else fromBase58String address

@[simp]
theorem fromBytes_bytes (a : Address) : fromBytes a.bytes = .ok a := by
  unfold fromBytes
  split
  · rfl
  · rename_i h; rw [a.valid] at h; cases h
  · rename_i h; rw [a.valid] at h; cases h

theorem fromBytes_eq_ok_iff {b : ByteStr} {a : Address} : fromBytes b = .ok a ↔ a.bytes = b := by
  constructor
  · intro h
    unfold fromBytes at h
    split at h
    · rw [← Except.ok.inj h]
    · exact (left_ne_ok.mp h).elim
    · cases h
  · rintro rfl
    exact fromBytes_bytes a

@[simp]
theorem fromString_address (a : Address) : fromString a.address = .ok a := by
  have hprefix : "address:".toList.isPrefixOf a.address.toList = false := by
    rw [Bool.eq_false_iff, ne_eq, List.isPrefixOf_iff_prefix]
    intro h
    exact base58_colon a.bytes (h.subset (by decide))
  have hlength : ¬ a.address.length > 36 := not_lt.mpr (base58_length _ a.length_bytes)
  rw [fromString, hprefix, if_neg Bool.false_ne_true, fromBase58String, if_neg hlength, address,
    decodeBase58_base58]
  exact fromBytes_bytes a

/-- Equal Base58 forms are forms of one address. -/
theorem address_injective : Function.Injective Address.address := by
  intro a b h
  have ha := fromString_address a
  rw [h, fromString_address] at ha
  exact (Except.ok.inj ha).symm

instance : Finite Byte :=
  Finite.of_injective (fun b : Byte => b.toBitVec.toFin) fun _ _ h =>
    Int8.toBitVec.inj (BitVec.toFin_inj.mp h)

instance : Finite Address :=
  Finite.of_injective (β := List.Vector Byte 26) (fun a => ⟨a.bytes, a.length_bytes⟩)
    fun _ _ h => Address.ext (Subtype.mk.inj h)

end Address

/-- `ContractAccount.AddressVersion`. -/
def ContractAccount.AddressVersion : Byte := 6

/-- `ContractAccount.TokenAddressVersion`. -/
def ContractAccount.TokenAddressVersion : Byte := -124

/-- `ContractAccount.isByteArrayValid`. -/
def ContractAccount.isByteArrayValid (addressBytes : ByteStr) : Result Bool :=
  versionedBytesValid ContractAccount.AddressVersion addressBytes

/-- A contract account: bytes the code's check accepts. -/
@[ext]
structure ContractAccount where
  bytes : ByteStr
  valid : ContractAccount.isByteArrayValid bytes = .ok true
  deriving DecidableEq

namespace ContractAccount

theorem length_bytes (c : ContractAccount) : c.bytes.length = 26 :=
  length_of_versionedBytesValid c.valid

/-- `ContractAccount.fromId`. -/
def fromId (id : ByteStr) : ContractAccount where
  bytes := versionedBytes AddressVersion ((secureHash id).take 20)
  valid := versionedBytesValid_versionedBytes (by simp [secureHash_length])

/-- `ContractAccount.fromBytes`. -/
def fromBytes (addressBytes : ByteStr) : Result ContractAccount :=
  match h : isByteArrayValid addressBytes with
  | .ok true => .ok ⟨addressBytes, h⟩
  | .ok false => left .invalidContractAddress
  | .error e => .error e

/-- `ContractAccount.tokenIdFromBytes`: the contract's payload and the token's index under the
token version, with a checksum. -/
def tokenIdFromBytes (addressBytes idxBytes : ByteStr) : Result ByteStr := do
  if ← isByteArrayValid addressBytes then
    let contractIdNoCheckSum := addressBytes.tail.take (addressBytes.tail.length - 4)
    let withoutChecksum := [TokenAddressVersion] ++ contractIdNoCheckSum ++ idxBytes
    .ok (withoutChecksum ++ calcCheckSum withoutChecksum)
  else left .invalidAddress

/-- `ContractAccount.contractIdFromBytes`. -/
def contractIdFromBytes (addressBytes : ByteStr) : ByteStr :=
  let contractIdNoCheckSum := addressBytes.tail.take (addressBytes.tail.length - 8)
  let withoutChecksum := [AddressVersion] ++ contractIdNoCheckSum
  withoutChecksum ++ calcCheckSum withoutChecksum

end ContractAccount

/-- `Alias.validAliasChar`. -/
def Alias.validAliasChar (c : Char) : Bool :=
  ('0' ≤ c ∧ c ≤ '9') ∨ ('a' ≤ c ∧ c ≤ 'z') ∨ c = '_' ∨ c = '@' ∨ c = '-' ∨ c = '.'

/-- An alias: a name `Alias.buildAlias` accepts, on the current network. -/
structure Alias where
  name : String
  valid : 4 ≤ name.length ∧ name.length ≤ 30 ∧ name.toList.all Alias.validAliasChar
  deriving DecidableEq

/-- The bytes of an alias: its version, the network, and the name with its length. -/
def Alias.bytes (a : Alias) : ByteStr :=
  2 :: chainId :: Deser.serializeArray (Deser.serilizeString a.name)

/-- `AddressOrAlias`. -/
inductive AddressOrAlias where
  | address (a : Address)
  | alias (a : Alias)
  deriving DecidableEq

/-- `AddressOrAlias.bytes`. -/
def AddressOrAlias.bytes : AddressOrAlias → ByteStr
  | .address a => a.bytes
  | .alias a => a.bytes

/-- A public key. -/
structure PublicKeyAccount where
  publicKey : ByteStr
  deriving DecidableEq

/-- `PublicKeyAccount.toAddress`. -/
def PublicKeyAccount.toAddress (pk : PublicKeyAccount) : Address :=
  Address.fromPublicKey pk.publicKey

end Vsys
