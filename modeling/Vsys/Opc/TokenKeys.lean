import Vsys.Opc.Operations

/-!
# The keys of tokens

Every token of a contract keeps its maximum, its total, its unity, its description and one balance
for each address under keys made from its identifier.  All of these keys differ, and no property of
the hash function is needed for it.
-/

namespace Vsys

open Lib

/-- Four bytes are those of the number they are read as. -/
theorem Ints.toByteArray_fromByteArray {data : ByteStr} {x : Int32} (hlength : data.length = 4)
    (h : Ints.fromByteArray data = .ok x) : Ints.toByteArray x = data := by
  rw [Ints.fromByteArray, if_pos (by omega), Except.ok.injEq, ← hlength, List.take_length] at h
  have hlt : BigEndian.decode data < 2 ^ 32 := by
    have := BigEndian.decode_lt data
    rw [hlength] at this
    simpa using this
  rw [Ints.toByteArray, ← h, UInt32.toUInt32_toInt32, UInt32.toNat_ofNat_of_lt' hlt, ← hlength,
    BigEndian.encode_decode]

/-- Different entries of a token have different numbers. -/
theorem TokenKey.id_injective : Function.Injective TokenKey.id := by
  intro x y h
  cases x <;> cases y <;> first | rfl | exact absurd h (by decide)

variable [Platform]

/-- The identifier of a contract's token. -/
def ContractAccount.tokenId (c : ContractAccount) (index : Int32) : ByteStr :=
  let withoutChecksum := [ContractAccount.TokenAddressVersion] ++ (c.bytes.tail).take 21
    ++ Ints.toByteArray index
  withoutChecksum ++ calcCheckSum withoutChecksum

namespace ContractAccount

/-- The bytes of a contract and of an index make the identifier of that token. -/
theorem tokenIdFromBytes_toByteArray (c : ContractAccount) (index : Int32) :
    tokenIdFromBytes c.bytes (Ints.toByteArray index) = .ok (c.tokenId index) := by
  have hlength : c.bytes.tail.length - 4 = 21 := by simp [c.length_bytes]
  rw [tokenIdFromBytes, c.valid, ok_bind, if_pos rfl, hlength]
  rfl

/-- The identifier of a token has 30 bytes. -/
theorem length_tokenId (c : ContractAccount) (index : Int32) : (c.tokenId index).length = 30 := by
  simp [tokenId, c.length_bytes, length_calcCheckSum]

/-- The payload of a contract account's bytes determines the account. -/
theorem eq_of_take_tail {c c' : ContractAccount}
    (h : c.bytes.tail.take 21 = c'.bytes.tail.take 21) : c = c' := by
  have hbytes (c : ContractAccount) : c.bytes = AddressVersion :: c.bytes.tail.take 21
      ++ calcCheckSum (AddressVersion :: c.bytes.tail.take 21) := by
    have hvalid := c.valid
    have hlength := c.length_bytes
    match hb : c.bytes with
    | [] => simp [hb] at hlength
    | [_] => simp [hb] at hlength
    | version :: network :: rest =>
        rw [hb] at hvalid hlength
        simp only [isByteArrayValid, versionedBytesValid, Except.ok.injEq, decide_eq_true_eq,
          hlength] at hvalid
        obtain ⟨rfl, -, -, hsum⟩ := hvalid
        have htake : (AddressVersion :: network :: rest).take 22
            = AddressVersion :: (network :: rest).take 21 := rfl
        rw [htake] at hsum
        rw [List.tail_cons, ← hsum, ← htake, List.take_append_drop]
  apply ContractAccount.ext
  rw [hbytes c, hbytes c', h]

/-- The identifier of a token determines its contract and its index. -/
theorem tokenId_inj {c c' : ContractAccount} {i i' : Int32} (h : c.tokenId i = c'.tokenId i') :
    c = c' ∧ i = i' := by
  have hlength (c : ContractAccount) : (c.bytes.tail.take 21).length = 21 := by
    simp [c.length_bytes]
  unfold tokenId at h
  obtain ⟨hbody, -⟩ := List.append_inj h (by simp [hlength])
  obtain ⟨hhead, hindex⟩ := List.append_inj hbody (by simp [hlength])
  exact ⟨eq_of_take_tail (List.append_cancel_left hhead), Ints.toByteArray_injective hindex⟩

end ContractAccount

/-- An entry of four bytes names the token with its index. -/
theorem tokenIdOf_eq {context : ExecutionContext} {index : DataEntry} {tokenNumber : Int32}
    (hlength : index.data.length = 4) (h : Ints.fromByteArray index.data = .ok tokenNumber) :
    tokenIdOf context index.data = .ok (context.contractId.tokenId tokenNumber) := by
  rw [tokenIdOf, ← Ints.toByteArray_fromByteArray hlength h,
    ContractAccount.tokenIdFromBytes_toByteArray]
  rfl

/-- Keys of token information are equal for one token and one kind of key alone. -/
theorem tokenKey_inj {c c' : ContractAccount} {i i' : Int32} {k k' : TokenKey} :
    tokenKey (c.tokenId i) k = tokenKey (c'.tokenId i') k' ↔ c = c' ∧ i = i' ∧ k = k' := by
  constructor
  · intro h
    obtain ⟨hid, hkey⟩ := List.append_inj h (by rw [c.length_tokenId, c'.length_tokenId])
    obtain ⟨hc, hi⟩ := ContractAccount.tokenId_inj hid
    exact ⟨hc, hi, TokenKey.id_injective (List.cons.inj hkey).1⟩
  · rintro ⟨rfl, rfl, rfl⟩
    rfl

/-- The key of a token balance determines the contract, the index and the account. -/
theorem balanceKey_inj {c c' : ContractAccount} {i i' : Int32} {a a' : Address} :
    balanceKey (c.tokenId i) a.bytes = balanceKey (c'.tokenId i') a'.bytes
      ↔ c = c' ∧ i = i' ∧ a = a' := by
  constructor
  · intro h
    obtain ⟨hid, hkey⟩ := List.append_inj h (by rw [c.length_tokenId, c'.length_tokenId])
    obtain ⟨hc, hi⟩ := ContractAccount.tokenId_inj hid
    exact ⟨hc, hi, Address.ext hkey⟩
  · rintro ⟨rfl, rfl, rfl⟩
    rfl

/-- The key of an entry of a token is not that of a balance. -/
theorem tokenKey_ne_balanceKey {c c' : ContractAccount} {i i' : Int32} {k : TokenKey}
    {a : Address} : tokenKey (c.tokenId i) k ≠ balanceKey (c'.tokenId i') a.bytes := by
  intro h
  have hlength := congrArg List.length h
  simp [tokenKey, balanceKey, ContractAccount.length_tokenId, a.length_bytes] at hlength

end Vsys
