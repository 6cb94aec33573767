import Vsys.Account

/-!
# Proofs

A proof is a Curve25519 public key with a signature.  A transaction carries a list of at most one
of them; the list may be empty, and then the signature check accepts whatever it is asked.
-/

namespace Vsys

open Lib

/-- `EllipticCurve25519Proof`.  The key has the length `Proofs.create` leaves it with. -/
@[ext]
structure EllipticCurve25519Proof where
  publicKey : PublicKeyAccount
  signature : ByteStr
  keyLength : publicKey.publicKey.length = 32
  deriving DecidableEq

namespace EllipticCurve25519Proof

/-- The type byte, the key and the signature. -/
def bytes (p : EllipticCurve25519Proof) : ByteStr := 1 :: p.publicKey.publicKey ++ p.signature

/-- `EllipticCurve25519Proof.fromBytes`. -/
def fromBytes (bytes : ByteStr) : Result EllipticCurve25519Proof :=
  if h : 33 ≤ bytes.length then
    if bytes.head? = some 1 then
      .ok { publicKey := ⟨(bytes.drop 1).take 32⟩
            signature := bytes.drop 33
            keyLength := by simp; omega }
    else left .invalidProofType
  else left .invalidProofLength

theorem length_bytes (p : EllipticCurve25519Proof) :
    p.bytes.length = 33 + p.signature.length := by
  simp only [bytes, List.length_append, List.length_cons, p.keyLength]

/-- The bytes a proof is read from are the proof's own. -/
theorem fromBytes_eq_ok_iff {b : ByteStr} {p : EllipticCurve25519Proof} :
    fromBytes b = .ok p ↔ p.bytes = b := by
  constructor
  · intro h
    unfold fromBytes at h
    split at h
    · split at h
      · rename_i hhead
        obtain rfl := Except.ok.inj h
        obtain ⟨rest, rfl⟩ : ∃ rest, b = 1 :: rest := List.head?_eq_some_iff.mp hhead
        simp [bytes]
      · exact (left_ne_ok.mp h).elim
    · exact (left_ne_ok.mp h).elim
  · rintro rfl
    have hkey := p.keyLength
    have hhead : p.bytes.head? = some 1 := rfl
    rw [fromBytes, dif_pos (by rw [length_bytes]; omega), if_pos hhead, Except.ok.injEq]
    apply EllipticCurve25519Proof.ext
    · apply congrArg PublicKeyAccount.mk
      simp [bytes, hkey]
    · simp [bytes, hkey]

@[simp]
theorem fromBytes_bytes (p : EllipticCurve25519Proof) : fromBytes p.bytes = .ok p :=
  fromBytes_eq_ok_iff.mpr rfl

/-- Reading a list of proofs gives proofs with exactly the bytes that were read. -/
theorem map_bytes_of_mapM {bs : List ByteStr} {ps : List EllipticCurve25519Proof}
    (h : bs.mapM fromBytes = .ok ps) : ps.map bytes = bs := by
  induction bs generalizing ps with
  | nil =>
      rw [List.mapM_nil, pure_eq_ok_iff] at h
      rw [← h]; rfl
  | cons b bs ih =>
      rw [List.mapM_cons] at h
      obtain ⟨p, hp, h⟩ := bind_eq_ok_iff.mp h
      obtain ⟨rest, hrest, h⟩ := bind_eq_ok_iff.mp h
      rw [pure_eq_ok_iff] at h
      rw [← h, List.map_cons, ih hrest, fromBytes_eq_ok_iff.mp hp]

variable [Platform]

/-- `EllipticCurve25519Proof.verifyProof`. -/
def verifyProof (toSign bytes : ByteStr) : Bool :=
  match fromBytes bytes with
  | .ok r => Platform.verify r.signature toSign r.publicKey.publicKey
  | .error _ => false

end EllipticCurve25519Proof

/-- `ProofVerify.verifyProof`; the bytes of a proof start with its type. -/
def ProofVerify.verifyProof [Platform] (toVerify : ByteStr) (p : EllipticCurve25519Proof) : Bool :=
  if p.bytes.head? = some 1 then EllipticCurve25519Proof.verifyProof toVerify p.bytes else false

/-- `Proofs`. -/
@[ext]
structure Proofs where
  proofs : List EllipticCurve25519Proof
  count : proofs.length ≤ 1
  sizes : ∀ p ∈ proofs, p.bytes.length ≤ 97
  deriving DecidableEq

namespace Proofs

/-- `Proofs.MaxProofs`. -/
def MaxProofs : Nat := 1

/-- `Proofs.MaxProofSize`. -/
def MaxProofSize : Nat := 97

/-- `Proofs.empty`. -/
def empty : Proofs where
  proofs := []
  count := Nat.zero_le 1
  sizes := by simp

/-- The version byte and the proofs. -/
def bytes (p : Proofs) : ByteStr :=
  1 :: Deser.serializeArrays (p.proofs.map EllipticCurve25519Proof.bytes)

/-- `Proofs.verifyProofs`. -/
def verifyProofs [Platform] (toVerify : ByteStr) (p : Proofs) : Bool :=
  p.proofs.all (ProofVerify.verifyProof toVerify)

/-- The signer the code reads off the first proof:
`EllipticCurve25519Proof.fromBytes(proofs.head.bytes.arr).toOption.get.publicKey`. -/
def headPublicKey (p : Proofs) : Result PublicKeyAccount := do
  let head ← getOrRaise .noSuchElement p.proofs.head?
  let proof ← rightGet (EllipticCurve25519Proof.fromBytes head.bytes)
  .ok proof.publicKey

theorem headPublicKey_eq_ok_iff {p : Proofs} {k : PublicKeyAccount} :
    p.headPublicKey = .ok k ↔ ∃ proof, p.proofs = [proof] ∧ proof.publicKey = k := by
  unfold headPublicKey
  match hp : p.proofs with
  | [] => simp [getOrRaise, raise]
  | [proof] => simp [getOrRaise, rightGet]
  | proof :: proof' :: rest =>
      have := p.count
      simp [hp] at this

/-- `ProofType.fromByte(bytes.head).get`, which raises for any other type. -/
def checkProofType (bytes : ByteStr) : Result Unit := do
  let b ← getOrRaise .noSuchElement bytes.head?
  if b = 1 then .ok () else raise .noSuchElement

/-- `Proofs.create`. -/
def create (proofsByteStr : List ByteStr) : Result Proofs :=
  if hcount : proofsByteStr.length ≤ MaxProofs then
    if hsizes : ∀ b ∈ proofsByteStr, b.length ≤ MaxProofSize then do
      proofsByteStr.forM checkProofType
      match h : proofsByteStr.mapM EllipticCurve25519Proof.fromBytes with
      | .error e => .error e
      | .ok proofs =>
          have hbytes := EllipticCurve25519Proof.map_bytes_of_mapM h
          .ok { proofs := proofs
                count := by rw [← List.length_map EllipticCurve25519Proof.bytes, hbytes]; exact hcount
                sizes := fun p hp => hsizes p.bytes (hbytes ▸ List.mem_map_of_mem hp) }
    else left (.genericError "Too large proof, must be max 97 bytes")
  else left (.genericError "Too many proofs, max 1 proofs")

end Proofs

end Vsys
