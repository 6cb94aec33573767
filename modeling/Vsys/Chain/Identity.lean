import Vsys.Chain.Coins
import Vsys.Transaction.RoundTrip

/-!
# What an identifier tells apart

The signed bytes of a transaction are its type and its body, and the signer is in the proofs alone.
So the identifier tells bodies apart and nothing else: once a transaction is in the chain, the same
body is turned away whoever signs it, and every other body is let through.
-/

namespace Vsys

open Lib

section Platform

variable [Platform]

theorem LeaseTransaction.notToSelf_empty (recipient : AddressOrAlias) :
    LeaseTransaction.notToSelf recipient Proofs.empty = true := by
  cases recipient <;> rfl

/-- A transaction without its proofs: its type and its body. -/
def Transaction.unsigned : Transaction → Transaction
  | .payment tx => .payment { tx with proofs := Proofs.empty }
  | .lease tx =>
      .lease { tx with
        proofs := Proofs.empty
        not_to_self := LeaseTransaction.notToSelf_empty tx.recipient }
  | .leaseCancel tx => .leaseCancel { tx with proofs := Proofs.empty }
  | .contendSlots tx => .contendSlots { tx with proofs := Proofs.empty }
  | .releaseSlots tx => .releaseSlots { tx with proofs := Proofs.empty }
  | .registerContract tx => .registerContract { tx with proofs := Proofs.empty }
  | .executeContractFunction tx => .executeContractFunction { tx with proofs := Proofs.empty }
  | .dbPut tx => .dbPut { tx with proofs := Proofs.empty }
  | tx => tx

namespace Transaction

variable {tx tx₁ tx₂ : Transaction} {toSign toSign₁ toSign₂ : ByteStr} {proofs proofs₁ proofs₂ : Proofs}

/-- The signer does not change the signed bytes. -/
theorem proven_unsigned (h : tx.proven = some (toSign, proofs)) :
    tx.unsigned.proven = some (toSign, Proofs.empty) := by
  cases tx with
  | genesis | minting | legacy => cases h
  | _ =>
      obtain ⟨rfl, rfl⟩ := Prod.mk.inj (Option.some.inj h)
      rfl

theorem encodable_unsigned (h : tx.Encodable) : tx.unsigned.Encodable := by
  cases tx <;> exact h

theorem id_of_proven (h : tx.proven = some (toSign, proofs)) :
    tx.id = Platform.fastHash toSign := by
  cases tx with
  | genesis | minting | legacy => cases h
  | _ =>
      obtain ⟨rfl, rfl⟩ := Prod.mk.inj (Option.some.inj h)
      rfl

theorem bytes_of_proven (h : tx.proven = some (toSign, proofs)) :
    tx.bytes = toSign ++ proofs.bytes := by
  cases tx with
  | genesis | minting | legacy => cases h
  | _ =>
      obtain ⟨rfl, rfl⟩ := Prod.mk.inj (Option.some.inj h)
      rfl

theorem type_of_proven (h : tx.proven = some (toSign, proofs)) : tx.transactionType.id ≤ 10 := by
  cases tx with
  | genesis | minting | legacy => cases h
  | _ =>
      simp only [transactionType]
      decide

/-- The signed bytes are those of the body, and determine it. -/
theorem toSign_eq_iff (h₁ : tx₁.proven = some (toSign₁, proofs₁))
    (h₂ : tx₂.proven = some (toSign₂, proofs₂)) (hread₁ : tx₁.Encodable)
    (hread₂ : tx₂.Encodable) : toSign₁ = toSign₂ ↔ tx₁.unsigned = tx₂.unsigned := by
  have hproven₁ := proven_unsigned h₁
  have hproven₂ := proven_unsigned h₂
  constructor
  · rintro rfl
    -- without their proofs the two transactions have the same bytes, and are read back from them
    have hbytes : tx₁.unsigned.bytes = tx₂.unsigned.bytes :=
      (bytes_of_proven hproven₁).trans (bytes_of_proven hproven₂).symm
    have hparse₁ := TransactionParser.parseBytes_bytes_of_encodable (type_of_proven hproven₁)
      (encodable_unsigned hread₁)
    have hparse₂ := TransactionParser.parseBytes_bytes_of_encodable (type_of_proven hproven₂)
      (encodable_unsigned hread₂)
    rw [hbytes, hparse₂] at hparse₁
    exact (Except.ok.inj hparse₁).symm
  · intro heq
    rw [heq, hproven₂] at hproven₁
    exact (Prod.mk.inj (Option.some.inj hproven₁)).1.symm

/-- Two signed transactions have the same signed bytes and the same identifier exactly when they
have the same body, whoever has signed them; and with one of them in the chain the duplicate check
lets the other through, if it did before, exactly when their bodies differ. -/
theorem sameIdentity_iff (tx₁ tx₂ : Transaction) {fs : FunctionalitySettings}
    {prev : Option Int64} {timestamp : Int64} {height : Nat} {s : StateView} {d : Diff} (h₁ : tx₁.proven = some (toSign₁, proofs₁))
    (h₂ : tx₂.proven = some (toSign₂, proofs₂)) (hread₁ : tx₁.Encodable) (hread₂ : tx₂.Encodable)
    (hhash : Platform.fastHash toSign₁ = Platform.fastHash toSign₂ → toSign₁ = toSign₂)
    (haccepted : TransactionDiffer.apply fs prev timestamp height s tx₁ = .ok d)
    (hbefore : CommonValidation.disallowDuplicateIds s height tx₂ = .ok ()) :
    (toSign₁ = toSign₂ ↔ tx₁.unsigned = tx₂.unsigned) ∧
      (tx₁.id = tx₂.id ↔ tx₁.unsigned = tx₂.unsigned) ∧
      (CommonValidation.disallowDuplicateIds (CompositeStateReader.view s d.asBlockDiff) height tx₂
        = .ok () ↔ tx₁.unsigned ≠ tx₂.unsigned) := by
  have hsign := toSign_eq_iff h₁ h₂ hread₁ hread₂
  have hid : tx₁.id = tx₂.id ↔ tx₁.unsigned = tx₂.unsigned := by
    rw [← hsign, id_of_proven h₁, id_of_proven h₂]
    exact ⟨hhash, congrArg _⟩
  refine ⟨hsign, hid, ?_⟩
  obtain ⟨-, ⟨c, related, -, rfl⟩, -⟩ := TransactionDiffer.apply_eq_ok haccepted
  have hnew : s.containsTransaction tx₂.id = false := cond_eq_ok_iff.mp hbefore
  rw [CommonValidation.disallowDuplicateIds, cond_eq_ok_iff,
    CompositeStateReader.view_containsTransaction, hnew, Bool.or_false, ne_eq, ← hid]
  -- An accepted transaction is known by its own identifier and brings no other.
  change ((Finmap.singleton tx₁.id _ : Dict _ _).lookup tx₂.id).isSome = false ↔ _
  rw [Dict.lookup_singleton]
  split
  · rename_i heq
    simp [heq]
  · rename_i hne
    simp [Ne.symm hne]

/-- The signed bytes begin with the type. -/
theorem head_of_proven (h : tx.proven = some (toSign, proofs)) :
    toSign.head? = some tx.transactionType.id := by
  cases tx with
  | genesis | minting | legacy => cases h
  | _ =>
      obtain ⟨rfl, rfl⟩ := Prod.mk.inj (Option.some.inj h)
      rfl

/-- A contract that is registered is one the code has read. -/
def ContractAdmitted (tx : Transaction) : Prop :=
  ∀ t, tx = .registerContract t → ∃ bytes, Contract.fromBytes bytes = .ok t.contract

end Transaction

section SignedBytes

omit [Platform] in
/-- The fee, its scale and the timestamp that end the signed bytes. -/
theorem fee_timestamp_inj {fee fee' timestamp timestamp' : Int64} {feeScale feeScale' : Int16}
    (h : Longs.toByteArray fee ++ (Shorts.toByteArray feeScale ++ Longs.toByteArray timestamp)
      = Longs.toByteArray fee' ++ (Shorts.toByteArray feeScale' ++ Longs.toByteArray timestamp')) :
    fee = fee' ∧ feeScale = feeScale' ∧ timestamp = timestamp' := by
  obtain ⟨hfee, h⟩ := List.append_inj h (by simp)
  obtain ⟨hscale, htimestamp⟩ := List.append_inj h (by simp)
  exact ⟨Longs.toByteArray_injective hfee, Shorts.toByteArray_injective hscale,
    Longs.toByteArray_injective htimestamp⟩

/-- A call is told apart by its signed bytes, however long its data are: the attachment is too short
to make up for a prefix that wraps. -/
theorem ExecuteContractFunctionTransaction.toSign_inj {t t' : ExecuteContractFunctionTransaction.Checked}
    (h : t.toSign = t'.toSign) :
    { t with proofs := Proofs.empty } = { t' with proofs := Proofs.empty } := by
  have hlength := congrArg List.length h
  simp only [toSign, List.append_assoc, List.cons_append, List.length_cons, List.length_append,
    ContractAccount.length_bytes, Longs.length_toByteArray, Shorts.length_toByteArray,
    Deser.length_serializeArray] at hlength
  have hshort := t.attachment_length
  have hshort' := t'.attachment_length
  simp only [toSign, List.append_assoc, List.cons_append] at h
  obtain ⟨-, h⟩ := List.cons.inj h
  obtain ⟨hcontract, h⟩ := List.append_inj h (by simp [ContractAccount.length_bytes])
  obtain ⟨hfunc, h⟩ := List.append_inj h (by simp)
  obtain ⟨hdata, h⟩ := Deser.serializeArray_append_inj (by omega) (by omega) h
  obtain ⟨hattachment, h⟩ := Deser.serializeArray_append_inj (by omega) (by omega) h
  obtain ⟨hfee, hscale, htimestamp⟩ := fee_timestamp_inj h
  have hcontractId := ContractAccount.ext hcontract
  have hfuncIdx := Shorts.toByteArray_injective hfunc
  have hentries := DataEntry.serializeArrays_inj t.data_valid t'.data_valid hdata
  cases t
  cases t'
  simp_all

omit [Platform] in
/-- A database entry is told apart by its signed bytes. -/
theorem DbPutTransaction.toSign_inj {t t' : DbPutTransaction} (h : t.toSign = t'.toSign) :
    { t with proofs := Proofs.empty } = { t' with proofs := Proofs.empty } := by
  have hlength := congrArg List.length h
  simp only [toSign, List.append_assoc, List.cons_append, List.length_cons, List.length_append,
    Longs.length_toByteArray, Shorts.length_toByteArray, Deser.length_serializeArray] at hlength
  have hunits (t : DbPutTransaction) : (Deser.serilizeString t.dbKey).length ≤ 120 := by
    have hkey := t.dbKey_length.2
    have hchars := length_le_utf16Length t.dbKey
    have hutf8 := Deser.length_serilizeString_le t.dbKey
    omega
  have hshort := hunits t
  have hshort' := hunits t'
  simp only [toSign, List.append_assoc, List.cons_append] at h
  obtain ⟨-, h⟩ := List.cons.inj h
  obtain ⟨hkey, h⟩ := Deser.serializeArray_append_inj (by omega) (by omega) h
  obtain ⟨hentry, h⟩ := Deser.serializeArray_append_inj (by omega) (by omega) h
  obtain ⟨hfee, hscale, htimestamp⟩ := fee_timestamp_inj h
  have hdbKey := Deser.serilizeString_injective hkey
  have hread := Entry.fromBytes_bytes t.entry
  rw [hentry, Entry.fromBytes_bytes] at hread
  have hsame := Except.ok.inj hread
  cases t
  cases t'
  simp_all

/-- A registration of a contract that the code has read is told apart by its signed bytes, however
long its data are. -/
theorem RegisterContractTransaction.toSign_inj {t t' : RegisterContractTransaction.Checked}
    (hpermitted : t.contract.IsPermitted) (hpermitted' : t'.contract.IsPermitted)
    (h : t.toSign = t'.toSign) :
    { t with proofs := Proofs.empty } = { t' with proofs := Proofs.empty } := by
  have hlength := congrArg List.length h
  simp only [toSign, List.append_assoc, List.cons_append, List.length_cons, List.length_append,
    Longs.length_toByteArray, Shorts.length_toByteArray, Deser.length_serializeArray] at hlength
  have hsmall := hpermitted.length_bytes
  have hsmall' := hpermitted'.length_bytes
  have hshort := t.description_length
  have hshort' := t'.description_length
  simp only [toSign, List.append_assoc, List.cons_append] at h
  obtain ⟨-, h⟩ := List.cons.inj h
  obtain ⟨hcontract, h⟩ := Deser.serializeArray_append_inj (by omega) (by omega) h
  rw [hcontract] at hlength
  obtain ⟨hdata, h⟩ := Deser.serializeArray_append_inj (by omega) (by omega) h
  obtain ⟨hdescription, h⟩ := Deser.serializeArray_append_inj (by omega) (by omega) h
  obtain ⟨hfee, hscale, htimestamp⟩ := fee_timestamp_inj h
  have hread := hpermitted.fromBytes_bytes
  rw [hcontract, hpermitted'.fromBytes_bytes] at hread
  have hsame := Except.ok.inj hread
  have hentries := DataEntry.serializeArrays_inj t.data_valid t'.data_valid hdata
  have htext := Deser.serilizeString_injective hdescription
  cases t
  cases t'
  simp_all

namespace Transaction

variable {tx tx₁ tx₂ : Transaction} {toSign₁ toSign₂ : ByteStr} {proofs₁ proofs₂ : Proofs}

/-- The types without data of their own length can all be read back. -/
theorem encodable_of_type (h : tx.transactionType.id ≤ 7) : tx.Encodable := by
  cases tx with
  | registerContract =>
      exact absurd h (by decide : ¬ TransactionType.registerContractTransaction.id ≤ 7)
  | executeContractFunction =>
      exact absurd h (by decide : ¬ TransactionType.executeContractFunctionTransaction.id ≤ 7)
  | dbPut => exact absurd h (by decide : ¬ TransactionType.dbPutTransaction.id ≤ 7)
  | _ => trivial

theorem type_unsigned (tx : Transaction) : tx.unsigned.transactionType = tx.transactionType := by
  cases tx <;> rfl

/-- The signed bytes determine the body. -/
theorem unsigned_eq_of_toSign (h₁ : tx₁.proven = some (toSign₁, proofs₁))
    (h₂ : tx₂.proven = some (toSign₂, proofs₂)) (hcontract₁ : tx₁.ContractAdmitted)
    (hcontract₂ : tx₂.ContractAdmitted) (hsame : toSign₁ = toSign₂) :
    tx₁.unsigned = tx₂.unsigned := by
  have hid : tx₁.transactionType.id = tx₂.transactionType.id :=
    Option.some.inj ((head_of_proven h₁).symm.trans (hsame ▸ head_of_proven h₂))
  by_cases hplain : tx₁.transactionType.id ≤ 7
  · exact (toSign_eq_iff h₁ h₂ (encodable_of_type hplain)
      (encodable_of_type (hid ▸ hplain))).mp hsame
  · -- the three types whose data may be too long to be read back
    have hproven₂ := type_of_proven h₂
    cases tx₁ with
    | registerContract t =>
        cases tx₂ with
        | registerContract t' =>
            obtain ⟨rfl, -⟩ := Prod.mk.inj (Option.some.inj h₁)
            obtain ⟨rfl, -⟩ := Prod.mk.inj (Option.some.inj h₂)
            obtain ⟨b, hb⟩ := hcontract₁ t rfl
            obtain ⟨b', hb'⟩ := hcontract₂ t' rfl
            exact congrArg registerContract (RegisterContractTransaction.toSign_inj
              (Contract.isPermitted_of_fromBytes hb) (Contract.isPermitted_of_fromBytes hb') hsame)
        | legacy t' => cases h₂
        | _ => cases hid
    | executeContractFunction t =>
        cases tx₂ with
        | executeContractFunction t' =>
            obtain ⟨rfl, -⟩ := Prod.mk.inj (Option.some.inj h₁)
            obtain ⟨rfl, -⟩ := Prod.mk.inj (Option.some.inj h₂)
            exact congrArg executeContractFunction
              (ExecuteContractFunctionTransaction.toSign_inj hsame)
        | legacy t' => cases h₂
        | _ => cases hid
    | dbPut t =>
        cases tx₂ with
        | dbPut t' =>
            obtain ⟨rfl, -⟩ := Prod.mk.inj (Option.some.inj h₁)
            obtain ⟨rfl, -⟩ := Prod.mk.inj (Option.some.inj h₂)
            exact congrArg dbPut (DbPutTransaction.toSign_inj hsame)
        | legacy t' => cases h₂
        | _ => cases hid
    | legacy t => cases h₁
    | _ =>
        simp only [transactionType] at hplain
        exact absurd (by decide) hplain

/-- Two signed transactions with the same signed bytes are of one type and agree in their bodies,
whatever their data are and however long, if the contracts they register are contracts the code
has read; so a signature that is bound to its message is valid for one body at most. -/
theorem signedBytes_inj (tx₁ tx₂ : Transaction) (h₁ : tx₁.proven = some (toSign₁, proofs₁))
    (h₂ : tx₂.proven = some (toSign₂, proofs₂)) (hcontract₁ : tx₁.ContractAdmitted)
    (hcontract₂ : tx₂.ContractAdmitted) :
    (toSign₁ = toSign₂ →
      tx₁.transactionType = tx₂.transactionType ∧ tx₁.unsigned = tx₂.unsigned) ∧
    ∀ p : EllipticCurve25519Proof,
      (∀ m m', ProofVerify.verifyProof m p = true → ProofVerify.verifyProof m' p = true → m = m') →
      ProofVerify.verifyProof toSign₁ p = true → ProofVerify.verifyProof toSign₂ p = true →
        tx₁.unsigned = tx₂.unsigned := by
  have hbody := unsigned_eq_of_toSign h₁ h₂ hcontract₁ hcontract₂
  refine ⟨fun hsame => ⟨?_, hbody hsame⟩, fun p hbound hp hp' => hbody (hbound _ _ hp hp')⟩
  rw [← type_unsigned tx₁, hbody hsame, type_unsigned]

end Transaction

end SignedBytes

end Platform

namespace Sample

/-- The proof of another key. -/
def otherProofs : Proofs := ⟨[⟨⟨List.replicate 32 1⟩, [], rfl⟩], by decide, by decide⟩

/-- A payment back to the owner, with the proof of either key. -/
def payment (timestamp : Int64) (proofs : Proofs) : PaymentTransaction :=
  ⟨owner, 5, 100, 100, timestamp, [], proofs, noAttachment_length, amount_pos, fee_pos, amount_fee,
    feeScale_eq⟩

/-- The effect of the owner's payment. -/
def paymentDiff : Diff :=
  okOr (TransactionDiffer.apply fs none 1 2 afterGenesis.1.toStateView
    (.payment (payment 1 fullProofs))) Diff.empty

theorem apply_payment : TransactionDiffer.apply fs none 1 2 afterGenesis.1.toStateView
    (.payment (payment 1 fullProofs)) = .ok paymentDiff :=
  eq_ok_okOr (by decide +kernel)

/-- A payment at another time is let through. -/
theorem otherPayment_allowed : CommonValidation.disallowDuplicateIds
    (CompositeStateReader.view afterGenesis.1.toStateView paymentDiff.asBlockDiff) 2
      (.payment (payment 2 otherProofs)) = .ok () := by
  have h := Transaction.sameIdentity_iff (.payment (payment 1 fullProofs))
    (.payment (payment 2 otherProofs)) rfl rfl trivial trivial (by decide +kernel)
    apply_payment (by decide +kernel)
  exact h.2.2.mpr (by decide)

/-- Two keys sign the same payment: the signed bytes and the identifier are the same, and with one
in the chain the other is turned away. -/
theorem samePayment_rejected :
    (payment 1 fullProofs).proofs.headPublicKey ≠ (payment 1 otherProofs).proofs.headPublicKey ∧
    (∀ p ∈ [fullProofs, otherProofs],
      PaymentTransaction.createWithProof owner 5 100 100 1 [] p = .ok (payment 1 p)) ∧
    (payment 1 fullProofs).toSign = (payment 1 otherProofs).toSign ∧
    CommonValidation.disallowDuplicateIds
      (CompositeStateReader.view afterGenesis.1.toStateView paymentDiff.asBlockDiff) 2
        (.payment (payment 1 otherProofs)) ≠ .ok () := by
  decide +kernel

/-- A registration without a description. -/
def registers (contract : Contract) (data : List DataEntry) : RegisterContractTransaction :=
  ⟨contract, data, "", 100, 100, 1, fullProofs, noDescription_length, fee_pos, feeScale_eq⟩

/-- A registration of a permitted contract at a time. -/
def registersAt (timestamp : Int64) : RegisterContractTransaction.Checked :=
  ⟨{ registers ContractPermitted.contract [] with timestamp := timestamp }, noData_valid⟩

/-- Two registrations of a permitted contract at different times have different signed bytes. -/
theorem registration_apart : (registersAt 2).toSign ≠ (registersAt 1).toSign := by
  intro hsame
  have hadmitted (timestamp : Int64) :
      (Transaction.registerContract (registersAt timestamp)).ContractAdmitted := by
    intro t' ht'
    obtain rfl := Transaction.registerContract.inj ht'
    exact ⟨_, Contract.fromBytes_contract⟩
  have hbody := ((Transaction.signedBytes_inj (.registerContract (registersAt 2))
    (.registerContract (registersAt 1)) rfl rfl (hadmitted 2) (hadmitted 1)).1 hsame).2
  exact absurd (congrArg Transaction.timestamp hbody) (by decide)

/-- The builder of contracts does not check where the language code ends and the version begins, so
two contracts have the same bytes, and two registrations the same signed bytes.  No constructor checks
data entries either: two lists of amounts of the wrong length have the same bytes too. -/
theorem registration_ambiguous :
    let codes : Contract := ⟨[1, 2], [3], [], [], [], []⟩
    let versions : Contract := ⟨[1], [2, 3], [], [], [], []⟩
    let short : List DataEntry := [⟨[3], .amount⟩, ⟨[], .amount⟩]
    let shorter : List DataEntry := [⟨[], .amount⟩, ⟨[3], .amount⟩]
    codes ≠ versions ∧ short ≠ shorter ∧
    (∀ contract ∈ [codes, versions], ∀ data ∈ [[], short, shorter],
      RegisterContractTransaction.createWithProof contract data "" 100 100 1 fullProofs
        = .ok (registers contract data)) ∧
    (registers codes []).toSign = (registers versions []).toSign ∧
    ∀ contract, (registers contract short).toSign = (registers contract shorter).toSign := by
  refine ⟨by decide, by decide, by decide +kernel, by decide +kernel, fun contract => ?_⟩
  have hdata : DataEntry.serializeArrays [⟨[3], .amount⟩, ⟨[], .amount⟩]
      = DataEntry.serializeArrays [⟨[], .amount⟩, ⟨[3], .amount⟩] := by decide
  simp only [RegisterContractTransaction.toSign, registers, hdata]

end Sample

end Vsys
