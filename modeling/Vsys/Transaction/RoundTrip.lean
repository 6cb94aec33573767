import Vsys.Sample
import Vsys.Transaction.Fields

/-!
# Transactions read back from their bytes

Every encoder puts its fields one after another, and every decoder finds them at the sums of their
lengths.  So a transaction comes back from its bytes when its contract is a permitted one, its data
entries pass their own check, and the data and the database entry fit their length prefixes; and
whatever the parser returns is such a transaction.  The constructors ask for none of this.
-/

namespace Vsys

open Lib

section Platform

variable [Platform]

/-- A genesis transaction is read back from the bytes behind its type. -/
theorem GenesisTransaction.parseTail_bytes (tx : GenesisTransaction) :
    GenesisTransaction.parseTail tx.bytes.tail = .ok tx := by
  have hparts : tx.bytes.tail = [Longs.toByteArray tx.timestamp, tx.recipient.bytes,
      Longs.toByteArray tx.amount, Ints.toByteArray tx.slotId].flatten := by
    simp [GenesisTransaction.bytes]
  obtain ⟨htimestamp, hrecipient, hamount, hslot, hend⟩ := parts_of_eq hparts
  have haddress := tx.recipient.length_bytes
  simp only [Longs.length_toByteArray, Ints.length_toByteArray, haddress, Parts]
    at hrecipient hamount hslot hend
  rw [parseTail, if_neg (by omega), htimestamp.long (by omega) (by omega),
    hrecipient.slice (by omega) (by omega), hamount.long (by omega) (by omega),
    hslot.int (by omega) (by omega)]
  simp only [ok_bind, Address.fromBytes_bytes, create, dif_pos tx.amount_nonneg]

/-- A minting transaction is read back from the bytes behind its type. -/
theorem MintingTransaction.parseTail_bytes (tx : MintingTransaction) :
    MintingTransaction.parseTail tx.toSign.tail = .ok tx := by
  have hparts : tx.toSign.tail = [Longs.toByteArray tx.timestamp, tx.recipient.bytes,
      Longs.toByteArray tx.amount, Ints.toByteArray tx.currentBlockHeight].flatten := by
    simp [MintingTransaction.toSign]
  obtain ⟨htimestamp, hrecipient, hamount, hheight, hend⟩ := parts_of_eq hparts
  have haddress := tx.recipient.length_bytes
  simp only [Longs.length_toByteArray, Ints.length_toByteArray, haddress, Parts]
    at hrecipient hamount hheight hend
  rw [parseTail, if_neg (by omega), htimestamp.long (by omega) (by omega),
    hrecipient.slice (by omega) (by omega), hamount.long (by omega) (by omega),
    hheight.int (by omega) (by omega)]
  simp only [ok_bind, Address.fromBytes_bytes, create, dif_pos tx.amount_eq]

/-- A payment is read back from the bytes behind its type. -/
theorem PaymentTransaction.parseTail_bytes (tx : PaymentTransaction) :
    PaymentTransaction.parseTail (tx.toSign ++ tx.proofs.bytes).tail = .ok tx := by
  have hparts : (tx.toSign ++ tx.proofs.bytes).tail = [Longs.toByteArray tx.timestamp,
      Longs.toByteArray tx.amount, Longs.toByteArray tx.fee, Shorts.toByteArray tx.feeScale,
      tx.recipient.bytes, Deser.serializeArray tx.attachment, tx.proofs.bytes].flatten := by
    simp [PaymentTransaction.toSign]
  obtain ⟨htimestamp, hamount, hfee, hscale, hrecipient, hattachment, hproofs, hend⟩ :=
    parts_of_eq hparts
  have haddress := tx.recipient.length_bytes
  have hlength := tx.attachment_length
  simp only [Longs.length_toByteArray, Shorts.length_toByteArray, Deser.length_serializeArray,
    haddress, Parts] at hamount hfee hscale hrecipient hattachment hproofs hend
  rw [parseTail, htimestamp.long (by omega) (by omega), hamount.long (by omega) (by omega),
    hfee.long (by omega) (by omega), hscale.short (by omega) (by omega),
    hrecipient.slice (by omega) (by omega)]
  simp only [ok_bind, Address.fromBytes_bytes]
  rw [hattachment.array (by omega) (by omega)]
  simp only [ok_bind]
  rw [hproofs.slice (by omega) (by omega)]
  simp only [ok_bind, Proofs.fromBytes_bytes]
  rw [createWithProof, dif_pos tx.attachment_length, dif_pos tx.amount_pos, dif_pos tx.fee_pos,
    dif_pos tx.no_overflow, dif_pos tx.feeScale_eq]

/-- A lease is read back from the bytes behind its type. -/
theorem LeaseTransaction.parseTail_bytes (tx : LeaseTransaction) :
    LeaseTransaction.parseTail (tx.toSign ++ tx.proofs.bytes).tail = .ok tx := by
  have hparts : (tx.toSign ++ tx.proofs.bytes).tail = [tx.recipient.bytes,
      Longs.toByteArray tx.amount, Longs.toByteArray tx.fee, Shorts.toByteArray tx.feeScale,
      Longs.toByteArray tx.timestamp, tx.proofs.bytes].flatten := by
    simp [LeaseTransaction.toSign]
  obtain ⟨hrecipient, hamount, hfee, hscale, htimestamp, hproofs, hend⟩ := parts_of_eq hparts
  simp only [Longs.length_toByteArray, Shorts.length_toByteArray, Parts]
    at hamount hfee hscale htimestamp hproofs hend
  rw [parseTail, AddressOrAlias.fromBytes_bytes hrecipient]
  simp only [ok_bind]
  rw [hamount.long (by omega) (by omega), hfee.long (by omega) (by omega),
    hscale.short (by omega) (by omega), htimestamp.long (by omega) (by omega),
    hproofs.slice (by omega) (by omega)]
  simp only [ok_bind, Proofs.fromBytes_bytes]
  rw [createWithProof, dif_pos tx.amount_pos, dif_pos tx.no_overflow, dif_pos tx.fee_pos,
    dif_pos tx.feeScale_eq, dif_pos tx.not_to_self]

omit [Platform] in
/-- A cancellation is read back from the bytes behind its type. -/
theorem LeaseCancelTransaction.parseTail_bytes (tx : LeaseCancelTransaction) :
    LeaseCancelTransaction.parseTail (tx.toSign ++ tx.proofs.bytes).tail = .ok tx := by
  have hparts : (tx.toSign ++ tx.proofs.bytes).tail = [Longs.toByteArray tx.fee,
      Shorts.toByteArray tx.feeScale, Longs.toByteArray tx.timestamp, tx.leaseId,
      tx.proofs.bytes].flatten := by
    simp [LeaseCancelTransaction.toSign]
  obtain ⟨hfee, hscale, htimestamp, hlease, hproofs, hend⟩ := parts_of_eq hparts
  have hid := tx.leaseId_length
  simp only [Longs.length_toByteArray, Shorts.length_toByteArray, hid, Parts]
    at hscale htimestamp hlease hproofs hend
  rw [parseTail, hfee.long (by omega) (by omega), hscale.short (by omega) (by omega),
    htimestamp.long (by omega) (by omega), hlease.slice (by omega) (by omega),
    hproofs.slice (by omega) (by omega)]
  simp only [ok_bind, Proofs.fromBytes_bytes]
  rw [createWithProof, dif_pos tx.leaseId_length, dif_pos tx.fee_pos, dif_pos tx.feeScale_eq]

/-- The fields of a slot transaction are read back from the bytes behind its type, whichever it
is. -/
theorem SlotTransaction.parseTail_bytes (transactionType : TransactionType)
    (tx : SlotTransaction) :
    SlotTransaction.parseTail (tx.toSign transactionType ++ tx.proofs.bytes).tail = .ok tx := by
  have hparts : (tx.toSign transactionType ++ tx.proofs.bytes).tail = [Ints.toByteArray tx.slotId,
      Longs.toByteArray tx.fee, Shorts.toByteArray tx.feeScale, Longs.toByteArray tx.timestamp,
      tx.proofs.bytes].flatten := by
    simp [SlotTransaction.toSign]
  obtain ⟨hslot, hfee, hscale, htimestamp, hproofs, hend⟩ := parts_of_eq hparts
  simp only [Ints.length_toByteArray, Longs.length_toByteArray, Shorts.length_toByteArray, Parts]
    at hfee hscale htimestamp hproofs hend
  rw [parseTail, hslot.int (by omega) (by omega), hfee.long (by omega) (by omega),
    hscale.short (by omega) (by omega), htimestamp.long (by omega) (by omega),
    hproofs.slice (by omega) (by omega)]
  simp only [ok_bind, Proofs.fromBytes_bytes]
  rw [create, dif_pos tx.fee_pos, dif_pos tx.feeScale_eq, dif_pos tx.slot_gap]

/-- A contention is read back from the bytes behind its type. -/
theorem ContendSlotsTransaction.parseTail_bytes (tx : ContendSlotsTransaction) :
    ContendSlotsTransaction.parseTail (tx.toSign ++ tx.proofs.bytes).tail = .ok tx := by
  rw [parseTail, toSign, SlotTransaction.parseTail_bytes]
  rfl

/-- A release is read back from the bytes behind its type. -/
theorem ReleaseSlotsTransaction.parseTail_bytes (tx : ReleaseSlotsTransaction) :
    ReleaseSlotsTransaction.parseTail (tx.toSign ++ tx.proofs.bytes).tail = .ok tx := by
  rw [parseTail, toSign, SlotTransaction.parseTail_bytes]
  rfl

/-- The contracts `Contract.fromBytes` admits. -/
def Contract.IsPermitted (c : Contract) : Prop :=
  c = ContractPermitted.contract ∨ c = ContractPermitted.contractWithoutSplit

instance (c : Contract) : Decidable c.IsPermitted := inferInstanceAs (Decidable (_ ∨ _))

namespace Contract

omit [Platform] in
/-- The length of a permitted contract fits a short number. -/
theorem IsPermitted.length_bytes {c : Contract} (h : c.IsPermitted) : c.bytes.length ≤ 32767 := by
  obtain rfl | rfl := h
  · exact permitted_evaluates.1.2
  · exact permitted_evaluates.2.2

omit [Platform] in
/-- A permitted contract is read back from its bytes. -/
theorem IsPermitted.fromBytes_bytes {c : Contract} (h : c.IsPermitted) :
    fromBytes c.bytes = .ok c := by
  obtain rfl | rfl := h
  · exact fromBytes_contract
  · exact fromBytes_contractWithoutSplit

omit [Platform] in
/-- Whatever is read as a contract is permitted. -/
theorem isPermitted_of_fromBytes {b : ByteStr} {c : Contract} (h : fromBytes b = .ok c) :
    c.IsPermitted := by
  have hbytes : b = ContractPermitted.contract.bytes ∨
      b = ContractPermitted.contractWithoutSplit.bytes := by
    unfold fromBytes at h
    simp only at h
    split at h
    · rename_i contract hcontract
      obtain ⟨fields, -, hvalid⟩ := bind_eq_ok_iff.mp hcontract
      obtain ⟨valid, hvalid, hend⟩ := bind_eq_ok_iff.mp hvalid
      cases valid with
      | false => exact (left_ne_ok.mp hend).elim
      | true =>
          unfold isByteArrayValid at hvalid
          split at hvalid
          · cases hvalid
          · rename_i hnot
            by_contra hother
            exact hnot ⟨fun heq => hother (.inl heq), fun heq => hother (.inr heq)⟩
    · cases h
  obtain rfl | rfl := hbytes
  · rw [fromBytes_contract] at h
    exact .inl (Except.ok.inj h).symm
  · rw [fromBytes_contractWithoutSplit] at h
    exact .inr (Except.ok.inj h).symm

end Contract

omit [Platform] in
/-- A database entry is read back from its bytes. -/
theorem Entry.fromBytes_bytes (e : Entry) : Entry.fromBytes e.bytes = .ok e := by
  change (Deser.deserilizeString (Deser.serilizeString e.data) >>= Entry.buildEntry) = _
  rw [Deser.deserilizeString_serilizeString, ok_bind, buildEntry, dif_pos e.maxLength]

omit [Platform] in
/-- The bytes an entry is read from are the entry's own. -/
theorem Entry.bytes_of_fromBytes {b : ByteStr} {e : Entry} (h : Entry.fromBytes b = .ok e) :
    e.bytes = b := by
  unfold fromBytes at h
  split at h
  · exact (left_ne_ok.mp h).elim
  · obtain ⟨text, htext, h⟩ := bind_eq_ok_iff.mp h
    unfold buildEntry at h
    split at h
    · obtain rfl := Except.ok.inj h
      rw [bytes, Deser.serilizeString_of_deserilizeString htext]
      rfl
    · exact (left_ne_ok.mp h).elim
  · exact (left_ne_ok.mp h).elim

/-- A registration of a permitted contract with valid data is read back if the data is not too
long. -/
theorem RegisterContractTransaction.parseTail_bytes {tx : RegisterContractTransaction}
    (hcontract : tx.contract.IsPermitted) (hvalid : ValidData tx.data)
    (hdata : (DataEntry.serializeArrays tx.data).length ≤ 32767) :
    RegisterContractTransaction.parseTail (tx.toSign ++ tx.proofs.bytes).tail = .ok tx := by
  have hparts : (tx.toSign ++ tx.proofs.bytes).tail = [Deser.serializeArray tx.contract.bytes,
      Deser.serializeArray (DataEntry.serializeArrays tx.data),
      Deser.serializeArray (Deser.serilizeString tx.description), Longs.toByteArray tx.fee,
      Shorts.toByteArray tx.feeScale, Longs.toByteArray tx.timestamp, tx.proofs.bytes].flatten := by
    simp [RegisterContractTransaction.toSign]
  obtain ⟨hbytes, hentries, hdescription, hfee, hscale, htimestamp, hproofs, hend⟩ :=
    parts_of_eq hparts
  have hlength := tx.description_length
  have hcount := (DataEntry.length_le_length_serializeArrays tx.data).trans hdata
  simp only [Longs.length_toByteArray, Shorts.length_toByteArray, Deser.length_serializeArray,
    Parts] at hentries hdescription hfee hscale htimestamp hproofs hend
  rw [parseTail, hbytes.array hcontract.length_bytes (by omega)]
  simp only [ok_bind, hcontract.fromBytes_bytes]
  rw [hentries.array hdata (by omega)]
  simp only [ok_bind, DataEntry.parseArrays_serializeArrays hvalid hcount]
  rw [hdescription.array (by omega) (by omega)]
  simp only [ok_bind, Deser.deserilizeString_serilizeString]
  rw [hfee.long (by omega) (by omega), hscale.short (by omega) (by omega),
    htimestamp.long (by omega) (by omega), hproofs.slice (by omega) (by omega)]
  simp only [ok_bind, Proofs.fromBytes_bytes]
  rw [createWithProof, dif_pos tx.description_length, dif_pos tx.fee_pos, dif_pos tx.feeScale_eq]

/-- A call with valid data is read back if the data is not too long. -/
theorem ExecuteContractFunctionTransaction.parseTail_bytes
    {tx : ExecuteContractFunctionTransaction} (hvalid : ValidData tx.data)
    (hdata : (DataEntry.serializeArrays tx.data).length ≤ 32767) :
    ExecuteContractFunctionTransaction.parseTail (tx.toSign ++ tx.proofs.bytes).tail
      = .ok tx := by
  have hparts : (tx.toSign ++ tx.proofs.bytes).tail = [tx.contractId.bytes,
      Shorts.toByteArray tx.funcIdx, Deser.serializeArray (DataEntry.serializeArrays tx.data),
      Deser.serializeArray tx.attachment, Longs.toByteArray tx.fee,
      Shorts.toByteArray tx.feeScale, Longs.toByteArray tx.timestamp, tx.proofs.bytes].flatten := by
    simp [ExecuteContractFunctionTransaction.toSign]
  obtain ⟨hcontract, hfunc, hentries, hattachment, hfee, hscale, htimestamp, hproofs, hend⟩ :=
    parts_of_eq hparts
  have hlength := tx.attachment_length
  have hcount := (DataEntry.length_le_length_serializeArrays tx.data).trans hdata
  have haccount := tx.contractId.length_bytes
  simp only [Longs.length_toByteArray, Shorts.length_toByteArray, Deser.length_serializeArray,
    haccount, Parts] at hfunc hentries hattachment hfee hscale htimestamp hproofs hend
  rw [parseTail, hcontract.slice (by omega) (by omega), hfunc.short (by omega) (by omega),
    hentries.array hdata (by omega)]
  simp only [ok_bind, ContractAccount.fromBytes_bytes,
    DataEntry.parseArrays_serializeArrays hvalid hcount]
  rw [hattachment.array (by omega) (by omega)]
  simp only [ok_bind]
  rw [hfee.long (by omega) (by omega), hscale.short (by omega) (by omega),
    htimestamp.long (by omega) (by omega), hproofs.slice (by omega) (by omega)]
  simp only [ok_bind, Proofs.fromBytes_bytes]
  rw [createWithProof, dif_pos tx.attachment_length, dif_pos tx.fee_pos, dif_pos tx.feeScale_eq]

omit [Platform] in
/-- A database transaction is read back if its entry is not too long. -/
theorem DbPutTransaction.parseTail_bytes {tx : DbPutTransaction}
    (hentry : tx.entry.bytes.length ≤ 32767) :
    DbPutTransaction.parseTail (tx.toSign ++ tx.proofs.bytes).tail = .ok tx := by
  have hparts : (tx.toSign ++ tx.proofs.bytes).tail = [
      Deser.serializeArray (Deser.serilizeString tx.dbKey), Deser.serializeArray tx.entry.bytes,
      Longs.toByteArray tx.fee, Shorts.toByteArray tx.feeScale, Longs.toByteArray tx.timestamp,
      tx.proofs.bytes].flatten := by
    simp [DbPutTransaction.toSign]
  obtain ⟨hkey, hbytes, hfee, hscale, htimestamp, hproofs, hend⟩ := parts_of_eq hparts
  have hlength := tx.dbKey_length.2
  have hunits := length_le_utf16Length tx.dbKey
  have hutf8 := Deser.length_serilizeString_le tx.dbKey
  simp only [Longs.length_toByteArray, Shorts.length_toByteArray, Deser.length_serializeArray,
    Parts] at hbytes hfee hscale htimestamp hproofs hend
  rw [parseTail, hkey.array (by omega) (by omega)]
  simp only [ok_bind, Deser.deserilizeString_serilizeString]
  rw [hbytes.array hentry (by omega)]
  simp only [ok_bind, Entry.fromBytes_bytes]
  rw [hfee.long (by omega) (by omega), hscale.short (by omega) (by omega),
    htimestamp.long (by omega) (by omega), hproofs.slice (by omega) (by omega)]
  simp only [ok_bind, Proofs.fromBytes_bytes]
  rw [create, dif_pos tx.dbKey_length, dif_pos tx.fee_pos, dif_pos tx.feeScale_eq]

/-- The transactions that can be read back: those that register a permitted contract, whose data is
at most 32767 bytes long, and whose database entry is. -/
def Transaction.Encodable : Transaction → Prop
  | .registerContract tx =>
      tx.contract.IsPermitted ∧ (DataEntry.serializeArrays tx.data).length ≤ 32767
  | .executeContractFunction tx => (DataEntry.serializeArrays tx.data).length ≤ 32767
  | .dbPut tx => tx.entry.bytes.length ≤ 32767
  | _ => True

/-- A registration that is read can be read back. -/
theorem RegisterContractTransaction.Checked.encodable_of_parseTail {data : ByteStr}
    {tx : RegisterContractTransaction.Checked}
    (h : RegisterContractTransaction.Checked.parseTail data = .ok tx) :
    (Transaction.registerContract tx).Encodable := by
  obtain ⟨contractBytes, contractEnd, dataBytes, dataEnd, hcontract, hbytes, hentries⟩ :=
    RegisterContractTransaction.parseTail_eq_ok (parseTail_eq_ok_iff.mp h)
  exact ⟨Contract.isPermitted_of_fromBytes hcontract,
    (DataEntry.length_of_parseArrays hentries).trans (Deser.length_parseArraySize hbytes)⟩

/-- A call that is read can be read back. -/
theorem ExecuteContractFunctionTransaction.Checked.encodable_of_parseTail {data : ByteStr}
    {tx : ExecuteContractFunctionTransaction.Checked}
    (h : ExecuteContractFunctionTransaction.Checked.parseTail data = .ok tx) :
    (Transaction.executeContractFunction tx).Encodable := by
  obtain ⟨dataBytes, dataEnd, hbytes, hentries⟩ :=
    ExecuteContractFunctionTransaction.parseTail_eq_ok (parseTail_eq_ok_iff.mp h)
  exact (DataEntry.length_of_parseArrays hentries).trans (Deser.length_parseArraySize hbytes)

/-- A database transaction that is read can be read back. -/
theorem DbPutTransaction.encodable_of_parseTail {data : ByteStr} {tx : DbPutTransaction}
    (h : DbPutTransaction.parseTail data = .ok tx) : (Transaction.dbPut tx).Encodable := by
  obtain ⟨⟨dbKeyBytes, dbKeyEnd⟩, -, h⟩ := bind_eq_ok_iff.mp h
  obtain ⟨dbKey, -, h⟩ := bind_eq_ok_iff.mp h
  obtain ⟨⟨dbEntryBytes, dbEntryEnd⟩, hbytes, h⟩ := bind_eq_ok_iff.mp h
  obtain ⟨dbEntry, hentry, h⟩ := bind_eq_ok_iff.mp h
  obtain ⟨fee, -, h⟩ := bind_eq_ok_iff.mp h
  obtain ⟨feeScale, -, h⟩ := bind_eq_ok_iff.mp h
  obtain ⟨timestamp, -, h⟩ := bind_eq_ok_iff.mp h
  obtain ⟨proofs, -, h⟩ := bind_eq_ok_iff.mp h
  simp only [create] at h
  split_ifs at h
  · obtain rfl := Except.ok.inj h
    have hlength := Deser.length_parseArraySize hbytes
    rwa [← Entry.bytes_of_fromBytes hentry] at hlength
  all_goals cases h

namespace TransactionParser

/-- Whatever the parser returns can be read back. -/
theorem encodable_of_parseBytes {data : ByteStr} {tx : Transaction}
    (h : parseBytes data = .ok tx) : tx.Encodable := by
  unfold parseBytes at h
  split at h
  · cases h
  all_goals obtain ⟨tx', htx, rfl⟩ := map_eq_ok_iff.mp h
  case h_9 => exact tx'.encodable_of_parseTail htx
  case h_10 => exact tx'.encodable_of_parseTail htx
  case h_11 => exact tx'.encodable_of_parseTail htx
  all_goals exact trivial

/-- A transaction that can be read back is. -/
theorem parseBytes_bytes_of_encodable {tx : Transaction} (hlegacy : tx.transactionType.id ≤ 10)
    (h : tx.Encodable) : parseBytes tx.bytes = .ok tx := by
  cases tx with
  | genesis tx => exact congrArg (Transaction.genesis <$> ·) tx.parseTail_bytes
  | payment tx =>
      have hbytes : (Transaction.payment tx).bytes
          = TransactionType.paymentTransaction.id :: (tx.toSign ++ tx.proofs.bytes).tail := by
        simp only [Transaction.bytes, PaymentTransaction.toSign, List.cons_append, List.tail_cons]
      rw [hbytes]
      exact congrArg (Transaction.payment <$> ·) tx.parseTail_bytes
  | lease tx => exact congrArg (Transaction.lease <$> ·) tx.parseTail_bytes
  | leaseCancel tx => exact congrArg (Transaction.leaseCancel <$> ·) tx.parseTail_bytes
  | minting tx => exact congrArg (Transaction.minting <$> ·) tx.parseTail_bytes
  | contendSlots tx => exact congrArg (Transaction.contendSlots <$> ·) tx.parseTail_bytes
  | releaseSlots tx => exact congrArg (Transaction.releaseSlots <$> ·) tx.parseTail_bytes
  | registerContract tx =>
      exact congrArg (Transaction.registerContract <$> ·)
        (RegisterContractTransaction.Checked.parseTail_eq_ok_iff.mpr
          (RegisterContractTransaction.parseTail_bytes h.1 tx.data_valid h.2))
  | executeContractFunction tx =>
      exact congrArg (Transaction.executeContractFunction <$> ·)
        (ExecuteContractFunctionTransaction.Checked.parseTail_eq_ok_iff.mpr
          (ExecuteContractFunctionTransaction.parseTail_bytes tx.data_valid h))
  | dbPut tx =>
      exact congrArg (Transaction.dbPut <$> ·) (DbPutTransaction.parseTail_bytes h)
  | legacy tx => exact absurd (Int8.le_trans tx.legacy hlegacy) (by decide)

/-- A transaction of a node is read back from its bytes exactly when it registers no contract but a
permitted one and its data and its entry fit their prefixes. -/
theorem parseBytes_bytes_iff {tx : Transaction} (hlegacy : tx.transactionType.id ≤ 10) :
    parseBytes tx.bytes = .ok tx ↔ tx.Encodable :=
  ⟨encodable_of_parseBytes, parseBytes_bytes_of_encodable hlegacy⟩

/-- Whatever is read from the bytes of a transaction has its type. -/
theorem type_of_parseBytes_bytes {tx tx' : Transaction} (hlegacy : tx.transactionType.id ≤ 10)
    (h : parseBytes tx.bytes = .ok tx') : tx'.transactionType = tx.transactionType := by
  cases tx with
  | legacy tx => exact absurd (Int8.le_trans tx.legacy hlegacy) (by decide)
  | _ =>
      obtain ⟨_, -, rfl⟩ := map_eq_ok_iff.mp h
      rfl

end TransactionParser

/-- A transaction of one of the ten types of the chain, as its constructor makes it: a contract
transaction has whatever data entries the constructor was given. -/
inductive CreatedTransaction where
  | genesis (tx : GenesisTransaction)
  | payment (tx : PaymentTransaction)
  | lease (tx : LeaseTransaction)
  | leaseCancel (tx : LeaseCancelTransaction)
  | minting (tx : MintingTransaction)
  | contendSlots (tx : ContendSlotsTransaction)
  | releaseSlots (tx : ReleaseSlotsTransaction)
  | registerContract (tx : RegisterContractTransaction)
  | executeContractFunction (tx : ExecuteContractFunctionTransaction)
  | dbPut (tx : DbPutTransaction)

/-- What a transaction of a node is among those that can be created; the older types cannot. -/
def Transaction.created : Transaction → Option CreatedTransaction
  | genesis tx => some (.genesis tx)
  | payment tx => some (.payment tx)
  | lease tx => some (.lease tx)
  | leaseCancel tx => some (.leaseCancel tx)
  | minting tx => some (.minting tx)
  | contendSlots tx => some (.contendSlots tx)
  | releaseSlots tx => some (.releaseSlots tx)
  | registerContract tx => some (.registerContract tx.toRegisterContractTransaction)
  | executeContractFunction tx =>
      some (.executeContractFunction tx.toExecuteContractFunctionTransaction)
  | dbPut tx => some (.dbPut tx)
  | legacy _ => none

namespace CreatedTransaction

/-- `bytes`. -/
def bytes : CreatedTransaction → ByteStr
  | genesis tx => tx.bytes
  | payment tx => tx.toSign ++ tx.proofs.bytes
  | lease tx => tx.toSign ++ tx.proofs.bytes
  | leaseCancel tx => tx.toSign ++ tx.proofs.bytes
  | minting tx => tx.toSign
  | contendSlots tx => tx.toSign ++ tx.proofs.bytes
  | releaseSlots tx => tx.toSign ++ tx.proofs.bytes
  | registerContract tx => tx.toSign ++ tx.proofs.bytes
  | executeContractFunction tx => tx.toSign ++ tx.proofs.bytes
  | dbPut tx => tx.toSign ++ tx.proofs.bytes

/-- The created transactions that can be read back: those that register a permitted contract, whose
data entries pass their own check and are at most 32767 bytes long, and whose database entry is. -/
def Encodable : CreatedTransaction → Prop
  | registerContract tx => tx.contract.IsPermitted ∧ ValidData tx.data ∧
      (DataEntry.serializeArrays tx.data).length ≤ 32767
  | executeContractFunction tx => ValidData tx.data ∧
      (DataEntry.serializeArrays tx.data).length ≤ 32767
  | dbPut tx => tx.entry.bytes.length ≤ 32767
  | _ => True

variable {c : CreatedTransaction} {tx : Transaction}

/-- A transaction has the same bytes as the transaction its constructor created. -/
theorem bytes_eq_of_created (h : tx.created = some c) : c.bytes = tx.bytes := by
  cases tx with
  | legacy tx => cases h
  | _ =>
      obtain rfl := Option.some.inj h
      rfl

/-- What is known of a transaction of a node carries over to what was created. -/
theorem encodable_of_created (h : tx.created = some c) (htx : tx.Encodable) : c.Encodable := by
  cases tx with
  | legacy tx => cases h
  | registerContract tx =>
      obtain rfl := Option.some.inj h
      exact ⟨htx.1, tx.data_valid, htx.2⟩
  | executeContractFunction tx =>
      obtain rfl := Option.some.inj h
      exact ⟨tx.data_valid, htx⟩
  | _ =>
      obtain rfl := Option.some.inj h
      exact htx

/-- A transaction that a public constructor creates has a type up to 10. -/
theorem type_le_of_created (h : tx.created = some c) : tx.transactionType.id ≤ 10 := by
  cases tx with
  | legacy tx => cases h
  | _ =>
      simp only [Transaction.transactionType]
      decide

/-- A created transaction with what is asked for is one of a node. -/
theorem exists_created (h : c.Encodable) : ∃ tx : Transaction, tx.created = some c ∧ tx.Encodable := by
  cases c with
  | genesis tx => exact ⟨.genesis tx, rfl, trivial⟩
  | payment tx => exact ⟨.payment tx, rfl, trivial⟩
  | lease tx => exact ⟨.lease tx, rfl, trivial⟩
  | leaseCancel tx => exact ⟨.leaseCancel tx, rfl, trivial⟩
  | minting tx => exact ⟨.minting tx, rfl, trivial⟩
  | contendSlots tx => exact ⟨.contendSlots tx, rfl, trivial⟩
  | releaseSlots tx => exact ⟨.releaseSlots tx, rfl, trivial⟩
  | registerContract tx => exact ⟨.registerContract ⟨tx, h.2.1⟩, rfl, h.1, h.2.2⟩
  | executeContractFunction tx => exact ⟨.executeContractFunction ⟨tx, h.1⟩, rfl, h.2⟩
  | dbPut tx => exact ⟨.dbPut tx, rfl, h⟩

/-- A transaction that a constructor accepts is read back from its bytes exactly when it registers no
contract but a permitted one, its data entries pass their own check, and its data and its entry fit
their prefixes. -/
theorem read_back_iff (c : CreatedTransaction) :
    (∃ tx, TransactionParser.parseBytes c.bytes = .ok tx ∧ tx.created = some c) ↔ c.Encodable := by
  constructor
  · rintro ⟨tx, hparse, hcreated⟩
    exact encodable_of_created hcreated (TransactionParser.encodable_of_parseBytes hparse)
  · intro h
    obtain ⟨tx, hcreated, hencodable⟩ := exists_created h
    refine ⟨tx, ?_, hcreated⟩
    rw [bytes_eq_of_created hcreated]
    exact TransactionParser.parseBytes_bytes_of_encodable (type_le_of_created hcreated) hencodable

end CreatedTransaction

omit [Platform] in
/-- A status is read back from its number. -/
@[simp]
theorem TransactionStatus.fromByte_id (status : TransactionStatus) :
    fromByte status.id = some status := by
  cases status <;> rfl

/-- A processed transaction is read back with its status and its fee. -/
theorem ProcessedTransactionParser.parseBytes_eq (p : ProcessedTransaction) :
    parseBytes p.bytes = (fun tx => ⟨p.status, p.feeCharged, tx⟩)
      <$> TransactionParser.parseBytes p.transaction.bytes := by
  have hparts : Longs.toByteArray p.feeCharged ++ p.transaction.bytes
      = [Longs.toByteArray p.feeCharged, p.transaction.bytes].flatten := by simp
  obtain ⟨hfee, htransaction, hend⟩ := parts_of_eq hparts
  have hbytes : p.bytes
      = p.status.id :: (Longs.toByteArray p.feeCharged ++ p.transaction.bytes) := rfl
  have hlength : 8 < (p.status.id :: (Longs.toByteArray p.feeCharged
      ++ p.transaction.bytes)).length := by
    rw [List.length_cons, List.length_append, Longs.length_toByteArray]
    omega
  simp only [Longs.length_toByteArray, Parts] at htransaction hend
  rw [hbytes, parseBytes, if_pos hlength]
  simp only [TransactionStatus.fromByte_id, getOrRaise, ok_bind]
  rw [hfee.long (by omega) (by omega), htransaction.slice (by omega) (by omega)]
  cases TransactionParser.parseBytes p.transaction.bytes <;> rfl

/-- The transaction of whatever the parser returns can be read back. -/
theorem ProcessedTransactionParser.encodable_of_parseBytes {data : ByteStr}
    {p : ProcessedTransaction} (h : parseBytes data = .ok p) : p.transaction.Encodable := by
  unfold parseBytes at h
  split at h
  · split at h
    · cases h
    · obtain ⟨status, -, h⟩ := bind_eq_ok_iff.mp h
      obtain ⟨fee, -, h⟩ := bind_eq_ok_iff.mp h
      obtain ⟨tx, htx, h⟩ := bind_eq_ok_iff.mp h
      obtain rfl := Except.ok.inj h
      exact TransactionParser.encodable_of_parseBytes htx
  · cases h

/-- A processed transaction is read back when its transaction is. -/
theorem ProcessedTransactionParser.parseBytes_bytes {p : ProcessedTransaction}
    (h : TransactionParser.parseBytes p.transaction.bytes = .ok p.transaction) :
    parseBytes p.bytes = .ok p := by
  rw [parseBytes_eq, h]
  rfl

end Platform

namespace Sample

/-- One proof, with a signature of its full length. -/
def fullProofs : Proofs :=
  ⟨[⟨⟨List.replicate 32 0⟩, List.replicate 64 0, rfl⟩], by decide, by decide⟩

/-- A transaction that puts an entry under one key. -/
def put (entry : Entry) : DbPutTransaction :=
  ⟨"key", entry, 100, 100, 1, fullProofs, by decide, fee_pos, feeScale_eq⟩

/-- The sample's database transaction is what the constructor makes of its entry. -/
theorem create_put (entry : Entry) :
    DbPutTransaction.create "key" entry 100 100 1 fullProofs = .ok (put entry) := rfl

/-- A text of one character of three bytes. -/
def repeated (n : Nat) : String := String.ofList (List.replicate n '中')

/-- The repeated character takes one UTF-16 unit each time. -/
theorem utf16Length_repeated (n : Nat) : utf16Length (repeated n) = n := by
  have hunits : '中'.toNat < 65536 := by decide
  rw [utf16Length, repeated, String.toList_ofList, List.map_replicate, List.sum_replicate,
    if_pos hunits, Nat.nsmul_eq_mul, Nat.mul_one]

/-- The repeated character takes three bytes each time. -/
theorem length_repeated (n : Nat) : (Deser.serilizeString (repeated n)).length = n * 3 := by
  have hsize : '中'.utf8Size = 3 := by decide
  rw [Deser.length_serilizeString, repeated, String.toList_ofList, List.map_replicate,
    List.sum_replicate, hsize, Nat.nsmul_eq_mul]

/-- A call with one data entry. -/
def callWith (entry : DataEntry) : ExecuteContractFunctionTransaction :=
  ⟨ContractAccount.fromId [], 0, [entry], [], 100, 100, 1, fullProofs, by decide, fee_pos, feeScale_eq⟩

/-- The constructors accept an entry of the greatest length, and an amount of three bytes, and neither
transaction is read back. -/
theorem longEntry_lost :
    (∃ entry tx, Entry.buildEntry (repeated 16384) = .ok entry ∧
      DbPutTransaction.create "key" entry 100 100 1 fullProofs = .ok tx ∧
      ¬ ∃ tx', TransactionParser.parseBytes (CreatedTransaction.dbPut tx).bytes = .ok tx' ∧
        tx'.created = some (.dbPut tx)) ∧
    ExecuteContractFunctionTransaction.createWithProof (ContractAccount.fromId []) 0
      [⟨[1, 2, 3], .amount⟩] [] 100 100 1 fullProofs = .ok (callWith ⟨[1, 2, 3], .amount⟩) ∧
    ¬ ∃ tx', TransactionParser.parseBytes
        (CreatedTransaction.executeContractFunction (callWith ⟨[1, 2, 3], .amount⟩)).bytes = .ok tx' ∧
      tx'.created = some (.executeContractFunction (callWith ⟨[1, 2, 3], .amount⟩)) := by
  refine ⟨?_, rfl, ?_⟩
  · have hunits : utf16Length (repeated 16384) ≤ 16384 := (utf16Length_repeated 16384).le
    refine ⟨⟨repeated 16384, hunits⟩, put _, dif_pos hunits, create_put _, ?_⟩
    rintro ⟨tx', hparse, hcreated⟩
    have hlength : (put ⟨repeated 16384, hunits⟩).entry.bytes.length ≤ 32767 :=
      CreatedTransaction.encodable_of_created hcreated
        (TransactionParser.encodable_of_parseBytes hparse)
    rw [put, Entry.bytes, List.length_cons, length_repeated] at hlength
    omega
  · rintro ⟨tx', hparse, hcreated⟩
    have hvalid := (CreatedTransaction.encodable_of_created hcreated
      (TransactionParser.encodable_of_parseBytes hparse)).1
    exact absurd (hvalid _ List.mem_cons_self) (by rw [DataEntry.Valid]; decide)

end Sample

end Vsys
