import Vsys.Chain.BlockBytes
import Vsys.Chain.PoolRuns
import Vsys.Chain.Records
import Vsys.Network.Payloads

/-!
# Messages in frames

A message is written, framed, and read by a peer, which refuses a frame whose data are longer than
the spec of the message allows.  The greatest lengths are written down by hand, and what a node sends
can be longer: a checkpoint of ten items, and transactions and blocks with long data.
-/

namespace Vsys

open Lib

/-- A value under an injective function is the result exactly when it was the result before. -/
theorem map_ok_iff {ε α β : Type} {f : α → β} (hf : Function.Injective f) {x : Except ε α} {a : α} :
    f <$> x = .ok (f a) ↔ x = .ok a := by
  rw [map_eq_ok_iff]
  constructor
  · rintro ⟨a', hx, ha⟩
    rw [hx, hf ha]
  · intro hx
    exact ⟨a, hx, rfl⟩

/-- How many bytes a number that is not negative takes; one bit is for the sign. -/
theorem BigInt.length_toByteArray_le_iff {n : Int} (hn : 0 ≤ n) (width : Nat) :
    (toByteArray n).length ≤ width + 1 ↔ n < 2 ^ (8 * width + 7) := by
  obtain ⟨k, rfl⟩ := Int.eq_ofNat_of_zero_le hn
  have hsize : Nat.size k ≤ 8 * width + 7 ↔ k < 2 ^ (8 * width + 7) := Nat.size_le
  rw [toByteArray, if_pos hn, BigEndian.length_encode, Int.toNat_natCast]
  constructor
  · intro h
    exact_mod_cast hsize.mp (by omega)
  · intro h
    have hsmall := hsize.mpr (by exact_mod_cast h)
    omega

/-- A number that is not negative comes back from its two's complement as a magnitude. -/
theorem BigInt.ofMagnitude_toByteArray {n : Int} (hn : 0 ≤ n) :
    ofMagnitude (toByteArray n) = n := by
  obtain ⟨k, rfl⟩ := Int.eq_ofNat_of_zero_le hn
  have hfits : k < 256 ^ (Nat.size k / 8 + 1) := by
    have hpow : (256 : Nat) ^ (Nat.size k / 8 + 1) = 2 ^ (8 * (Nat.size k / 8 + 1)) := by
      rw [Nat.pow_mul]
    rw [hpow]
    exact (Nat.lt_size_self k).trans_le (Nat.pow_le_pow_right (by omega) (by omega))
  rw [ofMagnitude, toByteArray, if_pos hn, Int.toNat_natCast, BigEndian.decode_encode]
  have hnat : ((k : Int) % 256 ^ (Nat.size k / 8 + 1)).toNat = k := by
    rw [Int.emod_eq_of_lt hn (by exact_mod_cast hfits), Int.toNat_natCast]
  rw [hnat, Nat.mod_eq_of_lt hfits]

namespace PeersSpec

variable {peers : List InetSocketAddress}

/-- Every peer takes at least eight bytes. -/
theorem le_length_serializeData : 4 + peers.length * 8 ≤ (serializeData peers).length := by
  have hrecord (peer : InetSocketAddress) : 8 ≤ (record peer).length := by
    rw [record, List.length_append, Ints.length_toByteArray]
    rcases peer.address.valid with h | ⟨h, -⟩ <;> omega
  have hflatten : peers.length * 8 ≤ (peers.map record).flatten.length := by
    rw [List.length_flatten, List.map_map]
    induction peers with
    | nil => exact Nat.le_refl 0
    | cons peer peers ih =>
        have hpeer := hrecord peer
        simp only [List.length_cons, List.map_cons, List.sum_cons, Function.comp_apply]
        omega
  show _ ≤ (Ints.toByteArray _ ++ (peers.map record).flatten).length
  rw [List.length_append, Ints.length_toByteArray]
  omega

/-- Peers come back from their bytes exactly when they all have IPv4 addresses. -/
theorem deserializeData_serializeData_iff (hlength : (serializeData peers).length < 2 ^ 31) :
    deserializeData (serializeData peers) = .ok peers ↔ Sound peers := by
  have hleast := @le_length_serializeData peers
  have hcounted : Counted (serializeData peers) := fun _ => by
    rw [serializeData, countWord_append, Int32.toInt_ofNat_of_lt (by omega)]
    exact Int.natCast_nonneg _
  constructor
  · intro h
    exact (eq_serializeData hlength hcounted h).1
  · intro h
    exact deserializeData_serializeData h hlength

end PeersSpec

section Platform

variable [Platform]

/-- A message as a peer receives it: written, framed, and read back. -/
def Message.relay (m : Message) : Result Message := do
  let sent ← MessageCodec.encode m
  let received ← LegacyFrameCodec.decode (LegacyFrameCodec.encode sent)
  MessageCodec.decode received

/-- A transaction that the pool of a node accepts. -/
def Pooled (tx : Transaction) : Prop :=
  ∃ fs utxSettings stateReader history currentTs pool pool',
    UtxPool.putIfNew fs utxSettings stateReader history currentTs tx pool = (.ok true, pool')

/-- A block whose fields have their lengths and that is valid on some state. -/
structure Block.Relayable (b : Block) : Prop where
  framed : b.Framed
  valid : ∃ fs s prev d, BlockDiffer.fromBlock fs s prev b = .ok d

/-- The messages that a node sends. -/
inductive Emittable : Message → Prop
  | getPeers : Emittable .getPeers
  | knownPeers (peers : List InetSocketAddress) : Emittable (.knownPeers peers)
  | getSignatures (ids : List ByteStr) (hcount : ids.length ≤ 200)
      (hids : SignaturesSeqSpec.Sound ids) : Emittable (.getSignatures ids)
  | signatures (ids : List ByteStr) (hcount : ids.length ≤ 200)
      (hids : SignaturesSeqSpec.Sound ids) : Emittable (.signatures ids)
  | getBlock (signature : ByteStr) (hlength : signature.length = 64) : Emittable (.getBlock signature)
  | block (b : Block) (hb : b.Relayable) : Emittable (.block b)
  | localScoreChanged (score : Int) (hscore : 0 ≤ score) : Emittable (.localScoreChanged score)
  | checkpoint (cp : Checkpoint) (hcp : CheckpointMessageSpec.Sound cp) : Emittable (.checkpoint cp)
  | transaction (tx : Transaction) (htx : Pooled tx) : Emittable (.transaction tx)

/-- What of these fits its frame: at most 1000 peers, all with IPv4 addresses; a block of version 1
or 2 whose transactions can be read back and are not too long together; a score below 2^511; a
checkpoint of at most nine items; and a transaction of at most 1144 bytes that can be read back. -/
def FitsFrame : Message → Prop
  | .knownPeers peers => PeersSpec.Sound peers ∧ peers.length ≤ 1000
  | .block b => ((b.version = 1 ∨ b.version = 2) ∧
      ∀ p ∈ b.transactionData, p.transaction.Encodable) ∧
      (b.transactionData.map fun p => 4 + p.bytes.length).sum ≤ 291721
  | .localScoreChanged score => score < 2 ^ 511
  | .checkpoint cp => cp.items.length ≤ 9
  | .transaction tx => tx.Encodable ∧ tx.bytes.length ≤ 1144
  | _ => True

namespace LegacyFrameCodec

variable {code : Byte} {spec : MessageSpec} {data rest : ByteStr}

omit [Platform] in
theorem readBytes_append {first : ByteStr} {count : Nat} (hcount : first.length = count) :
    readBytes (first ++ rest) count = .ok (first, rest) := by
  subst hcount
  rw [readBytes, if_pos (by simp), List.take_left, List.drop_left]

theorem length_checksum (data : ByteStr) : (checksum data).length = ChecksumLength := by
  rw [checksum, List.length_take, Platform.fastHash_length]
  rfl

/-- The decoder behind the magic number, the code and the length. -/
theorem decode_header (hspec : MessageSpec.messageSpecs code = some spec) (length : Int32) :
    decode (Ints.toByteArray Magic ++ code :: (Ints.toByteArray length ++ rest))
      = if length.toInt ≤ spec.maxLength then
          if length.toInt < 0 then raise (.exception "NegativeArraySizeException")
          else if 0 < length.toInt then do
            let (declaredChecksum, input) ← readBytes rest ChecksumLength
            let (dataBytes, _) ← readBytes input length.toInt.toNat
            if declaredChecksum = checksum dataBytes then .ok ⟨code, dataBytes⟩
            else raise .illegalArgument
          else .ok ⟨code, []⟩
        else raise .illegalArgument := by
  have hcode : readBytes (code :: (Ints.toByteArray length ++ rest)) 1
      = .ok ([code], Ints.toByteArray length ++ rest) :=
    readBytes_append (List.length_singleton)
  rw [decode, readBytes_append (Ints.length_toByteArray Magic), ok_bind]
  dsimp only
  rw [Ints.fromByteArray_toByteArray, ok_bind, if_pos rfl, hcode, ok_bind]
  dsimp only [List.head?_cons]
  rw [getOrRaise, ok_bind, hspec, getOrRaise, ok_bind,
    readBytes_append (Ints.length_toByteArray length), ok_bind]
  dsimp only
  rw [Ints.fromByteArray_toByteArray, ok_bind]

/-- A frame is accepted exactly when its data are not too long for their spec. -/
theorem decode_encode (hspec : MessageSpec.messageSpecs code = some spec)
    (hdata : data.length < 2 ^ 31) :
    decode (encode ⟨code, data⟩)
      = if (data.length : Int) ≤ spec.maxLength then .ok ⟨code, data⟩
        else raise .illegalArgument := by
  have hlength : (Int32.ofNat data.length).toInt = data.length := Int32.toInt_ofNat_of_lt hdata
  have hread : readBytes data data.length = .ok (data, []) := by
    rw [readBytes, if_pos (Nat.le_refl _), List.take_length, List.drop_length]
  by_cases hempty : 0 < data.length
  · rw [encode, if_pos hempty, List.append_assoc, decode_header hspec, hlength]
    refine if_congr Iff.rfl ?_ rfl
    rw [if_neg (by omega), if_pos (by omega), readBytes_append (length_checksum data), ok_bind]
    dsimp only
    rw [Int.toNat_natCast, hread, ok_bind]
    exact if_pos rfl
  · obtain rfl := List.length_eq_zero_iff.mp (Nat.eq_zero_of_not_pos hempty)
    rw [encode, if_neg hempty, ← List.append_nil (Ints.toByteArray 0), decode_header hspec]
    rfl

end LegacyFrameCodec

/-- A message is read back from its frame exactly when its data are not too long for their spec and
the message is read back from them. -/
theorem Message.relay_eq_ok_iff {m : Message} {spec : MessageSpec} {data : ByteStr}
    (hm : m.serializeData = .ok data) (hspec : m.spec = spec) (hdata : data.length < 2 ^ 31) :
    m.relay = .ok m ↔ (data.length : Int) ≤ spec.maxLength ∧
      Message.deserializeData data spec = .ok m := by
  have hcode := MessageSpec.messageSpecs_messageCode spec
  rw [relay, MessageCodec.encode, hm, ok_bind, ok_bind, hspec,
    LegacyFrameCodec.decode_encode hcode hdata]
  by_cases hmax : (data.length : Int) ≤ spec.maxLength
  · rw [if_pos hmax, ok_bind, MessageCodec.decode, hcode, getOrRaise, ok_bind]
    exact (and_iff_right hmax).symm
  · rw [if_neg hmax]
    constructor
    · intro h
      cases h
    · intro h
      exact absurd h.1 hmax

/-- The transactions of the pool are of the types that are parsed. -/
theorem Pooled.type_le {tx : Transaction} (h : Pooled tx) : tx.transactionType.id ≤ 10 := by
  obtain ⟨fs, utxSettings, stateReader, history, currentTs, pool, pool', hput⟩ := h
  obtain ⟨-, ⟨_, _, hfalse⟩ | ⟨_, _, hleft⟩⟩ | ⟨-, ⟨diff, hvalid, -⟩ | ⟨_, _, hleft, -⟩ | ⟨_, _, hraise, -⟩⟩ :=
    UtxPool.putIfNew_cases hput
  · cases hfalse
  · cases hleft
  · obtain ⟨_, -, hvalid⟩ := bind_eq_ok_iff.mp hvalid
    obtain ⟨_, -, hvalid⟩ := bind_eq_ok_iff.mp hvalid
    obtain ⟨_, -, hvalid⟩ := bind_eq_ok_iff.mp hvalid
    obtain ⟨last, -, hvalid⟩ := bind_eq_ok_iff.mp hvalid
    obtain ⟨-, ⟨_, _, heffect, -⟩, -⟩ := TransactionDiffer.apply_eq_ok hvalid
    exact heffect.type_le
  · cases hleft
  · cases hraise

namespace Block.Relayable

variable {b : Block} {data : ByteStr}

/-- The transactions of a valid block are of the types that are parsed. -/
theorem type_le (hb : b.Relayable) :
    ∀ p ∈ b.transactionData, p.transaction.transactionType.id ≤ 10 := by
  obtain ⟨fs, s, prev, d, hvalid⟩ := hb.valid
  obtain ⟨diff, snapshots, hfold, -⟩ := BlockDiffer.fromBlock_eq_ok hvalid
  have hrecorded := (BlockDiffer.recorded_empty s (s.height + 1)).foldlM hfold
  exact fun p hp => hrecorded.legacy p (List.mem_append_right _ hp)

/-- A valid block is written, as its signature is of its bytes. -/
theorem exists_bytes (hb : b.Relayable) : ∃ data, b.bytes = .ok data := by
  obtain ⟨fs, s, prev, d, hvalid⟩ := hb.valid
  obtain ⟨_, hsignatures, -⟩ := bind_eq_ok_iff.mp hvalid
  obtain ⟨_, hsignature, -⟩ := bind_eq_ok_iff.mp hsignatures
  obtain ⟨data, hdata, -⟩ := bind_eq_ok_iff.mp hsignature
  exact ⟨data, hdata⟩

/-- The bytes of a block that is parsed are those of its transactions and 270 more. -/
theorem length_bytes (hb : b.Relayable) (hversion : b.version = 1 ∨ b.version = 2)
    (hdata : b.bytes = .ok data) :
    data.length = 270 + (b.transactionData.map fun p => 4 + p.bytes.length).sum := by
  obtain ⟨txBytes, htxs, -⟩ := bind_eq_ok_iff.mp hdata
  have hlength := Block.length_bytes htxs hdata hb.framed.reference
  have hgenerator := hb.framed.generator
  have hsignature : b.signerData.signature.length = 64 := hb.framed.signature
  rw [Block.transactionsBytes, if_pos hversion] at htxs
  split at htxs
  · obtain rfl := Except.ok.inj htxs
    have hsum : (b.transactionData.map fun p => sized p.bytes).flatten.length
        = (b.transactionData.map fun p => 4 + p.bytes.length).sum := by
      rw [List.length_flatten, List.map_map]
      exact congrArg List.sum (List.map_congr_left fun p _ => Block.length_sized p.bytes)
    rw [List.length_cons, hsum] at hlength
    omega
  · cases htxs

/-- A block is read back from its frame exactly when it fits it. -/
theorem relay_iff (hb : b.Relayable) (hdata : b.bytes = .ok data) (hlength : data.length < 2 ^ 31) :
    (Message.block b).relay = .ok (.block b) ↔ FitsFrame (.block b) := by
  have hread := Block.readable_iff hb.framed hb.type_le hdata hlength
  rw [Message.relay_eq_ok_iff (m := .block b) hdata rfl hlength, Message.spec,
    Message.deserializeData, map_ok_iff (fun _ _ => Message.block.inj), hread, FitsFrame, and_comm]
  refine and_congr_right fun h => ?_
  rw [hb.length_bytes h.1 hdata]
  show ((270 + _ : Nat) : Int) ≤ 291991 ↔ _
  omega

end Block.Relayable

omit [Platform] in
/-- At most 200 identifiers fit their frame. -/
theorem SignaturesSeqSpec.fits {ids : List ByteStr} (hcount : ids.length ≤ 200) (hids : Sound ids) :
    ((serializeData ids).length : Int) ≤ 12804 ∧
      deserializeData (serializeData ids) = .ok ids := by
  have hlength := length_serializeData hids
  exact ⟨by omega, deserializeData_serializeData hids (by omega)⟩

/-- Exactly the messages that fit their frame are read back by a peer from the bytes that a node sends
of them. -/
theorem relay_eq_ok_iff_fitsFrame {m : Message} (hm : Emittable m)
    (hsize : ∀ data, m.serializeData = .ok data → data.length < 2 ^ 31) :
    m.relay = .ok m ↔ FitsFrame m := by
  -- A peer refuses a frame whose payload is longer than its spec allows, and else decodes it.
  cases hm with
  | getPeers =>
      rw [Message.relay_eq_ok_iff rfl rfl (hsize _ rfl)]
      exact iff_of_true ⟨Int.le_refl 0, rfl⟩ trivial
  | knownPeers peers =>
      rw [Message.relay_eq_ok_iff rfl rfl (hsize _ rfl), Message.spec, Message.deserializeData,
        map_ok_iff (fun _ _ => Message.knownPeers.inj),
        PeersSpec.deserializeData_serializeData_iff (hsize _ rfl), FitsFrame, and_comm]
      refine and_congr_right fun h => ?_
      rw [PeersSpec.length_serializeData h]
      show ((4 + _ : Nat) : Int) ≤ 8004 ↔ _
      omega
  | getSignatures ids hcount hids =>
      obtain ⟨hmax, hread⟩ := SignaturesSeqSpec.fits hcount hids
      rw [Message.relay_eq_ok_iff rfl rfl (hsize _ rfl), Message.spec, Message.deserializeData,
        hread]
      exact iff_of_true ⟨hmax, rfl⟩ trivial
  | signatures ids hcount hids =>
      obtain ⟨hmax, hread⟩ := SignaturesSeqSpec.fits hcount hids
      rw [Message.relay_eq_ok_iff rfl rfl (hsize _ rfl), Message.spec, Message.deserializeData,
        hread]
      exact iff_of_true ⟨hmax, rfl⟩ trivial
  | getBlock signature hlength =>
      have hmax : (signature.length : Int) = MessageSpec.getBlockSpec.maxLength :=
        congrArg Int.ofNat hlength
      rw [Message.relay_eq_ok_iff rfl rfl (hsize _ rfl), Message.spec, Message.deserializeData,
        GetBlockSpec.deserializeData, if_pos hmax]
      exact iff_of_true ⟨hmax.le, rfl⟩ trivial
  | block b hb =>
      obtain ⟨data, hdata⟩ := hb.exists_bytes
      exact hb.relay_iff hdata (hsize data hdata)
  | localScoreChanged score hscore =>
      rw [Message.relay_eq_ok_iff rfl rfl (hsize _ rfl), Message.spec, Message.deserializeData,
        BigInt.ofMagnitude_toByteArray hscore, and_iff_left rfl, FitsFrame]
      exact Int.ofNat_le.trans (BigInt.length_toByteArray_le_iff hscore 63)
  | checkpoint cp hcp =>
      rw [Message.relay_eq_ok_iff rfl rfl (hsize _ rfl), Message.spec, Message.deserializeData,
        map_ok_iff (fun _ _ => Message.checkpoint.inj),
        CheckpointMessageSpec.deserializeData_serializeData hcp, and_iff_left rfl, FitsFrame,
        CheckpointMessageSpec.length_serializeData hcp]
      show ((4 + _ + 64 : Nat) : Int) ≤ 684 ↔ _
      omega
  | transaction tx htx =>
      rw [Message.relay_eq_ok_iff rfl rfl (hsize _ rfl), Message.spec, Message.deserializeData,
        map_ok_iff (fun _ _ => Message.transaction.inj),
        TransactionParser.parseBytes_bytes_iff htx.type_le, FitsFrame, and_comm]
      exact and_congr_right fun _ => Int.ofNat_le

end Platform

namespace Sample

/-- A checkpoint with as many items as a checkpoint may have. -/
def fullCheckpoint : Checkpoint where
  items := (List.range 10).map fun i => ⟨Int32.ofNat (i + 1), List.replicate 64 1⟩
  signature := List.replicate 64 2

theorem fullCheckpoint_sound : CheckpointMessageSpec.Sound fullCheckpoint where
  count := by decide
  items := by decide
  signature := by decide

/-- The same checkpoint without its last item. -/
def nineCheckpoint : Checkpoint := { fullCheckpoint with items := fullCheckpoint.items.take 9 }

/-- The checkpoint of nine items is one that a node can send. -/
theorem nineCheckpoint_sound : CheckpointMessageSpec.Sound nineCheckpoint where
  count := by decide
  items := by decide
  signature := by decide

/-- A checkpoint of nine items takes 680 of the 684 bytes that its frame may have, and is read back by
a peer. -/
theorem nineCheckpoint_relayed :
    (CheckpointMessageSpec.serializeData nineCheckpoint).length = 680 ∧
      Message.relay (.checkpoint nineCheckpoint) = .ok (.checkpoint nineCheckpoint) := by
  have hlength : (CheckpointMessageSpec.serializeData nineCheckpoint).length = 680 := by
    decide +kernel
  refine ⟨hlength, (relay_eq_ok_iff_fitsFrame (.checkpoint nineCheckpoint nineCheckpoint_sound)
    fun data hdata => ?_).mpr ?_⟩
  · obtain rfl := Except.ok.inj hdata
    omega
  · show nineCheckpoint.items.length ≤ 9
    decide

/-- A node sends a checkpoint of ten items, and its peers refuse the frame. -/
theorem fullCheckpoint_refused :
    Emittable (.checkpoint fullCheckpoint) ∧ Raises (Message.relay (.checkpoint fullCheckpoint)) :=
  ⟨.checkpoint fullCheckpoint fullCheckpoint_sound, by decide +kernel⟩

end Sample

end Vsys
