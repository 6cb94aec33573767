import Vsys.Account
import Vsys.Lib.Action

/-!
# The checkpoint of a node

A checkpoint names the signatures of the blocks at some heights, and is itself signed.  A
`CheckpointService` accepts checkpoints and answers with the last one it has accepted; the coordinator
works with any of them.  `CheckpointServiceImpl` keeps its checkpoint as the bytes of
`CheckpointCodec`.
-/

namespace Vsys

open Lib

/-- `BlockCheckpoint`. -/
structure BlockCheckpoint where
  height : Int32
  signature : ByteStr
  deriving DecidableEq

/-- `Checkpoint`. -/
structure Checkpoint where
  items : List BlockCheckpoint
  signature : ByteStr
  deriving DecidableEq

/-- `Codec.SignatureLength`. -/
def Codec.SignatureLength : Nat := 64

namespace BlockCheckpoint

/-- `BlockCheckpointCodec.encode`: a signature that is too short cannot be copied. -/
def encode (bcp : BlockCheckpoint) : Result ByteStr :=
  if Codec.SignatureLength ≤ bcp.signature.length then
    .ok (Ints.toByteArray bcp.height ++ bcp.signature.take Codec.SignatureLength)
  else raise .indexOutOfBounds

/-- `BlockCheckpointCodec.decode`, of the 68 bytes at the start. -/
def decode (arr : ByteStr) : Option BlockCheckpoint :=
  match Ints.fromByteArray (arr.take 4) with
  | .ok height =>
      if 4 + Codec.SignatureLength ≤ arr.length then
        some ⟨height, slice arr 4 (4 + Codec.SignatureLength)⟩
      else none
  | .error _ => none

theorem decode_append {bcp : BlockCheckpoint} (h : bcp.signature.length = Codec.SignatureLength)
    (rest : ByteStr) :
    decode (Ints.toByteArray bcp.height ++ bcp.signature ++ rest) = some bcp := by
  have hint : (Ints.toByteArray bcp.height ++ bcp.signature ++ rest).take 4
      = Ints.toByteArray bcp.height := by
    rw [List.append_assoc]
    exact List.take_left' (Ints.length_toByteArray _)
  have hlength : (Ints.toByteArray bcp.height ++ bcp.signature ++ rest).length
      = 4 + Codec.SignatureLength + rest.length := by
    rw [List.length_append, List.length_append, Ints.length_toByteArray, h]
  have hslice : slice (Ints.toByteArray bcp.height ++ bcp.signature ++ rest) 4
      (4 + Codec.SignatureLength) = bcp.signature := by
    show (List.drop 4 _).take Codec.SignatureLength = _
    rw [List.append_assoc, List.drop_left' (Ints.length_toByteArray _), List.take_left' h]
  rw [decode, hint, Ints.fromByteArray_toByteArray]
  dsimp only
  rw [if_pos (by omega), hslice]

end BlockCheckpoint

namespace Checkpoint

/-- `toSign`. -/
def toSign (cp : Checkpoint) : ByteStr :=
  Ints.toByteArray (Int32.ofNat cp.items.length)
    ++ (cp.items.map fun item => Ints.toByteArray item.height ++ item.signature).flatten

/-- `CheckpointCodec.encode`. -/
def encode (cp : Checkpoint) : Result ByteStr := do
  let items ← cp.items.mapM BlockCheckpoint.encode
  if Codec.SignatureLength ≤ cp.signature.length then
    .ok (cp.signature.take Codec.SignatureLength
      ++ (Ints.toByteArray (Int32.ofNat cp.items.length) ++ items.flatten))
  else raise .indexOutOfBounds

/-- The loop of `ColCodec.decode`: items until the bytes are used up. -/
def decodeItems (bytes : ByteStr) : Option (List BlockCheckpoint) :=
  if bytes = [] then some []
  else do
    let item ← BlockCheckpoint.decode bytes
    let items ← decodeItems (bytes.drop (4 + Codec.SignatureLength))
    some (item :: items)
termination_by bytes.length
decreasing_by
  rename_i h
  have := List.length_pos_iff.mpr h
  rw [List.length_drop, Codec.SignatureLength]
  omega

/-- `CheckpointCodec.decode`. -/
def decode (bytes : ByteStr) : Option Checkpoint :=
  let signature := bytes.take Codec.SignatureLength
  let itemBytes := bytes.drop Codec.SignatureLength
  match Ints.fromByteArray (itemBytes.take 4), decodeItems (itemBytes.drop 4) with
  | .ok expectedLength, some items =>
      if signature.length = Codec.SignatureLength ∧ expectedLength.toInt = items.length then
        some ⟨items, signature⟩
      else none
  | _, _ => none

/-- A checkpoint as the network and the API read them: signatures of 64 bytes, and a number of
items that fits its prefix. -/
structure WellFormed (cp : Checkpoint) : Prop where
  signature : cp.signature.length = Codec.SignatureLength
  items : ∀ item ∈ cp.items, item.signature.length = Codec.SignatureLength
  count : cp.items.length < 2 ^ 31

theorem decodeItems_flatten {items : List BlockCheckpoint}
    (h : ∀ item ∈ items, item.signature.length = Codec.SignatureLength) :
    decodeItems (items.map fun item => Ints.toByteArray item.height ++ item.signature).flatten
      = some items := by
  induction items with
  | nil =>
      rw [decodeItems]
      rfl
  | cons item items ih =>
      have hitem := h item List.mem_cons_self
      have hlength : (Ints.toByteArray item.height ++ item.signature).length
          = 4 + Codec.SignatureLength := by
        rw [List.length_append, Ints.length_toByteArray, hitem]
      rw [List.map_cons, List.flatten_cons, decodeItems, if_neg, BlockCheckpoint.decode_append hitem,
        List.drop_left' hlength, ih fun i hi => h i (List.mem_cons_of_mem item hi)]
      · rfl
      · intro hnil
        rw [(List.append_eq_nil_iff.mp hnil).1] at hlength
        cases hlength

/-- What is written can be read back. -/
theorem decode_encode {cp : Checkpoint} (h : cp.WellFormed) :
    ∃ bytes, cp.encode = .ok bytes ∧ decode bytes = some cp := by
  obtain ⟨items, signature⟩ := cp
  have hitems : items.mapM BlockCheckpoint.encode
      = .ok (items.map fun item => Ints.toByteArray item.height ++ item.signature) := by
    refine mapM_eq_ok_of_forall₂ (List.forall₂_map_right_iff.mpr (List.forall₂_same.mpr ?_))
    intro item hitem
    have hlength := h.items item hitem
    rw [BlockCheckpoint.encode, if_pos hlength.ge, List.take_of_length_le hlength.le]
  have hcount : (Int32.ofNat items.length).toInt = items.length := by
    have := h.count
    exact Int32.toInt_ofNat_of_lt this
  refine ⟨signature ++ (Ints.toByteArray (Int32.ofNat items.length)
    ++ (items.map fun item => Ints.toByteArray item.height ++ item.signature).flatten), ?_, ?_⟩
  · rw [encode, hitems, ok_bind, if_pos h.signature.ge, List.take_of_length_le h.signature.le]
  · rw [decode, List.take_left' h.signature, List.drop_left' h.signature,
      List.take_left' (Ints.length_toByteArray _), List.drop_left' (Ints.length_toByteArray _),
      Ints.fromByteArray_toByteArray, decodeItems_flatten h.items]
    dsimp only
    rw [if_pos ⟨h.signature, hcount⟩]

end Checkpoint

/-- `CheckpointService`: what `set` does to the state of a service, and what `get` reads there. -/
structure CheckpointService (σ : Type) where
  set : Checkpoint → Action Fault σ Unit
  get : σ → Option Checkpoint

namespace CheckpointService

/-- `CheckpointServiceExt.isBlockValid`, of what `get` answers. -/
def isBlockValid (get : Option Checkpoint) (candidateSignature : ByteStr) (estimatedHeight : Nat) :
    Bool :=
  !(get.any fun checkpoint => checkpoint.items.any fun item =>
    item.height.toInt = estimatedHeight ∧ candidateSignature ≠ item.signature)

/-- Whether the service has the checkpoint it has accepted last. -/
def Retains {σ : Type} (service : CheckpointService σ) : Prop :=
  ∀ cp c c', cp.WellFormed → service.set cp c = (.ok (), c') → service.get c' = some cp

end CheckpointService

/-- The storage of `CheckpointServiceImpl`. -/
structure CheckpointServiceImpl where
  checkpointProperty : Option ByteStr

namespace CheckpointServiceImpl

/-- `get`. -/
def get (c : CheckpointServiceImpl) : Option Checkpoint :=
  c.checkpointProperty.bind Checkpoint.decode

/-- `CheckpointServiceExt.isBlockValid` of the stored checkpoint. -/
def isBlockValid (c : CheckpointServiceImpl) (candidateSignature : ByteStr) (estimatedHeight : Nat) :
    Bool :=
  CheckpointService.isBlockValid c.get candidateSignature estimatedHeight

variable [Platform]

/-- `set`.  `Option.forall` holds of no checkpoint. -/
def set (publicKey : ByteStr) (cp : Checkpoint) : Action Fault CheckpointServiceImpl Unit := do
  let c ← Action.get
  Action.ofExcept (cond (¬ c.get.all (fun old => old.signature = cp.signature) = true)
    (.genericError "Checkpoint already applied"))
  if Platform.verify cp.signature cp.toSign publicKey then
    let bytes ← Action.ofExcept cp.encode
    Action.modify fun _ => ⟨some bytes⟩
  else Action.ofExcept (left (.genericError "Invalid checkpoint signature"))

/-- The service of a node. -/
def service (publicKey : ByteStr) : CheckpointService CheckpointServiceImpl := ⟨set publicKey, get⟩

variable {publicKey : ByteStr} {c : CheckpointServiceImpl} {cp : Checkpoint}

/-- What has been set is what the service has. -/
theorem retains_service : (service publicKey).Retains := by
  intro cp c c' hcp h
  obtain ⟨bytes, hbytes, hdecode⟩ := Checkpoint.decode_encode hcp
  change set publicKey cp c = (.ok (), c') at h
  rw [set, Action.bind_of_ok (Action.get_apply c)] at h
  obtain ⟨_, u, -, h⟩ := Action.bind_eq_ok_iff.mp h
  split at h
  · rw [hbytes] at h
    obtain ⟨_, v, hread, h⟩ := Action.bind_eq_ok_iff.mp h
    obtain rfl := Except.ok.inj (Prod.mk.inj hread).1
    rw [← (Prod.mk.inj h).2]
    exact hdecode
  · cases (Prod.mk.inj h).1

/-- A service that has no checkpoint accepts none. -/
theorem set_of_get_eq_none (h : c.get = none) :
    set publicKey cp c = (left (.genericError "Checkpoint already applied"), c) := by
  rw [set, Action.bind_of_ok (Action.get_apply c), h, cond, ensure_of_not (by simp)]
  rfl

/-- The states of the service of a node, which starts without a checkpoint and is written by `set`
alone. -/
inductive Reached (publicKey : ByteStr) : CheckpointServiceImpl → Prop
  | empty : Reached publicKey ⟨none⟩
  | set {c : CheckpointServiceImpl} (h : Reached publicKey c) (cp : Checkpoint) :
      Reached publicKey (set publicKey cp c).2

/-- The service of a node never has a checkpoint. -/
theorem Reached.get_eq_none (h : Reached publicKey c) : c.get = none := by
  induction h with
  | empty => rfl
  | set h cp ih =>
      rw [set_of_get_eq_none ih]
      exact ih

end CheckpointServiceImpl

end Vsys
