import Vsys.Db.CodecLaws

/-!
# Codecs of codecs

The codecs that can be built, nested in any way, and when one of them reads back what it wrote.
-/

namespace Vsys

open Lib Codec

/-- The codecs that can be built; `AssetIdOrderIdSetCodec` is one of them. -/
inductive StorageCodec where
  | short
  | string
  | byteStr
  | key
  | id32
  | blockCheckpoint
  | checkpoint
  | portfolioItem
  | tuple2 (a b : StorageCodec)
  | seq (a : StorageCodec)
  | set (a : StorageCodec)
  | option (a : StorageCodec)

namespace StorageCodec

/-- The values of a codec. -/
def Value : StorageCodec → Type
  | .short => Int16
  | .string => String
  | .byteStr | .key | .id32 => ByteStr
  | .blockCheckpoint => BlockCheckpoint
  | .checkpoint => Checkpoint
  | .portfolioItem => String × Int64
  | .tuple2 a b => Value a × Value b
  | .seq a => List (Value a)
  | .set a => {l : List (Value a) // l.Nodup}
  | .option a => Option (Value a)

instance decidableEqValue : (c : StorageCodec) → DecidableEq (Value c)
  | .short => inferInstanceAs (DecidableEq Int16)
  | .string => inferInstanceAs (DecidableEq String)
  | .byteStr => inferInstanceAs (DecidableEq ByteStr)
  | .key => inferInstanceAs (DecidableEq ByteStr)
  | .id32 => inferInstanceAs (DecidableEq ByteStr)
  | .blockCheckpoint => inferInstanceAs (DecidableEq BlockCheckpoint)
  | .checkpoint => inferInstanceAs (DecidableEq Checkpoint)
  | .portfolioItem => inferInstanceAs (DecidableEq (String × Int64))
  | .tuple2 a b =>
      have := decidableEqValue a
      have := decidableEqValue b
      inferInstanceAs (DecidableEq (Value a × Value b))
  | .seq a =>
      have := decidableEqValue a
      inferInstanceAs (DecidableEq (List (Value a)))
  | .set a =>
      have := decidableEqValue a
      inferInstanceAs (DecidableEq {l : List (Value a) // l.Nodup})
  | .option a =>
      have := decidableEqValue a
      inferInstanceAs (DecidableEq (Option (Value a)))

/-- The codec itself. -/
def codec (malformed : ByteStr → String) : (c : StorageCodec) → Codec (Value c)
  | .short => ShortCodec
  | .string => StringCodec malformed
  | .byteStr => ByteStrCodec
  | .key => KeyCodec
  | .id32 => Id32Codec
  | .blockCheckpoint => BlockCheckpointCodec
  | .checkpoint => CheckpointCodec
  | .portfolioItem => PortfolioItemCodec malformed
  | .tuple2 a b => Tuple2Codec (codec malformed a) (codec malformed b)
  | .seq a => ColCodec (.seq (Value a)) (codec malformed a)
  | .set a => ColCodec (.set (Value a)) (codec malformed a)
  | .option a => OptionCodec (codec malformed a)

/-- Keys, identifiers and signatures are of their sizes. -/
def InDomain : (c : StorageCodec) → Value c → Prop
  | .short, _ | .string, _ | .byteStr, _ | .portfolioItem, _ => True
  | .key, v => v.length = 8
  | .id32, v => v.length = 32
  | .blockCheckpoint, v => v.signature.length = Codec.SignatureLength
  | .checkpoint, v => v.signature.length = Codec.SignatureLength ∧
      ∀ item ∈ v.items, item.signature.length = Codec.SignatureLength
  | .tuple2 a b, v => InDomain a v.1 ∧ InDomain b v.2
  | .seq a, v => ∀ x, List.Mem x v → InDomain a x
  | .set a, v => ∀ x ∈ v.1, InDomain a x
  | .option a, v => ∀ x, v = some x → InDomain a x

/-- There is a collection in the value; a checkpoint has one. -/
def HasCollection : (c : StorageCodec) → Value c → Prop
  | .checkpoint, _ | .seq _, _ | .set _, _ => True
  | .tuple2 a b, v => HasCollection a v.1 ∨ HasCollection b v.2
  | .option a, v => ∃ x, v = some x ∧ HasCollection a x
  | _, _ => False

/-- Nothing in the value comes after a collection. -/
def CollectionsLast : (c : StorageCodec) → Value c → Prop
  | .tuple2 a b, v => ¬ HasCollection a v.1 ∧ CollectionsLast b v.2
  | .seq a, v => Codec.LastGreedy (HasCollection a) (CollectionsLast a) v
  | .set a, v => Codec.LastGreedy (HasCollection a) (CollectionsLast a) v.1
  | .option a, v => ∀ x, v = some x → CollectionsLast a x
  | _, _ => True

variable {malformed : ByteStr → String}

theorem codec_lawful (c : StorageCodec) :
    (codec malformed c).Lawful (InDomain c) (HasCollection c) (CollectionsLast c) := by
  induction c with
  | short => exact Codec.shortCodec_lawful
  | string => exact Codec.stringCodec_lawful
  | byteStr => exact Codec.byteStrCodec_lawful
  | key => exact Codec.ofSize_lawful (by decide) _
  | id32 => exact Codec.ofSize_lawful (by decide) _
  | blockCheckpoint => exact Codec.blockCheckpointCodec_lawful
  | checkpoint => exact Codec.checkpointCodec_lawful
  | portfolioItem => exact Codec.portfolioItemCodec_lawful
  | tuple2 a b iha ihb => exact Codec.tuple2_lawful iha ihb
  | seq a ih => exact Codec.col_lawful (.seq (Value a)) ih
  | set a ih => exact Codec.col_lawful (.set (Value a)) ih
  | option a ih => exact Codec.option_lawful ih

/-- A value of any codec is read back from its bytes with others behind them exactly if no part of
it and none of the other bytes come after a collection; and reading any bytes ends, with a result
or with a failure. -/
theorem decode_encode_iff (malformed : ByteStr → String) (c : StorageCodec) :
    (∀ v, InDomain c v → ∃ e, (codec malformed c).encode v = .ok e ∧
      ∀ r, (e ++ r).length < 2 ^ 31 →
        ((codec malformed c).decode (e ++ r) = .ok ⟨e.length, v⟩ ↔
          CollectionsLast c v ∧ (HasCollection c v → r = []))) ∧
    ∀ bytes, (∃ res, (codec malformed c).decode bytes = .ok res) ∨
      ∃ reason, (codec malformed c).decode bytes = .error (.codecFailure reason) := by
  have hlawful : (codec malformed c).Lawful _ _ _ := codec_lawful c
  constructor
  · intro v hv
    obtain ⟨e, he, -⟩ := hlawful.encodes v hv
    exact ⟨e, he, fun r hlength => hlawful.reads_back_iff hv he hlength⟩
  · intro bytes
    obtain ⟨res, hres, -⟩ | hfailure := hlawful.decided bytes
    · exact .inl ⟨res, hres⟩
    · exact .inr hfailure

end StorageCodec

namespace Sample

open StorageCodec

/-- A number, and then numbers. -/
def numbersLast : Value (.tuple2 .short (.seq .short)) := ((5 : Int16), ([1, 2] : List Int16))

/-- Numbers, and then a number. -/
def numbersFirst : Value (.tuple2 (.seq .short) .short) := (([1] : List Int16), (2 : Int16))

/-- Numbers. -/
def numbers : Value (.seq .short) := ([1] : List Int16)

/-- Bytes that may be missing, and a number. -/
def optionFirst : Value (.tuple2 (.option .byteStr) .short) :=
  ((some [1, 2, 3] : Option ByteStr), (5 : Int16))

/-- Numbers at the end are read back, and what has no collection is with any bytes behind it. -/
theorem values_read_back :
    (∃ e, (codec (fun _ => "") (.tuple2 .short (.seq .short))).encode numbersLast = .ok e ∧
      (codec (fun _ => "") (.tuple2 .short (.seq .short))).decode e
        = .ok ⟨e.length, numbersLast⟩) ∧
    ∃ e, (codec (fun _ => "") (.tuple2 (.option .byteStr) .short)).encode optionFirst = .ok e ∧
      (codec (fun _ => "") (.tuple2 (.option .byteStr) .short)).decode (e ++ [7, 8])
        = .ok ⟨e.length, optionFirst⟩ := by
  constructor
  · obtain ⟨e, he, hiff⟩ := (decode_encode_iff (fun _ => "") (.tuple2 .short (.seq .short))).1
      numbersLast ⟨trivial, fun _ _ => trivial⟩
    have hlength : e.length < 2 ^ 31 := by
      obtain rfl := Except.ok.inj he
      decide +kernel
    have hback := (hiff [] (by rwa [List.append_nil])).mpr ⟨⟨id, id, trivial⟩, fun _ => rfl⟩
    rw [List.append_nil] at hback
    exact ⟨e, he, hback⟩
  · obtain ⟨e, he, hiff⟩ := (decode_encode_iff (fun _ => "")
      (.tuple2 (.option .byteStr) .short)).1 optionFirst ⟨fun _ _ => trivial, trivial⟩
    have hlength : (e ++ [7, 8]).length < 2 ^ 31 := by
      obtain rfl := Except.ok.inj he
      decide +kernel
    have hnone : ¬ HasCollection (.option .byteStr) optionFirst.1 := fun ⟨_, _, h⟩ => h
    exact ⟨e, he, (hiff [7, 8] hlength).mpr
      ⟨⟨hnone, trivial⟩, fun h => h.elim (fun h => absurd h hnone) False.elim⟩⟩

/-- Numbers before a number are not, nor are numbers with a byte behind them. -/
theorem numbersFirst_lost :
    (∃ e, (codec (fun _ => "") (.tuple2 (.seq .short) .short)).encode numbersFirst = .ok e ∧
      (codec (fun _ => "") (.tuple2 (.seq .short) .short)).decode e
        ≠ .ok ⟨e.length, numbersFirst⟩) ∧
    ∃ e, (codec (fun _ => "") (.seq .short)).encode numbers = .ok e ∧
      (codec (fun _ => "") (.seq .short)).decode (e ++ [0]) ≠ .ok ⟨e.length, numbers⟩ := by
  refine ⟨⟨_, rfl, fun h => ?_⟩, _, rfl, fun h => ?_⟩
  · exact absurd (congrArg Except.isOk h) (by decide +kernel)
  · exact absurd (congrArg Except.isOk h) (by decide +kernel)

end Sample

end Vsys
