import Vsys.Chain.CheckpointService
import Vsys.Transaction.Fields

/-!
# The codecs of the storage

A `Codec` writes a value as bytes, and reads one from the start of some bytes and says how many it
took.  Pairs, collections and options are read by codecs for their parts, one after the other.
-/

namespace Vsys

open Lib

/-- `DecodeResult`. -/
structure DecodeResult (A : Type) where
  length : Nat
  value : A
  deriving DecidableEq

/-- Why `decode` returns no result: a `CodecFailure`, or a loop that does not end. -/
inductive DecodeFault where
  | codecFailure (reason : String)
  | endless
  deriving DecidableEq

/-- `Codec`. -/
structure Codec (A : Type) where
  encode : A → Result ByteStr
  decode : ByteStr → Except DecodeFault (DecodeResult A)

/-- `Try(..).toEither.left.map(e => CodecFailure(e.getMessage))`. -/
def tryToEither {A : Type} (message : String) : Result A → Except DecodeFault A
  | .ok a => .ok a
  | .error _ => .error (.codecFailure message)

/-- What Guava says of too few bytes. -/
def tooSmall (bytes : ByteStr) (size : Nat) : String := s!"array too small: {bytes.length} < {size}"

namespace Codec

/-- `decodeShort`. -/
def decodeShort (bytes : ByteStr) : Except DecodeFault Int16 :=
  tryToEither (tooSmall bytes 2) (Shorts.fromByteArray bytes)

/-- `decodeInt`. -/
def decodeInt (bytes : ByteStr) : Except DecodeFault Int32 :=
  tryToEither (tooSmall bytes 4) (Ints.fromByteArray bytes)

/-- `decodeLong`. -/
def decodeLong (bytes : ByteStr) : Except DecodeFault Int64 :=
  tryToEither (tooSmall bytes 8) (Longs.fromByteArray bytes)

/-- `encodeBoolean`. -/
def encodeBoolean (value : Bool) : ByteStr := if value then [1] else [0]

/-- `decodeBoolean`: every byte but 1 is false, and so is no byte. -/
def decodeBoolean (bytes : ByteStr) : Bool := bytes.take 1 == [1]

/-- Bytes behind their length. -/
def encodePrefixed (bytes : ByteStr) : ByteStr :=
  Ints.toByteArray (Int32.ofNat bytes.length) ++ bytes

/-- As many bytes as the four before them say; the end of the slice is computed in 32 bits. -/
def decodePrefixed (reason : String) (bytes : ByteStr) :
    Except DecodeFault (DecodeResult ByteStr) := do
  let s ← decodeInt (bytes.take 4)
  let a := slice bytes 4 (4 + s).toInt
  ensure ((a.length : Int) = s.toInt) (.codecFailure reason)
  return ⟨(4 + s).toInt.toNat, a⟩

/-- A codec for values of a fixed size. -/
def ofSize (size : Nat) (reason : String) : Codec ByteStr where
  encode value := .ok (value.take size)
  decode bytes := do
    let a := bytes.take size
    ensure (a.length = size) (.codecFailure reason)
    return ⟨size, a⟩

end Codec

open Codec

/-- `ShortCodec`. -/
def ShortCodec : Codec Int16 where
  encode value := .ok (Shorts.toByteArray value)
  decode bytes := do
    let v ← decodeShort (bytes.take 2)
    return ⟨2, v⟩

/-- `StringCodec`; `malformed` is what bytes that are not UTF-8 become. -/
def StringCodec (malformed : ByteStr → String) : Codec String where
  encode value := .ok (encodePrefixed (Deser.serilizeString value))
  decode bytes := do
    let r ← decodePrefixed "incorrect string byte representation length" bytes
    return ⟨r.length, okOr (Deser.deserilizeString r.value) (malformed r.value)⟩

/-- `ByteStrCodec`. -/
def ByteStrCodec : Codec ByteStr where
  encode value := .ok (encodePrefixed value)
  decode := decodePrefixed "incorrect ByteStr length"

/-- `KeyCodec`. -/
def KeyCodec : Codec ByteStr := ofSize 8 "incorrect key size"

/-- `Id32Codec`. -/
def Id32Codec : Codec ByteStr := ofSize 32 "incorrect id32 size"

/-- `BlockCheckpointCodec`. -/
def BlockCheckpointCodec : Codec BlockCheckpoint where
  encode := BlockCheckpoint.encode
  decode arr := do
    let height ← decodeInt (arr.take 4)
    ensure (4 + Codec.SignatureLength ≤ arr.length) (.codecFailure "not enough bytes for signature")
    return ⟨4 + Codec.SignatureLength, ⟨height, slice arr 4 (4 + Codec.SignatureLength)⟩⟩

/-- `PortfolioItemCodec`. -/
def PortfolioItemCodec (malformed : ByteStr → String) : Codec (String × Int64) where
  encode value := do
    let r ← (StringCodec malformed).encode value.1
    return r ++ Longs.toByteArray value.2
  decode bytes := do
    let r ← (StringCodec malformed).decode bytes
    let v2 ← decodeLong (slice bytes r.length (r.length + 8))
    return ⟨r.length + 8, (r.value, v2)⟩

/-- `Tuple2Codec`. -/
def Tuple2Codec {A B : Type} (aCodec : Codec A) (bCodec : Codec B) : Codec (A × B) where
  encode value := do
    let a ← aCodec.encode value.1
    let b ← bCodec.encode value.2
    return a ++ b
  decode bytes := do
    let a ← aCodec.decode bytes
    let b ← bCodec.decode (bytes.drop a.length)
    return ⟨a.length + b.length, (a.value, b.value)⟩

/-- `OptionCodec`. -/
def OptionCodec {A : Type} (valueCodec : Codec A) : Codec (Option A) where
  encode value := do
    match value with
    | some x => return encodeBoolean true ++ (← valueCodec.encode x)
    | none => return encodeBoolean false
  decode bytes :=
    if decodeBoolean bytes then do
      let x ← valueCodec.decode (bytes.drop 1)
      return ⟨1 + x.length, some x.value⟩
    else .ok ⟨1, none⟩

/-- A type of collections: how they are iterated over, and what a builder makes of elements. -/
structure CanBuildFrom (A Col : Type) where
  toSeq : Col → List A
  result : List A → Col
  result_toSeq : ∀ c, result (toSeq c) = c
  length_result : ∀ l, (toSeq (result l)).length ≤ l.length
  toSeq_result : ∀ l, (toSeq (result l)).length = l.length → toSeq (result l) = l

/-- The loop of `ColCodec.decode`, with the elements so far; the flag is `error`. -/
def decodeItems {A : Type} (valueCodec : Codec A) (bytes : ByteStr) :
    Nat → Nat → List A → Except DecodeFault (Nat × List A × Bool)
  | 0, i, builder => if bytes.length ≤ i then .ok (i, builder, false) else .error .endless
  | fuel + 1, i, builder =>
      if bytes.length ≤ i then .ok (i, builder, false)
      else
        match valueCodec.decode (bytes.drop i) with
        | .ok rr => decodeItems valueCodec bytes fuel (i + rr.length) (builder ++ [rr.value])
        | .error (.codecFailure _) => .ok (i, builder, true)
        | .error .endless => .error .endless

/-- `ColCodec`.  A step that takes no byte is repeated forever, so one for every byte is enough. -/
def ColCodec {A Col : Type} (cbf : CanBuildFrom A Col) (valueCodec : Codec A) : Codec Col where
  encode value := do
    let items ← (cbf.toSeq value).mapM valueCodec.encode
    return Ints.toByteArray (Int32.ofNat (cbf.toSeq value).length) ++ items.flatten
  decode bytes := do
    let expectedLength ← decodeInt (bytes.take 4)
    let (i, builder, error) ← decodeItems valueCodec bytes bytes.length 4 []
    let result := cbf.result builder
    ensure (error = false ∧ expectedLength.toInt = (cbf.toSeq result).length)
      (.codecFailure s!"failed to deserialize {expectedLength.toInt} items")
    return ⟨i, result⟩

/-- `Seq`. -/
def CanBuildFrom.seq (A : Type) : CanBuildFrom A (List A) where
  toSeq := id
  result := id
  result_toSeq := fun _ => rfl
  length_result := fun _ => le_rfl
  toSeq_result := fun _ _ => rfl

/-- `Set`: the elements without duplicates, in the order of its iterator. -/
def CanBuildFrom.set (A : Type) [DecidableEq A] : CanBuildFrom A {l : List A // l.Nodup} where
  toSeq := Subtype.val
  result := fun l => ⟨l.dedup, l.nodup_dedup⟩
  result_toSeq := fun c => Subtype.ext c.2.dedup
  length_result := fun l => l.dedup_sublist.length_le
  toSeq_result := fun l h => l.dedup_sublist.eq_of_length h

/-- `CheckpointCodec`. -/
def CheckpointCodec : Codec Checkpoint where
  encode value := do
    let r ← (ColCodec (.seq BlockCheckpoint) BlockCheckpointCodec).encode value.items
    if Codec.SignatureLength ≤ value.signature.length then
      return value.signature.take Codec.SignatureLength ++ r
    else raise .indexOutOfBounds
  decode bytes := do
    let signature := bytes.take Codec.SignatureLength
    ensure (signature.length = Codec.SignatureLength) (.codecFailure "incorrect signature length")
    let items ← (ColCodec (.seq BlockCheckpoint) BlockCheckpointCodec).decode
      (bytes.drop Codec.SignatureLength)
    return ⟨Codec.SignatureLength + items.length, ⟨items.value, signature⟩⟩

end Vsys
