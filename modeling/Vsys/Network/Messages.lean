import Vsys.Chain.Block
import Vsys.Chain.CheckpointService

/-!
# The messages of the network

`BasicMessagesRepo`: for every kind of message a code, the greatest length of its data, and how the
data is written and read; and `LegacyFrameCodec`, which frames the data with a magic number, the
code, its length and a checksum.
-/

namespace Vsys

open Lib

/-- `util.Arrays.copyOfRange`: what lies past the end is zero. -/
def copyOfRange (bytes : ByteStr) (start stop : Int32) : Result ByteStr :=
  if stop < start then raise .illegalArgument
  else if start.toInt < 0 ∨ (bytes.length : Int) < start.toInt then raise .indexOutOfBounds
  else
    let count := stop.toInt.toNat - start.toInt.toNat
    .ok ((bytes.drop start.toInt.toNat ++ List.replicate count 0).take count)

/-- `BigInt(1, bytes)`: the bytes as a magnitude. -/
def BigInt.ofMagnitude (bytes : ByteStr) : Int := BigEndian.decode bytes

/-- Whether sixteen bytes are an IPv6 address that stands for an IPv4 address. -/
def IsIPv4Mapped (addr : ByteStr) : Prop := addr.take 12 = List.replicate 10 0 ++ [-1, -1]

instance (addr : ByteStr) : Decidable (IsIPv4Mapped addr) := inferInstanceAs (Decidable (_ = _))

/-- `InetAddress`: an IPv4 address, or an IPv6 address that stands for none. -/
structure InetAddress where
  bytes : ByteStr
  valid : bytes.length = 4 ∨ bytes.length = 16 ∧ ¬ IsIPv4Mapped bytes
  deriving DecidableEq

/-- `InetAddress.getByAddress`. -/
def InetAddress.getByAddress (addr : ByteStr) : Result InetAddress :=
  if hlength : addr.length = 4 then .ok ⟨addr, .inl hlength⟩
  else if hlength : addr.length = 16 then
    if hmapped : IsIPv4Mapped addr then
      .ok ⟨addr.drop 12, .inl (by rw [List.length_drop, hlength])⟩
    else .ok ⟨addr, .inr ⟨hlength, hmapped⟩⟩
  else raise (.exception "addr is of illegal length")

/-- `InetSocketAddress`, with a resolved address. -/
structure InetSocketAddress where
  address : InetAddress
  port : Int32
  port_range : 0 ≤ port.toInt ∧ port.toInt ≤ 65535
  deriving DecidableEq

/-- `new InetSocketAddress(address, port)`. -/
def InetSocketAddress.create (address : InetAddress) (port : Int32) : Result InetSocketAddress :=
  if hport : 0 ≤ port.toInt ∧ port.toInt ≤ 65535 then .ok ⟨address, port, hport⟩
  else raise .illegalArgument

theorem InetAddress.getByAddress_bytes (a : InetAddress) : getByAddress a.bytes = .ok a := by
  have hvalid := a.valid
  rw [getByAddress]
  split
  · rfl
  · obtain hshort | ⟨hlength, hmapped⟩ := hvalid
    · exact absurd hshort ‹_›
    · rw [dif_pos hlength, dif_neg hmapped]

/-- `TransactionParser.SignatureLength`, as the specs compute with it. -/
def SignatureLength : Int32 := 64

/-- `Checkpoint.MaxCheckpoints`. -/
def MaxCheckpoints : Int32 := 10

/-- The specs of `BasicMessagesRepo`. -/
inductive MessageSpec where
  | getPeersSpec
  | peersSpec
  | getSignaturesSpec
  | signaturesSpec
  | getBlockSpec
  | blockMessageSpec
  | scoreMessageSpec
  | checkpointMessageSpec
  | transactionMessageSpec
  deriving DecidableEq

namespace MessageSpec

/-- `messageCode`. -/
def messageCode : MessageSpec → Byte
  | getPeersSpec => 1
  | peersSpec => 2
  | getSignaturesSpec => 20
  | signaturesSpec => 21
  | getBlockSpec => 22
  | blockMessageSpec => 23
  | scoreMessageSpec => 24
  | checkpointMessageSpec => 100
  | transactionMessageSpec => 25

/-- `messageName`. -/
def messageName : MessageSpec → String
  | getPeersSpec => "GetPeers message"
  | peersSpec => "Peers message"
  | getSignaturesSpec => "GetSignatures message"
  | signaturesSpec => "Signatures message"
  | getBlockSpec => "GetBlock message"
  | blockMessageSpec => "Block message"
  | scoreMessageSpec => "Score message"
  | checkpointMessageSpec => "Checkpoint message"
  | transactionMessageSpec => "Transaction message"

/-- `maxLength`. -/
def maxLength : MessageSpec → Int
  | getPeersSpec => 0
  | peersSpec => 4 + 1000 * (4 + 4)
  | getSignaturesSpec => 4 + 200 * 64
  | signaturesSpec => 4 + 200 * 64
  | getBlockSpec => 64
  | blockMessageSpec => 271 + (120 + 16 + 1000 + 8) * 255
  | scoreMessageSpec => 64
  | checkpointMessageSpec => 4 + 10 * (4 + 64)
  | transactionMessageSpec => 120 + 16 + 1000 + 8

/-- `BasicMessagesRepo.specs`. -/
def specs : List MessageSpec :=
  [getPeersSpec, peersSpec, getSignaturesSpec, signaturesSpec, getBlockSpec, blockMessageSpec,
    scoreMessageSpec, checkpointMessageSpec, transactionMessageSpec]

/-- `messageSpecs`, the specs by their codes. -/
def messageSpecs (code : Byte) : Option MessageSpec :=
  specs.find? fun spec => spec.messageCode = code

theorem messageSpecs_messageCode (spec : MessageSpec) :
    messageSpecs spec.messageCode = some spec := by
  cases spec <;> rfl

end MessageSpec

/-- `GetPeersSpec.deserializeData`. -/
def GetPeersSpec.deserializeData (bytes : ByteStr) : Result Unit :=
  if bytes = [] then .ok () else raise .illegalArgument

/-- `PeersSpec.serializeData`. -/
def PeersSpec.serializeData (peers : List InetSocketAddress) : ByteStr :=
  Ints.toByteArray (Int32.ofNat peers.length)
    ++ (peers.map fun peer => peer.address.bytes ++ Ints.toByteArray peer.port).flatten

/-- `PeersSpec.deserializeData`. -/
def PeersSpec.deserializeData (bytes : ByteStr) : Result (List InetSocketAddress) := do
  let lengthBytes ← copyOfRange bytes 0 4
  let length ← Ints.fromByteArray lengthBytes
  if (bytes.length : Int) = (4 + length * (4 + 4)).toInt then
    (List.range length.toInt.toNat).mapM fun i => do
      let position := 4 + Int32.ofNat i * (4 + 4)
      let addressBytes ← copyOfRange bytes position (position + 4)
      let address ← InetAddress.getByAddress addressBytes
      let portBytes ← copyOfRange bytes (position + 4) (position + 4 + 4)
      let port ← Ints.fromByteArray portBytes
      InetSocketAddress.create address port
  else raise (.exception "assertion failed: Data does not match length")

/-- `SignaturesSeqSpec.serializeData`. -/
def SignaturesSeqSpec.serializeData (signatures : List ByteStr) : ByteStr :=
  Ints.toByteArray (Int32.ofNat signatures.length) ++ signatures.flatten

/-- `SignaturesSeqSpec.deserializeData`. -/
def SignaturesSeqSpec.deserializeData (bytes : ByteStr) : Result (List ByteStr) := do
  let length ← Ints.fromByteArray (bytes.take 4)
  if (bytes.length : Int) = (4 + length * SignatureLength).toInt then
    .ok ((List.range length.toInt.toNat).map fun i =>
      let position := 4 + Int32.ofNat i * SignatureLength
      slice bytes position.toInt (position + SignatureLength).toInt)
  else raise (.exception "assertion failed: Data does not match length")

/-- `GetBlockSpec.deserializeData`. -/
def GetBlockSpec.deserializeData (bytes : ByteStr) : Result ByteStr :=
  if (bytes.length : Int) = MessageSpec.getBlockSpec.maxLength then .ok bytes
  else raise .illegalArgument

/-- `CheckpointMessageSpec.serializeData`. -/
def CheckpointMessageSpec.serializeData (checkpoint : Checkpoint) : ByteStr :=
  checkpoint.toSign ++ checkpoint.signature

/-- `CheckpointMessageSpec.deserializeData`. -/
def CheckpointMessageSpec.deserializeData (bytes : ByteStr) : Result Checkpoint := do
  let lengthBytes ← copyOfRange bytes 0 4
  let length ← Ints.fromByteArray lengthBytes
  if length ≤ MaxCheckpoints then
    let items ← (List.range length.toInt.toNat).mapM fun i => do
      let position := 4 + Int32.ofNat i * (4 + SignatureLength)
      let heightBytes ← copyOfRange bytes position (position + 4)
      let height ← Ints.fromByteArray heightBytes
      let blockSignature ← copyOfRange bytes (position + 4) (position + 4 + SignatureLength)
      .ok ⟨height, blockSignature⟩
    .ok ⟨items, bytes.drop (bytes.length - 64)⟩
  else raise .illegalArgument

section Platform

variable [Platform]

/-- What the node sends. -/
inductive Message where
  | getPeers
  | knownPeers (peers : List InetSocketAddress)
  | getSignatures (ids : List ByteStr)
  | signatures (ids : List ByteStr)
  | getBlock (signature : ByteStr)
  | block (block : Block)
  | localScoreChanged (newLocalScore : Int)
  | checkpoint (checkpoint : Checkpoint)
  | transaction (tx : Transaction)

/-- `RawBytes`. -/
structure RawBytes where
  code : Byte
  data : ByteStr
  deriving DecidableEq

namespace Message

/-- The spec of a message. -/
def spec : Message → MessageSpec
  | getPeers => .getPeersSpec
  | knownPeers _ => .peersSpec
  | getSignatures _ => .getSignaturesSpec
  | signatures _ => .signaturesSpec
  | getBlock _ => .getBlockSpec
  | block _ => .blockMessageSpec
  | localScoreChanged _ => .scoreMessageSpec
  | checkpoint _ => .checkpointMessageSpec
  | transaction _ => .transactionMessageSpec

/-- `serializeData` of the spec of a message. -/
def serializeData : Message → Result ByteStr
  | getPeers => .ok []
  | knownPeers peers => .ok (PeersSpec.serializeData peers)
  | getSignatures ids => .ok (SignaturesSeqSpec.serializeData ids)
  | signatures ids => .ok (SignaturesSeqSpec.serializeData ids)
  | getBlock signature => .ok signature
  | block b => b.bytes
  | localScoreChanged score => .ok (BigInt.toByteArray score)
  | checkpoint cp => .ok (CheckpointMessageSpec.serializeData cp)
  | transaction tx => .ok tx.bytes

/-- `deserializeData`, by spec. -/
def deserializeData (bytes : ByteStr) : MessageSpec → Result Message
  | .getPeersSpec => (fun _ => getPeers) <$> GetPeersSpec.deserializeData bytes
  | .peersSpec => knownPeers <$> PeersSpec.deserializeData bytes
  | .getSignaturesSpec => getSignatures <$> SignaturesSeqSpec.deserializeData bytes
  | .signaturesSpec => signatures <$> SignaturesSeqSpec.deserializeData bytes
  | .getBlockSpec => getBlock <$> GetBlockSpec.deserializeData bytes
  | .blockMessageSpec => block <$> Block.parseBytes bytes
  | .scoreMessageSpec => .ok (localScoreChanged (BigInt.ofMagnitude bytes))
  | .checkpointMessageSpec => checkpoint <$> CheckpointMessageSpec.deserializeData bytes
  | .transactionMessageSpec => transaction <$> TransactionParser.parseBytes bytes

end Message

/-- `MessageCodec.encode`; blocks and transactions reach it as raw bytes of their specs. -/
def MessageCodec.encode (msg : Message) : Result RawBytes := do
  let data ← msg.serializeData
  .ok ⟨msg.spec.messageCode, data⟩

/-- `MessageCodec.decode`; a failure blacklists the peer. -/
def MessageCodec.decode (msg : RawBytes) : Result Message := do
  let spec ← getOrRaise .noSuchElement (MessageSpec.messageSpecs msg.code)
  Message.deserializeData msg.data spec

namespace LegacyFrameCodec

/-- `Magic`. -/
def Magic : Int32 := 0xbfadafbe

/-- `ChecksumLength`. -/
def ChecksumLength : Nat := 4

/-- The checksum of some data. -/
def checksum (data : ByteStr) : ByteStr := (Platform.fastHash data).take ChecksumLength

/-- `LegacyFrameCodec.encode`. -/
def encode (msg : RawBytes) : ByteStr :=
  Ints.toByteArray Magic ++ msg.code ::
    (if 0 < msg.data.length then
      Ints.toByteArray (Int32.ofNat msg.data.length) ++ checksum msg.data ++ msg.data
    else Ints.toByteArray 0)

/-- `ByteBuf.readBytes` of so many bytes: the bytes and those that follow. -/
def readBytes (input : ByteStr) (count : Nat) : Result (ByteStr × ByteStr) :=
  if count ≤ input.length then .ok (input.take count, input.drop count)
  else raise .indexOutOfBounds

/-- `LegacyFrameCodec.decode`; every exception in it blacklists the peer. -/
def decode (input : ByteStr) : Result RawBytes := do
  let (magicBytes, input) ← readBytes input 4
  let magic ← Ints.fromByteArray magicBytes
  if magic = Magic then
    let (codeBytes, input) ← readBytes input 1
    let code ← getOrRaise .indexOutOfBounds codeBytes.head?
    let spec ← getOrRaise .illegalArgument (MessageSpec.messageSpecs code)
    let (lengthBytes, input) ← readBytes input 4
    let length ← Ints.fromByteArray lengthBytes
    if length.toInt ≤ spec.maxLength then
      if length.toInt < 0 then raise (.exception "NegativeArraySizeException")
      else if 0 < length.toInt then
        let (declaredChecksum, input) ← readBytes input ChecksumLength
        let (dataBytes, _) ← readBytes input length.toInt.toNat
        if declaredChecksum = checksum dataBytes then .ok ⟨code, dataBytes⟩
        else raise .illegalArgument
      else .ok ⟨code, []⟩
    else raise .illegalArgument
  else raise .illegalArgument

end LegacyFrameCodec

end Platform

end Vsys
