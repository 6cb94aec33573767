import Vsys.State.Diff
import Vsys.Transaction.Parser

/-!
# Blocks

A block, its bytes, and the parser that reads a stored block back.  Only blocks of versions 1 and 2
can be read back; a block of version 3 can be written and not read.
-/

namespace Vsys

open Lib

/-- `SposConsensusBlockData`. -/
structure SposConsensusBlockData where
  mintTime : Int64
  mintBalance : Int64
  deriving DecidableEq

/-- `SignerData`. -/
structure SignerData where
  generator : PublicKeyAccount
  signature : ByteStr
  deriving DecidableEq

variable [Platform]

/-- `Block`. -/
structure Block where
  timestamp : Int64
  version : Byte
  reference : ByteStr
  signerData : SignerData
  consensusData : SposConsensusBlockData
  transactionData : List ProcessedTransaction
  deriving DecidableEq

namespace Block

/-- `Block.MaxTransactionsPerBlockVer1`. -/
def MaxTransactionsPerBlockVer1 : Nat := 100

/-- `Block.MaxTransactionsPerBlockVer2`. -/
def MaxTransactionsPerBlockVer2 : Nat := 65535

/-- `TransactionParser.SignatureLength`. -/
def SignatureLength : Nat := 64

/-- `uniqueId`. -/
def uniqueId (b : Block) : ByteStr := b.signerData.signature

/-- The transactions of the block without their status. -/
def transactions (b : Block) : List Transaction := b.transactionData.map (·.transaction)

/-- Bytes after their length, in four bytes. -/
def sized (bytes : ByteStr) : ByteStr :=
  Ints.toByteArray (Int32.ofNat bytes.length) ++ bytes

/-- `TransactionsBlockField(version, _).bytes`; a version other than 1, 2 and 3 matches no case. -/
def transactionsBytes (version : Byte) (txs : List ProcessedTransaction) : Result ByteStr :=
  let body := (txs.map fun tx => sized tx.bytes).flatten
  if version = 1 ∨ version = 2 then
    if txs.length ≤ MaxTransactionsPerBlockVer1 then .ok (Int8.ofNat txs.length :: body)
    else raise (.exception "assertion failed")
  else if version = 3 then
    if txs.length ≤ MaxTransactionsPerBlockVer2 then
      .ok (Int8.ofNat (txs.length / 256) :: Int8.ofNat (txs.length % 256) :: body)
    else raise (.exception "assertion failed")
  else raise .matchError

/-- `MerkleRootBlockField(_, _).bytes`. -/
def merkleRootBytes (txs : List ProcessedTransaction) : ByteStr :=
  if txs = [] then List.replicate 32 0 else Platform.merkleRoot (txs.map ProcessedTransaction.bytes)

/-- `SposConsensusBlockField(_).bytes`. -/
def consensusBytes (c : SposConsensusBlockData) : ByteStr :=
  Longs.toByteArray c.mintTime ++ Longs.toByteArray c.mintBalance

/-- `ResourcePricingBlockField(_).bytes` of the five zeros every block has. -/
def resourcePricingBytes : ByteStr := List.replicate 40 0

/-- `Block.bytes`. -/
def bytes (b : Block) : Result ByteStr := do
  let txBytes ← transactionsBytes b.version b.transactionData
  .ok (b.version :: Longs.toByteArray b.timestamp ++ b.reference
    ++ sized (consensusBytes b.consensusData) ++ sized resourcePricingBytes
    ++ merkleRootBytes b.transactionData ++ sized txBytes
    ++ b.signerData.generator.publicKey ++ b.signerData.signature)

/-- `blockScore`: the minting balance in units of the coin, and at least one. -/
def blockScore (b : Block) : Int := (max (b.consensusData.mintBalance / 100000000) 1).toInt

/-- `feesDistribution`: the fees are destroyed. -/
def feesDistribution (_ : Block) : Diff := Diff.empty

/-- `signatureValid`, of the bytes without the signature. -/
def signatureValid (b : Block) : Result Bool := do
  let bytes ← b.bytes
  let bytesWithoutSignature := bytes.take (bytes.length - SignatureLength)
  .ok (Platform.verify b.signerData.signature bytesWithoutSignature
    b.signerData.generator.publicKey)

/-- `Signed.validateSignatures` of a block and of its transactions. -/
def validateSignatures (b : Block) : Result Unit := do
  if ← b.signatureValid then
    match b.transactions.find? (fun tx => !tx.signatureValid) with
    | none => .ok ()
    | some tx => left (.invalidSignature b.uniqueId (some tx.id))
  else left (.invalidSignature b.uniqueId none)

/-- The loop of `transParseBytes`: `count` transactions from `pos` on.  Positions are 32-bit numbers,
here and in `parseBytes`, and wrap. -/
def transParseFrom (bytes : ByteStr) : Nat → Int32 → Result (List ProcessedTransaction)
  | 0, _ => .ok []
  | count + 1, pos => do
      let transactionLength ← Ints.fromByteArray (slice bytes pos.toInt (pos + 4).toInt)
      let tx ← ProcessedTransactionParser.parseBytes
        (slice bytes (pos + 4).toInt (pos + 4 + transactionLength).toInt)
      let txs ← transParseFrom bytes count (pos + 4 + transactionLength)
      .ok (tx :: txs)

/-- `transParseBytes`. -/
def transParseBytes (version : Byte) : ByteStr → Result (List ProcessedTransaction)
  | [] => .ok []
  | count :: bytes =>
      if version = 1 ∨ version = 2 then transParseFrom bytes count.toInt.toNat 0
      else raise (.exception "an implementation is missing")

/-- `Block.parseBytes`; every error in it is a `Failure`. -/
def parseBytes (bytes : ByteStr) : Result Block := do
  let version ← getOrRaise .noSuchElement bytes.head?
  let timestamp ← Longs.fromByteArray (slice bytes 1 9)
  let reference := slice bytes 9 73
  let cBytesLength ← Ints.fromByteArray (slice bytes 73 77)
  let cBytes := slice bytes 77 (77 + cBytesLength).toInt
  let mintTime ← Longs.fromByteArray (slice cBytes 0 8)
  let mintBalance ← Longs.fromByteArray (slice cBytes 8 16)
  let fStart := 77 + cBytesLength
  let fBytesLength ← Ints.fromByteArray (slice bytes fStart.toInt (fStart + 4).toInt)
  let tStart := fStart + 4 + fBytesLength + 32
  let tBytesLength ← Ints.fromByteArray (slice bytes tStart.toInt (tStart + 4).toInt)
  let tBytes := slice bytes (tStart + 4).toInt (tStart + 4 + tBytesLength).toInt
  let txBlockField ← transParseBytes version tBytes
  let position := tStart + 4 + tBytesLength
  let genPK := slice bytes position.toInt (position + 32).toInt
  let signature := slice bytes (position + 32).toInt (position + 32 + 64).toInt
  .ok ⟨timestamp, version, reference, ⟨⟨genPK⟩, signature⟩, ⟨mintTime, mintBalance⟩, txBlockField⟩

/-- Whether the block survives being stored: its bytes are the bytes of the block itself. -/
def Storable (b : Block) : Prop := ∃ bytes, b.bytes = .ok bytes ∧ parseBytes bytes = .ok b

theorem blockScore_pos (b : Block) : 0 < b.blockScore := by
  unfold blockScore
  change 0 < (if b.consensusData.mintBalance / 100000000 ≤ 1 then (1 : Int64)
    else b.consensusData.mintBalance / 100000000).toInt
  split
  · decide
  · rename_i h
    have hone : (1 : Int64).toInt = 1 := rfl
    rw [Int64.not_le, Int64.lt_iff_toInt_lt] at h
    omega

end Block

end Vsys
