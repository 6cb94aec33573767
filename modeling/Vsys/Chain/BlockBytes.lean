import Vsys.Chain.Heights
import Vsys.Sample

/-!
# Blocks read back from their bytes

A block of version 1 or 2 comes back from its bytes when its transactions do.  A block of version 3
never does.  The other way, the parser reads blocks that cannot be written: of other versions, with
more transactions than the encoder counts, or with a signer that lies across the beginning of the
bytes.
-/

namespace Vsys

open Lib

section Platform

variable [Platform]

namespace Block

variable {b : Block} {bytes : ByteStr} {txs : List ProcessedTransaction}

/-- A block whose fields have their lengths. -/
structure Framed (b : Block) : Prop where
  reference : b.reference.length = SignatureLength
  generator : b.signerData.generator.publicKey.length = 32
  signature : b.signerData.signature.length = SignatureLength

omit [Platform] in
theorem length_sized (part : ByteStr) : (sized part).length = 4 + part.length := by
  rw [sized, List.length_append, Ints.length_toByteArray]

/-- Transactions one after another are read back. -/
theorem transParseFrom_bytes {i : Nat}
    (h : Holds bytes i (txs.map fun tx => sized tx.bytes).flatten)
    (hread : ∀ tx ∈ txs, ProcessedTransactionParser.parseBytes tx.bytes = .ok tx)
    (hbytes : bytes.length < 2 ^ 31) :
    transParseFrom bytes txs.length (Int32.ofNat i) = .ok txs := by
  induction txs generalizing i with
  | nil => rfl
  | cons tx txs ih =>
      rw [List.map_cons, List.flatten_cons] at h
      have hprefix : Holds bytes i (Ints.toByteArray (Int32.ofNat tx.bytes.length)) := h.left.left
      have hbody : Holds bytes (i + 4) tx.bytes := by
        have := h.left.right
        rwa [Ints.length_toByteArray] at this
      have hrest := h.right
      rw [length_sized] at hrest
      have hbound := hbody.bound
      have hstart := Int32.toInt_ofNat_of_lt (n := i) (by omega)
      have hfour : Int32.ofNat i + 4 = Int32.ofNat (i + 4) := (Int32.ofNat_add i 4).symm
      have hbodyStart := Int32.toInt_ofNat_of_lt (n := i + 4) (by omega)
      have hend : Int32.ofNat (i + 4) + Int32.ofNat tx.bytes.length
          = Int32.ofNat (i + (4 + tx.bytes.length)) := by
        rw [← Int32.ofNat_add, Nat.add_assoc]
      have hbodyEnd := Int32.toInt_ofNat_of_lt (n := i + (4 + tx.bytes.length)) (by omega)
      rw [List.length_cons, transParseFrom, hfour, hstart, hbodyStart,
        hprefix.int rfl (by push_cast; rfl), ok_bind, hend, hbodyEnd,
        hbody.slice rfl (by push_cast; omega), hread tx List.mem_cons_self, ok_bind,
        ih hrest fun tx' htx' => hread tx' (List.mem_cons_of_mem tx htx')]
      rfl

/-- The bytes of the transactions of a block, of version 1 or 2, are read back. -/
theorem transParseBytes_bytes {version : Byte} (hversion : version = 1 ∨ version = 2)
    (hbytes : transactionsBytes version txs = .ok bytes)
    (hread : ∀ tx ∈ txs, ProcessedTransactionParser.parseBytes tx.bytes = .ok tx)
    (hlength : bytes.length < 2 ^ 31) : transParseBytes version bytes = .ok txs := by
  rw [transactionsBytes, if_pos hversion] at hbytes
  split at hbytes
  · rename_i hcount
    obtain rfl := Except.ok.inj hbytes
    rw [MaxTransactionsPerBlockVer1] at hcount
    rw [List.length_cons] at hlength
    have hnat : (Int8.ofNat txs.length).toInt.toNat = txs.length := by
      rw [Int8.toInt_ofNat_of_lt (by omega), Int.toNat_natCast]
    rw [transParseBytes, if_pos hversion, hnat]
    exact transParseFrom_bytes ⟨[], [], by rw [List.nil_append, List.append_nil], rfl⟩ hread
      (by omega)
  · cases hbytes

omit [Platform] in
theorem consensusBytes_parts (c : SposConsensusBlockData) :
    Longs.fromByteArray (slice (consensusBytes c) 0 8) = .ok c.mintTime ∧
      Longs.fromByteArray (slice (consensusBytes c) 8 16) = .ok c.mintBalance := by
  have hparts : consensusBytes c
      = [Longs.toByteArray c.mintTime, Longs.toByteArray c.mintBalance].flatten := by
    simp [consensusBytes]
  obtain ⟨htime, hbalance, -⟩ := parts_of_eq hparts
  simp only [Longs.length_toByteArray] at hbalance
  exact ⟨htime.long rfl rfl, hbalance.long rfl rfl⟩

theorem length_merkleRootBytes (txs : List ProcessedTransaction) :
    (merkleRootBytes txs).length = 32 := by
  unfold merkleRootBytes
  split
  · rfl
  · exact Platform.merkleRoot_length _

omit [Platform] in
theorem slice_natCast (start count : Nat) :
    slice bytes (start : Nat) ((start + count : Nat) : Int) = (bytes.drop start).take count := by
  rw [slice, Int.toNat_natCast, Int.toNat_natCast, Nat.add_sub_cancel_left]

/-- What the parser makes of the signer when its parts may be shorter than they should. -/
def SignerData.reread (s : SignerData) : SignerData where
  generator := ⟨(s.generator.publicKey ++ s.signature).take 32⟩
  signature := ((s.generator.publicKey ++ s.signature).drop 32).take 64

/-- What the parser finds in the bytes of a block. -/
theorem parseBytes_eq (href : b.reference.length = SignatureLength) {txBytes : ByteStr}
    (htxs : transactionsBytes b.version b.transactionData = .ok txBytes)
    (hbytes : b.bytes = .ok bytes) (hroom : 173 + txBytes.length + 96 < 2 ^ 31) :
    parseBytes bytes
      = (fun txs => { b with transactionData := txs, signerData := SignerData.reread b.signerData })
        <$> transParseBytes b.version txBytes := by
  rw [Block.bytes, htxs, ok_bind] at hbytes
  have hparts : bytes = [[b.version], Longs.toByteArray b.timestamp, b.reference,
      Ints.toByteArray (Int32.ofNat (consensusBytes b.consensusData).length),
      consensusBytes b.consensusData,
      Ints.toByteArray (Int32.ofNat resourcePricingBytes.length), resourcePricingBytes,
      merkleRootBytes b.transactionData, Ints.toByteArray (Int32.ofNat txBytes.length), txBytes,
      b.signerData.generator.publicKey ++ b.signerData.signature].flatten := by
    rw [← Except.ok.inj hbytes]
    simp [sized]
  have hconsensus : (consensusBytes b.consensusData).length = 16 := by
    rw [consensusBytes, List.length_append, Longs.length_toByteArray, Longs.length_toByteArray]
  have hpricing : resourcePricingBytes.length = 40 := by
    rw [resourcePricingBytes, List.length_replicate]
  have hmerkle := length_merkleRootBytes b.transactionData
  rw [SignatureLength] at href
  -- The positions of the fields are 32-bit sums in the source; up to the transactions they are
  -- constants, and behind them the room excludes a wrap.
  obtain ⟨hversion, htime, href', hcl, hc, hfl, -, -, htl, ht, hs, hend⟩ := parts_of_eq hparts
  simp only [List.length_singleton, Longs.length_toByteArray, Ints.length_toByteArray, hconsensus,
    hpricing, hmerkle, href, Parts] at htime href' hcl hc hfl htl ht hs hend
  have hhead : bytes.head? = some b.version := by
    rw [List.head?_eq_getElem?]
    exact hversion.head
  have htime' : Longs.fromByteArray (slice bytes 1 9) = .ok b.timestamp := htime.long rfl rfl
  have hreference : slice bytes 9 73 = b.reference := href'.slice rfl (by rw [href]; rfl)
  have hcl' : Ints.fromByteArray (slice bytes 73 77) = .ok 16 := hcl.int rfl rfl
  have hc' : slice bytes 77 (77 + 16 : Int32).toInt = consensusBytes b.consensusData :=
    hc.slice rfl (by rw [hconsensus]; rfl)
  have hfl' : Ints.fromByteArray (slice bytes (77 + 16 : Int32).toInt (77 + 16 + 4 : Int32).toInt)
      = .ok 40 := hfl.int rfl rfl
  have htl' : Ints.fromByteArray (slice bytes (77 + 16 + 4 + 40 + 32 : Int32).toInt
      (77 + 16 + 4 + 40 + 32 + 4 : Int32).toInt) = .ok (Int32.ofNat txBytes.length) :=
    htl.int rfl rfl
  have hposition : (77 + 16 + 4 + 40 + 32 + 4 + Int32.ofNat txBytes.length : Int32)
      = Int32.ofNat (173 + txBytes.length) := (Int32.ofNat_add 173 _).symm
  have hgenerator : (Int32.ofNat (173 + txBytes.length) + 32 : Int32)
      = Int32.ofNat (173 + txBytes.length + 32) := (Int32.ofNat_add _ 32).symm
  have hsignature : (Int32.ofNat (173 + txBytes.length + 32) + 64 : Int32)
      = Int32.ofNat (173 + txBytes.length + 32 + 64) := (Int32.ofNat_add _ 64).symm
  have hstart := Int32.toInt_ofNat_of_lt (n := 173 + txBytes.length) (by omega)
  have hmiddle := Int32.toInt_ofNat_of_lt (n := 173 + txBytes.length + 32) (by omega)
  have hstop := Int32.toInt_ofNat_of_lt (n := 173 + txBytes.length + 32 + 64) (by omega)
  have ht' : slice bytes (77 + 16 + 4 + 40 + 32 + 4 : Int32).toInt
      ((173 + txBytes.length : Nat) : Int) = txBytes := ht.slice rfl (by push_cast; rfl)
  have hrest : bytes.drop (173 + txBytes.length)
      = b.signerData.generator.publicKey ++ b.signerData.signature := by
    have htake := hs.take_drop
    rwa [List.take_of_length_le (by rw [List.length_drop]; omega)] at htake
  have hg' : slice bytes ((173 + txBytes.length : Nat) : Int)
      ((173 + txBytes.length + 32 : Nat) : Int)
      = (b.signerData.generator.publicKey ++ b.signerData.signature).take 32 := by
    rw [slice_natCast, hrest]
  have hs' : slice bytes ((173 + txBytes.length + 32 : Nat) : Int)
      ((173 + txBytes.length + 32 + 64 : Nat) : Int)
      = ((b.signerData.generator.publicKey ++ b.signerData.signature).drop 32).take 64 := by
    rw [slice_natCast, ← List.drop_drop, hrest]
  obtain ⟨hmintTime, hmintBalance⟩ := consensusBytes_parts b.consensusData
  simp only [parseBytes, hhead, getOrRaise, ok_bind, htime', hreference, hcl', hc', hmintTime,
    hmintBalance, hfl', htl', hposition, hgenerator, hsignature, hstart, hmiddle, hstop, ht', hg',
    hs']
  cases transParseBytes b.version txBytes with
  | ok txs => rfl
  | error e => rfl

omit [Platform] in
/-- A signer whose key fills its place, or who has no signature behind it, is read back. -/
theorem SignerData.reread_eq_iff {s : SignerData} (hkey : s.generator.publicKey.length ≤ 32)
    (hsignature : s.signature.length ≤ 64) :
    SignerData.reread s = s ↔ s.generator.publicKey.length = 32 ∨ s.signature = [] := by
  obtain ⟨⟨key⟩, signature⟩ := s
  simp only [SignerData.reread, SignerData.mk.injEq, PublicKeyAccount.mk.injEq] at hkey hsignature ⊢
  constructor
  · rintro ⟨hread, -⟩
    by_contra hshort
    obtain ⟨hlength, hsome⟩ := not_or.mp hshort
    -- a byte of the signature is taken for one of the key
    have hlong := congrArg List.length hread
    have hpos := List.length_pos_iff.mpr hsome
    rw [List.length_take, List.length_append] at hlong
    omega
  · rintro (hlength | rfl)
    · rw [List.take_left' hlength, List.drop_left' hlength, List.take_of_length_le hsignature]
      exact ⟨rfl, rfl⟩
    · rw [List.append_nil, List.take_of_length_le hkey, List.drop_of_length_le hkey, List.take_nil]
      exact ⟨rfl, rfl⟩

/-- Only the transactions of versions 1 and 2 are read again. -/
theorem version_of_transParseBytes {version : Byte} {txBytes : ByteStr}
    {txs' : List ProcessedTransaction} (htxs : transactionsBytes version txs = .ok txBytes)
    (h : transParseBytes version txBytes = .ok txs') : version = 1 ∨ version = 2 := by
  by_contra hversion
  rw [transactionsBytes, if_neg hversion] at htxs
  split at htxs
  · split at htxs
    · obtain rfl := Except.ok.inj htxs
      rw [transParseBytes, if_neg hversion] at h
      cases h
    · cases htxs
  · cases htxs

/-- The bytes of a block are those of its transactions and a frame around them. -/
theorem length_bytes {txBytes : ByteStr}
    (htxs : transactionsBytes b.version b.transactionData = .ok txBytes)
    (hbytes : b.bytes = .ok bytes) (href : b.reference.length = SignatureLength) :
    bytes.length = 173 + txBytes.length + b.signerData.generator.publicKey.length
      + b.signerData.signature.length := by
  rw [Block.bytes, htxs, ok_bind] at hbytes
  rw [SignatureLength] at href
  rw [← Except.ok.inj hbytes]
  simp only [List.length_append, List.length_cons, length_sized, length_merkleRootBytes,
    Longs.length_toByteArray, href, consensusBytes, resourcePricingBytes, List.length_replicate]
  omega

/-- A block comes back from its bytes exactly when it is of version 1 or 2, if its transactions come
back from theirs. -/
theorem read_back_iff_version (hb : b.Framed) (hbytes : b.bytes = .ok bytes)
    (hlength : bytes.length < 2 ^ 31)
    (hread : ∀ p ∈ b.transactionData, ProcessedTransactionParser.parseBytes p.bytes = .ok p) :
    parseBytes bytes = .ok b ↔ b.version = 1 ∨ b.version = 2 := by
  obtain ⟨txBytes, htxs, -⟩ := bind_eq_ok_iff.mp hbytes
  have hgenerator := hb.generator
  have hsignature := hb.signature
  rw [SignatureLength] at hsignature
  have hwhole := length_bytes htxs hbytes hb.reference
  have hsigner : SignerData.reread b.signerData = b.signerData :=
    (SignerData.reread_eq_iff hgenerator.le hsignature.le).mpr (.inl hgenerator)
  rw [parseBytes_eq hb.reference htxs hbytes (by omega), hsigner]
  constructor
  · intro h
    obtain ⟨txs, htxs', -⟩ := map_eq_ok_iff.mp h
    exact version_of_transParseBytes htxs htxs'
  · intro hversion
    rw [transParseBytes_bytes hversion htxs hread (by omega)]
    rfl

/-- A block comes back from its bytes exactly when it is of version 1 or 2 and its transactions can
be read back. -/
theorem readable_iff (hb : b.Framed)
    (hlegacy : ∀ p ∈ b.transactionData, p.transaction.transactionType.id ≤ 10)
    (hbytes : b.bytes = .ok bytes) (hlength : bytes.length < 2 ^ 31) :
    parseBytes bytes = .ok b ↔ (b.version = 1 ∨ b.version = 2) ∧
      ∀ p ∈ b.transactionData, p.transaction.Encodable := by
  have hreads (hencodable : ∀ p ∈ b.transactionData, p.transaction.Encodable) (p)
      (hp : p ∈ b.transactionData) : ProcessedTransactionParser.parseBytes p.bytes = .ok p :=
    ProcessedTransactionParser.parseBytes_bytes
      (TransactionParser.parseBytes_bytes_of_encodable (hlegacy p hp) (hencodable p hp))
  constructor
  · intro h
    have hencodable := encodable_of_parseBytes h
    exact ⟨(read_back_iff_version hb hbytes hlength (hreads hencodable)).mp h, hencodable⟩
  · rintro ⟨hversion, hencodable⟩
    exact (read_back_iff_version hb hbytes hlength (hreads hencodable)).mpr hversion

/-- A length field of a block, zero where the bytes end before it. -/
def lengthAt (bytes : ByteStr) (start : Int32) : Int32 :=
  okOr (Ints.fromByteArray (slice bytes start.toInt (start + 4).toInt)) 0

/-- Where the length fields put the resource pricing of a block. -/
def pricingStart (bytes : ByteStr) : Int32 := 77 + lengthAt bytes 73

/-- Where they put its transactions. -/
def transactionsStart (bytes : ByteStr) : Int32 :=
  pricingStart bytes + 4 + lengthAt bytes (pricingStart bytes) + 32

/-- The part of the bytes they take for the transactions. -/
def transactionsPart (bytes : ByteStr) : ByteStr :=
  slice bytes (transactionsStart bytes + 4).toInt
    (transactionsStart bytes + 4 + lengthAt bytes (transactionsStart bytes)).toInt

/-- Where they put the generator. -/
def generatorStart (bytes : ByteStr) : Int32 :=
  transactionsStart bytes + 4 + lengthAt bytes (transactionsStart bytes)

/-- The bytes are of version 1 or 2, they count no more transactions than a block can be written
with, and the length fields do not put the signer across the beginning of the bytes. -/
structure Rewritable (bytes : ByteStr) : Prop where
  version : bytes.head? = some 1 ∨ bytes.head? = some 2
  count : ∀ count ∈ (transactionsPart bytes).head?, count ≤ 100
  signer : -96 < (generatorStart bytes).toInt → 0 ≤ (generatorStart bytes).toInt

omit [Platform] in
theorem lengthAt_of_ok {start length : Int32}
    (h : Ints.fromByteArray (slice bytes start.toInt (start + 4).toInt) = .ok length) :
    length = lengthAt bytes start := by
  rw [lengthAt, h]
  rfl

/-- Where the parser finds what it reads. -/
theorem parseBytes_eq_ok (h : parseBytes bytes = .ok b) :
    bytes.head? = some b.version ∧ b.reference.length = SignatureLength ∧ 77 ≤ bytes.length ∧
      transParseBytes b.version (transactionsPart bytes) = .ok b.transactionData ∧
      b.signerData.generator.publicKey = slice bytes (generatorStart bytes).toInt
        (generatorStart bytes + 32).toInt ∧
      b.signerData.signature = slice bytes (generatorStart bytes + 32).toInt
        (generatorStart bytes + 32 + 64).toInt := by
  obtain ⟨version, hversion, h⟩ := bind_eq_ok_iff.mp h
  obtain ⟨timestamp, -, h⟩ := bind_eq_ok_iff.mp h
  obtain ⟨cBytesLength, hc, h⟩ := bind_eq_ok_iff.mp h
  obtain ⟨mintTime, -, h⟩ := bind_eq_ok_iff.mp h
  obtain ⟨mintBalance, -, h⟩ := bind_eq_ok_iff.mp h
  obtain ⟨fBytesLength, hf, h⟩ := bind_eq_ok_iff.mp h
  obtain ⟨tBytesLength, ht, h⟩ := bind_eq_ok_iff.mp h
  obtain ⟨txs, htxs, h⟩ := bind_eq_ok_iff.mp h
  obtain rfl := Except.ok.inj h
  -- The length of the consensus data is read from its four bytes, so that they are there.
  have hlength : 77 ≤ bytes.length := by
    by_contra hshort
    rw [Ints.fromByteArray, if_neg] at hc
    · cases hc
    · simp only [slice, List.length_take, List.length_drop]
      omega
  have hpricing : pricingStart bytes = 77 + cBytesLength := by
    rw [pricingStart, ← @lengthAt_of_ok _ 73 _ hc]
  rw [← hpricing] at hf ht htxs
  have htransactions : transactionsStart bytes = pricingStart bytes + 4 + fBytesLength + 32 := by
    rw [transactionsStart, ← lengthAt_of_ok hf]
  rw [← htransactions] at ht htxs
  have hgenerator : generatorStart bytes = transactionsStart bytes + 4 + tBytesLength := by
    rw [generatorStart, ← lengthAt_of_ok ht]
  have hpart : transactionsPart bytes = slice bytes (transactionsStart bytes + 4).toInt
      (transactionsStart bytes + 4 + tBytesLength).toInt := by
    rw [transactionsPart, ← lengthAt_of_ok ht]
  rw [← hpart] at htxs
  rw [hgenerator, htransactions, hpricing]
  refine ⟨getOrRaise_eq_ok_iff.mp hversion, ?_, hlength, htxs, rfl, rfl⟩
  simp only [slice, List.length_take, List.length_drop, SignatureLength]
  omega

omit [Platform] in
theorem toInt_add_of_nonneg (p : Int32) {n : Int32} (hn : 0 ≤ n.toInt) :
    (p + n).toInt = p.toInt + n.toInt ∨
      2 ^ 31 ≤ p.toInt + n.toInt ∧ (p + n).toInt = p.toInt + n.toInt - 2 ^ 32 := by
  have hp := p.le_toInt
  have hp' := p.toInt_lt
  have hn' := n.toInt_lt
  rw [Int32.toInt_add, Int.bmod_def]
  omega

omit [Platform] in
/-- A key of 32 bytes and a signature of 64 behind it, read at a position that may be negative: the
key is whole or nothing is behind it, unless the two lie across the beginning of the bytes. -/
theorem signer_at (p : Int32) (hlength : 77 ≤ bytes.length) (hbytes : bytes.length < 2 ^ 31) :
    let key := slice bytes p.toInt (p + 32).toInt
    let signature := slice bytes (p + 32).toInt (p + 32 + 64).toInt
    key.length ≤ 32 ∧ signature.length ≤ 64 ∧
      (key.length = 32 ∨ signature = [] ↔ (-96 < p.toInt → 0 ≤ p.toInt)) := by
  intro key signature
  have hmax := p.toInt_lt
  have hmin := p.le_toInt
  have hkey := toInt_add_of_nonneg p (n := 32) (by decide)
  have hsignature := toInt_add_of_nonneg (p + 32) (n := 64) (by decide)
  have hthirtyTwo : (32 : Int32).toInt = 32 := rfl
  have hsixtyFour : (64 : Int32).toInt = 64 := rfl
  have hkeyLength : key.length = min ((p + 32).toInt.toNat - p.toInt.toNat)
      (bytes.length - p.toInt.toNat) := by
    rw [← List.length_drop, ← List.length_take]
    rfl
  have hsignatureLength : signature.length
      = min ((p + 32 + 64).toInt.toNat - (p + 32).toInt.toNat)
        (bytes.length - (p + 32).toInt.toNat) := by
    rw [← List.length_drop, ← List.length_take]
    rfl
  rw [← List.length_eq_zero_iff (l := signature)]
  omega

theorem length_transParseFrom {count : Nat} {pos : Int32}
    (h : transParseFrom bytes count pos = .ok txs) : txs.length = count := by
  induction count generalizing pos txs with
  | zero =>
      obtain rfl := Except.ok.inj h
      rfl
  | succ count ih =>
      obtain ⟨length, -, h⟩ := bind_eq_ok_iff.mp h
      obtain ⟨tx, -, h⟩ := bind_eq_ok_iff.mp h
      obtain ⟨rest, hrest, h⟩ := bind_eq_ok_iff.mp h
      obtain rfl := Except.ok.inj h
      rw [List.length_cons, ih hrest]

/-- The transactions that are read can be written again exactly when their count is one that is
written. -/
theorem length_le_iff_count {version : Byte} (hversion : version = 1 ∨ version = 2)
    (h : transParseBytes version bytes = .ok txs) :
    txs.length ≤ MaxTransactionsPerBlockVer1 ↔ ∀ count ∈ bytes.head?, count ≤ 100 := by
  cases bytes with
  | nil =>
      obtain rfl := Except.ok.inj h
      simp
  | cons count bytes =>
      rw [transParseBytes, if_pos hversion] at h
      have hhundred : (100 : Byte).toInt = 100 := rfl
      rw [length_transParseFrom h, MaxTransactionsPerBlockVer1, List.head?_cons]
      simp only [Option.mem_def, Option.some.injEq, forall_eq', Int8.le_iff_toInt_le, hhundred]
      omega

/-- A block that is read from some bytes can be written and read again exactly when the bytes are of
a version that is read, count few enough transactions, and have the signer where it belongs. -/
theorem storable_iff_rewritable (h : parseBytes bytes = .ok b) (hbytes : bytes.length < 2 ^ 31)
    (hread : ∀ p ∈ b.transactionData, ProcessedTransactionParser.parseBytes p.bytes = .ok p)
    (hroom : ∀ bytes', b.bytes = .ok bytes' → bytes'.length + 96 < 2 ^ 31) :
    b.Storable ↔ Rewritable bytes := by
  obtain ⟨hversion, href, hlength, htxs, hkey, hsignature⟩ := parseBytes_eq_ok h
  obtain ⟨hkeyLe, hsignatureLe, hsigner⟩ := signer_at (generatorStart bytes) hlength hbytes
  simp only [← hkey, ← hsignature] at hkeyLe hsignatureLe hsigner
  -- The parser takes short slices at the end of the bytes, so the signer is read back only from
  -- its place.
  have hreread := (SignerData.reread_eq_iff hkeyLe hsignatureLe).trans hsigner
  constructor
  · rintro ⟨bytes', hbytes', hagain⟩
    obtain ⟨txBytes, htxs', -⟩ := bind_eq_ok_iff.mp hbytes'
    have hwhole := length_bytes htxs' hbytes' href
    have hsmall := hroom bytes' hbytes'
    rw [parseBytes_eq href htxs' hbytes' (by omega)] at hagain
    obtain ⟨txs', htxs'', hsame⟩ := map_eq_ok_iff.mp hagain
    have hv := version_of_transParseBytes htxs' htxs''
    constructor
    case version => rwa [hversion, Option.some.injEq, Option.some.injEq]
    case count =>
      refine (length_le_iff_count hv htxs).mp ?_
      rw [transactionsBytes, if_pos hv] at htxs'
      split at htxs'
      · assumption
      · cases htxs'
    case signer => exact hreread.mp (congrArg Block.signerData hsame)
  · rintro ⟨hversion', hcount, hat⟩
    have hv : b.version = 1 ∨ b.version = 2 := by
      rwa [hversion, Option.some.injEq, Option.some.injEq] at hversion'
    obtain ⟨txBytes, htxs'⟩ : ∃ txBytes, transactionsBytes b.version b.transactionData
        = .ok txBytes := by
      rw [transactionsBytes, if_pos hv, if_pos ((length_le_iff_count hv htxs).mpr hcount)]
      exact ⟨_, rfl⟩
    obtain ⟨bytes', hbytes'⟩ : ∃ bytes', b.bytes = .ok bytes' := by
      rw [Block.bytes, htxs', ok_bind]
      exact ⟨_, rfl⟩
    have hwhole := length_bytes htxs' hbytes' href
    have hsmall := hroom bytes' hbytes'
    refine ⟨bytes', hbytes', ?_⟩
    rw [parseBytes_eq href htxs' hbytes' (by omega), hreread.mpr hat,
      transParseBytes_bytes hv htxs' hread (by omega)]
    rfl

/-- Blocks and their bytes: a block that is written is read back exactly when it is of version 1 or 2,
and one that is read can be written and read again exactly when its bytes are rewritable. -/
theorem bytes_read_back_iff :
    (∀ (b : Block) (bytes : ByteStr), b.Framed → b.bytes = .ok bytes → bytes.length < 2 ^ 31 →
      (∀ p ∈ b.transactionData, ProcessedTransactionParser.parseBytes p.bytes = .ok p) →
      (parseBytes bytes = .ok b ↔ b.version = 1 ∨ b.version = 2)) ∧
    ∀ (bytes : ByteStr) (b : Block), parseBytes bytes = .ok b → bytes.length < 2 ^ 31 →
      (∀ p ∈ b.transactionData, ProcessedTransactionParser.parseBytes p.bytes = .ok p) →
      (∀ bytes', b.bytes = .ok bytes' → bytes'.length + 96 < 2 ^ 31) →
      (b.Storable ↔ Rewritable bytes) :=
  ⟨fun _ _ hb hbytes hlength hread => read_back_iff_version hb hbytes hlength hread,
    fun _ _ h hbytes hread hroom => storable_iff_rewritable h hbytes hread hroom⟩

end Block

end Platform

namespace Sample

open Block

/-- A block without transactions. -/
def bareBlock (version : Byte) : Block where
  timestamp := 0
  version := version
  reference := List.replicate 64 0
  signerData := ⟨⟨List.replicate 32 1⟩, List.replicate 64 2⟩
  consensusData := ⟨0, 0⟩
  transactionData := []

/-- The bytes of a block without transactions, if versions 1 and 2 wrote them so. -/
def bareBytes (version : Byte) : ByteStr :=
  version :: Longs.toByteArray 0 ++ List.replicate 64 0 ++ sized (consensusBytes ⟨0, 0⟩)
    ++ sized resourcePricingBytes ++ merkleRootBytes [] ++ sized []
    ++ List.replicate 32 1 ++ List.replicate 64 2

theorem bareBlock_framed (version : Byte) : (bareBlock version).Framed where
  reference := List.length_replicate
  generator := List.length_replicate
  signature := List.length_replicate

/-- The account of the minter. -/
def minter : Address := Address.fromPublicKey (List.replicate 32 1)

/-- A text for the database. -/
def greetingEntry : Entry := ⟨"hello", by decide⟩

/-- A block of version 1 with a reward and an entry of the database. -/
def carryingBlock : Block :=
  { bareBlock 1 with
    transactionData := [⟨.success, 0, .minting ⟨minter, 50000000, 1, 2, by decide⟩⟩,
      ⟨.success, 100, .dbPut (put greetingEntry)⟩] }

/-- What the block evaluates to: its bytes, and what is read of them on the way to its fields. -/
theorem carryingBlock_evaluates :
    carryingBlock.bytes.isOk = true ∧
    (okOr carryingBlock.bytes []).length = 477 ∧
    (∀ p ∈ carryingBlock.transactionData, ProcessedTransactionParser.parseBytes p.bytes = .ok p) ∧
    (okOr carryingBlock.bytes []).head? = some 1 ∧
    (∀ count ∈ (transactionsPart (okOr carryingBlock.bytes [])).head?, count ≤ 100) ∧
    0 ≤ (generatorStart (okOr carryingBlock.bytes [])).toInt := by
  decide +kernel

/-- A block of version 1 is read back with its transactions, and what is read can be written
again. -/
theorem carryingBlock_read_back :
    parseBytes (okOr carryingBlock.bytes []) = .ok carryingBlock ∧ carryingBlock.Storable := by
  obtain ⟨hok, hlength, htransactions, hversion, hcount, hsigner⟩ := carryingBlock_evaluates
  have hframed : carryingBlock.Framed :=
    ⟨List.length_replicate, List.length_replicate, List.length_replicate⟩
  have hbytes : carryingBlock.bytes = .ok (okOr carryingBlock.bytes []) := eq_ok_okOr hok
  have hread : parseBytes (okOr carryingBlock.bytes []) = .ok carryingBlock :=
    (bytes_read_back_iff.1 carryingBlock _ hframed hbytes (by omega) htransactions).mpr (.inl rfl)
  have hroom (bytes' : ByteStr) (h : carryingBlock.bytes = .ok bytes') :
      bytes'.length + 96 < 2 ^ 31 := by
    obtain rfl := Except.ok.inj (hbytes.symm.trans h)
    omega
  exact ⟨hread, (bytes_read_back_iff.2 _ carryingBlock hread (by omega) htransactions hroom).mpr
    ⟨.inl hversion, hcount, fun _ => hsigner⟩⟩

/-- A block of version 3 is written and not read, and one of version 9 is read and not written. -/
theorem bareBlock_unreadable :
    (bareBlock 3).Framed ∧ (∃ bytes, (bareBlock 3).bytes = .ok bytes ∧ Raises (parseBytes bytes)) ∧
      parseBytes (bareBytes 9) = .ok (bareBlock 9) ∧ Raises (bareBlock 9).bytes :=
  ⟨bareBlock_framed 3, ⟨okOr (bareBlock 3).bytes [], eq_ok_okOr (by decide +kernel),
    by decide +kernel⟩, by decide +kernel, by decide +kernel⟩

end Sample

end Vsys
