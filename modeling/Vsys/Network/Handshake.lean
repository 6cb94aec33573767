import Vsys.Lib.Layout
import Vsys.Network.Messages
import Vsys.Transaction.Fields

/-!
# The handshake

`Handshake` and `HandshakeDecoder`: the first message of a peer, which is read from a stream whose
bytes come in turn.  A handshake comes back from its bytes.  What a peer sends instead is refused as
an invalid handshake, unless it declares a port that is none: then another exception escapes.
-/

namespace Vsys

open Lib

/-- Why reading a handshake stops: the bytes end too early, an `InvalidHandshakeException`, or
another exception. -/
inductive HandshakeFault where
  | replay
  | invalidHandshake (msg : String)
  | raised (fault : Fault)
  deriving DecidableEq

/-- `Handshake`. -/
structure Handshake where
  applicationName : String
  applicationVersion : Int32 × Int32 × Int32
  nodeName : String
  nodeNonce : Int64
  declaredAddress : Option InetSocketAddress
  deriving DecidableEq

namespace Handshake

/-- `in.readBytes`. -/
def readBytes (n : Nat) : Action HandshakeFault ByteStr ByteStr := Action.next .replay n

/-- `in.readByte`. -/
def readByte : Action HandshakeFault ByteStr Byte := do
  let bytes ← readBytes 1
  pure (bytes.headD 0)

/-- `in.readInt`. -/
def readInt : Action HandshakeFault ByteStr Int32 := do
  let bytes ← readBytes 4
  pure (okOr (Ints.fromByteArray bytes) 0)

/-- `in.readLong`. -/
def readLong : Action HandshakeFault ByteStr Int64 := do
  let bytes ← readBytes 8
  pure (okOr (Longs.fromByteArray bytes) 0)

/-- `in.readSlice(n).toString(UTF_8)`; `malformed` is what bytes that are not UTF-8 become. -/
def readString (malformed : ByteStr → String) (n : Nat) : Action HandshakeFault ByteStr String := do
  let bytes ← readBytes n
  pure (okOr (Deser.deserilizeString bytes) (malformed bytes))

/-- The declared address, of a length that is known to be one of the three. -/
def readAddress (declaredAddressLength : Int32) :
    Action HandshakeFault ByteStr (Option InetSocketAddress) := do
  if declaredAddressLength = 0 then pure none
  else
    let addressBytes ← readBytes (declaredAddressLength - 4).toInt.toNat
    let address ← Action.ofExcept ((InetAddress.getByAddress addressBytes).mapError .raised)
    let port ← readInt
    some <$> Action.ofExcept ((InetSocketAddress.create address port).mapError .raised)

/-- Throws an `InvalidHandshakeException` unless `p` holds. -/
def check (p : Prop) [Decidable p] (msg : String) : Action HandshakeFault ByteStr Unit :=
  Action.ofExcept (ensure p (.invalidHandshake msg))

/-- `Handshake.decode`. -/
def decode (malformed : ByteStr → String) : Action HandshakeFault ByteStr Handshake := do
  let appNameSize ← readByte
  check (¬ (appNameSize < 0 ∨ 127 < appNameSize))
    s!"An invalid application name's size: {appNameSize.toInt}"
  let appName ← readString malformed appNameSize.toInt.toNat
  let major ← readInt
  let minor ← readInt
  let patch ← readInt
  let nodeNameSize ← readByte
  check (¬ (nodeNameSize < 0 ∨ 127 < nodeNameSize))
    s!"An invalid node name's size: {nodeNameSize.toInt}"
  let nodeName ← readString malformed nodeNameSize.toInt.toNat
  let nonce ← readLong
  let declaredAddressLength ← readInt
  check (¬ (declaredAddressLength ≠ 0 ∧ declaredAddressLength ≠ 8 ∧ declaredAddressLength ≠ 20))
    s!"An invalid declared address length: {declaredAddressLength.toInt}"
  let isa ← readAddress declaredAddressLength
  let _ ← readLong
  pure ⟨appName, (major, minor, patch), nodeName, nonce, isa⟩

/-- The bytes of the declared address. -/
def addressBytes : Option InetSocketAddress → ByteStr
  | none => Ints.toByteArray 0
  | some addr =>
      Ints.toByteArray (Int32.ofNat addr.address.bytes.length + 4) ++ addr.address.bytes
        ++ Ints.toByteArray addr.port

/-- `Handshake.encode`, at a time. -/
def encode (h : Handshake) (currentTimeMillis : Int64) : Result ByteStr := do
  let applicationNameBytes := Deser.serilizeString h.applicationName
  let () ← ensure (applicationNameBytes.length ≤ 127) (.raised .illegalArgument)
  let nodeNameBytes := Deser.serilizeString h.nodeName
  let () ← ensure (nodeNameBytes.length ≤ 127) (.raised .illegalArgument)
  .ok (Int8.ofNat applicationNameBytes.length :: applicationNameBytes
    ++ Ints.toByteArray h.applicationVersion.1 ++ Ints.toByteArray h.applicationVersion.2.1
    ++ Ints.toByteArray h.applicationVersion.2.2
    ++ Int8.ofNat nodeNameBytes.length :: nodeNameBytes ++ Longs.toByteArray h.nodeNonce
    ++ addressBytes h.declaredAddress ++ Longs.toByteArray (currentTimeMillis / 1000))

end Handshake

/-- What `HandshakeDecoder` does with the bytes that have come. -/
inductive HandshakeOutcome where
  | waiting
  | handshake (h : Handshake) (rest : ByteStr)
  | blacklisted (msg : String)
  | raised (fault : Fault)
  deriving DecidableEq

/-- `HandshakeDecoder.decode`. -/
def HandshakeDecoder.decode (malformed : ByteStr → String) (bytes : ByteStr) : HandshakeOutcome :=
  match Handshake.decode malformed bytes with
  | (.ok h, rest) => .handshake h rest
  | (.error (.invalidHandshake msg), _) => .blacklisted msg
  | (.error .replay, _) => .waiting
  | (.error (.raised fault), _) => .raised fault

namespace Handshake

variable {malformed : ByteStr → String} {bytes : ByteStr} {i : Nat}

/-- The byte at a position. -/
def byteAt (bytes : ByteStr) (i : Nat) : Byte := ((bytes.drop i).take 1).headD 0

/-- The integer at a position. -/
def intAt (bytes : ByteStr) (i : Nat) : Int32 :=
  okOr (Ints.fromByteArray ((bytes.drop i).take 4)) 0

/-- A byte is read from the front. -/
theorem readByte_cons (b : Byte) (rest : ByteStr) : readByte (b :: rest) = (.ok b, rest) := rfl

/-- A number is read back from its bytes in front. -/
theorem readInt_append (x : Int32) (rest : ByteStr) :
    readInt (Ints.toByteArray x ++ rest) = (.ok x, rest) := by
  rw [readInt, readBytes, Action.bind_of_ok (Action.next_append (Ints.length_toByteArray x) rest),
    Ints.fromByteArray_toByteArray]
  rfl

/-- A long number is read back from its bytes in front. -/
theorem readLong_append (x : Int64) (rest : ByteStr) :
    readLong (Longs.toByteArray x ++ rest) = (.ok x, rest) := by
  rw [readLong, readBytes, Action.bind_of_ok (Action.next_append (Longs.length_toByteArray x) rest),
    Longs.fromByteArray_toByteArray]
  rfl

/-- A text is read back from its bytes in front. -/
theorem readString_append {s : String} {n : Nat} (h : (Deser.serilizeString s).length = n)
    (rest : ByteStr) : readString malformed n (Deser.serilizeString s ++ rest) = (.ok s, rest) := by
  rw [readString, readBytes, Action.bind_of_ok (Action.next_append h rest),
    Deser.deserilizeString_serilizeString]
  rfl

/-- A byte is read at its place. -/
theorem readByte_drop (h : i + 1 ≤ bytes.length) :
    readByte (bytes.drop i) = (.ok (byteAt bytes i), bytes.drop (i + 1)) := by
  rw [readByte, readBytes, Action.bind_of_ok (Action.next_drop h)]
  rfl

/-- A number is read at its place if all its bytes are there. -/
theorem readInt_drop (h : i + 4 ≤ bytes.length) :
    readInt (bytes.drop i) = (.ok (intAt bytes i), bytes.drop (i + 4)) := by
  rw [readInt, readBytes, Action.bind_of_ok (Action.next_drop h)]
  rfl

/-- A long number is read at its place if all its bytes are there. -/
theorem readLong_drop (h : i + 8 ≤ bytes.length) :
    ∃ x, readLong (bytes.drop i) = (.ok x, bytes.drop (i + 8)) := by
  rw [readLong, readBytes, Action.bind_of_ok (Action.next_drop h)]
  exact ⟨_, rfl⟩

/-- A text is read at its place if all its bytes are there. -/
theorem readString_drop {n : Nat} (h : i + n ≤ bytes.length) :
    ∃ s, readString malformed n (bytes.drop i) = (.ok s, bytes.drop (i + n)) := by
  rw [readString, readBytes, Action.bind_of_ok (Action.next_drop h)]
  exact ⟨_, rfl⟩

/-- A check whose condition holds passes and reads nothing. -/
theorem check_of {p : Prop} [Decidable p] (msg : String) (h : p) (s : ByteStr) :
    check p msg s = (.ok (), s) := by
  rw [check, Action.ofExcept_apply, ensure_of h]

/-- A check that fails throws. -/
theorem check_bind_of_not {α : Type} {p : Prop} [Decidable p] (msg : String) (h : ¬ p)
    (f : Unit → Action HandshakeFault ByteStr α) (s : ByteStr) :
    ∃ msg' rest, (check p msg >>= f) s = (.error (.invalidHandshake msg'), rest) := by
  have hcheck : check p msg s = (.error (.invalidHandshake msg), s) := by
    rw [check, Action.ofExcept_apply, ensure_of_not h]
  exact ⟨msg, s, Action.bind_of_error hcheck⟩

/-- The size of a name that is short enough. -/
theorem toInt_size {n : Nat} (h : n ≤ 127) :
    (Int8.ofNat n).toInt = n ∧ ¬ (Int8.ofNat n < 0 ∨ 127 < Int8.ofNat n) := by
  have hsize := Int8.toInt_ofNat_of_lt (n := n) (by omega)
  have hmax : (127 : Int8).toInt = 127 := rfl
  have hmin : (0 : Int8).toInt = 0 := rfl
  refine ⟨hsize, ?_⟩
  rw [Int8.lt_iff_toInt_lt, Int8.lt_iff_toInt_lt, hsize, hmax, hmin]
  omega

/-- A declared address is read back. -/
theorem readAddress_bytes (addr : InetSocketAddress) (rest : ByteStr) :
    readAddress (Int32.ofNat addr.address.bytes.length + 4)
      (addr.address.bytes ++ (Ints.toByteArray addr.port ++ rest)) = (.ok (some addr), rest) := by
  have hlength : (Int32.ofNat addr.address.bytes.length + 4 - 4).toInt.toNat
      = addr.address.bytes.length ∧ Int32.ofNat addr.address.bytes.length + 4 ≠ 0 := by
    obtain hfour | ⟨hsixteen, -⟩ := addr.address.valid
    · rw [hfour]
      decide
    · rw [hsixteen]
      decide
  rw [readAddress, if_neg hlength.2, hlength.1, readBytes,
    Action.bind_of_ok (Action.next_append rfl _)]
  simp only [InetAddress.getByAddress_bytes, Except.mapError, Action.bind_apply,
    Action.ofExcept_apply, readInt_append, InetSocketAddress.create, dif_pos addr.port_range]
  rfl

/-- The length of a declared address is one of the three. -/
theorem length_announced (addr : InetSocketAddress) :
    let length := Int32.ofNat addr.address.bytes.length + 4
    ¬ (length ≠ 0 ∧ length ≠ 8 ∧ length ≠ 20) := by
  intro length
  obtain hfour | ⟨hsixteen, -⟩ := addr.address.valid
  · simp only [length, hfour]
    decide
  · simp only [length, hsixteen]
    decide

/-- A handshake is read back from its bytes, and nothing behind them is read. -/
theorem decode_encode {h : Handshake} {currentTimeMillis : Int64}
    (hbytes : h.encode currentTimeMillis = .ok bytes) (rest : ByteStr) :
    decode malformed (bytes ++ rest) = (.ok h, rest) := by
  obtain ⟨⟨⟩, hname, hbytes⟩ := bind_eq_ok_iff.mp hbytes
  obtain ⟨⟨⟩, hnode, hbytes⟩ := bind_eq_ok_iff.mp hbytes
  obtain rfl := Except.ok.inj hbytes
  obtain ⟨hnameSize, hnameCheck⟩ := toInt_size (ensure_eq_ok_iff.mp hname)
  obtain ⟨hnodeSize, hnodeCheck⟩ := toInt_size (ensure_eq_ok_iff.mp hnode)
  simp only [List.cons_append, List.append_assoc, decode, Action.bind_of_ok (readByte_cons _ _),
    Action.bind_of_ok (check_of _ hnameCheck _), hnameSize, Int.toNat_natCast,
    Action.bind_of_ok (readString_append rfl _), Action.bind_of_ok (readInt_append _ _),
    Action.bind_of_ok (check_of _ hnodeCheck _), hnodeSize,
    Action.bind_of_ok (readLong_append _ _)]
  cases haddress : h.declaredAddress with
  | none =>
      rw [addressBytes, Action.bind_of_ok (readInt_append _ _),
        Action.bind_of_ok (check_of _ (by decide) _), readAddress, if_pos rfl,
        Action.bind_of_ok (Action.pure_apply _ _), Action.bind_of_ok (readLong_append _ _)]
      rw [← haddress]
      rfl
  | some addr =>
      rw [addressBytes, List.append_assoc, List.append_assoc,
        Action.bind_of_ok (readInt_append _ _),
        Action.bind_of_ok (check_of _ (length_announced addr) _),
        Action.bind_of_ok (readAddress_bytes addr _), Action.bind_of_ok (readLong_append _ _)]
      rw [← haddress]
      rfl

/-- A handshake can be written when its names are short enough. -/
theorem encode_isOk_iff (h : Handshake) (currentTimeMillis : Int64) :
    (∃ bytes, h.encode currentTimeMillis = .ok bytes) ↔
      (Deser.serilizeString h.applicationName).length ≤ 127 ∧
        (Deser.serilizeString h.nodeName).length ≤ 127 := by
  constructor
  · rintro ⟨bytes, hbytes⟩
    obtain ⟨⟨⟩, hname, hbytes⟩ := bind_eq_ok_iff.mp hbytes
    obtain ⟨⟨⟩, hnode, -⟩ := bind_eq_ok_iff.mp hbytes
    exact ⟨ensure_eq_ok_iff.mp hname, ensure_eq_ok_iff.mp hnode⟩
  · rintro ⟨hname, hnode⟩
    simp only [encode, ensure_of hname, ensure_of hnode, ok_bind]
    exact ⟨_, rfl⟩

/-- Where the size of the node's name is. -/
def nodeNameAt (bytes : ByteStr) : Nat := 1 + (byteAt bytes 0).toInt.toNat + 12

/-- Where the length of the declared address is. -/
def addressAt (bytes : ByteStr) : Nat :=
  nodeNameAt bytes + 1 + (byteAt bytes (nodeNameAt bytes)).toInt.toNat + 8

/-- The length of the declared address. -/
def addressLength (bytes : ByteStr) : Int32 := intAt bytes (addressAt bytes)

/-- The sizes of the two names are none that is refused. -/
structure Named (bytes : ByteStr) : Prop where
  name : 0 ≤ (byteAt bytes 0).toInt
  nodeName : 0 ≤ (byteAt bytes (nodeNameAt bytes)).toInt

/-- The bytes hold every field that their own sizes announce, up to the first that is refused. -/
structure Complete (bytes : ByteStr) : Prop where
  name : 1 ≤ bytes.length
  nodeName : 0 ≤ (byteAt bytes 0).toInt → nodeNameAt bytes + 1 ≤ bytes.length
  address : Named bytes → addressAt bytes + 4 ≤ bytes.length
  time : Named bytes →
    addressLength bytes = 0 ∨ addressLength bytes = 8 ∨ addressLength bytes = 20 →
    addressAt bytes + 4 + (addressLength bytes).toInt.toNat + 8 ≤ bytes.length

/-- The port of a declared address is one. -/
def PortInRange (bytes : ByteStr) : Prop :=
  Named bytes → addressLength bytes = 8 ∨ addressLength bytes = 20 →
    0 ≤ (intAt bytes (addressAt bytes + (addressLength bytes).toInt.toNat)).toInt ∧
      (intAt bytes (addressAt bytes + (addressLength bytes).toInt.toNat)).toInt ≤ 65535

/-- A size is refused when it is negative. -/
theorem size_check (size : Byte) : ¬ (size < 0 ∨ 127 < size) ↔ 0 ≤ size.toInt := by
  have hmax : (127 : Int8).toInt = 127 := rfl
  have hmin : (0 : Int8).toInt = 0 := rfl
  have hlt := size.toInt_lt
  rw [Int8.lt_iff_toInt_lt, Int8.lt_iff_toInt_lt, hmax, hmin]
  omega

/-- Four or sixteen bytes are an address. -/
theorem getByAddress_isOk {addr : ByteStr} (h : addr.length = 4 ∨ addr.length = 16) :
    ∃ a, InetAddress.getByAddress addr = .ok a := by
  unfold InetAddress.getByAddress
  split
  · exact ⟨_, rfl⟩
  · rw [dif_pos (by omega)]
    split
    · exact ⟨_, rfl⟩
    · exact ⟨_, rfl⟩

/-- An address that is there is read, and its port is refused when it is none. -/
theorem readAddress_drop {length : Int32} (hlength : length = 8 ∨ length = 20)
    (h : i + length.toInt.toNat ≤ bytes.length) :
    let port := (intAt bytes (i + length.toInt.toNat - 4)).toInt
    (0 ≤ port ∧ port ≤ 65535 ∧
        ∃ isa, readAddress length (bytes.drop i) = (.ok isa, bytes.drop (i + length.toInt.toNat))) ∨
      ¬ (0 ≤ port ∧ port ≤ 65535) ∧ ∃ rest,
        readAddress length (bytes.drop i) = (.error (.raised (.raised .illegalArgument)), rest) := by
  intro port
  have hsize : (length - 4).toInt.toNat + 4 = length.toInt.toNat ∧ length ≠ 0 ∧
      ((length - 4).toInt.toNat = 4 ∨ (length - 4).toInt.toNat = 16) := by
    rcases hlength with rfl | rfl <;> decide
  obtain ⟨hsize, hzero, hbytes⟩ := hsize
  obtain ⟨a, ha⟩ := @getByAddress_isOk ((bytes.drop i).take (length - 4).toInt.toNat)
    (by rw [List.length_take, List.length_drop]; omega)
  have hport : intAt bytes (i + (length - 4).toInt.toNat)
      = intAt bytes (i + length.toInt.toNat - 4) := by
    rw [← hsize]
    rfl
  rw [readAddress, if_neg hzero, readBytes, Action.bind_of_ok (Action.next_drop (by omega)), ha,
    Except.mapError, Action.bind_of_ok (Action.ofExcept_apply _ _), Action.bind_of_ok (readInt_drop (by omega)),
    hport, InetSocketAddress.create, Nat.add_assoc, hsize]
  by_cases hrange : 0 ≤ port ∧ port ≤ 65535
  · rw [dif_pos hrange]
    exact .inl ⟨hrange.1, hrange.2, _, rfl⟩
  · rw [dif_neg hrange]
    exact .inr ⟨hrange, _, rfl⟩

/-- A message that is complete is read or refused, unless its port is none: then an
`IllegalArgumentException` escapes. -/
theorem decode_of_complete (hc : Complete bytes) :
    (PortInRange bytes ∧ ((∃ h rest, decode malformed bytes = (.ok h, rest)) ∨
        ∃ msg rest, decode malformed bytes = (.error (.invalidHandshake msg), rest))) ∨
      ¬ PortInRange bytes ∧
        ∃ rest, decode malformed bytes = (.error (.raised (.raised .illegalArgument)), rest) := by
  have hfirst : readByte bytes = (.ok (byteAt bytes 0), bytes.drop 1) := readByte_drop (i := 0) hc.name
  -- Each field is read where the fields before it end; a check that fails ends the decoding
  -- there, and the rest of the bytes is not needed.
  rw [decode, Action.bind_of_ok hfirst]
  by_cases hname : 0 ≤ (byteAt bytes 0).toInt
  case neg =>
    exact .inl ⟨fun h => absurd h.name hname, .inr (check_bind_of_not _ (mt (size_check _).mp hname) _ _)⟩
  have hnodeEnd := hc.nodeName hname
  have hnodeAt : 1 + (byteAt bytes 0).toInt.toNat + 4 + 4 + 4 = nodeNameAt bytes := rfl
  obtain ⟨appName, happName⟩ := @readString_drop malformed bytes 1 (byteAt bytes 0).toInt.toNat
    (by omega)
  rw [Action.bind_of_ok (check_of _ ((size_check _).mpr hname) _), Action.bind_of_ok happName,
    Action.bind_of_ok (readInt_drop (by omega)), Action.bind_of_ok (readInt_drop (by omega)),
    Action.bind_of_ok (readInt_drop (by omega)), hnodeAt,
    Action.bind_of_ok (readByte_drop (by omega))]
  by_cases hnode : 0 ≤ (byteAt bytes (nodeNameAt bytes)).toInt
  case neg =>
    exact .inl ⟨fun h => absurd h.nodeName hnode,
      .inr (check_bind_of_not _ (mt (size_check _).mp hnode) _ _)⟩
  have haddressEnd := hc.address ⟨hname, hnode⟩
  have haddressAt : nodeNameAt bytes + 1 + (byteAt bytes (nodeNameAt bytes)).toInt.toNat + 8
      = addressAt bytes := rfl
  obtain ⟨nodeName, hnodeName⟩ := @readString_drop malformed bytes (nodeNameAt bytes + 1)
    (byteAt bytes (nodeNameAt bytes)).toInt.toNat (by omega)
  obtain ⟨nonce, hnonce⟩ := @readLong_drop bytes
    (nodeNameAt bytes + 1 + (byteAt bytes (nodeNameAt bytes)).toInt.toNat) (by omega)
  rw [Action.bind_of_ok (check_of _ ((size_check _).mpr hnode) _), Action.bind_of_ok hnodeName,
    Action.bind_of_ok hnonce, haddressAt, Action.bind_of_ok (readInt_drop haddressEnd)]
  have hread : intAt bytes (addressAt bytes) = addressLength bytes := rfl
  rw [hread]
  by_cases hlength : addressLength bytes = 0 ∨ addressLength bytes = 8 ∨ addressLength bytes = 20
  case neg =>
    refine .inl ⟨fun _ h => absurd (.inr h) hlength, .inr (check_bind_of_not _ ?_ _ _)⟩
    exact fun h => h ⟨fun h => hlength (.inl h), fun h => hlength (.inr (.inl h)),
      fun h => hlength (.inr (.inr h))⟩
  have htimeEnd := hc.time ⟨hname, hnode⟩ hlength
  have hcheck : ¬ (addressLength bytes ≠ 0 ∧ addressLength bytes ≠ 8 ∧ addressLength bytes ≠ 20) :=
    fun h => hlength.elim h.1 fun h' => h'.elim h.2.1 h.2.2
  obtain ⟨time, htime⟩ := @readLong_drop bytes
    (addressAt bytes + 4 + (addressLength bytes).toInt.toNat) (by omega)
  rw [Action.bind_of_ok (check_of _ hcheck _)]
  rcases hlength with hzero | hdeclared
  · refine .inl ⟨fun _ h => ?_, .inl ?_⟩
    · rw [hzero] at h
      exact absurd h (by decide)
    · rw [hzero, readAddress, if_pos rfl, Action.bind_of_ok (Action.pure_apply _ _)]
      rw [hzero] at htime
      exact ⟨_, _, Action.bind_of_ok htime⟩
  · have hplace : addressAt bytes + 4 + (addressLength bytes).toInt.toNat - 4
        = addressAt bytes + (addressLength bytes).toInt.toNat := by omega
    have haddress := @readAddress_drop bytes (addressAt bytes + 4) _ hdeclared (by omega)
    rw [hplace] at haddress
    obtain ⟨hmin, hmax, isa, hisa⟩ | ⟨hrange, rest, hrest⟩ := haddress
    · refine .inl ⟨fun _ _ => ⟨hmin, hmax⟩, .inl ?_⟩
      rw [Action.bind_of_ok hisa]
      exact ⟨_, _, Action.bind_of_ok htime⟩
    · exact .inr ⟨fun h => hrange (h ⟨hname, hnode⟩ hdeclared), rest, Action.bind_of_error hrest⟩

/-- A handshake that can be written comes back from its bytes, and exactly they are read.  A message
that is complete is read, or refused by the one exception for which the peer is blacklisted, exactly
when the port it declares is one. -/
theorem read_back_and_refused_iff :
    (∀ (h : Handshake) (currentTimeMillis : Int64) (bytes rest : ByteStr),
      h.encode currentTimeMillis = .ok bytes →
      decode malformed (bytes ++ rest) = (.ok h, rest)) ∧
    ∀ bytes, Complete bytes →
      ((∃ h rest, decode malformed bytes = (.ok h, rest)) ∨
          (∃ msg rest, decode malformed bytes = (.error (.invalidHandshake msg), rest) ∧
            HandshakeDecoder.decode malformed bytes = .blacklisted msg) ↔
        PortInRange bytes) := by
  refine ⟨fun h _ _ rest hbytes => decode_encode hbytes rest, fun bytes hc => ?_⟩
  -- Whatever is complete is read, refused or raises, by its port alone.
  obtain ⟨hport, hread⟩ | ⟨hport, rest, hraised⟩ := @decode_of_complete malformed bytes hc
  · refine ⟨fun _ => hport, fun _ => hread.imp_right ?_⟩
    rintro ⟨msg, rest, hmsg⟩
    refine ⟨msg, rest, hmsg, ?_⟩
    rw [HandshakeDecoder.decode, hmsg]
  · refine ⟨?_, fun h => absurd h hport⟩
    rintro (⟨h, rest', hok⟩ | ⟨msg, rest', hmsg, -⟩)
    · rw [hraised] at hok
      cases hok
    · rw [hraised] at hmsg
      cases hmsg

end Handshake

namespace Sample

open Handshake

/-- The local host has a valid address. -/
theorem localhost_valid : ([127, 0, 0, 1] : ByteStr).length = 4 ∨
    ([127, 0, 0, 1] : ByteStr).length = 16 ∧ ¬ IsIPv4Mapped [127, 0, 0, 1] := .inl rfl

/-- The sample's port is in the range of ports. -/
theorem port_valid : 0 ≤ (9921 : Int32).toInt ∧ (9921 : Int32).toInt ≤ 65535 := by decide

/-- An address on this host. -/
def localhost : InetSocketAddress := ⟨⟨[127, 0, 0, 1], localhost_valid⟩, 9921, port_valid⟩

/-- The handshake of a node that declares its address. -/
def greeting : Handshake := ⟨"vsys", (0, 1, 0), "test", 4, some localhost⟩

/-- A handshake with empty names, up to its declared port. -/
def declaring (port : Int32) : ByteStr :=
  0 :: Ints.toByteArray 0 ++ Ints.toByteArray 0 ++ Ints.toByteArray 0 ++ 0 :: Longs.toByteArray 0
    ++ Ints.toByteArray 8 ++ [127, 0, 0, 1] ++ Ints.toByteArray port ++ Longs.toByteArray 0

/-- The sample's handshake is complete whatever port it declares. -/
theorem declaring_complete (port : Int32) : Complete (declaring port) := by
  have hlength : (declaring port).length = 42 := by
    simp only [declaring, List.length_append, List.length_cons, Ints.length_toByteArray,
      Longs.length_toByteArray, List.length_nil]
  have hnode : nodeNameAt (declaring port) = 13 := rfl
  have haddress : addressAt (declaring port) = 22 := rfl
  -- the bytes in front of the address say how long it is, whatever the port behind it
  have hbytes : ((declaring port).drop 22).take 4 = Ints.toByteArray 8 := rfl
  have hdeclared : (addressLength (declaring port)).toInt.toNat = 8 := by
    rw [addressLength, intAt, haddress, hbytes, Ints.fromByteArray_toByteArray]
    rfl
  constructor
  case name => omega
  case nodeName => exact fun _ => by omega
  case address => exact fun _ => by omega
  case time => exact fun _ _ => by omega

/-- A handshake is read back and nothing behind it is read, and one whose port is one is not refused
by another exception. -/
theorem greeting_read_back :
    decode (fun _ => "") (okOr (greeting.encode 1600000000000) [] ++ [102]) = (.ok greeting, [102]) ∧
      ((∃ h rest, decode (fun _ => "") (declaring 9921) = (.ok h, rest)) ∨
        ∃ msg rest, decode (fun _ => "") (declaring 9921) = (.error (.invalidHandshake msg), rest) ∧
          HandshakeDecoder.decode (fun _ => "") (declaring 9921) = .blacklisted msg) :=
  ⟨read_back_and_refused_iff.1 greeting 1600000000000 _ [102] (eq_ok_okOr (by decide +kernel)),
    (read_back_and_refused_iff.2 _ (declaring_complete 9921)).mpr fun _ _ => by decide +kernel⟩

/-- The port 65536 lets another exception escape, for which the peer is not blacklisted. -/
theorem declaring_raised : Complete (declaring 65536) ∧
    (decode (fun _ => "") (declaring 65536)).1 = .error (.raised (.raised .illegalArgument)) ∧
    HandshakeDecoder.decode (fun _ => "") (declaring 65536) = .raised (.raised .illegalArgument) :=
  ⟨declaring_complete 65536, by decide +kernel, by decide +kernel⟩

end Sample

end Vsys
