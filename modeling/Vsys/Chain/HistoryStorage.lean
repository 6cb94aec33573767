import Vsys.Chain.BlockBytes
import Vsys.Chain.Layers
import Vsys.Chain.Scores

/-!
# The history in its storage

`HistoryWriterImpl` as it is stored: the height, the blocks, their identifiers both ways and the
scores are entries of one space of keys, which are written in batches.  The keys never meet, and what
lies under them is determined by the blocks.
-/

namespace Vsys

open Lib

/-- `ByteStrCodec.encode`. -/
def ByteStrCodec.encode (value : ByteStr) : ByteStr :=
  Ints.toByteArray (Int32.ofNat value.length) ++ value

/-- `ByteStrCodec.decode`. -/
def ByteStrCodec.decode (bytes : ByteStr) : Option ByteStr :=
  match Ints.fromByteArray (bytes.take 4) with
  | .ok length =>
      let a := slice bytes 4 (4 + length).toInt
      if (a.length : Int) = length.toInt then some a else none
  | .error _ => none

/-- The entries of a database. -/
abbrev Database := Dict ByteStr ByteStr

/-- A write of a batch. -/
inductive Write where
  | put (key value : ByteStr)
  | delete (key : ByteStr)

/-- The database after a write. -/
def Write.perform (db : Database) : Write → Database
  | put key value => db.insert key value
  | delete key => db.erase key

/-- `commit`. -/
def commit (batch : List Write) (db : Database) : Database := batch.foldl Write.perform db

namespace HistoryWriterImpl

/-- `Separator`. -/
def Separator : ByteStr := [58]

/-- `SubStorage.makeKey`, under the name of the history. -/
def makeKey (keyPrefix key : ByteStr) : ByteStr :=
  Deser.serilizeString "history" ++ Separator ++ keyPrefix ++ Separator ++ key

def HeightPrefix : ByteStr := Deser.serilizeString "height"
def BlockBodyByHeightPrefix : ByteStr := Deser.serilizeString "blocks"
def BlockIdByHeightPrefix : ByteStr := Deser.serilizeString "signatures"
def HeightByBlockIdPrefix : ByteStr := Deser.serilizeString "signaturesReverse"
def ScoreByHeightPrefix : ByteStr := Deser.serilizeString "score"

/-- `blockBodyByHeightKey`. -/
def blockBodyByHeightKey (height : Int32) : ByteStr :=
  makeKey BlockBodyByHeightPrefix (Ints.toByteArray height)

/-- `blockIdByHeightKey`. -/
def blockIdByHeightKey (height : Int32) : ByteStr :=
  makeKey BlockIdByHeightPrefix (Ints.toByteArray height)

/-- `heightByBlockIdKey`. -/
def heightByBlockIdKey (blockId : ByteStr) : ByteStr :=
  makeKey HeightByBlockIdPrefix (ByteStrCodec.encode blockId)

/-- `scoreByHeightKey`. -/
def scoreByHeightKey (height : Int32) : ByteStr :=
  makeKey ScoreByHeightPrefix (Ints.toByteArray height)

/-- `heightKey`. -/
def heightKey : ByteStr := makeKey HeightPrefix HeightPrefix

/-- The storage of a history that is opened for the first time. -/
def opened : Database := Finmap.singleton heightKey (Ints.toByteArray 0)

/-- `height`. -/
def height (db : Database) : Result Int32 := do
  let bytes ← getOrRaise .noSuchElement (db.lookup heightKey)
  Ints.fromByteArray bytes

/-- `blockBytes`. -/
def blockBytes (db : Database) (height : Int32) : Option ByteStr :=
  db.lookup (blockBodyByHeightKey height)

/-- The identifier of the block at a height, as `lastBlockIds` and `discardBlock` read it. -/
def blockId (db : Database) (height : Int32) : Option ByteStr :=
  (db.lookup (blockIdByHeightKey height)).bind ByteStrCodec.decode

/-- `heightOf`. -/
def heightOf (db : Database) (blockSignature : ByteStr) : Result (Option Int32) :=
  match db.lookup (heightByBlockIdKey blockSignature) with
  | none => .ok none
  | some bytes => some <$> Ints.fromByteArray bytes

/-- `scoreOf`. -/
def scoreOf (db : Database) (id : ByteStr) : Result (Option Int) := do
  match ← heightOf db id with
  | none => .ok none
  | some h =>
      match db.lookup (scoreByHeightKey h) with
      | none => .ok (some 0)
      | some bytes => some <$> BigInt.ofByteArray bytes

section Platform

variable [Platform]

/-- `blockAt`. -/
def blockAt (db : Database) (height : Int32) : Result (Option Block) :=
  match blockBytes db height with
  | none => .ok none
  | some bytes => some <$> explicitGet (Block.parseBytes bytes)

/-- `lastBlock`. -/
def lastBlock (db : Database) : Result (Option Block) := do
  let height ← height db
  blockAt db height

/-- `score`. -/
def score (db : Database) : Result Int := do
  match ← lastBlock db with
  | none => .ok 0
  | some last =>
      let score ← scoreOf db last.uniqueId
      .ok (score.getD 0)

/-- The batch of `appendBlock`. -/
def appendBatch (h : Int32) (block : Block) (bytes : ByteStr) (score : Int) : List Write :=
  [.put (blockBodyByHeightKey h) bytes,
   .put (scoreByHeightKey h) (BigInt.toByteArray score),
   .put (blockIdByHeightKey h) (ByteStrCodec.encode block.uniqueId),
   .put (heightByBlockIdKey block.uniqueId) (Ints.toByteArray h),
   .put heightKey (Ints.toByteArray h)]

/-- Whether the storage can take `block` next. -/
def isNext (db : Database) (block : Block) : Result Bool := do
  let height ← height db
  if height = 0 then .ok true
  else
    let last ← lastBlock db
    let last ← getOrRaise .noSuchElement last
    .ok (last.uniqueId = block.reference)

/-- `appendBlock`; nothing is written before the batch is committed. -/
def appendBlock (block : Block) (consensusValidation : Result BlockDiff) :
    Action Fault Database BlockDiff := do
  let db ← Action.get
  if ← Action.ofExcept (isNext db block) then
    let blockDiff ← Action.ofExcept consensusValidation
    let height ← Action.ofExcept (height db)
    let oldScore ← Action.ofExcept (if height = 0 then .ok 0 else score db)
    let bytes ← Action.ofExcept block.bytes
    Action.modify (commit (appendBatch (height + 1) block bytes (oldScore + block.blockScore)))
    pure blockDiff
  else
    let last ← Action.ofExcept (lastBlock db)
    let lastId := optionText (last.map fun b => Platform.base58 b.uniqueId)
    Action.ofExcept (left (.genericError
      s!"Parent {Platform.base58 block.reference} of block {Platform.base58 block.uniqueId} does not match last local block {lastId}"))

/-- The batch of `discardBlock`. -/
def discardBatch (db : Database) (h : Int32) : List Write :=
  [.delete (blockBodyByHeightKey h), .delete (scoreByHeightKey h)]
    ++ (match blockId db h with
        | some id => [.delete (heightByBlockIdKey id)]
        | none => [])
    ++ [.delete (blockIdByHeightKey h), .put heightKey (Ints.toByteArray (h - 1))]

/-- `discardBlock`. -/
def discardBlock : Action Fault Database (List Transaction) := do
  let db ← Action.get
  let h ← Action.ofExcept (height db)
  let transactions :=
    match Block.parseBytes ((blockBytes db h).getD []) with
    | .ok block => block.transactions
    | .error _ => []
  Action.modify (commit (discardBatch db h))
  pure transactions

/-- The keys of the entries. -/
inductive Key where
  | height
  | blocks (height : Int32)
  | signatures (height : Int32)
  | signaturesReverse (blockId : ByteStr)
  | score (height : Int32)
  deriving DecidableEq

/-- The kinds of entries. -/
inductive Kind where
  | height
  | blocks
  | signatures
  | signaturesReverse
  | score
  deriving DecidableEq

/-- The prefix of the keys of a kind. -/
def Kind.word : Kind → ByteStr
  | height => HeightPrefix
  | blocks => BlockBodyByHeightPrefix
  | signatures => BlockIdByHeightPrefix
  | signaturesReverse => HeightByBlockIdPrefix
  | score => ScoreByHeightPrefix

/-- The kind of a key. -/
def Key.kind : Key → Kind
  | .height => .height
  | .blocks _ => .blocks
  | .signatures _ => .signatures
  | .signaturesReverse _ => .signaturesReverse
  | .score _ => .score

/-- What follows the prefix of a key. -/
def Key.item : Key → ByteStr
  | .height => HeightPrefix
  | .blocks h => Ints.toByteArray h
  | .signatures h => Ints.toByteArray h
  | .signaturesReverse id => ByteStrCodec.encode id
  | .score h => Ints.toByteArray h

/-- The bytes of a key. -/
def Key.bytes (key : Key) : ByteStr := makeKey key.kind.word key.item

omit [Platform] in
/-- A key determines its prefix and its rest if the prefix has no colon. -/
theorem makeKey_inj {p p' k k' : ByteStr} (hp : 58 ∉ p) (hp' : 58 ∉ p')
    (h : makeKey p k = makeKey p' k') : p = p' ∧ k = k' := by
  simp only [makeKey, Separator, List.append_assoc, List.append_cancel_left_eq,
    List.singleton_append] at h
  exact separated_inj hp hp' (List.cons.inj h).2

omit [Platform] in
/-- Values with the same encoding are the same. -/
theorem encode_inj {a b : ByteStr} : ByteStrCodec.encode a = ByteStrCodec.encode b ↔ a = b := by
  refine ⟨fun h => ?_, congrArg _⟩
  exact (List.append_inj h (by simp)).2

omit [Platform] in
/-- The prefixes are words without a separator. -/
theorem Kind.separator_notMem_word (kind : Kind) : (58 : Byte) ∉ kind.word := by
  cases kind <;> decide +kernel

omit [Platform] in
/-- Different kinds of entries have different words. -/
theorem Kind.word_injective : Function.Injective Kind.word := by
  intro a b
  cases a <;> cases b <;> decide +kernel

omit [Platform] in
/-- Different keys have different bytes, although they lie in one space. -/
theorem Key.bytes_injective : Function.Injective Key.bytes := by
  intro a b h
  obtain ⟨hword, hitem⟩ :=
    makeKey_inj a.kind.separator_notMem_word b.kind.separator_notMem_word h
  have hkind := Kind.word_injective hword
  cases a <;> cases b <;> simp only [kind, reduceCtorEq] at hkind <;> simp only [item] at hitem
  case height.height => rfl
  case signaturesReverse.signaturesReverse => exact congrArg _ (encode_inj.mp hitem)
  all_goals exact congrArg _ (Ints.toByteArray_injective hitem)

/-- The block at a height, counted from one. -/
def blockOf (blocks : List Block) (h : Int32) : Option Block :=
  if 0 < h.toInt then blocks[h.toInt.toNat - 1]? else none

/-- What the blocks of a chain put under each key. -/
def content (blocks : List Block) : Key → Option ByteStr
  | .height => some (Ints.toByteArray (Int32.ofNat blocks.length))
  | .blocks h => (blockOf blocks h).map fun b => okOr b.bytes []
  | .signatures h => (blockOf blocks h).map fun b => ByteStrCodec.encode b.uniqueId
  | .signaturesReverse id =>
      (blocks.findIdx? fun b => b.uniqueId = id).map fun i =>
        Ints.toByteArray (Int32.ofNat (i + 1))
  | .score h =>
      (blockOf blocks h).map fun _ =>
        BigInt.toByteArray (chainScore (blocks.take h.toInt.toNat))

/-- A storage that holds the entries of a chain and nothing else. -/
structure Stores (db : Database) (blocks : List Block) : Prop where
  room : blocks.length < 2 ^ 31
  readable : ∀ b ∈ blocks, b.Storable
  distinct : (blocks.map Block.uniqueId).Nodup
  entry : ∀ key : Key, db.lookup key.bytes = content blocks key
  other : ∀ bytes, (∀ key : Key, bytes ≠ key.bytes) → db.lookup bytes = none

variable {db db' : Database} {blocks : List Block} {b : Block}

/-- The chain determines the storage. -/
theorem Stores.eq (hs : Stores db blocks) (hs' : Stores db' blocks) : db = db' := by
  refine Finmap.ext_lookup fun bytes => ?_
  by_cases hkey : ∃ key : Key, bytes = key.bytes
  · obtain ⟨key, rfl⟩ := hkey
    rw [hs.entry, hs'.entry]
  · rw [not_exists] at hkey
    rw [hs.other bytes hkey, hs'.other bytes hkey]

/-- A batch of `appendBlock` sets five entries. -/
theorem lookup_appendBatch (h : Int32) (bytes : ByteStr) (score : Int) (key : Key) :
    (commit (appendBatch h b bytes score) db).lookup key.bytes =
      if key = .height then some (Ints.toByteArray h)
      else if key = .signaturesReverse b.uniqueId then some (Ints.toByteArray h)
      else if key = .signatures h then some (ByteStrCodec.encode b.uniqueId)
      else if key = .score h then some (BigInt.toByteArray score)
      else if key = .blocks h then some bytes
      else db.lookup key.bytes := by
  simp only [← Key.bytes_injective.eq_iff]
  simp only [commit, appendBatch, List.foldl_cons, List.foldl_nil, Write.perform,
    Dict.lookup_insert_eq]
  rfl

omit [Platform] in
/-- A batch of `discardBlock` deletes four entries and sets the height. -/
theorem lookup_discardBatch {h : Int32} {id : ByteStr} (hid : blockId db h = some id) (key : Key) :
    (commit (discardBatch db h) db).lookup key.bytes =
      if key = .height then some (Ints.toByteArray (h - 1))
      else if key = .signatures h then none
      else if key = .signaturesReverse id then none
      else if key = .score h then none
      else if key = .blocks h then none
      else db.lookup key.bytes := by
  simp only [← Key.bytes_injective.eq_iff]
  simp only [commit, discardBatch, hid, List.cons_append, List.nil_append, List.foldl_cons,
    List.foldl_nil, Write.perform, Dict.lookup_insert_eq, Dict.lookup_erase_eq]
  rfl

/-- The writes of a batch are at keys of the history. -/
def OfKeys (batch : List Write) : Prop :=
  ∀ write ∈ batch, ∃ key : Key, write = .delete key.bytes ∨ ∃ value, write = .put key.bytes value

omit [Platform] in
/-- A batch leaves what is not the history's alone. -/
theorem commit_other {batch : List Write} {bytes : ByteStr}
    (h : OfKeys batch)
    (hother : ∀ key : Key, bytes ≠ key.bytes) : (commit batch db).lookup bytes = db.lookup bytes := by
  induction batch generalizing db with
  | nil => rfl
  | cons write batch ih =>
      obtain ⟨hwrite, hbatch⟩ := List.forall_mem_cons.mp h
      refine Eq.trans (@ih (write.perform db) hbatch) ?_
      obtain ⟨key, rfl | ⟨value, rfl⟩⟩ := hwrite
      · rw [Write.perform, Dict.lookup_erase_eq, if_neg (hother key)]
      · rw [Write.perform, Dict.lookup_insert_eq, if_neg (hother key)]

/-- Appending a block writes entries of the known kinds only. -/
theorem appendBatch_keys (h : Int32) (block : Block) (bytes : ByteStr) (score : Int) :
    OfKeys (appendBatch h block bytes score) := by
  simp only [OfKeys, appendBatch, List.forall_mem_cons]
  refine ⟨⟨.blocks h, .inr ⟨_, rfl⟩⟩, ⟨.score h, .inr ⟨_, rfl⟩⟩, ⟨.signatures h, .inr ⟨_, rfl⟩⟩,
    ⟨.signaturesReverse _, .inr ⟨_, rfl⟩⟩, ⟨.height, .inr ⟨_, rfl⟩⟩, fun _ h => ?_⟩
  exact absurd h List.not_mem_nil

omit [Platform] in
/-- Discarding a block writes entries of the known kinds only. -/
theorem discardBatch_keys {h : Int32} {id : ByteStr} (hid : blockId db h = some id) :
    OfKeys (discardBatch db h) := by
  simp only [OfKeys, discardBatch, hid, List.cons_append, List.nil_append, List.forall_mem_cons]
  refine ⟨⟨.blocks h, .inl rfl⟩, ⟨.score h, .inl rfl⟩, ⟨.signaturesReverse id, .inl rfl⟩,
    ⟨.signatures h, .inl rfl⟩, ⟨.height, .inr ⟨_, rfl⟩⟩, fun _ h => ?_⟩
  exact absurd h List.not_mem_nil

/-- One more block is found at its height, and the others as before. -/
theorem blockOf_concat (hroom : blocks.length + 1 < 2 ^ 31) (h : Int32) :
    blockOf (blocks ++ [b]) h
      = if h = Int32.ofNat (blocks.length + 1) then some b else blockOf blocks h := by
  have htop := Int32.toInt_ofNat_of_lt (n := blocks.length + 1) hroom
  simp only [blockOf, ← Int32.toInt_inj, htop]
  by_cases hpos : 0 < h.toInt
  · rw [if_pos hpos, if_pos hpos]
    split
    · rename_i heq
      rw [show h.toInt.toNat - 1 = blocks.length by omega, List.getElem?_concat_length]
    · by_cases hlow : h.toInt.toNat - 1 < blocks.length
      · rw [List.getElem?_append_left hlow]
      · rw [List.getElem?_eq_none (by rw [List.length_append, List.length_singleton]; omega),
          List.getElem?_eq_none (by omega)]
  · rw [if_neg hpos, if_neg hpos, if_neg (by omega)]

/-- A block is found at a height exactly if it is at that place of the chain. -/
theorem blockOf_eq_some_iff {h : Int32} :
    blockOf blocks h = some b ↔ ∃ i : Nat, h.toInt = i + 1 ∧ blocks[i]? = some b := by
  rw [blockOf]
  split
  · constructor
    · intro hb
      exact ⟨h.toInt.toNat - 1, by omega, hb⟩
    · rintro ⟨i, hi, hb⟩
      rwa [show h.toInt.toNat - 1 = i by omega]
  · constructor
    · exact fun hb => by cases hb
    · rintro ⟨i, hi, -⟩
      omega

/-- The blocks of a chain that is not too long are found at their heights. -/
theorem blockOf_ofNat {i : Nat} (hb : blocks[i]? = some b) (hroom : blocks.length < 2 ^ 31) :
    blockOf blocks (Int32.ofNat (i + 1)) = some b := by
  have hlt := (List.getElem?_eq_some_iff.mp hb).1
  refine blockOf_eq_some_iff.mpr ⟨i, ?_, hb⟩
  rw [Int32.toInt_ofNat_of_lt (by omega)]
  rfl

/-- No block is above the chain. -/
theorem blockOf_above {i : Nat} (hi : blocks.length < i) (hroom : i < 2 ^ 31) :
    blockOf blocks (Int32.ofNat i) = none := by
  rw [blockOf, Int32.toInt_ofNat_of_lt hroom, if_pos (by omega), List.getElem?_eq_none (by omega)]

/-- An identifier that no block has is at no height. -/
theorem findIdx?_eq_none {id : ByteStr} (hnew : id ∉ blocks.map Block.uniqueId) :
    (blocks.findIdx? fun b => b.uniqueId = id) = none := by
  refine List.findIdx?_eq_none_iff.mpr fun b hb => ?_
  rw [decide_eq_false_iff_not]
  rintro rfl
  exact hnew (List.mem_map_of_mem hb)

/-- A block on top adds to the content what a batch of `appendBlock` writes. -/
theorem content_concat (hroom : blocks.length + 1 < 2 ^ 31)
    (hnew : b.uniqueId ∉ blocks.map Block.uniqueId) (key : Key) :
    content (blocks ++ [b]) key =
      if key = .height then some (Ints.toByteArray (Int32.ofNat (blocks.length + 1)))
      else if key = .signaturesReverse b.uniqueId then
        some (Ints.toByteArray (Int32.ofNat (blocks.length + 1)))
      else if key = .signatures (Int32.ofNat (blocks.length + 1)) then
        some (ByteStrCodec.encode b.uniqueId)
      else if key = .score (Int32.ofNat (blocks.length + 1)) then
        some (BigInt.toByteArray (chainScore blocks + b.blockScore))
      else if key = .blocks (Int32.ofNat (blocks.length + 1)) then some (okOr b.bytes [])
      else content blocks key := by
  have htop := Int32.toInt_ofNat_of_lt (n := blocks.length + 1) hroom
  -- The keys of a new block are at its own height and under its own identifier, which no block
  -- below has.
  cases key with
  | height => simp [content]
  | blocks h =>
      simp only [reduceCtorEq, if_false, Key.blocks.injEq, content, blockOf_concat hroom]
      split <;> rfl
  | signatures h =>
      simp only [reduceCtorEq, if_false, Key.signatures.injEq, content, blockOf_concat hroom]
      split <;> rfl
  | signaturesReverse id =>
      simp only [reduceCtorEq, if_false, Key.signaturesReverse.injEq, content,
        List.findIdx?_append]
      by_cases hid : id = b.uniqueId
      · rw [if_pos hid, hid, findIdx?_eq_none hnew]
        simp [List.findIdx?_cons]
      · rw [if_neg hid]
        simp [List.findIdx?_cons, Ne.symm hid]
  | score h =>
      simp only [reduceCtorEq, if_false, Key.score.injEq, content, blockOf_concat hroom]
      split
      · rename_i hh
        rw [hh, htop, Int.toNat_natCast, List.take_of_length_le (by simp), chainScore_concat]
        rfl
      · cases hold : blockOf blocks h with
        | none => rfl
        | some b' =>
            obtain ⟨i, hi, hb'⟩ := blockOf_eq_some_iff.mp hold
            have hlt := (List.getElem?_eq_some_iff.mp hb').1
            rw [List.take_append_of_le_length (by omega)]

/-- Below a block, nothing is under the keys that are deleted with it. -/
theorem content_deleted (hroom : blocks.length + 1 < 2 ^ 31)
    (hnew : b.uniqueId ∉ blocks.map Block.uniqueId) :
    content blocks (.signaturesReverse b.uniqueId) = none ∧
      content blocks (.signatures (Int32.ofNat (blocks.length + 1))) = none ∧
      content blocks (.score (Int32.ofNat (blocks.length + 1))) = none ∧
      content blocks (.blocks (Int32.ofNat (blocks.length + 1))) = none := by
  simp only [content, findIdx?_eq_none hnew, blockOf_above (Nat.lt_succ_self _) hroom,
    Option.map_none, and_self]

/-- The storage that is opened for the first time holds no block. -/
theorem stores_opened : Stores opened [] where
  room := Nat.two_pow_pos 31
  readable := fun b hb => absurd hb List.not_mem_nil
  distinct := List.nodup_nil
  entry := by
    intro key
    have hlookup : opened.lookup key.bytes
        = if key = .height then some (Ints.toByteArray 0) else none := by
      simp only [← Key.bytes_injective.eq_iff]
      exact Dict.lookup_singleton _ _ _
    rw [hlookup]
    cases key <;> simp [content, blockOf]
  other := by
    intro bytes hother
    exact (Dict.lookup_singleton _ _ _).trans (if_neg (hother .height))

/-- A block on top. -/
theorem Stores.append (hs : Stores db blocks) (hroom : blocks.length + 1 < 2 ^ 31) (hb : b.Storable)
    (hnew : b.uniqueId ∉ blocks.map Block.uniqueId) :
    Stores (commit (appendBatch (Int32.ofNat (blocks.length + 1)) b (okOr b.bytes [])
      (chainScore blocks + b.blockScore)) db) (blocks ++ [b]) where
  room := by rwa [List.length_append, List.length_singleton]
  readable := List.forall_mem_append.mpr ⟨hs.readable, List.forall_mem_singleton.mpr hb⟩
  distinct := by
    rw [List.map_append, List.map_singleton, ← List.concat_eq_append, List.nodup_concat]
    exact ⟨hnew, hs.distinct⟩
  entry := fun key => by rw [lookup_appendBatch, hs.entry, content_concat hroom hnew]
  other := by
    intro bytes hother
    rw [commit_other (appendBatch_keys _ _ _ _) hother, hs.other bytes hother]

omit [Platform] in
/-- A value that is not too long is read back from its encoding. -/
theorem decode_encode {value : ByteStr} (h : value.length + 4 < 2 ^ 31) :
    ByteStrCodec.decode (ByteStrCodec.encode value) = some value := by
  have hlength := Int32.toInt_ofNat_of_lt (n := value.length) (by omega)
  have hend : ((4 : Int32) + Int32.ofNat value.length).toInt = (4 + value.length : Nat) := by
    rw [show (4 : Int32) + Int32.ofNat value.length = Int32.ofNat (4 + value.length) from
      (Int32.ofNat_add 4 _).symm, Int32.toInt_ofNat_of_lt (by omega)]
  have hvalue : slice (ByteStrCodec.encode value) 4 (4 + value.length : Nat) = value := by
    rw [slice, ByteStrCodec.encode, Int.toNat_natCast]
    show ((Ints.toByteArray _ ++ value).drop 4).take (4 + value.length - 4) = value
    rw [List.drop_left' (Ints.length_toByteArray _), List.take_of_length_le (by omega)]
  rw [ByteStrCodec.decode]
  have htake : (ByteStrCodec.encode value).take 4 = Ints.toByteArray (Int32.ofNat value.length) :=
    List.take_left' (Ints.length_toByteArray _)
  rw [htake, Ints.fromByteArray_toByteArray]
  simp only [hend, hvalue, hlength, if_true]

/-- The identifier of a block that can be read is a signature. -/
theorem length_uniqueId (hb : b.Storable) : b.uniqueId.length ≤ 64 := by
  obtain ⟨bytes, -, hparse⟩ := hb
  obtain ⟨-, -, -, -, -, hsignature⟩ := Block.parseBytes_eq_ok hparse
  have hend := Block.toInt_add_of_nonneg (Block.generatorStart bytes + 32) (n := 64) (by decide)
  have hsixtyFour : (64 : Int32).toInt = 64 := rfl
  rw [Block.uniqueId, hsignature, slice, List.length_take]
  omega

/-- What `appendBlock` asks for: the block refers to the last one, the validation accepts it, and it
can be written. -/
structure Taken (db : Database) (block : Block) (validation : Result BlockDiff) : Prop where
  next : isNext db block = .ok true
  accepted : ∃ d, validation = .ok d
  written : ∃ bytes, block.bytes = .ok bytes

/-- A block is refused, and nothing is written, or it is taken. -/
theorem appendBlock_cases (db : Database) (b : Block) (validation : Result BlockDiff) :
    (∃ e, appendBlock b validation db = (.error e, db)) ∨
      Taken db b validation ∧ ∃ d, (appendBlock b validation db).1 = .ok d := by
  rw [appendBlock, Action.bind_of_ok (Action.get_apply db), Action.bind_apply,
    Action.ofExcept_apply]
  cases hnext : isNext db b with
  | error e => exact .inl ⟨e, rfl⟩
  | ok next =>
      cases next with
      | false =>
          show (∃ e, (Action.ofExcept (lastBlock db) >>= _) db = _) ∨ _
          rw [Action.bind_apply, Action.ofExcept_apply]
          cases lastBlock db with
          | error e => exact .inl ⟨e, rfl⟩
          | ok last => exact .inl ⟨_, rfl⟩
      | true =>
          simp only [if_true, Action.bind_apply, Action.ofExcept_apply]
          cases validation with
          | error e => exact .inl ⟨e, rfl⟩
          | ok d =>
              cases height db with
              | error e => exact .inl ⟨e, rfl⟩
              | ok h =>
                  dsimp only
                  cases (if h = 0 then .ok 0 else score db : Result Int) with
                  | error e => exact .inl ⟨e, rfl⟩
                  | ok oldScore =>
                      cases hbytes : b.bytes with
                      | error e => exact .inl ⟨e, rfl⟩
                      | ok bytes => exact .inr ⟨⟨hnext, ⟨d, rfl⟩, bytes, hbytes⟩, d, rfl⟩

/-- A block that is not taken is refused. -/
theorem appendBlock_refused {validation : Result BlockDiff} (h : ¬ Taken db b validation) :
    ∃ e, appendBlock b validation db = (.error e, db) := by
  obtain hrefused | ⟨htaken, -⟩ := appendBlock_cases db b validation
  · exact hrefused
  · exact absurd htaken h

/-- A failure of `appendBlock` writes nothing. -/
theorem appendBlock_of_error {validation : Result BlockDiff} {e : Fault}
    (h : (appendBlock b validation db).1 = .error e) : (appendBlock b validation db).2 = db := by
  obtain ⟨e', hrefused⟩ | ⟨-, d, hd⟩ := appendBlock_cases db b validation
  · rw [hrefused]
  · rw [hd] at h
    cases h

namespace Stores

/-- A database that stores some blocks has their number as its height. -/
theorem height (hs : Stores db blocks) :
    HistoryWriterImpl.height db = .ok (Int32.ofNat blocks.length) := by
  have hentry : db.lookup heightKey = some (Ints.toByteArray (Int32.ofNat blocks.length)) :=
    hs.entry .height
  rw [HistoryWriterImpl.height, hentry, getOrRaise, ok_bind, Ints.fromByteArray_toByteArray]

/-- The height is zero only for the empty chain. -/
theorem height_eq_zero_iff (hs : Stores db blocks) :
    Int32.ofNat blocks.length = 0 ↔ blocks = [] := by
  have hheight := Int32.toInt_ofNat_of_lt hs.room
  rw [← Int32.toInt_inj, hheight, ← List.length_eq_zero_iff]
  exact Int.natCast_eq_zero

/-- A database that stores some blocks has them at their heights. -/
theorem blockAt (hs : Stores db blocks) (h : Int32) :
    HistoryWriterImpl.blockAt db h = .ok (blockOf blocks h) := by
  have hentry : blockBytes db h = (blockOf blocks h).map fun b => okOr b.bytes [] :=
    hs.entry (.blocks h)
  rw [HistoryWriterImpl.blockAt, hentry]
  cases hb : blockOf blocks h with
  | none => rfl
  | some b =>
      obtain ⟨i, -, hi⟩ := blockOf_eq_some_iff.mp hb
      obtain ⟨bytes, hbytes, hparse⟩ := hs.readable b (List.mem_of_getElem? hi)
      show some <$> explicitGet (Block.parseBytes (okOr b.bytes [])) = _
      rw [hbytes, okOr, hparse]
      rfl

/-- The last block. -/
theorem lastBlock (hs : Stores db blocks) :
    HistoryWriterImpl.lastBlock db = .ok blocks.getLast? := by
  have hheight := Int32.toInt_ofNat_of_lt hs.room
  rw [HistoryWriterImpl.lastBlock, hs.height, ok_bind, hs.blockAt, blockOf, hheight,
    List.getLast?_eq_getElem?, Int.toNat_natCast]
  split
  · rfl
  · rw [List.length_eq_zero_iff.mp (show blocks.length = 0 by omega)]
    rfl

/-- A database that stores some blocks has the height of the first block with an identifier. -/
theorem heightOf (hs : Stores db blocks) (id : ByteStr) :
    HistoryWriterImpl.heightOf db id
      = .ok ((blocks.findIdx? fun b => b.uniqueId = id).map fun i => Int32.ofNat (i + 1)) := by
  have hentry : db.lookup (heightByBlockIdKey id)
      = (blocks.findIdx? fun b => b.uniqueId = id).map fun i =>
        Ints.toByteArray (Int32.ofNat (i + 1)) := hs.entry (.signaturesReverse id)
  rw [HistoryWriterImpl.heightOf, hentry]
  cases blocks.findIdx? fun b => b.uniqueId = id with
  | none => rfl
  | some i =>
      show some <$> Ints.fromByteArray (Ints.toByteArray (Int32.ofNat (i + 1))) = _
      rw [Ints.fromByteArray_toByteArray]
      rfl

/-- A block of the chain is found at its place. -/
theorem findIdx?_uniqueId (hs : Stores db blocks) {i : Nat} (hb : blocks[i]? = some b) :
    (blocks.findIdx? fun b' => b'.uniqueId = b.uniqueId) = some i := by
  obtain ⟨hi, rfl⟩ := List.getElem?_eq_some_iff.mp hb
  rw [List.findIdx?_eq_some_iff_getElem]
  refine ⟨hi, decide_eq_true rfl, fun j hj => ?_⟩
  rw [decide_eq_true_eq]
  intro hsame
  have hj' : j < (blocks.map Block.uniqueId).length := by
    rw [List.length_map]
    omega
  have hi' : i < (blocks.map Block.uniqueId).length := by rwa [List.length_map]
  have hget : (blocks.map Block.uniqueId)[j] = (blocks.map Block.uniqueId)[i] := by
    rwa [List.getElem_map, List.getElem_map]
  have := hs.distinct.getElem_inj_iff.mp hget
  omega

/-- The score up to a block. -/
theorem scoreOf (hs : Stores db blocks) {i : Nat} (hb : blocks[i]? = some b) :
    HistoryWriterImpl.scoreOf db b.uniqueId = .ok (some (chainScore (blocks.take (i + 1)))) := by
  have hlt := (List.getElem?_eq_some_iff.mp hb).1
  have hroom := hs.room
  have htop := Int32.toInt_ofNat_of_lt (n := i + 1) (by omega)
  have hentry : db.lookup (scoreByHeightKey (Int32.ofNat (i + 1)))
      = some (BigInt.toByteArray (chainScore (blocks.take (i + 1)))) := by
    refine (hs.entry (.score (Int32.ofNat (i + 1)))).trans ?_
    rw [content, blockOf_ofNat hb hroom, htop, Int.toNat_natCast]
    rfl
  rw [HistoryWriterImpl.scoreOf, hs.heightOf, hs.findIdx?_uniqueId hb, ok_bind]
  simp only [Option.map_some, hentry, BigInt.ofByteArray_toByteArray]
  rfl

/-- The score of the chain. -/
theorem score (hs : Stores db blocks) : HistoryWriterImpl.score db = .ok (chainScore blocks) := by
  rw [HistoryWriterImpl.score, hs.lastBlock, ok_bind]
  cases hlast : blocks.getLast? with
  | none =>
      rw [List.getLast?_eq_none_iff.mp hlast]
      rfl
  | some b =>
      rw [List.getLast?_eq_getElem?] at hlast
      have hlt := (List.getElem?_eq_some_iff.mp hlast).1
      simp only [hs.scoreOf hlast, ok_bind, Option.getD_some]
      rw [List.take_of_length_le (by omega)]

/-- The identifier of the block at a height. -/
theorem blockId (hs : Stores db blocks) (h : Int32) :
    HistoryWriterImpl.blockId db h = (blockOf blocks h).map Block.uniqueId := by
  have hentry : db.lookup (blockIdByHeightKey h)
      = (blockOf blocks h).map fun b => ByteStrCodec.encode b.uniqueId := hs.entry (.signatures h)
  rw [HistoryWriterImpl.blockId, hentry]
  cases hb : blockOf blocks h with
  | none => rfl
  | some b =>
      obtain ⟨i, -, hi⟩ := blockOf_eq_some_iff.mp hb
      have hlength := length_uniqueId (hs.readable b (List.mem_of_getElem? hi))
      exact decode_encode (by omega)

/-- A block can come next when it refers to the last one. -/
theorem isNext (hs : Stores db blocks) (b : Block) :
    HistoryWriterImpl.isNext db b
      = .ok (decide (∀ last ∈ blocks.getLast?, last.uniqueId = b.reference)) := by
  rw [HistoryWriterImpl.isNext, hs.height, ok_bind, hs.lastBlock]
  by_cases hnone : blocks = []
  · rw [if_pos (hs.height_eq_zero_iff.mpr hnone), hnone]
    rfl
  · rw [if_neg (mt hs.height_eq_zero_iff.mp hnone), ok_bind, List.getLast?_eq_getLast_of_ne_nil hnone]
    simp [getOrRaise]

/-- A block that can come next and that the validation accepts is put on top. -/
theorem appendBlock (hs : Stores db blocks) (hroom : blocks.length + 1 < 2 ^ 31) (hb : b.Storable)
    (hnew : b.uniqueId ∉ blocks.map Block.uniqueId) {validation : Result BlockDiff}
    (htaken : Taken db b validation) :
    (∃ d, (HistoryWriterImpl.appendBlock b validation db).1 = .ok d) ∧
      Stores (HistoryWriterImpl.appendBlock b validation db).2 (blocks ++ [b]) := by
  obtain ⟨hnext, ⟨d, rfl⟩, bytes, hbytes⟩ := htaken
  have hold : (if Int32.ofNat blocks.length = 0 then .ok 0 else HistoryWriterImpl.score db)
      = .ok (chainScore blocks) := by
    rw [hs.score]
    split
    · rename_i hzero
      rw [hs.height_eq_zero_iff.mp hzero]
      rfl
    · rfl
  have hheight : Int32.ofNat blocks.length + 1 = Int32.ofNat (blocks.length + 1) :=
    (Int32.ofNat_add _ 1).symm
  have hrun : HistoryWriterImpl.appendBlock b (.ok d) db
      = (.ok d, commit (appendBatch (Int32.ofNat (blocks.length + 1)) b (okOr b.bytes [])
          (chainScore blocks + b.blockScore)) db) := by
    simp only [HistoryWriterImpl.appendBlock, if_true, Action.bind_apply, Action.get_apply,
      Action.ofExcept_apply, hnext, hs.height, hold, hbytes, Action.modify_apply,
      Action.pure_apply, okOr, hheight]
  rw [hrun]
  exact ⟨⟨d, rfl⟩, hs.append hroom hb hnew⟩

/-- What `discardBlock` does: it gives back the transactions of the last block, and the storage is the
one of the blocks below. -/
theorem discardBlock (hs : Stores db (blocks ++ [b])) :
    ∃ db', HistoryWriterImpl.discardBlock db = (.ok b.transactions, db') ∧ Stores db' blocks := by
  have hroom := hs.room
  rw [List.length_append, List.length_singleton] at hroom
  have hlast : (blocks ++ [b])[blocks.length]? = some b := List.getElem?_concat_length
  have htop := blockOf_ofNat hlast hs.room
  obtain ⟨bytes, hbytes, hparse⟩ := hs.readable b (List.mem_append_right _ (List.mem_singleton_self b))
  have hbody : blockBytes db (Int32.ofNat (blocks.length + 1)) = some bytes := by
    refine (hs.entry (.blocks _)).trans ?_
    rw [content, htop, Option.map_some, hbytes]
    rfl
  have hid : HistoryWriterImpl.blockId db (Int32.ofNat (blocks.length + 1)) = some b.uniqueId := by
    rw [hs.blockId, htop]
    rfl
  have hnew : b.uniqueId ∉ blocks.map Block.uniqueId := by
    have hdistinct := hs.distinct
    rw [List.map_append, List.map_singleton, ← List.concat_eq_append, List.nodup_concat] at hdistinct
    exact hdistinct.1
  refine ⟨commit (discardBatch db (Int32.ofNat (blocks.length + 1))) db, ?_, ?_⟩
  · rw [HistoryWriterImpl.discardBlock, Action.bind_of_ok (Action.get_apply db), hs.height,
      List.length_append, List.length_singleton, Action.bind_of_ok (Action.ofExcept_apply _ db)]
    simp only [hbody, Option.getD_some, hparse]
    rfl
  · constructor
    case room => omega
    case readable => exact fun b' hb' => hs.readable b' (List.mem_append_left _ hb')
    case distinct =>
      have hdistinct := hs.distinct
      rw [List.map_append] at hdistinct
      exact hdistinct.of_append_left
    case other =>
      intro bytes' hother
      rw [commit_other (discardBatch_keys hid) hother, hs.other bytes' hother]
    case entry =>
      intro key
      have hlower : Int32.ofNat (blocks.length + 1) - 1 = Int32.ofNat blocks.length := by
        rw [Int32.ofNat_add]
        exact Int32.add_sub_cancel _ _
      obtain ⟨hreverse, hsignatures, hscore, hblocks⟩ := content_deleted hroom hnew
      rw [lookup_discardBatch hid, hs.entry, content_concat hroom hnew, hlower]
      -- The batch writes the height and deletes the four entries of the last block.
      rcases eq_or_ne key .height with rfl | hheight
      · rfl
      rcases eq_or_ne key (.signaturesReverse b.uniqueId) with rfl | hr
      · simp only [reduceCtorEq, if_true, if_false, hreverse]
      rcases eq_or_ne key (.signatures (Int32.ofNat (blocks.length + 1))) with rfl | hi
      · simp only [reduceCtorEq, if_true, if_false, hsignatures]
      rcases eq_or_ne key (.score (Int32.ofNat (blocks.length + 1))) with rfl | hsc
      · simp only [reduceCtorEq, if_true, if_false, hscore]
      rcases eq_or_ne key (.blocks (Int32.ofNat (blocks.length + 1))) with rfl | hbl
      · simp only [reduceCtorEq, if_true, if_false, hblocks]
      · simp only [hheight, hr, hi, hsc, hbl, if_false]

/-- A block that is taken refers to the last one. -/
theorem reference (hs : Stores db blocks) {validation : Result BlockDiff}
    (htaken : Taken db b validation) : ∀ last ∈ blocks.getLast?, last.uniqueId = b.reference := by
  have hnext := htaken.next
  rw [hs.isNext, Except.ok.injEq] at hnext
  exact of_decide_eq_true hnext

end Stores

/-- The storage answers as the maps of `History` that hold the same chain do. -/
theorem answers_of_scored (hs : Stores db blocks) {h : History} (hh : h.Scored blocks) :
    height db = .ok (Int32.ofNat h.height) ∧ lastBlock db = h.lastBlock ∧ score db = h.score ∧
      ∀ id, heightOf db id = .ok ((h.heightOf id).map Int32.ofNat) := by
  refine ⟨?_, ?_, ?_, fun id => ?_⟩
  · rw [hs.height, hh.stores.height]
  · rw [hs.lastBlock, hh.stores.lastBlock]
  · rw [hs.score, hh.score]
  · rw [hs.heightOf]
    by_cases hid : id ∈ blocks.map Block.uniqueId
    · obtain ⟨b, hb, rfl⟩ := List.mem_map.mp hid
      obtain ⟨i, hi⟩ := List.getElem?_of_mem hb
      rw [hs.findIdx?_uniqueId hi, hh.named i b hi]
      rfl
    · have hnone : h.heightOf id = none := by
        rw [Option.eq_none_iff_forall_not_mem]
        intro k hk
        obtain ⟨i, b, -, hb, rfl⟩ := hh.stores.known id k hk
        exact hid (List.mem_map_of_mem (List.mem_of_getElem? hb))
      rw [findIdx?_eq_none hid, hnone]
      rfl

/-- The storages that are reached from an empty one, each with its chain: a block that is refused may
be any, and one that is taken comes back from its own bytes, has an identifier of its own, and leaves
the height below 2^31. -/
inductive Reached : Database → List Block → Prop where
  | opened : Reached opened []
  | refused {db : Database} {blocks : List Block} (block : Block) (validation : Result BlockDiff)
      (hdb : Reached db blocks) (hrefused : ¬ Taken db block validation) :
      Reached (appendBlock block validation db).2 blocks
  | taken {db : Database} {blocks : List Block} (block : Block) (validation : Result BlockDiff)
      (hdb : Reached db blocks) (htaken : Taken db block validation) (hread : block.Storable)
      (hnew : block.uniqueId ∉ blocks.map Block.uniqueId) (hroom : blocks.length + 1 < 2 ^ 31) :
      Reached (appendBlock block validation db).2 (blocks ++ [block])
  | discarded {db : Database} {blocks : List Block} {block : Block}
      (hdb : Reached db (blocks ++ [block])) : Reached (discardBlock db).2 blocks

/-- Each block of a chain refers to the one below it. -/
def Linked (blocks : List Block) : Prop :=
  ∀ i b b', blocks[i]? = some b → blocks[i + 1]? = some b' → b'.reference = b.uniqueId

/-- Linked blocks and one that refers to the last of them are linked. -/
theorem Linked.concat (hlinked : Linked blocks)
    (h : ∀ last ∈ blocks.getLast?, last.uniqueId = b.reference) : Linked (blocks ++ [b]) := by
  intro i a a' ha ha'
  have hlt := (List.getElem?_eq_some_iff.mp ha').1
  rw [List.length_append, List.length_singleton] at hlt
  rw [List.getElem?_append_left (by omega)] at ha
  by_cases htop : i + 1 = blocks.length
  · rw [htop, List.getElem?_concat_length, Option.some.injEq] at ha'
    refine ha' ▸ (h a ?_).symm
    rw [List.getLast?_eq_getElem?, ← htop]
    exact ha
  · rw [List.getElem?_append_left (by omega)] at ha'
    exact hlinked i a a' ha ha'

/-- Every storage that is reached holds the entries of its chain, whose blocks are linked. -/
theorem Reached.stores (h : Reached db blocks) : Stores db blocks ∧ Linked blocks := by
  induction h with
  | opened => exact ⟨stores_opened, fun i b b' hb => by cases hb⟩
  | refused block validation hdb hrefused ih =>
      obtain ⟨e, he⟩ := appendBlock_refused hrefused
      rwa [he]
  | taken block validation hdb htaken hread hnew hroom ih =>
      obtain ⟨hs, hlinked⟩ := ih
      exact ⟨(hs.appendBlock hroom hread hnew htaken).2, hlinked.concat (hs.reference htaken)⟩
  | discarded hdb ih =>
      obtain ⟨hs, hlinked⟩ := ih
      obtain ⟨db', hdiscard, hs'⟩ := hs.discardBlock
      rw [hdiscard]
      refine ⟨hs', fun i b b' hb hb' => hlinked i b b' ?_ ?_⟩
      · rwa [List.getElem?_append_left (List.getElem?_eq_some_iff.mp hb).1]
      · rwa [List.getElem?_append_left (List.getElem?_eq_some_iff.mp hb').1]

/-- In a storage that is reached the block at every height has the identifier that is kept for the
height, the height is kept for the identifier and for no other, blocks refer to the blocks below
them, and the score is the sum up to the height.  A block that is refused changes nothing, and
`discardBlock` gives back the transactions of the last block and the storage of the blocks below. -/
theorem Reached.indices_consistent (h : Reached db blocks) :
    height db = .ok (Int32.ofNat blocks.length) ∧
      (∀ i b, blocks[i]? = some b →
        blockAt db (Int32.ofNat (i + 1)) = .ok (some b) ∧
          blockId db (Int32.ofNat (i + 1)) = some b.uniqueId ∧
          heightOf db b.uniqueId = .ok (some (Int32.ofNat (i + 1))) ∧
          scoreOf db b.uniqueId
            = .ok (some ((blocks.take (i + 1)).map Block.blockScore).sum)) ∧
      (∀ id, id ∉ blocks.map Block.uniqueId → heightOf db id = .ok none) ∧
      (∀ i b b', blocks[i]? = some b → blocks[i + 1]? = some b' → b'.reference = b.uniqueId) ∧
      (∀ block validation e, (appendBlock block validation db).1 = .error e →
        (appendBlock block validation db).2 = db) ∧
      (∀ lower b, blocks = lower ++ [b] →
        (discardBlock db).1 = .ok b.transactions ∧
          ∀ below, Reached below lower → (discardBlock db).2 = below) := by
  obtain ⟨hs, hlinked⟩ := h.stores
  refine ⟨hs.height, fun i b hb => ?_, fun id hid => ?_, hlinked, fun block validation e he => ?_,
    fun lower b hblocks => ?_⟩
  · have hplace := blockOf_ofNat hb hs.room
    refine ⟨?_, ?_, ?_, hs.scoreOf hb⟩
    · rw [hs.blockAt, hplace]
    · rw [hs.blockId, hplace, Option.map_some]
    · rw [hs.heightOf, hs.findIdx?_uniqueId hb, Option.map_some]
  · rw [hs.heightOf, findIdx?_eq_none hid, Option.map_none]
  · exact appendBlock_of_error he
  -- Two storages of one chain have the same entries, so that a discard gives back the one below.
  · obtain ⟨db', hdiscard, hs'⟩ := (hblocks ▸ hs).discardBlock
    rw [hdiscard]
    exact ⟨rfl, fun below hbelow => hs'.eq hbelow.stores.1⟩

end Platform

end HistoryWriterImpl

namespace Sample

open HistoryWriterImpl

/-- The storage of the first block. -/
def firstStorage : Database := (appendBlock genesisBlock (.ok BlockDiff.empty) opened).2

/-- The storage of the first two blocks. -/
def secondStorage : Database := (appendBlock secondBlock (.ok BlockDiff.empty) firstStorage).2

/-- Which blocks come next in the storages. -/
theorem next_evaluates :
    isNext opened genesisBlock = .ok true ∧ isNext firstStorage secondBlock = .ok true ∧
      isNext secondStorage secondBlock = .ok false := by
  decide +kernel

theorem firstStorage_reached : Reached firstStorage [genesisBlock] :=
  @Reached.taken _ _ [] genesisBlock _ .opened
    ⟨next_evaluates.1, ⟨BlockDiff.empty, rfl⟩, storable_genesisBlock.imp fun _ h => h.1⟩
    storable_genesisBlock List.not_mem_nil (by decide)

theorem secondStorage_reached : Reached secondStorage [genesisBlock, secondBlock] :=
  .taken secondBlock _ firstStorage_reached
    ⟨next_evaluates.2.1, ⟨BlockDiff.empty, rfl⟩, storable_secondBlock.imp fun _ h => h.1⟩
    storable_secondBlock (by decide) (by decide)

/-- A block is put on top of another, a third is refused, and the second is taken off again. -/
theorem secondBlock_undone : let db := (appendBlock secondBlock (.ok BlockDiff.empty) secondStorage).2
    height db = .ok 2 ∧ (discardBlock db).1 = .ok secondBlock.transactions ∧
      (discardBlock db).2 = firstStorage := by
  intro db
  have hrefused : ¬ Taken secondStorage secondBlock (.ok BlockDiff.empty) := by
    intro h
    exact absurd (next_evaluates.2.2.symm.trans h.next) (by decide)
  obtain ⟨hheight, -, -, -, -, hdiscard⟩ :=
    (Reached.refused secondBlock (.ok BlockDiff.empty) secondStorage_reached
      hrefused).indices_consistent
  obtain ⟨htransactions, hbelow⟩ := hdiscard [genesisBlock] secondBlock rfl
  exact ⟨hheight, htransactions, hbelow firstStorage firstStorage_reached⟩

/-- A block of version 3 is taken, cannot be read back, and takes its transactions with it. -/
theorem genesisBlock_lost : let b := { genesisBlock with version := 3 }
    let db := (appendBlock b (.ok BlockDiff.empty) opened).2
    (appendBlock b (.ok BlockDiff.empty) opened).1 = .ok BlockDiff.empty ∧
      height db = .ok 1 ∧ Raises (blockAt db 1) ∧ Raises (score db) ∧
      b.transactions ≠ [] ∧ (discardBlock db).1 = .ok [] := by
  intro b db
  refine ⟨by rfl, by decide +kernel, by decide +kernel, by decide +kernel, by decide, ?_⟩
  decide +kernel

end Sample

end Vsys
