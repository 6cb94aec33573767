import Vsys.Chain.HistoryStorage
import Vsys.Lib.Scan

/-!
# The maps of the state

A `StateMap` keeps its entries, and their number, under keys that begin with its name, in a database
that it shares with other maps.  What it writes may be collected in a batch of the caller; what it
reads is the database.
-/

namespace Vsys

open Lib

/-- A byte as the unsigned number by which keys are compared. -/
def unsignedByte (b : Byte) : Nat := b.toUInt8.toNat

/-- The order of the keys, which is that of `UnsignedBytes.lexicographicalComparator`. -/
abbrev KeyLE : ByteStr → ByteStr → Prop := LexLE unsignedByte

theorem unsignedByte_injective : Function.Injective unsignedByte := by
  intro a b h
  have hbytes := UInt8.toNat_inj.mp h
  rw [← Int8.toInt8_toUInt8 a, ← Int8.toInt8_toUInt8 b, hbytes]

instance keyLE_trans : IsTrans ByteStr KeyLE := ⟨fun _ _ _ => LexLE.trans⟩

instance keyLE_antisymm : Std.Antisymm KeyLE :=
  ⟨fun _ _ => LexLE.antisymm unsignedByte_injective⟩

instance keyLE_total : Std.Total KeyLE := ⟨lexLE_total⟩

namespace Database

/-- The entries in the order of their keys, as an iterator gives them. -/
def entries (db : Database) : List (ByteStr × ByteStr) :=
  (db.keys.sort KeyLE).filterMap fun key => (db.lookup key).map (key, ·)

/-- `DBIterator.seek`: the entries from `target` on. -/
def seek (target : ByteStr) (it : List (ByteStr × ByteStr)) : List (ByteStr × ByteStr) :=
  it.dropWhile fun entry => !decide (KeyLE target entry.1)

/-- What a `DBPrefixIterator` gives. -/
def prefixIterator (db : Database) (keyPrefix : ByteStr) : List (ByteStr × ByteStr) :=
  (seek keyPrefix db.entries).takeWhile fun entry => decide (keyPrefix <+: entry.1)

/-- `rangeContainsNextKey`, with the lower end and without the upper one. -/
def rangeContains (low high nextKey : ByteStr) : Bool :=
  decide (KeyLE low nextKey) && !decide (KeyLE high nextKey)

/-- What a `DBRangeIterator` gives, with the lower end and without the upper one. -/
def rangeIterator (db : Database) (low high : ByteStr) : List (ByteStr × ByteStr) :=
  let it := seek low db.entries
  let it :=
    match it with
    | entry :: rest => if rangeContains low high entry.1 then it else rest
    | [] => it
  it.takeWhile fun entry => rangeContains low high entry.1

variable {db : Database}

theorem mem_entries {entry : ByteStr × ByteStr} :
    entry ∈ db.entries ↔ db.lookup entry.1 = some entry.2 := by
  obtain ⟨key, value⟩ := entry
  simp only [entries, List.mem_filterMap, Finset.mem_sort, Option.map_eq_some_iff]
  constructor
  · rintro ⟨key', -, value', hvalue, heq⟩
    obtain ⟨rfl, rfl⟩ := Prod.mk.inj heq
    exact hvalue
  · exact fun h => ⟨key, Dict.mem_keys_of_lookup h, value, h, rfl⟩

theorem entries_pairwise : db.entries.Pairwise fun a b => KeyLE a.1 b.1 := by
  refine (Finset.pairwise_sort db.keys KeyLE).filterMap _ fun a a' h b hb b' hb' => ?_
  obtain ⟨v, -, rfl⟩ := Option.map_eq_some_iff.mp hb
  obtain ⟨v', -, rfl⟩ := Option.map_eq_some_iff.mp hb'
  exact h

theorem entries_nodup : db.entries.Nodup := by
  refine (Finset.sort_nodup (s := db.keys) (r := KeyLE)).filterMap fun a a' b hb hb' => ?_
  obtain ⟨v, -, rfl⟩ := Option.map_eq_some_iff.mp hb
  obtain ⟨v', -, hv'⟩ := Option.map_eq_some_iff.mp hb'
  exact (Prod.mk.inj hv').1.symm

/-- Seeking leaves the entries that are not before the target. -/
theorem seek_entries (target : ByteStr) :
    seek target db.entries = db.entries.filter fun entry => decide (KeyLE target entry.1) := by
  rw [seek, dropWhile_eq_filter entries_pairwise]
  · simp only [Bool.not_not]
  · intro a _ b _ hab hb
    rw [Bool.not_eq_true', decide_eq_false_iff_not] at hb ⊢
    exact fun ha => hb (ha.trans hab)

/-- The keys with a prefix stand together. -/
theorem prefixIterator_eq (keyPrefix : ByteStr) :
    db.prefixIterator keyPrefix
      = db.entries.filter fun entry => decide (keyPrefix <+: entry.1) := by
  rw [prefixIterator, seek_entries, takeWhile_eq_filter (entries_pairwise.filter _)]
  · rw [List.filter_filter]
    refine List.filter_congr fun entry _ => ?_
    rw [Bool.and_eq_decide, decide_eq_decide, decide_eq_true_eq, decide_eq_true_eq]
    exact and_iff_left_of_imp lexLE_of_start
  · intro a ha b _ hab hb
    have hseek := of_decide_eq_true (List.mem_filter.mp ha).2
    exact decide_eq_true (prefix_of_lexLE unsignedByte_injective hseek hab (of_decide_eq_true hb))

/-- The keys in a range do, and the first key is skipped only where there is none in it. -/
theorem rangeIterator_eq (low high : ByteStr) :
    db.rangeIterator low high
      = db.entries.filter fun entry => rangeContains low high entry.1 := by
  have hpairwise : db.entries.Pairwise fun a b => KeyLE a.1 b.1 := entries_pairwise
  have hsorted := hpairwise.filter fun entry => decide (KeyLE low entry.1)
  have hfilter : (db.entries.filter fun entry => decide (KeyLE low entry.1)).filter
      (fun entry => rangeContains low high entry.1)
      = db.entries.filter fun entry => rangeContains low high entry.1 := by
    rw [List.filter_filter]
    refine List.filter_congr fun entry _ => ?_
    rw [Bool.and_eq_left_iff_imp]
    exact fun hrange => (Bool.and_eq_true_iff.mp hrange).1
  have hdown : ∀ a ∈ db.entries.filter (fun entry => decide (KeyLE low entry.1)),
      ∀ b ∈ db.entries.filter (fun entry => decide (KeyLE low entry.1)), KeyLE a.1 b.1 →
        rangeContains low high b.1 → rangeContains low high a.1 := by
    intro a ha b _ hab hb
    have hhigh := (Bool.and_eq_true_iff.mp hb).2
    rw [Bool.not_eq_true', decide_eq_false_iff_not] at hhigh
    refine Bool.and_eq_true_iff.mpr ⟨(List.mem_filter.mp ha).2, ?_⟩
    rw [Bool.not_eq_true', decide_eq_false_iff_not]
    exact fun hle => hhigh (hle.trans hab)
  rw [rangeIterator, seek_entries, ← hfilter]
  generalize db.entries.filter (fun entry => decide (KeyLE low entry.1)) = it at hsorted hdown
  cases it with
  | nil => rfl
  | cons entry rest =>
      dsimp only
      split
      · exact takeWhile_eq_filter hsorted hdown
      · rename_i hnot
        -- nothing behind a key that is out of the range is in it
        have hrest : ∀ b ∈ rest, ¬ rangeContains low high b.1 := fun b hb hin => hnot
          (hdown entry List.mem_cons_self b (List.mem_cons_of_mem entry hb)
            (List.rel_of_pairwise_cons hsorted hb) hin)
        rw [List.filter_cons, if_neg hnot, List.filter_eq_nil_iff.mpr hrest]
        cases rest with
        | nil => rfl
        | cons b rest => rw [List.takeWhile_cons, if_neg (hrest b List.mem_cons_self)]

end Database

/-- A `DataType`: the bytes of a value, with what the buffer has left over, and how they are read. -/
structure StateMap.DataType (A : Type) where
  write : A → ByteStr
  read : ByteStr → Result A
  read_write : ∀ a, read (write a) = .ok a

/-- `StateMap`. -/
structure StateMap (K V : Type) where
  stateName : String
  keyType : StateMap.DataType K
  valueType : StateMap.DataType V

namespace StateMap

variable {K V : Type} (m : StateMap K V) (db : Database)

/-- `Separator`. -/
def Separator : ByteStr := [58]

/-- `SubStorage.makePrefix`, under the name of the states. -/
def makePrefix (keyPrefix : ByteStr) : ByteStr :=
  Deser.serilizeString "states" ++ Separator ++ keyPrefix ++ Separator

/-- `SubStorage.makeKey`. -/
def makeKey (keyPrefix key : ByteStr) : ByteStr :=
  Deser.serilizeString "states" ++ Separator ++ keyPrefix ++ Separator ++ key

/-- `SizeBytes`. -/
def SizeBytes : ByteStr := Deser.serilizeString "__size__"

/-- `Prefix`. -/
def Prefix : ByteStr := makePrefix (Deser.serilizeString m.stateName)

/-- `SizeKey`. -/
def SizeKey : ByteStr := makeKey (Deser.serilizeString m.stateName) SizeBytes

/-- `bytesOfKey`. -/
def bytesOfKey (key : K) : ByteStr :=
  makeKey (Deser.serilizeString m.stateName) (m.keyType.write key)

/-- `bytesOfValue`. -/
def bytesOfValue (value : V) : ByteStr := m.valueType.write value

/-- `deserializeKey`. -/
def deserializeKey (keyBytes : ByteStr) : Result K :=
  m.keyType.read (keyBytes.drop m.Prefix.length)

/-- `deserializeValue`. -/
def deserializeValue (valBytes : ByteStr) : Result V := m.valueType.read valBytes

/-- `get`. -/
def get (key : K) : Result (Option V) :=
  match db.lookup (m.bytesOfKey key) with
  | none => .ok none
  | some valueBytes => some <$> m.deserializeValue valueBytes

/-- `containsKey`. -/
def containsKey (key : K) : Result Bool := do
  let value ← m.get db key
  return value.isSome

/-- `sizeAsLong`. -/
def sizeAsLong : Result Int64 :=
  match db.lookup m.SizeKey with
  | none => .ok 0
  | some sizeBytes => Longs.fromByteArray sizeBytes

/-- `size`. -/
def size : Result Int32 := do
  let size ← m.sizeAsLong db
  return if size > Int32.maxValue.toInt64 then Int32.maxValue else size.toInt32

/-- `isEmpty`. -/
def isEmpty : Result Bool := do
  let size ← m.size db
  return size == 0

/-- `setSize`. -/
def setSize (size : Int64) : List Write := [.put m.SizeKey (Longs.toByteArray size)]

/-- What a batch of the caller, or one of its own that is committed at once, leaves. -/
def finish (batchOpt : Option (List Write)) (writes : List Write) :
    Database × Option (List Write) :=
  match batchOpt with
  | none => (commit writes db, none)
  | some batch => (db, some (batch ++ writes))

/-- `put`. -/
def put (key : K) (value : V) (batchOpt : Option (List Write)) :
    Result (V × Database × Option (List Write)) := do
  let contains ← m.containsKey db key
  let sizeWrites ←
    if contains then .ok []
    else do
      let size ← m.sizeAsLong db
      .ok (m.setSize (size + 1))
  return (value, finish db batchOpt
    (sizeWrites ++ [.put (m.bytesOfKey key) (m.bytesOfValue value)]))

/-- `remove`. -/
def remove (key : K) (batchOpt : Option (List Write)) :
    Result (Option V × Database × Option (List Write)) := do
  let rtn ← m.get db key
  if rtn.isSome then do
    let size ← m.sizeAsLong db
    return (rtn, finish db batchOpt (.delete (m.bytesOfKey key) :: m.setSize (size - 1)))
  else return (rtn, db, batchOpt)

/-- `clear`. -/
def clear (batchOpt : Option (List Write)) : Database × Option (List Write) :=
  finish db batchOpt
    ((((db.prefixIterator m.Prefix).map Prod.fst).filter fun key => decide (m.Prefix <+: key)).map
      Write.delete ++ m.setSize 0)

/-- The entries that are no size, read. -/
def readEntries (it : List (ByteStr × ByteStr)) : Result (List (K × V)) :=
  it.mapM fun entry => do
    let key ← m.deserializeKey entry.1
    let value ← m.deserializeValue entry.2
    return (key, value)

/-- `asScala`. -/
def asScala : Result (List (K × V)) :=
  m.readEntries ((db.prefixIterator m.Prefix).filter fun entry =>
    decide (m.Prefix <+: entry.1) && !decide (m.SizeKey <+: entry.1))

/-- `rangeQuery`. -/
def rangeQuery (start stop : K) : Result (List (K × V)) :=
  m.readEntries ((db.rangeIterator (m.bytesOfKey start) (m.bytesOfKey stop)).filter fun entry =>
    !decide (m.SizeKey <+: entry.1))

section Answers

variable {m} {db} {d : Dict K V}

theorem makeKey_injective {name : ByteStr} : Function.Injective (makeKey name) :=
  fun _ _ h => List.append_cancel_left h

theorem prefix_makeKey (key : ByteStr) :
    m.Prefix <+: makeKey (Deser.serilizeString m.stateName) key := List.prefix_append _ _

theorem sizeKey_prefix_iff {key : ByteStr} :
    m.SizeKey <+: makeKey (Deser.serilizeString m.stateName) key ↔ SizeBytes <+: key :=
  List.prefix_append_right_inj _

theorem DataType.write_injective {A : Type} (t : DataType A) : Function.Injective t.write := by
  intro a b h
  have hread := t.read_write a
  rw [h, t.read_write] at hread
  exact (Except.ok.inj hread).symm

variable [DecidableEq K]

/-- The database has the entries of a map, none of which begins as the size does, and their
number. -/
structure Represents (m : StateMap K V) (db : Database) (d : Dict K V) : Prop where
  entry : ∀ k, ¬ SizeBytes <+: m.keyType.write k →
    db.lookup (m.bytesOfKey k) = (d.lookup k).map m.valueType.write
  plain : ∀ k ∈ d.keys, ¬ SizeBytes <+: m.keyType.write k
  only : ∀ key value, m.Prefix <+: key → db.lookup key = some value →
    key = m.SizeKey ∨ ∃ k ∈ d.keys, key = m.bytesOfKey k
  size : db.lookup m.SizeKey = some (Longs.toByteArray (Int64.ofNat d.keys.card)) ∨
    db.lookup m.SizeKey = none ∧ d = ∅
  count : d.keys.card < 2 ^ 31

/-- The map answers as the entries say. -/
structure Answers (m : StateMap K V) (db : Database) (d : Dict K V) : Prop where
  get : ∀ k, m.keyType.write k ≠ SizeBytes → m.get db k = .ok (d.lookup k)
  containsKey : ∀ k, m.keyType.write k ≠ SizeBytes →
    m.containsKey db k = .ok (d.lookup k).isSome
  size : ∃ n, m.size db = .ok n ∧ n.toInt = d.keys.card
  asScala : ∃ l, m.asScala db = .ok l ∧ l.Nodup ∧ ∀ k v, (k, v) ∈ l ↔ d.lookup k = some v
  rangeQuery : ∀ start stop, ∃ l, m.rangeQuery db start stop = .ok l ∧ l.Nodup ∧
    ∀ k v, (k, v) ∈ l ↔ d.lookup k = some v ∧
      KeyLE (m.keyType.write start) (m.keyType.write k) ∧
      ¬ KeyLE (m.keyType.write stop) (m.keyType.write k)

theorem Represents.get_eq (h : m.Represents db d) {k : K} (hk : m.keyType.write k ≠ SizeBytes) :
    m.get db k = .ok (d.lookup k) := by
  have hlookup : db.lookup (m.bytesOfKey k) = (d.lookup k).map m.valueType.write := by
    by_cases hplain : SizeBytes <+: m.keyType.write k
    · have hnone : d.lookup k = none := Dict.notMem_keys.mp fun hmem => h.plain k hmem hplain
      rw [hnone]
      cases hvalue : db.lookup (m.bytesOfKey k) with
      | none => rfl
      | some value =>
          obtain hsize | ⟨k', hk', hkey⟩ := h.only _ value (prefix_makeKey _) hvalue
          · exact absurd (makeKey_injective hsize) hk
          · obtain rfl := m.keyType.write_injective (makeKey_injective hkey)
            exact absurd hplain (h.plain k hk')
    · exact h.entry k hplain
  rw [get, hlookup]
  cases d.lookup k with
  | none => rfl
  | some v =>
      show some <$> m.valueType.read (m.valueType.write v) = _
      rw [m.valueType.read_write]
      rfl

theorem Represents.containsKey_eq (h : m.Represents db d) {k : K}
    (hk : m.keyType.write k ≠ SizeBytes) : m.containsKey db k = .ok (d.lookup k).isSome := by
  rw [containsKey, h.get_eq hk]
  rfl

theorem Represents.sizeAsLong_eq (h : m.Represents db d) :
    m.sizeAsLong db = .ok (Int64.ofNat d.keys.card) := by
  rw [sizeAsLong]
  obtain hsome | ⟨hnone, rfl⟩ := h.size
  · rw [hsome]
    exact Longs.fromByteArray_toByteArray _
  · rw [hnone]
    rfl

theorem Represents.size_eq (h : m.Represents db d) :
    ∃ n, m.size db = .ok n ∧ n.toInt = d.keys.card := by
  have hcount := h.count
  have hlong : (Int64.ofNat d.keys.card).toInt = d.keys.card :=
    Int64.toInt_ofNat_of_lt (by omega)
  refine ⟨(Int64.ofNat d.keys.card).toInt32, ?_, ?_⟩
  · rw [StateMap.size, h.sizeAsLong_eq]
    refine congrArg Except.ok (if_neg ?_)
    rw [gt_iff_lt, Int64.lt_iff_toInt_lt, hlong, show Int32.maxValue.toInt64.toInt = 2147483647
      by decide]
    omega
  · rw [Int64.toInt_toInt32, hlong]
    exact Int.bmod_eq_of_le (by omega) (by omega)

omit [DecidableEq K] in
/-- Entries that were written are read. -/
theorem readEntries_eq {it : List (ByteStr × ByteStr)}
    (hit : ∀ entry ∈ it, ∃ k v, entry = (m.bytesOfKey k, m.valueType.write v)) :
    ∃ l, m.readEntries it = .ok l ∧
      it = l.map fun entry => (m.bytesOfKey entry.1, m.valueType.write entry.2) := by
  induction it with
  | nil => exact ⟨[], rfl, rfl⟩
  | cons entry it ih =>
      obtain ⟨k, v, rfl⟩ := hit entry List.mem_cons_self
      obtain ⟨l, hl, rfl⟩ := ih fun e he => hit e (List.mem_cons_of_mem _ he)
      refine ⟨(k, v) :: l, mapM_eq_ok_iff.mpr (.cons ?_ (mapM_eq_ok_iff.mp hl)), rfl⟩
      have hkey : m.deserializeKey (m.bytesOfKey k) = .ok k := by
        rw [deserializeKey, bytesOfKey, show makeKey (Deser.serilizeString m.stateName)
          (m.keyType.write k) = m.Prefix ++ m.keyType.write k from rfl, List.drop_left]
        exact m.keyType.read_write k
      have hvalue : m.deserializeValue (m.valueType.write v) = .ok v := m.valueType.read_write v
      rw [hkey, ok_bind, hvalue]
      rfl

/-- The entries under the prefix that `P` wants, but for the size, are read as those of the map. -/
theorem Represents.readEntries_filter (h : m.Represents db d) (P : ByteStr → Bool) :
    ∃ l, m.readEntries (db.entries.filter fun entry =>
        P entry.1 && decide (m.Prefix <+: entry.1) && !decide (m.SizeKey <+: entry.1)) = .ok l ∧
      l.Nodup ∧ ∀ k v, (k, v) ∈ l ↔ d.lookup k = some v ∧ P (m.bytesOfKey k) := by
  -- What the iterator finds under the prefix of the map is its size or one of its entries.
  have hit : ∀ entry ∈ db.entries.filter (fun entry =>
      P entry.1 && decide (m.Prefix <+: entry.1) && !decide (m.SizeKey <+: entry.1)),
      ∃ k v, entry = (m.bytesOfKey k, m.valueType.write v) := by
    rintro ⟨key, value⟩ hentry
    obtain ⟨hmem, hkeep⟩ := List.mem_filter.mp hentry
    have hvalue := Database.mem_entries.mp hmem
    rw [Bool.and_eq_true, Bool.and_eq_true, decide_eq_true_eq, Bool.not_eq_true',
      decide_eq_false_iff_not] at hkeep
    obtain ⟨⟨-, hprefix⟩, hsize⟩ := hkeep
    obtain rfl | ⟨k, hk, rfl⟩ := h.only key value hprefix hvalue
    · exact absurd (List.prefix_refl _) hsize
    · rw [h.entry k (h.plain k hk)] at hvalue
      obtain ⟨v, -, rfl⟩ := Option.map_eq_some_iff.mp hvalue
      exact ⟨k, v, rfl⟩
  obtain ⟨l, hl, hmap⟩ := readEntries_eq hit
  refine ⟨l, hl, ?_, fun k v => ?_⟩
  · have hnodup : db.entries.Nodup := Database.entries_nodup
    have hfiltered := hnodup.filter fun entry =>
      P entry.1 && decide (m.Prefix <+: entry.1) && !decide (m.SizeKey <+: entry.1)
    rw [hmap] at hfiltered
    exact hfiltered.of_map _
  · have hinjective : Function.Injective fun entry : K × V =>
        (m.bytesOfKey entry.1, m.valueType.write entry.2) := by
      rintro ⟨k, v⟩ ⟨k', v'⟩ heq
      obtain ⟨hkey, hvalue⟩ := Prod.mk.inj heq
      exact Prod.ext (m.keyType.write_injective (makeKey_injective hkey))
        (m.valueType.write_injective hvalue)
    rw [← List.mem_map_of_injective hinjective, ← hmap, List.mem_filter, Database.mem_entries,
      Bool.and_eq_true, Bool.and_eq_true, decide_eq_true_eq, Bool.not_eq_true',
      decide_eq_false_iff_not]
    have hsize : m.SizeKey <+: m.bytesOfKey k ↔ SizeBytes <+: m.keyType.write k :=
      sizeKey_prefix_iff
    constructor
    · rintro ⟨hlookup, ⟨hP, -⟩, hplain⟩
      rw [h.entry k (hsize.not.mp hplain)] at hlookup
      obtain ⟨v', hv', heq⟩ := Option.map_eq_some_iff.mp hlookup
      obtain rfl := m.valueType.write_injective heq
      exact ⟨hv', hP⟩
    · rintro ⟨hlookup, hP⟩
      have hplain := h.plain k (Dict.mem_keys_of_lookup hlookup)
      refine ⟨?_, ⟨hP, prefix_makeKey _⟩, hsize.not.mpr hplain⟩
      rw [h.entry k hplain, hlookup]
      rfl

/-- A database that represents a map answers for it. -/
theorem Represents.answers (h : m.Represents db d) : m.Answers db d where
  get := fun _ => h.get_eq
  containsKey := fun _ => h.containsKey_eq
  size := h.size_eq
  asScala := by
    obtain ⟨l, hl, hnodup, hmem⟩ := h.readEntries_filter fun _ => true
    refine ⟨l, ?_, hnodup, fun k v => (hmem k v).trans (and_iff_left rfl)⟩
    rw [asScala, Database.prefixIterator_eq, List.filter_filter, ← hl]
    refine congrArg m.readEntries (List.filter_congr fun entry _ => ?_)
    rw [Bool.true_and, Bool.and_right_comm, Bool.and_self]
  rangeQuery := by
    intro start stop
    obtain ⟨l, hl, hnodup, hmem⟩ :=
      h.readEntries_filter (Database.rangeContains (m.bytesOfKey start) (m.bytesOfKey stop))
    refine ⟨l, ?_, hnodup, fun k v => ?_⟩
    · rw [rangeQuery, Database.rangeIterator_eq, List.filter_filter, ← hl]
      refine congrArg m.readEntries (List.filter_congr fun entry _ => ?_)
      -- what is between two keys of the map is under its prefix
      have hstarts : Database.rangeContains (m.bytesOfKey start) (m.bytesOfKey stop) entry.1 →
          m.Prefix <+: entry.1 := by
        intro hrange
        obtain ⟨hlow, hhigh⟩ := Bool.and_eq_true_iff.mp hrange
        rw [Bool.not_eq_true', decide_eq_false_iff_not] at hhigh
        exact prefix_of_lexLE unsignedByte_injective
          ((lexLE_of_start (prefix_makeKey _)).trans (of_decide_eq_true hlow))
          ((lexLE_total _ _).resolve_left hhigh) (prefix_makeKey (m.keyType.write stop))
      cases hrange : Database.rangeContains (m.bytesOfKey start) (m.bytesOfKey stop) entry.1 with
      | false => rw [Bool.and_false, Bool.false_and, Bool.false_and]
      | true => rw [Bool.and_true, Bool.true_and, decide_eq_true (hstarts hrange), Bool.true_and]
    · rw [hmem k v, Database.rangeContains, Bool.and_eq_true, decide_eq_true_eq, Bool.not_eq_true',
        decide_eq_false_iff_not]
      exact and_congr_right fun _ => and_congr lexLE_append_left lexLE_append_left.not

end Answers

end StateMap

end Vsys
