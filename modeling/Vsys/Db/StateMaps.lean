import Vsys.Db.StateMap

/-!
# Maps that share a database

Sequences of operations on several `StateMap`s, done one by one or collected in batches.  Each map is
what its own operations make of it as long as no operation of a batch needs what an earlier one of
the same batch has changed.
-/

namespace Vsys

open Lib

/-- The key a write is about. -/
def Write.key : Write → ByteStr
  | .put key _ => key
  | .delete key => key

section Commit

variable {batch batch' : List Write} {db : Database} {key : ByteStr}

theorem commit_append : commit (batch ++ batch') db = commit batch' (commit batch db) :=
  List.foldl_append

/-- A batch changes nothing under other keys. -/
theorem lookup_commit_of_forall (h : ∀ w ∈ batch, w.key ≠ key) :
    (commit batch db).lookup key = db.lookup key := by
  induction batch generalizing db with
  | nil => rfl
  | cons w batch ih =>
      have hw := h w List.mem_cons_self
      have hrest := @ih (w.perform db) fun w' hw' => h w' (List.mem_cons_of_mem w hw')
      refine hrest.trans ?_
      cases w with
      | put key' value => exact Finmap.lookup_insert_of_ne _ hw.symm
      | delete key' => exact Finmap.lookup_erase_ne hw.symm

/-- A batch of deletions. -/
theorem lookup_commit_delete (keys : List ByteStr) :
    (commit (keys.map Write.delete) db).lookup key
      = if key ∈ keys then none else db.lookup key := by
  induction keys generalizing db with
  | nil => rfl
  | cons key' keys ih =>
      refine (@ih (db.erase key')).trans ?_
      rw [Dict.lookup_erase_eq]
      by_cases hkey : key = key'
      · subst hkey
        rw [if_pos List.mem_cons_self, if_pos rfl, ite_self]
      · rw [if_neg hkey]
        simp only [List.mem_cons, hkey, false_or]

end Commit

/-- The operations that change a map. -/
inductive MapOp (K V : Type) where
  | put (key : K) (value : V)
  | remove (key : K)
  | clear

/-- What an operation makes of a map. -/
def MapOp.apply {K V : Type} [DecidableEq K] (d : Dict K V) : MapOp K V → Dict K V
  | .put key value => d.insert key value
  | .remove key => d.erase key
  | .clear => ∅

namespace StateMap

variable {K V : Type} (m : StateMap K V)

/-- One operation. -/
def perform (db : Database) (batchOpt : Option (List Write)) :
    MapOp K V → Result (Database × Option (List Write))
  | .put key value => Prod.snd <$> m.put db key value batchOpt
  | .remove key => Prod.snd <$> m.remove db key batchOpt
  | .clear => .ok (m.clear db batchOpt)

variable [DecidableEq K]

/-- No key that is put begins as the size does, none that is removed is the size, and the entries
can be counted by an `Int`. -/
def Plain (d : Dict K V) : MapOp K V → Prop
  | .put key value =>
      ¬ SizeBytes <+: m.keyType.write key ∧ (d.insert key value).keys.card < 2 ^ 31
  | .remove key => m.keyType.write key ≠ SizeBytes
  | .clear => True

/-- Whether an operation is plain can be computed. -/
instance decidablePlain (d : Dict K V) : (op : MapOp K V) → Decidable (m.Plain d op)
  | .put key value =>
      inferInstanceAs (Decidable (¬ SizeBytes <+: m.keyType.write key ∧
        (d.insert key value).keys.card < 2 ^ 31))
  | .remove key => inferInstanceAs (Decidable (m.keyType.write key ≠ SizeBytes))
  | .clear => inferInstanceAs (Decidable True)

end StateMap

/-- An operation of a batch does not need what the operations before it have changed: the database
has the entries of `committed`, and `d` is what the batch so far has made of them. -/
def MapOp.Settled {K V : Type} [DecidableEq K] (committed d : Dict K V) : MapOp K V → Prop
  | .put key value =>
      if key ∈ committed.keys then key ∈ d.keys
      else (d.insert key value).keys.card = committed.keys.card + 1
  | .remove key =>
      if key ∈ committed.keys then committed.keys.card = (d.erase key).keys.card + 1
      else key ∉ d.keys
  | .clear => d.keys ⊆ committed.keys

/-- So can whether it is settled. -/
instance decidableSettled {K V : Type} [DecidableEq K] (committed d : Dict K V) :
    (op : MapOp K V) → Decidable (op.Settled committed d)
  | .put key value =>
      inferInstanceAs (Decidable (if key ∈ committed.keys then key ∈ d.keys
        else (d.insert key value).keys.card = committed.keys.card + 1))
  | .remove key =>
      inferInstanceAs (Decidable (if key ∈ committed.keys then
        committed.keys.card = (d.erase key).keys.card + 1 else key ∉ d.keys))
  | .clear => inferInstanceAs (Decidable (d.keys ⊆ committed.keys))

section Sizes

variable {K V : Type} [DecidableEq K] {d : Dict K V} {k : K} {v : V}

theorem keys_insert : (d.insert k v).keys = insert k d.keys := by
  ext k'
  rw [Dict.mem_keys_iff_isSome, Dict.lookup_insert_eq, Finset.mem_insert, Dict.mem_keys_iff_isSome]
  split
  · simp_all
  · simp_all

theorem keys_erase : (d.erase k).keys = d.keys.erase k := by
  ext k'
  rw [Dict.mem_keys_iff_isSome, Dict.lookup_erase_eq, Finset.mem_erase, Dict.mem_keys_iff_isSome]
  split
  · simp_all
  · simp_all

/-- An operation that is committed at once is settled. -/
theorem MapOp.settled_self (op : MapOp K V) : op.Settled d d := by
  cases op with
  | put k v =>
      rw [MapOp.Settled]
      split
      · assumption
      · rename_i hk
        rw [keys_insert, Finset.card_insert_of_notMem hk]
  | remove k =>
      rw [MapOp.Settled]
      split
      · rename_i hk
        rw [keys_erase, Finset.card_erase_add_one hk]
      · assumption
  | clear => exact Finset.Subset.refl _

end Sizes

namespace StateMap

section Writes

variable {K V : Type} [DecidableEq K] {m : StateMap K V} {db db' : Database} {d committed : Dict K V}

/-- A map depends on what lies under its prefix. -/
theorem Represents.frame (h : m.Represents db d)
    (hsame : ∀ key, m.Prefix <+: key → db'.lookup key = db.lookup key) : m.Represents db' d where
  entry := fun k hk => (hsame _ (prefix_makeKey _)).trans (h.entry k hk)
  plain := h.plain
  only := fun key value hkey hvalue => h.only key value hkey ((hsame key hkey).symm.trans hvalue)
  size := by
    have hsize := hsame m.SizeKey (prefix_makeKey _)
    rw [hsize]
    exact h.size
  count := h.count

/-- Another database has nothing under the prefix. -/
theorem represents_empty : m.Represents ∅ ∅ where
  entry := fun k _ => rfl
  plain := fun k hk => absurd hk (Finset.notMem_empty k)
  only := fun key value _ hvalue => by cases hvalue
  size := .inr ⟨rfl, rfl⟩
  count := by
    show (0 : Nat) < 2 ^ 31
    omega

/-- A put into a batch: the entry, and the number where the key is new to the database. -/
theorem Represents.put (h : m.Represents db d) {k : K} {v : V}
    (hplain : ¬ SizeBytes <+: m.keyType.write k) (hcount : (d.insert k v).keys.card < 2 ^ 31)
    (hsettled : MapOp.Settled committed d (.put k v)) :
    m.Represents (commit ((if k ∈ committed.keys then []
        else m.setSize (Int64.ofNat (committed.keys.card + 1)))
      ++ [.put (m.bytesOfKey k) (m.bytesOfValue v)]) db) (d.insert k v) := by
  have hsizeKey : m.SizeKey ≠ m.bytesOfKey k := by
    intro heq
    exact hplain ((makeKey_injective heq) ▸ List.prefix_refl _)
  -- what is under the prefix after the writes
  have hlookup (key : ByteStr) :
      (commit ((if k ∈ committed.keys then []
          else m.setSize (Int64.ofNat (committed.keys.card + 1)))
        ++ [.put (m.bytesOfKey k) (m.bytesOfValue v)]) db).lookup key
        = if key = m.bytesOfKey k then some (m.valueType.write v)
          else if key = m.SizeKey ∧ k ∉ committed.keys then
            some (Longs.toByteArray (Int64.ofNat (d.insert k v).keys.card))
          else db.lookup key := by
    rw [commit_append]
    show (Finmap.insert _ _ _).lookup key = _
    rw [Dict.lookup_insert_eq]
    refine if_congr Iff.rfl rfl ?_
    rw [MapOp.Settled] at hsettled
    by_cases hk : k ∈ committed.keys
    · rw [if_pos hk, if_neg (fun hand => hand.2 hk)]
      rfl
    · rw [if_neg hk] at hsettled ⊢
      rw [hsettled]
      show (Finmap.insert _ _ _).lookup key = _
      rw [Dict.lookup_insert_eq]
      exact if_congr (and_iff_left hk).symm rfl rfl
  constructor
  case entry =>
    intro k' hk'
    rw [hlookup, Dict.lookup_insert_eq]
    by_cases heq : k' = k
    · subst heq
      rw [if_pos rfl, if_pos rfl]
      rfl
    · have hkey : m.bytesOfKey k' ≠ m.bytesOfKey k :=
        fun hkeys => heq (m.keyType.write_injective (makeKey_injective hkeys))
      have hsize : m.bytesOfKey k' ≠ m.SizeKey := by
        intro hkeys
        exact hk' ((makeKey_injective hkeys) ▸ List.prefix_refl _)
      rw [if_neg hkey, if_neg (fun hand => hsize hand.1), if_neg heq]
      exact h.entry k' hk'
  case plain =>
    intro k' hk'
    rw [keys_insert, Finset.mem_insert] at hk'
    obtain rfl | hk' := hk'
    · exact hplain
    · exact h.plain k' hk'
  case only =>
    intro key value hkey hvalue
    rw [hlookup] at hvalue
    split at hvalue
    · rename_i heq
      exact .inr ⟨k, by rw [keys_insert]; exact Finset.mem_insert_self _ _, heq⟩
    · split at hvalue
      · rename_i hand
        exact .inl hand.1
      · obtain hsize | ⟨k', hk', heq⟩ := h.only key value hkey hvalue
        · exact .inl hsize
        · exact .inr ⟨k', by rw [keys_insert]; exact Finset.mem_insert_of_mem hk', heq⟩
  case size =>
    rw [hlookup, if_neg hsizeKey]
    refine .inl ?_
    split
    · rfl
    · rename_i hand
      have hk : k ∈ committed.keys := by
        by_contra hk
        exact hand ⟨rfl, hk⟩
      rw [MapOp.Settled, if_pos hk] at hsettled
      rw [keys_insert, Finset.insert_eq_of_mem hsettled]
      obtain hsome | ⟨-, rfl⟩ := h.size
      · exact hsome
      · exact absurd hsettled (Finset.notMem_empty k)
  case count => exact hcount

/-- A removal in a batch, where the database has the key. -/
theorem Represents.remove (h : m.Represents db d) {k : K}
    (hne : m.keyType.write k ≠ SizeBytes) (hk : k ∈ committed.keys)
    (hsettled : MapOp.Settled committed d (.remove k)) :
    m.Represents (commit (.delete (m.bytesOfKey k) ::
      m.setSize (Int64.ofNat committed.keys.card - 1)) db) (d.erase k) := by
  rw [MapOp.Settled, if_pos hk] at hsettled
  have hnumber : Int64.ofNat committed.keys.card - 1 = Int64.ofNat (d.erase k).keys.card := by
    rw [hsettled, Int64.ofNat_add]
    show _ + 1 - 1 = _
    rw [Int64.add_sub_cancel]
  have hlookup (key : ByteStr) :
      (commit (.delete (m.bytesOfKey k) :: m.setSize (Int64.ofNat committed.keys.card - 1))
        db).lookup key
        = if key = m.SizeKey then
            some (Longs.toByteArray (Int64.ofNat (d.erase k).keys.card))
          else if key = m.bytesOfKey k then none else db.lookup key := by
    rw [hnumber]
    show (Finmap.insert _ _ (Finmap.erase _ _)).lookup key = _
    rw [Dict.lookup_insert_eq, Dict.lookup_erase_eq]
  -- The new size is written under a key that no entry has, so it and the entries do not meet.
  constructor
  case entry =>
    intro k' hk'
    have hsize : m.bytesOfKey k' ≠ m.SizeKey := by
      intro hkeys
      exact hk' ((makeKey_injective hkeys) ▸ List.prefix_refl _)
    rw [hlookup, if_neg hsize, Dict.lookup_erase_eq]
    by_cases heq : k' = k
    · subst heq
      rw [if_pos rfl, if_pos rfl]
      rfl
    · have hkey : m.bytesOfKey k' ≠ m.bytesOfKey k :=
        fun hkeys => heq (m.keyType.write_injective (makeKey_injective hkeys))
      rw [if_neg hkey, if_neg heq]
      exact h.entry k' hk'
  case plain =>
    intro k' hk'
    rw [keys_erase] at hk'
    exact h.plain k' (Finset.mem_of_mem_erase hk')
  case only =>
    intro key value hkey hvalue
    rw [hlookup] at hvalue
    split at hvalue
    · rename_i heq
      exact .inl heq
    · split at hvalue
      · cases hvalue
      · rename_i hother
        obtain hsize | ⟨k', hk', rfl⟩ := h.only key value hkey hvalue
        · exact .inl hsize
        · refine .inr ⟨k', ?_, rfl⟩
          rw [keys_erase, Finset.mem_erase]
          exact ⟨fun heq => hother (by rw [heq]), hk'⟩
  case size =>
    rw [hlookup, if_pos rfl]
    exact .inl rfl
  case count =>
    have := h.count
    have hle : (d.erase k).keys.card ≤ d.keys.card := by
      rw [keys_erase]
      exact Finset.card_le_card (Finset.erase_subset _ _)
    omega

/-- A clear in a batch deletes the keys that the database has. -/
theorem Represents.clear (h : m.Represents db d) {base : Database}
    (hbase : m.Represents base committed) (hsettled : d.keys ⊆ committed.keys) :
    m.Represents (commit ((((base.prefixIterator m.Prefix).map Prod.fst).filter fun key =>
      decide (m.Prefix <+: key)).map Write.delete ++ m.setSize 0) db) ∅ := by
  have hdeleted (key : ByteStr) :
      key ∈ ((base.prefixIterator m.Prefix).map Prod.fst).filter
        (fun key => decide (m.Prefix <+: key)) ↔ m.Prefix <+: key ∧ (base.lookup key).isSome := by
    rw [List.mem_filter, Database.prefixIterator_eq, List.mem_map, decide_eq_true_eq, and_comm]
    refine and_congr_right fun hkey => ?_
    constructor
    · rintro ⟨entry, hentry, rfl⟩
      rw [Database.mem_entries.mp (List.mem_filter.mp hentry).1]
      rfl
    · intro hsome
      obtain ⟨value, hvalue⟩ := Option.isSome_iff_exists.mp hsome
      exact ⟨(key, value), List.mem_filter.mpr
        ⟨Database.mem_entries.mpr hvalue, decide_eq_true hkey⟩, rfl⟩
  have hlookup (key : ByteStr) (hkey : m.Prefix <+: key) :
      (commit ((((base.prefixIterator m.Prefix).map Prod.fst).filter fun key =>
        decide (m.Prefix <+: key)).map Write.delete ++ m.setSize 0) db).lookup key
        = if key = m.SizeKey then some (Longs.toByteArray 0)
          else if (base.lookup key).isSome then none else db.lookup key := by
    rw [commit_append]
    show (Finmap.insert _ _ _).lookup key = _
    rw [Dict.lookup_insert_eq, lookup_commit_delete]
    refine if_congr Iff.rfl rfl (if_congr ?_ rfl rfl)
    rw [hdeleted]
    exact and_iff_right hkey
  -- the keys that are not the size are gone
  have hgone (key : ByteStr) (hkey : m.Prefix <+: key) (hne : key ≠ m.SizeKey) :
      (commit ((((base.prefixIterator m.Prefix).map Prod.fst).filter fun key =>
        decide (m.Prefix <+: key)).map Write.delete ++ m.setSize 0) db).lookup key = none := by
    rw [hlookup key hkey, if_neg hne]
    split
    · rfl
    · rename_i hnone
      cases hvalue : db.lookup key with
      | none => rfl
      | some value =>
          obtain hsize | ⟨k, hk, rfl⟩ := h.only key value hkey hvalue
          · exact absurd hsize hne
          · refine absurd ?_ hnone
            have hmem := hsettled hk
            rw [hbase.entry k (hbase.plain k hmem), Option.isSome_map]
            exact Dict.mem_keys_iff_isSome.mp hmem
  constructor
  case entry =>
    intro k hk
    refine hgone _ (prefix_makeKey _) fun hkeys => ?_
    exact hk ((makeKey_injective hkeys) ▸ List.prefix_refl _)
  case plain => exact fun k hk => absurd hk (Finset.notMem_empty k)
  case only =>
    intro key value hkey hvalue
    by_contra hnot
    rw [hgone key hkey fun heq => hnot (.inl heq)] at hvalue
    cases hvalue
  case size =>
    have hsize := hlookup m.SizeKey (prefix_makeKey _)
    rw [if_pos rfl] at hsize
    exact .inl hsize
  case count =>
    show (0 : Nat) < 2 ^ 31
    omega

/-- What an operation writes, on a database with the entries of `committed`. -/
def writes (m : StateMap K V) (base : Database) (committed : Dict K V) : MapOp K V → List Write
  | .put k v =>
      (if k ∈ committed.keys then [] else m.setSize (Int64.ofNat (committed.keys.card + 1)))
        ++ [.put (m.bytesOfKey k) (m.bytesOfValue v)]
  | .remove k =>
      if k ∈ committed.keys then
        .delete (m.bytesOfKey k) :: m.setSize (Int64.ofNat committed.keys.card - 1)
      else []
  | .clear =>
      (((base.prefixIterator m.Prefix).map Prod.fst).filter fun key =>
        decide (m.Prefix <+: key)).map Write.delete ++ m.setSize 0

theorem finish_nil (batchOpt : Option (List Write)) : finish db batchOpt [] = (db, batchOpt) := by
  cases batchOpt with
  | none => rfl
  | some batch =>
      show (db, some (batch ++ [])) = _
      rw [List.append_nil]

/-- An operation reads the database alone, and writes into its batch. -/
theorem Represents.perform_eq (h : m.Represents db committed) {op : MapOp K V}
    (hplain : m.Plain d op) (batchOpt : Option (List Write)) :
    m.perform db batchOpt op = .ok (finish db batchOpt (m.writes db committed op)) := by
  cases op with
  | put k v =>
      have hne : m.keyType.write k ≠ SizeBytes := by
        intro heq
        exact hplain.1 (heq ▸ List.prefix_refl _)
      show Prod.snd <$> (m.put db k v batchOpt) = _
      rw [StateMap.put, h.containsKey_eq hne, ok_bind, writes]
      by_cases hk : k ∈ committed.keys
      · rw [if_pos hk, if_pos (Dict.mem_keys_iff_isSome.mp hk)]
        rfl
      · rw [if_neg hk, if_neg (Dict.mem_keys_iff_isSome.not.mp hk), h.sizeAsLong_eq,
          Int64.ofNat_add]
        rfl
  | remove k =>
      show Prod.snd <$> (m.remove db k batchOpt) = _
      rw [StateMap.remove, h.get_eq hplain, ok_bind, writes]
      by_cases hk : k ∈ committed.keys
      · rw [if_pos hk, if_pos (Dict.mem_keys_iff_isSome.mp hk), h.sizeAsLong_eq]
        rfl
      · rw [if_neg hk, if_neg (Dict.mem_keys_iff_isSome.not.mp hk), finish_nil]
        rfl
  | clear => rfl

/-- What an operation that is settled writes makes of any database what it makes of the map. -/
theorem Represents.commit_writes (hbase : m.Represents db committed) (h : m.Represents db' d)
    {op : MapOp K V} (hplain : m.Plain d op) (hsettled : op.Settled committed d) :
    m.Represents (commit (m.writes db committed op) db') (op.apply d) := by
  cases op with
  | put k v => exact h.put hplain.1 hplain.2 hsettled
  | remove k =>
      rw [writes]
      split
      · rename_i hk
        exact h.remove hplain hk hsettled
      · rename_i hk
        rw [MapOp.Settled, if_neg hk] at hsettled
        have hsame : d.erase k = d := by
          refine Finmap.ext_lookup fun k' => ?_
          rw [Dict.lookup_erase_eq]
          split
          · rename_i heq
            rw [heq, Dict.notMem_keys.mp hsettled]
          · rfl
        show m.Represents db' (d.erase k)
        rw [hsame]
        exact h
  | clear => exact h.clear hbase hsettled

/-- An operation writes under the prefix of its map. -/
theorem prefix_of_mem_writes {op : MapOp K V} {w : Write}
    (hw : w ∈ m.writes db committed op) : m.Prefix <+: w.key := by
  have hsize (n : Int64) (hw : w ∈ m.setSize n) : m.Prefix <+: w.key := by
    rw [List.mem_singleton.mp hw]
    exact prefix_makeKey _
  cases op with
  | put k v =>
      rw [writes, List.mem_append, List.mem_singleton] at hw
      obtain hw | rfl := hw
      · split at hw
        · cases hw
        · exact hsize _ hw
      · exact prefix_makeKey _
  | remove k =>
      rw [writes] at hw
      split at hw
      · obtain rfl | hw := List.mem_cons.mp hw
        · exact prefix_makeKey _
        · exact hsize _ hw
      · cases hw
  | clear =>
      rw [writes, List.mem_append, List.mem_map] at hw
      obtain ⟨key, hkey, rfl⟩ | hw := hw
      · exact of_decide_eq_true (List.mem_filter.mp hkey).2
      · exact hsize _ hw

end Writes

end StateMap

/-- What is done to the maps at once: an operation on its own, or a batch. -/
inductive MapUpdate (ι : Type) (K V : ι → Type) where
  | direct (i : ι) (op : MapOp (K i) (V i))
  | batch (ops : List ((i : ι) × MapOp (K i) (V i)))

section Maps

variable {ι : Type} [DecidableEq ι] {K V : ι → Type} [∀ i, DecidableEq (K i)]

/-- The maps with one of them changed by an operation. -/
def changed (d : (i : ι) → Dict (K i) (V i)) (op : (i : ι) × MapOp (K i) (V i)) :
    (i : ι) → Dict (K i) (V i) :=
  Function.update d op.1 (op.2.apply (d op.1))

variable (maps : (i : ι) → StateMap (K i) (V i))

/-- The operations of a batch are plain and settled, one after the other. -/
def SettledBatch (committed : (i : ι) → Dict (K i) (V i)) :
    ((i : ι) → Dict (K i) (V i)) → List ((i : ι) × MapOp (K i) (V i)) → Prop
  | _, [] => True
  | d, op :: ops =>
      ((maps op.1).Plain (d op.1) op.2 ∧ op.2.Settled (committed op.1) (d op.1)) ∧
        SettledBatch committed (changed d op) ops

namespace MapUpdate

/-- The database after an update. -/
def perform (db : Database) : MapUpdate ι K V → Result Database
  | .direct i op => Prod.fst <$> (maps i).perform db none op
  | .batch ops => do
      let batch ← ops.foldlM (fun batch op => Prod.snd <$> (maps op.1).perform db batch op.2) (some [])
      return commit (batch.getD []) db

/-- The maps after an update. -/
def apply (d : (i : ι) → Dict (K i) (V i)) : MapUpdate ι K V → (i : ι) → Dict (K i) (V i)
  | .direct i op => changed d ⟨i, op⟩
  | .batch ops => ops.foldl changed d

/-- The operations are plain, and those of a batch are settled. -/
def Orderly (d : (i : ι) → Dict (K i) (V i)) : MapUpdate ι K V → Prop
  | .direct i op => (maps i).Plain (d i) op
  | .batch ops => SettledBatch maps d d ops

/-- All updates of a run are orderly. -/
def AllOrderly : ((i : ι) → Dict (K i) (V i)) → List (MapUpdate ι K V) → Prop
  | _, [] => True
  | d, u :: l => u.Orderly maps d ∧ AllOrderly (u.apply d) l

end MapUpdate

/-- No name with the separator behind it is the beginning of another one. -/
def Apart : Prop := ∀ i j, i ≠ j → ¬ (maps i).Prefix <+: (maps j).Prefix

/-- The database has the entries of all maps. -/
def RepresentsAll (db : Database) (d : (i : ι) → Dict (K i) (V i)) : Prop :=
  ∀ i, (maps i).Represents db (d i)

variable {maps} {db db' : Database} {d committed : (i : ι) → Dict (K i) (V i)}

/-- What one map writes is nothing to the others. -/
theorem RepresentsAll.commit_writes (hapart : Apart maps) (hbase : RepresentsAll maps db committed)
    (h : RepresentsAll maps db' d) {op : (i : ι) × MapOp (K i) (V i)}
    (hplain : (maps op.1).Plain (d op.1) op.2) (hsettled : op.2.Settled (committed op.1) (d op.1)) :
    RepresentsAll maps (commit ((maps op.1).writes db (committed op.1) op.2) db')
      (changed d op) := by
  intro j
  rw [changed]
  by_cases hj : j = op.1
  · subst hj
    rw [Function.update_self]
    exact (hbase op.1).commit_writes (h op.1) hplain hsettled
  · rw [Function.update_of_ne hj]
    refine (h j).frame fun key hkey => lookup_commit_of_forall fun w hw heq => ?_
    have hprefix := StateMap.prefix_of_mem_writes hw
    rw [heq] at hprefix
    -- one of the two prefixes of the key is a prefix of the other
    obtain hle | hle := List.prefix_or_prefix_of_prefix hkey hprefix
    · exact hapart j op.1 hj hle
    · exact hapart op.1 j (Ne.symm hj) hle

/-- A batch that is settled makes of the maps what its operations do. -/
theorem RepresentsAll.batch (hapart : Apart maps) (hbase : RepresentsAll maps db committed)
    {ops : List ((i : ι) × MapOp (K i) (V i))} {batch : List Write}
    (h : RepresentsAll maps (commit batch db) d) (hops : SettledBatch maps committed d ops) :
    ∃ batch', ops.foldlM (fun batch op => Prod.snd <$> (maps op.1).perform db batch op.2)
        (some batch) = .ok (some batch') ∧
      RepresentsAll maps (commit batch' db) (ops.foldl changed d) := by
  induction ops generalizing batch d with
  | nil => exact ⟨batch, rfl, h⟩
  | cons op ops ih =>
      obtain ⟨⟨hplain, hsettled⟩, hops⟩ := hops
      have hnext := hbase.commit_writes hapart h hplain hsettled
      rw [← commit_append] at hnext
      obtain ⟨batch', hbatch, hall⟩ := ih hnext hops
      refine ⟨batch', foldlM_cons_eq_ok_iff.mpr ⟨_, ?_, hbatch⟩, hall⟩
      rw [(hbase op.1).perform_eq hplain]
      rfl

/-- An orderly update makes of the maps what its operations do. -/
theorem RepresentsAll.perform (hapart : Apart maps) (h : RepresentsAll maps db d)
    {u : MapUpdate ι K V} (hu : u.Orderly maps d) :
    ∃ db', u.perform maps db = .ok db' ∧ RepresentsAll maps db' (u.apply d) := by
  cases u with
  | direct i op =>
      refine ⟨_, ?_, h.commit_writes hapart h hu op.settled_self⟩
      show Prod.fst <$> (maps i).perform db none op = _
      rw [(h i).perform_eq hu]
      rfl
  | batch ops =>
      have hstart : RepresentsAll maps (commit [] db) d := h
      obtain ⟨batch, hbatch, hall⟩ := h.batch hapart hstart hu
      exact ⟨_, bind_eq_ok_iff.mpr ⟨_, hbatch, rfl⟩, hall⟩

/-- A run of orderly updates. -/
theorem RepresentsAll.run (hapart : Apart maps) (h : RepresentsAll maps db d)
    {l : List (MapUpdate ι K V)} (hl : MapUpdate.AllOrderly maps d l) :
    ∃ db', l.foldlM (fun db u => u.perform maps db) db = .ok db' ∧
      RepresentsAll maps db' (l.foldl MapUpdate.apply d) := by
  induction l generalizing db d with
  | nil => exact ⟨db, rfl, h⟩
  | cons u l ih =>
      obtain ⟨hu, hl⟩ := hl
      obtain ⟨db', hperform, hnext⟩ := h.perform hapart hu
      obtain ⟨db'', hrun, hall⟩ := ih hnext hl
      exact ⟨db'', foldlM_cons_eq_ok_iff.mpr ⟨db', hperform, hrun⟩, hall⟩

/-- In a database that is shared by maps whose names are apart, every map answers as its own
operations say after any run of orderly updates. -/
theorem answers_of_allOrderly (maps : (i : ι) → StateMap (K i) (V i)) (hapart : Apart maps)
    (l : List (MapUpdate ι K V)) (hl : MapUpdate.AllOrderly maps (fun _ => ∅) l) :
    ∃ db, l.foldlM (fun db u => u.perform maps db) ∅ = .ok db ∧
      ∀ i, (maps i).Answers db (l.foldl MapUpdate.apply (fun _ => ∅) i) := by
  have hempty : RepresentsAll maps ∅ fun _ => ∅ := fun _ => StateMap.represents_empty
  obtain ⟨db, hrun, hall⟩ := hempty.run hapart hl
  exact ⟨db, hrun, fun i => (hall i).answers⟩

end Maps

namespace Sample

/-- Bytes as keys and values. -/
def byteType : StateMap.DataType Byte where
  write b := [b]
  read bytes := getOrRaise .indexOutOfBounds bytes.head?
  read_write := fun _ => rfl

/-- Two maps. -/
def twoMaps (second : Bool) : StateMap Byte Byte :=
  ⟨if second then "leaseState" else "assets", byteType, byteType⟩

/-- An entry is put, and then, in a batch, removed, and one put into the other map. -/
def moving : List (MapUpdate Bool (fun _ => Byte) fun _ => Byte) :=
  [.direct true (.put 1 2), .batch [⟨true, .remove 1⟩, ⟨false, .put 1 2⟩]]

/-- Two new keys are put in one batch. -/
def putTwo : List (MapUpdate Bool (fun _ => Byte) fun _ => Byte) :=
  [.batch [⟨true, .put 1 2⟩, ⟨true, .put 3 4⟩]]

theorem twoMaps_apart : Apart twoMaps := by
  show ∀ i j : Bool, _
  decide +kernel

theorem moving_orderly : MapUpdate.AllOrderly twoMaps (fun _ => ∅) moving := by
  refine ⟨?_, ⟨⟨?_, ?_⟩, ⟨?_, ?_⟩, trivial⟩, trivial⟩
  · show (twoMaps true).Plain ∅ (.put 1 2)
    decide +kernel
  · decide +kernel
  · decide +kernel
  · decide +kernel
  · decide +kernel

/-- Both maps answer as they should. -/
theorem moving_answered : ∃ db, moving.foldlM (fun db u => u.perform twoMaps db) ∅ = .ok db ∧
    ∀ i, (twoMaps i).Answers db (moving.foldl MapUpdate.apply (fun _ => ∅) i) :=
  answers_of_allOrderly twoMaps twoMaps_apart moving moving_orderly

/-- The size is one, of two entries. -/
theorem putTwo_miscounted : ∃ db, putTwo.foldlM (fun db u => u.perform twoMaps db) ∅ = .ok db ∧
    ¬ (twoMaps true).Answers db (putTwo.foldl MapUpdate.apply (fun _ => ∅) true) := by
  refine ⟨okOr (putTwo.foldlM (fun db u => u.perform twoMaps db) ∅) ∅,
    eq_ok_okOr (by decide +kernel), fun h => ?_⟩
  obtain ⟨n, hn, hcount⟩ := h.size
  have hone := congrArg (okOr · 0) hn
  obtain rfl : n = 1 := hone.symm.trans (by decide +kernel)
  exact absurd hcount (by decide +kernel)

end Sample

end Vsys
