import Mathlib.Data.Finmap
import Mathlib.Data.Finset.Union

/-!
# Finite maps that overlay and merge

`Dict K V` is Mathlib's `Finmap` at a constant family.  A layered store reads it in two ways: a
newer map *overlays* an older one (the newer value wins), or the two are *merged* key by key with
an operation on values.  Both are determined by their lookups, so every law below is stated on
`Finmap.lookup` and equality of maps is `Finmap.ext_lookup`.
-/

namespace Vsys.Lib

/-- Finite maps from `K` to `V`. -/
abbrev Dict (K V : Type) := Finmap fun _ : K => V

namespace Dict

variable {K V W : Type} [DecidableEq K]

/-- The map with the values of `f` at those of `keys` where `f` has one. -/
def ofFn (keys : Finset K) (f : K → Option V) : Dict K V where
  entries := keys.val.filterMap fun k => (f k).map (Sigma.mk k)
  nodupKeys := by
    apply Multiset.nodup_keys.mp
    have hkeys : Multiset.keys (keys.val.filterMap fun k => (f k).map (Sigma.mk (β := fun _ => V) k))
        = keys.val.filterMap fun k => (f k).map fun _ => k := by
      rw [Multiset.keys, Multiset.map_filterMap]
      congr 1
      funext k
      cases f k <;> rfl
    rw [hkeys]
    refine Multiset.Nodup.filterMap _ ?_ keys.nodup
    intro k k' a ha ha'
    rw [Option.mem_def, Option.map_eq_some_iff] at ha ha'
    obtain ⟨_, _, rfl⟩ := ha
    obtain ⟨_, _, hk⟩ := ha'
    exact hk.symm

/-- `newer` laid over `older`: the newer value of a key wins. -/
def overlay (older newer : Dict K V) : Dict K V := newer ∪ older

/-- The values of `older` and `newer` merged key by key with `op`. -/
def mergeWith (op : V → V → V) (older newer : Dict K V) : Dict K V :=
  ofFn (older.keys ∪ newer.keys) fun k => Option.merge op (older.lookup k) (newer.lookup k)

/-- The map with `f` applied to every value, together with its key. -/
def mapValues (f : K → V → W) (m : Dict K V) : Dict K W :=
  ofFn m.keys fun k => (m.lookup k).map (f k)

/-- The map from every one of `keys` to its value under `f`. -/
def tabulate (keys : Finset K) (f : K → V) : Dict K V :=
  ofFn keys fun k => some (f k)

/-- The entries of `m` whose value satisfies `p`. -/
def filterValues (p : V → Bool) (m : Dict K V) : Dict K V :=
  ofFn m.keys fun k => (m.lookup k).filter p

/-- `m` after `op` has updated the value at every key of `changes`, from `default` where there is
none yet. -/
def updateWith (op : W → V → W) (default : W) (m : Dict K W) (changes : Dict K V) : Dict K W :=
  overlay m (mapValues (fun k v => op ((m.lookup k).getD default) v) changes)

/-- `m` after every key of `changes` has been set to its value or, where that is `none`,
removed. -/
def assign (m : Dict K V) (changes : Dict K (Option V)) : Dict K V :=
  ofFn (m.keys ∪ changes.keys) fun k => (changes.lookup k).getD (m.lookup k)

/-- For each of `keys`, the list of its values numbered from `start` on. -/
def numbered (keys : Finset K) (start : K → Nat) (values : K → List V) : Dict (K × Nat) V :=
  ofFn (keys.biUnion fun k => (Finset.range (values k).length).image fun i => (k, start k + i))
    fun entry => (values entry.1)[entry.2 - start entry.1]?

/-- A map built from a partial function has its values, at the given keys. -/
theorem lookup_ofFn (keys : Finset K) (f : K → Option V) (k : K) :
    (ofFn keys f).lookup k = if k ∈ keys then f k else none := by
  ext v
  rw [Finmap.lookup_eq_some_iff]
  simp only [ofFn, Multiset.mem_filterMap, Option.map_eq_some_iff]
  constructor
  · rintro ⟨a, ha, b, hb, h⟩
    obtain ⟨rfl, hbv⟩ := Sigma.mk.inj_iff.mp h
    obtain rfl := eq_of_heq hbv
    simp [Finset.mem_def.mpr ha, hb]
  · intro h
    split at h
    · exact ⟨k, by assumption, v, h, rfl⟩
    · cases h

/-- A key outside the map is one the lookup says nothing about. -/
theorem notMem_keys {m : Dict K V} {k : K} : k ∉ m.keys ↔ m.lookup k = none := by
  rw [Finmap.mem_keys, Finmap.lookup_eq_none]

/-- The keys of a map are the keys at which it has a value. -/
theorem mem_keys_iff_isSome {m : Dict K V} {k : K} : k ∈ m.keys ↔ (m.lookup k).isSome := by
  rw [Finmap.mem_keys, Finmap.lookup_isSome]

/-- A key with a value is one of the keys. -/
theorem mem_keys_of_lookup {m : Dict K V} {k : K} {v : V} (h : m.lookup k = some v) :
    k ∈ m.keys := by
  rw [mem_keys_iff_isSome, h]; rfl

/-- An overlay is read in the newer map first, and in the older one where the newer has nothing. -/
@[simp]
theorem lookup_overlay (older newer : Dict K V) (k : K) :
    (overlay older newer).lookup k = (newer.lookup k).or (older.lookup k) := by
  by_cases hk : k ∈ newer
  · obtain ⟨v, hv⟩ := Finmap.mem_iff.mp hk
    rw [overlay, Finmap.lookup_union_left hk, hv]; rfl
  · rw [overlay, Finmap.lookup_union_right hk, Finmap.lookup_eq_none.mpr hk]; rfl

/-- A merged map has the value of either map, and both combined where both have one. -/
@[simp]
theorem lookup_mergeWith (op : V → V → V) (older newer : Dict K V) (k : K) :
    (mergeWith op older newer).lookup k
      = Option.merge op (older.lookup k) (newer.lookup k) := by
  rw [mergeWith, lookup_ofFn]
  split
  · rfl
  · rename_i hk
    rw [Finset.mem_union, not_or, notMem_keys, notMem_keys] at hk
    rw [hk.1, hk.2]; rfl

/-- A mapped value is the image of the value at the same key. -/
@[simp]
theorem lookup_mapValues (f : K → V → W) (m : Dict K V) (k : K) :
    (mapValues f m).lookup k = (m.lookup k).map (f k) := by
  rw [mapValues, lookup_ofFn]
  split
  · rfl
  · rename_i hk
    rw [notMem_keys.mp hk]; rfl

/-- A tabulated map has the function's value at each of its keys. -/
@[simp]
theorem lookup_tabulate (keys : Finset K) (f : K → V) (k : K) :
    (tabulate keys f).lookup k = if k ∈ keys then some (f k) else none :=
  lookup_ofFn _ _ _

/-- A filtered map has the values that pass the test. -/
@[simp]
theorem lookup_filterValues (p : V → Bool) (m : Dict K V) (k : K) :
    (filterValues p m).lookup k = (m.lookup k).filter p := by
  rw [filterValues, lookup_ofFn]
  split
  · rfl
  · rename_i hk
    rw [notMem_keys.mp hk]; rfl

/-- An update combines each change with the value before it, or with the default. -/
@[simp]
theorem lookup_updateWith (op : W → V → W) (default : W) (m : Dict K W) (changes : Dict K V)
    (k : K) :
    (updateWith op default m changes).lookup k
      = ((changes.lookup k).map (op ((m.lookup k).getD default))).or (m.lookup k) := by
  rw [updateWith, lookup_overlay, lookup_mapValues]

/-- An assignment takes the new entry, which may be none, and the old one where there is no
change. -/
@[simp]
theorem lookup_assign (m : Dict K V) (changes : Dict K (Option V)) (k : K) :
    (assign m changes).lookup k = (changes.lookup k).getD (m.lookup k) := by
  rw [assign, lookup_ofFn]
  split
  · rfl
  · rename_i hk
    rw [Finset.mem_union, not_or, notMem_keys, notMem_keys] at hk
    rw [hk.2, hk.1]; rfl

/-- Numbered lists are read at a key and a number from the key's start on. -/
theorem lookup_numbered (keys : Finset K) (start : K → Nat) (values : K → List V) (k : K)
    (i : Nat) :
    (numbered keys start values).lookup (k, i)
      = if k ∈ keys ∧ start k ≤ i then (values k)[i - start k]? else none := by
  rw [numbered, lookup_ofFn]
  by_cases hk : k ∈ keys ∧ start k ≤ i
  · rw [if_pos hk]
    by_cases hi : i - start k < (values k).length
    · rw [if_pos]
      refine Finset.mem_biUnion.mpr ⟨k, hk.1, Finset.mem_image.mpr ⟨i - start k, ?_, ?_⟩⟩
      · exact Finset.mem_range.mpr hi
      · rw [Nat.add_sub_cancel' hk.2]
    · rw [List.getElem?_eq_none (not_lt.mp hi), ite_self]
  · rw [if_neg hk, if_neg]
    intro hmem
    obtain ⟨k', hk', himage⟩ := Finset.mem_biUnion.mp hmem
    obtain ⟨j, _, hj⟩ := Finset.mem_image.mp himage
    obtain ⟨rfl, rfl⟩ := Prod.mk.inj hj
    exact hk ⟨hk', Nat.le_add_right _ _⟩

/-- A map with one entry has a value at its key only. -/
theorem lookup_singleton (k : K) (v : V) (k' : K) :
    (Finmap.singleton k v : Dict K V).lookup k' = if k' = k then some v else none := by
  split
  · subst k'; exact Finmap.lookup_singleton_eq
  · rw [Finmap.lookup_eq_none, Finmap.mem_singleton]; assumption

/-- A map with one entry is not empty. -/
theorem singleton_ne_empty (k : K) (v : V) : (Finmap.singleton k v : Dict K V) ≠ ∅ := by
  intro h
  have hlookup := congrArg (Finmap.lookup k) h
  rw [Finmap.lookup_singleton_eq, Finmap.lookup_empty] at hlookup
  cases hlookup

/-- Two maps with one entry are the same only with the same key and the same value. -/
theorem singleton_inj {k k' : K} {v v' : V}
    (h : (Finmap.singleton k v : Dict K V) = Finmap.singleton k' v') : k = k' ∧ v = v' := by
  have hlookup := congrArg (Finmap.lookup k) h
  rw [Finmap.lookup_singleton_eq, lookup_singleton] at hlookup
  split at hlookup
  · rename_i hk
    exact ⟨hk, Option.some.inj hlookup⟩
  · cases hlookup

/-- An inserted value is read at its key, and the others as before. -/
theorem lookup_insert_eq (m : Dict K V) (k : K) (v : V) (k' : K) :
    (m.insert k v).lookup k' = if k' = k then some v else m.lookup k' := by
  split
  · subst k'; exact Finmap.lookup_insert m
  · exact Finmap.lookup_insert_of_ne m (by assumption)

/-- An erased key has no value, and the others as before. -/
theorem lookup_erase_eq (m : Dict K V) (k k' : K) :
    (m.erase k).lookup k' = if k' = k then none else m.lookup k' := by
  split
  · subst k'; exact Finmap.lookup_erase k m
  · exact Finmap.lookup_erase_ne (by assumption)

/-- A merged map has the keys of both. -/
theorem keys_mergeWith (op : V → V → V) (older newer : Dict K V) :
    (mergeWith op older newer).keys = older.keys ∪ newer.keys := by
  ext k
  rw [Finset.mem_union, mem_keys_iff_isSome, mem_keys_iff_isSome, mem_keys_iff_isSome,
    lookup_mergeWith]
  cases older.lookup k <;> cases newer.lookup k <;> simp

/-- An overlay has the keys of both maps. -/
theorem keys_overlay (older newer : Dict K V) :
    (overlay older newer).keys = newer.keys ∪ older.keys :=
  Finmap.keys_union

/-- A tabulated map has the given keys. -/
@[simp]
theorem keys_tabulate (keys : Finset K) (f : K → V) : (tabulate keys f).keys = keys := by
  ext k
  rw [mem_keys_iff_isSome, lookup_tabulate]
  split <;> simp_all

/-- Mapping the values keeps the keys. -/
@[simp]
theorem keys_mapValues (f : K → V → W) (m : Dict K V) : (mapValues f m).keys = m.keys := by
  ext k
  rw [mem_keys_iff_isSome, mem_keys_iff_isSome, lookup_mapValues, Option.isSome_map]

/-- Mapping the values of no entry gives none. -/
@[simp]
theorem mapValues_empty (f : K → V → W) : mapValues f (∅ : Dict K V) = ∅ :=
  Finmap.ext_lookup fun k => by rw [lookup_mapValues, Finmap.lookup_empty, Finmap.lookup_empty]; rfl

/-- Mapping the values commutes with an insertion. -/
theorem mapValues_insert (f : K → V → W) (m : Dict K V) (k : K) (v : V) :
    mapValues f (m.insert k v) = (mapValues f m).insert k (f k v) := by
  refine Finmap.ext_lookup fun k' => ?_
  rw [lookup_mapValues, lookup_insert_eq, lookup_insert_eq]
  split
  · subst k'; rfl
  · exact (lookup_mapValues f m k').symm

/-- Mapping the values of a map with one entry maps its value. -/
theorem mapValues_singleton (f : K → V → W) (k : K) (v : V) :
    mapValues f (Finmap.singleton k v) = Finmap.singleton k (f k v) := by
  refine Finmap.ext_lookup fun k' => ?_
  rw [lookup_mapValues, lookup_singleton, lookup_singleton]
  split
  · rename_i h
    rw [Option.map_some, h]
  · rfl

/-- Mapping the values commutes with an overlay. -/
theorem mapValues_overlay (f : K → V → W) (older newer : Dict K V) :
    mapValues f (overlay older newer) = overlay (mapValues f older) (mapValues f newer) := by
  refine Finmap.ext_lookup fun k => ?_
  rw [lookup_mapValues, lookup_overlay, lookup_overlay, lookup_mapValues, lookup_mapValues]
  cases newer.lookup k with
  | none => rfl
  | some v => rfl

/-- An overlay with nothing newer is the older map. -/
@[simp]
theorem overlay_empty (m : Dict K V) : overlay m ∅ = m := Finmap.empty_union

/-- An overlay on nothing is the newer map. -/
@[simp]
theorem empty_overlay (m : Dict K V) : overlay ∅ m = m := Finmap.union_empty

/-- Overlays may be grouped either way. -/
theorem overlay_assoc (a b c : Dict K V) : overlay (overlay a b) c = overlay a (overlay b c) :=
  Finmap.union_assoc.symm

/-- Merging with nothing newer changes nothing. -/
@[simp]
theorem mergeWith_empty (op : V → V → V) (m : Dict K V) : mergeWith op m ∅ = m :=
  Finmap.ext_lookup fun k => by simp

/-- Merging with nothing older changes nothing. -/
@[simp]
theorem empty_mergeWith (op : V → V → V) (m : Dict K V) : mergeWith op ∅ m = m :=
  Finmap.ext_lookup fun k => by simp

/-- Merging is associative as soon as the operation is associative on the values that meet. -/
theorem mergeWith_assoc {op : V → V → V} {a b c : Dict K V}
    (h : ∀ k x y z, a.lookup k = some x → b.lookup k = some y → c.lookup k = some z →
      op (op x y) z = op x (op y z)) :
    mergeWith op (mergeWith op a b) c = mergeWith op a (mergeWith op b c) := by
  refine Finmap.ext_lookup fun k => ?_
  simp only [lookup_mergeWith]
  cases ha : a.lookup k with
  | none => simp
  | some x =>
    cases hb : b.lookup k with
    | none => simp
    | some y =>
      cases hc : c.lookup k with
      | none => simp
      | some z => simp [h k x y z ha hb hc]

/-- Every key of the map has a property. -/
def KeysIn (P : K → Prop) (m : Dict K V) : Prop := ∀ k v, m.lookup k = some v → P k

section KeysIn

variable {P : K → Prop} {m m' : Dict K V} {k : K} {v : V}

/-- Every key of the empty map is of the wanted kind. -/
theorem keysIn_empty : KeysIn P (∅ : Dict K V) := fun k v h => by
  rw [Finmap.lookup_empty] at h
  cases h

/-- An insertion at a key of the kind keeps every key of the kind. -/
theorem KeysIn.insert (h : KeysIn P m) (hk : P k) : KeysIn P (m.insert k v) := by
  intro k' v' h'
  rw [lookup_insert_eq] at h'
  split at h'
  · rename_i hkey
    exact hkey ▸ hk
  · exact h k' v' h'

/-- A map with one entry at a key of the kind has keys of the kind only. -/
theorem keysIn_singleton (hk : P k) : KeysIn P (Finmap.singleton k v : Dict K V) := by
  intro k' v' h'
  rw [lookup_singleton] at h'
  split at h'
  · rename_i hkey
    exact hkey ▸ hk
  · cases h'

/-- An overlay of maps with keys of the kind has keys of the kind only. -/
theorem KeysIn.overlay (h : KeysIn P m) (h' : KeysIn P m') : KeysIn P (overlay m m') := by
  intro k v hv
  rw [lookup_overlay, Option.or_eq_some_iff] at hv
  obtain hv | ⟨-, hv⟩ := hv
  · exact h' k v hv
  · exact h k v hv

/-- Merged maps with keys of the kind have keys of the kind only. -/
theorem KeysIn.mergeWith (op : V → V → V) (h : KeysIn P m) (h' : KeysIn P m') :
    KeysIn P (mergeWith op m m') := by
  intro k v hv
  rw [lookup_mergeWith] at hv
  cases hk : m.lookup k with
  | some x => exact h k x hk
  | none =>
      rw [hk, Option.merge_none_left] at hv
      exact h' k v hv

/-- A key without the property has no value. -/
theorem KeysIn.lookup_eq_none (h : KeysIn P m) (hk : ¬ P k) : m.lookup k = none := by
  cases hv : m.lookup k with
  | none => rfl
  | some v => exact absurd (h k v hv) hk

end KeysIn

end Dict

end Vsys.Lib
