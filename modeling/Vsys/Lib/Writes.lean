import Mathlib.Data.Finset.Sort
import Vsys.Lib.Dict

/-!
# Writes one after another

A store of several maps is written key by key, in an order that is not known.  What a whole section
of writes does to its map is what overlaying, updating or assigning does at once, and a list that is
kept under numbers grows by its new entries.
-/

namespace Vsys.Lib

variable {σ τ : Type}

/-- Runs writes one after another. -/
def writeAll (writes : List (σ → σ)) (s : σ) : σ := writes.foldl (fun s write => write s) s

@[simp]
theorem writeAll_nil (s : σ) : writeAll [] s = s := rfl

@[simp]
theorem writeAll_cons (write : σ → σ) (writes : List (σ → σ)) (s : σ) :
    writeAll (write :: writes) s = writeAll writes (write s) := rfl

theorem writeAll_append (writes writes' : List (σ → σ)) (s : σ) :
    writeAll (writes ++ writes') s = writeAll writes' (writeAll writes s) := List.foldl_append

/-- What every write keeps, writing keeps. -/
theorem writeAll_keeps {I : σ → Prop} {writes : List (σ → σ)}
    (h : ∀ write ∈ writes, ∀ s, I s → I (write s)) {s : σ} (hs : I s) : I (writeAll writes s) := by
  induction writes generalizing s with
  | nil => exact hs
  | cons write writes ih =>
      exact ih (fun w hw => h w (List.mem_cons_of_mem _ hw)) (h write List.mem_cons_self s hs)

/-- A part of the store that is written on its own. -/
structure Part (σ τ : Type) where
  get : σ → τ
  set : σ → τ → σ
  get_set : ∀ s t, get (set s t) = t
  set_set : ∀ s t t', set (set s t) t' = set s t'
  set_get : ∀ s, set s (get s) = s

/-- Writes to one part of the store. -/
def Part.writes (part : Part σ τ) (writes : List (τ → τ)) : List (σ → σ) :=
  writes.map fun write s => part.set s (write (part.get s))

/-- Writes to one part of the store come together in that part. -/
theorem Part.writeAll_writes (part : Part σ τ) (writes : List (τ → τ)) (s : σ) :
    writeAll (part.writes writes) s = part.set s (writeAll writes (part.get s)) := by
  induction writes generalizing s with
  | nil => exact (part.set_get s).symm
  | cons write writes ih =>
      rw [Part.writes, List.map_cons, writeAll_cons, ← Part.writes, ih, part.get_set, part.set_set,
        writeAll_cons]

/-- The members of a finite set in some order. -/
structure Enumeration {K : Type} [DecidableEq K] (s : Finset K) where
  list : List K
  nodup : list.Nodup
  toFinset_list : list.toFinset = s

theorem Enumeration.mem_list {K : Type} [DecidableEq K] {s : Finset K} (o : Enumeration s) {k : K} :
    k ∈ o.list ↔ k ∈ s := by
  rw [← List.mem_toFinset, o.toFinset_list]

theorem Enumeration.nonempty {K : Type} [DecidableEq K] (s : Finset K) :
    Nonempty (Enumeration s) :=
  ⟨⟨s.toList, s.nodup_toList, s.toList_toFinset⟩⟩

/-- Groups `g` of writes, each to the row of its own key, leave in the row of every key what the
group of that key makes of it. -/
theorem read_writeAll_flatMap {K R : Type} [DecidableEq K] {g : K → List (τ → τ)}
    {r : τ → K → R} {u : K → R → R} {l : List K} (hl : l.Nodup)
    (hframe : ∀ k k' s, k' ≠ k → r (writeAll (g k) s) k' = r s k')
    (hrow : ∀ k s, r (writeAll (g k) s) k = u k (r s k)) (s : τ) (k : K) :
    r (writeAll (l.flatMap g) s) k = if k ∈ l then u k (r s k) else r s k := by
  induction l generalizing s with
  | nil => rfl
  | cons k' l ih =>
      obtain ⟨hnew, hl⟩ := List.nodup_cons.mp hl
      rw [List.flatMap_cons, writeAll_append, ih hl]
      by_cases hsame : k = k'
      · subst hsame
        rw [if_neg hnew, hrow, if_pos List.mem_cons_self]
      · rw [hframe k' k s hsame]
        simp only [List.mem_cons, hsame, false_or]

/-- Single writes, each to the row of its own key. -/
theorem read_writeAll_map {K R : Type} [DecidableEq K] {w : K → τ → τ} {r : τ → K → R}
    {u : K → R → R} {l : List K} (hl : l.Nodup)
    (hwrite : ∀ k k' s, r (w k s) k' = if k' = k then u k (r s k) else r s k') (s : τ) (k : K) :
    r (writeAll (l.map w) s) k = if k ∈ l then u k (r s k) else r s k := by
  rw [List.map_eq_flatMap]
  refine read_writeAll_flatMap hl (fun k k' s hk => ?_) (fun k s => ?_) s k
  · rw [writeAll_cons, writeAll_nil, hwrite, if_neg hk]
  · rw [writeAll_cons, writeAll_nil, hwrite, if_pos rfl]

namespace Dict

variable {K V W : Type} [DecidableEq K]

/-- Writes the change of one key: its new value by the old one, or nothing there. -/
def change (new : Option W → V → Option W) (changes : Dict K V) (k : K) (m : Dict K W) :
    Dict K W :=
  match changes.lookup k with
  | some v =>
      match new (m.lookup k) v with
      | some w => m.insert k w
      | none => m.erase k
  | none => m

variable {new : Option W → V → Option W} {changes : Dict K V} {m : Dict K W}

theorem lookup_change (k k' : K) : (change new changes k m).lookup k'
    = if k' = k then (changes.lookup k).elim (m.lookup k) (new (m.lookup k)) else m.lookup k' := by
  rw [change]
  cases hv : changes.lookup k with
  | none =>
      dsimp only [Option.elim_none]
      split
      · rename_i h
        rw [h]
      · rfl
  | some v =>
      dsimp only [Option.elim_some]
      cases hw : new (m.lookup k) v with
      | none => rw [lookup_erase_eq]
      | some w => rw [lookup_insert_eq]

/-- Every key is changed once. -/
theorem lookup_writeAll_change (o : Enumeration changes.keys) (k : K) :
    (writeAll (o.list.map (change new changes)) m).lookup k
      = (changes.lookup k).elim (m.lookup k) (new (m.lookup k)) := by
  have h := read_writeAll_map (r := fun (m : Dict K W) k => m.lookup k)
    (u := fun k old => (changes.lookup k).elim old (new old)) o.nodup
    (fun k k' m => lookup_change k k') m k
  rw [h]
  split
  · rfl
  · rename_i hk
    rw [o.mem_list, notMem_keys] at hk
    rw [hk]
    rfl

/-- Writing new values key by key overlays them. -/
theorem writeAll_overlay (o : Enumeration changes.keys) (f : V → W) :
    writeAll (o.list.map (change (fun _ v => some (f v)) changes)) m
      = overlay m (mapValues (fun _ v => f v) changes) := by
  refine Finmap.ext_lookup fun k => ?_
  rw [lookup_writeAll_change, lookup_overlay, lookup_mapValues]
  cases changes.lookup k with
  | none => rfl
  | some v => rfl

theorem writeAll_overlay_self {m : Dict K V} (o : Enumeration changes.keys) :
    writeAll (o.list.map (change (fun _ v => some v) changes)) m = overlay m changes := by
  refine Finmap.ext_lookup fun k => ?_
  rw [lookup_writeAll_change, lookup_overlay]
  cases changes.lookup k with
  | none => rfl
  | some v => rfl

/-- Reading, combining and writing key by key updates. -/
theorem writeAll_updateWith (o : Enumeration changes.keys) (op : W → V → W) (default : W) :
    writeAll (o.list.map (change (fun old v => some (op (old.getD default) v)) changes)) m
      = updateWith op default m changes := by
  refine Finmap.ext_lookup fun k => ?_
  rw [lookup_writeAll_change, lookup_updateWith]
  cases changes.lookup k with
  | none => rfl
  | some v => rfl

/-- Writing or removing key by key assigns. -/
theorem writeAll_assign {changes : Dict K (Option W)} (o : Enumeration changes.keys) :
    writeAll (o.list.map (change (fun _ v => v) changes)) m = assign m changes := by
  refine Finmap.ext_lookup fun k => ?_
  rw [lookup_writeAll_change, lookup_assign]
  cases changes.lookup k with
  | none => rfl
  | some v => rfl

/-- Writes the entry of a key with the next number but `i`. -/
def putEntry (k : K) (i : Nat) (v : V) (t : Dict (K × Nat) V × Dict K Nat) :
    Dict (K × Nat) V × Dict K Nat :=
  (t.1.insert (k, (t.2.lookup k).getD 0 + i) v, t.2)

/-- Writes the length of a list that has grown by `n` entries. -/
def putLength (k : K) (n : Nat) (t : Dict (K × Nat) V × Dict K Nat) :
    Dict (K × Nat) V × Dict K Nat :=
  (t.1, t.2.insert k ((t.2.lookup k).getD 0 + n))

/-- Writes the new entries of one list, and then its length. -/
def growList (values : K → List V) (k : K) :
    List (Dict (K × Nat) V × Dict K Nat → Dict (K × Nat) V × Dict K Nat) :=
  (values k).mapIdx (putEntry k) ++ [putLength k (values k).length]

/-- The entries of one list and its length. -/
def listRow (t : Dict (K × Nat) V × Dict K Nat) (k : K) : (Nat → Option V) × Option Nat :=
  (fun i => t.1.lookup (k, i), t.2.lookup k)

theorem ext_listRow {t t' : Dict (K × Nat) V × Dict K Nat} (h : ∀ k, listRow t k = listRow t' k) :
    t = t' := by
  refine Prod.ext (Finmap.ext_lookup fun entry => ?_) (Finmap.ext_lookup fun k => ?_)
  · exact congrFun (congrArg Prod.fst (h entry.1)) entry.2
  · exact congrArg Prod.snd (h k)

theorem writeAll_putEntry (k : K) (l : List V) (j : Nat) (t : Dict (K × Nat) V × Dict K Nat) :
    (writeAll (l.mapIdx fun i => putEntry k (j + i)) t).2 = t.2 ∧
    ∀ k' i, (writeAll (l.mapIdx fun i => putEntry k (j + i)) t).1.lookup (k', i)
      = if k' = k ∧ (t.2.lookup k).getD 0 + j ≤ i
          ∧ i < (t.2.lookup k).getD 0 + j + l.length then
        l[i - ((t.2.lookup k).getD 0 + j)]? else t.1.lookup (k', i) := by
  induction l generalizing j t with
  | nil =>
      refine ⟨rfl, fun k' i => (if_neg ?_).symm⟩
      rw [List.length_nil]
      omega
  | cons v l ih =>
      obtain ⟨hlengths, hentries⟩ := ih (j + 1) (putEntry k j v t)
      have hshift :
          (fun i => putEntry (V := V) k (j + (i + 1))) = fun i => putEntry k (j + 1 + i) :=
        funext fun i => by rw [Nat.add_assoc, Nat.add_comm 1 i]
      rw [List.mapIdx_cons, writeAll_cons, hshift]
      refine ⟨hlengths, fun k' i => ?_⟩
      have hputEntry :
          putEntry k (j + 0) v t = (t.1.insert (k, (t.2.lookup k).getD 0 + j) v, t.2) :=
        rfl
      rw [Nat.add_zero j] at hputEntry ⊢
      rw [hentries, hputEntry]
      dsimp only
      rw [lookup_insert_eq, List.length_cons]
      by_cases hk : k' = k
      · subst hk
        simp only [true_and, Prod.mk.injEq]
        generalize hn : (t.2.lookup k').getD 0 = n
        by_cases hi : i = n + j
        · subst hi
          rw [if_neg (by omega), if_pos rfl, if_pos (by omega), Nat.sub_self]
          rfl
        · rw [if_neg hi]
          by_cases hin : n + (j + 1) ≤ i ∧ i < n + (j + 1) + l.length
          · have hnext : i - (n + j) = i - (n + (j + 1)) + 1 := by omega
            rw [if_pos hin, if_pos (by omega), hnext, List.getElem?_cons_succ]
          · rw [if_neg hin, if_neg (by omega)]
      · simp only [hk, false_and, if_false, Prod.mk.injEq]

/-- What growing a list makes of its row. -/
def grownRow (l : List V) (row : (Nat → Option V) × Option Nat) : (Nat → Option V) × Option Nat :=
  (fun i => if row.2.getD 0 ≤ i ∧ i < row.2.getD 0 + l.length then l[i - row.2.getD 0]?
    else row.1 i, some (row.2.getD 0 + l.length))

theorem listRow_growList (values : K → List V) (k k' : K) (t : Dict (K × Nat) V × Dict K Nat) :
    listRow (writeAll (growList values k) t) k'
      = if k' = k then grownRow (values k) (listRow t k) else listRow t k' := by
  obtain ⟨hlengths, hentries⟩ := writeAll_putEntry k (values k) 0 t
  simp only [Nat.zero_add, Nat.add_zero] at hlengths hentries
  rw [growList, writeAll_append, writeAll_cons, writeAll_nil, listRow, putLength]
  dsimp only
  rw [hlengths, lookup_insert_eq]
  simp only [hentries]
  split
  · rename_i hk
    subst hk
    simp only [true_and]
    rfl
  · rename_i hk
    simp only [hk, false_and, if_false]
    rfl

/-- Lists that grow one after another, entry by entry, are overlaid with their new entries and
lengths. -/
theorem writeAll_growList {keys : Finset K} (o : Enumeration keys) (values : K → List V)
    (m : Dict (K × Nat) V) (lengths : Dict K Nat) :
    writeAll (o.list.flatMap (growList values)) (m, lengths)
      = (overlay m (numbered keys (fun k => (lengths.lookup k).getD 0) values),
        overlay lengths
          (tabulate keys fun k => (lengths.lookup k).getD 0 + (values k).length)) := by
  refine ext_listRow fun k => ?_
  rw [read_writeAll_flatMap (r := listRow) (u := fun k => grownRow (values k)) o.nodup
    (fun k k' t hk => by rw [listRow_growList, if_neg hk])
    (fun k t => by rw [listRow_growList, if_pos rfl])]
  simp only [o.mem_list]
  have hentry (i : Nat) := lookup_numbered keys (fun k => (lengths.lookup k).getD 0) values k i
  by_cases hk : k ∈ keys
  · simp only [hk, true_and] at hentry
    rw [if_pos hk]
    refine Prod.ext (funext fun i => ?_) ?_
    · rw [grownRow, listRow, listRow]
      dsimp only
      rw [lookup_overlay, hentry]
      by_cases hle : (lengths.lookup k).getD 0 ≤ i
      · by_cases hlt : i < (lengths.lookup k).getD 0 + (values k).length
        · rw [if_pos ⟨hle, hlt⟩, if_pos hle, List.getElem?_eq_getElem (by omega), Option.some_or]
        · rw [if_neg (by omega), if_pos hle, List.getElem?_eq_none (by omega), Option.none_or]
      · rw [if_neg (by omega), if_neg hle, Option.none_or]
    · rw [grownRow, listRow, listRow]
      dsimp only
      rw [lookup_overlay, lookup_tabulate, if_pos hk, Option.some_or]
  · simp only [hk, false_and, if_false] at hentry
    rw [if_neg hk]
    refine Prod.ext (funext fun i => ?_) ?_
    · rw [listRow, listRow]
      dsimp only
      rw [lookup_overlay, hentry, Option.none_or]
    · rw [listRow, listRow]
      dsimp only
      rw [lookup_overlay, lookup_tabulate, if_neg hk, Option.none_or]

end Dict

end Vsys.Lib
