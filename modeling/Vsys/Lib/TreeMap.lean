import Mathlib.Order.Lattice
import Mathlib.Logic.Embedding.Basic

/-!
# Sorted maps

An immutable map whose entries are listed in the order of their keys.  The order is given by a
rank of the keys in any linear order, so that one kind of key can be sorted both ways.
-/

namespace Vsys.Lib

variable {K V ρ : Type} [LinearOrder ρ]

/-- A map with its entries in increasing order of the keys' ranks. -/
@[ext]
structure TreeMap (K V : Type) (rank : K ↪ ρ) where
  entries : List (K × V)
  sorted : entries.Pairwise fun a b => rank a.1 < rank b.1

namespace TreeMap

variable {rank : K ↪ ρ}

/-- The map without entries. -/
def empty : TreeMap K V rank := ⟨[], List.Pairwise.nil⟩

/-- `headOption`. -/
def headOption (m : TreeMap K V rank) : Option (K × V) := m.entries.head?

/-- The first entry has the least key. -/
theorem headOption_le {m : TreeMap K V rank} {e : K × V} (h : m.headOption = some e) {x : K × V}
    (hx : x ∈ m.entries) : rank e.1 ≤ rank x.1 := by
  obtain ⟨l, hl⟩ := List.head?_eq_some_iff.mp h
  have hs := m.sorted
  rw [hl] at hs hx
  rcases List.mem_cons.mp hx with rfl | hx
  · exact le_refl _
  · exact le_of_lt ((List.pairwise_cons.mp hs).1 x hx)

variable [DecidableEq K]

/-- The entries with the value of one key set. -/
def put (rank : K ↪ ρ) (k : K) (v : V) : List (K × V) → List (K × V)
  | [] => [(k, v)]
  | e :: l =>
      if rank k < rank e.1 then (k, v) :: e :: l
      else if e.1 = k then (k, v) :: l
      else e :: put rank k v l

theorem mem_put {k : K} {v : V} {l : List (K × V)} {e : K × V} (h : e ∈ put rank k v l) :
    e = (k, v) ∨ e ∈ l := by
  induction l with
  | nil => exact .inl (List.mem_singleton.mp h)
  | cons x l ih =>
      unfold put at h
      split at h
      · exact List.mem_cons.mp h
      · split at h
        · rcases List.mem_cons.mp h with h | h
          · exact .inl h
          · exact .inr (List.mem_cons_of_mem x h)
        · rcases List.mem_cons.mp h with rfl | h
          · exact .inr List.mem_cons_self
          · exact (ih h).imp_right (List.mem_cons_of_mem x)

theorem sorted_put (k : K) (v : V) {l : List (K × V)}
    (h : l.Pairwise fun a b => rank a.1 < rank b.1) :
    (put rank k v l).Pairwise fun a b => rank a.1 < rank b.1 := by
  induction l with
  | nil => exact List.pairwise_singleton _ _
  | cons x l ih =>
      obtain ⟨hx, hl⟩ := List.pairwise_cons.mp h
      unfold put
      split
      · rename_i hlt
        refine List.pairwise_cons.mpr ⟨fun e he => ?_, h⟩
        rcases List.mem_cons.mp he with rfl | he
        · exact hlt
        · exact hlt.trans (hx e he)
      · split
        · rename_i heq
          exact List.pairwise_cons.mpr ⟨fun e he => heq ▸ hx e he, hl⟩
        · rename_i hnlt hne
          refine List.pairwise_cons.mpr ⟨fun e he => ?_, ih hl⟩
          rcases mem_put he with rfl | he
          · exact lt_of_le_of_ne (not_lt.mp hnlt) fun hr => hne (rank.injective hr)
          · exact hx e he

/-- `get`. -/
def get (m : TreeMap K V rank) (k : K) : Option V :=
  (m.entries.find? fun e => e.1 = k).map fun e => e.2

/-- `m + (k -> v)`. -/
def insert (m : TreeMap K V rank) (k : K) (v : V) : TreeMap K V rank :=
  ⟨put rank k v m.entries, sorted_put k v m.sorted⟩

/-- `m - k`. -/
def erase (m : TreeMap K V rank) (k : K) : TreeMap K V rank :=
  ⟨m.entries.filter fun e => e.1 ≠ k, m.sorted.filter _⟩

theorem mem_of_get {m : TreeMap K V rank} {k : K} {v : V} (h : m.get k = some v) :
    (k, v) ∈ m.entries := by
  obtain ⟨e, he, rfl⟩ := Option.map_eq_some_iff.mp h
  have hk : e.1 = k := by simpa using List.find?_some he
  exact hk ▸ List.mem_of_find?_eq_some he

theorem get_of_mem {m : TreeMap K V rank} {k : K} {v : V} (h : (k, v) ∈ m.entries) :
    m.get k = some v := by
  obtain ⟨l, hs⟩ := m
  unfold get
  induction l with
  | nil => exact absurd h List.not_mem_nil
  | cons x l ih =>
      obtain ⟨hx, hl⟩ := List.pairwise_cons.mp hs
      rcases List.mem_cons.mp h with rfl | h
      · simp
      · have hne : x.1 ≠ k := fun he => (he ▸ hx (k, v) h).false
        rw [List.find?_cons_of_neg (by simpa using hne)]
        exact ih hl h

theorem get_eq_some_iff {m : TreeMap K V rank} {k : K} {v : V} :
    m.get k = some v ↔ (k, v) ∈ m.entries := ⟨mem_of_get, get_of_mem⟩

/-- Around the entry of a key, setting it and removing it leave the rest as it is. -/
theorem split_of_get {m : TreeMap K V rank} {k : K} {v : V} (h : m.get k = some v) :
    ∃ l₁ l₂, m.entries = l₁ ++ (k, v) :: l₂
      ∧ (∀ w, (m.insert k w).entries = l₁ ++ (k, w) :: l₂) ∧ (m.erase k).entries = l₁ ++ l₂ := by
  obtain ⟨l₁, l₂, hl⟩ := List.append_of_mem (mem_of_get h)
  have hs := m.sorted
  rw [hl] at hs
  obtain ⟨-, htail, hcross⟩ := List.pairwise_append.mp hs
  have hbefore : ∀ e ∈ l₁, rank e.1 < rank k := fun e he => hcross e he (k, v) List.mem_cons_self
  have hbehind : ∀ e ∈ l₂, rank k < rank e.1 := (List.pairwise_cons.mp htail).1
  refine ⟨l₁, l₂, hl, fun w => ?_, ?_⟩
  · have hput : ∀ l : List (K × V), (∀ e ∈ l, rank e.1 < rank k) →
        put rank k w (l ++ (k, v) :: l₂) = l ++ (k, w) :: l₂ := by
      intro l hless
      induction l with
      | nil => simp [put]
      | cons x l ih =>
          have hx := hless x List.mem_cons_self
          have hne : x.1 ≠ k := fun he => (he ▸ hx).false
          rw [List.cons_append, put, if_neg (not_lt.mpr (le_of_lt hx)), if_neg hne,
            ih fun e he => hless e (List.mem_cons_of_mem x he), List.cons_append]
    change put rank k w m.entries = _
    rw [hl, hput l₁ hbefore]
  · have h₁ : l₁.filter (fun e => e.1 ≠ k) = l₁ := List.filter_eq_self.mpr fun e he => by
      have := hbefore e he
      simpa using fun heq : e.1 = k => (heq ▸ this).false
    have h₂ : l₂.filter (fun e => e.1 ≠ k) = l₂ := List.filter_eq_self.mpr fun e he => by
      have := hbehind e he
      simpa using fun heq : e.1 = k => (heq ▸ this).false
    change m.entries.filter _ = _
    rw [hl, List.filter_append, List.filter_cons_of_neg (by simp), h₁, h₂]

/-- A new key's entry goes between others. -/
theorem split_of_get_none {m : TreeMap K V rank} {k : K} (h : m.get k = none) :
    ∃ l₁ l₂, m.entries = l₁ ++ l₂ ∧ ∀ w, (m.insert k w).entries = l₁ ++ (k, w) :: l₂ := by
  obtain ⟨l, hs⟩ := m
  have habsent : ∀ e ∈ l, e.1 ≠ k := by
    intro e he hk
    have := get_of_mem (m := ⟨l, hs⟩) (k := e.1) (v := e.2) he
    rw [hk, h] at this
    exact Option.some_ne_none _ this.symm
  clear h
  induction l with
  | nil => exact ⟨[], [], rfl, fun w => rfl⟩
  | cons x l ih =>
      by_cases hlt : rank k < rank x.1
      · exact ⟨[], x :: l, rfl, fun w => by simp [insert, put, hlt]⟩
      · obtain ⟨l₁, l₂, hl, hinsert⟩ := ih (List.pairwise_cons.mp hs).2
          fun e he => habsent e (List.mem_cons_of_mem x he)
        refine ⟨x :: l₁, l₂, congrArg (x :: ·) hl, fun w => ?_⟩
        have hrest := hinsert w
        simp only [insert] at hrest ⊢
        rw [put, if_neg hlt, if_neg (habsent x List.mem_cons_self), hrest, List.cons_append]

theorem get_insert (m : TreeMap K V rank) (k : K) (v : V) (k' : K) :
    (m.insert k v).get k' = if k' = k then some v else m.get k' := by
  have hself : (k, v) ∈ (m.insert k v).entries := by
    cases h : m.get k with
    | none =>
        obtain ⟨l₁, l₂, -, hinsert⟩ := split_of_get_none h
        simp [hinsert]
    | some w =>
        obtain ⟨l₁, l₂, -, hinsert, -⟩ := split_of_get h
        simp [hinsert]
  split
  · rename_i heq
    rw [heq]
    exact get_of_mem hself
  · rename_i hne
    ext w
    rw [get_eq_some_iff, get_eq_some_iff]
    cases h : m.get k with
    | none =>
        obtain ⟨l₁, l₂, hl, hinsert⟩ := split_of_get_none h
        simp [hinsert, hl, hne]
    | some x =>
        obtain ⟨l₁, l₂, hl, hinsert, -⟩ := split_of_get h
        simp [hinsert, hl, hne]

theorem get_erase (m : TreeMap K V rank) (k k' : K) :
    (m.erase k).get k' = if k' = k then none else m.get k' := by
  ext w
  rw [get_eq_some_iff]
  change (k', w) ∈ m.entries.filter (fun e => e.1 ≠ k) ↔ _
  rw [List.mem_filter]
  split
  · rename_i heq
    simp [heq]
  · rename_i hne
    simp [hne, get_eq_some_iff]

@[simp]
theorem get_empty (k : K) : (empty : TreeMap K V rank).get k = none := rfl

end TreeMap

end Vsys.Lib
