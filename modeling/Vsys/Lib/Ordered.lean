import Mathlib.Order.Lattice.Nat
import Vsys.Lib.Dict

/-!
# Maps to and from positions

The map from the elements of a list to their positions, and the values of a map under positions in
the order of these.
-/

namespace Vsys.Lib.Dict

variable {K V : Type} [DecidableEq K]

/-- Whether a map has no entry. -/
def isEmpty (m : Dict K V) : Bool := m.keys.card = 0

/-- The positions of the elements of a list; of equal elements the last one counts. -/
def positions (l : List K) : Dict K Nat :=
  (l.zipIdx.reverse.map fun entry => Sigma.mk entry.1 entry.2).toFinmap

/-- The values under positions, in the order of the positions. -/
def inOrder (m : Dict Nat V) : List V :=
  (List.range (m.keys.sup id + 1)).filterMap m.lookup

variable {m : Dict K V}

theorem isEmpty_iff : m.isEmpty = true ↔ ∀ k, m.lookup k = none := by
  rw [isEmpty, decide_eq_true_eq, Finset.card_eq_zero]
  constructor
  · intro h k
    rw [← notMem_keys, h]
    exact Finset.notMem_empty k
  · intro h
    rw [Finset.eq_empty_iff_forall_notMem]
    exact fun k => notMem_keys.mpr (h k)

theorem eq_empty_of_isEmpty (h : m.isEmpty = true) : m = ∅ := by
  apply Finmap.ext_lookup
  intro k
  rw [isEmpty_iff.mp h k, Finmap.lookup_empty]

/-- The elements of a list without repetitions are found at their positions. -/
theorem lookup_positions_iff {l : List K} (hl : l.Nodup) {k : K} {i : Nat} :
    (positions l).lookup k = some i ↔ l[i]? = some k := by
  have hkeys : (l.zipIdx.reverse.map fun entry =>
      Sigma.mk (β := fun _ => Nat) entry.1 entry.2).NodupKeys := by
    rw [List.NodupKeys, List.keys, List.map_map, List.map_reverse, List.nodup_reverse]
    have hfst : l.zipIdx.map (Sigma.fst ∘ fun entry => Sigma.mk (β := fun _ => Nat) entry.1 entry.2)
        = l := List.zipIdx_map_fst 0 l
    rw [hfst]
    exact hl
  rw [positions, Finmap.dlookup_list_toFinmap, ← Option.mem_def, List.mem_dlookup_iff hkeys]
  simp only [List.mem_map, List.mem_reverse, Sigma.mk.injEq]
  constructor
  · rintro ⟨⟨k', i'⟩, hmem, rfl, heq⟩
    obtain rfl := eq_of_heq heq
    exact List.mk_mem_zipIdx_iff_getElem?.mp hmem
  · intro h
    exact ⟨(k, i), List.mk_mem_zipIdx_iff_getElem?.mpr h, rfl, HEq.rfl⟩

/-- Positions that are all below a bound can be gone through up to it. -/
theorem inOrder_eq {m : Dict Nat V} {n : Nat} (h : ∀ k v, m.lookup k = some v → k < n) :
    m.inOrder = (List.range n).filterMap m.lookup := by
  have hstop : ∀ a b, (∀ k v, m.lookup k = some v → k < a) →
      (List.range (a + b)).filterMap m.lookup = (List.range a).filterMap m.lookup := by
    intro a b ha
    induction b with
    | zero => rfl
    | succ b ih =>
        have hnone : m.lookup (a + b) = none := by
          rw [Option.eq_none_iff_forall_ne_some]
          intro v hv
          have := ha (a + b) v hv
          omega
        rw [← Nat.add_assoc, List.range_succ, List.filterMap_append, ih]
        simp [hnone]
  have hsup : ∀ k v, m.lookup k = some v → k < m.keys.sup id + 1 := by
    intro k v hv
    have hle : id k ≤ m.keys.sup id := Finset.le_sup (f := id) (mem_keys_of_lookup hv)
    exact Nat.lt_succ_of_le hle
  rw [inOrder]
  obtain hle | hle := Nat.le_total n (m.keys.sup id + 1)
  · obtain ⟨b, hb⟩ := Nat.exists_eq_add_of_le hle
    rw [hb, hstop n b h]
  · obtain ⟨b, hb⟩ := Nat.exists_eq_add_of_le hle
    rw [hb, hstop _ b hsup]

/-- To look elements up by their positions is to go through the list. -/
theorem filterMap_range_getElem? {α β : Type} (l : List α) (f : α → Option β) :
    (List.range l.length).filterMap (fun i => l[i]?.bind f) = l.filterMap f := by
  induction l with
  | nil => rfl
  | cons a l ih =>
      rw [List.length_cons, List.range_succ_eq_map, List.filterMap_cons, List.filterMap_map,
        List.filterMap_cons]
      have hrest : ((fun i => (a :: l)[i]?.bind f) ∘ Nat.succ) = fun i => l[i]?.bind f := rfl
      rw [hrest, ih]
      rfl

end Vsys.Lib.Dict
