import Mathlib.Data.List.Sort

/-!
# Listings up to ties

A listing sorted by a key leaves the order of elements of one key open.  `TieEquiv` compares two
listings up to that order, and `page` is what a listing gives out for a limit and an offset.
-/

namespace Vsys.Lib

variable {α κ : Type}

/-- Two lists with the same elements, whose keys come in the same order: they differ in the order
of elements of one key alone. -/
def TieEquiv (key : α → κ) (l l' : List α) : Prop := l.Perm l' ∧ l.map key = l'.map key

namespace TieEquiv

variable {key key' : α → κ} {l l' l'' m m' : List α}

@[refl]
theorem refl (l : List α) : TieEquiv key l l := ⟨List.Perm.refl l, rfl⟩

theorem symm (h : TieEquiv key l l') : TieEquiv key l' l := ⟨h.1.symm, h.2.symm⟩

theorem trans (h : TieEquiv key l l') (h' : TieEquiv key l' l'') : TieEquiv key l l'' :=
  ⟨h.1.trans h'.1, h.2.trans h'.2⟩

theorem append (h : TieEquiv key l l') (h' : TieEquiv key m m') :
    TieEquiv key (l ++ m) (l' ++ m') :=
  ⟨h.1.append h'.1, by rw [List.map_append, List.map_append, h.2, h'.2]⟩

/-- Keys that agree on the elements of the list are as good as each other. -/
theorem congr (h : TieEquiv key l l') (hkey : ∀ a ∈ l, key' a = key a) : TieEquiv key' l l' := by
  have hl : l.map key' = l.map key := List.map_congr_left hkey
  have hl' : l'.map key' = l'.map key :=
    List.map_congr_left fun a ha => hkey a (h.1.symm.subset ha)
  exact ⟨h.1, by rw [hl, hl', h.2]⟩

/-- A coarser key leaves lists equivalent. -/
theorem comp {κ' : Type} (h : TieEquiv key l l') (f : κ → κ') : TieEquiv (f ∘ key) l l' :=
  ⟨h.1, by rw [← List.map_map, ← List.map_map, h.2]⟩

/-- Two sorted lists of the same elements. -/
theorem of_sorted [LinearOrder κ] (hperm : l.Perm l') (hl : l.Pairwise fun a b => key a ≤ key b)
    (hl' : l'.Pairwise fun a b => key a ≤ key b) : TieEquiv key l l' := by
  refine ⟨hperm, List.Perm.eq_of_pairwise' (r := (· ≤ ·)) ?_ ?_ (hperm.map key)⟩
  · exact List.pairwise_map.mpr hl
  · exact List.pairwise_map.mpr hl'

end TieEquiv

/-- The length of a list, and the part of it a limit and an offset ask for. -/
def page (l : List α) (limit offset : Int) : Nat × List α :=
  (l.length, (l.drop offset.toNat).take limit.toNat)

/-- The whole list is one of its pages. -/
theorem page_all (l : List α) : (page l l.length 0).2 = l := by
  simp [page]

/-- Lists with the same pages are equal. -/
theorem eq_of_page {l l' : List α}
    (h : ∀ limit offset, 0 ≤ limit → 0 ≤ offset → page l limit offset = page l' limit offset) :
    l = l' := by
  have hpage := h l.length 0 (Int.natCast_nonneg _) le_rfl
  have hlength : l.length = l'.length := congrArg Prod.fst hpage
  calc l = (page l l.length 0).2 := (page_all l).symm
    _ = (page l' l'.length 0).2 := by rw [hpage, hlength]
    _ = l' := page_all l'

/-- A page of an appended list that its first part fills. -/
theorem page_append_of_le {l m : List α} {limit offset : Int}
    (h : limit ≤ (l.drop offset.toNat).length) :
    page (l ++ m) limit offset = (l.length + m.length, (l.drop offset.toNat).take limit.toNat) := by
  rw [page, List.length_append, List.drop_append, List.take_append_of_le_length (by omega)]

/-- A page of an appended list that its first part does not fill. -/
theorem page_append_of_lt {l m : List α} {limit offset : Int}
    (h : (l.drop offset.toNat).length < limit) :
    page (l ++ m) limit offset
      = (l.length + (page m (limit - (l.drop offset.toNat).length)
          (max 0 (offset - l.length))).1,
        l.drop offset.toNat ++ (page m (limit - (l.drop offset.toNat).length)
          (max 0 (offset - l.length))).2) := by
  have hoffset : offset.toNat - l.length = (max 0 (offset - l.length)).toNat := by omega
  have hlimit : limit.toNat - (l.drop offset.toNat).length
      = (limit - (l.drop offset.toNat).length).toNat := by omega
  rw [page, List.length_append, List.drop_append, List.take_append,
    List.take_of_length_le (by omega), hoffset, hlimit]
  rfl

/-- Pages of one length, one after the other, are the beginning of the list. -/
theorem flatMap_page (l : List α) (limit n : Nat) :
    (List.range n).flatMap (fun k => (page l limit (k * limit : Nat)).2) = l.take (n * limit) := by
  induction n with
  | zero => rw [Nat.zero_mul, List.take_zero, List.range_zero, List.flatMap_nil]
  | succ n ih =>
      rw [List.range_succ, List.flatMap_append, ih, List.flatMap_singleton, Nat.succ_mul,
        List.take_add]
      rfl

end Vsys.Lib
