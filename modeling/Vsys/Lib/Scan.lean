import Mathlib.Data.Finset.Sort
import Vsys.Lib.Dict

/-!
# Scans of keys in order

Keys are lists of letters, ordered as words in a dictionary.  The words that begin with a given word
stand next to each other, so a scan that starts at a word and stops at the first key that is not
wanted finds all that are.
-/

namespace Vsys.Lib

section Words

variable {α : Type} {rank : α → Nat} {l l' l'' p : List α}

/-- The order of a dictionary, in which the letters are ordered by their `rank`. -/
def LexLE (rank : α → Nat) : List α → List α → Prop
  | [], _ => True
  | _ :: _, [] => False
  | a :: l, b :: l' => rank a < rank b ∨ rank a = rank b ∧ LexLE rank l l'

instance decidableLexLE : (l l' : List α) → Decidable (LexLE rank l l')
  | [], _ => inferInstanceAs (Decidable True)
  | _ :: _, [] => inferInstanceAs (Decidable False)
  | a :: l, b :: l' =>
      have := decidableLexLE l l'
      inferInstanceAs (Decidable (rank a < rank b ∨ rank a = rank b ∧ LexLE rank l l'))

/-- A word stands before its extensions. -/
theorem lexLE_of_start (h : l <+: l') : LexLE rank l l' := by
  obtain ⟨t, rfl⟩ := h
  induction l with
  | nil => trivial
  | cons a l ih => exact .inr ⟨rfl, ih⟩

theorem LexLE.trans (h : LexLE rank l l') (h' : LexLE rank l' l'') : LexLE rank l l'' := by
  induction l generalizing l' l'' with
  | nil => trivial
  | cons a l ih =>
      cases l' with
      | nil => exact h.elim
      | cons b l' =>
          cases l'' with
          | nil => exact h'.elim
          | cons c l'' =>
              obtain hlt | ⟨heq, h⟩ := h
              · obtain hlt' | ⟨heq', -⟩ := h'
                · exact .inl (hlt.trans hlt')
                · exact .inl (hlt.trans_eq heq')
              · obtain hlt' | ⟨heq', h'⟩ := h'
                · exact .inl (heq.trans_lt hlt')
                · exact .inr ⟨heq.trans heq', ih h h'⟩

theorem lexLE_total (l l' : List α) : LexLE rank l l' ∨ LexLE rank l' l := by
  induction l generalizing l' with
  | nil => exact .inl trivial
  | cons a l ih =>
      cases l' with
      | nil => exact .inr trivial
      | cons b l' =>
          obtain hlt | heq | hgt := lt_trichotomy (rank a) (rank b)
          · exact .inl (.inl hlt)
          · exact (ih l').imp (fun h => .inr ⟨heq, h⟩) fun h => .inr ⟨heq.symm, h⟩
          · exact .inr (.inl hgt)

theorem LexLE.antisymm (hrank : Function.Injective rank) (h : LexLE rank l l')
    (h' : LexLE rank l' l) : l = l' := by
  induction l generalizing l' with
  | nil =>
      cases l' with
      | nil => rfl
      | cons b l' => exact h'.elim
  | cons a l ih =>
      cases l' with
      | nil => exact h.elim
      | cons b l' =>
          obtain hlt | ⟨heq, h⟩ := h
          · obtain hlt' | ⟨heq', -⟩ := h'
            · exact absurd hlt' (Nat.lt_asymm hlt)
            · exact absurd heq' hlt.ne'
          · obtain hlt' | ⟨-, h'⟩ := h'
            · exact absurd heq hlt'.ne'
            · rw [hrank heq, ih h h']

/-- What stands between a word and an extension of it is an extension. -/
theorem prefix_of_lexLE (hrank : Function.Injective rank) (hp : LexLE rank p l)
    (hl : LexLE rank l l') (hl' : p <+: l') : p <+: l := by
  induction p generalizing l l' with
  | nil => exact List.nil_prefix
  | cons a p ih =>
      cases l with
      | nil => exact hp.elim
      | cons b l =>
          cases l' with
          | nil => exact hl.elim
          | cons c l' =>
              obtain ⟨rfl, hrest⟩ := List.cons_prefix_cons.mp hl'
              obtain hlt | ⟨heq, hp⟩ := hp
              · obtain hlt' | ⟨heq', -⟩ := hl
                · exact absurd hlt' (Nat.lt_asymm hlt)
                · exact absurd heq' hlt.ne'
              · obtain hlt' | ⟨-, hl⟩ := hl
                · exact absurd heq hlt'.ne'
                · exact List.cons_prefix_cons.mpr ⟨hrank heq, ih hp hl hrest⟩

/-- A common beginning plays no part. -/
theorem lexLE_append_left : LexLE rank (p ++ l) (p ++ l') ↔ LexLE rank l l' := by
  induction p with
  | nil => exact Iff.rfl
  | cons a p ih =>
      constructor
      · intro h
        obtain hlt | ⟨-, h⟩ := h
        · exact absurd hlt (Nat.lt_irrefl _)
        · exact ih.mp h
      · exact fun h => .inr ⟨rfl, ih.mpr h⟩

end Words

section Scans

variable {α : Type} {R : α → α → Prop} {p : α → Bool} {l : List α}

/-- In a list in order, the elements at its start that satisfy `p` are all that do, when `p` holds
of what stands before an element for which it holds. -/
theorem takeWhile_eq_filter (hl : l.Pairwise R) (hp : ∀ a ∈ l, ∀ b ∈ l, R a b → p b → p a) :
    l.takeWhile p = l.filter p := by
  induction hl with
  | nil => rfl
  | @cons a l ha hl ih =>
      rw [List.takeWhile_cons, List.filter_cons]
      have hrest := ih fun b hb c hc => hp b (List.mem_cons_of_mem a hb) c (List.mem_cons_of_mem a hc)
      split
      · rw [hrest]
      · rename_i hnot
        refine (List.filter_eq_nil_iff.mpr fun b hb hpb => hnot ?_).symm
        exact hp a List.mem_cons_self b (List.mem_cons_of_mem a hb) (ha b hb) hpb

/-- The same for what is left when such elements are dropped. -/
theorem dropWhile_eq_filter (hl : l.Pairwise R) (hp : ∀ a ∈ l, ∀ b ∈ l, R a b → p b → p a) :
    l.dropWhile p = l.filter fun a => !p a := by
  induction hl with
  | nil => rfl
  | @cons a l ha hl ih =>
      rw [List.dropWhile_cons, List.filter_cons]
      have hrest := ih fun b hb c hc => hp b (List.mem_cons_of_mem a hb) c (List.mem_cons_of_mem a hc)
      split
      · rename_i hpa
        rw [hrest, if_neg (by rw [hpa]; decide)]
      · rename_i hnot
        have hall : l.filter (fun b => !p b) = l := by
          refine List.filter_eq_self.mpr fun b hb => ?_
          rw [Bool.not_eq_true', ← Bool.not_eq_true]
          exact fun hpb => hnot
            (hp a List.mem_cons_self b (List.mem_cons_of_mem a hb) (ha b hb) hpb)
        rw [hall, if_pos (by rw [Bool.not_eq_true', ← Bool.not_eq_true]; exact hnot)]

end Scans

end Vsys.Lib
