import Mathlib.Data.List.Basic
import Vsys.Lib.Action

/-!
# Parts of a list

Where the parts of a concatenation lie in it.  A decoder that reads at offsets finds each part at
the sum of the lengths before it.
-/

namespace Vsys.Lib

variable {α : Type} {whole part a b : List α} {position : Nat}

/-- `part` lies in `whole` from `position` on. -/
def Holds (whole : List α) (position : Nat) (part : List α) : Prop :=
  ∃ before after, whole = before ++ (part ++ after) ∧ before.length = position

/-- The parts of `whole` from `position` to its end, one after another. -/
def Parts (whole : List α) : Nat → List (List α) → Prop
  | position, [] => position = whole.length
  | position, part :: parts =>
      Holds whole position part ∧ Parts whole (position + part.length) parts

theorem Holds.left (h : Holds whole position (a ++ b)) : Holds whole position a := by
  obtain ⟨before, after, rfl, hlength⟩ := h
  exact ⟨before, b ++ after, by rw [List.append_assoc], hlength⟩

theorem Holds.right (h : Holds whole position (a ++ b)) :
    Holds whole (position + a.length) b := by
  obtain ⟨before, after, rfl, rfl⟩ := h
  exact ⟨before ++ a, after, by simp, List.length_append⟩

/-- A part is what is left when the positions before it are dropped and those after it cut off. -/
theorem Holds.take_drop (h : Holds whole position part) :
    (whole.drop position).take part.length = part := by
  obtain ⟨before, after, rfl, rfl⟩ := h
  rw [List.drop_left, List.take_left]

theorem Holds.head {x : α} (h : Holds whole position (x :: part)) : whole[position]? = some x := by
  obtain ⟨before, after, rfl, rfl⟩ := h
  simp

theorem Holds.bound (h : Holds whole position part) :
    position + part.length ≤ whole.length := by
  obtain ⟨before, after, rfl, rfl⟩ := h
  simp only [List.length_append]
  omega

theorem parts_append (before : List α) (parts : List (List α)) :
    Parts (before ++ parts.flatten) before.length parts := by
  induction parts generalizing before with
  | nil => simp [Parts]
  | cons part parts ih =>
      refine ⟨⟨before, parts.flatten, rfl, rfl⟩, ?_⟩
      have h := ih (before ++ part)
      rwa [List.append_assoc, List.length_append] at h

/-- The parts of a concatenation. -/
theorem parts_of_eq {parts : List (List α)} (h : whole = parts.flatten) : Parts whole 0 parts :=
  h ▸ parts_append [] parts

/-- Words that end by themselves can be told apart in a concatenation. -/
theorem flatten_map_inj {β : Type} {P : β → Prop} {code : β → List α}
    (hcode : ∀ x y r r', P x → P y → code x ++ r = code y ++ r' → x = y ∧ r = r')
    (hne : ∀ x, code x ≠ []) {l l' : List β} (hl : ∀ x ∈ l, P x) (hl' : ∀ x ∈ l', P x)
    (h : (l.map code).flatten = (l'.map code).flatten) : l = l' := by
  induction l generalizing l' with
  | nil =>
      cases l' with
      | nil => rfl
      | cons y l' => exact absurd (List.append_eq_nil_iff.mp h.symm).1 (hne y)
  | cons x l ih =>
      cases l' with
      | nil => exact absurd (List.append_eq_nil_iff.mp h).1 (hne x)
      | cons y l' =>
          obtain ⟨hx, htail⟩ := List.forall_mem_cons.mp hl
          obtain ⟨hy, htail'⟩ := List.forall_mem_cons.mp hl'
          obtain ⟨rfl, hrest⟩ := hcode x y _ _ hx hy h
          rw [ih htail htail' hrest]

/-- The records of a table whose records have one length lie at multiples of it. -/
theorem Holds.record {β : Type} {code : β → List α} {width : Nat} {l : List β}
    (hwidth : ∀ x ∈ l, (code x).length = width)
    (h : Holds whole position (l.map code).flatten) {i : Nat} {x : β} (hx : l[i]? = some x) :
    Holds whole (position + i * width) (code x) := by
  induction l generalizing position i with
  | nil => cases hx
  | cons y l ih =>
      obtain ⟨hy, hrest⟩ := List.forall_mem_cons.mp hwidth
      rw [List.map_cons, List.flatten_cons] at h
      cases i with
      | zero =>
          obtain rfl := Option.some.inj hx
          rw [Nat.zero_mul, Nat.add_zero]
          exact h.left
      | succ i =>
          have hlater := ih hrest h.right hx
          rw [hy] at hlater
          rwa [Nat.succ_mul, Nat.add_comm (i * width), ← Nat.add_assoc]

/-- A part that is cut into pieces of one length is the pieces one after another. -/
theorem flatten_pieces (l : List α) (start width count : Nat) :
    ((List.range count).map fun i => (l.drop (start + i * width)).take width).flatten
      = (l.drop start).take (count * width) := by
  induction count with
  | zero => simp
  | succ count ih =>
      rw [List.range_succ, List.map_append, List.flatten_append, ih, List.map_singleton,
        List.flatten_singleton, Nat.succ_mul, List.take_add, List.drop_drop]

/-- A word that ends before a separator is told apart from what follows it. -/
theorem separated_inj {separator : α} {r r' : List α}
    (ha : separator ∉ a) (hb : separator ∉ b) (h : a ++ separator :: r = b ++ separator :: r') :
    a = b ∧ r = r' := by
  induction a generalizing b with
  | nil =>
      cases b with
      | nil => exact ⟨rfl, (List.cons.inj h).2⟩
      | cons x b => exact absurd (List.mem_cons.mpr (.inl (List.cons.inj h).1)) hb
  | cons x a ih =>
      cases b with
      | nil => exact absurd (List.mem_cons.mpr (.inl (List.cons.inj h).1.symm)) ha
      | cons y b =>
          obtain ⟨rfl, hrest⟩ := List.cons.inj h
          obtain ⟨rfl, hr⟩ := ih (fun hmem => ha (List.mem_cons_of_mem x hmem))
            (fun hmem => hb (List.mem_cons_of_mem x hmem)) hrest
          exact ⟨rfl, hr⟩

/-- Takes the next `n` elements of a stream, or fails with `missing` and takes nothing. -/
def Action.next {ε : Type} (missing : ε) (n : Nat) : Action ε (List α) (List α) := fun s =>
  if n ≤ s.length then (.ok (s.take n), s.drop n) else (.error missing, s)

variable {ε : Type} {missing : ε}

/-- A part in front of the rest is taken whole. -/
theorem Action.next_append {n : Nat} (hlength : part.length = n) (rest : List α) :
    Action.next missing n (part ++ rest) = (.ok part, rest) := by
  rw [Action.next, if_pos (by rw [List.length_append]; omega), List.take_left' hlength,
    List.drop_left' hlength]

/-- What is taken from a position on. -/
theorem Action.next_drop {n : Nat} (h : position + n ≤ whole.length) :
    Action.next missing n (whole.drop position)
      = (.ok ((whole.drop position).take n), whole.drop (position + n)) := by
  rw [Action.next, if_pos (by rw [List.length_drop]; omega), List.drop_drop]

end Vsys.Lib
