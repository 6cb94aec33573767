/-!
# Links that lead down

A map whose entries link to smaller keys, followed from a key until it reaches zero.  Entries that
are made when a function of time changes recount the function: the value at a time is the one of the
newest entry up to it.
-/

namespace Vsys.Lib

variable {α : Type} {get get' : Nat → Option α} {link : α → Nat} {i j : Nat} {x : α}

/-- Every key met from `i` on has an entry, each entry links to a smaller key, and the last key is
zero. -/
inductive Descends (get : Nat → Option α) (link : α → Nat) : Nat → Prop
  | zero : Descends get link 0
  | link {i : Nat} {x : α} (hget : get i = some x) (hlt : link x < i)
      (hlink : Descends get link (link x)) : Descends get link i

/-- What lies above a key is not met from there. -/
theorem Descends.congr (h : Descends get link i) (hget : ∀ j ≤ i, get' j = get j) :
    Descends get' link i := by
  induction h with
  | zero => exact .zero
  | link hx hlt hlink ih =>
      refine .link ((hget _ (Nat.le_refl _)).trans hx) hlt (ih fun j hj => ?_)
      exact hget j (Nat.le_trans hj (Nat.le_of_lt hlt))

/-- A new entry above the others that links to the first of them. -/
theorem Descends.push (h : Descends get link i) (hget : ∀ k, k ≠ j → get' k = get k)
    (hx : get' j = some x) (hlink : link x = i) (hlt : i < j) : Descends get' link j := by
  subst hlink
  exact .link hx hlt (h.congr fun k hk => hget k (by omega))

variable {β : Type} {value : α → β} {before : β} {f f' : Nat → β} {n : Nat}

/-- The entries met from `i` on recount `f` up to `n`: each entry has its value until the next one,
and before the first one the value is `before`. -/
inductive Recounts (get : Nat → Option α) (link : α → Nat) (value : α → β) (before : β)
    (f : Nat → β) : Nat → Nat → Prop
  | zero {n : Nat} (hnone : ∀ j ≤ n, get j = none) (hf : ∀ j ≤ n, f j = before) :
      Recounts get link value before f 0 n
  | link {i n : Nat} {x : α} (hget : get i = some x) (hlt : link x < i) (hle : i ≤ n)
      (hgap : ∀ j, i < j → j ≤ n → get j = none) (hf : ∀ j, i ≤ j → j ≤ n → f j = value x)
      (hlink : Recounts get link value before f (link x) (i - 1)) :
      Recounts get link value before f i n

/-- What happens later is not recounted. -/
theorem Recounts.congr (h : Recounts get link value before f i n)
    (hget : ∀ j ≤ n, get' j = get j) (hf : ∀ j ≤ n, f' j = f j) :
    Recounts get' link value before f' i n := by
  induction h with
  | zero hnone hbefore =>
      exact .zero (fun j hj => (hget j hj).trans (hnone j hj))
        fun j hj => (hf j hj).trans (hbefore j hj)
  | link hx hlt hle hgap hvalue hlink ih =>
      refine .link ((hget _ hle).trans hx) hlt hle
        (fun j hij hj => (hget j hj).trans (hgap j hij hj))
        (fun j hij hj => (hf j hj).trans (hvalue j hij hj)) (ih ?_ ?_)
      · exact fun j hj => hget j (by omega)
      · exact fun j hj => hf j (by omega)

/-- While nothing changes there is no entry. -/
theorem Recounts.extend (h : Recounts get link value before f i n) (hget : get (n + 1) = none)
    (hf : f (n + 1) = f n) : Recounts get link value before f i (n + 1) := by
  cases h with
  | zero hnone hbefore =>
      refine .zero (fun j hj => ?_) fun j hj => ?_
      · rcases Nat.le_succ_iff.mp hj with hj | rfl
        · exact hnone j hj
        · exact hget
      · rcases Nat.le_succ_iff.mp hj with hj | rfl
        · exact hbefore j hj
        · exact hf.trans (hbefore n (Nat.le_refl n))
  | link hx hlt hle hgap hvalue hlink =>
      refine .link hx hlt (by omega) (fun j hij hj => ?_) (fun j hij hj => ?_) hlink
      · rcases Nat.le_succ_iff.mp hj with hj | rfl
        · exact hgap j hij hj
        · exact hget
      · rcases Nat.le_succ_iff.mp hj with hj | rfl
        · exact hvalue j hij hj
        · exact hf.trans (hvalue n hle (Nat.le_refl n))

/-- A change makes an entry that links to the one before. -/
theorem Recounts.push (h : Recounts get link value before f i n) (hget : get (n + 1) = some x)
    (hlink : link x = i) (hlt : i ≤ n) (hf : f (n + 1) = value x) :
    Recounts get link value before f (n + 1) (n + 1) := by
  subst hlink
  refine .link hget (by omega) (Nat.le_refl _) (fun j hj hj' => absurd hj (by omega))
    (fun j hj hj' => ?_) h
  rwa [show j = n + 1 by omega]

/-- An entry that is met is the first one or met from the first one on. -/
theorem Recounts.entry (h : Recounts get link value before f i n) {j : Nat} {y : α}
    (hj : j ≤ n) (hy : get j = some y) : j ≤ i := by
  cases h with
  | zero hnone _ =>
      rw [hnone j hj] at hy
      cases hy
  | link _ _ _ hgap _ _ =>
      rcases Nat.lt_or_ge i j with hlt | hle
      · rw [hgap j hlt hj] at hy
        cases hy
      · exact hle

/-- The function has the value of an entry where the entry is. -/
theorem Recounts.value_eq (h : Recounts get link value before f i n) {j : Nat} {y : α}
    (hj : j ≤ n) (hy : get j = some y) : f j = value y := by
  induction h with
  | zero hnone _ =>
      rw [hnone j hj] at hy
      cases hy
  | @link i n x hget _ hle hgap hf _ ih =>
      rcases Nat.lt_trichotomy j i with hlow | rfl | hhigh
      · exact ih (by omega)
      · rw [hf j (Nat.le_refl j) hle, Option.some.inj (hget.symm.trans hy)]
      · rw [hgap j hhigh hj] at hy
        cases hy

end Vsys.Lib
