import Mathlib.Data.List.Basic
import Mathlib.Data.List.Forall2

/-!
# Computations that may fail

Rules for `Except`: how a successful sequence of steps comes apart into its steps, and how an
invariant kept by one successful step is kept by a whole successful fold.
-/

namespace Vsys.Lib

variable {ε α β σ : Type}

/-- Succeeds exactly when `p` holds, and fails with `e` otherwise. -/
def ensure (p : Prop) [Decidable p] (e : ε) : Except ε Unit :=
  if p then .ok () else .error e

@[simp]
theorem ensure_eq_ok_iff {p : Prop} [Decidable p] {e : ε} {u : Unit} :
    ensure p e = .ok u ↔ p := by
  unfold ensure
  split <;> simp_all

theorem ensure_of {p : Prop} [Decidable p] {e : ε} (h : p) : ensure p e = .ok () :=
  if_pos h

theorem ensure_of_not {p : Prop} [Decidable p] {e : ε} (h : ¬ p) : ensure p e = .error e :=
  if_neg h

/-- A successful sequence is a successful first step followed by a successful rest. -/
theorem bind_eq_ok_iff {x : Except ε α} {f : α → Except ε β} {b : β} :
    (x >>= f) = .ok b ↔ ∃ a, x = .ok a ∧ f a = .ok b := by
  cases x with
  | error e => simp [bind, Except.bind]
  | ok a => simp [bind, Except.bind]

theorem map_eq_ok_iff {x : Except ε α} {f : α → β} {b : β} :
    f <$> x = .ok b ↔ ∃ a, x = .ok a ∧ f a = b := by
  cases x with
  | error e => simp [Functor.map, Except.map]
  | ok a => simp [Functor.map, Except.map]

/-- Steps that end in the images of the ends of others make sequences that do. -/
theorem bind_eq_map_bind {γ : Type} {x : Except ε α} {f : α → Except ε β} {g : α → Except ε γ}
    {k : β → γ} (h : ∀ a, g a = k <$> f a) : x >>= g = k <$> (x >>= f) := by
  cases x with
  | error e => rfl
  | ok a => exact h a

@[simp]
theorem ok_bind (a : α) (f : α → Except ε β) : (Except.ok a >>= f) = f a := rfl

@[simp]
theorem error_bind (e : ε) (f : α → Except ε β) : (Except.error e >>= f) = .error e := rfl

@[simp]
theorem pure_eq_ok_iff {a b : α} : (pure a : Except ε α) = .ok b ↔ a = b := by
  simp [pure, Except.pure]

/-- The value of a computation, or `default` when it fails. -/
def okOr (r : Except ε α) (default : α) : α :=
  match r with
  | .ok a => a
  | .error _ => default

theorem eq_ok_okOr {r : Except ε α} {default : α} (h : r.isOk = true) :
    r = .ok (okOr r default) := by
  cases r with
  | ok a => rfl
  | error e => cases h

/-- Folding a list from `s`, one successful step at a time. -/
theorem foldlM_cons_eq_ok_iff {f : σ → α → Except ε σ} {s t : σ} {a : α} {l : List α} :
    (a :: l).foldlM f s = .ok t ↔ ∃ u, f s a = .ok u ∧ l.foldlM f u = .ok t := by
  rw [List.foldlM_cons, bind_eq_ok_iff]

theorem foldlM_append_eq_ok_iff {f : σ → α → Except ε σ} {s t : σ} {l l' : List α} :
    (l ++ l').foldlM f s = .ok t ↔ ∃ u, l.foldlM f s = .ok u ∧ l'.foldlM f u = .ok t := by
  rw [List.foldlM_append, bind_eq_ok_iff]

/-- A traversal whose elements succeed one by one succeeds. -/
theorem mapM_eq_ok_of_forall₂ {f : α → Except ε β} {l : List α} {l' : List β}
    (h : List.Forall₂ (fun a b => f a = .ok b) l l') : l.mapM f = .ok l' := by
  induction h with
  | nil => rfl
  | cons hab _ ih =>
      rw [List.mapM_cons, hab, ok_bind, ih]
      rfl

/-- A traversal succeeds exactly when its elements do one by one. -/
theorem mapM_eq_ok_iff {f : α → Except ε β} {l : List α} {l' : List β} :
    l.mapM f = .ok l' ↔ List.Forall₂ (fun a b => f a = .ok b) l l' := by
  refine ⟨fun h => ?_, mapM_eq_ok_of_forall₂⟩
  induction l generalizing l' with
  | nil =>
      rw [List.mapM_nil, pure_eq_ok_iff] at h
      exact h ▸ .nil
  | cons a l ih =>
      rw [List.mapM_cons] at h
      obtain ⟨b, hb, h⟩ := bind_eq_ok_iff.mp h
      obtain ⟨l'', hl, h⟩ := bind_eq_ok_iff.mp h
      obtain rfl := pure_eq_ok_iff.mp h
      exact .cons hb (ih hl)

/-- A traversal of the numbers below a count. -/
theorem mapM_range_eq_ok_iff {f : Nat → Except ε β} {count : Nat} {l : List β} :
    (List.range count).mapM f = .ok l ↔
      l.length = count ∧ ∀ i b, l[i]? = some b → f i = .ok b := by
  rw [mapM_eq_ok_iff, List.forall₂_iff_get]
  constructor
  · rintro ⟨hlength, hall⟩
    rw [List.length_range] at hlength
    refine ⟨hlength.symm, fun i b hb => ?_⟩
    obtain ⟨hi, rfl⟩ := List.getElem?_eq_some_iff.mp hb
    have hget := hall i (by rw [List.length_range]; omega) hi
    rwa [List.get_eq_getElem, List.getElem_range, List.get_eq_getElem] at hget
  · rintro ⟨hlength, hall⟩
    refine ⟨by rw [List.length_range, hlength], fun i _ hi => ?_⟩
    rw [List.get_eq_getElem, List.getElem_range, List.get_eq_getElem]
    exact hall i _ (List.getElem?_eq_getElem hi)

/-- What every successful step keeps, a successful fold keeps. -/
theorem foldlM_invariant {f : σ → α → Except ε σ} {I : σ → Prop} {l : List α}
    (hstep : ∀ s t a, a ∈ l → I s → f s a = .ok t → I t) {s t : σ}
    (hs : I s) (h : l.foldlM f s = .ok t) : I t := by
  induction l generalizing s with
  | nil =>
      rw [List.foldlM_nil, pure_eq_ok_iff] at h
      exact h ▸ hs
  | cons a l ih =>
      obtain ⟨u, ha, hl⟩ := foldlM_cons_eq_ok_iff.mp h
      exact ih (fun s t b hb => hstep s t b (List.mem_cons_of_mem a hb))
        (hstep s u a List.mem_cons_self hs ha) hl

/-- A fold that follows another, converted, at the steps where `P` holds and fails at the others. -/
theorem foldlM_follows_iff {f g : σ → α → Except ε σ} {conv : σ → σ}
    {P : σ → α → Prop}
    (hstep : ∀ s a t, f s a = .ok t → (P s a → g (conv s) a = .ok (conv t)) ∧
      (¬ P s a → ∀ u, g (conv s) a ≠ .ok u)) {l : List α} {s t u : σ} (h : l.foldlM f s = .ok t) :
    l.foldlM g (conv s) = .ok u ↔ u = conv t ∧ ∀ before a after v, l = before ++ a :: after →
      before.foldlM f s = .ok v → P v a := by
  induction l generalizing s with
  | nil =>
      obtain rfl := Except.ok.inj h
      rw [List.foldlM_nil, pure_eq_ok_iff, eq_comm, iff_self_and]
      intro _ before a after v hl
      exact absurd hl.symm (List.append_ne_nil_of_right_ne_nil before (List.cons_ne_nil a after))
  | cons a l ih =>
      obtain ⟨w, ha, hl⟩ := foldlM_cons_eq_ok_iff.mp h
      by_cases hP : P s a
      · rw [List.foldlM_cons, (hstep s a w ha).1 hP, ok_bind, ih hl]
        refine and_congr_right fun _ => ⟨fun hall before b after v hsplit hbefore => ?_,
          fun hall before b after v hsplit hbefore => ?_⟩
        · cases before with
          | nil =>
              obtain ⟨rfl, rfl⟩ := List.cons.inj hsplit
              obtain rfl := Except.ok.inj hbefore
              exact hP
          | cons b' before =>
              obtain ⟨rfl, rfl⟩ := List.cons.inj hsplit
              obtain ⟨w', ha', hbefore⟩ := foldlM_cons_eq_ok_iff.mp hbefore
              obtain rfl := Except.ok.inj (ha.symm.trans ha')
              exact hall before b after v rfl hbefore
        · exact hall (a :: before) b after v (by rw [hsplit]; rfl)
            (foldlM_cons_eq_ok_iff.mpr ⟨w, ha, hbefore⟩)
      · refine iff_of_false (fun hg => ?_) fun hall => hP (hall.2 [] a l s rfl rfl)
        obtain ⟨w', ha', -⟩ := foldlM_cons_eq_ok_iff.mp hg
        exact (hstep s a w ha).2 hP w' ha'

end Vsys.Lib
