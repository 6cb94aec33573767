import Vsys.Lib.Outcome

/-!
# Computations that change a state and may fail

An `Action` runs on a state and returns an outcome together with the state it leaves.  A failure
does not undo the changes made before it.  What an action keeps, whatever its outcome, composes.
-/

namespace Vsys.Lib

/-- A computation on a state `σ` that may fail with an `ε`. -/
def Action (ε σ α : Type) := σ → Except ε α × σ

namespace Action

variable {ε σ τ α β : Type}

instance : Monad (Action ε σ) where
  pure a := fun s => (.ok a, s)
  bind x f := fun s =>
    match x s with
    | (.ok a, s') => f a s'
    | (.error e, s') => (.error e, s')

/-- The state. -/
def get : Action ε σ σ := fun s => (.ok s, s)

/-- Changes the state. -/
def modify (f : σ → σ) : Action ε σ Unit := fun s => (.ok (), f s)

/-- The outcome of a computation that leaves the state alone. -/
def ofExcept (r : Except ε α) : Action ε σ α := fun s => (r, s)

/-- Runs an action on a part of the state. -/
def onPart (part : σ → τ) (update : σ → τ → σ) (x : Action ε τ α) : Action ε σ α := fun s =>
  ((x (part s)).1, update s (x (part s)).2)

/-- Runs an action for every element of a list. -/
def forEach (f : α → Action ε σ Unit) : List α → Action ε σ Unit
  | [] => pure ()
  | a :: l => do
      f a
      forEach f l

/-- A result by itself leaves the state. -/
@[simp]
theorem pure_apply (a : α) (s : σ) : (pure a : Action ε σ α) s = (.ok a, s) := rfl

/-- Reading the state answers it and leaves it. -/
@[simp]
theorem get_apply (s : σ) : (get : Action ε σ σ) s = (.ok s, s) := rfl

/-- A change of the state answers nothing but that it is done. -/
@[simp]
theorem modify_apply (f : σ → σ) (s : σ) : (modify f : Action ε σ Unit) s = (.ok (), f s) := rfl

/-- A given outcome leaves the state. -/
@[simp]
theorem ofExcept_apply (r : Except ε α) (s : σ) : (ofExcept r : Action ε σ α) s = (r, s) := rfl

/-- A sequence runs its second part in the state the first leaves, unless the first fails. -/
theorem bind_apply (x : Action ε σ α) (f : α → Action ε σ β) (s : σ) :
    (x >>= f) s = match x s with
      | (.ok a, s') => f a s'
      | (.error e, s') => (.error e, s') := rfl

/-- After a first part that succeeds, a sequence does what its second part does. -/
theorem bind_of_ok {x : Action ε σ α} {f : α → Action ε σ β} {s s' : σ} {a : α}
    (h : x s = (.ok a, s')) : (x >>= f) s = f a s' := by
  rw [bind_apply, h]

/-- After a first part that fails, a sequence fails with the same error and the same state. -/
theorem bind_of_error {x : Action ε σ α} {f : α → Action ε σ β} {s s' : σ} {e : ε}
    (h : x s = (.error e, s')) : (x >>= f) s = (.error e, s') := by
  rw [bind_apply, h]

/-- A sequence ends in the failure of its first action, or runs on from where that has left it. -/
theorem bind_cases {x : Action ε σ α} {f : α → Action ε σ β} {s s' : σ} {r : Except ε β}
    (h : (x >>= f) s = (r, s')) :
    (∃ e, x s = (.error e, s') ∧ r = .error e) ∨ ∃ a u, x s = (.ok a, u) ∧ f a u = (r, s') := by
  rw [bind_apply] at h
  match hx : x s with
  | (.error e, u) =>
      rw [hx] at h
      obtain ⟨rfl, rfl⟩ := Prod.mk.inj h
      exact .inl ⟨e, rfl, rfl⟩
  | (.ok a, u) =>
      rw [hx] at h
      exact .inr ⟨a, u, rfl, h⟩

/-- A sequence that succeeds is a first action that succeeds and a rest that does. -/
theorem bind_eq_ok_iff {x : Action ε σ α} {f : α → Action ε σ β} {s s' : σ} {b : β} :
    (x >>= f) s = (.ok b, s') ↔ ∃ a u, x s = (.ok a, u) ∧ f a u = (.ok b, s') := by
  rw [bind_apply]
  cases h : x s with
  | mk r u =>
      cases r with
      | error e => simp
      | ok a => simp

/-- A sequence that fails does so in its first action or in its rest. -/
theorem bind_eq_error_iff {x : Action ε σ α} {f : α → Action ε σ β} {s s' : σ} {e : ε} :
    (x >>= f) s = (.error e, s') ↔
      x s = (.error e, s') ∨ ∃ a u, x s = (.ok a, u) ∧ f a u = (.error e, s') := by
  rw [bind_apply]
  cases h : x s with
  | mk r u =>
      cases r with
      | error e => simp
      | ok a => simp

/-- `x` keeps `I`, whatever its outcome. -/
def Keeps (I : σ → Prop) (x : Action ε σ α) : Prop := ∀ s, I s → I (x s).2

/-- A result by itself keeps every property of the state. -/
theorem Keeps.pure {I : σ → Prop} (a : α) : Keeps I (pure a : Action ε σ α) := fun _ h => h

/-- Reading the state keeps every property of it. -/
theorem Keeps.get {I : σ → Prop} : Keeps I (get : Action ε σ σ) := fun _ h => h

/-- A given outcome keeps every property of the state. -/
theorem Keeps.ofExcept {I : σ → Prop} (r : Except ε α) : Keeps I (ofExcept r) := fun _ h => h

/-- A change of the state keeps a property that its function keeps. -/
theorem Keeps.modify {I : σ → Prop} {f : σ → σ} (h : ∀ s, I s → I (f s)) :
    Keeps I (modify f : Action ε σ Unit) := h

/-- A sequence keeps what both of its parts keep. -/
theorem Keeps.bind {I : σ → Prop} {x : Action ε σ α} {f : α → Action ε σ β} (hx : Keeps I x)
    (hf : ∀ a, Keeps I (f a)) : Keeps I (x >>= f) := by
  intro s hs
  have hu := hx s hs
  rw [bind_apply]
  match h : x s with
  | (.error e, u) => rw [h] at hu; exact hu
  | (.ok a, u) => rw [h] at hu; exact hf a u hu

/-- A step that looks at the state keeps `I` when it does after a look at any state with `I`. -/
theorem Keeps.get_bind {I : σ → Prop} {f : σ → Action ε σ β} (h : ∀ s, I s → Keeps I (f s)) :
    Keeps I (Action.get >>= f) := fun s hs => h s hs s hs

/-- A loop keeps what each of its turns keeps. -/
theorem Keeps.forEach {I : σ → Prop} {f : α → Action ε σ Unit} {l : List α}
    (h : ∀ a ∈ l, Keeps I (f a)) : Keeps I (forEach f l) := by
  induction l with
  | nil => exact Keeps.pure ()
  | cons a l ih =>
      exact (h a List.mem_cons_self).bind fun _ =>
        ih fun b hb => h b (List.mem_cons_of_mem a hb)

/-- A step that depends on an outcome keeps `I` when it does for every value the outcome has. -/
theorem Keeps.ofExcept_bind {I : σ → Prop} {r : Except ε α} {f : α → Action ε σ β}
    (h : ∀ a, r = .ok a → Keeps I (f a)) : Keeps I (Action.ofExcept r >>= f) := by
  intro s hs
  rw [bind_apply, ofExcept_apply]
  cases r with
  | error e => exact hs
  | ok a => exact h a rfl s hs

/-- A successful run over a list is a successful action for its head and a successful run over its
tail. -/
theorem forEach_cons_eq_ok_iff {f : α → Action ε σ Unit} {a : α} {l : List α} {s s' : σ} :
    forEach f (a :: l) s = (.ok (), s') ↔
      ∃ u, f a s = (.ok (), u) ∧ forEach f l u = (.ok (), s') := by
  rw [forEach, bind_eq_ok_iff]
  constructor
  · rintro ⟨⟨⟩, u, hu, hl⟩
    exact ⟨u, hu, hl⟩
  · rintro ⟨u, hu, hl⟩
    exact ⟨(), u, hu, hl⟩

/-- A run over a list that fails does so at an element, after a successful run over those before
it. -/
theorem forEach_eq_error {f : α → Action ε σ Unit} {l : List α} {s s' : σ} {e : ε}
    (h : forEach f l s = (.error e, s')) :
    ∃ done a rest u, l = done ++ a :: rest ∧ forEach f done s = (.ok (), u) ∧
      f a u = (.error e, s') := by
  induction l generalizing s with
  | nil =>
      rw [forEach, pure_apply] at h
      cases h
  | cons a l ih =>
      rw [forEach] at h
      obtain hfirst | ⟨⟨⟩, u, hu, hrest⟩ := bind_eq_error_iff.mp h
      · exact ⟨[], a, l, s, rfl, rfl, hfirst⟩
      · obtain ⟨done, b, rest, v, rfl, hdone, hb⟩ := ih hrest
        exact ⟨a :: done, b, rest, v, rfl, forEach_cons_eq_ok_iff.mpr ⟨u, hu, hdone⟩, hb⟩

/-- An action on a part of the state changes that part and answers as it does. -/
@[simp]
theorem onPart_apply (part : σ → τ) (update : σ → τ → σ) (x : Action ε τ α) (s : σ) :
    onPart part update x s = ((x (part s)).1, update s (x (part s)).2) := rfl

/-- `x` fails with no `bad` error. -/
def Avoids (bad : ε → Prop) (x : Action ε σ α) : Prop := ∀ s e s', x s = (.error e, s') → ¬ bad e

variable {bad : ε → Prop}

/-- A result by itself is no bad error. -/
theorem Avoids.pure (a : α) : Avoids bad (pure a : Action ε σ α) := fun _ _ _ h => by
  rw [pure_apply] at h
  cases h

/-- Reading the state raises nothing. -/
theorem Avoids.get : Avoids bad (get : Action ε σ σ) := fun _ _ _ h => by
  rw [get_apply] at h
  cases h

/-- A change of the state raises nothing. -/
theorem Avoids.modify (f : σ → σ) : Avoids bad (modify f : Action ε σ Unit) := fun _ _ _ h => by
  rw [modify_apply] at h
  cases h

/-- A given outcome that is not bad avoids the bad errors. -/
theorem Avoids.ofExcept {r : Except ε α} (h : ∀ e, r = .error e → ¬ bad e) :
    Avoids bad (ofExcept r : Action ε σ α) := fun _ e _ hr => h e (congrArg Prod.fst hr)

/-- An action avoids on a part of the state what it avoids by itself. -/
theorem Avoids.onPart {part : σ → τ} {update : σ → τ → σ} {x : Action ε τ α} (hx : Avoids bad x) :
    Avoids bad (onPart part update x) := by
  intro s e s' h
  rw [onPart_apply] at h
  obtain ⟨h, -⟩ := Prod.mk.inj h
  exact hx (part s) e (x (part s)).2 (Prod.ext h rfl)

/-- A sequence avoids what both of its parts avoid. -/
theorem Avoids.bind {x : Action ε σ α} {f : α → Action ε σ β} (hx : Avoids bad x)
    (hf : ∀ a, Avoids bad (f a)) : Avoids bad (x >>= f) := by
  intro s e s' h
  obtain hfirst | ⟨a, u, -, hrest⟩ := bind_eq_error_iff.mp h
  · exact hx s e s' hfirst
  · exact hf a u e s' hrest

/-- A loop avoids what each of its turns avoids. -/
theorem Avoids.forEach {f : α → Action ε σ Unit} {l : List α} (h : ∀ a ∈ l, Avoids bad (f a)) :
    Avoids bad (forEach f l) := by
  induction l with
  | nil => exact Avoids.pure ()
  | cons a l ih =>
      exact (h a List.mem_cons_self).bind fun _ => ih fun b hb => h b (List.mem_cons_of_mem a hb)

section Agree

variable {R : σ → τ → Prop}

/-- On related states two actions have the same outcome, and leave related states. -/
def Agree (R : σ → τ → Prop) (x : Action ε σ α) (y : Action ε τ α) : Prop :=
  ∀ s t, R s t → (x s).1 = (y t).1 ∧ R (x s).2 (y t).2

/-- The same result in two related states answers the same and leaves them related. -/
theorem Agree.pure (a : α) : Agree R (pure a : Action ε σ α) (pure a) := fun _ _ h => ⟨rfl, h⟩

/-- The same outcome in two related states answers the same and leaves them related. -/
theorem Agree.ofExcept (r : Except ε α) : Agree R (ofExcept r) (ofExcept r) := fun _ _ h => ⟨rfl, h⟩

/-- Two changes that keep states related agree. -/
theorem Agree.modify {f : σ → σ} {g : τ → τ} (h : ∀ s t, R s t → R (f s) (g t)) :
    Agree R (modify f : Action ε σ Unit) (modify g) := fun s t hst => ⟨rfl, h s t hst⟩

/-- Sequences whose parts agree agree. -/
theorem Agree.bind {x : Action ε σ α} {y : Action ε τ α} {f : α → Action ε σ β}
    {g : α → Action ε τ β} (hx : Agree R x y) (hf : ∀ a, Agree R (f a) (g a)) :
    Agree R (x >>= f) (y >>= g) := by
  intro s t hst
  obtain ⟨houtcome, hnext⟩ := hx s t hst
  rw [bind_apply, bind_apply]
  generalize x s = run at houtcome hnext ⊢
  generalize y t = run' at houtcome hnext ⊢
  obtain ⟨r, s'⟩ := run
  obtain ⟨r', t'⟩ := run'
  obtain rfl : r = r' := houtcome
  cases r with
  | error e => exact ⟨rfl, hnext⟩
  | ok a => exact hf a s' t' hnext

/-- What follows may look at the two states. -/
theorem Agree.get_bind {f : σ → Action ε σ β} {g : τ → Action ε τ β}
    (h : ∀ s t, R s t → Agree R (f s) (g t)) : Agree R (get >>= f) (get >>= g) :=
  fun s t hst => h s t hst s t hst

/-- Loops whose turns agree agree. -/
theorem Agree.forEach {f : α → Action ε σ Unit} {g : α → Action ε τ Unit} {l : List α}
    (h : ∀ a ∈ l, Agree R (f a) (g a)) : Agree R (forEach f l) (forEach g l) := by
  induction l with
  | nil => exact Agree.pure ()
  | cons a l ih =>
      exact (h a List.mem_cons_self).bind fun _ => ih fun b hb => h b (List.mem_cons_of_mem a hb)

end Agree

end Action

end Vsys.Lib
