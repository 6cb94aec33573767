import Mathlib.Data.List.Infix

/-!
# Machines that answer every input

A step takes a state and an input to the next state and to what is sent out.  Runs over a list of
inputs, conditions that every step of a run meets, and the rules that carry an invariant from one
step to all states of a run.
-/

namespace Vsys.Lib.Transducer

variable {σ ι ο : Type}

/-- The state after some inputs. -/
def after (step : σ → ι → σ × List ο) : σ → List ι → σ
  | s, [] => s
  | s, i :: l => after step (step s i).1 l

/-- What is sent out for some inputs. -/
def emitted (step : σ → ι → σ × List ο) : σ → List ι → List ο
  | _, [] => []
  | s, i :: l => (step s i).2 ++ emitted step (step s i).1 l

/-- Every step of a run meets `Q`, which sees the state before it and its input. -/
def Along (step : σ → ι → σ × List ο) (Q : σ → ι → Prop) : σ → List ι → Prop
  | _, [] => True
  | s, i :: l => Q s i ∧ Along step Q (step s i).1 l

/-- A run can be checked step by step. -/
instance decidableAlong (step : σ → ι → σ × List ο) (Q : σ → ι → Prop)
    [∀ s i, Decidable (Q s i)] : (s : σ) → (l : List ι) → Decidable (Along step Q s l)
  | _, [] => inferInstanceAs (Decidable True)
  | s, i :: l =>
      have := decidableAlong step Q (step s i).1 l
      inferInstanceAs (Decidable (Q s i ∧ Along step Q (step s i).1 l))

variable {step : σ → ι → σ × List ο} {Q R : σ → ι → Prop} {I : σ → Prop} {s : σ} {i : ι}
  {l l' : List ι}

@[simp]
theorem after_nil : after step s [] = s := rfl

@[simp]
theorem after_cons : after step s (i :: l) = after step (step s i).1 l := rfl

@[simp]
theorem emitted_nil : emitted step s [] = [] := rfl

@[simp]
theorem emitted_cons :
    emitted step s (i :: l) = (step s i).2 ++ emitted step (step s i).1 l := rfl

@[simp]
theorem along_nil : Along step Q s [] := trivial

@[simp]
theorem along_cons : Along step Q s (i :: l) ↔ Q s i ∧ Along step Q (step s i).1 l := Iff.rfl

/-- Every run meets a condition that always holds. -/
theorem along_of_forall (h : ∀ s i, Q s i) : Along step Q s l := by
  induction l generalizing s with
  | nil => trivial
  | cons i l ih => exact ⟨h s i, ih⟩

theorem after_append : after step s (l ++ l') = after step (after step s l) l' := by
  induction l generalizing s with
  | nil => rfl
  | cons i l ih => exact ih

theorem emitted_append :
    emitted step s (l ++ l') = emitted step s l ++ emitted step (after step s l) l' := by
  induction l generalizing s with
  | nil => rfl
  | cons i l ih =>
      rw [List.cons_append, emitted_cons, emitted_cons, ih, List.append_assoc]
      rfl

theorem along_append :
    Along step Q s (l ++ l') ↔ Along step Q s l ∧ Along step Q (after step s l) l' := by
  induction l generalizing s with
  | nil => simp
  | cons i l ih =>
      rw [List.cons_append, along_cons, along_cons, ih, and_assoc]
      rfl

/-- A run whose steps meet two conditions. -/
theorem along_and : Along step (fun s i => Q s i ∧ R s i) s l ↔
    Along step Q s l ∧ Along step R s l := by
  induction l generalizing s with
  | nil => simp
  | cons i l ih =>
      rw [along_cons, along_cons, along_cons, ih]
      constructor
      · rintro ⟨⟨hq, hr⟩, hqs, hrs⟩
        exact ⟨⟨hq, hqs⟩, hr, hrs⟩
      · rintro ⟨⟨hq, hqs⟩, hr, hrs⟩
        exact ⟨⟨hq, hr⟩, hqs, hrs⟩

/-- An invariant of the steps that meet `Q` holds after a run of such steps. -/
theorem Along.after (hl : Along step Q s l) (hstep : ∀ s i, Q s i → I s → I (step s i).1)
    (hs : I s) : I (after step s l) := by
  induction l generalizing s with
  | nil => exact hs
  | cons i l ih => exact ih hl.2 (hstep s i hl.1 hs)

/-- An invariant of the steps that meet `Q` gives a condition on all steps of a run of them. -/
theorem Along.along (hl : Along step Q s l) (hstep : ∀ s i, Q s i → I s → I (step s i).1)
    (hs : I s) (hR : ∀ s i, Q s i → I s → R s i) : Along step R s l := by
  induction l generalizing s with
  | nil => trivial
  | cons i l ih => exact ⟨hR s i hl.1 hs, ih hl.2 (hstep s i hl.1 hs)⟩

/-- Two conditions that agree at every step of a run agree along it. -/
theorem Along.congr (h : Along step (fun s i => Q s i ↔ R s i) s l) :
    Along step Q s l ↔ Along step R s l := by
  induction l generalizing s with
  | nil => exact Iff.rfl
  | cons i l ih => exact and_congr h.1 (ih h.2)

/-- Two conditions that agree in the states of an invariant agree along a run. -/
theorem along_congr (hstep : ∀ s i, I s → I (step s i).1) (hQR : ∀ s i, I s → (Q s i ↔ R s i))
    (hs : I s) : Along step Q s l ↔ Along step R s l := by
  induction l generalizing s with
  | nil => exact Iff.rfl
  | cons i l ih => exact and_congr (hQR s i hs) (ih (hstep s i hs))

/-- A second machine is fed with what the first one sends out.  If it follows every step of the
first one, it follows its runs. -/
theorem along_emitted {τ κ : Type} {step₂ : τ → ο → τ × List κ} {R₂ : τ → ο → Prop} {g : σ → τ}
    (hstep : ∀ s i, I s → I (step s i).1 ∧ Along step₂ R₂ (g s) (step s i).2 ∧
      Transducer.after step₂ (g s) (step s i).2 = g (step s i).1) (hs : I s) :
    I (Transducer.after step s l) ∧ Along step₂ R₂ (g s) (emitted step s l) ∧
      Transducer.after step₂ (g s) (emitted step s l) = g (Transducer.after step s l) := by
  induction l generalizing s with
  | nil => exact ⟨hs, trivial, rfl⟩
  | cons i l ih =>
      obtain ⟨hnext, halong, hafter⟩ := hstep s i hs
      obtain ⟨hend, hrest, hstate⟩ := ih hnext
      refine ⟨hend, ?_, ?_⟩
      · rw [emitted_cons, along_append, hafter]
        exact ⟨halong, hrest⟩
      · rw [emitted_cons, after_append, hafter]
        exact hstate

/-- What holds in every state of a run holds at its start and after every step. -/
theorem forall_prefix_iff_along {P : σ → Prop} :
    (∀ l', l' <+: l → P (Transducer.after step s l')) ↔
      P s ∧ Along step (fun s i => P (step s i).1) s l := by
  induction l generalizing s with
  | nil =>
      constructor
      · exact fun h => ⟨h [] List.nil_prefix, trivial⟩
      · rintro ⟨hs, -⟩ l' hl'
        rw [List.prefix_nil.mp hl']
        exact hs
  | cons i l ih =>
      constructor
      · intro h
        refine ⟨h [] List.nil_prefix, ih.mp fun l' hl' => ?_⟩
        exact h (i :: l') (List.cons_prefix_cons.mpr ⟨rfl, hl'⟩)
      · rintro ⟨hs, hl⟩ l' hl'
        cases l' with
        | nil => exact hs
        | cons j l' =>
            obtain ⟨rfl, htail⟩ := List.cons_prefix_cons.mp hl'
            exact ih.mpr hl l' htail

/-- When a step keeps `P` exactly if it meets `Q`, `P` holds in every state of a run exactly if all
its steps meet `Q`.  The steps may be known to meet `R`, and its states an invariant of `R`. -/
theorem forall_prefix_iff {P : σ → Prop} (hl : Along step R s l)
    (hI : ∀ s i, R s i → I s → I (step s i).1)
    (hstep : ∀ s i, R s i → I s → P s → (P (step s i).1 ↔ Q s i)) (hs : I s) (hP : P s) :
    (∀ l', l' <+: l → P (Transducer.after step s l')) ↔ Along step Q s l := by
  rw [forall_prefix_iff_along]
  induction l generalizing s with
  | nil => simp [hP]
  | cons i l ih =>
      have hiff := hstep s i hl.1 hs hP
      rw [along_cons, along_cons]
      constructor
      · rintro ⟨-, hkept, hrest⟩
        exact ⟨hiff.mp hkept, (ih hl.2 (hI s i hl.1 hs) hkept).mp ⟨hkept, hrest⟩⟩
      · rintro ⟨hmeets, hrest⟩
        have hkept := hiff.mpr hmeets
        exact ⟨hP, hkept, ((ih hl.2 (hI s i hl.1 hs) hkept).mpr hrest).2⟩

end Vsys.Lib.Transducer
