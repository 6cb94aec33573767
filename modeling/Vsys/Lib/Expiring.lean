import Vsys.Lib.Dict

/-!
# Records that expire

A map holds for each key the time of its latest record.  It is pruned now and then of records that
are older than some instant.  Such a map *tracks* the full map, from which nothing was ever dropped:
they differ only in records that have expired.
-/

namespace Vsys.Lib

namespace Dict

variable {K : Type} [DecidableEq K] {full m : Dict K Int} {earliest later : Int}

/-- The records that are not older than `earliest`. -/
def prune (earliest : Int) (m : Dict K Int) : Dict K Int := filterValues (earliest ≤ ·) m

/-- `m` has the records of `full`, but for some that are older than `earliest`. -/
def Tracks (earliest : Int) (full m : Dict K Int) : Prop :=
  ∀ k, m.lookup k = full.lookup k ∨ m.lookup k = none ∧ ∀ t, full.lookup k = some t → t < earliest

theorem lookup_prune (k : K) :
    (prune earliest m).lookup k = (m.lookup k).filter (earliest ≤ ·) :=
  lookup_filterValues _ _ _

theorem lookup_prune_eq_some {k : K} {t : Int} :
    (prune earliest m).lookup k = some t ↔ m.lookup k = some t ∧ earliest ≤ t := by
  rw [lookup_prune, Option.filter_eq_some_iff, decide_eq_true_eq]

theorem tracks_refl : Tracks earliest m m := fun _ => .inl rfl

theorem Tracks.trans {mid : Dict K Int} (h : Tracks earliest full mid)
    (hm : Tracks earliest mid m) : Tracks earliest full m := by
  intro k
  obtain hsame | ⟨hnone, hold⟩ := hm k
  · rw [hsame]
    exact h k
  · obtain hmid | ⟨-, hfull⟩ := h k
    · exact .inr ⟨hnone, fun t ht => hold t (hmid.trans ht)⟩
    · exact .inr ⟨hnone, hfull⟩

/-- A record that is live is not dropped. -/
theorem Tracks.lookup_of_le (h : Tracks earliest full m) {k : K} {t : Int}
    (hfull : full.lookup k = some t) (ht : earliest ≤ t) : m.lookup k = some t := by
  obtain hsame | ⟨-, hold⟩ := h k
  · exact hsame.trans hfull
  · exact absurd (hold t hfull) (not_lt.mpr ht)

/-- What has expired stays so. -/
theorem Tracks.mono (h : Tracks earliest full m) (hle : earliest ≤ later) :
    Tracks later full m := by
  intro k
  obtain hsame | ⟨hnone, hold⟩ := h k
  · exact .inl hsame
  · exact .inr ⟨hnone, fun t ht => (hold t ht).trans_le hle⟩

/-- The two maps agree on the records that are live. -/
theorem Tracks.prune_eq (h : Tracks earliest full m) : prune earliest m = prune earliest full := by
  refine Finmap.ext_lookup fun k => ?_
  rw [lookup_prune, lookup_prune]
  obtain hsame | ⟨hnone, hold⟩ := h k
  · rw [hsame]
  · rw [hnone]
    cases hfull : full.lookup k with
    | none => rfl
    | some t =>
        have ht : t < earliest := hold t hfull
        exact (Option.filter_some_neg (by simpa using ht)).symm

/-- Records may be dropped at an instant at which those still live are younger. -/
theorem Tracks.prune_of_forall (h : Tracks earliest full m) {cutoff : Int}
    (hlive : ∀ k t, m.lookup k = some t → earliest ≤ t → cutoff ≤ t) :
    Tracks earliest full (prune cutoff m) := by
  intro k
  obtain hsame | ⟨hnone, hold⟩ := h k
  · cases hm : m.lookup k with
    | none => exact .inl (by rw [lookup_prune, ← hsame, hm]; rfl)
    | some t =>
        rw [hm] at hsame
        by_cases ht : cutoff ≤ t
        · exact .inl ((lookup_prune_eq_some.mpr ⟨hm, ht⟩).trans hsame)
        · refine .inr ⟨?_, fun t' ht' => ?_⟩
          · rw [lookup_prune, hm]
            exact Option.filter_some_neg (by simpa using ht)
          · obtain rfl := Option.some.inj (ht'.symm.trans hsame.symm)
            exact not_le.mp fun hle => ht (hlive k t' hm hle)
  · exact .inr ⟨by rw [lookup_prune, hnone]; rfl, hold⟩

/-- Pruning what has expired leaves a map that tracks. -/
theorem Tracks.prune (h : Tracks earliest full m) : Tracks earliest full (prune earliest m) :=
  h.prune_of_forall fun _ _ _ ht => ht

/-- A new record replaces the one of its key in both maps. -/
theorem Tracks.insert (h : Tracks earliest full m) (k : K) (t : Int) :
    Tracks earliest (full.insert k t) (m.insert k t) := by
  intro k'
  rw [lookup_insert_eq, lookup_insert_eq]
  split
  · exact .inl rfl
  · exact h k'

end Dict

end Vsys.Lib
