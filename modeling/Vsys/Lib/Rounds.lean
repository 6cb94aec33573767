import Mathlib.Order.Bounds.Basic
import Mathlib.Tactic.Ring

/-!
# Rounds of windows

Time is cut into windows of one width, and the windows go round a number of slots.  From an instant
on, the next window of a slot starts after the rest of a round.
-/

namespace Vsys.Lib.Rounds

/-- The slot whose window an instant is in. -/
def slotAt (width slots t : Int) : Int := t / width % slots

/-- A window of the slot starts at the instant. -/
def StartsAt (width slots slot t : Int) : Prop := ∃ k, t = k * width ∧ k % slots = slot

/-- How long it takes from an instant until a window of the slot starts. -/
def wait (width slots slot t : Int) : Int :=
  (slot * width + slots * width - t % (slots * width)) % (slots * width)

variable {width slots slot t u : Int}

/-- A window of a slot starts at one place of a round. -/
theorem startsAt_iff (hwidth : 0 < width) (hslot : 0 ≤ slot) (hlt : slot < slots) :
    StartsAt width slots slot t ↔ t % (slots * width) = slot * width := by
  have hplace : slot * width < slots * width := Int.mul_lt_mul_of_pos_right hlt hwidth
  have hnonneg : 0 ≤ slot * width := Int.mul_nonneg hslot hwidth.le
  constructor
  · rintro ⟨k, rfl, hk⟩
    have hsplit : k * width = slot * width + slots * width * (k / slots) := by
      rw [← hk]
      calc k * width = (k % slots + slots * (k / slots)) * width := by rw [Int.emod_add_mul_ediv]
        _ = k % slots * width + slots * width * (k / slots) := by ring
    rw [hsplit, Int.add_mul_emod_self_left, Int.emod_eq_of_lt hnonneg hplace]
  · intro h
    refine ⟨slot + slots * (t / (slots * width)), ?_, ?_⟩
    · calc t = t % (slots * width) + slots * width * (t / (slots * width)) :=
            (Int.emod_add_mul_ediv _ _).symm
        _ = (slot + slots * (t / (slots * width))) * width := by rw [h]; ring
    · rw [Int.add_mul_emod_self_left, Int.emod_eq_of_lt hslot hlt]

/-- The instant a window starts at is in that window. -/
theorem StartsAt.slotAt_eq (hwidth : 0 < width) (h : StartsAt width slots slot t) :
    slotAt width slots t = slot := by
  obtain ⟨k, rfl, hk⟩ := h
  rw [slotAt, Int.mul_ediv_cancel _ hwidth.ne', hk]

theorem wait_nonneg (hround : 0 < slots * width) : 0 ≤ wait width slots slot t :=
  Int.emod_nonneg _ hround.ne'

theorem wait_lt (hround : 0 < slots * width) : wait width slots slot t < slots * width :=
  Int.emod_lt_of_pos _ hround

/-- The wait is what is missing to the place of the slot. -/
theorem emod_sub_eq_wait : (slot * width - t) % (slots * width) = wait width slots slot t := by
  rw [wait, Int.sub_emod_emod, show slot * width + slots * width - t
    = slot * width - t + slots * width by ring, Int.add_emod_right]

/-- A window of the slot starts after the wait, and none before. -/
theorem isLeast_wait (hwidth : 0 < width) (hslot : 0 ≤ slot) (hlt : slot < slots) :
    IsLeast {u | t ≤ u ∧ StartsAt width slots slot u} (t + wait width slots slot t) := by
  have hround : 0 < slots * width := Int.mul_pos (by omega) hwidth
  have hplace : slot * width % (slots * width) = slot * width :=
    Int.emod_eq_of_lt (Int.mul_nonneg hslot hwidth.le) (Int.mul_lt_mul_of_pos_right hlt hwidth)
  constructor
  · have hwait : 0 ≤ wait width slots slot t := wait_nonneg hround
    refine ⟨by omega, ?_⟩
    rw [startsAt_iff hwidth hslot hlt, ← emod_sub_eq_wait, Int.add_emod_emod,
      show t + (slot * width - t) = slot * width by ring, hplace]
  · rintro u ⟨hle, hstart⟩
    rw [startsAt_iff hwidth hslot hlt] at hstart
    -- the instants of the slot are whole rounds apart
    have hwait : wait width slots slot t = (u - t) % (slots * width) := by
      rw [← emod_sub_eq_wait, ← hstart, Int.emod_sub_emod]
    have hsplit := Int.emod_add_mul_ediv (u - t) (slots * width)
    have hrest : 0 ≤ slots * width * ((u - t) / (slots * width)) :=
      Int.mul_nonneg hround.le (Int.ediv_nonneg (by omega) hround.le)
    omega

end Vsys.Lib.Rounds
