import Mathlib.Algebra.Order.Ring.Int
import Mathlib.Algebra.BigOperators.Group.List.Basic
import Mathlib.Tactic.NormNum

/-!
# Signed 64-bit words

Addition, subtraction and negation of `Int64` wrap.  A computation is *exact* when its value over
`Int` is in range, and then it commutes with `Int64.toInt`; this file states that once for each
operation, in the form `omega` can use.  `addExact` and its kin are the checked operations, which
fail where the wrapping ones would wrap.
-/

namespace Vsys.Lib

/-- The integers a signed 64-bit word can hold. -/
def InWord (n : Int) : Prop := -9223372036854775808 ≤ n ∧ n ≤ 9223372036854775807

instance (n : Int) : Decidable (InWord n) := inferInstanceAs (Decidable (_ ∧ _))

/-- The value of a word is in the range of words. -/
theorem inWord_toInt (x : Int64) : InWord x.toInt :=
  ⟨by have := x.le_toInt; omega, by have := x.toInt_lt; omega⟩

/-- An integer in the range of words is the value of its word. -/
theorem toInt_ofInt_inWord {n : Int} (h : InWord n) : (Int64.ofInt n).toInt = n :=
  Int64.toInt_ofInt_of_le (by unfold InWord at h; omega) (by unfold InWord at h; omega)

/-- A sum in the range of words does not wrap. -/
theorem toInt_add_exact {x y : Int64} (h : InWord (x.toInt + y.toInt)) :
    (x + y).toInt = x.toInt + y.toInt := by
  unfold InWord at h
  rw [Int64.toInt_add, Int.bmod_def]
  omega

/-- A difference in the range of words does not wrap. -/
theorem toInt_sub_exact {x y : Int64} (h : InWord (x.toInt - y.toInt)) :
    (x - y).toInt = x.toInt - y.toInt := by
  unfold InWord at h
  rw [Int64.toInt_sub, Int.bmod_def]
  omega

/-- A negation in the range of words does not wrap. -/
theorem toInt_neg_exact {x : Int64} (h : InWord (-x.toInt)) : (-x).toInt = -x.toInt := by
  unfold InWord at h
  rw [Int64.toInt_neg, Int.bmod_def]
  omega

/-- The negation of a word that is not negative does not wrap. -/
theorem toInt_neg_of_nonneg {x : Int64} (h : 0 ≤ x) : (-x).toInt = -x.toInt := by
  have hx := Int64.le_iff_toInt_le.mp h
  have hword := inWord_toInt x
  have hzero : (0 : Int64).toInt = 0 := rfl
  apply toInt_neg_exact
  unfold InWord at hword ⊢
  omega

/-- The maximum of two words has the maximum of their values. -/
theorem toInt_max (x y : Int64) : (max x y).toInt = max x.toInt y.toInt := by
  change (if x ≤ y then y else x).toInt = _
  split
  · rename_i h
    exact (max_eq_right (Int64.le_iff_toInt_le.mp h)).symm
  · rename_i h
    exact (max_eq_left (le_of_not_ge fun hle => h (Int64.le_iff_toInt_le.mpr hle))).symm

/-- The minimum of two words has the minimum of their values. -/
theorem toInt_min (x y : Int64) : (min x y).toInt = min x.toInt y.toInt := by
  change (if x ≤ y then x else y).toInt = _
  split
  · rename_i h
    exact (min_eq_left (Int64.le_iff_toInt_le.mp h)).symm
  · rename_i h
    exact (min_eq_right (le_of_not_ge fun hle => h (Int64.le_iff_toInt_le.mpr hle))).symm

/-- Addition that fails instead of wrapping. -/
def addExact (x y : Int64) : Option Int64 :=
  if InWord (x.toInt + y.toInt) then some (x + y) else none

/-- Multiplication that fails instead of wrapping. -/
def multiplyExact (x y : Int64) : Option Int64 :=
  if InWord (x.toInt * y.toInt) then some (x * y) else none

/-- The word of an integer that fits in one. -/
def longValueExact (n : Int) : Option Int64 :=
  if InWord n then some (Int64.ofInt n) else none

/-- The exact conversion succeeds with the word of that value. -/
theorem longValueExact_eq_some {n : Int} {z : Int64} :
    longValueExact n = some z ↔ z.toInt = n := by
  unfold longValueExact
  split
  · rename_i h
    rw [Option.some.injEq, ← Int64.toInt_inj, toInt_ofInt_inWord h, eq_comm]
  · rename_i h
    refine ⟨fun he => (Option.some_ne_none z he.symm).elim, fun he => ?_⟩
    exact absurd (he ▸ inWord_toInt z) h

/-- The exact sum succeeds with the word whose value is the sum. -/
theorem addExact_eq_some {x y z : Int64} :
    addExact x y = some z ↔ z.toInt = x.toInt + y.toInt := by
  unfold addExact
  split
  · rename_i h
    rw [Option.some.injEq, ← Int64.toInt_inj, toInt_add_exact h, eq_comm]
  · rename_i h
    refine ⟨fun he => (Option.some_ne_none z he.symm).elim, fun he => ?_⟩
    exact absurd (he ▸ inWord_toInt z) h

/-- The exact sum fails exactly if the sum is out of the range of words. -/
theorem addExact_eq_none {x y : Int64} :
    addExact x y = none ↔ ¬ InWord (x.toInt + y.toInt) := by
  unfold addExact
  split <;> simp_all

/-- A product in the range of words does not wrap. -/
theorem toInt_mul_exact {x y : Int64} (h : InWord (x.toInt * y.toInt)) :
    (x * y).toInt = x.toInt * y.toInt := by
  unfold InWord at h
  rw [Int64.toInt_mul]
  exact Int.bmod_eq_of_le (by omega) (by omega)

/-- The quotient of an amount by a positive number rounds down. -/
theorem toInt_div_nonneg {x y : Int64} (hx : 0 ≤ x.toInt) (hy : 0 < y.toInt) :
    (x / y).toInt = x.toInt / y.toInt := by
  have hneg : y ≠ -1 := by
    intro h
    rw [h] at hy
    exact absurd hy (by decide)
  rw [Int64.toInt_div_of_ne_right _ _ hneg, Int.tdiv_eq_ediv_of_nonneg hx]

end Vsys.Lib
