import Mathlib.Algebra.BigOperators.Group.Finset.Piecewise
import Mathlib.Algebra.Order.BigOperators.Group.Finset
import Mathlib.Tactic.Linarith

/-!
# A token and its holders

A token has a maker, an issuer, and an amount for every account.  Who may make which call, what each
call does, and what none of them breaks: nobody owes anything, all amounts together are the total,
and the total stays below the maximum.
-/

namespace Vsys.Lib

/-- A token, with the amounts of its holders. -/
structure Token (A : Type*) where
  maker : A
  issuer : A
  max : Int
  unity : Int
  total : Int
  balance : A → Int

namespace Token

/-- What can be asked of a token. -/
inductive Call (A : Type*) where
  | supersede (newIssuer : A)
  | issue (amount : Int)
  | destroy (amount : Int)
  | split (newUnity : Int)
  | transfer (sender recipient : A) (amount : Int)

variable {A : Type*} {limit : Int} {t : Token A} {caller a b : A} {c : Call A}

/-- A token nobody has any of. -/
def start (maker : A) (max unity : Int) : Token A :=
  ⟨maker, maker, max, unity, 0, fun _ => 0⟩

/-- Who may make a call, and when: the maker names the issuer, the issuer changes the supply and the
unity, and everyone sends what is theirs, up to a limit on the numbers. -/
def Allowed (limit : Int) (t : Token A) (caller : A) : Call A → Prop
  | .supersede _ => caller = t.maker
  | .issue amount => caller = t.issuer ∧ 0 ≤ amount ∧ t.total + amount ≤ t.max
  | .destroy amount => caller = t.issuer ∧ 0 ≤ amount ∧ amount ≤ t.balance t.issuer
  | .split newUnity => caller = t.issuer ∧ 0 < newUnity ∧ newUnity ≤ limit
  | .transfer sender recipient amount =>
      caller = sender ∧ 0 ≤ amount ∧ amount ≤ t.balance sender ∧
        t.balance recipient + amount ≤ limit

variable [DecidableEq A]

instance : Decidable (t.Allowed limit caller c) :=
  match c with
  | .supersede _ => inferInstanceAs (Decidable (_ = _))
  | .issue _ => inferInstanceAs (Decidable (_ ∧ _))
  | .destroy _ => inferInstanceAs (Decidable (_ ∧ _))
  | .split _ => inferInstanceAs (Decidable (_ ∧ _))
  | .transfer _ _ _ => inferInstanceAs (Decidable (_ ∧ _))

/-- An amount more for one account. -/
def credit (balance : A → Int) (a : A) (amount : Int) : A → Int :=
  fun b => balance b + if b = a then amount else 0

/-- What a call does. -/
def perform (t : Token A) : Call A → Token A
  | .supersede newIssuer => { t with issuer := newIssuer }
  | .issue amount =>
      { t with total := t.total + amount, balance := credit t.balance t.issuer amount }
  | .destroy amount =>
      { t with total := t.total - amount, balance := credit t.balance t.issuer (-amount) }
  | .split newUnity => { t with unity := newUnity }
  | .transfer sender recipient amount =>
      { t with balance := credit (credit t.balance sender (-amount)) recipient amount }

/-- A call that is refused does nothing. -/
def call (limit : Int) (t : Token A) (caller : A) (c : Call A) : Token A :=
  if t.Allowed limit caller c then t.perform c else t

variable [Fintype A]

/-- No amount is negative, they add up to the total, and the total is below the maximum. -/
structure Sound (t : Token A) : Prop where
  nonneg : ∀ a, 0 ≤ t.balance a
  sum_eq : ∑ a, t.balance a = t.total
  le_max : t.total ≤ t.max

theorem sum_credit (balance : A → Int) (a : A) (amount : Int) :
    ∑ b, credit balance a amount b = ∑ b, balance b + amount := by
  simp only [credit, Finset.sum_add_distrib, Finset.sum_ite_eq', Finset.mem_univ, if_true]

omit [DecidableEq A] in
theorem sound_start {maker : A} {max unity : Int} (hmax : 0 ≤ max) :
    (start maker max unity).Sound where
  nonneg := fun _ => le_rfl
  sum_eq := Finset.sum_const_zero
  le_max := hmax

omit [DecidableEq A] in
/-- What one account has is part of the total. -/
theorem Sound.balance_le (h : t.Sound) (a : A) : t.balance a ≤ t.total :=
  h.sum_eq ▸ Finset.single_le_sum (fun b _ => h.nonneg b) (Finset.mem_univ a)

omit [DecidableEq A] in
theorem Sound.total_nonneg (h : t.Sound) : 0 ≤ t.total :=
  h.sum_eq ▸ Finset.sum_nonneg fun a _ => h.nonneg a

/-- What is allowed breaks nothing. -/
theorem Sound.perform (h : t.Sound) (hallowed : t.Allowed limit caller c) :
    (t.perform c).Sound := by
  have hnonneg := h.nonneg
  cases c with
  | supersede newIssuer => exact ⟨h.nonneg, h.sum_eq, h.le_max⟩
  | split newUnity => exact ⟨h.nonneg, h.sum_eq, h.le_max⟩
  | issue amount =>
      obtain ⟨-, hamount, hmax⟩ := hallowed
      refine ⟨fun a => ?_, ?_, hmax⟩
      · have ha := hnonneg a
        simp only [Token.perform, credit]
        split <;> omega
      · simp only [Token.perform, sum_credit, h.sum_eq]
  | destroy amount =>
      obtain ⟨-, hamount, hle⟩ := hallowed
      refine ⟨fun a => ?_, ?_, ?_⟩
      · have ha := hnonneg a
        simp only [Token.perform, credit]
        split
        · rename_i hissuer
          rw [hissuer]
          omega
        · omega
      · simp only [Token.perform, sum_credit, h.sum_eq, Int.sub_eq_add_neg]
      · have hmax := h.le_max
        simp only [Token.perform]
        omega
  | transfer sender recipient amount =>
      obtain ⟨-, hamount, hle, -⟩ := hallowed
      refine ⟨fun a => ?_, ?_, h.le_max⟩
      · have ha := hnonneg a
        simp only [Token.perform, credit]
        by_cases hsender : a = sender
        · rw [if_pos hsender, hsender]
          split <;> omega
        · rw [if_neg hsender]
          split <;> omega
      · simp only [Token.perform, sum_credit, h.sum_eq]
        omega

theorem Sound.call (h : t.Sound) : (t.call limit caller c).Sound := by
  unfold Token.call
  split
  · rename_i hallowed
    exact h.perform hallowed
  · exact h

end Token

end Vsys.Lib
