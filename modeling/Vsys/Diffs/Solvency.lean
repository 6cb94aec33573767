import Vsys.Diffs.Common
import Vsys.Sample
import Vsys.State.Stacking
import Vsys.State.Storage

/-!
# The balance validation over the integers

`BalanceDiffValidation` computes with words: a sum that does not fit becomes `Long.MinValue`, and the
effective balance is a difference that wraps.  Compared here with the same checks over the integers.
-/

namespace Vsys

open Lib

/-- A sum is exact, or it is clamped. -/
theorem toInt_safeSum_cases (x y : Int64) :
    InWord (x.toInt + y.toInt) ∧ (safeSum x y).toInt = x.toInt + y.toInt ∨
      ¬ InWord (x.toInt + y.toInt) ∧ (safeSum x y).toInt = -9223372036854775808 := by
  by_cases h : InWord (x.toInt + y.toInt)
  · exact .inl ⟨h, toInt_safeSum h⟩
  · refine .inr ⟨h, ?_⟩
    rw [safeSum, addExact, if_neg h]
    rfl

/-- A difference is exact, or it wraps once. -/
theorem toInt_sub_cases (x y : Int64) :
    InWord (x.toInt - y.toInt) ∧ (x - y).toInt = x.toInt - y.toInt ∨
      9223372036854775807 < x.toInt - y.toInt ∧
        (x - y).toInt = x.toInt - y.toInt - 18446744073709551616 ∨
      x.toInt - y.toInt < -9223372036854775808 ∧
        (x - y).toInt = x.toInt - y.toInt + 18446744073709551616 := by
  have hx := inWord_toInt x
  have hy := inWord_toInt y
  unfold InWord at *
  rw [Int64.toInt_sub, Int.bmod_def]
  omega

namespace BalanceDiffValidation

/-- What an account has after a diff, over the integers. -/
structure Sums where
  balance : Int
  leaseIn : Int
  leaseOut : Int

/-- The sums of a portfolio and its changes. -/
def sums (old diff : Portfolio) : Sums :=
  ⟨old.balance.toInt + diff.balance.toInt,
    old.leaseInfo.leaseIn.toInt + diff.leaseInfo.leaseIn.toInt,
    old.leaseInfo.leaseOut.toInt + diff.leaseInfo.leaseOut.toInt⟩

/-- The effective balance. -/
def Sums.effectiveBalance (t : Sums) : Int := t.balance + t.leaseIn - t.leaseOut

/-- The amount of an asset after a diff, over the integers. -/
def assetSum (old diff : Portfolio) (id : ByteStr) : Option Int :=
  Option.merge (· + ·) ((old.assets.lookup id).map Int64.toInt)
    ((diff.assets.lookup id).map Int64.toInt)

/-- A number that a word holds and that is not negative. -/
def Amount (n : Int) : Prop := 0 ≤ n ∧ InWord n

/-- A portfolio that an account can have: no more is leased out than owned. -/
structure Held (p : Portfolio) : Prop where
  leaseIn : 0 ≤ p.leaseInfo.leaseIn
  leaseOut : 0 ≤ p.leaseInfo.leaseOut
  owned : p.leaseInfo.leaseOut ≤ p.balance

/-- No asset is negative or too large. -/
def SolventAssets (old diff : Portfolio) : Prop := ∀ id v, assetSum old diff id = some v → Amount v

/-- What the validation is there for, over the integers. -/
structure SolventSums (old diff : Portfolio) : Prop where
  balance : Amount (sums old diff).balance
  assets : SolventAssets old diff
  effectiveBalance : Amount (sums old diff).effectiveBalance
  leaseOut : InWord (sums old diff).leaseOut
  owned : (sums old diff).leaseOut ≤ (sums old diff).balance

/-- The sums that pass although they should not: the leases out are clamped while the sum of what is
owned and leased in is negative or clamped too; that sum is clamped and the leases out wrap it back;
or the leases in are clamped and negative leases out wrap them back. -/
inductive Wraps (t : Sums) : Prop where
  | leaseOut (h : 9223372036854775807 < t.leaseOut) (hsum : ¬ Amount (t.balance + t.leaseIn))
  | effectiveBalance (howned : t.leaseOut ≤ t.balance) (hleaseIn : t.leaseIn ≤ 9223372036854775807)
      (hsum : 9223372036854775807 < t.balance + t.leaseIn)
      (h : 0 < t.leaseOut ∧ 9223372036854775807 < t.effectiveBalance ∨
        t.leaseOut = -9223372036854775808)
  | leaseIn (howned : t.leaseOut ≤ t.balance) (hleaseIn : 9223372036854775807 < t.leaseIn)
      (h : 9223372036854775807 < t.balance - t.leaseOut)

/-- A change of an account that passes although it should not. -/
structure Slips (old diff : Portfolio) : Prop where
  balance : Amount (sums old diff).balance
  assets : SolventAssets old diff
  wraps : Wraps (sums old diff)

variable {old diff : Portfolio}

/-- The assets are checked as over the integers. -/
theorem assets_iff :
    (∀ id v, (old.combine diff).assets.lookup id = some v → 0 ≤ v) ↔ SolventAssets old diff := by
  have hsum (id : ByteStr) : (old.combine diff).assets.lookup id
      = Option.merge safeSum (old.assets.lookup id) (diff.assets.lookup id) :=
    Dict.lookup_mergeWith _ _ _ _
  refine forall_congr' fun id => ?_
  rw [hsum, assetSum]
  have hamount (x : Int64) : 0 ≤ x ↔ Amount x.toInt := by
    rw [Int64.le_iff_toInt_le, Amount, and_iff_left (inWord_toInt x)]
    rfl
  cases old.assets.lookup id with
  | none =>
      cases diff.assets.lookup id with
      | none => simp
      | some y => simp [hamount]
  | some x =>
      cases diff.assets.lookup id with
      | none => simp [hamount]
      | some y =>
          simp only [Option.merge_some_some, Option.map_some, Option.some.injEq, forall_eq']
          rw [Int64.le_iff_toInt_le, show (0 : Int64).toInt = 0 from rfl, Amount]
          have hcases := toInt_safeSum_cases x y
          unfold InWord at hcases ⊢
          omega

/-- The sums of an account that can lease cannot be too small. -/
theorem sums_bounds (hold : Held old) :
    -9223372036854775808 ≤ (sums old diff).balance ∧ -9223372036854775808 ≤ (sums old diff).leaseIn ∧
      -9223372036854775808 ≤ (sums old diff).leaseOut := by
  obtain ⟨hin, hout, howned⟩ := hold
  rw [Int64.le_iff_toInt_le] at hin hout howned
  rw [show (0 : Int64).toInt = 0 from rfl] at hin hout
  have hbalance := diff.balance.le_toInt
  have hleaseIn := diff.leaseInfo.leaseIn.le_toInt
  have hleaseOut := diff.leaseInfo.leaseOut.le_toInt
  simp only [sums]
  omega

/-- The validation of an account lets pass what is solvent over the integers, and what slips. -/
theorem solvent_iff (hold : Held old) :
    Solvent (old.combine diff) ↔ SolventSums old diff ∨ Slips old diff := by
  have hbounds := @sums_bounds old diff hold
  -- the three sums, the sum of what is owned and leased in, and the difference
  have hbalance : InWord (sums old diff).balance ∧
      (old.combine diff).balance.toInt = (sums old diff).balance ∨
      ¬ InWord (sums old diff).balance ∧
        (old.combine diff).balance.toInt = -9223372036854775808 := toInt_safeSum_cases _ _
  have hleaseIn : InWord (sums old diff).leaseIn ∧
      (old.combine diff).leaseInfo.leaseIn.toInt = (sums old diff).leaseIn ∨
      ¬ InWord (sums old diff).leaseIn ∧
        (old.combine diff).leaseInfo.leaseIn.toInt = -9223372036854775808 :=
    toInt_safeSum_cases _ _
  have hleaseOut : InWord (sums old diff).leaseOut ∧
      (old.combine diff).leaseInfo.leaseOut.toInt = (sums old diff).leaseOut ∨
      ¬ InWord (sums old diff).leaseOut ∧
        (old.combine diff).leaseInfo.leaseOut.toInt = -9223372036854775808 :=
    toInt_safeSum_cases _ _
  have htotal := toInt_safeSum_cases (old.combine diff).balance (old.combine diff).leaseInfo.leaseIn
  have hdifference := toInt_sub_cases
    (safeSum (old.combine diff).balance (old.combine diff).leaseInfo.leaseIn)
    (old.combine diff).leaseInfo.leaseOut
  have hzero : (0 : Int64).toInt = 0 := rfl
  rw [Solvent, assets_iff, Int64.le_iff_toInt_le, Int64.le_iff_toInt_le, Int64.le_iff_toInt_le,
    hzero, Portfolio.effectiveBalance]
  simp only [InWord] at hbalance hleaseIn hleaseOut htotal hdifference
  constructor
  · rintro ⟨hpositive, hassets, hsolvent, howned⟩
    have hamount : Amount (sums old diff).balance := by
      unfold Amount InWord
      omega
    have hpositive' := hamount.1
    by_cases hout : InWord (sums old diff).leaseOut
    case neg =>
      refine .inr ⟨hamount, hassets, .leaseOut ?_ ?_⟩
      · unfold InWord at hout
        omega
      · unfold InWord at hout
        unfold Amount InWord
        omega
    have howned' : (sums old diff).leaseOut ≤ (sums old diff).balance := by
      unfold InWord at hout
      omega
    by_cases hin : InWord (sums old diff).leaseIn
    case neg =>
      refine .inr ⟨hamount, hassets, .leaseIn howned' ?_ ?_⟩
      · unfold InWord at hin
        omega
      · unfold InWord at hin hout
        omega
    unfold InWord at hin
    by_cases hfits : Amount (sums old diff).effectiveBalance
    · exact .inl ⟨hamount, hassets, hfits, hout, howned'⟩
    · refine .inr ⟨hamount, hassets, .effectiveBalance howned' hin.2 ?_ ?_⟩
      · unfold Amount InWord Sums.effectiveBalance at hfits
        unfold InWord at hout
        omega
      · unfold Amount InWord at hfits
        unfold Sums.effectiveBalance at hfits ⊢
        unfold InWord at hout
        omega
  · rintro (⟨hamount, hassets, hsolvent, hword, howned⟩ | ⟨hamount, hassets, hwraps⟩)
    · unfold Amount InWord at hamount hsolvent
      unfold InWord at hword
      rw [Sums.effectiveBalance] at hsolvent
      refine ⟨by omega, hassets, ?_, by omega⟩
      omega
    · unfold Amount InWord at hamount
      refine ⟨by omega, hassets, ?_⟩
      cases hwraps with
      | leaseOut h hsum =>
          unfold Amount InWord at hsum
          omega
      | effectiveBalance howned hin hsum h =>
          rw [Sums.effectiveBalance] at h
          omega
      | leaseIn howned hin h => omega

/-- What slips is not solvent. -/
theorem Slips.not_solvent (h : Slips old diff) : ¬ SolventSums old diff := by
  rintro ⟨hamount, -, heffective, hword, howned⟩
  unfold Amount InWord Sums.effectiveBalance at heffective
  unfold Amount InWord at hamount
  unfold InWord at hword
  cases h.wraps with
  | leaseOut h hsum => omega
  | effectiveBalance howned hin hsum h =>
      unfold Sums.effectiveBalance at h
      omega
  | leaseIn howned hin h => omega

variable [Platform] {s : StateView} {d : Diff}

/-- The validation accepts exactly the diffs that are solvent over the integers, exactly when no
account slips or another account is refused anyway. -/
theorem accepts_solvent_iff
    (hheld : ∀ acc pf, d.portfolios.lookup acc = some pf → Held (s.accountPortfolio acc)) :
    (apply s d = .ok d ↔
        ∀ acc pf, d.portfolios.lookup acc = some pf → SolventSums (s.accountPortfolio acc) pf) ↔
      (∀ acc pf, d.portfolios.lookup acc = some pf → ¬ Slips (s.accountPortfolio acc) pf) ∨
        ∃ acc pf, d.portfolios.lookup acc = some pf ∧
          ¬ SolventSums (s.accountPortfolio acc) pf ∧ ¬ Slips (s.accountPortfolio acc) pf := by
  have haccepts : apply s d = .ok d ↔ ∀ acc pf, d.portfolios.lookup acc = some pf →
      SolventSums (s.accountPortfolio acc) pf ∨ Slips (s.accountPortfolio acc) pf := by
    rw [apply_eq_ok_iff, and_iff_right rfl]
    exact forall₃_congr fun acc pf hpf => solvent_iff (hheld acc pf hpf)
  rw [haccepts]
  constructor
  · intro h
    -- A slip is an account that the check passes and the sums do not; it matters unless another
    -- account is refused for good reason.
    by_cases hslips : ∃ acc pf, d.portfolios.lookup acc = some pf ∧ Slips (s.accountPortfolio acc) pf
    · obtain ⟨acc, pf, hpf, hslip⟩ := hslips
      have hbad := mt (fun hall => h.mp hall acc pf hpf) hslip.not_solvent
      simp only [not_forall, not_or] at hbad
      obtain ⟨acc', pf', hpf', hsolvent, hslip'⟩ := hbad
      exact .inr ⟨acc', pf', hpf', hsolvent, hslip'⟩
    · exact .inl fun acc pf hpf hslip => hslips ⟨acc, pf, hpf, hslip⟩
  · rintro (hnone | ⟨acc, pf, hpf, hsolvent, hslip⟩)
    · exact forall₃_congr fun acc pf hpf => or_iff_left (hnone acc pf hpf)
    · exact iff_of_false (fun hall => (hall acc pf hpf).elim hsolvent hslip)
        fun hall => hsolvent (hall acc pf hpf)

end BalanceDiffValidation

namespace Sample

open BalanceDiffValidation

/-- The account whose portfolio changes. -/
def holder : Address := Address.fromPublicKey []

/-- A state without portfolios. -/
def emptyState : StateView := (StateReaderImpl.reader StateStorage.empty).toStateView

/-- A diff that changes one portfolio. -/
def changing (pf : Portfolio) : Diff :=
  { Diff.empty with portfolios := Finmap.singleton holder pf }

/-- As much as a word can hold is owned and leased in, and a coin of it is leased out. -/
def overflowing : Portfolio := ⟨9223372036854775807, ⟨9223372036854775807, 1⟩, ∅⟩

theorem lookup_changing {pf pf' : Portfolio} {acc : Address}
    (h : (changing pf).portfolios.lookup acc = some pf') : pf' = pf := by
  rw [changing, Dict.lookup_singleton] at h
  split at h
  · exact (Option.some.inj h).symm
  · cases h

theorem emptyState_accountPortfolio (acc : Address) :
    emptyState.accountPortfolio acc = Portfolio.empty := rfl

theorem emptyState_held (acc : Address) : Held (emptyState.accountPortfolio acc) := by
  rw [emptyState_accountPortfolio]
  constructor <;> decide

/-- A payment of ten coins into an empty account is accepted and solvent. -/
theorem ten_accepted :
    apply emptyState (changing (.ofBalance 10)) = .ok (changing (.ofBalance 10)) ↔
      ∀ acc pf, (changing (.ofBalance 10)).portfolios.lookup acc = some pf →
        SolventSums (emptyState.accountPortfolio acc) pf :=
  (accepts_solvent_iff fun acc _ _ => emptyState_held acc).mpr (.inl fun acc pf hpf hslip => by
    obtain rfl := lookup_changing hpf
    rw [emptyState_accountPortfolio] at hslip
    cases hslip.wraps with
    | leaseOut h => exact absurd h (by decide)
    | effectiveBalance _ _ h => exact absurd h (by decide)
    | leaseIn _ h => exact absurd h (by decide))

/-- An effective balance of nearly twice what a word can hold is accepted. -/
theorem overflowing_accepted : Held (emptyState.accountPortfolio holder) ∧
    apply emptyState (changing overflowing) = .ok (changing overflowing) ∧
    ¬ SolventSums (emptyState.accountPortfolio holder) overflowing := by
  refine ⟨emptyState_held holder, apply_eq_ok_iff.mpr ⟨rfl, fun acc pf hpf => ?_⟩, fun h => ?_⟩
  · obtain rfl := lookup_changing hpf
    rw [emptyState_accountPortfolio]
    exact ⟨by decide, fun id v hv => by
      simp [overflowing, Portfolio.empty, Portfolio.combine] at hv, by decide, by decide⟩
  · have hword := h.effectiveBalance.2
    rw [emptyState_accountPortfolio] at hword
    exact absurd hword (by decide)

end Sample

end Vsys
