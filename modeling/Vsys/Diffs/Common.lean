import Vsys.State.Reader

/-!
# Checks every transaction passes

The weighted balance of the consensus, the checks of `CommonValidation` before a transaction's own
differ, and `BalanceDiffValidation` after it.
-/

namespace Vsys

open Lib

variable [Platform]

/-- `FunctionalitySettings`. -/
structure FunctionalitySettings where
  numOfSlots : Int
  mintingSpeed : Int
  allowContractTransactionAfterHeight : Int
  deriving DecidableEq

namespace SPoSCalc

/-- `SPoSCalc.MinimalEffectiveBalanceForContender`. -/
def MinimalEffectiveBalanceForContender : Int64 := 100000000000000

/-- `SPoSCalc.weightedBalaceCalc`; a minting speed above 86400 divides by zero. -/
def weightedBalaceCalc (heightDiff : Int)
    (lastEffectiveBalance lastWeightedBalance cntEffectiveBalance : Int64)
    (fs : FunctionalitySettings) : Result Int64 :=
  let maxUpdateBlocks := Int64.ofInt (24 * 60 * 60 / max fs.mintingSpeed 1)
  if maxUpdateBlocks = 0 then raise .arithmetic
  else
    let updated := Int64.ofInt (min maxUpdateBlocks.toInt heightDiff)
    .ok (min (lastEffectiveBalance / maxUpdateBlocks * updated
        + lastWeightedBalance / maxUpdateBlocks * (maxUpdateBlocks - updated))
      cntEffectiveBalance)

/-- `SPoSCalc.mintingBalance`. -/
def mintingBalance (state : StateView) (fs : FunctionalitySettings) (account : Address)
    (atHeight : Nat) : Result Int64 := do
  let lastHeight := (state.lastUpdateHeight account).getD 0
  let lastWeightedBalance := (state.lastUpdateWeightedBalance account).getD 0
  let lastEffectiveBalance ← state.effectiveBalanceAtHeightWithConfirmations account lastHeight 0
  let cntEffectiveBalance := state.effectiveBalance account
  if lastHeight = atHeight then .ok lastWeightedBalance
  else
    weightedBalaceCalc ((atHeight : Int) - lastHeight) lastEffectiveBalance lastWeightedBalance
      cntEffectiveBalance fs

end SPoSCalc

namespace CommonValidation

/-- `MaxTimeTransactionOverBlockDiff`, 90 minutes, in nanoseconds. -/
def MaxTimeTransactionOverBlockDiff : Int64 := 5400000000000

/-- `MaxTimePrevBlockOverTransactionDiff`, 2 hours, in nanoseconds. -/
def MaxTimePrevBlockOverTransactionDiff : Int64 := 7200000000000

/-- `disallowTxFromFuture`. -/
def disallowTxFromFuture (time : Int64) (tx : Transaction) : Result Unit :=
  cond (¬ MaxTimeTransactionOverBlockDiff < tx.timestamp - time)
    (.mistiming s!"Transaction ts {tx.timestamp} is from far future. BlockTime: {time}")

/-- `disallowTxFromPast`. -/
def disallowTxFromPast (prevBlockTime : Option Int64) (tx : Transaction) : Result Unit :=
  match prevBlockTime with
  | some t =>
      cond (¬ MaxTimePrevBlockOverTransactionDiff < t - tx.timestamp)
        (.mistiming s!"Transaction ts {tx.timestamp} is too old. Previous block time: Some({t})")
  | none => .ok ()

/-- `disallowBeforeActivationHeight`. -/
def disallowBeforeActivationHeight (settings : FunctionalitySettings) (h : Nat)
    (tx : Transaction) : Result Unit :=
  let allowed := settings.allowContractTransactionAfterHeight
  match tx with
  | .registerContract _ =>
      cond (¬ (h : Int) ≤ allowed) (.genericError s!"must not appear before height={allowed}")
  | .executeContractFunction _ =>
      cond (¬ (h : Int) ≤ allowed) (.genericError s!"must not appear before time={allowed}")
  | .legacy _ =>
      left (.genericError
        "Unknown transaction must be explicitly registered within ActivatedValidator")
  | _ => .ok ()

/-- `disallowDuplicateIds`. -/
def disallowDuplicateIds (state : StateView) (height : Nat) (tx : Transaction) : Result Unit :=
  cond (state.containsTransaction tx.id = false)
    (.genericError
      s!"Tx id cannot be duplicated. Current height is: {height}. Tx with such id already present")

/-- `disallowSendingGreaterThanBalance`, which checks payments; the other type it names never gets
this far. -/
def disallowSendingGreaterThanBalance (s : StateView) (tx : Transaction) : Result Unit :=
  match tx with
  | .payment ptx => do
      let sender ← ptx.proofs.headPublicKey
      let balance := (s.accountPortfolio sender.toAddress).balance
      let spent := ptx.amount + ptx.fee
      cond (¬ balance < spent)
        (.genericError
          s!"Attempt to pay unavailable funds: balance {balance} is less than {spent}")
  | _ => .ok ()

/-- `disallowInvalidFeeScale`. -/
def disallowInvalidFeeScale (tx : Transaction) : Result Unit :=
  cond (tx.assetFee.2.2 = 100) (.wrongFeeScale tx.assetFee.2.2)

end CommonValidation

namespace BalanceDiffValidation

/-- What is wrong with an account's portfolio after a diff, if anything is. -/
def err (acc : Address) (oldPortfolio newPortfolio : Portfolio) : Option String :=
  let leaseInfo (p : Portfolio) :=
    s!"({p.balance},LeaseInfo({p.leaseInfo.leaseIn},{p.leaseInfo.leaseOut}))"
  if newPortfolio.balance < 0 then
    some s!"negative vsys balance: {acc.address}, old: {oldPortfolio.balance}, new: {newPortfolio.balance}"
  else if ∃ id ∈ newPortfolio.assets.keys, (newPortfolio.assets.lookup id).any (· < 0) then
    some s!"negative asset balance: {acc.address}"
  else if newPortfolio.effectiveBalance < 0 then
    some s!"negative effective balance: {acc.address}, old: {leaseInfo oldPortfolio}, new: {leaseInfo newPortfolio}"
  else if newPortfolio.balance < newPortfolio.leaseInfo.leaseOut then
    some s!"leased being more than own: {acc.address}, old: {leaseInfo oldPortfolio}, new: {leaseInfo newPortfolio}"
  else none

/-- The error of one touched account. -/
def accountError (s : StateView) (d : Diff) (acc : Address) : Option String :=
  match d.portfolios.lookup acc with
  | some portfolioDiff =>
      let oldPortfolio := s.accountPortfolio acc
      err acc oldPortfolio (oldPortfolio.combine portfolioDiff)
  | none => none

/-- `BalanceDiffValidation.apply`. -/
def apply (s : StateView) (d : Diff) : Result Diff :=
  if ∀ acc ∈ d.portfolios.keys, accountError s d acc = none then .ok d
  else
    left (.accountBalanceError (Dict.ofFn (d.portfolios.keys.image Address.bytes) fun bytes =>
      match Address.fromBytes bytes with
      | .ok acc => accountError s d acc
      | .error _ => none))

/-- A portfolio without errors: no negative balance, effective balance or asset, and no more leased
out than owned. -/
def Solvent (p : Portfolio) : Prop :=
  0 ≤ p.balance ∧ (∀ id v, p.assets.lookup id = some v → 0 ≤ v) ∧ 0 ≤ p.effectiveBalance ∧
    p.leaseInfo.leaseOut ≤ p.balance

theorem err_eq_none_iff {acc : Address} {old new : Portfolio} :
    err acc old new = none ↔ Solvent new := by
  have hassets : (∃ id ∈ new.assets.keys, (new.assets.lookup id).any (· < 0)) ↔
      ¬ ∀ id v, new.assets.lookup id = some v → 0 ≤ v := by
    simp only [Option.any_eq_true, decide_eq_true_eq, not_forall, Int64.not_le]
    constructor
    · rintro ⟨id, _, v, hv, hneg⟩
      exact ⟨id, v, hv, hneg⟩
    · rintro ⟨id, v, hv, hneg⟩
      exact ⟨id, Dict.mem_keys_of_lookup hv, v, hv, hneg⟩
  unfold err Solvent
  simp only [hassets]
  split_ifs with h₁ h₂ h₃ h₄ <;> simp_all [Int64.not_lt, Int64.not_le]
  exact hassets

/-- The validation passes a diff on unchanged, and passes it exactly when every account it touches
is solvent afterwards. -/
theorem apply_eq_ok_iff {s : StateView} {d d' : Diff} :
    apply s d = .ok d' ↔
      d' = d ∧ ∀ acc pf, d.portfolios.lookup acc = some pf →
        Solvent ((s.accountPortfolio acc).combine pf) := by
  have hall : (∀ acc ∈ d.portfolios.keys, accountError s d acc = none) ↔
      ∀ acc pf, d.portfolios.lookup acc = some pf →
        Solvent ((s.accountPortfolio acc).combine pf) := by
    constructor
    · intro h acc pf hpf
      have herr := h acc (Dict.mem_keys_of_lookup hpf)
      simp only [accountError, hpf] at herr
      exact err_eq_none_iff.mp herr
    · intro h acc _
      cases hpf : d.portfolios.lookup acc with
      | none => simp [accountError, hpf]
      | some pf =>
          simp only [accountError, hpf]
          exact err_eq_none_iff.mpr (h acc pf hpf)
  unfold apply
  split
  · rename_i h
    rw [← hall, Except.ok.injEq, eq_comm]
    exact ⟨fun hd => ⟨hd, h⟩, And.left⟩
  · rename_i h
    rw [← hall, left_ne_ok]
    exact ⟨False.elim, fun hd => h hd.2⟩

end BalanceDiffValidation

end Vsys
