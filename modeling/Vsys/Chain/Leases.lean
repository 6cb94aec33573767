import Vsys.Chain.Coins

/-!
# Leased coins

In every state on the way, between blocks and between the transactions of one, the running leases
are covered by the balances of the accounts they are taken from, and as much is leased in as is
leased out.
-/

namespace Vsys

open Lib

open scoped Ledger

section Platform

variable [Platform]

/-- The states on the way: after some blocks, and after some transactions of the block that comes
next. -/
inductive Visited (fs : FunctionalitySettings) : StateView → Prop
  | block (blocks : List Block) (st : StateReader × Option Int64)
      (h : replay fs blocks = .ok st) : Visited fs st.1.toStateView
  | transactions (blocks : List Block) (st : StateReader × Option Int64)
      (h : replay fs blocks = .ok st) (timestamp : Int64) (txs : List ProcessedTransaction)
      (d : Diff)
      (hd : txs.foldlM (BlockDiffer.txStep fs st.1.toStateView st.2 timestamp (st.1.height + 1))
        Diff.empty = .ok d) :
      Visited fs (CompositeStateReader.view st.1.toStateView d.asBlockDiff)

section Leases

variable {fs : FunctionalitySettings} {s : StateView} {L : Finset LeaseTransaction}

theorem Visited.regular (h : Visited fs s) : ∃ L, s.Regular L := by
  cases h with
  | block blocks st h => exact replay_regular h
  | transactions blocks st h timestamp txs d hd =>
      obtain ⟨L, hL⟩ := replay_regular h
      exact (BlockDiffer.foldlM_regular hL hd).1.regular

/-- What goes to an account and what comes from it are different leases. -/
theorem leasedIn_add_leasedOut_le (hs : s.Ledger L) (a : Address) :
    leasedIn L a + leasedOut L a ≤ ∑ l ∈ L, l.amount.toInt := by
  have hdisjoint : Disjoint (L.filter fun l => l.lessee = some a)
      (L.filter fun l => l.lessor = some a) := by
    refine Finset.disjoint_left.mpr fun l hin hout => ?_
    obtain ⟨hl, hin⟩ := Finset.mem_filter.mp hin
    obtain ⟨x, y, hx, hy, hne⟩ := hs.parties l hl
    have hout := (Finset.mem_filter.mp hout).2
    exact hne (Option.some.inj ((hy.symm.trans hin).trans (hout.symm.trans hx)))
  have hunion : leasedIn L a + leasedOut L a
      = ∑ l ∈ L.filter (fun l => l.lessee = some a) ∪ L.filter (fun l => l.lessor = some a),
          l.amount.toInt :=
    (Finset.sum_union hdisjoint).symm
  rw [hunion]
  refine Finset.sum_le_sum_of_subset_of_nonneg ?_ fun l _ _ => l.amount_toInt_pos.le
  exact Finset.union_subset (Finset.filter_subset _ _) (Finset.filter_subset _ _)

/-- As much is leased in as is leased out. -/
theorem StateView.Ledger.sum_leasedIn (hs : s.Ledger L) : ∑ a, leasedIn L a = ∑ a, leasedOut L a := by
  have hin : ∑ a, leasedIn L a = ∑ l ∈ L, l.amount.toInt := sum_leased fun l hl => by
    obtain ⟨_, b, -, hb, -⟩ := hs.parties l hl
    rw [hb]
    exact Option.some_ne_none b
  have hout : ∑ a, leasedOut L a = ∑ l ∈ L, l.amount.toInt := sum_leased fun l hl => by
    obtain ⟨a, _, ha, -, -⟩ := hs.parties l hl
    rw [ha]
    exact Option.some_ne_none a
  rw [hin, hout]

/-- What is leased to an account is covered by the balances of the others. -/
theorem leasedIn_le (hs : s.Regular L) (a : Address) :
    leasedIn L a + (s.accountPortfolio a).balance.toInt ≤ s.supply := by
  have hle := leasedIn_add_leasedOut_le hs.ledger a
  have hout : ∑ a, leasedOut L a = ∑ l ∈ L, l.amount.toInt := sum_leased fun l hl => by
    obtain ⟨a, _, ha, -, -⟩ := hs.ledger.parties l hl
    rw [ha]
    exact Option.some_ne_none a
  have hothers : ∑ b ∈ Finset.univ.erase a, leasedOut L b
      ≤ ∑ b ∈ Finset.univ.erase a, (s.accountPortfolio b).balance.toInt :=
    Finset.sum_le_sum fun b _ => by
      rw [← hs.ledger.leaseOut b]
      exact (hs.sound.portfolio b).leaseOut_le
  have hsplit := Finset.add_sum_erase Finset.univ (leasedOut L) (Finset.mem_univ a)
  have hsplit' := Finset.add_sum_erase Finset.univ
    (fun b => (s.accountPortfolio b).balance.toInt) (Finset.mem_univ a)
  have hsupply : s.supply = ∑ b, (s.accountPortfolio b).balance.toInt := rfl
  omega

/-- The effective balance is exact while the coins fit a word. -/
theorem effectiveBalance_toInt (hs : s.Regular L) (hsupply : s.supply < 2 ^ 63) (a : Address) :
    let p := s.accountPortfolio a
    p.effectiveBalance.toInt
      = p.balance.toInt + p.leaseInfo.leaseIn.toInt - p.leaseInfo.leaseOut.toInt := by
  have hp := hs.sound.portfolio a
  have hbalance := hp.balance
  have hin := hp.leaseIn
  have hout := hp.leaseOut
  have hle := hp.leaseOut_le
  have hcover := leasedIn_le hs a
  rw [← hs.ledger.leaseIn a] at hcover
  have hsum : (safeSum (s.accountPortfolio a).balance
      (s.accountPortfolio a).leaseInfo.leaseIn).toInt
      = (s.accountPortfolio a).balance.toInt + (s.accountPortfolio a).leaseInfo.leaseIn.toInt :=
    toInt_safeSum (by unfold InWord; omega)
  dsimp only [Portfolio.effectiveBalance]
  rw [toInt_sub_exact (by rw [hsum]; unfold InWord; omega), hsum]

/-- No account has leased out more than it owns, and every effective balance is what is owned and
leased in, less what is leased out. -/
theorem leases_covered (h : Visited fs s) (hsupply : s.supply < 2 ^ 63) :
    (∀ a, 0 ≤ (s.accountPortfolio a).leaseInfo.leaseOut ∧
      (s.accountPortfolio a).leaseInfo.leaseOut ≤ (s.accountPortfolio a).balance ∧
      0 ≤ (s.accountPortfolio a).leaseInfo.leaseIn ∧
      (s.accountPortfolio a).effectiveBalance.toInt = (s.accountPortfolio a).balance.toInt
        + (s.accountPortfolio a).leaseInfo.leaseIn.toInt
        - (s.accountPortfolio a).leaseInfo.leaseOut.toInt ∧
      0 ≤ (s.accountPortfolio a).effectiveBalance) ∧
    ∑ a, (s.accountPortfolio a).effectiveBalance.toInt
      = ∑ a, (s.accountPortfolio a).balance.toInt ∧
    ∑ a, (s.accountPortfolio a).leaseInfo.leaseIn.toInt
      = ∑ a, (s.accountPortfolio a).leaseInfo.leaseOut.toInt := by
  obtain ⟨L, hL⟩ := h.regular
  -- What an account has and is leased comes to no more than the whole supply, so that no sum is
  -- clamped.
  have heffective := effectiveBalance_toInt hL hsupply
  have hleases : ∑ a, (s.accountPortfolio a).leaseInfo.leaseIn.toInt
      = ∑ a, (s.accountPortfolio a).leaseInfo.leaseOut.toInt := by
    simp only [hL.ledger.leaseIn, hL.ledger.leaseOut]
    exact hL.ledger.sum_leasedIn
  refine ⟨fun a => ?_, ?_, hleases⟩
  · have hp := hL.sound.portfolio a
    have hout := hp.leaseOut
    have hle := hp.leaseOut_le
    have hin := hp.leaseIn
    have hzero : (0 : Int64).toInt = 0 := rfl
    refine ⟨?_, ?_, ?_, heffective a, ?_⟩ <;> rw [Int64.le_iff_toInt_le]
    · exact hout
    · exact hle
    · exact hin
    · rw [heffective a]
      omega
  · simp only [heffective, Finset.sum_sub_distrib, Finset.sum_add_distrib, hleases]
    omega

end Leases

end Platform

namespace Sample

theorem replay_genesisBlock : replay fs [genesisBlock] = .ok afterGenesis :=
  foldlM_cons_eq_ok_iff.mpr ⟨_, replayStep_genesisBlock, rfl⟩

/-- An account to lease to. -/
def tenant : Address := Address.fromPublicKey (List.replicate 32 1)

/-- The proof of the owner. -/
def proofs : Proofs := ⟨[⟨key, [], rfl⟩], by decide, by decide⟩

/-- A lease from the owner to the tenant. -/
def leaseTransaction : LeaseTransaction :=
  ⟨500, 100, 100, 1, .address tenant, proofs, by decide, by decide, fee_pos, feeScale_eq,
    by decide +kernel⟩

/-- The lease as the next block has it. -/
def leasing : List ProcessedTransaction := [⟨.success, 100, .lease leaseTransaction⟩]

/-- The effect of the lease. -/
def leaseDiff : Diff :=
  okOr (leasing.foldlM (BlockDiffer.txStep fs afterGenesis.1.toStateView afterGenesis.2 1
    (afterGenesis.1.height + 1)) Diff.empty) Diff.empty

/-- The state after the lease. -/
def afterLease : StateView :=
  CompositeStateReader.view afterGenesis.1.toStateView leaseDiff.asBlockDiff

theorem foldlM_leasing : leasing.foldlM (BlockDiffer.txStep fs afterGenesis.1.toStateView
    afterGenesis.2 1 (afterGenesis.1.height + 1)) Diff.empty = .ok leaseDiff :=
  eq_ok_okOr (by decide +kernel)

theorem afterGenesis_supply : afterGenesis.1.supply = 1000000000 := by
  obtain ⟨-, -, hsupply, -⟩ := replayStep_supply initialState_regular replayStep_genesisBlock
  rw [hsupply, initialState_supply]
  decide +kernel

theorem afterLease_supply : afterLease.supply = 999999900 := by
  obtain ⟨L, hL⟩ := replay_regular replay_genesisBlock
  rw [afterLease, (BlockDiffer.foldlM_regular hL foldlM_leasing).2, afterGenesis_supply]
  decide +kernel

/-- A lease that is running, and covered. -/
theorem afterLease_covered : (afterLease.accountPortfolio owner).leaseInfo.leaseOut = 500 ∧
    (afterLease.accountPortfolio owner).leaseInfo.leaseOut
      ≤ (afterLease.accountPortfolio owner).balance ∧
    ∑ a, (afterLease.accountPortfolio a).leaseInfo.leaseIn.toInt
      = ∑ a, (afterLease.accountPortfolio a).leaseInfo.leaseOut.toInt := by
  have hcovered := leases_covered (.transactions [genesisBlock] afterGenesis replay_genesisBlock 1
    leasing leaseDiff foldlM_leasing) (by
      change afterLease.supply < 2 ^ 63
      rw [afterLease_supply]
      decide)
  exact ⟨by decide +kernel, (hcovered.1 owner).2.1, hcovered.2.2⟩

end Sample

end Vsys
