import Vsys.Chain.Snapshots
import Vsys.Opc.Crashes
import Vsys.Transaction.Parser

/-!
# When a transaction raises

Every differ takes the sender of a transaction off its first proof, and the parser accepts
transactions that have none: they pass the check of their signatures and raise.  Where there is a
proof, a differ raises only where the state or the settings make it: a stored transaction or
contract cannot be read back, a minting speed leaves a day no blocks, or a contract function crashes.
-/

namespace Vsys

open Lib CompositeStateReader

section Platform

variable [Platform]

/-- Every lease of a state is somebody's, and every slot is an address's. -/
structure StateView.Attributed (s : StateView) : Prop where
  lessor : ∀ id h status fee l, s.transactionInfo id = .ok (some (h, ⟨status, fee, .lease l⟩)) →
    ∃ sender, l.proofs.headPublicKey = .ok sender
  owner : ∀ i text, s.slotAddress i = some text → ∃ a : Address, text = a.address

section Attributed

variable {fs : FunctionalitySettings} {height : Nat} {s : StateView} {tx : Transaction}
  {c : Changes} {related : Dict Address Bool}

/-- A lease that is accepted has a sender. -/
theorem TransactionEffect.lessor (h : TransactionEffect fs height s tx c related)
    {l : LeaseTransaction} (hl : tx = .lease l) : ∃ sender, l.proofs.headPublicKey = .ok sender := by
  cases h with
  | lease tx sender recipient hsender hrecipient hself hspendable =>
      obtain rfl := Transaction.lease.inj hl
      exact ⟨sender, hsender⟩
  | _ => cases hl

/-- A slot is taken for an address. -/
theorem TransactionEffect.owner (h : TransactionEffect fs height s tx c related) {i : Int}
    {text : String} (hi : c.slotids.lookup i = some (some text)) : ∃ a : Address, text = a.address := by
  have hsingle {slot : Int} {owner : Option String} (howner : ∀ text, owner = some text →
      ∃ a : Address, text = a.address)
      (h : (Finmap.singleton slot owner : Dict Int (Option String)).lookup i = some (some text)) :
      ∃ a : Address, text = a.address := by
    rw [Dict.lookup_singleton] at h
    split at h
    · exact howner text (Option.some.inj h)
    · cases h
  cases h with
  | genesisSlot g hheight hslot =>
      exact hsingle (fun text h => ⟨g.recipient, (Option.some.inj h).symm⟩) hi
  | contendSlots tx sender hsender hfree hvalid =>
      exact hsingle (fun text h => ⟨sender.toAddress, (Option.some.inj h).symm⟩) hi
  | releaseSlots tx sender hsender hslot henough hvalid =>
      exact hsingle (fun text h => by cases h) hi
  | _ => cases hi

/-- In every state on the way the leases and the slots are somebody's. -/
theorem attributed_invariant (fs : FunctionalitySettings) :
    ChainInvariant fs fun _ s => s.Attributed where
  empty :=
    { lessor := fun id h status fee l hl => by cases hl
      owner := fun i text hi => by cases hi }
  transaction := fun {L done s tx e} _ hs h => by
    obtain ⟨-, ⟨c, related, heffect, rfl⟩, -⟩ := h.applies
    constructor
    case lessor =>
      intro id h status fee l hl
      rw [view_transactionInfo_apply] at hl
      split at hl
      · obtain ⟨-, hl⟩ := Prod.mk.inj (Option.some.inj (Except.ok.inj hl))
        exact heffect.lessor (ProcessedTransaction.mk.inj hl).2.2
      · exact hs.lessor id h status fee l hl
    case owner =>
      intro i text hi
      rw [view_slotAddress] at hi
      change (c.slotids.lookup i).getD (s.slotAddress i) = some text at hi
      cases hslot : c.slotids.lookup i with
      | none =>
          rw [hslot] at hi
          exact hs.owner i text hi
      | some owner =>
          rw [hslot] at hi
          obtain rfl : owner = some text := hi
          exact heffect.owner hslot
  block := fun _ _ hs => ⟨hs.lessor, hs.owner⟩
  write := fun {L done p d} ss hp hd hs => by
    constructor
    case lessor =>
      intro id h status fee l hl
      exact hs.lessor id h status fee l ((hd.lease_written_iff id h status fee l).mp hl)
    case owner =>
      rw [← StateStorage.view_eq_written_except ss hp.sound hd.stackable.fits hd.issuedAssets]
      exact hs.owner

end Attributed

omit [Platform] in
/-- A new weighted balance raises exactly if the minting speed leaves a day no blocks. -/
theorem SPoSCalc.raises_weightedBalaceCalc_iff {heightDiff : Int}
    {lastEffectiveBalance lastWeightedBalance cntEffectiveBalance : Int64}
    {fs : FunctionalitySettings} :
    Raises (weightedBalaceCalc heightDiff lastEffectiveBalance lastWeightedBalance
      cntEffectiveBalance fs) ↔ 86400 < fs.mintingSpeed := by
  constructor
  · intro h
    obtain ⟨balance, hok⟩ | ⟨hfast, -⟩ := @weightedBalaceCalc_ok_or_raise heightDiff
      lastEffectiveBalance lastWeightedBalance cntEffectiveBalance fs
    · rw [hok] at h
      exact absurd h Raises.ok
    · exact hfast
  · intro h
    rw [weightedBalaceCalc_of_fast h]
    exact Raises.raise

/-- The balance of an account to mint with has to be computed, and the settings leave no blocks for
it. -/
def SPoSCalc.Unweighed (fs : FunctionalitySettings) (s : StateView) (a : Address) (height : Nat) :
    Prop :=
  86400 < fs.mintingSpeed ∧ (s.lastUpdateHeight a).getD 0 ≠ height

section Differs

variable {fs : FunctionalitySettings} {height : Nat} {s : StateView}

/-- The minting balance of an account with linked snapshots raises exactly if it cannot be
weighed. -/
theorem SPoSCalc.raises_mintingBalance_iff {a : Address} (hs : s.SnapshotsLinked a) :
    Raises (mintingBalance s fs a height) ↔ Unweighed fs s a height := by
  have hwalks : s.Walks fs a := hs.walks
  obtain ⟨least, hleast⟩ := hwalks.minBySnapshot ((s.lastUpdateHeight a).getD 0) 0
    Snapshot.effectiveBalance
  rw [mintingBalance_eq hleast, Unweighed]
  split
  · rename_i hlast
    exact iff_of_false Raises.ok fun h => h.2 hlast
  · rename_i hlast
    rw [raises_weightedBalaceCalc_iff]
    exact (and_iff_left hlast).symm

/-- An account with linked snapshots has a minting balance unless it cannot be weighed. -/
theorem SPoSCalc.exists_mintingBalance {a : Address} (hs : s.SnapshotsLinked a)
    (h : ¬ Unweighed fs s a height) : ∃ balance, mintingBalance s fs a height = .ok balance := by
  have hwalks : s.Walks fs a := hs.walks
  refine (hwalks.mintingBalance height).resolve_right fun hraise => h ?_
  rw [← raises_mintingBalance_iff hs, hraise.2]
  exact Raises.raise

omit [Platform] in
/-- The sender is the one who has given the proof; there is none without one. -/
theorem Proofs.raises_headPublicKey_iff {p : Proofs} : Raises p.headPublicKey ↔ p.proofs = [] := by
  cases hp : p.proofs with
  | nil =>
      refine iff_of_true ?_ rfl
      rw [headPublicKey, hp]
      exact ⟨_, rfl⟩
  | cons proof rest =>
      have hcount := p.count
      rw [hp, List.length_cons] at hcount
      obtain rfl := List.length_eq_zero_iff.mp (Nat.le_zero.mp (Nat.le_of_succ_le_succ hcount))
      rw [headPublicKey_eq_ok_iff.mpr ⟨proof, hp, rfl⟩]
      exact iff_of_false Raises.ok (List.cons_ne_nil _ _)

/-- Resolving an alias does not raise. -/
theorem StateView.raises_resolveAliasEi {r : AddressOrAlias} : ¬ Raises (s.resolveAliasEi r) := by
  rcases r with a | a
  · exact Raises.ok
  · rw [resolveAliasEi]
    split
    · exact Raises.left
    · exact Raises.ok

/-- The diff of a payment raises exactly without a proof. -/
theorem PaymentTransactionDiff.raises_apply_iff {tx : PaymentTransaction} :
    Raises (apply height tx) ↔ tx.proofs.proofs = [] := by
  rw [apply, Raises.bind_iff, Proofs.raises_headPublicKey_iff]
  simp only [Raises.ok, and_false, exists_false, or_false]

/-- The diff of a lease raises exactly without a proof. -/
theorem LeaseTransactionsDiff.raises_lease_iff {tx : LeaseTransaction} :
    Raises (lease s height tx) ↔ tx.proofs.proofs = [] := by
  simp only [lease, Raises.bind_iff, Raises.ite_iff, Proofs.raises_headPublicKey_iff,
    StateView.raises_resolveAliasEi, Raises.left, Raises.ok, and_false, or_false, exists_false]

/-- The diff of a release raises exactly without a proof. -/
theorem ReleaseSlotsTransactionDiff.raises_apply_iff {tx : ReleaseSlotsTransaction} :
    Raises (apply s fs height tx) ↔ tx.proofs.proofs = [] := by
  simp only [apply, Raises.bind_iff, Raises.ite_iff, Proofs.raises_headPublicKey_iff, Raises.left,
    Raises.ok, and_false, or_false, exists_false]

/-- The diff of a database entry raises exactly without a proof. -/
theorem DbTransactionDiff.raises_put_iff {tx : DbPutTransaction} :
    Raises (put height tx) ↔ tx.proofs.proofs = [] := by
  have hkey : Raises tx.storageKey ↔ tx.proofs.proofs = [] := by
    rw [DbPutTransaction.storageKey, Raises.bind_iff, Proofs.raises_headPublicKey_iff]
    simp only [Raises.ok, and_false, exists_false, or_false]
  simp only [put, Raises.bind_iff, Raises.ite_iff, Proofs.raises_headPublicKey_iff, hkey,
    Raises.left, Raises.ok, and_false, or_false, false_or, exists_false]
  constructor
  · rintro (h | ⟨sender, -, -, -, h⟩)
    · exact h
    · exact h
  · exact .inl

/-- Finding a lease raises exactly if finding its transaction does. -/
theorem StateView.raises_findLeaseTransaction_iff {id : ByteStr} :
    Raises (s.findLeaseTransaction id) ↔ Raises (s.transactionInfo id) := by
  rw [findLeaseTransaction, Raises.bind_iff]
  constructor
  · rintro (h | ⟨info, -, h⟩)
    · exact h
    · split at h
      · exact absurd h Raises.ok
      · exact absurd h Raises.ok
  · exact .inl

/-- A lease that is found is a stored one. -/
theorem StateView.Attributed.lessor_of_find (hs : s.Attributed) {id : ByteStr}
    {l : LeaseTransaction} (h : s.findLeaseTransaction id = .ok (some l)) :
    ∃ sender, l.proofs.headPublicKey = .ok sender := by
  obtain ⟨info, hinfo, h⟩ := bind_eq_ok_iff.mp h
  split at h
  · rename_i height status fee tx
    obtain rfl := Option.some.inj (Except.ok.inj h)
    exact hs.lessor id height status fee tx hinfo
  · cases h

/-- An active lease of a regular state goes to an address. -/
theorem StateView.Regular.resolves {L : Finset LeaseTransaction} (hs : s.Regular L) {id : ByteStr}
    {l : LeaseTransaction} (h : s.findLeaseTransaction id = .ok (some l))
    (hactive : s.isLeaseActive l = true) : ∃ a, s.resolveAliasEi l.recipient = .ok a := by
  obtain ⟨a, b, -, hlessee, -⟩ := hs.ledger.parties l (hs.ledger.mem_of_active h hactive)
  rw [LeaseTransaction.lessee] at hlessee
  split at hlessee
  · rename_i recipient hrecipient
    rw [hrecipient]
    exact ⟨recipient, rfl⟩
  · cases hlessee

/-- A cancellation raises where its lease cannot be read, and without a proof where the lease is
active. -/
theorem LeaseTransactionsDiff.raises_leaseCancel_iff {L : Finset LeaseTransaction}
    (hs : s.Regular L) (hattributed : s.Attributed) {tx : LeaseCancelTransaction} :
    Raises (leaseCancel s height tx) ↔ Raises (s.transactionInfo tx.leaseId) ∨
      ∃ lease, s.findLeaseTransaction tx.leaseId = .ok (some lease) ∧
        s.isLeaseActive lease = true ∧ tx.proofs.proofs = [] := by
  rw [leaseCancel, Raises.bind_iff, StateView.raises_findLeaseTransaction_iff]
  refine or_congr_right ⟨?_, ?_⟩
  · rintro ⟨found, hfind, h⟩
    cases found with
    | none => exact absurd h Raises.left
    | some lease =>
        obtain ⟨sender, hsender⟩ := hattributed.lessor_of_find hfind
        simp only [hsender, Raises.bind_iff, StateView.raises_resolveAliasEi, Raises.ite_iff,
          Raises.ok, Raises.left, Proofs.raises_headPublicKey_iff, and_false, or_false, false_or,
          exists_false, Bool.not_eq_true, Bool.not_eq_false] at h
        obtain ⟨_, -, _, -, hactive, hproofs⟩ := h
        exact ⟨lease, hfind, hactive, hproofs⟩
  · rintro ⟨lease, hfind, hactive, hproofs⟩
    obtain ⟨sender, hsender⟩ := hattributed.lessor_of_find hfind
    obtain ⟨recipient, hrecipient⟩ := hs.resolves hfind hactive
    refine ⟨some lease, hfind, ?_⟩
    dsimp only
    rw [hrecipient, ok_bind, hsender, ok_bind, if_neg (not_not.mpr hactive), Raises.bind_iff]
    exact .inl (Proofs.raises_headPublicKey_iff.mpr hproofs)

/-- The account asks for a slot it may have: it has none, the slot is one, and it owns enough. -/
structure ContendSlotsTransactionDiff.Contends (fs : FunctionalitySettings) (s : StateView)
    (tx : ContendSlotsTransaction) (sender : PublicKeyAccount) : Prop where
  free : s.addressSlot sender.toAddress.address = none
  valid : isValidSlotID fs tx.slotId.toInt = true
  owns : SPoSCalc.MinimalEffectiveBalanceForContender
    ≤ (s.accountPortfolio sender.toAddress).effectiveBalance - tx.fee

/-- A contender raises where the weighted balance of the account or of the owner of the slot does. -/
theorem ContendSlotsTransactionDiff.raises_apply_iff (hattributed : s.Attributed)
    (hsnapshots : ∀ a, s.SnapshotsLinked a) {tx : ContendSlotsTransaction} :
    Raises (apply s fs height tx) ↔ tx.proofs.proofs = [] ∨
      ∃ sender, tx.proofs.headPublicKey = .ok sender ∧ Contends fs s tx sender ∧
        (SPoSCalc.Unweighed fs s sender.toAddress height ∨
          ∃ owner : Address, s.slotAddress tx.slotId.toInt = some owner.address ∧
            SPoSCalc.Unweighed fs s owner height) := by
  have hcount : ¬ Proofs.MaxProofs < tx.proofs.proofs.length := Nat.not_lt.mpr tx.proofs.count
  rw [apply, Raises.bind_iff, Proofs.raises_headPublicKey_iff]
  refine or_congr_right (exists_congr fun sender => and_congr_right fun hsender => ?_)
  dsimp only
  rw [if_neg hcount]
  by_cases hasks : ¬ (s.addressSlot sender.toAddress.address).isSome ∧
      isValidSlotID fs tx.slotId.toInt
  · rw [if_pos hasks]
    by_cases howns : (s.accountPortfolio sender.toAddress).effectiveBalance - tx.fee
        < SPoSCalc.MinimalEffectiveBalanceForContender
    · rw [if_pos howns]
      exact iff_of_false Raises.ok fun h => absurd h.1.owns (Int64.not_le.mpr howns)
    · have hcontends : Contends fs s tx sender :=
        ⟨by simpa using hasks.1, hasks.2, Int64.not_lt.mp howns⟩
      rw [if_neg howns, and_iff_right hcontends, Raises.bind_iff,
        SPoSCalc.raises_mintingBalance_iff (hsnapshots _)]
      by_cases hsender' : SPoSCalc.Unweighed fs s sender.toAddress height
      · exact iff_of_true (.inl hsender') (.inl hsender')
      · rw [or_iff_right hsender', or_iff_right hsender']
        obtain ⟨gen, hgen⟩ := SPoSCalc.exists_mintingBalance (hsnapshots _) hsender'
        cases hslot : s.slotAddress tx.slotId.toInt with
        | none =>
            simp only [ok_bind, Raises.ite_iff, Raises.ok, and_false, or_false, exists_false,
              false_and, reduceCtorEq]
        | some text =>
            obtain ⟨owner, rfl⟩ := hattributed.owner _ _ hslot
            simp only [Address.fromString_address, ok_bind, Raises.bind_iff, Raises.ite_iff,
              Raises.ok, and_false, or_false, exists_false,
              SPoSCalc.raises_mintingBalance_iff (hsnapshots _), hgen]
            constructor
            · rintro ⟨-, -, h⟩
              exact ⟨owner, rfl, h⟩
            · rintro ⟨owner', howner, h⟩
              obtain rfl := Address.address_injective (Option.some.inj howner)
              exact ⟨gen, rfl, h⟩
  · rw [if_neg hasks]
    refine iff_of_false ?_ fun h => hasks ⟨?_, h.1.valid⟩
    · split
      · exact Raises.left
      · exact Raises.left
    · rw [h.1.free]
      exact Bool.false_ne_true

omit [Platform] in
/-- Proofs have a first public key unless there are none. -/
theorem Proofs.exists_headPublicKey {p : Proofs} (h : p.proofs ≠ []) :
    ∃ sender, p.headPublicKey = .ok sender := by
  obtain ⟨proof, rest, hp⟩ := List.exists_cons_of_ne_nil h
  have hcount := p.count
  rw [hp, List.length_cons] at hcount
  obtain rfl := List.length_eq_zero_iff.mp (Nat.le_zero.mp (Nat.le_of_succ_le_succ hcount))
  exact ⟨proof.publicKey, headPublicKey_eq_ok_iff.mpr ⟨proof, hp, rfl⟩⟩

omit [Platform] in
/-- Every proof names its signer. -/
theorem ExecutionContext.signersOf_eq (p : Proofs) :
    signersOf p = .ok (p.proofs.map EllipticCurve25519Proof.publicKey) := by
  rw [signersOf]
  induction p.proofs with
  | nil => rfl
  | cons proof rest ih =>
      rw [List.mapM_cons, ih, EllipticCurve25519Proof.fromBytes_bytes]
      rfl

/-- The diff of a contract transaction raises exactly if its opcodes do, for none of its own
steps does. -/
theorem contractDiff_raises_iff {tx : Transaction} {sender : PublicKeyAccount} {fee : Int64}
    {contracts : Dict ByteStr (Nat × ByteStr × Contract × Finset Address)}
    {fromValidationError : ValidationError → TransactionStatus} {outcome : Result OpcDiff} :
    Raises (contractDiff height tx sender fee contracts fromValidationError outcome)
      ↔ Raises outcome := by
  unfold contractDiff
  split
  · exact iff_of_false Raises.ok Raises.ok
  · exact iff_of_false Raises.ok Raises.left
  · exact iff_of_true Raises.raise Raises.raise

/-- A function that raises for a signed transaction. -/
structure OpcFuncDiffer.Crashes (context : ExecutionContext) (data : List DataEntry) : Prop where
  runs : Runs context data
  reaches : ReachesCrash context data (opcLines context.opcFunc)

/-- A function called with the signers of proofs raises exactly if it crashes. -/
theorem OpcFuncDiffer.raises_iff_crashes {context : ExecutionContext} {data : List DataEntry}
    {p : Proofs} (hp : p.proofs ≠ [])
    (hsigners : ExecutionContext.signersOf p = .ok context.signers) :
    Raises (apply context data) ↔ Crashes context data := by
  rw [ExecutionContext.signersOf_eq] at hsigners
  rw [raises_apply_iff (by rw [← Except.ok.inj hsigners]; simpa using hp)]
  exact ⟨fun h => ⟨h.1, h.2⟩, fun h => ⟨h.runs, h.reaches⟩⟩

/-- What both contract differs do raises without a proof, where the context cannot be read, and where
the function crashes. -/
theorem raises_contract_iff {tx : Transaction} {p : Proofs} {fee : Int64} {data : List DataEntry}
    {contracts : PublicKeyAccount → Dict ByteStr (Nat × ByteStr × Contract × Finset Address)}
    {fromValidationError : ValidationError → TransactionStatus} {exContext : Result ExecutionContext}
    (hsigners : ∀ context, exContext = .ok context →
      ExecutionContext.signersOf p = .ok context.signers) :
    Raises (p.headPublicKey >>= fun sender =>
        contractDiff height tx sender fee (contracts sender) fromValidationError do
          let context ← exContext
          OpcFuncDiffer.apply context data)
      ↔ p.proofs = [] ∨ Raises exContext ∨
        ∃ context, exContext = .ok context ∧ OpcFuncDiffer.Crashes context data := by
  rw [Raises.bind_iff, Proofs.raises_headPublicKey_iff]
  by_cases hp : p.proofs = []
  · exact iff_of_true (.inl hp) (.inl hp)
  · obtain ⟨sender, hsender⟩ := Proofs.exists_headPublicKey hp
    have hcrashes (context : ExecutionContext) :
        (exContext = .ok context ∧ Raises (OpcFuncDiffer.apply context data)) ↔
          exContext = .ok context ∧ OpcFuncDiffer.Crashes context data :=
      and_congr_right fun h => OpcFuncDiffer.raises_iff_crashes hp (hsigners context h)
    rw [or_iff_right hp, or_iff_right hp, ← exists_congr hcrashes, ← Raises.bind_iff]
    constructor
    · rintro ⟨_, -, h⟩
      exact contractDiff_raises_iff.mp h
    · intro h
      exact ⟨sender, hsender, contractDiff_raises_iff.mpr h⟩

/-- A registration raises without a proof, and where the trigger of the contract crashes. -/
theorem RegisterContractTransactionDiff.raises_apply_iff {tx : RegisterContractTransaction.Checked} :
    Raises (apply s height tx) ↔ tx.proofs.proofs = [] ∨
      ∃ context, ExecutionContext.fromRegConTx s height tx = .ok context ∧
        OpcFuncDiffer.Crashes context tx.data := by
  have hcount : ¬ Proofs.MaxProofs < tx.proofs.proofs.length := Nat.not_lt.mpr tx.proofs.count
  have hcontext : ¬ Raises (ExecutionContext.fromRegConTx s height tx) := by
    rw [ExecutionContext.fromRegConTx, ExecutionContext.signersOf_eq, ok_bind]
    exact Raises.ok
  rw [apply, if_neg hcount, raises_contract_iff, or_iff_right hcontext]
  intro context h
  obtain ⟨signers, hsigners, rfl⟩ := ExecutionContext.fromRegConTx_eq_ok h
  exact hsigners

/-- An execution raises without a proof, and where the contract cannot be read or its function
crashes. -/
theorem ExecuteContractFunctionTransactionDiff.raises_apply_iff
    {tx : ExecuteContractFunctionTransaction.Checked} :
    Raises (apply s height tx) ↔ tx.proofs.proofs = [] ∨
      Raises (s.contractContent tx.contractId.bytes) ∨
      ∃ context, ExecutionContext.fromExeConTx s height tx = .ok context ∧
        OpcFuncDiffer.Crashes context tx.data := by
  have hcount : ¬ Proofs.MaxProofs < tx.proofs.proofs.length := Nat.not_lt.mpr tx.proofs.count
  have hcontext : Raises (ExecutionContext.fromExeConTx s height tx) ↔
      Raises (s.contractContent tx.contractId.bytes) := by
    rw [ExecutionContext.fromExeConTx, ExecutionContext.signersOf_eq, ok_bind, Raises.bind_iff]
    constructor
    · rintro (h | ⟨content, -, h⟩)
      · exact h
      · split at h
        · split at h
          · exact absurd h Raises.ok
          · exact absurd h Raises.left
        · exact absurd h Raises.left
    · exact .inl
  rw [apply, if_neg hcount, ← hcontext]
  refine raises_contract_iff fun context h => ?_
  obtain ⟨signers, _, _, _, _, hsigners, -, -, -, rfl⟩ := ExecutionContext.fromExeConTx_eq_ok h
  exact hsigners

namespace TransactionDiffer

/-- The transaction passes the checks that come before anything takes its sender. -/
structure Examined (fs : FunctionalitySettings) (prev : Option Int64) (timestamp : Int64)
    (height : Nat) (s : StateView) (tx : Transaction) : Prop where
  signed : tx.signatureValid = true
  notFromFuture : CommonValidation.disallowTxFromFuture timestamp tx = .ok ()
  notFromPast : CommonValidation.disallowTxFromPast prev tx = .ok ()
  activated : CommonValidation.disallowBeforeActivationHeight fs height tx = .ok ()
  fresh : s.containsTransaction tx.id = false

/-- What makes the differ of a transaction raise. -/
def Crashes (fs : FunctionalitySettings) (height : Nat) (s : StateView) : Transaction → Prop
  | .payment tx => tx.proofs.proofs = []
  | .lease tx => tx.proofs.proofs = []
  | .leaseCancel tx => Raises (s.transactionInfo tx.leaseId) ∨
      ∃ lease, s.findLeaseTransaction tx.leaseId = .ok (some lease) ∧
        s.isLeaseActive lease = true ∧ tx.proofs.proofs = []
  | .contendSlots tx => tx.proofs.proofs = [] ∨
      ∃ sender, tx.proofs.headPublicKey = .ok sender ∧
        ContendSlotsTransactionDiff.Contends fs s tx sender ∧
        (SPoSCalc.Unweighed fs s sender.toAddress height ∨
          ∃ owner : Address, s.slotAddress tx.slotId.toInt = some owner.address ∧
            SPoSCalc.Unweighed fs s owner height)
  | .releaseSlots tx => tx.proofs.proofs = []
  | .registerContract tx => tx.proofs.proofs = [] ∨
      ∃ context, ExecutionContext.fromRegConTx s height tx = .ok context ∧
        OpcFuncDiffer.Crashes context tx.data
  | .executeContractFunction tx => tx.proofs.proofs = [] ∨
      Raises (s.contractContent tx.contractId.bytes) ∨
      ∃ context, ExecutionContext.fromExeConTx s height tx = .ok context ∧
        OpcFuncDiffer.Crashes context tx.data
  | .dbPut tx => tx.proofs.proofs = []
  | _ => False

variable {prev : Option Int64} {timestamp : Int64} {tx : Transaction}

/-- The transaction's own differ raises where it crashes. -/
theorem raises_ownDiff_iff {L : Finset LeaseTransaction} (hs : s.Regular L)
    (hattributed : s.Attributed) (hsnapshots : ∀ a, s.SnapshotsLinked a) :
    Raises (ownDiff fs height s tx) ↔ Crashes fs height s tx := by
  cases tx with
  | genesis tx =>
      refine iff_of_false ?_ id
      simp only [ownDiff, GenesisTransactionDiff.apply, Raises.ite_iff, Raises.left, Raises.ok,
        and_false, or_false, not_false_eq_true]
  | payment tx => exact PaymentTransactionDiff.raises_apply_iff
  | lease tx => exact LeaseTransactionsDiff.raises_lease_iff
  | leaseCancel tx => exact LeaseTransactionsDiff.raises_leaseCancel_iff hs hattributed
  | minting tx =>
      refine iff_of_false ?_ id
      simp only [ownDiff, MintingTransactionDiff.apply, Raises.ite_iff, Raises.left, Raises.ok,
        and_false, or_false, not_false_eq_true]
  | contendSlots tx => exact ContendSlotsTransactionDiff.raises_apply_iff hattributed hsnapshots
  | releaseSlots tx => exact ReleaseSlotsTransactionDiff.raises_apply_iff
  | registerContract tx => exact RegisterContractTransactionDiff.raises_apply_iff
  | executeContractFunction tx => exact ExecuteContractFunctionTransactionDiff.raises_apply_iff
  | dbPut tx => exact DbTransactionDiff.raises_put_iff
  | legacy tx => exact iff_of_false Raises.left id

/-- An examined transaction has a valid fee scale. -/
theorem Examined.feeScale (h : Examined fs prev timestamp height s tx) :
    CommonValidation.disallowInvalidFeeScale tx = .ok () := by
  rw [CommonValidation.disallowInvalidFeeScale, cond_eq_ok_iff]
  cases tx with
  | genesis tx => rfl
  | minting tx => rfl
  | legacy tx => cases h.activated
  | _ tx => exact tx.feeScale_eq

omit [Platform] in
/-- A check that refuses does not raise. -/
theorem raises_cond {p : Prop} [Decidable p] {e : ValidationError} : ¬ Raises (cond p e) := by
  rw [cond, ensure]
  split
  · exact Raises.ok
  · exact Raises.left

/-- The common checks pass exactly if the transaction is examined and its sender can pay. -/
theorem commonChecks_eq_ok_iff :
    commonChecks fs prev timestamp height s tx = .ok () ↔
      Examined fs prev timestamp height s tx ∧
        CommonValidation.disallowSendingGreaterThanBalance s tx = .ok () := by
  constructor
  · intro h
    obtain ⟨_, hsigned, h⟩ := bind_eq_ok_iff.mp h
    obtain ⟨_, hfuture, h⟩ := bind_eq_ok_iff.mp h
    obtain ⟨_, hpast, h⟩ := bind_eq_ok_iff.mp h
    obtain ⟨_, hactivated, h⟩ := bind_eq_ok_iff.mp h
    obtain ⟨_, hfresh, h⟩ := bind_eq_ok_iff.mp h
    obtain ⟨_, hsending, -⟩ := bind_eq_ok_iff.mp h
    exact ⟨⟨cond_eq_ok_iff.mp hsigned, hfuture, hpast, hactivated, cond_eq_ok_iff.mp hfresh⟩,
      hsending⟩
  · rintro ⟨h, hsending⟩
    have hsigned : tx.validateSignatures = .ok () := cond_eq_ok_iff.mpr h.signed
    have hfresh : CommonValidation.disallowDuplicateIds s height tx = .ok () :=
      cond_eq_ok_iff.mpr h.fresh
    rw [commonChecks, hsigned, ok_bind, h.notFromFuture, ok_bind, h.notFromPast, ok_bind,
      h.activated, ok_bind, hfresh, ok_bind, hsending, ok_bind]
    exact h.feeScale

/-- The common checks raise exactly if the transaction is examined and the check of the sender's
balance raises. -/
theorem raises_commonChecks_iff :
    Raises (commonChecks fs prev timestamp height s tx) ↔
      Examined fs prev timestamp height s tx ∧
        Raises (CommonValidation.disallowSendingGreaterThanBalance s tx) := by
  have hpast : ¬ Raises (CommonValidation.disallowTxFromPast prev tx) := by
    cases prev with
    | none => exact Raises.ok
    | some t => exact raises_cond
  have hactivated : ¬ Raises (CommonValidation.disallowBeforeActivationHeight fs height tx) := by
    cases tx with
    | registerContract tx => exact raises_cond
    | executeContractFunction tx => exact raises_cond
    | legacy tx => exact Raises.left
    | _ tx => exact Raises.ok
  rw [commonChecks]
  simp only [Raises.bind_iff, Transaction.validateSignatures, CommonValidation.disallowTxFromFuture,
    CommonValidation.disallowDuplicateIds, CommonValidation.disallowInvalidFeeScale, raises_cond,
    hpast, hactivated, false_or, and_false, exists_false, or_false, cond_eq_ok_iff]
  constructor
  · rintro ⟨_, hsigned, _, hfuture, _, hpast, _, hactivated, _, hfresh, h⟩
    exact ⟨⟨hsigned, cond_eq_ok_iff.mpr hfuture, hpast, hactivated, hfresh⟩, h⟩
  · rintro ⟨h, hraise⟩
    exact ⟨(), h.signed, (), cond_eq_ok_iff.mp h.notFromFuture, (), h.notFromPast, (), h.activated,
      (), h.fresh, hraise⟩

/-- The check of the sender's balance raises exactly for a payment without a proof. -/
theorem raises_disallowSending_iff :
    Raises (CommonValidation.disallowSendingGreaterThanBalance s tx) ↔
      ∃ ptx, tx = .payment ptx ∧ ptx.proofs.proofs = [] := by
  cases tx with
  | payment ptx =>
      rw [CommonValidation.disallowSendingGreaterThanBalance, Raises.bind_iff,
        Proofs.raises_headPublicKey_iff]
      simp only [raises_cond, and_false, exists_false, or_false, Transaction.payment.injEq,
        exists_eq_left']
  | _ tx => exact iff_of_false Raises.ok fun ⟨_, h, _⟩ => by cases h

/-- A transaction raises exactly if it is examined and its own differ raises: the check of the
balance takes the sender of a payment as its differ does. -/
theorem raises_apply_iff :
    Raises (apply fs prev timestamp height s tx) ↔
      Examined fs prev timestamp height s tx ∧ Raises (ownDiff fs height s tx) := by
  have hbalances (d : Diff) : ¬ Raises (BalanceDiffValidation.apply s d) := by
    rw [BalanceDiffValidation.apply]
    split
    · exact Raises.ok
    · exact Raises.left
  have hpositive : Raises (apply fs prev timestamp height s tx) ↔
      Raises (commonChecks fs prev timestamp height s tx >>= fun _ =>
        ownDiff fs height s tx >>= BalanceDiffValidation.apply s) := by
    unfold apply
    dsimp only
    split
    · rename_i e h
      rw [h]
      exact iff_of_false Raises.left Raises.left
    · rfl
  rw [hpositive, Raises.bind_iff, raises_commonChecks_iff, Raises.bind_iff]
  simp only [hbalances, and_false, exists_false, or_false]
  constructor
  · rintro (⟨h, hraise⟩ | ⟨_, hok, hraise⟩)
    · obtain ⟨ptx, rfl, hproofs⟩ := raises_disallowSending_iff.mp hraise
      exact ⟨h, PaymentTransactionDiff.raises_apply_iff.mpr hproofs⟩
    · exact ⟨(commonChecks_eq_ok_iff.mp hok).1, hraise⟩
  · rintro ⟨h, hraise⟩
    cases tx with
    | payment ptx =>
        have hproofs := PaymentTransactionDiff.raises_apply_iff.mp hraise
        exact .inl ⟨h, raises_disallowSending_iff.mpr ⟨ptx, rfl, hproofs⟩⟩
    | _ tx => exact .inr ⟨(), commonChecks_eq_ok_iff.mpr ⟨h, rfl⟩, hraise⟩

end TransactionDiffer

end Differs

section Chain

variable {fs : FunctionalitySettings} {done : List ProcessedTransaction} {s : StateView}

/-- The snapshots of a state on the way are linked: the block in part has none. -/
theorem Passed.snapshotsLinked (h : Passed fs done s) (a : Address) : s.SnapshotsLinked a := by
  cases h with
  | intro blocks r hr prev timestamp txs d hd => exact (hr.snapshotsLinked a).congr rfl rfl

/-- In a state on the way of a chain, a transaction is decided exactly if it does not reach its own
differ, or its differ does not crash. -/
theorem Passed.differ_total_iff (h : Passed fs done s) (prev : Option Int64) (timestamp : Int64)
    (height : Nat) (tx : Transaction) :
    ¬ Raises (TransactionDiffer.apply fs prev timestamp height s tx) ↔
      (TransactionDiffer.Examined fs prev timestamp height s tx →
        ¬ TransactionDiffer.Crashes fs height s tx) := by
  obtain ⟨L, hL⟩ := h.regular
  rw [TransactionDiffer.raises_apply_iff, TransactionDiffer.raises_ownDiff_iff hL
    ((attributed_invariant fs).passed h) h.snapshotsLinked, not_and]

end Chain

end Platform

namespace Sample

/-- The first block, with nothing of the next one. -/
theorem afterGenesis_passed : Passed fs genesisBlock.transactionData
    (view afterGenesis.1.toStateView Diff.empty.asBlockDiff) :=
  .intro [genesisBlock] _ (StateOf.of_replay replay_genesisBlock) none 1 [] Diff.empty rfl

/-- A payment of the owner's that a peer sends, with these proofs. -/
def sentPayment (proofs : Proofs) : PaymentTransaction :=
  ⟨tenant, 5, 100, 100, 1, [], proofs, noAttachment_length, amount_pos, fee_pos, amount_fee,
    feeScale_eq⟩

/-- A payment without a proof is read from its bytes, and its check raises. -/
theorem sentPayment_raises :
    ∃ done s, Passed fs done s ∧ ∃ bytes tx, TransactionParser.parseBytes bytes = .ok tx ∧
      Raises (TransactionDiffer.apply fs none 1 2 s tx) :=
  ⟨_, _, afterGenesis_passed, (Transaction.payment (sentPayment ⟨[], by decide, by decide⟩)).bytes,
    .payment (sentPayment ⟨[], by decide, by decide⟩), by decide +kernel, by decide +kernel⟩

/-- The payment with its proof is decided. -/
theorem sentPayment_decided : ¬ Raises (TransactionDiffer.apply fs none 1 2
    (view afterGenesis.1.toStateView Diff.empty.asBlockDiff) (.payment (sentPayment proofs))) :=
  (afterGenesis_passed.differ_total_iff none 1 2 (.payment (sentPayment proofs))).mpr
    fun _ h => List.cons_ne_nil _ _ h

end Sample

end Vsys
