import Mathlib.Tactic.Ring
import Vsys.Chain.Coordinator
import Vsys.Chain.Replay
import Vsys.Sample

/-!
# The coins of a chain

How many coins there are after a chain of accepted blocks, and that no coin is both leased out and
spent: neither between blocks nor between the transactions of one.
-/

namespace Vsys

open Lib

open scoped Ledger

section Platform

variable [Platform]

/-- The amount of a genesis transaction. -/
def Transaction.genesisAmount : Transaction → Int
  | .genesis tx => tx.amount.toInt
  | _ => 0

/-- The amounts of the genesis transactions of a block. -/
def Block.genesisAmounts (b : Block) : Int := (b.transactions.map Transaction.genesisAmount).sum

/-- The number of minting transactions of a block. -/
def Block.mintings (b : Block) : Nat :=
  (b.transactions.filter fun tx => tx.transactionType = .mintingTransaction).length

/-- The fees charged for the transactions of a block that are neither genesis nor minting
transactions. -/
def Block.feesCharged (b : Block) : Int :=
  ((b.transactionData.filter fun p => p.transaction.transactionType ≠ .genesisTransaction ∧
    p.transaction.transactionType ≠ .mintingTransaction).map fun p => p.feeCharged.toInt).sum

section Accepted

variable {fs : FunctionalitySettings} {s : StateView} {prev : Option Int64} {timestamp : Int64}
  {height : Nat} {tx : Transaction} {d : Diff}

/-- A genesis transaction is accepted at the first height alone, and is free. -/
theorem HasEffect.genesis (h : HasEffect fs height s tx d)
    (htype : tx.transactionType = .genesisTransaction) : height = 1 ∧ d.chargedFee = 0 := by
  obtain ⟨c, related, h, rfl⟩ := h
  cases h with
  | genesis tx hheight => exact ⟨hheight, rfl⟩
  | genesisSlot tx hheight => exact ⟨hheight, rfl⟩
  | _ => cases htype

/-- A minting transaction is free. -/
theorem HasEffect.minting (h : HasEffect fs height s tx d)
    (htype : tx.transactionType = .mintingTransaction) : d.chargedFee = 0 := by
  obtain ⟨c, related, h, rfl⟩ := h
  cases h with
  | minting tx => rfl
  | _ => cases htype

/-- Every transaction of a block has been accepted on a state on the way, with the status and the
fee the block claims. -/
theorem BlockDiffer.accepted_of_foldlM {txs : List ProcessedTransaction} {d d' : Diff}
    (h : txs.foldlM (txStep fs s prev timestamp height) d = .ok d') :
    ∀ p ∈ txs, ∃ s' e, TransactionDiffer.apply fs prev timestamp height s' p.transaction = .ok e ∧
      e.chargedFee = p.feeCharged ∧ e.txStatus = p.status := by
  induction txs generalizing d with
  | nil => simp
  | cons tx txs ih =>
      obtain ⟨u, htx, htxs⟩ := foldlM_cons_eq_ok_iff.mp h
      obtain ⟨e, happly, hfee, hstatus, -⟩ := txStep_eq_ok htx
      exact List.forall_mem_cons.mpr ⟨⟨_, e, happly, hfee, hstatus⟩, ih htxs⟩

end Accepted

/-- What a transaction brings and takes, when genesis and minting transactions are free. -/
theorem minted_sub_fee (p : ProcessedTransaction)
    (hfree : p.transaction.transactionType = .genesisTransaction ∨
      p.transaction.transactionType = .mintingTransaction → p.feeCharged = 0) :
    p.transaction.minted - p.feeCharged.toInt = p.transaction.genesisAmount
      + (if p.transaction.transactionType = .mintingTransaction then MintingReward.toInt else 0)
      - (if p.transaction.transactionType ≠ .genesisTransaction ∧
          p.transaction.transactionType ≠ .mintingTransaction then p.feeCharged.toInt else 0) := by
  obtain ⟨status, fee, tx⟩ := p
  cases tx with
  | genesis tx =>
      obtain rfl := hfree (.inl rfl)
      simp [Transaction.minted, Transaction.genesisAmount, Transaction.transactionType]
  | minting tx =>
      obtain rfl := hfree (.inr rfl)
      simp [Transaction.minted, Transaction.genesisAmount, Transaction.transactionType]
  | legacy tx =>
      have hgenesis : tx.transactionType ≠ .genesisTransaction := fun h =>
        absurd (h ▸ tx.legacy) (by decide)
      have hminting : tx.transactionType ≠ .mintingTransaction := fun h =>
        absurd (h ▸ tx.legacy) (by decide)
      simp [Transaction.minted, Transaction.genesisAmount, Transaction.transactionType, hgenesis,
        hminting]
  | _ => simp [Transaction.minted, Transaction.genesisAmount, Transaction.transactionType]

/-- What a block brings and takes, when its genesis and minting transactions are free. -/
theorem Block.issue_eq (b : Block)
    (hfree : ∀ p ∈ b.transactionData, p.transaction.transactionType = .genesisTransaction ∨
      p.transaction.transactionType = .mintingTransaction → p.feeCharged = 0) :
    b.issue = b.genesisAmounts + MintingReward.toInt * b.mintings - b.feesCharged := by
  unfold issue genesisAmounts mintings feesCharged transactions
  generalize b.transactionData = txs at hfree
  induction txs with
  | nil => simp
  | cons p txs ih =>
      have htail := ih fun q hq => hfree q (List.mem_cons_of_mem p hq)
      have hp := minted_sub_fee p (hfree p List.mem_cons_self)
      rw [List.map_cons, List.sum_cons, htail, hp]
      simp only [List.map_cons, List.sum_cons, List.filter_cons, decide_eq_true_eq]
      split_ifs <;> push_cast [List.length_cons, List.map_cons, List.sum_cons] <;> ring

/-- Chains of accepted blocks and the states they lead to: a first block of genesis transactions,
and blocks that pass the consensus check, against some history and clock, and the differ. -/
inductive AcceptedChain (fs : FunctionalitySettings) :
    List Block → StateReader × Option Int64 → Prop
  | genesis (b : Block) (st : StateReader × Option Int64)
      (hgenesis : ∀ tx ∈ b.transactions, tx.transactionType = .genesisTransaction)
      (h : replayStep fs (initialState, none) b = .ok st) : AcceptedChain fs [b] st
  | append {blocks : List Block} {st : StateReader × Option Int64}
      (hchain : AcceptedChain fs blocks st) (b : Block) (st' : StateReader × Option Int64)
      (history : History) (currentTs : Int64)
      (hconsensus : Coordinator.blockConsensusValidation fs history st.1.toStateView currentTs b
        = .ok ())
      (h : replayStep fs st b = .ok st') : AcceptedChain fs (blocks ++ [b]) st'

section Conservation

variable {fs : FunctionalitySettings} {blocks : List Block} {st st' : StateReader × Option Int64}
  {b : Block} {L : Finset LeaseTransaction}

/-- The consensus check lets a block have one minting transaction. -/
theorem Coordinator.mintings_of_consensus {history : History} {s : StateView} {currentTs : Int64}
    (h : blockConsensusValidation fs history s currentTs b = .ok ()) : b.mintings = 1 := by
  obtain ⟨_, -, h⟩ := bind_eq_ok_iff.mp h
  obtain ⟨_, -, h⟩ := bind_eq_ok_iff.mp h
  obtain ⟨parent, -, h⟩ := bind_eq_ok_iff.mp h
  match parent, h with
  | some parent, h =>
      dsimp only at h
      split at h
      · cases h
      · obtain ⟨_, -, h⟩ := bind_eq_ok_iff.mp h
        obtain ⟨_, -, h⟩ := bind_eq_ok_iff.mp h
        obtain ⟨_, -, h⟩ := bind_eq_ok_iff.mp h
        obtain ⟨_, -, h⟩ := bind_eq_ok_iff.mp h
        obtain ⟨_, -, h⟩ := bind_eq_ok_iff.mp h
        obtain ⟨_, -, h⟩ := bind_eq_ok_iff.mp h
        obtain ⟨_, -, h⟩ := bind_eq_ok_iff.mp h
        obtain ⟨_, -, h⟩ := bind_eq_ok_iff.mp h
        exact cond_eq_ok_iff.mp h

/-- One block: the state after it is regular, one higher, and has what the block brings and
takes. -/
theorem replayStep_supply (hs : st.1.Regular L) (h : replayStep fs st b = .ok st') :
    (∃ L', st'.1.Regular L') ∧ st'.1.height = st.1.height + 1 ∧
      st'.1.supply = st.1.supply + b.genesisAmounts + MintingReward.toInt * b.mintings
        - b.feesCharged ∧
      (st.1.height ≠ 0 → b.genesisAmounts = 0) := by
  obtain ⟨d, hd, rfl⟩ := replayStep_eq_ok h
  obtain ⟨-, hheight, hregular, hsupply⟩ := BlockDiffer.fromBlock_regular hs hd
  obtain ⟨diff, snapshots, hfold, -, -⟩ := BlockDiffer.fromBlock_eq_ok hd
  have haccepted := BlockDiffer.accepted_of_foldlM hfold
  have hfree : ∀ p ∈ b.transactionData, p.transaction.transactionType = .genesisTransaction ∨
      p.transaction.transactionType = .mintingTransaction → p.feeCharged = 0 := by
    intro p hp htype
    obtain ⟨s', e, happly, hfee, -⟩ := haccepted p hp
    obtain ⟨-, heffect, -⟩ := TransactionDiffer.apply_eq_ok happly
    obtain hgenesis | hminting := htype
    · exact hfee.symm.trans (heffect.genesis hgenesis).2
    · exact hfee.symm.trans (heffect.minting hminting)
  refine ⟨hregular, ?_, ?_, fun hne => ?_⟩
  · change st.1.height + d.heightDiff = _
    rw [hheight]
  · refine hsupply.trans ?_
    rw [b.issue_eq hfree]
    ring
  · refine List.sum_eq_zero fun x hx => ?_
    obtain ⟨tx, htx, rfl⟩ := List.mem_map.mp hx
    obtain ⟨p, hp, rfl⟩ := List.mem_map.mp htx
    obtain ⟨s', e, happly, -, -⟩ := haccepted p hp
    obtain ⟨-, heffect, -⟩ := TransactionDiffer.apply_eq_ok happly
    have hnot : p.transaction.transactionType ≠ .genesisTransaction := fun htype =>
      hne (by have := (heffect.genesis htype).1; omega)
    cases htx : p.transaction with
    | genesis tx => exact absurd (congrArg Transaction.transactionType htx) hnot
    | _ => rfl

/-- What holds along a chain of accepted blocks. -/
theorem AcceptedChain.regular (h : AcceptedChain fs blocks st) :
    blocks ≠ [] ∧ st.1.height = blocks.length ∧ (∃ L, st.1.Regular L) ∧
      st.1.supply = (blocks.map Block.genesisAmounts).sum
        + MintingReward.toInt * blocks.tail.length - (blocks.map Block.feesCharged).sum := by
  induction h with
  | genesis b st hgenesis h =>
      obtain ⟨hregular, hheight, hsupply, -⟩ := replayStep_supply initialState_regular h
      have hmintings : b.mintings = 0 := by
        rw [Block.mintings, List.length_eq_zero_iff, List.filter_eq_nil_iff]
        intro tx htx
        rw [hgenesis tx htx]
        decide
      refine ⟨List.cons_ne_nil _ _, hheight, hregular, ?_⟩
      rw [hsupply, hmintings, initialState_supply]
      simp
  | append hchain b st' history currentTs hconsensus h ih =>
      obtain ⟨hne, hheight, ⟨L, hL⟩, hsupply⟩ := ih
      obtain ⟨hregular, hheight', hsupply', hgenesis⟩ := replayStep_supply hL h
      have hmintings := Coordinator.mintings_of_consensus hconsensus
      have hlength := List.length_pos_iff.mpr hne
      have hamounts := hgenesis (by omega)
      refine ⟨by simp, ?_, hregular, ?_⟩
      · rw [hheight', hheight, List.length_append, List.length_singleton]
      · rw [hsupply', hsupply, hmintings, List.map_append, List.map_append, List.sum_append,
          List.sum_append, List.tail_append_of_ne_nil hne]
        simp only [List.map_cons, List.map_nil, List.sum_cons, List.sum_nil, List.length_append,
          List.length_cons, List.length_nil]
        push_cast
        ring

/-- The coins after a chain of accepted blocks are the genesis amounts and the rewards of the other
blocks, less the fees; and whatever transaction is accepted next, at any height and time, it brings
and takes its own coins alone. -/
theorem AcceptedChain.supply_eq (h : AcceptedChain fs blocks st) :
    st.1.supply = (blocks.map Block.genesisAmounts).sum
        + MintingReward.toInt * blocks.tail.length - (blocks.map Block.feesCharged).sum ∧
      ∀ (prev : Option Int64) (timestamp : Int64) (height : Nat) (tx : Transaction) (d : Diff),
        TransactionDiffer.apply fs prev timestamp height st.1.toStateView tx = .ok d →
        (CompositeStateReader.view st.1.toStateView d.asBlockDiff).supply
          = st.1.supply + tx.minted - d.chargedFee.toInt := by
  obtain ⟨-, -, ⟨L, hL⟩, hsupply⟩ := h.regular
  refine ⟨hsupply, fun prev timestamp height tx d happly => ?_⟩
  obtain ⟨hnew, heffect, hsolvent⟩ := TransactionDiffer.apply_eq_ok happly
  exact (heffect.regular hL hnew hsolvent).2.2

end Conservation

end Platform

namespace Sample

/-- One slot, and contracts from the start. -/
def fs : FunctionalitySettings := ⟨1, 1, 0⟩

/-- The key of the one account of the chain. -/
def key : PublicKeyAccount := ⟨List.replicate 32 0⟩

/-- The one account of the chain. -/
def owner : Address := key.toAddress

/-- A signature for each block. -/
def signature (n : Byte) : ByteStr := List.replicate 64 n

/-- The coins the chain starts with. -/
def genesisTransaction : GenesisTransaction := ⟨owner, 1000000000, 0, 0, by decide⟩

/-- The first block. -/
def genesisBlock : Block :=
  ⟨0, 1, signature 0, ⟨key, signature 1⟩, ⟨0, 0⟩, [⟨.success, 0, .genesis genesisTransaction⟩]⟩

/-- The reward of the second block. -/
def mintingTransaction : MintingTransaction := ⟨owner, MintingReward, 1, 2, rfl⟩

/-- The second block. -/
def secondBlock : Block :=
  ⟨1, 1, signature 1, ⟨key, signature 2⟩, ⟨1, 0⟩, [⟨.success, 0, .minting mintingTransaction⟩]⟩

/-- The state after the first block. -/
def afterGenesis : StateReader × Option Int64 :=
  okOr (replayStep fs (initialState, none) genesisBlock) (initialState, none)

/-- The state after the second block. -/
def afterSecond : StateReader × Option Int64 :=
  okOr (replayStep fs afterGenesis secondBlock) (initialState, none)

/-- The history of the first block. -/
def history : History :=
  (okOr (History.empty.appendBlock genesisBlock (.ok BlockDiff.empty))
    (BlockDiff.empty, History.empty)).2

theorem replayStep_genesisBlock :
    replayStep fs (initialState, none) genesisBlock = .ok afterGenesis :=
  eq_ok_okOr (by decide +kernel)

theorem replayStep_secondBlock : replayStep fs afterGenesis secondBlock = .ok afterSecond :=
  eq_ok_okOr (by decide +kernel)

theorem acceptedChain : AcceptedChain fs [genesisBlock, secondBlock] afterSecond :=
  .append (.genesis genesisBlock afterGenesis (by decide) replayStep_genesisBlock) secondBlock
    afterSecond history 1 (by decide +kernel) replayStep_secondBlock

/-- The coins after the two blocks: the genesis amount and one reward. -/
theorem afterSecond_supply : afterSecond.1.supply = 1050000000 :=
  (acceptedChain.supply_eq).1.trans (by decide +kernel)

end Sample

end Vsys
