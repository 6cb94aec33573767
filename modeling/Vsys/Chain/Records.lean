import Vsys.Chain.Layers

/-!
# The transactions of the chain

A state records the transactions of a chain: it knows each under its identifier, with its height and
its status, and knows no others.  Every diff adds the transactions of its blocks, wherever it is
laid, combined or written.
-/

namespace Vsys

open Lib CompositeStateReader

section Platform

variable [Platform]

/-- A processed transaction of the block at a height. -/
def InChain (blocks : List Block) (h : Nat) (p : ProcessedTransaction) : Prop :=
  ∃ i b, h = i + 1 ∧ blocks[i]? = some b ∧ p ∈ b.transactionData

/-- A state that knows the transactions of a chain, and no others. -/
structure Records (s : StateView) (blocks : List Block) : Prop where
  height : s.height = blocks.length
  info : ∀ id h p, s.transactionInfo id = .ok (some (h, p)) ↔
    InChain blocks h p ∧ p.transaction.id = id
  contains : ∀ id, s.containsTransaction id = true ↔ ∃ h p, InChain blocks h p ∧ p.transaction.id = id
  absent : ∀ id, s.containsTransaction id = false → s.transactionInfo id = .ok none
  unique : (blocks.flatMap fun b => b.transactions.map Transaction.id).Nodup
  legacy : ∀ h p, InChain blocks h p → p.transaction.transactionType.id ≤ 10

/-- What a state knows of its transactions. -/
def StateView.chain (s : StateView) :
    Nat × (ByteStr → Result (Option (Nat × ProcessedTransaction))) × (ByteStr → Bool) :=
  (s.height, s.transactionInfo, s.containsTransaction)

section Records

variable {fs : FunctionalitySettings} {s s' : StateView} {blocks upper : List Block} {b : Block}
  {d e : BlockDiff} {p : ProcessedTransaction} {h : Nat}

/-- A state with the same chain records the same blocks. -/
theorem Records.congr (hs : Records s blocks) (hchain : s'.chain = s.chain) :
    Records s' blocks := by
  obtain ⟨hheight, hrest⟩ := Prod.mk.inj hchain
  obtain ⟨hinfo, hcontains⟩ := Prod.mk.inj hrest
  constructor
  case height => exact hheight.trans hs.height
  case info =>
    rw [hinfo]
    exact hs.info
  case contains =>
    rw [hcontains]
    exact hs.contains
  case absent =>
    rw [hinfo, hcontains]
    exact hs.absent
  case unique => exact hs.unique
  case legacy => exact hs.legacy

/-- States with the same chain have the same chain over a diff. -/
theorem chain_view (hchain : s'.chain = s.chain) : (view s' d).chain = (view s d).chain := by
  obtain ⟨hheight, hrest⟩ := Prod.mk.inj hchain
  obtain ⟨hinfo, hcontains⟩ := Prod.mk.inj hrest
  simp only [StateView.chain, view, hheight, hinfo, hcontains]

/-- Combined diffs give the chain of the diffs one over the other. -/
theorem chain_combine : (view s (d.combine e)).chain = (view (view s d) e).chain := by
  refine Prod.ext (Nat.add_assoc _ _ _).symm (Prod.ext (funext fun id => ?_) (funext fun id => ?_))
  · simp only [StateView.chain, view, BlockDiff.combine, Diff.combine, Dict.lookup_overlay]
    cases e.txsDiff.transactions.lookup id <;> rfl
  · simp only [StateView.chain, view, BlockDiff.combine, Diff.combine, Dict.lookup_overlay,
      Option.isSome_or, Bool.or_assoc]

/-- The empty diff leaves the chain. -/
theorem chain_empty : (view s BlockDiff.empty).chain = s.chain :=
  congrArg StateView.chain (view_empty s)

/-- A transaction is in a longer chain if it is in the chain before or in the last block. -/
theorem inChain_concat :
    InChain (blocks ++ [b]) h p ↔
      InChain blocks h p ∨ h = blocks.length + 1 ∧ p ∈ b.transactionData := by
  constructor
  · rintro ⟨i, b', rfl, hb', hp⟩
    obtain hold | ⟨rfl, rfl⟩ := History.Stores.getElem?_concat_iff.mp hb'
    · exact .inl ⟨i, b', rfl, hold, hp⟩
    · exact .inr ⟨rfl, hp⟩
  · rintro (⟨i, b', rfl, hb', hp⟩ | ⟨rfl, hp⟩)
    · exact ⟨i, b', rfl, History.Stores.getElem?_concat_iff.mpr (.inl hb'), hp⟩
    · exact ⟨blocks.length, b, rfl, History.Stores.getElem?_concat_iff.mpr (.inr ⟨rfl, rfl⟩), hp⟩

namespace BlockDiffer

variable {prev : Option Int64} {timestamp : Int64} {height : Nat} {done : List ProcessedTransaction}
  {diff diff' : Diff} {tx : ProcessedTransaction}

/-- What the diff of some transactions of a block records of them. -/
structure Recorded (s : StateView) (height : Nat) (done : List ProcessedTransaction) (diff : Diff) :
    Prop where
  lookup : ∀ id h p, (diff.transactions.lookup id).map (fun t => (t.1, t.2.1)) = some (h, p) ↔
    h = height ∧ p ∈ done ∧ p.transaction.id = id
  fresh : ∀ p ∈ done, s.containsTransaction p.transaction.id = false
  unique : (done.map fun p => p.transaction.id).Nodup
  legacy : ∀ p ∈ done, p.transaction.transactionType.id ≤ 10

/-- A diff has a transaction exactly if it was processed. -/
theorem Recorded.isSome_iff (hd : Recorded s height done diff) {id : ByteStr} :
    (diff.transactions.lookup id).isSome ↔ ∃ p ∈ done, p.transaction.id = id := by
  constructor
  · intro hsome
    obtain ⟨t, ht⟩ := Option.isSome_iff_exists.mp hsome
    obtain ⟨-, hp, hid⟩ := (hd.lookup id t.1 t.2.1).mp (by rw [ht]; rfl)
    exact ⟨t.2.1, hp, hid⟩
  · rintro ⟨p, hp, hid⟩
    have hlookup := (hd.lookup id height p).mpr ⟨rfl, hp, hid⟩
    obtain ⟨t, ht, -⟩ := Option.map_eq_some_iff.mp hlookup
    rw [ht]
    rfl

/-- One more transaction. -/
theorem Recorded.txStep (hd : Recorded s height done diff)
    (hstep : txStep fs s prev timestamp height diff tx = .ok diff') :
    Recorded s height (done ++ [tx]) diff' := by
  obtain ⟨e, happly, hfee, hstatus, rfl⟩ := txStep_eq_ok hstep
  obtain ⟨hnew, ⟨c, related, heffect, rfl⟩, -⟩ := TransactionDiffer.apply_eq_ok happly
  rw [view_containsTransaction, Bool.or_eq_false_iff] at hnew
  have hother : ∀ p ∈ done, p.transaction.id ≠ tx.transaction.id := fun p hp hid => by
    have hsome := hd.isSome_iff.mpr ⟨p, hp, hid⟩
    rw [show (diff.transactions.lookup tx.transaction.id).isSome = false from hnew.1] at hsome
    cases hsome
  have hsame : (⟨c.txStatus, c.chargedFee, tx.transaction⟩ : ProcessedTransaction) = tx := by
    cases tx with
    | mk status feeCharged transaction =>
        exact congrArg₂ (fun x y => ProcessedTransaction.mk x y transaction) hstatus hfee
  -- The transaction is new to the diff and to the state, so that it hides no entry.
  constructor
  case lookup =>
    intro id h p
    change ((Dict.overlay _ (Finmap.singleton _ _)).lookup id).map _ = _ ↔ _
    rw [Dict.lookup_overlay, Dict.lookup_singleton, List.mem_append, List.mem_singleton]
    split
    · rename_i hid
      simp only [Option.some_or, Option.map_some, Option.some.injEq, Prod.mk.injEq, hsame]
      constructor
      · rintro ⟨rfl, rfl⟩
        exact ⟨rfl, .inr rfl, hid.symm⟩
      · rintro ⟨rfl, hp | rfl, hpid⟩
        · exact absurd (hpid.trans hid) (hother p hp)
        · exact ⟨rfl, rfl⟩
    · rename_i hid
      rw [Option.none_or, hd.lookup]
      constructor
      · rintro ⟨hh, hp, hpid⟩
        exact ⟨hh, .inl hp, hpid⟩
      · rintro ⟨hh, hp | rfl, hpid⟩
        · exact ⟨hh, hp, hpid⟩
        · exact absurd hpid.symm hid
  case fresh =>
    intro p hp
    obtain hp | hp := List.mem_append.mp hp
    · exact hd.fresh p hp
    · rw [List.mem_singleton.mp hp]
      exact hnew.2
  case unique =>
    rw [List.map_append, List.nodup_append]
    refine ⟨hd.unique, List.nodup_singleton _, fun x hx y hy hxy => ?_⟩
    obtain ⟨p, hp, rfl⟩ := List.mem_map.mp hx
    obtain rfl := List.mem_singleton.mp hy
    exact hother p hp hxy
  case legacy =>
    intro p hp
    obtain hp | hp := List.mem_append.mp hp
    · exact hd.legacy p hp
    · rw [List.mem_singleton.mp hp]
      exact heffect.type_le

/-- The diff of some transactions records them behind those before. -/
theorem Recorded.foldlM {txs : List ProcessedTransaction} (hd : Recorded s height done diff)
    (hfold : txs.foldlM (BlockDiffer.txStep fs s prev timestamp height) diff = .ok diff') :
    Recorded s height (done ++ txs) diff' := by
  induction txs generalizing done diff with
  | nil =>
      rw [List.foldlM_nil, pure_eq_ok_iff] at hfold
      subst hfold
      rwa [List.append_nil]
  | cons tx txs ih =>
      obtain ⟨diff'', htx, htxs⟩ := foldlM_cons_eq_ok_iff.mp hfold
      rw [List.append_cons]
      exact ih (hd.txStep htx) htxs

/-- The empty diff records nothing. -/
theorem recorded_empty (s : StateView) (height : Nat) : Recorded s height [] Diff.empty where
  lookup := fun id h p => by
    constructor
    · intro hnone
      cases hnone
    · rintro ⟨-, hp, -⟩
      exact absurd hp List.not_mem_nil
  fresh := fun p hp => absurd hp List.not_mem_nil
  unique := List.nodup_nil
  legacy := fun p hp => absurd hp List.not_mem_nil

end BlockDiffer

/-- The identifiers of the transactions of a chain. -/
theorem mem_ids_iff {id : ByteStr} : id ∈ (blocks.flatMap fun b => b.transactions.map Transaction.id) ↔
    ∃ h p, InChain blocks h p ∧ p.transaction.id = id := by
  rw [List.mem_flatMap]
  constructor
  · rintro ⟨b, hb, hid⟩
    obtain ⟨tx, htx, rfl⟩ := List.mem_map.mp hid
    obtain ⟨p, hp, rfl⟩ := List.mem_map.mp htx
    obtain ⟨i, hi⟩ := List.mem_iff_getElem?.mp hb
    exact ⟨i + 1, p, ⟨i, b, rfl, hi, hp⟩, rfl⟩
  · rintro ⟨_, p, ⟨i, b, rfl, hb, hp⟩, rfl⟩
    exact ⟨b, List.mem_of_getElem? hb, List.mem_map_of_mem (List.mem_map_of_mem hp)⟩

/-- The diff of the next block adds the transactions of the block. -/
theorem Records.concat {prev : Option Int64} (hs : Records s blocks)
    (hd : BlockDiffer.fromBlock fs s prev b = .ok d) : Records (view s d) (blocks ++ [b]) := by
  obtain ⟨diff, snapshots, hfold, -, rfl⟩ := BlockDiffer.fromBlock_eq_ok hd
  have hrecorded := (BlockDiffer.recorded_empty s (s.height + 1)).foldlM hfold
  rw [List.nil_append] at hrecorded
  -- a transaction of the chain so far is none of the block's
  have hold {h : Nat} {p : ProcessedTransaction} (hp : InChain blocks h p) :
      (diff.transactions.lookup p.transaction.id).isSome = false := by
    by_contra hsome
    rw [Bool.not_eq_false] at hsome
    obtain ⟨q, hq, hid⟩ := hrecorded.isSome_iff.mp hsome
    have hfresh := hrecorded.fresh q hq
    rw [hid, (hs.contains _).mpr ⟨h, p, hp, rfl⟩] at hfresh
    cases hfresh
  constructor
  case height => rw [view_height, hs.height, List.length_append, List.length_singleton]
  case info =>
    intro id h p
    rw [inChain_concat, ← hs.height]
    have hlookup := hrecorded.lookup id h p
    cases ht : diff.transactions.lookup id with
    | none =>
        rw [ht] at hlookup
        have hview : (view s ⟨diff, 1, snapshots⟩).transactionInfo id = s.transactionInfo id := by
          simp only [view, ht]
        rw [hview, hs.info]
        constructor
        · rintro ⟨hp, hid⟩
          exact ⟨.inl hp, hid⟩
        · rintro ⟨hp | ⟨hh, hp⟩, hid⟩
          · exact ⟨hp, hid⟩
          · cases hlookup.mpr ⟨hh, hp, hid⟩
    | some t =>
        rw [ht, Option.map_some, Option.some.injEq] at hlookup
        have hview : (view s ⟨diff, 1, snapshots⟩).transactionInfo id = .ok (some (t.1, t.2.1)) := by
          simp only [view, ht]
        rw [hview, Except.ok.injEq, Option.some.injEq, hlookup]
        constructor
        · rintro ⟨hh, hp, hid⟩
          exact ⟨.inr ⟨hh, hp⟩, hid⟩
        · rintro ⟨hp | ⟨hh, hp⟩, hid⟩
          · have hnone := hold hp
            rw [hid, ht] at hnone
            cases hnone
          · exact ⟨hh, hp, hid⟩
  case contains =>
    intro id
    rw [view_containsTransaction, Bool.or_eq_true, hs.contains, hrecorded.isSome_iff]
    constructor
    · rintro (⟨p, hp, hid⟩ | ⟨h, p, hp, hid⟩)
      · exact ⟨_, p, inChain_concat.mpr (.inr ⟨rfl, hp⟩), hid⟩
      · exact ⟨h, p, inChain_concat.mpr (.inl hp), hid⟩
    · rintro ⟨h, p, hp, hid⟩
      obtain hp | ⟨-, hp⟩ := inChain_concat.mp hp
      · exact .inr ⟨h, p, hp, hid⟩
      · exact .inl ⟨p, hp, hid⟩
  case absent =>
    intro id hid
    rw [view_containsTransaction, Bool.or_eq_false_iff, Option.isSome_eq_false_iff,
      Option.isNone_iff_eq_none] at hid
    obtain ⟨hnone, habsent⟩ := hid
    dsimp only at hnone
    simp only [view, hnone]
    exact hs.absent id habsent
  case unique =>
    rw [List.flatMap_append, List.nodup_append]
    refine ⟨hs.unique, ?_, fun x hx y hy hxy => ?_⟩
    · rw [List.flatMap_singleton, Block.transactions, List.map_map]
      exact hrecorded.unique
    · obtain ⟨h, p, hp, rfl⟩ := mem_ids_iff.mp hx
      rw [List.flatMap_singleton, Block.transactions, List.map_map] at hy
      obtain ⟨q, hq, rfl⟩ := List.mem_map.mp hy
      have hsome := hrecorded.isSome_iff.mpr ⟨q, hq, rfl⟩
      change p.transaction.id = q.transaction.id at hxy
      rw [← hxy, hold hp] at hsome
      cases hsome
  case legacy =>
    intro h p hp
    obtain hp | ⟨-, hp⟩ := inChain_concat.mp hp
    · exact hs.legacy h p hp
    · exact hrecorded.legacy p hp

/-- The diff of many blocks. -/
theorem Records.unsafeDiffMany {prev : Option Int64} (hs : Records s blocks)
    (hd : BlockDiffer.unsafeDiffMany fs s prev upper = .ok d) :
    Records (view s d) (blocks ++ upper) := by
  obtain ⟨acc, hfold, rfl⟩ := map_eq_ok_iff.mp hd
  induction upper using List.reverseRecOn generalizing acc with
  | nil =>
      rw [List.foldlM_nil, pure_eq_ok_iff] at hfold
      subst hfold
      rw [List.append_nil]
      exact hs.congr chain_empty
  | append_singleton upper b ih =>
      obtain ⟨acc', hacc', hstep⟩ := foldlM_append_eq_ok_iff.mp hfold
      obtain ⟨_, hmany, hlast⟩ := foldlM_cons_eq_ok_iff.mp hstep
      rw [List.foldlM_nil, pure_eq_ok_iff] at hlast
      subst hlast
      obtain ⟨e, he, rfl⟩ := BlockDiffer.manyStep_eq_ok hmany
      rw [← List.append_assoc]
      exact ((ih acc' hacc' (map_eq_ok_iff.mpr ⟨acc', hacc', rfl⟩)).concat he).congr chain_combine

/-- Transactions that can be read back are found alike in memory and on disk. -/
theorem Records.chain_written {p : StateStorage} (ss : StateSettings)
    (hs : Records (view (StateReaderImpl.reader p).toStateView d) blocks)
    (hreadable : ∀ b ∈ blocks, ∀ q ∈ b.transactionData, q.transaction.Encodable) :
    (StateReaderImpl.reader (StateWriterImpl.applyBlockDiff ss p d)).chain
      = (view (StateReaderImpl.reader p).toStateView d).chain := by
  refine Prod.ext rfl (Prod.ext (funext fun id => ?_) (funext fun id => ?_))
  · change (StateReaderImpl.reader _).transactionInfo id = (view _ d).transactionInfo id
    rw [StateStorage.transactionInfo_written]
    cases ht : d.txsDiff.transactions.lookup id with
    | none => simp only [view, ht]
    | some t =>
        have hview : (view (StateReaderImpl.reader p).toStateView d).transactionInfo id
            = .ok (some (t.1, t.2.1)) := by
          simp only [view, ht]
        obtain ⟨hchain, -⟩ := (hs.info id t.1 t.2.1).mp hview
        have hlegacy := hs.legacy _ _ hchain
        obtain ⟨i, b, -, hb, hq⟩ := hchain
        have hparse := ProcessedTransactionParser.parseBytes_bytes
          (TransactionParser.parseBytes_bytes_of_encodable hlegacy
            (hreadable b (List.mem_of_getElem? hb) _ hq))
        rw [hview]
        dsimp only
        rw [hparse]
        rfl
  · exact StateStorage.known_written

end Records

namespace BlockchainUpdaterImpl

variable {settings : UpdaterSettings} {u u' : BlockchainUpdaterImpl}
  {low middle high kept blocks : List Block} {b : Block} {d : BlockDiff} {history : History}

/-- The transactions each layer of the updater knows. -/
structure Recorded (u : BlockchainUpdaterImpl) (low middle high : List Block) : Prop where
  persisted : Records (StateReaderImpl.reader u.persisted).toStateView low
  bottom : Records u.bottomState.toStateView (low ++ middle)
  top : Records u.currentPersistedBlocksState.toStateView (low ++ middle ++ high)

/-- A history of blocks that survive being stored. -/
structure Durable (history : History) (blocks : List Block) : Prop where
  stores : history.Stores blocks
  storable : ∀ b ∈ blocks, b.Storable

/-- The transactions of durable blocks can be read back. -/
theorem Durable.encodable (h : Durable history blocks) :
    ∀ b ∈ blocks, ∀ q ∈ b.transactionData, q.transaction.Encodable :=
  fun b hb => (h.storable b hb).encodable

/-- Moving the layers down forgets no transaction. -/
theorem Recorded.shiftLayers (settings : UpdaterSettings) (h : Recorded u low middle high)
    (hreadable : ∀ b ∈ low ++ middle, ∀ q ∈ b.transactionData, q.transaction.Encodable) :
    ∃ low' middle' high', low ++ middle ++ high = low' ++ middle' ++ high' ∧
      Recorded (shiftLayers settings u) low' middle' high' := by
  unfold BlockchainUpdaterImpl.shiftLayers
  split
  · have hchain := h.bottom.chain_written settings.stateSettings hreadable
    have htop : Records (view (StateReaderImpl.reader (StateWriterImpl.applyBlockDiff
        settings.stateSettings u.persisted u.bottomMemoryDiff)).toStateView u.topMemoryDiff)
        (low ++ middle ++ high) := h.top.congr (chain_view hchain)
    refine ⟨low ++ middle, high, [], by rw [List.append_nil], h.bottom.congr hchain, htop, ?_⟩
    rw [List.append_nil]
    exact htop.congr chain_empty
  · exact ⟨low, middle, high, rfl, h⟩

/-- The diff of a range of blocks, on a state that knows the blocks below the range. -/
theorem Durable.unsafeDiffByRange {fs : FunctionalitySettings} (hk : Durable history kept)
    {s : StateView} {n m : Nat} (hs : Records s (kept.take n)) (hn : n ≤ m) (hm : m ≤ kept.length)
    (hd : unsafeDiffByRange fs history s (n + 1) (m + 1) = .ok d) :
    Records (view s d) (kept.take m) := by
  obtain ⟨blocks, hread, hd⟩ := bind_eq_ok_iff.mp hd
  obtain ⟨previous, -, hd⟩ := bind_eq_ok_iff.mp hd
  rw [hk.stores.readBlocks n m hm] at hread
  obtain rfl := Except.ok.inj hread
  have hsplit : kept.take n ++ (kept.take m).drop n = kept.take m := by
    have htake : (kept.take m).take n = kept.take n := by
      rw [List.take_take, Nat.min_eq_left hn]
    rw [← htake, List.take_append_drop]
  rw [← hsplit]
  exact hs.unsafeDiffMany hd

/-- The storage of the updater knows the transactions of the first blocks of a kept chain. -/
structure RecordsRebuilt (u : BlockchainUpdaterImpl) (kept : List Block) (n : Nat) : Prop where
  chain : Durable u.history kept
  records : Records (StateReaderImpl.reader u.persisted).toStateView (kept.take n)
  le : n ≤ kept.length

/-- Persisting one range. -/
theorem RecordsRebuilt.persist_range {n stop : Nat} (h : RecordsRebuilt u kept n)
    (hstop : stop ≤ kept.length + 1)
    (hrun : persistRange settings (n + 1, stop) u = (.ok (), u')) :
    RecordsRebuilt u' kept (max n (stop - 1)) := by
  have hle := h.le
  rw [persistRange, Action.bind_of_ok (Action.get_apply u)] at hrun
  obtain ⟨d, u'', hread, hwrite⟩ := Action.bind_eq_ok_iff.mp hrun
  obtain ⟨hd, rfl⟩ := Prod.mk.inj hread
  obtain ⟨-, rfl⟩ := Prod.mk.inj hwrite
  have hmax : max (n + 1) stop = max n (stop - 1) + 1 := by omega
  dsimp only at hd
  rw [unsafeDiffByRange_max, hmax] at hd
  have hrecords := h.chain.unsafeDiffByRange (m := max n (stop - 1)) h.records
    (Nat.le_max_left _ _) (by omega) hd
  refine ⟨h.chain, hrecords.congr (hrecords.chain_written _ fun b hb => ?_), by omega⟩
  exact h.chain.encodable b (List.mem_of_mem_take hb)

/-- Persisting the ranges one after another. -/
theorem RecordsRebuilt.persist_ranges {start stop step n : Nat} (h : RecordsRebuilt u kept n)
    (hstart : start = n + 1) (hstop : stop ≤ kept.length + 1)
    (hrun : Action.forEach (persistRange settings) (ranges start stop step) u = (.ok (), u')) :
    ∃ n', RecordsRebuilt u' kept n' := by
  induction start using ranges.induct stop step generalizing u n with
  | case1 start hmore ih =>
      subst hstart
      rw [ranges, if_pos hmore, Action.forEach] at hrun
      obtain ⟨_, u'', hfirst, hrest⟩ := Action.bind_eq_ok_iff.mp hrun
      have hrebuilt := h.persist_range (by omega) hfirst
      have hmax : max n (n + 1 + step - 1) = n + step := by omega
      rw [hmax] at hrebuilt
      exact ih hrebuilt (by omega) hrest
  | case2 start hlast =>
      subst hstart
      rw [ranges, if_neg hlast, Action.forEach] at hrun
      obtain ⟨_, u'', hfirst, hrest⟩ := Action.bind_eq_ok_iff.mp hrun
      obtain ⟨-, rfl⟩ := Prod.mk.inj hrest
      exact ⟨_, h.persist_range hstop hfirst⟩

/-- Rebuilding the layers from the blocks of the history. -/
theorem RecordsRebuilt.update {n : Nat} (h : RecordsRebuilt u kept n)
    (hrun : updatePersistedAndInMemory settings u = (.ok (), u')) :
    Durable u'.history kept ∧ ∃ low middle, kept = low ++ middle ++ [] ∧
      Recorded u' low middle [] := by
  have hheight : u.persisted.height + 1 = n + 1 := by
    have := h.records.height
    rw [List.length_take_of_le h.le] at this
    exact congrArg (· + 1) this
  have hhistory := h.chain.stores.height
  rw [updatePersistedAndInMemory, Action.bind_of_ok (Action.get_apply u)] at hrun
  obtain ⟨_, u₁, hranges, hrun⟩ := Action.bind_eq_ok_iff.mp hrun
  obtain ⟨n', hrebuilt⟩ := h.persist_ranges hheight (by omega) hranges
  rw [Action.bind_of_ok (Action.get_apply u₁)] at hrun
  obtain ⟨d, u₂, hread, hwrite⟩ := Action.bind_eq_ok_iff.mp hrun
  obtain ⟨hd, rfl⟩ := Prod.mk.inj hread
  obtain ⟨-, rfl⟩ := Prod.mk.inj hwrite
  have hheight' : u₁.persisted.height = n' := by
    have := hrebuilt.records.height
    rwa [List.length_take_of_le hrebuilt.le] at this
  rw [hheight', hrebuilt.chain.stores.height] at hd
  have hrecords := hrebuilt.chain.unsafeDiffByRange hrebuilt.records hrebuilt.le le_rfl hd
  rw [List.take_length] at hrecords
  refine ⟨hrebuilt.chain, kept.take n', kept.drop n', by
    rw [List.append_nil, List.take_append_drop], hrebuilt.records, ?_, ?_⟩
  · rw [List.take_append_drop]
    exact hrecords
  · rw [List.append_nil, List.take_append_drop]
    exact hrecords.congr chain_empty

/-- The empty state records no block. -/
theorem records_empty : Records (StateReaderImpl.reader StateStorage.empty).toStateView [] where
  height := rfl
  info := fun id h p => by
    constructor
    · intro hnone
      cases hnone
    · rintro ⟨⟨i, b, -, hb, -⟩, -⟩
      cases hb
  contains := fun id => by
    constructor
    · intro hnone
      cases hnone
    · rintro ⟨h, p, ⟨i, b, -, hb, -⟩, -⟩
      cases hb
  absent := fun _ _ => rfl
  unique := List.nodup_nil
  legacy := fun h p hp => by
    obtain ⟨i, b, -, hb, -⟩ := hp
    cases hb

/-- The transactions that are kept after a rollback. -/
theorem Recorded.roll_back (h : Recorded u low middle high) {upper : List Block}
    (hblocks : low ++ middle ++ high = kept ++ upper) (hk : Durable u.history kept)
    (hrun : rollBackLayers settings kept.length u = (.ok (), u')) :
    Durable u'.history kept ∧ ∃ low' middle' high', kept = low' ++ middle' ++ high' ∧
      Recorded u' low' middle' high' := by
  have hlow : u.persisted.height = low.length := h.persisted.height
  have hbottom : u.persisted.height + u.bottomMemoryDiff.heightDiff = (low ++ middle).length :=
    h.bottom.height
  have htop : u.currentPersistedBlocksState.height = (low ++ middle ++ high).length := h.top.height
  have htake (l rest : List Block) (hl : low ++ middle ++ high = l ++ rest)
      (hlength : l.length ≤ kept.length) : kept.take l.length = l := by
    have hprefix : (kept ++ upper).take l.length = l := by rw [← hblocks, hl, List.take_left]
    rwa [List.take_append_of_le_length hlength] at hprefix
  rw [rollBackLayers, Action.bind_of_ok (Action.get_apply u)] at hrun
  -- The height the chain is cut at lies in one of the three layers.
  by_cases hdisk : kept.length < u.persisted.height
  · -- the state on disk is rebuilt
    rw [if_pos hdisk, Action.bind_of_ok (Action.modify_apply _ u)] at hrun
    have hstart : RecordsRebuilt { u with persisted := StateStorage.empty } kept 0 :=
      ⟨hk, records_empty, Nat.zero_le _⟩
    obtain ⟨hk', low', middle', hsplit, hrecorded⟩ := hstart.update hrun
    exact ⟨hk', low', middle', [], hsplit, hrecorded⟩
  rw [if_neg hdisk] at hrun
  by_cases hsame : u.currentPersistedBlocksState.height = kept.length
  · -- nothing is cut
    rw [if_neg (not_not.mpr hsame)] at hrun
    obtain ⟨-, rfl⟩ := Prod.mk.inj hrun
    have hall := htake (low ++ middle ++ high) [] (List.append_nil _).symm (by omega)
    rw [List.take_of_length_le (by omega)] at hall
    exact ⟨hk, low, middle, high, hall, h⟩
  rw [if_pos hsame] at hrun
  by_cases habove : u.persisted.height + u.bottomMemoryDiff.heightDiff < kept.length
  · -- the top diff is cut
    have hdone : kept.take (low ++ middle).length = low ++ middle := htake _ _ rfl (by omega)
    have hsplit : kept = low ++ middle ++ kept.drop (low ++ middle).length := by
      conv_lhs => rw [← List.take_append_drop (low ++ middle).length kept, hdone]
    rw [if_pos habove] at hrun
    obtain ⟨d, u₁, hread, hwrite⟩ := Action.bind_eq_ok_iff.mp hrun
    obtain ⟨hd, rfl⟩ := Prod.mk.inj hread
    obtain ⟨-, rfl⟩ := Prod.mk.inj hwrite
    rw [hbottom] at hd
    have hrecords := hk.unsafeDiffByRange (hdone.symm ▸ h.bottom) (by omega) le_rfl hd
    rw [List.take_length, hsplit] at hrecords
    exact ⟨hk, low, middle, _, hsplit, h.persisted, h.bottom, hrecords⟩
  rw [if_neg habove, Action.bind_of_ok (Action.modify_apply _ u)] at hrun
  by_cases hbelow : kept.length < u.persisted.height + u.bottomMemoryDiff.heightDiff
  · -- the bottom diff is cut
    have hdone : kept.take low.length = low :=
      htake low (middle ++ high) (List.append_assoc _ _ _) (by omega)
    have hsplit : kept = low ++ kept.drop low.length := by
      conv_lhs => rw [← List.take_append_drop low.length kept, hdone]
    rw [if_pos hbelow] at hrun
    obtain ⟨d, u₁, hread, hwrite⟩ := Action.bind_eq_ok_iff.mp hrun
    obtain ⟨hd, rfl⟩ := Prod.mk.inj hread
    obtain ⟨-, rfl⟩ := Prod.mk.inj hwrite
    rw [hlow] at hd
    have hrecords := hk.unsafeDiffByRange (hdone.symm ▸ h.persisted) (by omega) le_rfl hd
    rw [List.take_length, hsplit] at hrecords
    refine ⟨hk, low, _, [], by rw [List.append_nil]; exact hsplit, h.persisted, hrecords, ?_⟩
    rw [List.append_nil]
    exact hrecords.congr chain_empty
  · -- the bottom diff stays
    have hdone : kept = low ++ middle := by
      rw [← htake (low ++ middle) _ rfl (by omega), List.take_of_length_le (by omega)]
    rw [if_neg hbelow] at hrun
    obtain ⟨-, rfl⟩ := Prod.mk.inj hrun
    refine ⟨hk, low, middle, [], by rw [List.append_nil]; exact hdone, h.persisted, h.bottom, ?_⟩
    rw [List.append_nil]
    exact h.bottom.congr chain_empty

/-- An updater that knows the transactions of its chain. -/
structure Knows (u : BlockchainUpdaterImpl) (blocks : List Block) : Prop where
  durable : Durable u.history blocks
  layers : ∃ low middle high, blocks = low ++ middle ++ high ∧ Recorded u low middle high

/-- A chain that knows some blocks has a state that records them. -/
theorem Knows.records (h : Knows u blocks) :
    Records u.currentPersistedBlocksState.toStateView blocks := by
  obtain ⟨low, middle, high, rfl, hrecorded⟩ := h.layers
  exact hrecorded.top

/-- The empty chain knows no block. -/
theorem knows_empty : Knows empty [] where
  durable := ⟨History.stores_empty, fun _ hb => absurd hb List.not_mem_nil⟩
  layers := ⟨[], [], [], rfl, records_empty, records_empty.congr chain_empty,
    (records_empty.congr chain_empty).congr chain_empty⟩

/-- A block that is processed is on top of the chain, and one that is turned away is not in it. -/
theorem Knows.processBlock (settings : UpdaterSettings) (h : Knows u blocks) (hb : b.Storable) :
    match BlockchainUpdaterImpl.processBlock settings b u with
    | (.ok _, u') => Knows u' (blocks ++ [b])
    | (.error _, u') => Knows u' blocks := by
  have hshift : Knows (BlockchainUpdaterImpl.shiftLayers settings u) blocks := by
    obtain ⟨low, middle, high, hblocks, hrecorded⟩ := h.layers
    obtain ⟨low', middle', high', hsplit, hrecorded'⟩ :=
      hrecorded.shiftLayers settings fun _ hb =>
        h.durable.encodable _ (hblocks ▸ List.mem_append_left _ hb)
    refine ⟨?_, low', middle', high', hblocks.trans hsplit, hrecorded'⟩
    unfold BlockchainUpdaterImpl.shiftLayers
    split
    · exact h.durable
    · exact h.durable
  rw [processBlock_apply]
  generalize BlockchainUpdaterImpl.shiftLayers settings u = u at hshift
  dsimp only
  cases happend : u.history.appendBlock b (consensusValidation settings u b) with
  | error e => exact hshift
  | ok p =>
      obtain ⟨d, history⟩ := p
      obtain ⟨-, hvalid, bytes, score, hbytes, rfl⟩ := History.appendBlock_eq_ok happend
      obtain ⟨last, -, hd⟩ := bind_eq_ok_iff.mp hvalid
      obtain ⟨low, middle, high, rfl, hrecorded⟩ := hshift.layers
      obtain ⟨bytes', hbytes', hparse⟩ := id hb
      obtain rfl := Except.ok.inj (hbytes.symm.trans hbytes')
      refine ⟨⟨hshift.durable.stores.push hparse score, fun b' hb' => ?_⟩, low, middle,
        high ++ [b], List.append_assoc _ _ _, hrecorded.persisted, hrecorded.bottom, ?_⟩
      · obtain hold | hnew := List.mem_append.mp hb'
        · exact hshift.durable.storable b' hold
        · exact List.mem_singleton.mp hnew ▸ hb
      · rw [← List.append_assoc]
        exact (hrecorded.top.concat hd).congr chain_combine

/-- A rollback that goes through leaves the transactions of the blocks up to the one asked for. -/
theorem Knows.removeAfter (h : Knows u blocks) {blockId : ByteStr} {discarded : List Transaction}
    (hrun : BlockchainUpdaterImpl.removeAfter settings blockId u = (.ok discarded, u')) :
    ∃ lower upper, blocks = lower ++ upper ∧
      discarded = (upper.reverse.map Block.transactions).flatten ∧ Knows u' lower := by
  obtain ⟨e, hcase⟩ | ⟨lower, b, upper, hblocks, -, ⟨rfl, hcase⟩ | ⟨history, hstores, hcase⟩⟩ :=
    removeAfter_cases settings h.durable.stores blockId
  · rw [hcase] at hrun
    cases hrun
  · rw [hcase] at hrun
    obtain ⟨hdiscarded, rfl⟩ := Prod.mk.inj hrun
    exact ⟨blocks, [], (List.append_nil _).symm, (Except.ok.inj hdiscarded).symm, h⟩
  · rw [hcase] at hrun
    obtain ⟨_, u₁, hroll, hlast⟩ := Action.bind_eq_ok_iff.mp hrun
    obtain ⟨hdiscarded, rfl⟩ := Prod.mk.inj hlast
    obtain ⟨low, middle, high, hsplit, hrecorded⟩ := h.layers
    obtain ⟨hk, hlayers⟩ := Recorded.roll_back (u := { u with history := history })
      ⟨hrecorded.persisted, hrecorded.bottom, hrecorded.top⟩ (hsplit.symm.trans hblocks)
      ⟨hstores, fun b' hb' => h.durable.storable b' (hblocks ▸ List.mem_append_left _ hb')⟩ hroll
    exact ⟨lower ++ [b], upper, hblocks, (Except.ok.inj hdiscarded).symm, hk, hlayers⟩

/-- The updaters that are reached by processing blocks that can be read back, whether they are
accepted or not, and by rollbacks that go through. -/
inductive Reached (settings : UpdaterSettings) : BlockchainUpdaterImpl → Prop
  | empty : Reached settings empty
  | processBlock (u : BlockchainUpdaterImpl) (b : Block) (h : Reached settings u)
      (hb : b.Storable) : Reached settings (processBlock settings b u).2
  | removeAfter (u u' : BlockchainUpdaterImpl) (blockId : ByteStr) (discarded : List Transaction)
      (h : Reached settings u)
      (hrun : removeAfter settings blockId u = (.ok discarded, u')) : Reached settings u'

/-- A reached chain knows some blocks. -/
theorem Reached.knows (h : Reached settings u) : ∃ blocks, Knows u blocks := by
  induction h with
  | empty => exact ⟨[], knows_empty⟩
  | processBlock u b h hb ih =>
      obtain ⟨blocks, hknows⟩ := ih
      have hnext := hknows.processBlock settings hb
      cases hrun : BlockchainUpdaterImpl.processBlock settings b u with
      | mk outcome u' =>
          rw [hrun] at hnext
          cases outcome with
          | ok _ => exact ⟨_, hnext⟩
          | error _ => exact ⟨_, hnext⟩
  | removeAfter u u' blockId discarded h hrun ih =>
      obtain ⟨blocks, hknows⟩ := ih
      obtain ⟨lower, upper, -, -, hlower⟩ := hknows.removeAfter hrun
      exact ⟨lower, hlower⟩

/-- In every updater that is reached no identifier occurs twice in the chain, a transaction is found
with a height and a status exactly when the block at that height has it with that status, and what a
rollback discards is unknown again. -/
theorem Reached.transactions (h : Reached settings u) :
    (∃ blocks : List Block, (∀ i, u.history.blockAt (i + 1) = .ok blocks[i]?) ∧
      (blocks.flatMap fun b => b.transactions.map Transaction.id).Nodup) ∧
    (∀ id height p, u.currentPersistedBlocksState.transactionInfo id = .ok (some (height, p)) ↔
      (∃ b, u.history.blockAt height = .ok (some b) ∧ p ∈ b.transactionData) ∧
        p.transaction.id = id) ∧
    ∀ blockId discarded u', BlockchainUpdaterImpl.removeAfter settings blockId u
        = (.ok discarded, u') → ∀ tx ∈ discarded,
      u'.currentPersistedBlocksState.transactionInfo tx.id = .ok none ∧
        ∀ height, CommonValidation.disallowDuplicateIds
          u'.currentPersistedBlocksState.toStateView height tx = .ok () := by
  obtain ⟨blocks, hknows⟩ := h.knows
  have hstores := hknows.durable.stores
  have hrecords := hknows.records
  have hblockAt (i : Nat) : u.history.blockAt (i + 1) = .ok blocks[i]? := by
    cases hb : blocks[i]? with
    | some b => exact hstores.blockAt_succ hb
    | none =>
        have hle := List.getElem?_eq_none_iff.mp hb
        exact hstores.blockAt_of_absent (.inr (by omega))
  refine ⟨⟨blocks, hblockAt, hrecords.unique⟩, fun id height p => ?_, ?_⟩
  · rw [hrecords.info]
    have hchain : InChain blocks height p ↔
        ∃ b, u.history.blockAt height = .ok (some b) ∧ p ∈ b.transactionData := by
      constructor
      · rintro ⟨i, b, rfl, hb, hp⟩
        exact ⟨b, by rw [hblockAt, hb], hp⟩
      · rintro ⟨b, hb, hp⟩
        cases height with
        | zero =>
            rw [hstores.blockAt_of_absent (.inl rfl)] at hb
            cases hb
        | succ i =>
            rw [hblockAt] at hb
            exact ⟨i, b, rfl, Except.ok.inj hb, hp⟩
    rw [hchain]
  · intro blockId discarded u' hrun tx htx
    -- No identifier occurs twice in the chain, so that what is discarded is in no block that is
    -- kept.
    obtain ⟨lower, upper, rfl, rfl, hlower⟩ := hknows.removeAfter hrun
    have hunique := hrecords.unique
    rw [List.flatMap_append, List.nodup_append] at hunique
    have hupper : tx.id ∈ upper.flatMap fun b => b.transactions.map Transaction.id := by
      obtain ⟨txs, htxs, hmem⟩ := List.mem_flatten.mp htx
      obtain ⟨b, hb, rfl⟩ := List.mem_map.mp htxs
      exact List.mem_flatMap.mpr ⟨b, List.mem_reverse.mp hb, List.mem_map_of_mem hmem⟩
    have hnew : u'.currentPersistedBlocksState.containsTransaction tx.id = false := by
      by_contra hcontains
      rw [Bool.not_eq_false, hlower.records.contains] at hcontains
      exact hunique.2.2 _ (mem_ids_iff.mpr hcontains) _ hupper rfl
    exact ⟨hlower.records.absent _ hnew, fun height => cond_eq_ok_iff.mpr hnew⟩

end BlockchainUpdaterImpl

end Platform

namespace Sample

open BlockchainUpdaterImpl

/-- Two blocks, the later with a payment. -/
def paid : BlockchainUpdaterImpl :=
  runCalls (updaterSettings true)
    [.processBlock genesisBlock, .processBlock secondBlock, .processBlock thirdBlock]

/-- The chain with the payment is reached. -/
theorem paid_reached : Reached (updaterSettings true) paid :=
  .processBlock _ _ (.processBlock _ _ (.processBlock _ _ .empty storable_genesisBlock)
    storable_secondBlock) storable_thirdBlock

/-- The payment the state finds at height 3 is in the block there. -/
theorem paid_transactions : ∃ b, paid.history.blockAt 3 = .ok (some b) ∧
    ⟨.success, 100, .payment (payment 2 fullProofs)⟩ ∈ b.transactionData :=
  ((paid_reached.transactions.2.1 (Transaction.payment (payment 2 fullProofs)).id _ _).mp
    (by decide +kernel)).1

/-- A first block of version 3 is accepted, its transaction is found, and the block is not. -/
theorem unreadable_transactions :
    let u := runCalls (updaterSettings true) [.processBlock { genesisBlock with version := 3 }]
    u.history.height = 1 ∧
      u.currentPersistedBlocksState.transactionInfo (Transaction.genesis genesisTransaction).id
        = .ok (some (1, ⟨.success, 0, .genesis genesisTransaction⟩)) ∧
      ∀ b, u.history.blockAt 1 ≠ .ok (some b) := by
  have hblock : ((runCalls (updaterSettings true)
      [.processBlock { genesisBlock with version := 3 }]).history.blockAt 1).isOk = false := by
    decide +kernel
  refine ⟨by decide +kernel, by decide +kernel, fun b hb => ?_⟩
  rw [hb] at hblock
  cases hblock

end Sample

end Vsys
