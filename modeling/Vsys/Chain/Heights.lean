import Vsys.Chain.Updater
import Vsys.Transaction.RoundTrip

/-!
# Blocks under their heights

A history that stores a list of blocks: every block can be read back from under its height, and
nothing lies above.  Appending and discarding a block keep it so.
-/

namespace Vsys

open Lib

variable [Platform]

namespace Block

variable {b : Block}

theorem encodable_of_transParseFrom {bytes : ByteStr} {count : Nat} {pos : Int32}
    {txs : List ProcessedTransaction} (h : transParseFrom bytes count pos = .ok txs) :
    ∀ p ∈ txs, p.transaction.Encodable := by
  induction count generalizing pos txs with
  | zero =>
      obtain rfl := Except.ok.inj h
      exact fun p hp => absurd hp List.not_mem_nil
  | succ count ih =>
      obtain ⟨length, -, h⟩ := bind_eq_ok_iff.mp h
      obtain ⟨tx, htx, h⟩ := bind_eq_ok_iff.mp h
      obtain ⟨rest, hrest, h⟩ := bind_eq_ok_iff.mp h
      obtain rfl := Except.ok.inj h
      intro p hp
      obtain rfl | hp := List.mem_cons.mp hp
      · exact ProcessedTransactionParser.encodable_of_parseBytes htx
      · exact ih hrest p hp

/-- The transactions of a block that has been read back can be read back themselves. -/
theorem encodable_of_parseBytes {bytes : ByteStr} (h : parseBytes bytes = .ok b) :
    ∀ p ∈ b.transactionData, p.transaction.Encodable := by
  obtain ⟨version, -, h⟩ := bind_eq_ok_iff.mp h
  obtain ⟨timestamp, -, h⟩ := bind_eq_ok_iff.mp h
  obtain ⟨cBytesLength, -, h⟩ := bind_eq_ok_iff.mp h
  obtain ⟨mintTime, -, h⟩ := bind_eq_ok_iff.mp h
  obtain ⟨mintBalance, -, h⟩ := bind_eq_ok_iff.mp h
  obtain ⟨fBytesLength, -, h⟩ := bind_eq_ok_iff.mp h
  obtain ⟨tBytesLength, -, h⟩ := bind_eq_ok_iff.mp h
  obtain ⟨txs, htxs, h⟩ := bind_eq_ok_iff.mp h
  obtain rfl := Except.ok.inj h
  unfold transParseBytes at htxs
  split at htxs
  · obtain rfl := Except.ok.inj htxs
    exact fun p hp => absurd hp List.not_mem_nil
  · split at htxs
    · exact encodable_of_transParseFrom htxs
    · cases htxs

/-- The transactions of a block that survives being stored can be read back. -/
theorem Storable.encodable (h : b.Storable) : ∀ p ∈ b.transactionData, p.transaction.Encodable := by
  obtain ⟨bytes, -, h⟩ := h
  exact encodable_of_parseBytes h

end Block

/-- What a history stores: the blocks under their heights, with their identifiers, and nothing
else. -/
structure History.Stores (h : History) (blocks : List Block) : Prop where
  height : h.height = blocks.length
  bodies : ∀ i b, blocks[i]? = some b →
    ∃ bytes, h.blockBytes (i + 1) = some bytes ∧ Block.parseBytes bytes = .ok b
  absent : ∀ k, k = 0 ∨ blocks.length < k → h.blockBytes k = none
  ids : ∀ i b, blocks[i]? = some b → h.blockIdByHeight.lookup (i + 1) = some b.uniqueId
  known : ∀ id k, h.heightOf id = some k → ∃ i b, k = i + 1 ∧ blocks[i]? = some b ∧ b.uniqueId = id

namespace History

variable {h : History} {blocks : List Block} {b : Block}

theorem stores_empty : empty.Stores [] where
  height := rfl
  bodies := fun i b hb => by cases hb
  absent := fun _ _ => rfl
  ids := fun i b hb => by cases hb
  known := fun id k hk => by cases hk

namespace Stores

/-- The block at a height. -/
theorem blockAt_succ (hs : h.Stores blocks) {i : Nat} (hb : blocks[i]? = some b) :
    h.blockAt (i + 1) = .ok (some b) := by
  obtain ⟨bytes, hbytes, hparse⟩ := hs.bodies i b hb
  rw [blockAt, hbytes]
  dsimp only
  rw [hparse]
  rfl

theorem blockAt_of_absent (hs : h.Stores blocks) {k : Nat} (hk : k = 0 ∨ blocks.length < k) :
    h.blockAt k = .ok none := by
  rw [blockAt, hs.absent k hk]

/-- The block before a height is the last of the blocks below it. -/
theorem blockAt_length (hs : h.Stores blocks) {k : Nat} (hk : k ≤ blocks.length) :
    h.blockAt k = .ok (blocks.take k).getLast? := by
  cases k with
  | zero => exact hs.blockAt_of_absent (.inl rfl)
  | succ k =>
      have hb : blocks[k]? = some blocks[k] := List.getElem?_eq_getElem hk
      rw [hs.blockAt_succ hb, ← List.take_append_getElem hk, List.getLast?_concat]

theorem lastBlock (hs : h.Stores blocks) : h.lastBlock = .ok blocks.getLast? := by
  rw [History.lastBlock, hs.height, hs.blockAt_length le_rfl, List.take_length]

/-- The blocks of a range of heights. -/
theorem readBlocks (hs : h.Stores blocks) (start stop : Nat) (hstop : stop ≤ blocks.length) :
    BlockchainUpdaterImpl.readBlocks h (start + 1) (stop + 1)
      = .ok ((blocks.take stop).drop start) := by
  rw [BlockchainUpdaterImpl.readBlocks, Nat.succ_sub_succ]
  refine mapM_eq_ok_of_forall₂ (List.forall₂_iff_get.mpr ⟨?_, fun i hi hi' => ?_⟩)
  · rw [List.length_range', List.length_drop, List.length_take, Nat.min_eq_left hstop]
  · rw [List.length_drop, List.length_take] at hi'
    have hlt : start + i < blocks.length := by omega
    obtain ⟨bytes, hbytes, hparse⟩ := hs.bodies (start + i) _ (List.getElem?_eq_getElem hlt)
    simp only [List.get_eq_getElem, List.getElem_range', List.getElem_drop, List.getElem_take]
    have hheight : start + 1 + 1 * i = start + i + 1 := by omega
    rw [hheight, hbytes, getOrRaise, ok_bind, hparse]
    rfl

omit [Platform] in
/-- The elements of a list with one more at its end. -/
theorem getElem?_concat_iff {α : Type} {l : List α} {a x : α} {i : Nat} :
    (l ++ [a])[i]? = some x ↔ l[i]? = some x ∨ i = l.length ∧ x = a := by
  obtain hlt | rfl | hgt := Nat.lt_trichotomy i l.length
  · rw [List.getElem?_append_left hlt]
    constructor
    · exact .inl
    · rintro (h | ⟨rfl, -⟩)
      · exact h
      · exact absurd hlt (Nat.lt_irrefl _)
  · simp [eq_comm]
  · have hnone : l[i]? = none := List.getElem?_eq_none hgt.le
    have hnone' : (l ++ [a])[i]? = none := List.getElem?_eq_none (by
      rw [List.length_append, List.length_singleton]
      exact hgt)
    rw [hnone, hnone']
    constructor
    · exact fun h => by cases h
    · rintro (h | ⟨rfl, -⟩)
      · cases h
      · exact absurd hgt (Nat.lt_irrefl _)

/-- A block on top. -/
theorem push (hs : h.Stores blocks) {bytes : ByteStr} (hparse : Block.parseBytes bytes = .ok b)
    (score : Int) : (h.push b bytes score).Stores (blocks ++ [b]) := by
  have hheight := hs.height
  constructor
  case height =>
    rw [List.length_append, List.length_singleton, ← hheight]
    rfl
  case bodies =>
    intro i b' hb'
    obtain hold | ⟨rfl, rfl⟩ := getElem?_concat_iff.mp hb'
    · obtain ⟨bytes', hbytes', hparse'⟩ := hs.bodies i b' hold
      have hlt := (List.getElem?_eq_some_iff.mp hold).1
      refine ⟨bytes', ?_, hparse'⟩
      change (h.blockBodyByHeight.insert (h.height + 1) bytes).lookup (i + 1) = some bytes'
      rw [Dict.lookup_insert_eq, if_neg (by omega)]
      exact hbytes'
    · refine ⟨bytes, ?_, hparse⟩
      change (h.blockBodyByHeight.insert (h.height + 1) bytes).lookup (blocks.length + 1)
        = some bytes
      rw [Dict.lookup_insert_eq, if_pos (by omega)]
  case absent =>
    intro k hk
    rw [List.length_append, List.length_singleton] at hk
    change (h.blockBodyByHeight.insert (h.height + 1) bytes).lookup k = none
    rw [Dict.lookup_insert_eq, if_neg (by omega)]
    exact hs.absent k (by omega)
  case ids =>
    intro i b' hb'
    change (h.blockIdByHeight.insert (h.height + 1) b.uniqueId).lookup (i + 1) = _
    rw [Dict.lookup_insert_eq]
    obtain hold | ⟨rfl, rfl⟩ := getElem?_concat_iff.mp hb'
    · have hlt := (List.getElem?_eq_some_iff.mp hold).1
      rw [if_neg (by omega)]
      exact hs.ids i b' hold
    · rw [if_pos (by omega)]
  case known =>
    intro id k hk
    change (h.heightByBlockId.insert b.uniqueId (h.height + 1)).lookup id = some k at hk
    rw [Dict.lookup_insert_eq] at hk
    split at hk
    · rename_i hid
      refine ⟨blocks.length, b, ?_, getElem?_concat_iff.mpr (.inr ⟨rfl, rfl⟩), hid.symm⟩
      rw [← Option.some.inj hk, hheight]
    · obtain ⟨i, b', hi, hb', hid⟩ := hs.known id k hk
      exact ⟨i, b', hi, getElem?_concat_iff.mpr (.inl hb'), hid⟩

/-- The top block off. -/
theorem pop (hs : h.Stores (blocks ++ [b])) : h.pop.Stores blocks := by
  have hheight := hs.height
  rw [List.length_append, List.length_singleton] at hheight
  have hkeep {i : Nat} {b' : Block} (hb' : blocks[i]? = some b') :
      (blocks ++ [b])[i]? = some b' ∧ i + 1 ≠ h.height := by
    have hlt := (List.getElem?_eq_some_iff.mp hb').1
    exact ⟨getElem?_concat_iff.mpr (.inl hb'), by omega⟩
  constructor
  case height =>
    change h.height - 1 = _
    omega
  case bodies =>
    intro i b' hb'
    obtain ⟨hold, hne⟩ := hkeep hb'
    obtain ⟨bytes, hbytes, hparse⟩ := hs.bodies i b' hold
    refine ⟨bytes, ?_, hparse⟩
    change (h.blockBodyByHeight.erase h.height).lookup (i + 1) = some bytes
    rw [Dict.lookup_erase_eq, if_neg hne]
    exact hbytes
  case absent =>
    intro k hk
    change (h.blockBodyByHeight.erase h.height).lookup k = none
    rw [Dict.lookup_erase_eq]
    split
    · rfl
    · exact hs.absent k (by rw [List.length_append, List.length_singleton]; omega)
  case ids =>
    intro i b' hb'
    obtain ⟨hold, hne⟩ := hkeep hb'
    change (h.blockIdByHeight.erase h.height).lookup (i + 1) = _
    rw [Dict.lookup_erase_eq, if_neg hne]
    exact hs.ids i b' hold
  -- The top block alone is forgotten: the identifiers below it are others, as each is known at
  -- one height.
  case known =>
    intro id k hk
    have htop : h.blockIdByHeight.lookup h.height = some b.uniqueId := by
      rw [hheight]
      exact hs.ids blocks.length b (getElem?_concat_iff.mpr (.inr ⟨rfl, rfl⟩))
    have hlookup : (h.heightByBlockId.erase b.uniqueId).lookup id = some k := by
      simpa only [heightOf, History.pop, htop] using hk
    rw [Dict.lookup_erase_eq] at hlookup
    split at hlookup
    · cases hlookup
    · rename_i hid
      obtain ⟨i, b', hi, hb', hid'⟩ := hs.known id k hlookup
      obtain hold | ⟨-, rfl⟩ := getElem?_concat_iff.mp hb'
      · exact ⟨i, b', hi, hold, hid'⟩
      · exact absurd hid'.symm hid

theorem lastTransactions (hs : h.Stores (blocks ++ [b])) : h.lastTransactions = b.transactions := by
  have hheight := hs.height
  rw [List.length_append, List.length_singleton] at hheight
  obtain ⟨bytes, hbytes, hparse⟩ :=
    hs.bodies blocks.length b (getElem?_concat_iff.mpr (.inr ⟨rfl, rfl⟩))
  rw [History.lastTransactions, hheight, hbytes, Option.getD_some, hparse]

/-- Some blocks off the top: the transactions given back are theirs, and the blocks below stay. -/
theorem discardBlocks {upper : List Block} (hs : h.Stores (blocks ++ upper)) :
    (h.discardBlocks upper.length).2.Stores blocks ∧
      (h.discardBlocks upper.length).1 = (upper.reverse.map Block.transactions).flatten := by
  induction upper using List.reverseRecOn generalizing h with
  | nil =>
      rw [List.append_nil] at hs
      exact ⟨hs, rfl⟩
  | append_singleton upper b ih =>
      rw [← List.append_assoc] at hs
      obtain ⟨hstores, htransactions⟩ := ih hs.pop
      rw [List.length_append, List.length_singleton, List.reverse_append]
      refine ⟨hstores, ?_⟩
      change h.lastTransactions ++ (h.pop.discardBlocks upper.length).1 = _
      rw [htransactions, hs.lastTransactions]
      rfl

end Stores

/-- A history that has taken a block has found it valid, and has it on top. -/
theorem appendBlock_eq_ok {validation : Result BlockDiff} {d : BlockDiff} {history' : History}
    (happend : h.appendBlock b validation = .ok (d, history')) :
    h.isNext b = .ok true ∧ validation = .ok d ∧
      ∃ bytes score, b.bytes = .ok bytes ∧ history' = h.push b bytes score := by
  obtain ⟨next, hnext, happend⟩ := bind_eq_ok_iff.mp happend
  cases next with
  | true =>
      obtain ⟨d', hd', happend⟩ := bind_eq_ok_iff.mp happend
      dsimp only at happend
      split at happend
      all_goals
        obtain ⟨oldScore, -, happend⟩ := bind_eq_ok_iff.mp happend
        obtain ⟨bytes, hbytes, happend⟩ := bind_eq_ok_iff.mp happend
        obtain ⟨rfl, rfl⟩ := Prod.mk.inj (Except.ok.inj happend)
        exact ⟨hnext, hd', bytes, _, hbytes, rfl⟩
  | false =>
      obtain ⟨last, -, happend⟩ := bind_eq_ok_iff.mp happend
      cases happend

end History

namespace BlockchainUpdaterImpl

variable {u : BlockchainUpdaterImpl} {blocks : List Block}

/-- What `processBlock` does after moving the layers down. -/
theorem processBlock_apply (settings : UpdaterSettings) (b : Block) (u : BlockchainUpdaterImpl) :
    processBlock settings b u =
      let u := shiftLayers settings u
      match u.history.appendBlock b (consensusValidation settings u b) with
      | .ok (d, history) =>
          (.ok (), { u with history := history, topMemoryDiff := u.topMemoryDiff.combine d })
      | .error e => (.error e, u) := by
  rw [processBlock, Action.bind_of_ok (Action.modify_apply _ u),
    Action.bind_of_ok (Action.get_apply _), Action.bind_apply, Action.ofExcept_apply]
  dsimp only
  cases History.appendBlock _ b _ with
  | error e => rfl
  | ok p => rfl

/-- What `removeAfter` does: nothing for a block that is not in the history or that is the last one,
and for another it cuts the history and then the layers. -/
theorem removeAfter_cases (settings : UpdaterSettings) (hs : u.history.Stores blocks)
    (blockId : ByteStr) :
    (∃ e, removeAfter settings blockId u = (.error e, u)) ∨
      ∃ lower b upper, blocks = lower ++ [b] ++ upper ∧ b.uniqueId = blockId ∧
        (upper = [] ∧ removeAfter settings blockId u = (.ok [], u) ∨
          ∃ history, history.Stores (lower ++ [b]) ∧ removeAfter settings blockId u = (do
            rollBackLayers settings (lower ++ [b]).length
            pure (upper.reverse.map Block.transactions).flatten) { u with history := history }) := by
  rw [removeAfter, Action.bind_of_ok (Action.get_apply u)]
  cases hheight : u.history.heightOf blockId with
  | none => exact .inl ⟨_, rfl⟩
  | some height =>
      obtain ⟨i, b, rfl, hb, hid⟩ := hs.known blockId height hheight
      have hlt := (List.getElem?_eq_some_iff.mp hb).1
      have hlength := hs.height
      -- the blocks up to `b`, and those above it
      have hkept : blocks.take i ++ [b] = blocks.take (i + 1) := by
        rw [List.take_add_one, hb]
        rfl
      have hblocks : blocks = blocks.take i ++ [b] ++ blocks.drop (i + 1) := by
        rw [hkept, List.take_append_drop]
      have hcount : (blocks.take i ++ [b]).length = i + 1 := by
        rw [hkept, List.length_take_of_le hlt]
      refine .inr ⟨blocks.take i, b, blocks.drop (i + 1), hblocks, hid, ?_⟩
      by_cases hsame : i + 1 = u.history.height
      · simp only [if_pos hsame, Action.pure_apply]
        exact .inl ⟨List.drop_eq_nil_of_le (by omega), trivial⟩
      · have hupper : (blocks.drop (i + 1)).length = u.history.height - (i + 1) := by
          rw [List.length_drop, hlength]
        obtain ⟨hstores, hdiscarded⟩ := (hblocks ▸ hs).discardBlocks
        rw [hupper] at hstores hdiscarded
        simp only [if_neg hsame]
        rw [Action.bind_of_ok (Action.modify_apply _ u), hcount, ← hdiscarded]
        exact .inr ⟨_, hstores, rfl⟩

end BlockchainUpdaterImpl

end Vsys
