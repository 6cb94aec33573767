import Vsys.Chain.Heights

/-!
# The score of a chain

A history finds an identifier at the last block that has it, and a rollback to that block gives back
the score the chain had there.  When the blocks have identifiers of their own, the score is the
scores of the blocks, added up.
-/

namespace Vsys

open Lib

variable [Platform]

/-- The scores of some blocks, added up. -/
def chainScore (blocks : List Block) : Int := (blocks.map Block.blockScore).sum

theorem chainScore_append (blocks upper : List Block) :
    chainScore (blocks ++ upper) = chainScore blocks + chainScore upper := by
  rw [chainScore, List.map_append, List.sum_append, chainScore, chainScore]

theorem chainScore_concat (blocks : List Block) (b : Block) :
    chainScore (blocks ++ [b]) = chainScore blocks + b.blockScore := by
  rw [chainScore_append]
  simp [chainScore]

/-- A history that stores some blocks, and finds an identifier at no block but the last that has
it. -/
structure History.Indexed (h : History) (blocks : List Block) : Prop where
  stores : h.Stores blocks
  latest : ∀ i b k, blocks[i]? = some b → h.heightOf b.uniqueId = some k → i < k

/-- A history that stores some blocks, finds each at its height, and knows the score up to it. -/
structure History.Scored (h : History) (blocks : List Block) : Prop where
  stores : h.Stores blocks
  named : ∀ i b, blocks[i]? = some b → h.heightOf b.uniqueId = some (i + 1)
  scores : ∀ i, i < blocks.length →
    h.scoreByHeight.lookup (i + 1) = some (chainScore (blocks.take (i + 1)))

namespace History

variable {h : History} {blocks : List Block} {b : Block}

theorem scored_empty : empty.Scored [] where
  stores := stores_empty
  named := fun i b hb => by cases hb
  scores := fun i hi => absurd hi (Nat.not_lt_zero i)

/-- The score after a block is the one it was stored with. -/
theorem score_push {bytes : ByteStr} (hparse : Block.parseBytes bytes = .ok b) (score : Int) :
    (h.push b bytes score).score = .ok score := by
  have hbytes : (h.push b bytes score).blockBytes (h.height + 1) = some bytes :=
    Finmap.lookup_insert _
  have hlast : (h.push b bytes score).lastBlock = .ok (some b) := by
    show (h.push b bytes score).blockAt (h.height + 1) = _
    rw [blockAt, hbytes]
    dsimp only
    rw [hparse]
    rfl
  have hheight : (h.push b bytes score).heightOf b.uniqueId = some (h.height + 1) :=
    Finmap.lookup_insert _
  have hscore : (h.push b bytes score).scoreByHeight.lookup (h.height + 1) = some score :=
    Finmap.lookup_insert _
  rw [History.score, hlast, ok_bind, Option.bind_some, scoreOf, hheight, Option.map_some, hscore]
  rfl

/-- A history that stores blocks has a score. -/
theorem Stores.score_eq_ok (hs : h.Stores blocks) : ∃ s, h.score = .ok s := by
  rw [History.score, hs.lastBlock, ok_bind]
  exact ⟨_, rfl⟩

/-- Appending a block adds its score. -/
theorem appendBlock_score (hs : h.Stores blocks) {validation : Result BlockDiff} {d : BlockDiff}
    {history' : History} (hb : b.Storable)
    (happend : h.appendBlock b validation = .ok (d, history')) :
    ∃ s bytes, h.score = .ok s ∧ Block.parseBytes bytes = .ok b ∧
      history' = h.push b bytes (s + b.blockScore) := by
  obtain ⟨next, -, happend⟩ := bind_eq_ok_iff.mp happend
  obtain ⟨bytes', hbytes', hparse⟩ := hb
  cases next with
  | true =>
      obtain ⟨d', hd', happend⟩ := bind_eq_ok_iff.mp happend
      dsimp only at happend
      split at happend
      · rename_i hheight
        have hnone : blocks = [] := List.eq_nil_of_length_eq_zero (hs.height.symm.trans hheight)
        obtain ⟨oldScore, hold, happend⟩ := bind_eq_ok_iff.mp happend
        obtain ⟨bytes, hbytes, happend⟩ := bind_eq_ok_iff.mp happend
        obtain ⟨-, rfl⟩ := Prod.mk.inj (Except.ok.inj happend)
        obtain rfl := Except.ok.inj (hbytes.symm.trans hbytes')
        refine ⟨oldScore, bytes, ?_, hparse, rfl⟩
        rw [History.score, hs.lastBlock, hnone, ← hold]
        rfl
      · obtain ⟨oldScore, hold, happend⟩ := bind_eq_ok_iff.mp happend
        obtain ⟨bytes, hbytes, happend⟩ := bind_eq_ok_iff.mp happend
        obtain ⟨-, rfl⟩ := Prod.mk.inj (Except.ok.inj happend)
        obtain rfl := Except.ok.inj (hbytes.symm.trans hbytes')
        exact ⟨oldScore, bytes, hold, hparse, rfl⟩
  | false =>
      obtain ⟨last, -, happend⟩ := bind_eq_ok_iff.mp happend
      cases happend

theorem indexed_empty : empty.Indexed [] where
  stores := stores_empty
  latest := fun i b k hb => by cases hb

namespace Indexed

variable {upper : List Block}

theorem push (hs : h.Indexed blocks) {bytes : ByteStr} (hparse : Block.parseBytes bytes = .ok b)
    (score : Int) : (h.push b bytes score).Indexed (blocks ++ [b]) where
  stores := hs.stores.push hparse score
  latest := by
    intro i b' k hb' hk
    change (h.heightByBlockId.insert b.uniqueId (h.height + 1)).lookup b'.uniqueId = some k at hk
    have hheight := hs.stores.height
    have hlt := (List.getElem?_eq_some_iff.mp hb').1
    rw [List.length_append, List.length_singleton] at hlt
    rw [Dict.lookup_insert_eq] at hk
    by_cases hid : b'.uniqueId = b.uniqueId
    · rw [if_pos hid] at hk
      have := Option.some.inj hk
      omega
    · rw [if_neg hid] at hk
      obtain hold | ⟨-, rfl⟩ := Stores.getElem?_concat_iff.mp hb'
      · exact hs.latest i b' k hold hk
      · exact absurd rfl hid

/-- An identifier found below the top block is found there after the top block is off. -/
theorem heightOf_pop (hs : h.Indexed (blocks ++ [b])) {id : ByteStr} {k : Nat} :
    h.pop.heightOf id = some k ↔ h.heightOf id = some k ∧ k ≤ blocks.length := by
  have htop : (blocks ++ [b])[blocks.length]? = some b :=
    Stores.getElem?_concat_iff.mpr (.inr ⟨rfl, rfl⟩)
  have hheight := hs.stores.height
  rw [List.length_append, List.length_singleton] at hheight
  have hid : h.blockIdByHeight.lookup h.height = some b.uniqueId := by
    rw [hheight]
    exact hs.stores.ids blocks.length b htop
  have hpop : h.pop.heightOf id = (h.heightByBlockId.erase b.uniqueId).lookup id := by
    simp only [History.pop, History.heightOf, hid]
  rw [hpop, Dict.lookup_erase_eq]
  split
  · rename_i heq
    subst heq
    constructor
    · exact fun hk => by cases hk
    · rintro ⟨hk, hle⟩
      exact absurd (hs.latest _ b k htop hk) (by omega)
  · rename_i hne
    refine ⟨fun hk => ⟨hk, ?_⟩, fun hk => hk.1⟩
    obtain ⟨i, b', rfl, hb', rfl⟩ := hs.stores.known id k hk
    obtain hold | ⟨-, rfl⟩ := Stores.getElem?_concat_iff.mp hb'
    · exact (List.getElem?_eq_some_iff.mp hold).1
    · exact absurd rfl hne

theorem pop (hs : h.Indexed (blocks ++ [b])) : h.pop.Indexed blocks where
  stores := hs.stores.pop
  latest := fun i b' k hb' hk =>
    hs.latest i b' k (Stores.getElem?_concat_iff.mpr (.inl hb')) (hs.heightOf_pop.mp hk).1

/-- Some blocks off the top: what is found below them is still found, with the score it had. -/
theorem discardBlocks (hs : h.Indexed (blocks ++ upper)) :
    (h.discardBlocks upper.length).2.Indexed blocks ∧
      ∀ id k, h.heightOf id = some k → k ≤ blocks.length →
        (h.discardBlocks upper.length).2.scoreOf id = h.scoreOf id := by
  induction upper using List.reverseRecOn generalizing h with
  | nil =>
      rw [List.append_nil] at hs
      exact ⟨hs, fun _ _ _ _ => rfl⟩
  | append_singleton upper b ih =>
      rw [← List.append_assoc] at hs
      have hheight := hs.stores.height
      rw [List.length_append, List.length_append, List.length_singleton] at hheight
      obtain ⟨hindexed, hscores⟩ := ih hs.pop
      rw [List.length_append, List.length_singleton]
      refine ⟨hindexed, fun id k hk hle => ?_⟩
      have hkept : h.pop.heightOf id = some k :=
        hs.heightOf_pop.mpr ⟨hk, by rw [List.length_append]; omega⟩
      refine (hscores id k hkept hle).trans ?_
      have hscore : h.pop.scoreByHeight.lookup k = h.scoreByHeight.lookup k := by
        show (h.scoreByHeight.erase h.height).lookup k = _
        rw [Dict.lookup_erase_eq, if_neg (by omega)]
      rw [History.scoreOf, History.scoreOf, hkept, hk, Option.map_some, Option.map_some, hscore]

/-- A history that ends with a block it finds there has the score of that block. -/
theorem score_concat (hs : h.Indexed (blocks ++ [b])) {s : Int}
    (hs' : h.scoreOf b.uniqueId = some s) : h.score = .ok s := by
  rw [History.score, hs.stores.lastBlock, ok_bind, List.getLast?_concat, Option.bind_some, hs',
    Option.getD_some]

end Indexed

namespace Scored

/-- The score of the chain up to a block of it. -/
theorem scoreOf (hs : h.Scored blocks) {id : ByteStr} {height : Nat}
    (hheight : h.heightOf id = some height) :
    h.scoreOf id = some (chainScore (blocks.take height)) := by
  obtain ⟨i, b, rfl, hb, -⟩ := hs.stores.known id height hheight
  rw [History.scoreOf, hheight, Option.map_some, hs.scores i (List.getElem?_eq_some_iff.mp hb).1,
    Option.getD_some]

theorem score (hs : h.Scored blocks) : h.score = .ok (chainScore blocks) := by
  rw [History.score, hs.stores.lastBlock, ok_bind]
  cases hlast : blocks.getLast? with
  | none =>
      rw [List.getLast?_eq_none_iff.mp hlast]
      rfl
  | some b =>
      obtain ⟨lower, rfl⟩ := List.getLast?_eq_some_iff.mp hlast
      have hheight := hs.named lower.length b (Stores.getElem?_concat_iff.mpr (.inr ⟨rfl, rfl⟩))
      rw [Option.bind_some, hs.scoreOf hheight, Option.getD_some, List.take_of_length_le (by simp)]

/-- The identifiers of the blocks differ. -/
theorem nodup (hs : h.Scored blocks) : (blocks.map Block.uniqueId).Nodup := by
  rw [List.nodup_iff_injective_get]
  intro i j hij
  simp only [List.get_eq_getElem, List.getElem_map] at hij
  have hi := hs.named i _ (List.getElem?_eq_getElem (by simpa using i.isLt))
  have hj := hs.named j _ (List.getElem?_eq_getElem (by simpa using j.isLt))
  rw [hij, hj] at hi
  exact Fin.ext (Nat.succ_injective (Option.some.inj hi)).symm

/-- A block with an identifier of its own on top. -/
theorem push (hs : h.Scored blocks) {bytes : ByteStr} (hparse : Block.parseBytes bytes = .ok b)
    (hnew : b.uniqueId ∉ blocks.map Block.uniqueId) :
    (h.push b bytes (chainScore blocks + b.blockScore)).Scored (blocks ++ [b]) := by
  have hheight := hs.stores.height
  constructor
  case stores => exact hs.stores.push hparse _
  case named =>
    intro i b' hb'
    show (h.heightByBlockId.insert b.uniqueId (h.height + 1)).lookup b'.uniqueId = _
    rw [Dict.lookup_insert_eq]
    obtain hold | ⟨rfl, rfl⟩ := Stores.getElem?_concat_iff.mp hb'
    · have hmem : b'.uniqueId ∈ blocks.map Block.uniqueId :=
        List.mem_map_of_mem (List.mem_of_getElem? hold)
      have hne : b'.uniqueId ≠ b.uniqueId := fun heq => hnew (heq ▸ hmem)
      rw [if_neg hne]
      exact hs.named i b' hold
    · rw [if_pos rfl, hheight]
  case scores =>
    intro i hi
    rw [List.length_append, List.length_singleton] at hi
    show (h.scoreByHeight.insert (h.height + 1) _).lookup (i + 1) = _
    rw [Dict.lookup_insert_eq]
    by_cases htop : i = blocks.length
    · rw [if_pos (by omega), htop, List.take_of_length_le (by simp), chainScore_concat]
    · rw [if_neg (by omega), hs.scores i (by omega), List.take_append_of_le_length (by omega)]

/-- The top block off. -/
theorem pop (hs : h.Scored (blocks ++ [b])) : h.pop.Scored blocks := by
  have hheight := hs.stores.height
  rw [List.length_append, List.length_singleton] at hheight
  have htop := hs.named blocks.length b (Stores.getElem?_concat_iff.mpr (.inr ⟨rfl, rfl⟩))
  have hid : h.blockIdByHeight.lookup h.height = some b.uniqueId := by
    rw [hheight]
    exact hs.stores.ids blocks.length b (Stores.getElem?_concat_iff.mpr (.inr ⟨rfl, rfl⟩))
  constructor
  case stores => exact hs.stores.pop
  case named =>
    intro i b' hb'
    have hlt := (List.getElem?_eq_some_iff.mp hb').1
    have hold := hs.named i b' (Stores.getElem?_concat_iff.mpr (.inl hb'))
    simp only [History.pop, History.heightOf, hid]
    rw [Dict.lookup_erase_eq, if_neg fun heq => ?_]
    · exact hold
    · rw [heq, htop] at hold
      exact absurd (Nat.succ_injective (Option.some.inj hold)) (by omega)
  case scores =>
    intro i hi
    have hold := hs.scores i (by rw [List.length_append, List.length_singleton]; omega)
    show (h.scoreByHeight.erase h.height).lookup (i + 1) = _
    rw [Dict.lookup_erase_eq, if_neg (by omega), hold, List.take_append_of_le_length (by omega)]

/-- Some blocks off the top. -/
theorem discardBlocks {upper : List Block} (hs : h.Scored (blocks ++ upper)) :
    (h.discardBlocks upper.length).2.Scored blocks := by
  induction upper using List.reverseRecOn generalizing h with
  | nil => rwa [List.append_nil] at hs
  | append_singleton upper b ih =>
      rw [← List.append_assoc] at hs
      rw [List.length_append, List.length_singleton]
      exact ih hs.pop

end Scored

end History

end Vsys
