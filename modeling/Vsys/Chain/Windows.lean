import Vsys.Chain.Scores

/-!
# Windows of a history

The last blocks of a history and the blocks that follow one of them, by their identifiers.  Heights
and lengths are numbers of 32 bits here, as a peer and the settings give them.
-/

namespace Vsys

open Lib

/-- `start to stop`. -/
def inclusive (start stop : Int32) : List Int :=
  (List.range (stop.toInt - start.toInt + 1).toNat).map fun (n : Nat) => start.toInt + (n : Int)

theorem le_of_mem_inclusive {start stop : Int32} {i : Int} (h : i ∈ inclusive start stop) :
    i ≤ stop.toInt := by
  obtain ⟨n, hn, rfl⟩ := List.mem_map.mp h
  rw [List.mem_range] at hn
  omega

theorem toInt_min (x y : Int32) : (min x y).toInt = min x.toInt y.toInt := by
  change (if x ≤ y then x else y).toInt = _
  split
  · rename_i hle
    have := Int32.le_iff_toInt_le.mp hle
    omega
  · rename_i hle
    have := mt Int32.le_iff_toInt_le.mpr hle
    omega

theorem toInt_max (x y : Int32) : (max x y).toInt = max x.toInt y.toInt := by
  change (if x ≤ y then y else x).toInt = _
  split
  · rename_i hle
    have := Int32.le_iff_toInt_le.mp hle
    omega
  · rename_i hle
    have := mt Int32.le_iff_toInt_le.mpr hle
    omega

/-- A sum of two numbers that are not negative is exact, or wraps around to a negative one. -/
theorem toInt_add_cases {x y : Int32} (hx : 0 ≤ x.toInt) (hy : 0 ≤ y.toInt) :
    x.toInt + y.toInt < 2147483648 ∧ (x + y).toInt = x.toInt + y.toInt ∨
      2147483648 ≤ x.toInt + y.toInt ∧ (x + y).toInt < 0 := by
  have hxlt := x.toInt_lt
  have hylt := y.toInt_lt
  rw [Int32.toInt_add, Int.bmod_def]
  omega

/-- The elements of a list from a position on, looked up one by one. -/
theorem filterMap_range_add {α : Type} (l : List α) (start count : Nat) :
    (List.range count).filterMap (fun n => l[start + n]?) = (l.drop start).take count := by
  induction count with
  | zero => rfl
  | succ count ih =>
      rw [List.range_succ, List.filterMap_append, ih, List.take_add_one, List.getElem?_drop]
      rfl

section Platform

variable [Platform]

namespace History

/-- `blockAt` of any height; there is no block at one that is not positive. -/
def blockAtHeight (h : History) (height : Int) : Result (Option Block) :=
  if 0 ≤ height then h.blockAt height.toNat else .ok none

/-- `blockIdsAfter`. -/
def blockIdsAfter (h : History) (parentSignature : ByteStr) (howMany : Int32) :
    Result (List ByteStr) :=
  match h.heightOf parentSignature with
  | none => .ok []
  | some height => do
      let stop := min (Int32.ofNat h.height) (Int32.ofNat height + howMany)
      let blocks ← (inclusive (Int32.ofNat height + 1) stop).mapM h.blockAtHeight
      .ok (blocks.reduceOption.map Block.uniqueId)

/-- `lastBlockIds`: the last block comes first. -/
def lastBlockIds (h : History) (howMany : Int32) : List ByteStr :=
  let start := max 1 (Int32.ofNat h.height - howMany + 1)
  ((inclusive start (Int32.ofNat h.height)).filterMap fun height =>
    if 0 ≤ height then h.blockIdByHeight.lookup height.toNat else none).reverse

/-- A history that stores some blocks, and finds each under its identifier. -/
structure Holds (h : History) (blocks : List Block) : Prop where
  stores : h.Stores blocks
  named : ∀ i b, blocks[i]? = some b → h.heightOf b.uniqueId = some (i + 1)

theorem Scored.holds {h : History} {blocks : List Block} (hs : h.Scored blocks) : h.Holds blocks :=
  ⟨hs.stores, hs.named⟩

variable {h : History} {blocks : List Block}

/-- The blocks of some heights. -/
theorem Stores.mapM_blockAtHeight (hs : h.Stores blocks) (heights : List Int) :
    heights.mapM h.blockAtHeight
      = .ok (heights.map fun k => if 1 ≤ k then blocks[k.toNat - 1]? else none) := by
  refine mapM_eq_ok_of_forall₂ (List.forall₂_map_right_iff.mpr (List.forall₂_same.mpr ?_))
  intro k _
  rw [blockAtHeight]
  by_cases hpos : 1 ≤ k
  · rw [if_pos (by omega), if_pos hpos]
    cases hb : blocks[k.toNat - 1]? with
    | none =>
        have hlength := List.getElem?_eq_none_iff.mp hb
        exact hs.blockAt_of_absent (.inr (by omega))
    | some b =>
        have hsucc : k.toNat = k.toNat - 1 + 1 := by omega
        rw [hsucc]
        exact hs.blockAt_succ hb
  · rw [if_neg hpos]
    split
    · exact hs.blockAt_of_absent (.inl (by omega))
    · rfl

/-- The blocks that follow a block of the chain, as long as the height they could reach is a number
of thirty-two bits; none otherwise. -/
theorem Holds.blockIdsAfter (hs : h.Holds blocks) (hlength : blocks.length < 2147483648) {i : Nat}
    {b : Block} (hb : blocks[i]? = some b) {howMany : Int32} (hpos : 1 ≤ howMany.toInt) :
    h.blockIdsAfter b.uniqueId howMany
      = .ok (if i + 1 + howMany.toInt < 2147483648 then
          ((blocks.drop (i + 1)).take howMany.toInt.toNat).map Block.uniqueId
        else []) := by
  have hi : i < blocks.length := (List.getElem?_eq_some_iff.mp hb).1
  have hheight : (Int32.ofNat h.height).toInt = blocks.length := by
    rw [hs.stores.height]
    exact Int32.toInt_ofNat_of_lt hlength
  have hparent : (Int32.ofNat (i + 1)).toInt = (i + 1 : Nat) :=
    Int32.toInt_ofNat_of_lt (by omega)
  simp only [History.blockIdsAfter, hs.named i b hb, hs.stores.mapM_blockAtHeight, ok_bind]
  show Except.ok ((List.filterMap id _).map Block.uniqueId) = _
  rw [List.filterMap_map]
  congr 1
  -- The last height is a sum in 32 bits, which fits or wraps to a negative one.
  obtain ⟨hfits, hsum⟩ | ⟨hwraps, hsum⟩ :=
    toInt_add_cases (x := Int32.ofNat (i + 1)) (y := howMany) (by omega) (by omega)
  · rw [if_pos (by omega)]
    congr 1
    have hstart : (Int32.ofNat (i + 1) + 1).toInt = (i + 2 : Nat) := by
      obtain ⟨-, hnext⟩ | ⟨hover, -⟩ := toInt_add_cases (x := Int32.ofNat (i + 1)) (y := 1)
        (by omega) (by decide)
      · rw [hnext, hparent]
        rfl
      · have hone : (1 : Int32).toInt = 1 := rfl
        omega
    have hcount : ((min (Int32.ofNat h.height) (Int32.ofNat (i + 1) + howMany)).toInt
        - (Int32.ofNat (i + 1) + 1).toInt + 1).toNat
          = min howMany.toInt.toNat (blocks.length - (i + 1)) := by
      rw [toInt_min, hstart, hsum, hparent, hheight]
      omega
    have hblock : ((id ∘ fun k : Int => if 1 ≤ k then blocks[k.toNat - 1]? else none) ∘
        fun n : Nat => (Int32.ofNat (i + 1) + 1).toInt + (n : Int))
          = fun n => blocks[i + 1 + n]? := by
      funext n
      show (if 1 ≤ (Int32.ofNat (i + 1) + 1).toInt + (n : Int) then
        blocks[((Int32.ofNat (i + 1) + 1).toInt + (n : Int)).toNat - 1]? else none) = _
      rw [hstart, if_pos (by omega)]
      congr 1
      omega
    rw [inclusive, List.filterMap_map, hcount, hblock, filterMap_range_add, ← List.length_drop,
      ← List.take_eq_take_min]
  · -- all heights up to a negative one are without a block
    rw [if_neg (by omega)]
    have hnone : (inclusive (Int32.ofNat (i + 1) + 1)
        (min (Int32.ofNat h.height) (Int32.ofNat (i + 1) + howMany))).filterMap
          (id ∘ fun k => if 1 ≤ k then blocks[k.toNat - 1]? else none) = [] := by
      rw [List.filterMap_eq_nil_iff]
      intro k hk
      have hle := le_of_mem_inclusive hk
      rw [toInt_min] at hle
      exact if_neg (by omega)
    rw [hnone]
    rfl

/-- Nothing follows an identifier that is not in the chain. -/
theorem Holds.blockIdsAfter_of_notMem (hs : h.Holds blocks) {id : ByteStr}
    (hid : id ∉ blocks.map Block.uniqueId) (howMany : Int32) :
    h.blockIdsAfter id howMany = .ok [] := by
  cases hheight : h.heightOf id with
  | none => rw [History.blockIdsAfter, hheight]
  | some k =>
      obtain ⟨i, b, -, hb, rfl⟩ := hs.stores.known id k hheight
      exact absurd (List.mem_map_of_mem (List.mem_of_getElem? hb)) hid

/-- The last blocks of a chain, as many as there are and are asked for. -/
theorem Holds.lastBlockIds (hs : h.Holds blocks) (hlength : blocks.length < 2147483648)
    {howMany : Int32} (hpos : 1 ≤ howMany.toInt) :
    h.lastBlockIds howMany
      = ((blocks.drop (blocks.length - howMany.toInt.toNat)).map Block.uniqueId).reverse := by
  have hheight : (Int32.ofNat h.height).toInt = blocks.length := by
    rw [hs.stores.height]
    exact Int32.toInt_ofNat_of_lt hlength
  have hlt := howMany.toInt_lt
  have hone : (1 : Int32).toInt = 1 := rfl
  -- The height is below 2 ^ 31 and the number asked for is positive, so that the difference does
  -- not wrap.
  have hstart : (max 1 (Int32.ofNat h.height - howMany + 1)).toInt
      = (blocks.length - howMany.toInt.toNat : Nat) + 1 := by
    have hdifference : (Int32.ofNat h.height - howMany).toInt = blocks.length - howMany.toInt := by
      rw [Int32.toInt_sub, hheight, Int.bmod_eq_of_le (by omega) (by omega)]
    rw [toInt_max, Int32.toInt_add, hdifference, hone, Int.bmod_eq_of_le (by omega) (by omega)]
    omega
  have hcount : ((Int32.ofNat h.height).toInt
      - (max 1 (Int32.ofNat h.height - howMany + 1)).toInt + 1).toNat
        = blocks.length - (blocks.length - howMany.toInt.toNat) := by
    rw [hstart, hheight]
    omega
  have hlookup : ∀ n ∈ List.range (blocks.length - (blocks.length - howMany.toInt.toNat)),
      (fun n : Nat => if 0 ≤ (max 1 (Int32.ofNat h.height - howMany + 1)).toInt + (n : Int) then
        h.blockIdByHeight.lookup
          ((max 1 (Int32.ofNat h.height - howMany + 1)).toInt + (n : Int)).toNat else none) n
      = (fun n => (blocks[blocks.length - howMany.toInt.toNat + n]?).map Block.uniqueId) n := by
    intro n hn
    rw [List.mem_range] at hn
    have hin : blocks.length - howMany.toInt.toNat + n < blocks.length := by omega
    have hid := hs.stores.ids _ _ (List.getElem?_eq_getElem hin)
    dsimp only
    rw [hstart, if_pos (by omega), List.getElem?_eq_getElem hin, Option.map_some, ← hid]
    congr 1
    omega
  rw [History.lastBlockIds, inclusive, List.filterMap_map, hcount]
  congr 1
  refine (List.filterMap_congr hlookup).trans ?_
  rw [← List.map_filterMap, filterMap_range_add, List.take_of_length_le]
  rw [List.length_drop]

end History

end Platform

end Vsys
