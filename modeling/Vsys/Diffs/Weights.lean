import Mathlib.Tactic.Ring
import Vsys.Sample
import Vsys.Diffs.Common

/-!
# The weighted balance

A weighted balance follows the effective balance over a day's blocks: each block replaces one part
of the last weighted balance by one part of the last effective balance.  The parts are divided
before they are scaled, so nothing overflows, and the blend is between the two balances.  It is
there exactly if the minting speed leaves a day at least one block.
-/

namespace Vsys

open Lib

namespace SPoSCalc

/-- The number of blocks the weighted balance takes to follow. -/
theorem maxUpdateBlocks_toInt (fs : FunctionalitySettings) :
    (Int64.ofInt (24 * 60 * 60 / max fs.mintingSpeed 1)).toInt
      = 86400 / max fs.mintingSpeed 1 ∧ 0 ≤ 86400 / max fs.mintingSpeed 1 ∧
      86400 / max fs.mintingSpeed 1 ≤ 86400 := by
  have hspeed : 1 ≤ max fs.mintingSpeed 1 := le_max_right _ _
  have hle : 86400 / max fs.mintingSpeed 1 ≤ 86400 := Int.ediv_le_self _ (by decide)
  have hnonneg : 0 ≤ 86400 / max fs.mintingSpeed 1 := Int.ediv_nonneg (by decide) (by omega)
  refine ⟨toInt_ofInt_inWord ?_, hnonneg, hle⟩
  show InWord (86400 / max fs.mintingSpeed 1)
  unfold InWord
  omega

/-- A day has a block exactly up to a minting speed of its seconds. -/
theorem maxUpdateBlocks_pos_iff (fs : FunctionalitySettings) :
    0 < 86400 / max fs.mintingSpeed 1 ↔ fs.mintingSpeed ≤ 86400 := by
  have hspeed : 0 < max fs.mintingSpeed 1 := lt_of_lt_of_le Int.one_pos (le_max_right _ _)
  constructor
  · intro h
    have hle := (Int.le_ediv_iff_mul_le hspeed).mp (Int.add_one_le_of_lt h)
    omega
  · intro h
    exact Int.lt_of_lt_of_le Int.one_pos ((Int.le_ediv_iff_mul_le hspeed).mpr (by omega))

/-- After `u` of `m` blocks: `u` parts of one balance and the other parts of another. -/
def blend (e w m u : Int) : Int := e / m * u + w / m * (m - u)

/-- A part of one amount and the rest of another are not more than the greater of the two. -/
theorem blended_le {e w m u : Int} (he : 0 ≤ e) (hw : 0 ≤ w) (hm : 0 < m) (hu : 0 ≤ u)
    (hum : u ≤ m) :
    0 ≤ e / m * u ∧ 0 ≤ w / m * (m - u) ∧ e / m * u + w / m * (m - u) ≤ max e w := by
  have hE : 0 ≤ e / m := Int.ediv_nonneg he hm.le
  have hW : 0 ≤ w / m := Int.ediv_nonneg hw hm.le
  have hrest : 0 ≤ m - u := by omega
  have hEm : e / m * m ≤ e := Int.ediv_mul_le e hm.ne'
  have hWm : w / m * m ≤ w := Int.ediv_mul_le w hm.ne'
  refine ⟨Int.mul_nonneg hE hu, Int.mul_nonneg hW hrest, ?_⟩
  calc e / m * u + w / m * (m - u)
      ≤ max (e / m) (w / m) * u + max (e / m) (w / m) * (m - u) :=
        Int.add_le_add (Int.mul_le_mul_of_nonneg_right (le_max_left _ _) hu)
          (Int.mul_le_mul_of_nonneg_right (le_max_right _ _) hrest)
    _ = max (e / m * m) (w / m * m) := by
        rw [← Int.mul_add, add_sub_cancel, max_mul_of_nonneg _ _ hm.le]
    _ ≤ max e w := max_le_max hEm hWm

/-- Where the new balance is the greater one, the blend grows with its parts. -/
theorem blend_mono {e w m u u' : Int} (hm : 0 < m) (hle : w ≤ e) (hu : u ≤ u') :
    blend e w m u ≤ blend e w m u' := by
  have hparts : w / m ≤ e / m := Int.ediv_le_ediv hm hle
  have hstep : 0 ≤ (e / m - w / m) * (u' - u) := Int.mul_nonneg (by omega) (by omega)
  have hdiff : blend e w m u' - blend e w m u = (e / m - w / m) * (u' - u) := by
    unfold blend
    ring
  omega

/-- The blend of two balances does not overflow. -/
theorem toInt_blended {e w blocks : Int64} {heightDiff : Int} (he : 0 ≤ e) (hw : 0 ≤ w)
    (hpos : 0 < blocks.toInt) (hdiff : 0 ≤ heightDiff) (hle : blocks.toInt ≤ 86400) :
    (e / blocks * Int64.ofInt (min blocks.toInt heightDiff)
      + w / blocks * (blocks - Int64.ofInt (min blocks.toInt heightDiff))).toInt
        = blend e.toInt w.toInt blocks.toInt (min blocks.toInt heightDiff) := by
  have hzero : (0 : Int64).toInt = 0 := rfl
  rw [Int64.le_iff_toInt_le, hzero] at he hw
  obtain ⟨hfirst, hsecond, hsum⟩ := blended_le he hw hpos (le_min hpos.le hdiff)
    (min_le_left blocks.toInt heightDiff)
  have hmax : max e.toInt w.toInt ≤ 9223372036854775807 :=
    max_le (inWord_toInt _).2 (inWord_toInt _).2
  have hupdated : (Int64.ofInt (min blocks.toInt heightDiff)).toInt
      = min blocks.toInt heightDiff := toInt_ofInt_inWord (by unfold InWord; omega)
  have hrest : (blocks - Int64.ofInt (min blocks.toInt heightDiff)).toInt
      = blocks.toInt - min blocks.toInt heightDiff := by
    rw [toInt_sub_exact (by rw [hupdated]; unfold InWord; omega), hupdated]
  have hleft : (e / blocks * Int64.ofInt (min blocks.toInt heightDiff)).toInt
      = e.toInt / blocks.toInt * min blocks.toInt heightDiff := by
    rw [toInt_mul_exact, toInt_div_nonneg he hpos, hupdated]
    rw [toInt_div_nonneg he hpos, hupdated]
    unfold InWord
    omega
  have hright : (w / blocks * (blocks - Int64.ofInt (min blocks.toInt heightDiff))).toInt
      = w.toInt / blocks.toInt * (blocks.toInt - min blocks.toInt heightDiff) := by
    rw [toInt_mul_exact, toInt_div_nonneg hw hpos, hrest]
    rw [toInt_div_nonneg hw hpos, hrest]
    unfold InWord
    omega
  rw [toInt_add_exact (by rw [hleft, hright]; unfold InWord; omega), hleft, hright]
  rfl

section Calculated

variable {heightDiff : Int} {lastEffectiveBalance lastWeightedBalance cntEffectiveBalance : Int64}
  {fs : FunctionalitySettings}

/-- A day without blocks raises. -/
theorem weightedBalaceCalc_of_fast (h : 86400 < fs.mintingSpeed) :
    weightedBalaceCalc heightDiff lastEffectiveBalance lastWeightedBalance cntEffectiveBalance fs
      = raise .arithmetic := by
  obtain ⟨hblocks, hnonneg, -⟩ := maxUpdateBlocks_toInt fs
  have hnot := (maxUpdateBlocks_pos_iff fs).not.mpr (not_le.mpr h)
  have hzero : Int64.ofInt (24 * 60 * 60 / max fs.mintingSpeed 1) = 0 := by
    rw [← Int64.toInt_inj, hblocks]
    change _ = (0 : Int)
    omega
  rw [weightedBalaceCalc, hzero]
  rfl

variable (cntEffectiveBalance) in
/-- Otherwise the result is the blend over the integers, or the current effective balance where
that is less. -/
theorem exists_weightedBalaceCalc (h : fs.mintingSpeed ≤ 86400) (hdiff : 0 ≤ heightDiff)
    (heffective : 0 ≤ lastEffectiveBalance) (hlast : 0 ≤ lastWeightedBalance) :
    ∃ weighted, weightedBalaceCalc heightDiff lastEffectiveBalance lastWeightedBalance
        cntEffectiveBalance fs = .ok weighted ∧
      weighted.toInt = min (blend lastEffectiveBalance.toInt lastWeightedBalance.toInt
        (86400 / max fs.mintingSpeed 1) (min (86400 / max fs.mintingSpeed 1) heightDiff))
          cntEffectiveBalance.toInt := by
  obtain ⟨hblocks, -, hle⟩ := maxUpdateBlocks_toInt fs
  have hpos := (maxUpdateBlocks_pos_iff fs).mpr h
  rw [weightedBalaceCalc]
  dsimp only
  generalize Int64.ofInt (24 * 60 * 60 / max fs.mintingSpeed 1) = blocks at hblocks ⊢
  rw [← hblocks] at hpos hle ⊢
  have hne : blocks ≠ 0 := by
    rintro rfl
    exact absurd hpos (by decide)
  rw [if_neg hne]
  refine ⟨_, rfl, ?_⟩
  rw [toInt_min, toInt_blended heffective hlast hpos hdiff hle]

/-- A new weighted balance is in bounds. -/
theorem weightedBalaceCalc_bounds {weighted : Int64} (hdiff : 0 ≤ heightDiff)
    (heffective : 0 ≤ lastEffectiveBalance) (hlast : 0 ≤ lastWeightedBalance)
    (hcnt : 0 ≤ cntEffectiveBalance)
    (h : weightedBalaceCalc heightDiff lastEffectiveBalance lastWeightedBalance cntEffectiveBalance
      fs = .ok weighted) :
    0 ≤ weighted ∧ weighted ≤ cntEffectiveBalance := by
  have hslow : fs.mintingSpeed ≤ 86400 := by
    by_contra hfast
    rw [weightedBalaceCalc_of_fast (not_le.mp hfast)] at h
    cases h
  obtain ⟨weighted', hok, hvalue⟩ := exists_weightedBalaceCalc cntEffectiveBalance hslow
    hdiff heffective hlast
  obtain rfl := Except.ok.inj (hok.symm.trans h)
  have hzero : (0 : Int64).toInt = 0 := rfl
  rw [Int64.le_iff_toInt_le, hzero] at heffective hlast hcnt
  have hpos := (maxUpdateBlocks_pos_iff fs).mpr hslow
  obtain ⟨hfirst, hsecond, -⟩ := blended_le heffective hlast hpos (le_min hpos.le hdiff)
    (min_le_left _ heightDiff)
  rw [Int64.le_iff_toInt_le, Int64.le_iff_toInt_le, hzero, hvalue]
  exact ⟨le_min (Int.add_nonneg hfirst hsecond) hcnt, min_le_right _ _⟩

/-- The weighted balance is there unless the minting speed leaves it no blocks. -/
theorem weightedBalaceCalc_ok_or_raise :
    let weighted := weightedBalaceCalc heightDiff lastEffectiveBalance lastWeightedBalance
      cntEffectiveBalance fs
    (∃ balance, weighted = .ok balance) ∨
      86400 < fs.mintingSpeed ∧ weighted = raise .arithmetic := by
  dsimp only
  by_cases h : fs.mintingSpeed ≤ 86400
  · obtain ⟨hblocks, -, -⟩ := maxUpdateBlocks_toInt fs
    have hpos := (maxUpdateBlocks_pos_iff fs).mpr h
    rw [weightedBalaceCalc]
    dsimp only
    rw [if_neg]
    · exact .inl ⟨_, rfl⟩
    · intro hzero
      rw [hzero] at hblocks
      rw [← hblocks] at hpos
      exact absurd hpos (by decide)
  · exact .inr ⟨not_le.mp h, weightedBalaceCalc_of_fast (not_le.mp h)⟩

/-- No intermediate value of the formula, over the integers, leaves the words. -/
def FitsWord (heightDiff : Int) (lastEffectiveBalance lastWeightedBalance : Int64)
    (fs : FunctionalitySettings) : Prop :=
  let maxUpdateBlocks := 24 * 60 * 60 / max fs.mintingSpeed 1
  let updated := min maxUpdateBlocks heightDiff
  InWord maxUpdateBlocks ∧ InWord updated ∧ InWord (maxUpdateBlocks - updated) ∧
    InWord (lastEffectiveBalance.toInt / maxUpdateBlocks * updated) ∧
    InWord (lastWeightedBalance.toInt / maxUpdateBlocks * (maxUpdateBlocks - updated)) ∧
    InWord (blend lastEffectiveBalance.toInt lastWeightedBalance.toInt maxUpdateBlocks updated)

/-- A calculation that weighs balances well: it divides by no zero, nothing overflows, the result is
between zero and the balances it is made of, and with the same balances it only grows later on. -/
def WellWeighted (heightDiff : Int)
    (lastEffectiveBalance lastWeightedBalance cntEffectiveBalance : Int64)
    (fs : FunctionalitySettings) : Prop :=
  24 * 60 * 60 / max fs.mintingSpeed 1 ≠ 0 ∧
    FitsWord heightDiff lastEffectiveBalance lastWeightedBalance fs ∧
    ∃ w, weightedBalaceCalc heightDiff lastEffectiveBalance lastWeightedBalance
        cntEffectiveBalance fs = .ok w ∧
      0 ≤ w ∧ w ≤ min cntEffectiveBalance (max lastEffectiveBalance lastWeightedBalance) ∧
      (lastWeightedBalance ≤ lastEffectiveBalance → ∀ later, heightDiff ≤ later →
        ∃ w', weightedBalaceCalc later lastEffectiveBalance lastWeightedBalance
          cntEffectiveBalance fs = .ok w' ∧ w ≤ w')

/-- For balances that are not negative nothing overflows. -/
theorem fitsWord (h : fs.mintingSpeed ≤ 86400) (hdiff : 0 ≤ heightDiff)
    (heffective : 0 ≤ lastEffectiveBalance) (hlast : 0 ≤ lastWeightedBalance) :
    FitsWord heightDiff lastEffectiveBalance lastWeightedBalance fs := by
  have hzero : (0 : Int64).toInt = 0 := rfl
  have hle : 24 * 60 * 60 / max fs.mintingSpeed 1 ≤ 86400 := (maxUpdateBlocks_toInt fs).2.2
  have hpos : 0 < 24 * 60 * 60 / max fs.mintingSpeed 1 := (maxUpdateBlocks_pos_iff fs).mpr h
  rw [Int64.le_iff_toInt_le, hzero] at heffective hlast
  have hwords : max lastEffectiveBalance.toInt lastWeightedBalance.toInt ≤ 9223372036854775807 :=
    max_le (inWord_toInt _).2 (inWord_toInt _).2
  unfold FitsWord
  generalize 24 * 60 * 60 / max fs.mintingSpeed 1 = blocks at hle hpos ⊢
  have hupdated := le_min hpos.le hdiff
  have hless := min_le_left blocks heightDiff
  obtain ⟨hfirst, hsecond, hsum⟩ := blended_le heffective hlast hpos hupdated hless
  dsimp only
  unfold InWord blend
  refine ⟨?_, ?_, ?_, ?_, ?_, ?_⟩ <;> omega

/-- A calculation weighs balances well exactly if the minting speed leaves a day at least one block. -/
theorem wellWeighted_iff (hdiff : 0 ≤ heightDiff) (heffective : 0 ≤ lastEffectiveBalance)
    (hlast : 0 ≤ lastWeightedBalance) (hcnt : 0 ≤ cntEffectiveBalance) :
    WellWeighted heightDiff lastEffectiveBalance lastWeightedBalance cntEffectiveBalance fs ↔
      fs.mintingSpeed ≤ 86400 := by
  rw [← maxUpdateBlocks_pos_iff fs]
  constructor
  · rintro ⟨hne, -⟩
    exact lt_of_le_of_ne (maxUpdateBlocks_toInt fs).2.1 (Ne.symm hne)
  · intro hpos
    have hslow := (maxUpdateBlocks_pos_iff fs).mp hpos
    -- With a positive divisor the source divides before it multiplies, so that nothing wraps and
    -- the blend lies between the two balances.
    obtain ⟨w, hok, hvalue⟩ := exists_weightedBalaceCalc cntEffectiveBalance hslow hdiff heffective
      hlast
    obtain ⟨hnonneg, hle⟩ := weightedBalaceCalc_bounds hdiff heffective hlast hcnt hok
    refine ⟨Int.ne_of_gt hpos, fitsWord hslow hdiff heffective hlast, w, hok, hnonneg, ?_, ?_⟩
    · rw [Int64.le_iff_toInt_le, toInt_min, toInt_max]
      have hblend := (blended_le (Int64.le_iff_toInt_le.mp heffective)
        (Int64.le_iff_toInt_le.mp hlast) hpos (le_min hpos.le hdiff)
          (min_le_left _ heightDiff)).2.2
      refine le_min (Int64.le_iff_toInt_le.mp hle) (le_trans ?_ hblend)
      rw [hvalue]
      exact min_le_left _ _
    · intro hgrows later hlater
      obtain ⟨w', hok', hvalue'⟩ := exists_weightedBalaceCalc cntEffectiveBalance hslow
        (hdiff.trans hlater) heffective hlast
      refine ⟨w', hok', Int64.le_iff_toInt_le.mpr ?_⟩
      rw [hvalue, hvalue']
      exact min_le_min_right _ (blend_mono hpos (Int64.le_iff_toInt_le.mp hgrows)
        (min_le_min_left _ hlater))

end Calculated

end SPoSCalc

end Vsys

namespace Vsys.Sample

open SPoSCalc

/-- Half a day after a balance was doubled, at the minting speed of the main network. -/
theorem halfDay_wellWeighted : WellWeighted 43200 200 100 200 ⟨60, 1, 0⟩ :=
  (wellWeighted_iff (by decide) (by decide) (by decide) (by decide)).mpr (by decide)

/-- At a minting speed above the seconds of a day the formula divides by zero. -/
theorem fastMinting_raises :
    weightedBalaceCalc 1 200 100 200 ⟨60, 86401, 0⟩ = raise .arithmetic ∧
      ¬ WellWeighted 1 200 100 200 ⟨60, 86401, 0⟩ := by
  refine ⟨by decide, ?_⟩
  rintro ⟨hne, -⟩
  exact hne (by decide)

end Vsys.Sample
