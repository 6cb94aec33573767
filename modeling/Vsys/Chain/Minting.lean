import Vsys.Chain.Records
import Vsys.Chain.SlotLookups
import Vsys.Lib.Rounds

/-!
# When a miner mints

`generateBlockTask` of the miner waits until the next window of its slot starts, with a balance at
the height of the history.  The coordinator recovers the slot from the mint time, and recomputes the
balance at the height of the state.
-/

namespace Vsys

open Lib

section Platform

variable [Platform]

namespace Miner

/-- `nextConnectTime`, one minute, in nanoseconds. -/
def nextConnectTime : Int64 := 60000000000

/-- The offset `generateBlockTask` waits for at a time; without slots it divides by zero. -/
def offset (fs : FunctionalitySettings) (slot : Except String Int) (ts : Int64) : Result Int64 :=
  let totalSlots := Int64.ofInt fs.numOfSlots
  let mintingSpeed := Int64.ofInt (max fs.mintingSpeed 1)
  let timeOfOneRound := totalSlots * mintingSpeed
  match slot with
  | .ok id =>
      if timeOfOneRound * 1000000000 = 0 then raise .arithmetic
      else .ok ((Int64.ofInt id * mintingSpeed * 1000000000 + timeOfOneRound * 1000000000
        - ts % (timeOfOneRound * 1000000000)) % (timeOfOneRound * 1000000000))
  | .error _ => .ok nextConnectTime

/-- What `generateBlockTask` hands on to `generateOneBlockTask`. -/
structure Attempt where
  offset : Int64
  balance : Int64
  mintTime : Int64
  deriving DecidableEq

/-- `generateBlockTask`, at the time it has read once the last block is young enough. -/
def generateBlockTask (fs : FunctionalitySettings) (history : History) (stateReader : StateView)
    (account : PublicKeyAccount) (ts : Int64) : Result Attempt := do
  let height := history.height
  let slot ← checkSlot stateReader account.toAddress
  let offset ← offset fs slot ts
  let balance ← SPoSCalc.mintingBalance stateReader fs account.toAddress height
  .ok ⟨offset, balance, ts + offset⟩

/-- The consensus data `generateOneBlockTask` puts into the block. -/
def Attempt.consensusData (attempt : Attempt) : SposConsensusBlockData :=
  ⟨attempt.mintTime, attempt.balance⟩

/-- How long the window of a slot is, in nanoseconds. -/
def window (fs : FunctionalitySettings) : Int := max fs.mintingSpeed 1 * 1000000000

/-- How long it takes until a window of the slot starts. -/
def wait (fs : FunctionalitySettings) (id : Int) (ts : Int64) : Int :=
  Rounds.wait (window fs) fs.numOfSlots id ts.toInt

/-- The products of the offset and what is made of them are words: one round, the sum before the
last remainder is taken, and the mint time. -/
structure InRange (fs : FunctionalitySettings) (id : Int) (ts : Int64) : Prop where
  round : InWord (fs.numOfSlots * window fs)
  sum : InWord (id * window fs + fs.numOfSlots * window fs
    - ts.toInt % (fs.numOfSlots * window fs))
  mintTime : InWord (ts.toInt + wait fs id ts)

section Offset

variable {fs : FunctionalitySettings} {id : Int} {ts : Int64}

omit [Platform] in
theorem window_pos (fs : FunctionalitySettings) : 0 < window fs := by
  have : 1 ≤ max fs.mintingSpeed 1 := le_max_right _ _
  unfold window
  omega

omit [Platform] in
/-- A product of the offset, as a word. -/
theorem ofInt_mul_window (fs : FunctionalitySettings) (n : Int) :
    Int64.ofInt n * Int64.ofInt (max fs.mintingSpeed 1) * 1000000000
      = Int64.ofInt (n * window fs) := by
  have hsecond : (1000000000 : Int64) = Int64.ofInt 1000000000 := rfl
  rw [hsecond, ← Int64.ofInt_mul, ← Int64.ofInt_mul, window, mul_assoc]

omit [Platform] in
/-- The offset is the wait until a window of the slot starts. -/
theorem offset_eq (hts : 0 ≤ ts) (hid : 0 ≤ id) (hlt : id < fs.numOfSlots)
    (hrange : InRange fs id ts) :
    offset fs (.ok id) ts = .ok (Int64.ofInt (wait fs id ts)) := by
  have hround : 0 < fs.numOfSlots * window fs := Int.mul_pos (by omega) (window_pos fs)
  have hword := toInt_ofInt_inWord hrange.round
  have hne : Int64.ofInt (fs.numOfSlots * window fs) ≠ 0 := by
    intro h
    rw [h] at hword
    exact absurd hword.symm hround.ne'
  have hnonneg : 0 ≤ ts.toInt := Int64.le_iff_toInt_le.mp hts
  have hplace : 0 ≤ id * window fs := Int.mul_nonneg hid (window_pos fs).le
  have hrest := Int.emod_lt_of_pos ts.toInt hround
  -- the remainder of the time, and the sum, are what they are over the integers
  have hmod : (ts % Int64.ofInt (fs.numOfSlots * window fs)).toInt
      = ts.toInt % (fs.numOfSlots * window fs) := by
    rw [Int64.toInt_mod, hword, Int.tmod_eq_emod_of_nonneg hnonneg]
  have hsum : (Int64.ofInt (id * window fs) + Int64.ofInt (fs.numOfSlots * window fs)
        - ts % Int64.ofInt (fs.numOfSlots * window fs)).toInt
      = id * window fs + fs.numOfSlots * window fs - ts.toInt % (fs.numOfSlots * window fs) := by
    rw [← toInt_ofInt_inWord hrange.sum, Int64.ofInt_sub, Int64.ofInt_add, ← hmod, Int64.ofInt_toInt]
  unfold offset
  simp only [ofInt_mul_window]
  rw [if_neg hne, ← Int64.ofInt_toInt (_ % _), Int64.toInt_mod, hsum, hword,
    Int.tmod_eq_emod_of_nonneg (by omega)]
  rfl

omit [Platform] in
/-- The wait is less than a round, so it is a word. -/
theorem toInt_wait (hid : 0 ≤ id) (hlt : id < fs.numOfSlots) (hrange : InRange fs id ts) :
    (Int64.ofInt (wait fs id ts)).toInt = wait fs id ts := by
  have hround : 0 < fs.numOfSlots * window fs := Int.mul_pos (by omega) (window_pos fs)
  have hnonneg : 0 ≤ wait fs id ts := Rounds.wait_nonneg hround
  have hless : wait fs id ts < fs.numOfSlots * window fs := Rounds.wait_lt hround
  have hword := hrange.round
  apply toInt_ofInt_inWord
  unfold InWord at hword ⊢
  omega

omit [Platform] in
/-- The coordinator finds the slot of an instant. -/
theorem slotOf_eq {mintTime : Int64} (hslots : 0 < fs.numOfSlots) (hmint : 0 ≤ mintTime.toInt) :
    Coordinator.slotOf fs mintTime
      = .ok (Rounds.slotAt (window fs) fs.numOfSlots mintTime.toInt) := by
  have hspeed : 0 ≤ max fs.mintingSpeed 1 := le_trans (by decide) (le_max_right _ _)
  have hsecond : 0 ≤ mintTime.toInt / 1000000000 := Int.ediv_nonneg hmint (by decide)
  rw [Coordinator.slotOf, if_neg hslots.ne', Int.tdiv_eq_ediv_of_nonneg hmint,
    Int.tdiv_eq_ediv_of_nonneg hsecond,
    Int.tmod_eq_emod_of_nonneg (Int.ediv_nonneg hsecond hspeed), Rounds.slotAt, window,
    Int.mul_comm, Int.ediv_ediv_of_nonneg (by decide)]

omit [Platform] in
/-- The coordinator finds the slot a mint time has been made for. -/
theorem slotOf_mintTime (hts : 0 ≤ ts) (hid : 0 ≤ id) (hlt : id < fs.numOfSlots)
    (hrange : InRange fs id ts) :
    Coordinator.slotOf fs (ts + Int64.ofInt (wait fs id ts)) = .ok id := by
  have hround : 0 < fs.numOfSlots * window fs := Int.mul_pos (by omega) (window_pos fs)
  have hnonneg : 0 ≤ ts.toInt := Int64.le_iff_toInt_le.mp hts
  have hwait : 0 ≤ wait fs id ts := Rounds.wait_nonneg hround
  have hmint : (ts + Int64.ofInt (wait fs id ts)).toInt = ts.toInt + wait fs id ts := by
    rw [toInt_add_exact (by rw [toInt_wait hid hlt hrange]; exact hrange.mintTime),
      toInt_wait hid hlt hrange]
  rw [slotOf_eq (by omega) (by omega), hmint]
  obtain ⟨-, hstart⟩ := (Rounds.isLeast_wait (t := ts.toInt) (window_pos fs) hid hlt).1
  exact congrArg Except.ok (hstart.slotAt_eq (window_pos fs))

/-- An account with a slot owns it. -/
theorem checkSlot_eq_ok {s : StateView} {account : Address} (h : checkSlot s account = .ok (.ok id)) :
    s.slotAddress id = some account.address := by
  unfold checkSlot at h
  cases hnoted : s.addressSlot account.address with
  | none =>
      rw [hnoted] at h
      cases Except.ok.inj h
  | some slot =>
      rw [hnoted] at h
      dsimp only at h
      obtain ⟨owner, howner, h⟩ := bind_eq_ok_iff.mp h
      split at h
      · rename_i haccount
        obtain rfl := Except.ok.inj (Except.ok.inj h)
        rw [← haccount]
        exact getOrRaise_eq_ok_iff.mp howner
      · cases Except.ok.inj h

end Offset

/-- While nothing overflows, the offset is less than a round, the mint time is the first instant a
window of the slot starts at, and the coordinator finds that slot.  A block that an account with the
slot makes, on a state that has been reached and that stays as it is, has the owner of the slot and
the mint balance the coordinator asks for. -/
theorem mints_in_slot {fs : FunctionalitySettings} {id : Int} {ts : Int64} (hts : 0 ≤ ts)
    (hid : 0 ≤ id) (hlt : id < fs.numOfSlots) (hrange : InRange fs id ts) :
    (∃ o, offset fs (.ok id) ts = .ok o ∧ 0 ≤ o.toInt ∧ o.toInt < fs.numOfSlots * window fs ∧
      IsLeast {t | ts.toInt ≤ t ∧ Rounds.StartsAt (window fs) fs.numOfSlots id t}
        (ts.toInt + o.toInt) ∧
      Coordinator.slotOf fs (ts + o) = .ok id) ∧
    ∀ settings u, BlockchainUpdaterImpl.Reached settings u → settings.functionalitySettings = fs →
      ∀ account attempt, checkSlot u.currentPersistedBlocksState.toStateView account.toAddress
          = .ok (.ok id) →
        generateBlockTask fs u.history u.currentPersistedBlocksState.toStateView account ts
          = .ok attempt →
        ∀ block : Block, block.signerData.generator = account →
          block.consensusData = attempt.consensusData →
          Coordinator.slotOf fs block.consensusData.mintTime = .ok id ∧
          u.currentPersistedBlocksState.slotAddress id
            = some block.signerData.generator.toAddress.address ∧
          SPoSCalc.mintingBalance u.currentPersistedBlocksState.toStateView fs
              block.signerData.generator.toAddress u.currentPersistedBlocksState.height
            = .ok block.consensusData.mintBalance := by
  have hround : 0 < fs.numOfSlots * window fs := Int.mul_pos (by omega) (window_pos fs)
  have hoffset := offset_eq hts hid hlt hrange
  have hslot := slotOf_mintTime hts hid hlt hrange
  constructor
  · refine ⟨_, hoffset, ?_, ?_, ?_, hslot⟩
    · rw [toInt_wait hid hlt hrange]
      exact Rounds.wait_nonneg hround
    · rw [toInt_wait hid hlt hrange]
      exact Rounds.wait_lt hround
    · rw [toInt_wait hid hlt hrange]
      exact Rounds.isLeast_wait (window_pos fs) hid hlt
  -- The miner asks at the height of its history, and the coordinator at the one of the state.
  · intro settings u hreached hsettings account attempt hcheck hattempt block hgenerator hdata
    obtain ⟨blocks, hknows⟩ := hreached.knows
    have hheight : u.history.height = u.currentPersistedBlocksState.height :=
      hknows.durable.stores.height.trans hknows.records.height.symm
    obtain ⟨slot, hcheck', h⟩ := bind_eq_ok_iff.mp hattempt
    obtain rfl := Except.ok.inj (hcheck.symm.trans hcheck')
    obtain ⟨o, ho, h⟩ := bind_eq_ok_iff.mp h
    obtain rfl := Except.ok.inj (hoffset.symm.trans ho)
    obtain ⟨balance, hbalance, h⟩ := bind_eq_ok_iff.mp h
    obtain rfl := Except.ok.inj h
    rw [hdata, hgenerator]
    refine ⟨hslot, checkSlot_eq_ok hcheck, ?_⟩
    rw [← hheight]
    exact hbalance

end Miner

end Platform

namespace Sample

open Miner

theorem paid_inRange : InRange fs 0 5 where
  round := by decide +kernel
  sum := by decide +kernel
  mintTime := by decide +kernel

/-- What the owner of the one slot is about to mint, five nanoseconds into the first round. -/
def attempt : Attempt :=
  okOr (generateBlockTask fs paid.history paid.currentPersistedBlocksState.toStateView key 5)
    ⟨0, 0, 0⟩

/-- The block of that attempt. -/
def attemptedBlock : Block :=
  { secondBlock with signerData := ⟨key, signature 4⟩, consensusData := attempt.consensusData }

theorem paid_checkSlot :
    checkSlot paid.currentPersistedBlocksState.toStateView key.toAddress = .ok (.ok 0) := by
  have hnoted : paid.currentPersistedBlocksState.addressSlot key.toAddress.address = some 0 := by
    decide +kernel
  have howner : paid.currentPersistedBlocksState.slotAddress 0 = some key.toAddress.address := by
    decide +kernel
  unfold checkSlot
  rw [hnoted]
  dsimp only
  rw [howner]
  exact congrArg Except.ok (if_pos rfl)

/-- The owner waits for the second round, and the coordinator finds its slot and its balance. -/
theorem attempt_in_slot :
    (∃ o, offset fs (.ok 0) 5 = .ok o ∧ o.toInt < 1000000000) ∧
    Coordinator.slotOf fs attemptedBlock.consensusData.mintTime = .ok 0 ∧
    SPoSCalc.mintingBalance paid.currentPersistedBlocksState.toStateView fs key.toAddress
      paid.currentPersistedBlocksState.height
      = .ok attemptedBlock.consensusData.mintBalance := by
  have hrange : InRange fs 0 5 := paid_inRange
  have hmints := mints_in_slot (by decide) (by decide) (by decide) hrange
  obtain ⟨⟨o, ho, -, hless, -⟩, hblock⟩ := hmints
  have hround : fs.numOfSlots * window fs = 1000000000 := by decide
  obtain ⟨hslot, -, hbalance⟩ := hblock (updaterSettings true) paid paid_reached rfl key attempt
    paid_checkSlot (eq_ok_okOr (by decide +kernel)) attemptedBlock rfl rfl
  exact ⟨⟨o, ho, hless.trans_eq hround⟩, hslot, hbalance⟩

end Sample

end Vsys
