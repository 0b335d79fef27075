import LoRaGwSv.Machinery.Timeval
import LoRaGwSv.Server.RtloraMac

/-!
# Server/PhaseLoops — how long the phases of the MAC sleep (`rtlora_mac.c`)

Each phase works through periods of a fixed length.  At the end of a period's work the loop reads
the clock again and sleeps for what is left, in unsigned arithmetic that does not look whether
anything is left: the sleep is `period - elapsed` modulo 2³² (`toNat_sleepArg`).  So a late loop
oversleeps, by up to 71 minutes (`sleepsRight_iff`).
-/

namespace LoRaGwSv

open Timeval

/-- `TIMEVAL_TO_MICROSECONDS`: the seconds are multiplied in 64 bits without sign. -/
def timevalToMicroseconds (tv : Timeval) : UInt64 :=
  UInt64.ofInt tv.tv_sec * 1000000 + UInt64.ofInt tv.tv_usec

/-- `getTimeOffetTimeval`: the microseconds from `start` to `stop`. -/
def getTimeOffetTimeval (start stop : Timeval) : UInt64 :=
  timevalToMicroseconds (timersub stop start)

/-- The length of a frame, in microseconds. -/
def calculateFrameLength (p : MacParams) : UInt64 :=
  let nboUlSlot := UInt64.ofNat (ipow 2 p.macFrameFactor)
  nboUlSlot * UInt64.ofNat p.macUlSlotSizeMs * 1000 + UInt64.ofNat (p.macDlSlotSizeMs * 1000 * 2)

/-- The argument of `usleep` at the end of a period: `delayUsec`, in 32 bits. -/
def sleepArg (period : UInt64) (start stop : Timeval) : UInt32 :=
  (period - getTimeOffetTimeval start stop).toUInt32

/-- The loops that sleep to the end of a period. -/
inductive PhaseLoop
  | initNetworkPhase
  | scheduleDistributionPhase
  | dataCollectionPhase
deriving DecidableEq

/-- `TWOHOP_RNL_INTERVAL_US`. -/
def twohopRnlIntervalUs : UInt64 := 5000000

/-- `TWOHOP_SCH1_SLOT_SIZE_US`. -/
def twohopSch1SlotSizeUs : UInt64 := 200000

/-- The period of each. -/
def PhaseLoop.period (p : MacParams) : PhaseLoop → UInt64
  | .initNetworkPhase => twohopRnlIntervalUs
  | .scheduleDistributionPhase => twohopSch1SlotSizeUs
  | .dataCollectionPhase => calculateFrameLength p

/-- **The loop sleeps for what is left of the period**, and no longer than a period in any case. -/
def SleepsRight (period : UInt64) (start stop : Timeval) (arg : UInt32) : Prop :=
  let elapsed := stop.micros - start.micros
  if 0 ≤ elapsed ∧ elapsed ≤ period.toNat then (arg.toNat : ℤ) = period.toNat - elapsed
  else arg.toNat ≤ period.toNat

instance (period : UInt64) (start stop : Timeval) (arg : UInt32) :
    Decidable (SleepsRight period start stop arg) := by
  rw [SleepsRight]
  infer_instance

variable {p : MacParams} {period : UInt64} {start stop : Timeval}

/-- A time in microseconds, as 64 bits hold it. -/
theorem timevalToMicroseconds_eq (tv : Timeval) :
    timevalToMicroseconds tv = UInt64.ofInt tv.micros := by
  rw [timevalToMicroseconds, micros, UInt64.ofInt_add, UInt64.ofInt_mul]
  rfl

/-- **The sleep is what is left of the period, modulo 2³².** -/
theorem toNat_sleepArg (period : UInt64) (start stop : Timeval) :
    ((sleepArg period start stop).toNat : ℤ)
      = (period.toNat - (stop.micros - start.micros)) % 2 ^ 32 := by
  rw [sleepArg, getTimeOffetTimeval, timevalToMicroseconds_eq, micros_timersub,
    UInt64.toNat_toUInt32, UInt64.toNat_sub, UInt64.ofInt, UInt64.toNat_ofNat']
  omega

/-- A period that 32 bits hold is slept right exactly if the work, as 32 bits hold it, fits. -/
theorem sleepsRight_sleepArg_iff (hperiod : period.toNat < 2 ^ 32) :
    SleepsRight period start stop (sleepArg period start stop) ↔
      (stop.micros - start.micros) % 2 ^ 32 ≤ period.toNat := by
  have harg := toNat_sleepArg period start stop
  rw [SleepsRight]
  split <;> omega

theorem ipow_macFrameFactor (p : MacParams) : ipow 2 p.macFrameFactor = 2 ^ p.macFrameFactor := by
  have hpow : ∀ ff, 1 ≤ ff → ff ≤ 7 → ipow 2 ff = 2 ^ ff := by decide
  exact hpow _ p.frameFactor_bounds.1 p.frameFactor_bounds.2

/-- A frame is its uplink slots and two downlink slots. -/
theorem toNat_calculateFrameLength (p : MacParams) : (calculateFrameLength p).toNat
    = 2 ^ p.macFrameFactor * p.macUlSlotSizeMs * 1000 + p.macDlSlotSizeMs * 1000 * 2 ∧
      (calculateFrameLength p).toNat < 2 ^ 32 := by
  have hul := p.ulSlotSize_bounds.2.1
  have hdl := p.dlSlotSize_bounds.2.1
  have hslots : 2 ^ p.macFrameFactor * p.macUlSlotSizeMs ≤ 128 * 310 :=
    Nat.mul_le_mul p.frame_le hul
  have hlt : 2 ^ p.macFrameFactor * p.macUlSlotSizeMs * 1000 + p.macDlSlotSizeMs * 1000 * 2
      < 2 ^ 32 := by omega
  have hlength : calculateFrameLength p = UInt64.ofNat
      (2 ^ p.macFrameFactor * p.macUlSlotSizeMs * 1000 + p.macDlSlotSizeMs * 1000 * 2) := by
    rw [calculateFrameLength, ipow_macFrameFactor, UInt64.ofNat_add, UInt64.ofNat_mul _ 1000,
      UInt64.ofNat_mul _ p.macUlSlotSizeMs]
    rfl
  rw [hlength, UInt64.toNat_ofNat', Nat.mod_eq_of_lt (hlt.trans (by decide))]
  exact ⟨rfl, hlt⟩

/-- Each period fits the argument of `usleep`. -/
theorem PhaseLoop.period_lt (p : MacParams) (phase : PhaseLoop) :
    (phase.period p).toNat < 2 ^ 32 := by
  cases phase with
  | initNetworkPhase => exact of_decide_eq_true rfl
  | scheduleDistributionPhase => exact of_decide_eq_true rfl
  | dataCollectionPhase => exact (toNat_calculateFrameLength p).2

/-- **A loop sleeps right exactly if the time since the period began, modulo 2³², is at most the
period.** -/
theorem sleepsRight_iff (p : MacParams) (phase : PhaseLoop) (start stop : Timeval) :
    SleepsRight (phase.period p) start stop (sleepArg (phase.period p) start stop) ↔
      (stop.micros - start.micros) % 2 ^ 32 ≤ (phase.period p).toNat :=
  sleepsRight_sleepArg_iff (phase.period_lt p)

/-- **A period of SCH1 whose work overruns it by 1 µs** makes the loop sleep for 71 minutes. -/
theorem not_sleepsRight_overrun :
    ¬ SleepsRight (PhaseLoop.scheduleDistributionPhase.period macDefaults) ⟨1700000000, 900000⟩
      ⟨1700000001, 100001⟩ (sleepArg (PhaseLoop.scheduleDistributionPhase.period macDefaults)
        ⟨1700000000, 900000⟩ ⟨1700000001, 100001⟩) := by
  decide

end LoRaGwSv
