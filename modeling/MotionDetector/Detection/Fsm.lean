import MotionDetector.Types
import Mathlib.Data.Rat.Cast.Order
import Mathlib.Order.Bounds.Basic
import Mathlib.Tactic.Linarith
import Mathlib.Tactic.NormNum
import Mathlib.Tactic.Ring

/-!
# The motion detection FSM (`src/detection/detection.c`)

One pass of the loop of `detection_task`: `process_next_state` on the sensor
sample, then the switch over the state. The events of a pass are the messages
it hands to `osal_queue_send`.
-/

namespace MotionDetector.Detection

inductive DetectionState where
  | detecting
  | motionDetected
  | motionLost
  | timeout
  | exiting
  | exit
  deriving DecidableEq, Repr

inductive DetectionSubstate where
  | entry
  | run
  | exit
  deriving DecidableEq, Repr

structure Timespec where
  tvSec : ℤ
  tvNsec : ℤ
  deriving DecidableEq, Repr

def Timespec.nanos (t : Timespec) : ℤ := t.tvSec * 1000000000 + t.tvNsec

structure DetectionFsm where
  motionDetected : Bool
  detectionState : DetectionState
  detectionSubstate : DetectionSubstate
  timeoutStart : Timespec
  deriving DecidableEq, Repr

def DetectionFsm.init : DetectionFsm := ⟨false, .detecting, .entry, ⟨0, 0⟩⟩

/-- What one pass observes: `cur_status` and the monotonic clock. -/
structure Reading where
  curStatus : UInt8
  clock : Timespec
  deriving DecidableEq, Repr

/-- `elapsed`, in seconds, without the rounding of `double` (see
`elapsed_rounded`). -/
def elapsed (current start : Timespec) : ℚ :=
  ((current.tvSec - start.tvSec : ℤ) : ℚ) + ((current.tvNsec - start.tvNsec : ℤ) : ℚ) / 1000000000

def setDetectionState (state : DetectionState) (s : DetectionFsm) : DetectionFsm :=
  { s with detectionState := state }

def processNextState (curStatus : UInt8) (s : DetectionFsm) : DetectionFsm :=
  if curStatus ≠ 0 ∧ s.motionDetected = false then
    setDetectionState .motionDetected s
  else if curStatus = 0 ∧ s.motionDetected = true then
    let s := { s with motionDetected := false }
    if s.detectionState ≠ .timeout then
      setDetectionState .timeout { s with detectionSubstate := .entry }
    else s
  else s

def timeoutSwitch (now : Timespec) (s : DetectionFsm) : DetectionFsm :=
  match s.detectionSubstate with
  | .entry => { s with detectionSubstate := .run, timeoutStart := now }
  | .run =>
    if 5 ≤ elapsed now s.timeoutStart then { s with detectionSubstate := .exit } else s
  | .exit => setDetectionState .motionLost { s with motionDetected := false }

def detectionSwitch (now : Timespec) (s : DetectionFsm) : DetectionFsm × List Event :=
  match s.detectionState with
  | .detecting => (s, [])
  | .motionDetected =>
    (setDetectionState .detecting { s with motionDetected := true }, [.motionDetected])
  | .motionLost =>
    (setDetectionState .detecting { s with motionDetected := false }, [.motionLost])
  | .timeout => (timeoutSwitch now s, [])
  | .exiting => (s, [])
  | .exit => (s, [])

/-- One test of the loop condition and, unless it ends the loop, one pass. -/
def detectionIteration (r : Reading) (s : DetectionFsm) : DetectionFsm × List Event :=
  if s.detectionState = .exit then (s, [])
  else detectionSwitch r.clock (processNextState r.curStatus s)

def stateAt (rd : ℕ → Reading) : ℕ → DetectionFsm
  | 0 => .init
  | n + 1 => (detectionIteration (rd n) (stateAt rd n)).1

def sentAt (rd : ℕ → Reading) (n : ℕ) : List Event :=
  (detectionIteration (rd n) (stateAt rd n)).2

@[simp] theorem setDetectionState_state (state : DetectionState) (s : DetectionFsm) :
    (setDetectionState state s).detectionState = state := rfl

@[simp] theorem setDetectionState_motionDetected (state : DetectionState) (s : DetectionFsm) :
    (setDetectionState state s).motionDetected = s.motionDetected := rfl

@[simp] theorem setDetectionState_substate (state : DetectionState) (s : DetectionFsm) :
    (setDetectionState state s).detectionSubstate = s.detectionSubstate := rfl

@[simp] theorem setDetectionState_timeoutStart (state : DetectionState) (s : DetectionFsm) :
    (setDetectionState state s).timeoutStart = s.timeoutStart := rfl

/-! ### The timeout comparison -/

theorem elapsed_eq (current start : Timespec) :
    elapsed current start = ((current.nanos - start.nanos : ℤ) : ℚ) / 1000000000 := by
  simp only [elapsed, Timespec.nanos]
  push_cast
  ring

theorem five_le_elapsed (current start : Timespec) :
    5 ≤ elapsed current start ↔ 5000000000 ≤ current.nanos - start.nanos := by
  rw [elapsed_eq, le_div_iff₀ (by norm_num)]
  norm_num
  exact_mod_cast Iff.rfl

/-- The comparison of the source in `double`: any rounding that keeps small
integers and errs by less than one part in `2 ^ 52` decides the same, since
readings are whole nanoseconds. -/
theorem elapsed_rounded (rnd : ℚ → ℚ) (hint : ∀ z : ℤ, |z| ≤ 5 → rnd z = z)
    (herr : ∀ x, |rnd x - x| ≤ |x| / 2 ^ 52) (current start : Timespec)
    (hc : 0 ≤ current.tvNsec ∧ current.tvNsec < 1000000000)
    (hs : 0 ≤ start.tvNsec ∧ start.tvNsec < 1000000000) :
    5 ≤ rnd (((current.tvSec - start.tvSec : ℤ) : ℚ) +
        rnd (((current.tvNsec - start.tvNsec : ℤ) : ℚ) / 1000000000)) ↔
      5 ≤ elapsed current start := by
  generalize hd : current.tvSec - start.tvSec = d
  generalize hn : current.tvNsec - start.tvNsec = n
  have hn1 : -1000000000 < n := by omega
  have hn2 : n < 1000000000 := by omega
  have he : elapsed current start = (d : ℚ) + (n : ℚ) / 1000000000 := by
    rw [elapsed, hd, hn]
  rw [he]
  -- the quotient is off by less than `2 ^ -52`, as it lies between -1 and 1
  have hq1 : |(n : ℚ) / 1000000000| ≤ 1 := by
    rw [abs_le]
    have h1 : (-1000000000 : ℚ) < n := by exact_mod_cast hn1
    have h2 : (n : ℚ) < 1000000000 := by exact_mod_cast hn2
    constructor <;> linarith
  have hq := abs_le.mp ((herr ((n : ℚ) / 1000000000)).trans
    (div_le_div_of_nonneg_right hq1 (by positivity)))
  set q := rnd ((n : ℚ) / 1000000000) with hqdef
  have hx := abs_le.mp (herr (d + q))
  rcases lt_trichotomy (d * 1000000000 + n) 5000000000 with hlt | heq | hgt
  · have h1 : (d : ℚ) * 1000000000 + n ≤ 4999999999 := by exact_mod_cast Int.le_sub_one_of_lt hlt
    have hsum : (d : ℚ) + q ≤ 5 - 1 / 2000000000 := by
      norm_num at hq ⊢
      linarith
    refine iff_of_false ?_ (by linarith)
    rcases abs_cases ((d : ℚ) + q) with ⟨ha, h0⟩ | ⟨ha, h0⟩ <;> rw [ha] at hx
    · norm_num at hx ⊢
      linarith
    · norm_num at hx ⊢
      linarith
  · obtain ⟨rfl, rfl⟩ : d = 5 ∧ n = 0 := by omega
    have h0 : rnd 0 = 0 := by simpa using hint 0 (by norm_num)
    have h5 : rnd 5 = 5 := by simpa using hint 5 (by norm_num)
    simp [hqdef, h0, h5]
  · have h1 : (5000000001 : ℚ) ≤ (d : ℚ) * 1000000000 + n := by exact_mod_cast hgt
    have hsum : 5 + 1 / 2000000000 ≤ (d : ℚ) + q := by
      norm_num at hq ⊢
      linarith
    refine iff_of_true ?_ (by linarith)
    rw [abs_of_nonneg (by linarith)] at hx
    norm_num at hx ⊢
    linarith

end MotionDetector.Detection
