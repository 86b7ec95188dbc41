import MotionDetector.Camera.Shutdown
import MotionDetector.Detection.Shutdown
import MotionDetector.Lib.Wakeups

/-!
# The four task loops and their exit functions

Every loop of a task sleeps in `osal_task_delay` once a pass. After its exit
function a task comes to its end with the wake-ups that its place in the loop
asks for, or with none at all if it overwrites the request.
-/

namespace MotionDetector

open Wakeups

/-! ### `detection_task` -/

namespace Detection.DetectionThread

variable {rd : ℕ → Reading} {t : DetectionThread}

def sleeper (rd : ℕ → Reading) : Sleeper DetectionThread :=
  ⟨taskStep rd, fun t => t.pc = .delay, fun t => t.pc = .ended⟩

instance (curStatus : UInt8) (motionDetected : Bool) :
    Decidable (Changes curStatus motionDetected) :=
  inferInstanceAs (Decidable (_ ∨ _))

instance (rd : ℕ → Reading) : (t : DetectionThread) → Decidable (WritePending rd t)
  | ⟨.readGpio, _, _, _, _, _⟩ => inferInstanceAs (Decidable (Changes _ _))
  | ⟨.risingTest, _, _, _, _, _⟩ => inferInstanceAs (Decidable (Changes _ _))
  | ⟨.fallingTest, _, _, _, _, _⟩ => inferInstanceAs (Decidable (_ ∧ _))
  | ⟨.substateSwitch, _, _, _, _, _⟩ => inferInstanceAs (Decidable (_ = _))
  | ⟨.cancelTest, _, _, _, _, _⟩ | ⟨.setMotionDetected, _, _, _, _, _⟩ => .isTrue trivial
  | ⟨.clearFlag, _, _, _, _, _⟩ | ⟨.timeoutTest, _, _, _, _, _⟩ => .isTrue trivial
  | ⟨.setEntry, _, _, _, _, _⟩ | ⟨.setTimeout, _, _, _, _, _⟩ => .isTrue trivial
  | ⟨.detectedFlag, _, _, _, _, _⟩ | ⟨.sendDetected, _, _, _, _, _⟩ => .isTrue trivial
  | ⟨.detectedDone, _, _, _, _, _⟩ | ⟨.lostFlag, _, _, _, _, _⟩ => .isTrue trivial
  | ⟨.sendLost, _, _, _, _, _⟩ | ⟨.lostDone, _, _, _, _, _⟩ => .isTrue trivial
  | ⟨.exitFlag, _, _, _, _, _⟩ | ⟨.exitLost, _, _, _, _, _⟩ => .isTrue trivial
  | ⟨.loopTest, _, _, _, _, _⟩ | ⟨.stateSwitch, _, _, _, _, _⟩ => .isFalse id
  | ⟨.entryRun, _, _, _, _, _⟩ | ⟨.entryClock, _, _, _, _, _⟩ => .isFalse id
  | ⟨.runClock, _, _, _, _, _⟩ | ⟨.runTest, _, _, _, _, _⟩ => .isFalse id
  | ⟨.runExit, _, _, _, _, _⟩ | ⟨.delay, _, _, _, _, _⟩ => .isFalse id
  | ⟨.ended, _, _, _, _, _⟩ => .isFalse id

/-- Sleeps between the exit function and the end. -/
def wakeUps : DetectionPc → ℕ
  | .loopTest | .ended => 0
  | _ => 1

/-- Statements between the exit function and the end, at most. -/
def remaining : DetectionPc → ℕ
  | .readGpio => 6
  | .risingTest => 5
  | .fallingTest => 4
  | .substateSwitch => 6
  | .entryRun => 4
  | .runClock => 5
  | .runTest => 4
  | .delay => 2
  | .loopTest => 1
  | .ended => 0
  | _ => 3

/-- The loop goes on: the exit state is not set. -/
structure Working (t : DetectionThread) : Prop where
  state : t.fsm.detectionState ≠ .exit
  pc : t.pc ≠ .ended

theorem start_working : Working start := ⟨by decide, by decide⟩

/- The task itself does not set the exit state. -/
theorem step_state (hs : t.fsm.detectionState ≠ .exit) :
    (taskStep rd t).fsm.detectionState ≠ .exit := by
  obtain ⟨pc, ⟨flag, state, substate, timeoutStart⟩, curStatus, current, pass, sends⟩ := t
  cases pc with
  | setMotionDetected => exact nofun
  | setTimeout => exact nofun
  | detectedDone => exact nofun
  | lostDone => exact nofun
  | exitLost => exact nofun
  | stateSwitch =>
    cases state with
    | exit => exact absurd rfl hs
    | _ => exact hs
  | substateSwitch => cases substate <;> exact hs
  | _ => exact hs

/- The loop is only left by its test. -/
theorem step_ended (hpc : t.pc ≠ .ended) (h : (taskStep rd t).pc = .ended) :
    t.pc = .loopTest ∧ t.fsm.detectionState = .exit := by
  obtain ⟨pc, ⟨flag, state, substate, timeoutStart⟩, curStatus, current, pass, sends⟩ := t
  cases pc with
  | loopTest =>
    by_cases hs : state = .exit
    · exact ⟨rfl, hs⟩
    · simp [taskStep, goto, hs] at h
  | risingTest =>
    simp only [taskStep, goto] at h
    split at h <;> cases h
  | fallingTest =>
    simp only [taskStep, goto] at h
    split at h <;> cases h
  | timeoutTest =>
    simp only [taskStep, goto] at h
    split at h <;> cases h
  | runTest =>
    simp only [taskStep, goto] at h
    split at h <;> cases h
  | stateSwitch => cases state <;> cases h
  | substateSwitch => cases substate <;> cases h
  | ended => exact absurd rfl hpc
  | _ => cases h

variable (rd) in
theorem step_working (h : Working t) : Working (taskStep rd t) :=
  ⟨step_state h.state, fun hended => h.state (step_ended h.pc hended).2⟩

/- With the exit state set and no write pending, every statement comes closer to
the end. -/
theorem step_closer (hs : t.fsm.detectionState = .exit) (hq : ¬ WritePending rd t)
    (hpc : t.pc ≠ .ended) :
    remaining (taskStep rd t).pc < remaining t.pc ∧
      (t.pc ≠ .delay → wakeUps (taskStep rd t).pc = wakeUps t.pc) := by
  obtain ⟨pc, ⟨flag, state, substate, timeoutStart⟩, curStatus, current, pass, sends⟩ := t
  obtain rfl : state = .exit := hs
  cases pc with
  | risingTest =>
    have hrising : ¬ (curStatus ≠ 0 ∧ flag = false) := fun h => hq (.inl h)
    simp only [taskStep, goto, if_neg hrising]
    exact ⟨by decide, fun _ => rfl⟩
  | fallingTest =>
    have hfalling : ¬ (curStatus = 0 ∧ flag = true) := hq
    simp only [taskStep, goto, if_neg hfalling]
    exact ⟨by decide, fun _ => rfl⟩
  | substateSwitch =>
    cases substate with
    | entry => exact ⟨show 4 < 6 by decide, fun _ => rfl⟩
    | run => exact ⟨show 5 < 6 by decide, fun _ => rfl⟩
    | exit => exact absurd rfl hq
  | runTest =>
    by_cases helapsed : 5 ≤ elapsed current timeoutStart
    · simp only [taskStep, goto, if_pos helapsed]
      exact ⟨by decide, fun _ => rfl⟩
    · simp only [taskStep, goto, if_neg helapsed]
      exact ⟨by decide, fun _ => rfl⟩
  | loopTest => exact ⟨Nat.lt_add_one _, fun _ => rfl⟩
  | readGpio => exact ⟨Nat.lt_add_one _, fun _ => rfl⟩
  | stateSwitch => exact ⟨Nat.lt_add_one _, fun _ => rfl⟩
  | entryRun => exact ⟨Nat.lt_add_one _, fun _ => rfl⟩
  | entryClock => exact ⟨Nat.lt_add_one _, fun _ => rfl⟩
  | runClock => exact ⟨Nat.lt_add_one _, fun _ => rfl⟩
  | runExit => exact ⟨Nat.lt_add_one _, fun _ => rfl⟩
  | delay => exact ⟨Nat.lt_add_one _, fun h => absurd rfl h⟩
  | ended => exact absurd rfl hpc
  | _ => exact absurd trivial hq

/- A pending write puts the task back to work, which no number of wake-ups ends. -/
theorem not_ends_overwritten {n : ℕ} (hs : t.fsm.detectionState = .exit)
    (hp : WritePending rd t) : ¬ Ends (sleeper rd) t n := by
  apply not_ends (P := fun t => t.fsm.detectionState = .exit ∧ WritePending rd t ∨ Working t)
  · rintro u (⟨hs, hp⟩ | hw)
    · have hpc : u.pc ≠ .ended := by
        intro hended
        rw [WritePending, hended] at hp
        exact hp
      refine ⟨hpc, ?_⟩
      rcases step_pending hs hp with hover | ⟨hs', hp', -⟩
      · refine .inr ⟨hover, fun hended => ?_⟩
        rw [WritePending, (step_ended hpc hended).1] at hp
        exact hp
      · exact .inl ⟨hs', hp'⟩
    · exact ⟨hw.pc, .inr (step_working rd hw)⟩
  · exact .inl ⟨hs, hp⟩

theorem exit_ends_iff (rd : ℕ → Reading) (t : DetectionThread) (n : ℕ) :
    Ends (sleeper rd) t.detectionExit n ↔ ¬ WritePending rd t ∧ wakeUps t.pc ≤ n := by
  have hs : t.detectionExit.fsm.detectionState = .exit := rfl
  have hsame : WritePending rd t.detectionExit ↔ WritePending rd t := Iff.rfl
  by_cases hp : WritePending rd t
  · exact ⟨fun h => absurd h (not_ends_overwritten hs (hsame.mpr hp)), fun h => absurd hp h.1⟩
  · have hneed := ends_iff_need (m := sleeper rd) (s := t.detectionExit) (n := n)
      (P := fun t => t.fsm.detectionState = .exit ∧ ¬ WritePending rd t)
      (fun t => remaining t.pc) (fun t => wakeUps t.pc) ?_ ?_ ?_ ?_ ⟨hs, hsame.not.mpr hp⟩
    · rw [hneed]
      exact ⟨fun h => ⟨hp, h⟩, fun h => h.2⟩
    · intro u _ hended
      rw [show u.pc = .ended from hended]
      rfl
    · exact fun u hu hended hdelay => (step_closer hu.1 hu.2 hended).2 hdelay
    · intro u _ _ hdelay
      have hpc : u.pc = .delay := hdelay
      simp [sleeper, taskStep, hpc, wakeUps]
    · exact fun u hu hended => ⟨step_quiet hu.1 hu.2, (step_closer hu.1 hu.2 hended).1⟩

end Detection.DetectionThread

/-! ### `camera_task` -/

namespace Camera.CameraThread

instance : (t : CameraThread) → Decidable (WritePending t)
  | ⟨.setCapturing, _, _, _⟩ | ⟨.setIdle, _, _, _⟩ => .isTrue trivial
  | ⟨.captureOn, _, _, _⟩ | ⟨.loopTest, _, _, _⟩ | ⟨.receive, _, _, _⟩ => .isFalse id
  | ⟨.eventSwitch, _, _, _⟩ | ⟨.idleTest, _, _, _⟩ | ⟨.exitTest, _, _, _⟩ => .isFalse id
  | ⟨.stateSwitch, _, _, _⟩ | ⟨.writeIdle, _, _, _⟩ | ⟨.writeCapturing, _, _, _⟩ => .isFalse id
  | ⟨.count, _, _, _⟩ | ⟨.captureOff, _, _, _⟩ | ⟨.setExit, _, _, _⟩ => .isFalse id
  | ⟨.delay, _, _, _⟩ | ⟨.ended, _, _, _⟩ => .isFalse id

variable {input : ℕ → PassInput} {t : CameraThread}

def sleeper (input : ℕ → PassInput) : Sleeper CameraThread :=
  ⟨taskStep input, fun t => t.pc = .delay, fun t => t.pc = .ended⟩

def wakeUps : CameraPc → ℕ
  | .captureOn | .loopTest | .ended => 0
  | _ => 1

def remaining : CameraPc → ℕ
  | .receive => 7
  | .eventSwitch => 6
  | .idleTest => 5
  | .exitTest => 5
  | .stateSwitch => 4
  | .writeCapturing => 4
  | .captureOff => 4
  | .delay => 2
  | .captureOn => 2
  | .loopTest => 1
  | .ended => 0
  | _ => 3

structure Working (t : CameraThread) : Prop where
  serving : Serving t.task.state
  pc : t.pc ≠ .ended ∧ switchesOff t.pc = false

theorem working_at {pc : CameraPc} {task : CameraTask} {event : Event} {pass : ℕ}
    (hs : Serving task.state) (hpc : pc ≠ .ended ∧ switchesOff pc = false) :
    Working ⟨pc, task, event, pass⟩ :=
  ⟨hs, hpc⟩

theorem start_working : Working start := ⟨.inl rfl, by decide⟩

variable (input) in
theorem step_working (h : Working t) : Working (taskStep input t) := by
  obtain ⟨hs, hpc, hoff⟩ := h
  obtain ⟨pc, ⟨state, numWrites, capturestates⟩, event, pass⟩ := t
  cases pc with
  | loopTest =>
    have hexit : state ≠ .exit := hs.ne_exit
    simp only [taskStep, goto, if_pos hexit]
    exact working_at hs (by decide)
  | eventSwitch =>
    cases event with
    | none => exact working_at hs (by decide)
    | motionDetected => exact working_at hs (by decide)
    | motionLost => exact working_at hs (by decide)
  | idleTest =>
    simp only [taskStep, goto]
    split
    · exact working_at hs (by decide)
    · exact working_at hs (by decide)
  | exitTest =>
    simp only [taskStep, goto]
    split
    · exact working_at hs (by decide)
    · exact working_at hs (by decide)
  | writeCapturing =>
    simp only [taskStep, goto]
    split
    · exact working_at hs (by decide)
    · exact working_at hs (by decide)
  | stateSwitch =>
    cases state with
    | idle => exact working_at hs (by decide)
    | capturing => exact working_at hs (by decide)
    | exiting => exact absurd rfl hs.ne_exiting
    | exit => exact absurd rfl hs.ne_exit
  | setCapturing => exact working_at (.inr rfl) (by decide)
  | setIdle => exact working_at (.inl rfl) (by decide)
  | captureOn => exact working_at hs (by decide)
  | receive => exact working_at hs (by decide)
  | writeIdle => exact working_at hs (by decide)
  | count => exact working_at hs (by decide)
  | delay => exact working_at hs (by decide)
  | captureOff => exact absurd hoff.symm Bool.false_ne_true
  | setExit => exact absurd hoff.symm Bool.false_ne_true
  | ended => exact absurd rfl hpc

theorem step_quiet (hs : t.task.state = .exit) (hq : ¬ WritePending t) :
    (taskStep input t).task.state = .exit ∧ ¬ WritePending (taskStep input t) := by
  obtain ⟨pc, ⟨state, numWrites, capturestates⟩, event, pass⟩ := t
  obtain rfl : state = .exit := hs
  cases pc with
  | captureOff => exact ⟨rfl, id⟩
  | setExit => exact ⟨rfl, id⟩
  | setCapturing => exact absurd trivial hq
  | setIdle => exact absurd trivial hq
  | _ =>
    obtain ⟨hs', hq', -⟩ := step_leaves input (t := ⟨_, ⟨.exit, numWrites, capturestates⟩, event,
      pass⟩) rfl hq rfl
    exact ⟨hs', hq'⟩

theorem step_closer (hs : t.task.state = .exit) (hq : ¬ WritePending t) (hpc : t.pc ≠ .ended) :
    remaining (taskStep input t).pc < remaining t.pc ∧
      (t.pc ≠ .delay → wakeUps (taskStep input t).pc = wakeUps t.pc) := by
  obtain ⟨pc, ⟨state, numWrites, capturestates⟩, event, pass⟩ := t
  obtain rfl : state = .exit := hs
  cases pc with
  | eventSwitch =>
    cases event with
    | none => exact ⟨show 4 < 6 by decide, fun _ => rfl⟩
    | motionDetected => exact ⟨Nat.lt_add_one _, fun _ => rfl⟩
    | motionLost => exact ⟨Nat.lt_add_one _, fun _ => rfl⟩
  | writeCapturing =>
    simp only [taskStep, goto]
    split
    · exact ⟨by decide, fun _ => rfl⟩
    · exact ⟨by decide, fun _ => rfl⟩
  | stateSwitch => exact ⟨show 2 < 4 by decide, fun _ => rfl⟩
  | captureOn => exact ⟨Nat.lt_add_one _, fun _ => rfl⟩
  | loopTest => exact ⟨Nat.lt_add_one _, fun _ => rfl⟩
  | receive => exact ⟨Nat.lt_add_one _, fun _ => rfl⟩
  | idleTest => exact ⟨Nat.lt_add_one _, fun _ => rfl⟩
  | exitTest => exact ⟨Nat.lt_add_one _, fun _ => rfl⟩
  | writeIdle => exact ⟨Nat.lt_add_one _, fun _ => rfl⟩
  | count => exact ⟨Nat.lt_add_one _, fun _ => rfl⟩
  | captureOff => exact ⟨Nat.lt_add_one _, fun _ => rfl⟩
  | setExit => exact ⟨Nat.lt_add_one _, fun _ => rfl⟩
  | delay => exact ⟨Nat.lt_add_one _, fun h => absurd rfl h⟩
  | setCapturing => exact absurd trivial hq
  | setIdle => exact absurd trivial hq
  | ended => exact absurd rfl hpc

theorem pending_working (hp : WritePending t) : Working (taskStep input t) := by
  have hserving : Serving (taskStep input t).task.state := step_undone hp
  obtain ⟨pc, task, event, pass⟩ := t
  cases pc with
  | setCapturing => exact ⟨hserving, nofun, rfl⟩
  | setIdle => exact ⟨hserving, nofun, rfl⟩
  | _ => exact hp.elim

theorem exit_ends_iff (input : ℕ → PassInput) (t : CameraThread) (n : ℕ) :
    Ends (sleeper input) t.cameraExit n ↔ ¬ WritePending t ∧ wakeUps t.pc ≤ n := by
  have hs : t.cameraExit.task.state = .exit := rfl
  by_cases hp : WritePending t
  · have hnever : ¬ Ends (sleeper input) t.cameraExit n := by
      apply not_ends (P := fun t => WritePending t ∨ Working t)
      · rintro u (hp | hw)
        · have hpc : u.pc ≠ .ended := by
            intro hended
            rw [WritePending, hended] at hp
            exact hp
          exact ⟨hpc, .inr (pending_working hp)⟩
        · exact ⟨hw.pc.1, .inr (step_working input hw)⟩
      · exact .inl hp
    exact ⟨fun h => absurd h hnever, fun h => absurd hp h.1⟩
  · have hneed := ends_iff_need (m := sleeper input) (s := t.cameraExit) (n := n)
      (P := fun t => t.task.state = .exit ∧ ¬ WritePending t)
      (fun t => remaining t.pc) (fun t => wakeUps t.pc) ?_ ?_ ?_ ?_ ⟨hs, hp⟩
    · rw [hneed]
      exact ⟨fun h => ⟨hp, h⟩, fun h => h.2⟩
    · intro u _ hended
      rw [show u.pc = .ended from hended]
      rfl
    · exact fun u hu hended hdelay => (step_closer hu.1 hu.2 hended).2 hdelay
    · intro u _ _ hdelay
      have hpc : u.pc = .delay := hdelay
      simp [sleeper, taskStep, hpc, wakeUps]
    · exact fun u hu hended => ⟨step_quiet hu.1 hu.2, (step_closer hu.1 hu.2 hended).1⟩

end Camera.CameraThread

end MotionDetector
