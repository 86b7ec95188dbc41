import MotionDetector.Lib.Transition
import MotionDetector.Detection.Fsm

/-!
# A shutdown request during a pass of the detector

`detection_exit` runs on the scheduler thread, between any two statements of
`detection_task`, and writes the variable that the FSM writes. Here a step of
the task is one statement.
-/

namespace MotionDetector.Detection

open Transition

/-- The statement that comes next: `process_next_state` from `risingTest` to
`setTimeout`, the cases of the switch from `detectedFlag` to `exitLost`. -/
inductive DetectionPc where
  | loopTest
  | readGpio
  | risingTest
  | cancelTest
  | setMotionDetected
  | fallingTest
  | clearFlag
  | timeoutTest
  | setEntry
  | setTimeout
  | stateSwitch
  | detectedFlag
  | sendDetected
  | detectedDone
  | lostFlag
  | sendLost
  | lostDone
  | substateSwitch
  | entryRun
  | entryClock
  | runClock
  | runTest
  | runExit
  | exitFlag
  | exitLost
  | delay
  | ended
  deriving DecidableEq, Repr

/-- `curStatus` and `current` are locals of the task; `pass` counts the passes
of the loop and `sends` lists the events handed to `osal_queue_send`. -/
structure DetectionThread where
  pc : DetectionPc
  fsm : DetectionFsm
  curStatus : UInt8
  current : Timespec
  pass : ℕ
  sends : List Event
  deriving DecidableEq

namespace DetectionThread

def start : DetectionThread := ⟨.loopTest, .init, 0, ⟨0, 0⟩, 0, []⟩

def goto (pc : DetectionPc) (t : DetectionThread) : DetectionThread := { t with pc := pc }

/-- Assign to the statics of `detection.c` and go on. -/
def assign (fsm : DetectionFsm) (pc : DetectionPc) (t : DetectionThread) : DetectionThread :=
  { t with fsm := fsm, pc := pc }

def send (event : Event) (pc : DetectionPc) (t : DetectionThread) : DetectionThread :=
  { t with sends := t.sends ++ [event], pc := pc }

/-- One statement of `detection_task`. `rd` gives the sample and the clock of
each pass; the sample may be anything, as `read_gpio_value` fails once the pin
is unexported. -/
def taskStep (rd : ℕ → Reading) (t : DetectionThread) : DetectionThread :=
  match t.pc with
  | .loopTest => t.goto (if t.fsm.detectionState ≠ .exit then .readGpio else .ended)
  | .readGpio => { t with curStatus := (rd t.pass).curStatus, pc := .risingTest }
  | .risingTest =>
    t.goto (if t.curStatus ≠ 0 ∧ t.fsm.motionDetected = false then .cancelTest else .fallingTest)
  | .cancelTest => t.goto .setMotionDetected
  | .setMotionDetected => t.assign (setDetectionState .motionDetected t.fsm) .stateSwitch
  | .fallingTest =>
    t.goto (if t.curStatus = 0 ∧ t.fsm.motionDetected = true then .clearFlag else .stateSwitch)
  | .clearFlag => t.assign { t.fsm with motionDetected := false } .timeoutTest
  | .timeoutTest => t.goto (if t.fsm.detectionState ≠ .timeout then .setEntry else .stateSwitch)
  | .setEntry => t.assign { t.fsm with detectionSubstate := .entry } .setTimeout
  | .setTimeout => t.assign (setDetectionState .timeout t.fsm) .stateSwitch
  | .stateSwitch =>
    match t.fsm.detectionState with
    | .detecting => t.goto .delay
    | .motionDetected => t.goto .detectedFlag
    | .motionLost => t.goto .lostFlag
    | .timeout => t.goto .substateSwitch
    | .exiting => t.goto .delay
    | .exit => t.goto .delay
  | .detectedFlag => t.assign { t.fsm with motionDetected := true } .sendDetected
  | .sendDetected => t.send .motionDetected .detectedDone
  | .detectedDone => t.assign (setDetectionState .detecting t.fsm) .delay
  | .lostFlag => t.assign { t.fsm with motionDetected := false } .sendLost
  | .sendLost => t.send .motionLost .lostDone
  | .lostDone => t.assign (setDetectionState .detecting t.fsm) .delay
  | .substateSwitch =>
    match t.fsm.detectionSubstate with
    | .entry => t.goto .entryRun
    | .run => t.goto .runClock
    | .exit => t.goto .exitFlag
  | .entryRun => t.assign { t.fsm with detectionSubstate := .run } .entryClock
  | .entryClock => t.assign { t.fsm with timeoutStart := (rd t.pass).clock } .delay
  | .runClock => { t with current := (rd t.pass).clock, pc := .runTest }
  | .runTest => t.goto (if 5 ≤ elapsed t.current t.fsm.timeoutStart then .runExit else .delay)
  | .runExit => t.assign { t.fsm with detectionSubstate := .exit } .delay
  | .exitFlag => t.assign { t.fsm with motionDetected := false } .exitLost
  | .exitLost => t.assign (setDetectionState .motionLost t.fsm) .delay
  | .delay => { t with pass := t.pass + 1, pc := .loopTest }
  | .ended => t

/-- `detection_exit`, between two statements of the task. -/
def detectionExit (t : DetectionThread) : DetectionThread :=
  { t with fsm := setDetectionState .exit t.fsm }

/-! ### A pass without interruption -/

variable {rd : ℕ → Reading} {t u : DetectionThread}

variable (rd) in
theorem reaches_switch (t : DetectionThread) (h : t.pc = .readGpio) :
    Reaches (taskStep rd) t { t with
      pc := .stateSwitch
      curStatus := (rd t.pass).curStatus
      fsm := processNextState (rd t.pass).curStatus t.fsm } := by
  obtain ⟨pc, fsm, curStatus, current, pass, sends⟩ := t
  obtain rfl : pc = .readGpio := h
  generalize hx : (rd pass).curStatus = x
  apply Reaches.head
  show Reaches (taskStep rd) ⟨.risingTest, fsm, (rd pass).curStatus, current, pass, sends⟩ _
  rw [hx]
  apply Reaches.head
  by_cases hrising : x ≠ 0 ∧ fsm.motionDetected = false
  · simp only [taskStep, goto, processNextState, if_pos hrising]
    exact Reaches.head (Reaches.head (Reaches.refl _))
  · simp only [taskStep, goto, processNextState, if_neg hrising]
    apply Reaches.head
    by_cases hfalling : x = 0 ∧ fsm.motionDetected = true
    · simp only [taskStep, goto, if_pos hfalling]
      apply Reaches.head
      show Reaches (taskStep rd) ⟨.timeoutTest, { fsm with motionDetected := false }, x, current,
        pass, sends⟩ _
      apply Reaches.head
      by_cases htimeout : fsm.detectionState ≠ .timeout
      · simp only [taskStep, goto, if_pos htimeout]
        exact Reaches.head (Reaches.head (Reaches.refl _))
      · simp only [taskStep, goto, if_neg htimeout]
        exact Reaches.refl _
    · simp only [taskStep, goto, if_neg hfalling]
      exact Reaches.refl _

variable (rd) in
theorem reaches_delay (t : DetectionThread) (h : t.pc = .stateSwitch) :
    ∃ current, Reaches (taskStep rd) t { t with
      pc := .delay
      current := current
      fsm := (detectionSwitch (rd t.pass).clock t.fsm).1
      sends := t.sends ++ (detectionSwitch (rd t.pass).clock t.fsm).2 } := by
  obtain ⟨pc, ⟨flag, state, substate, timeoutStart⟩, curStatus, current, pass, sends⟩ := t
  obtain rfl : pc = .stateSwitch := h
  have hstill : Reaches (taskStep rd)
      ⟨.delay, ⟨flag, state, substate, timeoutStart⟩, curStatus, current, pass, sends⟩
      ⟨.delay, ⟨flag, state, substate, timeoutStart⟩, curStatus, current, pass, sends ++ []⟩ := by
    rw [List.append_nil]
    exact Reaches.refl _
  cases state with
  | detecting => exact ⟨current, Reaches.head hstill⟩
  | motionDetected =>
    exact ⟨current, Reaches.head (Reaches.head (Reaches.head (Reaches.head (Reaches.refl _))))⟩
  | motionLost =>
    exact ⟨current, Reaches.head (Reaches.head (Reaches.head (Reaches.head (Reaches.refl _))))⟩
  | timeout =>
    simp only [detectionSwitch, List.append_nil]
    cases substate with
    | entry =>
      exact ⟨current, Reaches.head (Reaches.head (Reaches.head (Reaches.head (Reaches.refl _))))⟩
    | run =>
      refine ⟨(rd pass).clock, Reaches.head (Reaches.head (Reaches.head ?_))⟩
      show Reaches (taskStep rd) ⟨.runTest, ⟨flag, .timeout, .run, timeoutStart⟩, curStatus,
        (rd pass).clock, pass, sends⟩ _
      apply Reaches.head
      by_cases helapsed : 5 ≤ elapsed (rd pass).clock timeoutStart
      · simp only [taskStep, goto, timeoutSwitch, if_pos helapsed]
        exact Reaches.head (Reaches.refl _)
      · simp only [taskStep, goto, timeoutSwitch, if_neg helapsed]
        exact Reaches.refl _
    | exit =>
      exact ⟨current, Reaches.head (Reaches.head (Reaches.head (Reaches.head (Reaches.refl _))))⟩
  | exiting => exact ⟨current, Reaches.head hstill⟩
  | exit => exact ⟨current, Reaches.head hstill⟩

/- Left alone, the statements of a pass do what `detectionIteration` says. -/
theorem reaches_iteration (t : DetectionThread) (h : t.pc = .loopTest)
    (hs : t.fsm.detectionState ≠ .exit) :
    ∃ u, Reaches (taskStep rd) t u ∧ u.pc = .loopTest ∧ u.pass = t.pass + 1 ∧
      u.fsm = (detectionIteration (rd t.pass) t.fsm).1 ∧
      u.sends = t.sends ++ (detectionIteration (rd t.pass) t.fsm).2 := by
  have hloop : Reaches (taskStep rd) t (t.goto .readGpio) := by
    apply Reaches.head
    simp only [taskStep, h, if_pos hs]
    exact Reaches.refl _
  have hnext := reaches_switch rd (t.goto .readGpio) rfl
  obtain ⟨current, hdelay⟩ := reaches_delay rd { t.goto .readGpio with
    pc := .stateSwitch
    curStatus := (rd t.pass).curStatus
    fsm := processNextState (rd t.pass).curStatus t.fsm } rfl
  refine ⟨_, (hloop.trans hnext).trans (hdelay.trans (Reaches.head (Reaches.refl _))), ?_⟩
  simp only [taskStep, detectionIteration, if_neg hs, goto]
  exact ⟨trivial, trivial, trivial, trivial⟩

/-! ### The request -/

/-- From here on nothing but the exit state is seen, and nothing is sent once
the iteration in progress is over. -/
structure Honoured (rd : ℕ → Reading) (t : DetectionThread) : Prop where
  kept : ∀ u, Reaches (taskStep rd) t.detectionExit u → u.fsm.detectionState = .exit
  stops : ∀ u, Reaches (taskStep rd) t.detectionExit u → u.pc = .loopTest →
    (taskStep rd u).pc = .ended
  silent : ∀ u v, Reaches (taskStep rd) t.detectionExit u → u.pc = .loopTest →
    Reaches (taskStep rd) u v → v.sends = u.sends

/-- The sample and the flag make `process_next_state` write the state. -/
def Changes (curStatus : UInt8) (motionDetected : Bool) : Prop :=
  curStatus ≠ 0 ∧ motionDetected = false ∨ curStatus = 0 ∧ motionDetected = true

/-- The rest of the iteration writes the state, whatever it holds now. -/
def WritePending (rd : ℕ → Reading) (t : DetectionThread) : Prop :=
  match t.pc with
  | .readGpio => Changes (rd t.pass).curStatus t.fsm.motionDetected
  | .risingTest => Changes t.curStatus t.fsm.motionDetected
  | .fallingTest => t.curStatus = 0 ∧ t.fsm.motionDetected = true
  | .substateSwitch => t.fsm.detectionSubstate = .exit
  | .cancelTest | .setMotionDetected | .clearFlag | .timeoutTest | .setEntry | .setTimeout => True
  | .detectedFlag | .sendDetected | .detectedDone | .lostFlag | .sendLost | .lostDone => True
  | .exitFlag | .exitLost => True
  | .loopTest | .stateSwitch | .entryRun | .entryClock | .runClock | .runTest | .runExit => False
  | .delay | .ended => False

/-- Statements up to the pending write, at most. -/
def distance : DetectionPc → ℕ
  | .readGpio => 7
  | .risingTest => 6
  | .fallingTest => 5
  | .clearFlag => 4
  | .timeoutTest => 3
  | .setEntry => 2
  | .setTimeout => 1
  | .cancelTest => 2
  | .substateSwitch => 3
  | .exitFlag => 2
  | .detectedFlag => 3
  | .sendDetected => 2
  | .lostFlag => 3
  | .sendLost => 2
  | _ => 1

/- With no write pending the exit state stays, and no write gets pending. -/
theorem step_quiet (hs : t.fsm.detectionState = .exit) (hq : ¬ WritePending rd t) :
    (taskStep rd t).fsm.detectionState = .exit ∧ ¬ WritePending rd (taskStep rd t) := by
  obtain ⟨pc, ⟨flag, state, substate, timeoutStart⟩, curStatus, current, pass, sends⟩ := t
  obtain rfl : state = .exit := hs
  cases pc with
  | loopTest => exact ⟨rfl, id⟩
  | readGpio => exact ⟨rfl, hq⟩
  | risingTest =>
    have hrising : ¬ (curStatus ≠ 0 ∧ flag = false) := fun h => hq (.inl h)
    simp only [taskStep, goto, if_neg hrising]
    exact ⟨trivial, fun h => hq (.inr h)⟩
  | fallingTest =>
    have hfalling : ¬ (curStatus = 0 ∧ flag = true) := hq
    simp only [taskStep, goto, if_neg hfalling]
    exact ⟨trivial, id⟩
  | substateSwitch =>
    cases substate with
    | entry => exact ⟨rfl, id⟩
    | run => exact ⟨rfl, id⟩
    | exit => exact absurd rfl hq
  | runTest =>
    by_cases helapsed : 5 ≤ elapsed current timeoutStart
    · simp only [taskStep, goto, if_pos helapsed]
      exact ⟨trivial, id⟩
    · simp only [taskStep, goto, if_neg helapsed]
      exact ⟨trivial, id⟩
  | stateSwitch => exact ⟨rfl, id⟩
  | entryRun => exact ⟨rfl, id⟩
  | entryClock => exact ⟨rfl, id⟩
  | runClock => exact ⟨rfl, id⟩
  | runExit => exact ⟨rfl, id⟩
  | delay => exact ⟨rfl, id⟩
  | ended => exact ⟨rfl, id⟩
  | cancelTest => exact absurd trivial hq
  | setMotionDetected => exact absurd trivial hq
  | clearFlag => exact absurd trivial hq
  | timeoutTest => exact absurd trivial hq
  | setEntry => exact absurd trivial hq
  | setTimeout => exact absurd trivial hq
  | detectedFlag => exact absurd trivial hq
  | sendDetected => exact absurd trivial hq
  | detectedDone => exact absurd trivial hq
  | lostFlag => exact absurd trivial hq
  | sendLost => exact absurd trivial hq
  | lostDone => exact absurd trivial hq
  | exitFlag => exact absurd trivial hq
  | exitLost => exact absurd trivial hq

/- A pending write comes one statement closer until it is made. -/
theorem step_pending (hs : t.fsm.detectionState = .exit) (hp : WritePending rd t) :
    (taskStep rd t).fsm.detectionState ≠ .exit ∨
      (taskStep rd t).fsm.detectionState = .exit ∧ WritePending rd (taskStep rd t) ∧
        distance (taskStep rd t).pc < distance t.pc := by
  obtain ⟨pc, ⟨flag, state, substate, timeoutStart⟩, curStatus, current, pass, sends⟩ := t
  obtain rfl : state = .exit := hs
  cases pc with
  | readGpio => exact .inr ⟨rfl, hp, Nat.lt_add_one _⟩
  | risingTest =>
    right
    rcases hp with hrising | hfalling
    · simp only [taskStep, goto, if_pos hrising]
      exact ⟨trivial, trivial, by decide⟩
    · have hrising : ¬ (curStatus ≠ 0 ∧ flag = false) := fun h => h.1 hfalling.1
      simp only [taskStep, goto, if_neg hrising]
      exact ⟨trivial, hfalling, by decide⟩
  | fallingTest =>
    right
    have hfalling : curStatus = 0 ∧ flag = true := hp
    simp only [taskStep, goto, if_pos hfalling]
    exact ⟨trivial, trivial, by decide⟩
  | substateSwitch =>
    obtain rfl : substate = .exit := hp
    exact .inr ⟨rfl, trivial, Nat.lt_add_one _⟩
  | setMotionDetected => exact .inl (by simp [taskStep, assign])
  | setTimeout => exact .inl (by simp [taskStep, assign])
  | detectedDone => exact .inl (by simp [taskStep, assign])
  | lostDone => exact .inl (by simp [taskStep, assign])
  | exitLost => exact .inl (by simp [taskStep, assign])
  | cancelTest => exact .inr ⟨rfl, trivial, Nat.lt_add_one _⟩
  | clearFlag => exact .inr ⟨rfl, trivial, Nat.lt_add_one _⟩
  | timeoutTest => exact .inr ⟨rfl, trivial, Nat.lt_add_one _⟩
  | setEntry => exact .inr ⟨rfl, trivial, Nat.lt_add_one _⟩
  | detectedFlag => exact .inr ⟨rfl, trivial, Nat.lt_add_one _⟩
  | sendDetected => exact .inr ⟨rfl, trivial, Nat.lt_add_one _⟩
  | lostFlag => exact .inr ⟨rfl, trivial, Nat.lt_add_one _⟩
  | sendLost => exact .inr ⟨rfl, trivial, Nat.lt_add_one _⟩
  | exitFlag => exact .inr ⟨rfl, trivial, Nat.lt_add_one _⟩
  | loopTest => exact hp.elim
  | stateSwitch => exact hp.elim
  | entryRun => exact hp.elim
  | entryClock => exact hp.elim
  | runClock => exact hp.elim
  | runTest => exact hp.elim
  | runExit => exact hp.elim
  | delay => exact hp.elim
  | ended => exact hp.elim

theorem reaches_quiet (hs : t.fsm.detectionState = .exit) (hq : ¬ WritePending rd t)
    (h : Reaches (taskStep rd) t u) : u.fsm.detectionState = .exit :=
  (h.inv (P := fun u => u.fsm.detectionState = .exit ∧ ¬ WritePending rd u)
    (fun _ h => step_quiet h.1 h.2) ⟨hs, hq⟩).1

theorem reaches_overwritten (hs : t.fsm.detectionState = .exit) (hp : WritePending rd t) :
    ∃ u, Reaches (taskStep rd) t u ∧ u.fsm.detectionState ≠ .exit := by
  apply reaches_eventually (fun t => distance t.pc)
    (P := fun t => t.fsm.detectionState = .exit ∧ WritePending rd t)
  · intro t ⟨hs, hp⟩
    rcases step_pending hs hp with hover | ⟨hs', hp', hlt⟩
    · exact .inl hover
    · exact .inr ⟨⟨hs', hp'⟩, hlt⟩
  · exact ⟨hs, hp⟩

theorem ended_of_exit (hs : t.fsm.detectionState = .exit) (hpc : t.pc = .loopTest) :
    taskStep rd t = t.goto .ended := by
  simp [taskStep, hpc, hs]

theorem iterate_ended (k : ℕ) (h : t.pc = .ended) : (taskStep rd)^[k] t = t := by
  have hfix : taskStep rd t = t := by simp [taskStep, h]
  exact Function.iterate_fixed hfix k

theorem reaches_silent (hs : t.fsm.detectionState = .exit) (hpc : t.pc = .loopTest)
    (h : Reaches (taskStep rd) t u) : u.sends = t.sends := by
  obtain ⟨k, rfl⟩ := h
  cases k with
  | zero => rfl
  | succ k =>
    rw [Function.iterate_succ_apply, ended_of_exit hs hpc, iterate_ended k rfl]
    rfl

/-- Whatever the state of the FSM, the samples and the clock: a request is
honoured exactly when it arrives with no write of the state pending in the
iteration in progress. -/
theorem exit_honoured_iff (rd : ℕ → Reading) (t : DetectionThread) :
    Honoured rd t ↔ ¬ WritePending rd t := by
  have hexit : t.detectionExit.fsm.detectionState = .exit := rfl
  have hsame : WritePending rd t.detectionExit ↔ WritePending rd t := Iff.rfl
  constructor
  · intro h hp
    obtain ⟨u, hu, hover⟩ := reaches_overwritten hexit (hsame.mpr hp)
    exact hover (h.kept u hu)
  · intro hq
    have hquiet (u : DetectionThread) (hu : Reaches (taskStep rd) t.detectionExit u) :=
      reaches_quiet hexit (hsame.not.mpr hq) hu
    apply Honoured.mk
    · exact hquiet
    · intro u hu hpc
      rw [ended_of_exit (hquiet u hu) hpc]
      rfl
    · intro u v hu hpc hv
      exact reaches_silent (hquiet u hu) hpc hv

/-- The pin is unexported while the first sample is being read. -/
def unexported : ℕ → Reading := fun _ => ⟨255, ⟨0, 0⟩⟩

/-- The request arrives before the first sample. The failed read counts as
motion, the state is overwritten and the loop goes on to a second pass. -/
theorem exit_overwritten :
    Reaches (taskStep unexported) start (start.goto .readGpio) ∧
      ¬ Honoured unexported (start.goto .readGpio) ∧
      ((taskStep unexported)^[10] (start.goto .readGpio).detectionExit).pass = 1 ∧
      ((taskStep unexported)^[10] (start.goto .readGpio).detectionExit).pc = .readGpio := by
  refine ⟨⟨1, rfl⟩, fun h => ?_, by decide, by decide⟩
  have hstate := h.kept _ ⟨4, rfl⟩
  exact absurd hstate (by decide)

end DetectionThread

end MotionDetector.Detection
