import MotionDetector.Lib.Transition
import MotionDetector.Camera.Camera

/-!
# A shutdown request during a pass of the camera

`camera_exit` runs on the scheduler thread, between any two statements of
`camera_task`. It sets `eSTATE_EXIT`, which ends the loop, and not the state
`eSTATE_EXITING` in which the loop switches the camera off.
-/

namespace MotionDetector.Camera

open Transition

/-- The statement that comes next. -/
inductive CameraPc where
  | captureOn
  | loopTest
  | receive
  | eventSwitch
  | idleTest
  | setCapturing
  | exitTest
  | setIdle
  | stateSwitch
  | writeIdle
  | writeCapturing
  | count
  | captureOff
  | setExit
  | delay
  | ended
  deriving DecidableEq, Repr

/-- What a pass observes: the result of `process_event_queue` and that of
`framebuffer_writeframe` while capturing. -/
structure PassInput where
  event : Event
  written : SysResult

structure CameraThread where
  pc : CameraPc
  task : CameraTask
  event : Event
  pass : ℕ

namespace CameraThread

def start : CameraThread := ⟨.captureOn, ⟨.idle, 0, []⟩, .none, 0⟩

def goto (pc : CameraPc) (t : CameraThread) : CameraThread := { t with pc := pc }

def setCameraState (newState : CameraFsm) (pc : CameraPc) (t : CameraThread) : CameraThread :=
  { t with task := { t.task with state := newState }, pc := pc }

def cameraCapturestate (state : CameraState) (pc : CameraPc) (t : CameraThread) : CameraThread :=
  { t with task := { t.task with capturestates := t.task.capturestates ++ [state] }, pc := pc }

/-- One statement of `camera_task`. -/
def taskStep (input : ℕ → PassInput) (t : CameraThread) : CameraThread :=
  match t.pc with
  | .captureOn => t.cameraCapturestate .on .loopTest
  | .loopTest => t.goto (if t.task.state ≠ .exit then .receive else .ended)
  | .receive => { t with event := (input t.pass).event, pc := .eventSwitch }
  | .eventSwitch =>
    match t.event with
    | .motionDetected => t.goto .idleTest
    | .motionLost => t.goto .exitTest
    | .none => t.goto .stateSwitch
  | .idleTest => t.goto (if t.task.state = .idle then .setCapturing else .stateSwitch)
  | .setCapturing => t.setCameraState .capturing .stateSwitch
  | .exitTest => t.goto (if t.task.state ≠ .exit then .setIdle else .stateSwitch)
  | .setIdle => t.setCameraState .idle .stateSwitch
  | .stateSwitch =>
    match t.task.state with
    | .idle => t.goto .writeIdle
    | .capturing => t.goto .writeCapturing
    | .exiting => t.goto .captureOff
    | .exit => t.goto .delay
  | .writeIdle => t.goto .delay
  | .writeCapturing => t.goto (if (input t.pass).written = .success then .count else .delay)
  | .count => { t with task := { t.task with numWrites := t.task.numWrites + 1 }, pc := .delay }
  | .captureOff => t.cameraCapturestate .off .setExit
  | .setExit => t.setCameraState .exit .delay
  | .delay => { t with pass := t.pass + 1, pc := .loopTest }
  | .ended => t

/-- `camera_exit`, between two statements of the task. -/
def cameraExit (t : CameraThread) : CameraThread :=
  { t with task := { t.task with state := .exit } }

variable {input : ℕ → PassInput} {t u : CameraThread}

/-! ### A pass without interruption -/

variable (input) in
theorem reaches_stateSwitch (t : CameraThread) (h : t.pc = .eventSwitch) :
    Reaches (taskStep input) t { t with
      pc := .stateSwitch
      task := { t.task with state := Camera.eventSwitch t.event t.task.state } } := by
  obtain ⟨pc, ⟨state, numWrites, capturestates⟩, event, pass⟩ := t
  obtain rfl : pc = .eventSwitch := h
  cases event with
  | none => exact Reaches.head (Reaches.refl _)
  | motionDetected =>
    cases state with
    | idle => exact Reaches.head (Reaches.head (Reaches.head (Reaches.refl _)))
    | capturing => exact Reaches.head (Reaches.head (Reaches.refl _))
    | exiting => exact Reaches.head (Reaches.head (Reaches.refl _))
    | exit => exact Reaches.head (Reaches.head (Reaches.refl _))
  | motionLost =>
    cases state with
    | idle => exact Reaches.head (Reaches.head (Reaches.head (Reaches.refl _)))
    | capturing => exact Reaches.head (Reaches.head (Reaches.head (Reaches.refl _)))
    | exiting => exact Reaches.head (Reaches.head (Reaches.head (Reaches.refl _)))
    | exit => exact Reaches.head (Reaches.head (Reaches.refl _))

variable (input) in
theorem reaches_delay {ε β : Type*} (writeframe : ε → Bool → β → SysResult × β) (io : ε)
    (buf : β) (t : CameraThread) (h : t.pc = .stateSwitch)
    (hwritten : (input t.pass).written = (writeframe io true buf).1) :
    Reaches (taskStep input) t
      { t with pc := .delay, task := (Camera.stateSwitch writeframe io t.task buf).1 } := by
  obtain ⟨pc, ⟨state, numWrites, capturestates⟩, event, pass⟩ := t
  obtain rfl : pc = .stateSwitch := h
  cases state with
  | idle => exact Reaches.head (Reaches.head (Reaches.refl _))
  | capturing =>
    apply Reaches.head
    apply Reaches.head
    rcases hw : writeframe io true buf with ⟨result, buf'⟩
    simp only [taskStep, goto, hwritten, Camera.stateSwitch, hw]
    cases result with
    | success => exact Reaches.head (Reaches.refl _)
    | failure => exact Reaches.refl _
    | ignore => exact Reaches.refl _
  | exiting => exact Reaches.head (Reaches.head (Reaches.head (Reaches.refl _)))
  | exit => exact Reaches.head (Reaches.refl _)

/- Left alone, the statements of a pass do what `cameraIteration` says. -/
theorem reaches_iteration {ε β : Type*} (writeframe : ε → Bool → β → SysResult × β) (io : ε)
    (q : Mqueue Event) (buf : β) (t : CameraThread) (h : t.pc = .loopTest)
    (hs : t.task.state ≠ .exit) (hevent : (input t.pass).event = (processEventQueue q).1)
    (hwritten : (input t.pass).written = (writeframe io true buf).1) :
    ∃ u, Reaches (taskStep input) t u ∧ u.pc = .loopTest ∧ u.pass = t.pass + 1 ∧
      u.task = (cameraIteration writeframe io t.task q buf).1 := by
  have hreceive : Reaches (taskStep input) t
      { t with pc := .eventSwitch, event := (processEventQueue q).1 } := by
    obtain ⟨pc, task, event, pass⟩ := t
    obtain rfl : pc = .loopTest := h
    apply Reaches.head
    simp only [taskStep, goto, if_pos hs]
    rw [← hevent]
    exact Reaches.head (Reaches.refl _)
  have hswitch := reaches_stateSwitch input
    { t with pc := .eventSwitch, event := (processEventQueue q).1 } rfl
  have hdelay := reaches_delay input writeframe io buf { t with
    pc := .stateSwitch
    event := (processEventQueue q).1
    task := { t.task with state := Camera.eventSwitch (processEventQueue q).1 t.task.state } }
    rfl hwritten
  refine ⟨_, (hreceive.trans hswitch).trans (hdelay.trans (Reaches.head (Reaches.refl _))), ?_⟩
  simp only [taskStep, cameraIteration, if_neg hs]
  exact ⟨trivial, trivial, trivial⟩

/-! ### The request -/

/-- The request is not undone, and the camera is off when the loop is left. -/
structure ShutDown (input : ℕ → PassInput) (t : CameraThread) : Prop where
  kept : ∀ u, Reaches (taskStep input) t.cameraExit u → ¬ Serving u.task.state
  off : ∀ u, Reaches (taskStep input) t.cameraExit u → u.pc = .ended →
    .off ∈ u.task.capturestates

/-- The guard of the event handler has been passed, its write not yet made. -/
def WritePending (t : CameraThread) : Prop :=
  match t.pc with
  | .setCapturing | .setIdle => True
  | _ => False

def switchesOff : CameraPc → Bool
  | .captureOff | .setExit => true
  | _ => false

/-- The camera has not been switched off and is not about to be. -/
structure StillOn (t : CameraThread) : Prop where
  calls : .off ∉ t.task.capturestates
  pc : switchesOff t.pc = false

variable (input) in
/- Nothing sets `eSTATE_EXITING`, so the camera is never switched off. -/
theorem step_stillOn (hs : t.task.state ≠ .exiting) (h : StillOn t) :
    (taskStep input t).task.state ≠ .exiting ∧ StillOn (taskStep input t) := by
  obtain ⟨pc, ⟨state, numWrites, capturestates⟩, event, pass⟩ := t
  obtain ⟨hcalls, hpc⟩ := h
  cases pc with
  | captureOn =>
    refine ⟨hs, ?_, rfl⟩
    simpa [taskStep, cameraCapturestate] using hcalls
  | loopTest =>
    simp only [taskStep, goto]
    split
    · exact ⟨hs, hcalls, rfl⟩
    · exact ⟨hs, hcalls, rfl⟩
  | eventSwitch =>
    cases event with
    | none => exact ⟨hs, hcalls, rfl⟩
    | motionDetected => exact ⟨hs, hcalls, rfl⟩
    | motionLost => exact ⟨hs, hcalls, rfl⟩
  | idleTest =>
    simp only [taskStep, goto]
    split
    · exact ⟨hs, hcalls, rfl⟩
    · exact ⟨hs, hcalls, rfl⟩
  | exitTest =>
    simp only [taskStep, goto]
    split
    · exact ⟨hs, hcalls, rfl⟩
    · exact ⟨hs, hcalls, rfl⟩
  | stateSwitch =>
    cases state with
    | idle => exact ⟨hs, hcalls, rfl⟩
    | capturing => exact ⟨hs, hcalls, rfl⟩
    | exiting => exact absurd rfl hs
    | exit => exact ⟨hs, hcalls, rfl⟩
  | writeCapturing =>
    simp only [taskStep, goto]
    split
    · exact ⟨hs, hcalls, rfl⟩
    · exact ⟨hs, hcalls, rfl⟩
  | setCapturing => exact ⟨by simp [taskStep, setCameraState], hcalls, rfl⟩
  | setIdle => exact ⟨by simp [taskStep, setCameraState], hcalls, rfl⟩
  | receive => exact ⟨hs, hcalls, rfl⟩
  | writeIdle => exact ⟨hs, hcalls, rfl⟩
  | count => exact ⟨hs, hcalls, rfl⟩
  | delay => exact ⟨hs, hcalls, rfl⟩
  | ended => exact ⟨hs, hcalls, rfl⟩
  | captureOff => exact absurd hpc.symm Bool.false_ne_true
  | setExit => exact absurd hpc.symm Bool.false_ne_true

/-- Statements up to the end of the task, once the exit state is set. -/
def distance : CameraPc → ℕ
  | .receive => 7
  | .eventSwitch => 6
  | .idleTest => 5
  | .exitTest => 5
  | .stateSwitch => 4
  | .writeCapturing => 4
  | .writeIdle => 3
  | .count => 3
  | .delay => 2
  | .captureOn => 2
  | .loopTest => 1
  | _ => 0

variable (input) in
/- With no write pending the loop is left, by a way that does not pass through
`captureOff`. -/
theorem step_leaves (hs : t.task.state = .exit) (hq : ¬ WritePending t)
    (hpc : switchesOff t.pc = false) :
    (taskStep input t).task.state = .exit ∧ ¬ WritePending (taskStep input t) ∧
      ((taskStep input t).pc = .ended ∨ distance (taskStep input t).pc < distance t.pc) := by
  obtain ⟨pc, ⟨state, numWrites, capturestates⟩, event, pass⟩ := t
  obtain rfl : state = .exit := hs
  cases pc with
  | loopTest => exact ⟨rfl, id, .inl rfl⟩
  | eventSwitch =>
    cases event with
    | none => exact ⟨rfl, id, .inr (show 4 < 6 by decide)⟩
    | motionDetected => exact ⟨rfl, id, .inr (Nat.lt_add_one _)⟩
    | motionLost => exact ⟨rfl, id, .inr (Nat.lt_add_one _)⟩
  | stateSwitch => exact ⟨rfl, id, .inr (show 2 < 4 by decide)⟩
  | writeCapturing =>
    simp only [taskStep, goto]
    split
    · exact ⟨trivial, id, .inr (by decide)⟩
    · exact ⟨trivial, id, .inr (by decide)⟩
  | captureOn => exact ⟨rfl, id, .inr (Nat.lt_add_one _)⟩
  | receive => exact ⟨rfl, id, .inr (Nat.lt_add_one _)⟩
  | idleTest => exact ⟨rfl, id, .inr (Nat.lt_add_one _)⟩
  | exitTest => exact ⟨rfl, id, .inr (Nat.lt_add_one _)⟩
  | writeIdle => exact ⟨rfl, id, .inr (Nat.lt_add_one _)⟩
  | count => exact ⟨rfl, id, .inr (Nat.lt_add_one _)⟩
  | delay => exact ⟨rfl, id, .inr (Nat.lt_add_one _)⟩
  | ended => exact ⟨rfl, id, .inl rfl⟩
  | setCapturing => exact absurd trivial hq
  | setIdle => exact absurd trivial hq
  | captureOff => exact absurd hpc.symm Bool.false_ne_true
  | setExit => exact absurd hpc.symm Bool.false_ne_true

theorem reaches_exit (hs : t.task.state = .exit) (hq : ¬ WritePending t) (hon : StillOn t)
    (h : Reaches (taskStep input) t u) : u.task.state = .exit := by
  have hall := h.inv (P := fun u => u.task.state = .exit ∧ ¬ WritePending u ∧ StillOn u)
    (fun v hv => ?_) ⟨hs, hq, hon⟩
  · exact hall.1
  · obtain ⟨hv, hvq, hvon⟩ := hv
    obtain ⟨hv', hvq', -⟩ := step_leaves input hv hvq hvon.pc
    exact ⟨hv', hvq', (step_stillOn input (by simp [hv]) hvon).2⟩

variable (input) in
theorem reaches_ended_on (hs : t.task.state = .exit) (hq : ¬ WritePending t) (hon : StillOn t) :
    ∃ u, Reaches (taskStep input) t u ∧ u.pc = .ended ∧ .off ∉ u.task.capturestates := by
  apply reaches_eventually (fun t => distance t.pc)
    (P := fun t => t.task.state = .exit ∧ ¬ WritePending t ∧ StillOn t)
  · intro v ⟨hv, hvq, hvon⟩
    obtain ⟨hv', hvq', hpc⟩ := step_leaves input hv hvq hvon.pc
    have hon' := (step_stillOn input (by simp [hv]) hvon).2
    rcases hpc with hended | hlt
    · exact .inl ⟨hended, hon'.calls⟩
    · exact .inr ⟨⟨hv', hvq', hon'⟩, hlt⟩
  · exact ⟨hs, hq, hon⟩

/- A pending write undoes the request. -/
theorem step_undone (hp : WritePending t) : Serving (taskStep input t).task.state := by
  obtain ⟨pc, task, event, pass⟩ := t
  cases pc with
  | setCapturing => exact .inr rfl
  | setIdle => exact .inl rfl
  | _ => exact hp.elim

variable (input) in
theorem start_stillOn (k : ℕ) : StillOn ((taskStep input)^[k] start) :=
  (Reaches.inv (P := fun t => t.task.state ≠ .exiting ∧ StillOn t)
    (fun _ h => step_stillOn input h.1 h.2) ⟨by decide, by simp [start], rfl⟩ ⟨k, rfl⟩).2

/-- Wherever the request comes, it is kept exactly if no write of the event
handler is pending, and then the task ends with the camera on. -/
theorem camera_exit_fails (input : ℕ → PassInput) (k : ℕ) :
    ((∀ u, Reaches (taskStep input) ((taskStep input)^[k] start).cameraExit u →
        ¬ Serving u.task.state) ↔ ¬ WritePending ((taskStep input)^[k] start)) ∧
      ¬ ShutDown input ((taskStep input)^[k] start) := by
  have hon := start_stillOn input k
  generalize (taskStep input)^[k] start = t at hon
  have hexit : t.cameraExit.task.state = .exit := rfl
  have hkept : (∀ u, Reaches (taskStep input) t.cameraExit u → ¬ Serving u.task.state) ↔
      ¬ WritePending t := by
    constructor
    · intro hkept hp
      exact hkept _ (Reaches.head (Reaches.refl _)) (step_undone (t := t.cameraExit) hp)
    · intro hq u hu hserving
      exact hserving.ne_exit (reaches_exit hexit hq ⟨hon.calls, hon.pc⟩ hu)
  refine ⟨hkept, fun h => ?_⟩
  obtain ⟨u, hu, hended, hoff⟩ := reaches_ended_on input (t := t.cameraExit) hexit
    (hkept.mp h.kept) ⟨hon.calls, hon.pc⟩
  exact hoff (h.off u hu hended)

def lostInput : ℕ → PassInput := fun _ => ⟨.motionLost, .ignore⟩

/-- A request at the first loop test leaves the camera on; one between the guard
and the write of the `EVENT_MOTION_LOST` handler is undone. -/
theorem camera_exit_firstPass :
    ¬ ShutDown lostInput ((taskStep lostInput)^[1] start) ∧
      ((taskStep lostInput)^[5] start).pc = .setIdle ∧
      ¬ ShutDown lostInput ((taskStep lostInput)^[5] start) := by
  refine ⟨fun h => ?_, by decide, fun h => ?_⟩
  · have hoff := h.off _ ⟨1, rfl⟩ rfl
    exact absurd hoff (by decide)
  · exact h.kept _ ⟨1, rfl⟩ (.inl rfl)

end CameraThread

end MotionDetector.Camera
