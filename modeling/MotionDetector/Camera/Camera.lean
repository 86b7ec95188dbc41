import MotionDetector.Osal.Queue

/-!
# The camera FSM (`src/camera/camera.c`)

One pass of the loop of `camera_task`: at most one event is received, then the
switch over the state captures a frame. What `framebuffer_writeframe` does is a
parameter here: `io` stands for the results of its system calls and `β` for the
buffer it works on.
-/

namespace MotionDetector.Camera

variable {ε β : Type*}

inductive CameraFsm where
  | idle
  | capturing
  | exiting
  | exit
  deriving DecidableEq, Repr

inductive CameraState where
  | on
  | off
  deriving DecidableEq, Repr

/-- The static variables of `camera.c` that the loop uses, and the calls of
`camera_capturestate` made so far. -/
structure CameraTask where
  state : CameraFsm
  numWrites : UInt32
  capturestates : List CameraState
  deriving DecidableEq, Repr

def CameraTask.start : CameraTask := ⟨.idle, 0, [.on]⟩

def sizeofEvent : ℕ := 4

/-- A failed receive counts as `EVENT_NONE`. -/
def processEventQueue (q : Mqueue Event) : Event × Mqueue Event :=
  match q.osalQueueReceive sizeofEvent with
  | (.success, some event, q') => (event, q')
  | (_, _, q') => (.none, q')

def eventSwitch (event : Event) (state : CameraFsm) : CameraFsm :=
  match event with
  | .motionDetected => if state = .idle then .capturing else state
  | .motionLost => if state ≠ .exit then .idle else state
  | .none => state

def stateSwitch (writeframe : ε → Bool → β → SysResult × β) (io : ε) (s : CameraTask) (buf : β) :
    CameraTask × β :=
  match s.state with
  | .idle => (s, (writeframe io false buf).2)
  | .capturing =>
    match writeframe io true buf with
    | (.success, buf') => ({ s with numWrites := s.numWrites + 1 }, buf')
    | (_, buf') => (s, buf')
  | .exiting => ({ s with state := .exit, capturestates := s.capturestates ++ [.off] }, buf)
  | .exit => (s, buf)

/-- One test of the loop condition and, unless it ends the loop, one pass. The
event is the one that `process_event_queue` returned. -/
def cameraIteration (writeframe : ε → Bool → β → SysResult × β) (io : ε) (s : CameraTask)
    (q : Mqueue Event) (buf : β) : CameraTask × Mqueue Event × β :=
  if s.state = .exit then (s, q, buf)
  else
    let (event, q') := processEventQueue q
    let (s', buf') := stateSwitch writeframe io { s with state := eventSwitch event s.state } buf
    (s', q', buf')

theorem processEventQueue_nil {q : Mqueue Event} (h : q.messages = []) :
    processEventQueue q = (.none, q) := by
  simp [processEventQueue, Mqueue.osalQueueReceive_nil _ h]

theorem processEventQueue_cons {q : Mqueue Event} (hsize : q.mqMsgsize = sizeofEvent)
    {event : Event} {rest : List Event} (h : q.messages = event :: rest) :
    processEventQueue q = (event, { q with messages := rest }) := by
  simp [processEventQueue, Mqueue.osalQueueReceive_cons hsize.symm h]

/- Only a pass in `exiting` changes the state after the event is handled. -/
theorem stateSwitch_state (writeframe : ε → Bool → β → SysResult × β) (io : ε) {s : CameraTask}
    (buf : β) (h : s.state ≠ .exiting) :
    (stateSwitch writeframe io s buf).1.state = s.state := by
  unfold stateSwitch
  cases hs : s.state with
  | idle => simp [hs]
  | capturing =>
    simp only
    split
    · rfl
    · exact hs
  | exiting => exact absurd hs h
  | exit => simp [hs]

def Serving (state : CameraFsm) : Prop := state = .idle ∨ state = .capturing

theorem eventSwitch_serving {state : CameraFsm} (event : Event) (h : Serving state) :
    Serving (eventSwitch event state) := by
  rcases h with rfl | rfl <;> cases event <;> simp [eventSwitch, Serving]

theorem Serving.ne_exiting {state : CameraFsm} (h : Serving state) : state ≠ .exiting := by
  rcases h with rfl | rfl <;> decide

theorem Serving.ne_exit {state : CameraFsm} (h : Serving state) : state ≠ .exit := by
  rcases h with rfl | rfl <;> decide

theorem cameraIteration_nil (writeframe : ε → Bool → β → SysResult × β) (io : ε)
    {s : CameraTask} {q : Mqueue Event} (buf : β) (hs : Serving s.state) (h : q.messages = []) :
    (cameraIteration writeframe io s q buf).1.state = s.state ∧
      (cameraIteration writeframe io s q buf).2.1 = q := by
  simp [cameraIteration, hs.ne_exit, processEventQueue_nil h, eventSwitch,
    stateSwitch_state _ _ _ hs.ne_exiting]

theorem cameraIteration_cons (writeframe : ε → Bool → β → SysResult × β) (io : ε)
    {s : CameraTask} {q : Mqueue Event} (buf : β) (hs : Serving s.state)
    (hsize : q.mqMsgsize = sizeofEvent) {event : Event} {rest : List Event}
    (h : q.messages = event :: rest) :
    (cameraIteration writeframe io s q buf).1.state = eventSwitch event s.state ∧
      (cameraIteration writeframe io s q buf).2.1 = { q with messages := rest } := by
  have hserving := eventSwitch_serving event hs
  have hstate := stateSwitch_state writeframe io
    (s := { s with state := eventSwitch event s.state })
    buf hserving.ne_exiting
  simp [cameraIteration, hs.ne_exit, processEventQueue_cons hsize h, hstate]

def Capturing (s : CameraTask) (q : Mqueue Event) : Prop :=
  eventSwitch (processEventQueue q).1 s.state = .capturing

instance (s : CameraTask) (q : Mqueue Event) : Decidable (Capturing s q) :=
  inferInstanceAs (Decidable (_ = _))

theorem eventSwitch_exit (event : Event) : eventSwitch event .exit = .exit := by
  cases event <;> rfl

/- A pass saves a frame exactly while capturing. -/
theorem cameraIteration_buffer (writeframe : ε → Bool → β → SysResult × β) (io : ε)
    (s : CameraTask) (q : Mqueue Event) (buf : β) :
    Capturing s q ∧ (cameraIteration writeframe io s q buf).2.2 = (writeframe io true buf).2 ∨
      ¬ Capturing s q ∧ ((cameraIteration writeframe io s q buf).2.2 = buf ∨
        (cameraIteration writeframe io s q buf).2.2 = (writeframe io false buf).2) := by
  unfold cameraIteration
  split
  · next hexit =>
    right
    simp [Capturing, hexit, eventSwitch_exit]
  · simp only [stateSwitch, Capturing]
    cases eventSwitch (processEventQueue q).1 s.state with
    | idle => exact .inr ⟨by decide, .inr rfl⟩
    | capturing =>
      left
      refine ⟨rfl, ?_⟩
      simp only
      split
      · next h => rw [h]
      · next h => rw [h]
    | exiting => exact .inr ⟨by decide, .inl rfl⟩
    | exit => exact .inr ⟨by decide, .inl rfl⟩

/- The counter moves with the result of the call, not with the buffer. -/
theorem stateSwitch_numWrites (writeframe : ε → Bool → β → SysResult × β) (io : ε)
    (s : CameraTask) (buf : β) :
    (stateSwitch writeframe io s buf).1.numWrites =
      if s.state = .capturing ∧ (writeframe io true buf).1 = .success then s.numWrites + 1
      else s.numWrites := by
  unfold stateSwitch
  cases hs : s.state with
  | idle => simp
  | capturing =>
    rcases hw : writeframe io true buf with ⟨result, buf'⟩
    cases result with
    | success => simp
    | failure => simp
    | ignore => simp
  | exiting => simp
  | exit => simp

theorem cameraIteration_numWrites (writeframe : ε → Bool → β → SysResult × β) (io : ε)
    (s : CameraTask) (q : Mqueue Event) (buf : β) :
    (cameraIteration writeframe io s q buf).1.numWrites =
      if Capturing s q ∧ (writeframe io true buf).1 = .success then s.numWrites + 1
      else s.numWrites := by
  unfold cameraIteration
  split
  · next hexit => simp [Capturing, hexit, eventSwitch_exit]
  · exact stateSwitch_numWrites writeframe io _ buf

end MotionDetector.Camera
