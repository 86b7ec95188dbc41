import MotionDetector.Lib.Transition
import MotionDetector.Detection.Trace
import MotionDetector.Camera.Camera

/-!
# Motion events from the detector to the camera

`detection_task` and `camera_task` share the queue `EVENT_QUEUE_NAME`. A step
is one pass of either loop, in any order. `sends` records every call of
`osal_queue_send` with its result, which the detector ignores.
-/

namespace MotionDetector.Events

open Transition Detection Camera

variable {ε β : Type*}

structure System (β : Type*) where
  detector : DetectionFsm
  queue : Mqueue Event
  camera : CameraTask
  buffer : β
  sends : List (Event × SysResult)
  received : List Event
  deriving DecidableEq

inductive Act (ε : Type*) where
  | detection (r : Reading)
  | camera (io : ε)
  deriving DecidableEq

def System.init (buffer : β) : System β :=
  ⟨.init, ⟨10, sizeofEvent, []⟩, .start, buffer, [], []⟩

def System.send (s : System β) (event : Event) : System β :=
  { s with
    queue := (s.queue.osalQueueSend event sizeofEvent).2
    sends := s.sends ++ [(event, (s.queue.osalQueueSend event sizeofEvent).1)] }

def step (writeframe : ε → Bool → β → SysResult × β) (s : System β) : Act ε → Option (System β)
  | .detection r =>
    let (detector, events) := detectionIteration r s.detector
    some (events.foldl System.send { s with detector := detector })
  | .camera io =>
    let (camera, queue, buffer) := cameraIteration writeframe io s.camera s.queue s.buffer
    some { s with
      camera := camera
      queue := queue
      buffer := buffer
      received := s.received ++ (s.queue.osalQueueReceive sizeofEvent).2.1.toList }

def System.raised (s : System β) : List Event := s.sends.map Prod.fst

theorem send_foldl_buffer (events : List Event) (s : System β) :
    (events.foldl System.send s).buffer = s.buffer := by
  induction events generalizing s with
  | nil => rfl
  | cons event events ih => exact ih (s.send event)

theorem send_foldl_camera (events : List Event) (s : System β) :
    (events.foldl System.send s).camera = s.camera := by
  induction events generalizing s with
  | nil => rfl
  | cons event events ih => exact ih (s.send event)

theorem send_foldl_detector (events : List Event) (s : System β) :
    (events.foldl System.send s).detector = s.detector := by
  induction events generalizing s with
  | nil => rfl
  | cons event events ih => exact ih (s.send event)

/-! ### One pass of the detector -/

def Active (d : DetectionFsm) : Prop :=
  d.motionDetected = true ∨ d.detectionState = .timeout ∨ d.detectionState = .motionLost

/-- The sample moves the detector into a case that sends an event. -/
def Raises (r : Reading) (d : DetectionFsm) : Prop :=
  d.motionDetected = false ∧ (r.curStatus ≠ 0 ∨ d.detectionState = .motionLost)

instance (r : Reading) (d : DetectionFsm) : Decidable (Raises r d) :=
  inferInstanceAs (Decidable (_ ∧ _))

structure Settled (d : DetectionFsm) : Prop where
  state : d.detectionState = .detecting ∨ d.detectionState = .timeout ∨
    d.detectionState = .motionLost
  flag : d.motionDetected = true → d.detectionState = .detecting

inductive Pass (r : Reading) (d d' : DetectionFsm) : List Event → Prop
  | silent (still : ¬ Raises r d) (same : Active d' ↔ Active d) : Pass r d d' []
  | detected (raises : Raises r d) (active : Active d') : Pass r d d' [.motionDetected]
  | lost (raises : Raises r d) (idle : ¬ Active d') : Pass r d d' [.motionLost]

theorem Settled.ne_exit {d : DetectionFsm} (h : Settled d) : d.detectionState ≠ .exit := by
  rcases h.state with hs | hs | hs <;> simp [hs]

theorem timeoutSwitch_pass {d : DetectionFsm} (now : Timespec) (hf : d.motionDetected = false)
    (hs : d.detectionState = .timeout) :
    Settled (timeoutSwitch now d) ∧ Active (timeoutSwitch now d) := by
  unfold timeoutSwitch
  cases d.detectionSubstate with
  | entry => exact ⟨⟨by simp [hs], by simp [hf]⟩, by simp [Active, hs]⟩
  | run =>
    simp only
    split
    · exact ⟨⟨by simp [hs], by simp [hf]⟩, by simp [Active, hs]⟩
    · exact ⟨⟨by simp [hs], by simp [hf]⟩, by simp [Active, hs]⟩
  | exit => exact ⟨⟨by simp, by simp⟩, by simp [Active]⟩

/- Everything one pass can do to the activity of the detector. -/
theorem iteration_pass {d : DetectionFsm} (r : Reading) (h : Settled d) :
    Settled (detectionIteration r d).1 ∧
      Pass r d (detectionIteration r d).1 (detectionIteration r d).2 := by
  by_cases hf : d.motionDetected = true
  · have hs := h.flag hf
    have hno : ¬ Raises r d := by simp [Raises, hf]
    by_cases hr : r.curStatus = 0
    · rw [iteration_falling hr hf hs]
      exact ⟨⟨by simp, by simp⟩, .silent hno (by simp [Active, hf])⟩
    · rw [iteration_still_high hr hf hs]
      exact ⟨h, .silent hno Iff.rfl⟩
  · simp only [Bool.not_eq_true] at hf
    by_cases hr : r.curStatus = 0
    · rw [iteration_low h.ne_exit hr hf]
      rcases h.state with hs | hs | hs
      · have hswitch : detectionSwitch r.clock d = (d, []) := by simp [detectionSwitch, hs]
        rw [hswitch]
        exact ⟨h, .silent (by simp [Raises, hr, hs]) Iff.rfl⟩
      · have hswitch : detectionSwitch r.clock d = (timeoutSwitch r.clock d, []) := by
          simp [detectionSwitch, hs]
        obtain ⟨hsettled, hactive⟩ := timeoutSwitch_pass r.clock hf hs
        rw [hswitch]
        exact ⟨hsettled, .silent (by simp [Raises, hr, hs])
          (iff_of_true hactive (by simp [Active, hs]))⟩
      · have hswitch : detectionSwitch r.clock d =
            ({ d with motionDetected := false, detectionState := .detecting }, [.motionLost]) := by
          simp [detectionSwitch, hs, setDetectionState]
        rw [hswitch]
        exact ⟨⟨by simp, by simp⟩, .lost (by simp [Raises, hf, hs]) (by simp [Active])⟩
    · rw [iteration_high h.ne_exit hr hf]
      exact ⟨⟨by simp, by simp⟩, .detected (by simp [Raises, hf, hr]) (by simp [Active])⟩

/-! ### Steps of the system -/

/-- What every step keeps, whatever the results of the sends. -/
structure Serves (s : System β) : Prop where
  settled : Settled s.detector
  serving : Serving s.camera.state
  maxmsg : s.queue.mqMaxmsg = 10
  msgsize : s.queue.mqMsgsize = sizeofEvent

theorem init_serves (buffer : β) : Serves (System.init buffer) :=
  ⟨⟨.inl rfl, by simp [System.init, DetectionFsm.init]⟩, .inl rfl, rfl, rfl⟩

theorem send_room {s : System β} (event : Event) (hsize : s.queue.mqMsgsize = sizeofEvent)
    (hroom : s.queue.messages.length < s.queue.mqMaxmsg) :
    s.send event =
      { s with
        queue := { s.queue with messages := s.queue.messages ++ [event] }
        sends := s.sends ++ [(event, .success)] } := by
  simp [System.send, Mqueue.osalQueueSend_room event hsize.symm hroom]

theorem send_full {s : System β} (event : Event)
    (hfull : s.queue.mqMaxmsg ≤ s.queue.messages.length) :
    s.send event = { s with sends := s.sends ++ [(event, .failure)] } := by
  simp [System.send, Mqueue.osalQueueSend_full event _ hfull]

inductive DetectionEffect (r : Reading) (s t : System β) : Prop
  | silent (still : ¬ Raises r s.detector) (same : Active t.detector ↔ Active s.detector)
      (camera : t.camera = s.camera) (queue : t.queue = s.queue) (sends : t.sends = s.sends)
      (received : t.received = s.received)
  | sent (event : Event) (raises : Raises r s.detector)
      (active : event = .motionDetected ∧ Active t.detector ∨
        event = .motionLost ∧ ¬ Active t.detector)
      (room : s.queue.messages.length < 10) (camera : t.camera = s.camera)
      (queue : t.queue.messages = s.queue.messages ++ [event])
      (sends : t.sends = s.sends ++ [(event, .success)]) (received : t.received = s.received)
  | dropped (event : Event) (raises : Raises r s.detector) (full : 10 ≤ s.queue.messages.length)
      (queue : t.queue = s.queue) (sends : t.sends = s.sends ++ [(event, .failure)])
      (received : t.received = s.received)

inductive CameraEffect (s t : System β) : Prop
  | consumed (event : Event) (detector : t.detector = s.detector)
      (camera : t.camera.state = eventSwitch event s.camera.state)
      (queue : s.queue.messages = event :: t.queue.messages) (sends : t.sends = s.sends)
      (received : t.received = s.received ++ [event])
  | idled (detector : t.detector = s.detector) (camera : t.camera.state = s.camera.state)
      (queue : t.queue = s.queue) (empty : s.queue.messages = []) (sends : t.sends = s.sends)
      (received : t.received = s.received)

theorem send_effect {s : System β} {r : Reading} {d : DetectionFsm} {event : Event}
    (hs : Serves s) (hd : Settled d) (hr : Raises r s.detector)
    (ha : event = .motionDetected ∧ Active d ∨ event = .motionLost ∧ ¬ Active d) :
    Serves (({ s with detector := d } : System β).send event) ∧
      DetectionEffect r s (({ s with detector := d } : System β).send event) := by
  by_cases hroom : s.queue.messages.length < 10
  · rw [send_room (s := { s with detector := d }) event hs.msgsize
      (by simpa [hs.maxmsg] using hroom)]
    exact ⟨⟨hd, hs.serving, hs.maxmsg, hs.msgsize⟩, .sent event hr ha hroom rfl rfl rfl rfl⟩
  · rw [send_full (s := { s with detector := d }) event (by simpa [hs.maxmsg] using hroom)]
    exact ⟨⟨hd, hs.serving, hs.maxmsg, hs.msgsize⟩,
      .dropped event hr (Nat.le_of_not_lt hroom) rfl rfl rfl⟩

theorem detection_effect {writeframe : ε → Bool → β → SysResult × β} {s t : System β}
    {r : Reading} (hs : Serves s) (ht : step writeframe s (.detection r) = some t) :
    Serves t ∧ DetectionEffect r s t := by
  obtain ⟨hsettled, hpass⟩ := iteration_pass r hs.settled
  simp only [step, Option.some.injEq] at ht
  generalize (detectionIteration r s.detector).1 = d at hsettled hpass ht
  cases hev : (detectionIteration r s.detector).2 with
  | nil =>
    rw [hev] at ht hpass
    subst ht
    cases hpass with
    | silent still same =>
      exact ⟨⟨hsettled, hs.serving, hs.maxmsg, hs.msgsize⟩,
        .silent still same rfl rfl rfl rfl⟩
  | cons event rest =>
    rw [hev] at ht hpass
    subst ht
    cases hpass with
    | detected raises active =>
      exact send_effect hs hsettled raises (.inl ⟨rfl, active⟩)
    | lost raises idle =>
      exact send_effect hs hsettled raises (.inr ⟨rfl, idle⟩)

theorem camera_effect {writeframe : ε → Bool → β → SysResult × β} {s t : System β} {io : ε}
    (hs : Serves s) (ht : step writeframe s (.camera io) = some t) :
    Serves t ∧ CameraEffect s t := by
  simp only [step, Option.some.injEq] at ht
  subst ht
  cases hq : s.queue.messages with
  | nil =>
    obtain ⟨hstate, hqueue⟩ := cameraIteration_nil writeframe io s.buffer hs.serving hq
    have hreceived := Mqueue.osalQueueReceive_nil sizeofEvent hq
    refine ⟨⟨hs.settled, ?_, ?_, ?_⟩, .idled rfl hstate hqueue hq rfl ?_⟩
    · simpa [hstate] using hs.serving
    · simpa [hqueue] using hs.maxmsg
    · simpa [hqueue] using hs.msgsize
    · simp [hreceived]
  | cons event rest =>
    obtain ⟨hstate, hqueue⟩ :=
      cameraIteration_cons writeframe io s.buffer hs.serving hs.msgsize hq
    have hreceived := Mqueue.osalQueueReceive_cons hs.msgsize.symm hq
    refine ⟨⟨hs.settled, ?_, ?_, ?_⟩, .consumed event rfl hstate ?_ rfl ?_⟩
    · simpa [hstate] using eventSwitch_serving event hs.serving
    · simpa [hqueue] using hs.maxmsg
    · simpa [hqueue] using hs.msgsize
    · simp [hqueue, hq]
    · simp [hreceived]

theorem step_serves {writeframe : ε → Bool → β → SysResult × β} {s t : System β} {a : Act ε}
    (hs : Serves s) (ht : step writeframe s a = some t) : Serves t := by
  cases a with
  | detection r => exact (detection_effect hs ht).1
  | camera io => exact (camera_effect hs ht).1

theorem reachable_serves {writeframe : ε → Bool → β → SysResult × β} {buffer : β}
    {acts : List (Act ε)} {s : System β}
    (hr : run (step writeframe) (.init buffer) acts = some s) : Serves s :=
  run_inv Serves (fun _ _ _ hs ht => step_serves hs ht) (init_serves buffer) hr

end MotionDetector.Events
