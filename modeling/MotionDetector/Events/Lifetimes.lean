import MotionDetector.Lib.Transition
import MotionDetector.Osal.Queue
import MotionDetector.Detection.Shutdown
import MotionDetector.Camera.Shutdown

/-!
# The event queue across processes

The queue has a name: it and its messages outlive the process that opened it,
and nothing unlinks it. A step of a process is one statement of the detector or
the camera, or one of their exit functions; a process may be ended anywhere.
-/

namespace MotionDetector.Events

open Transition Detection Camera

/-- `accepted` lists the events that the queue took from the detector of this
process, `received` those that its camera received. -/
structure Process where
  detector : DetectionThread
  camera : CameraThread
  queue : Mqueue Event
  accepted : List Event
  received : List Event

inductive ProcessAct where
  | detection (r : Reading)
  | camera (written : SysResult)
  | detectionExit
  | cameraExit

/-- `detection_init` and `camera_init` open the queue, in this order or the other. -/
def Process.start (named : Option (Mqueue Event)) : Process :=
  { detector := .start
    camera := .start
    queue := .osalQueueCreate (some (.osalQueueCreate named 10 sizeofEvent)) 10 sizeofEvent
    accepted := []
    received := [] }

/-- The event sent by the statement that comes next. -/
def sentBy : DetectionPc → Option Event
  | .sendDetected => some .motionDetected
  | .sendLost => some .motionLost
  | _ => none

def Process.send (p : Process) (event : Event) : Process :=
  { p with
    queue := (p.queue.osalQueueSend event sizeofEvent).2
    accepted := if (p.queue.osalQueueSend event sizeofEvent).1 = .success
      then p.accepted ++ [event] else p.accepted }

def Process.receive (p : Process) : Process :=
  { p with
    queue := (processEventQueue p.queue).2
    received := p.received ++ (p.queue.osalQueueReceive sizeofEvent).2.1.toList }

def processStep (p : Process) : ProcessAct → Option Process
  | .detection r =>
    let p' := match sentBy p.detector.pc with
      | some event => p.send event
      | none => p
    some { p' with detector := p.detector.taskStep fun _ => r }
  | .camera written =>
    let p' := if p.camera.pc = .receive then p.receive else p
    some { p' with
      camera := p.camera.taskStep fun _ => ⟨(processEventQueue p.queue).1, written⟩ }
  | .detectionExit => some { p with detector := p.detector.detectionExit }
  | .cameraExit => some { p with camera := p.camera.cameraExit }

/-- The named queue, which is the one of the process while there is one. -/
structure Machine where
  named : Option (Mqueue Event)
  process : Option Process

def Machine.init : Machine := ⟨none, none⟩

inductive MachineAct where
  | start
  | act (a : ProcessAct)
  | stop

def machineStep (m : Machine) : MachineAct → Option Machine
  | .start =>
    match m.process with
    | none => some { m with process := some (.start m.named) }
    | some _ => none
  | .act a =>
    match m.process with
    | some p => (processStep p a).map fun p' => ⟨some p'.queue, some p'⟩
    | none => none
  | .stop =>
    match m.process with
    | some p => some ⟨some p.queue, none⟩
    | none => none

/-- What earlier processes left in the queue. -/
def Machine.leftover (m : Machine) : List Event := (m.named.map Mqueue.messages).getD []

/-- A step of the camera that starts capturing comes after an `EVENT_MOTION_DETECTED`
of this process, and one that stops it acts on an `EVENT_MOTION_LOST` of this
process: the queue is first in first out, so after `leftover` messages of others
the next to be received are those it accepted, in order. -/
def OwnMotion (leftover : ℕ) (p : Process) : ProcessAct → Prop
  | .camera _ =>
    (p.camera.pc = .setCapturing → .motionDetected ∈ p.accepted) ∧
      (p.camera.pc = .setIdle → ∃ i, p.received.length = leftover + i + 1 ∧
        p.accepted[i]? = some .motionLost)
  | _ => True

/-! ### Messages in order -/

/-- The event that the camera is handling, the last one received. -/
def handled : CameraPc → Option Event
  | .idleTest | .setCapturing => some .motionDetected
  | .exitTest | .setIdle => some .motionLost
  | _ => none

structure QueueOk (q : Mqueue Event) : Prop where
  msgsize : q.mqMsgsize = sizeofEvent
  events : .none ∉ q.messages

structure ProcessInv (leftover : List Event) (p : Process) : Prop where
  queue : QueueOk p.queue
  order : p.received ++ p.queue.messages = leftover ++ p.accepted
  handled : ∀ event ∈ handled p.camera.pc, p.received.getLast? = some event
  fetched : p.camera.pc = .eventSwitch → p.camera.event ≠ .none →
    p.received.getLast? = some p.camera.event

theorem send_inv {leftover : List Event} {p : Process} {event : Event}
    (h : ProcessInv leftover p) (hevent : event ≠ .none) : ProcessInv leftover (p.send event) := by
  rcases Nat.lt_or_ge p.queue.messages.length p.queue.mqMaxmsg with hroom | hfull
  · have hsend := Mqueue.osalQueueSend_room event h.queue.msgsize.symm hroom
    have hp : p.send event = { p with
        queue := { p.queue with messages := p.queue.messages ++ [event] }
        accepted := p.accepted ++ [event] } := by
      simp [Process.send, hsend]
    rw [hp]
    refine ⟨⟨h.queue.msgsize, ?_⟩, ?_, h.handled, h.fetched⟩
    · intro hmem
      rcases List.mem_append.mp hmem with hmem | hmem
      · exact h.queue.events hmem
      · exact hevent (List.mem_singleton.mp hmem).symm
    · simp only [← List.append_assoc, h.order]
  · have hsend := Mqueue.osalQueueSend_full event sizeofEvent hfull
    have hp : p.send event = p := by simp [Process.send, hsend]
    rw [hp]
    exact h

theorem sentBy_ne_none {pc : DetectionPc} {event : Event} (h : sentBy pc = some event) :
    event ≠ .none := by
  cases pc <;> simp_all [sentBy]
  all_goals
    subst h
    decide

/- Where the camera can be after a statement, as far as the event goes. -/
theorem taskStep_handled (input : ℕ → PassInput) (t : CameraThread) (hpc : t.pc ≠ .receive) :
    (t.taskStep input).pc ≠ .eventSwitch ∧
      ∀ event ∈ handled (t.taskStep input).pc, event ∈ handled t.pc ∨
        t.pc = .eventSwitch ∧ t.event = event ∧ t.event ≠ .none := by
  obtain ⟨pc, ⟨state, numWrites, capturestates⟩, event, pass⟩ := t
  cases pc with
  | receive => exact absurd rfl hpc
  | loopTest =>
    simp only [CameraThread.taskStep, CameraThread.goto]
    split <;> simp [handled]
  | eventSwitch =>
    cases event <;> simp [CameraThread.taskStep, CameraThread.goto, handled]
  | idleTest =>
    simp only [CameraThread.taskStep, CameraThread.goto]
    split <;> simp [handled]
  | exitTest =>
    simp only [CameraThread.taskStep, CameraThread.goto]
    split <;> simp [handled]
  | stateSwitch => cases state <;> simp [CameraThread.taskStep, CameraThread.goto, handled]
  | writeCapturing =>
    simp only [CameraThread.taskStep, CameraThread.goto]
    split <;> simp [handled]
  | captureOn => simp [CameraThread.taskStep, CameraThread.cameraCapturestate, handled]
  | captureOff => simp [CameraThread.taskStep, CameraThread.cameraCapturestate, handled]
  | setCapturing => simp [CameraThread.taskStep, CameraThread.setCameraState, handled]
  | setIdle => simp [CameraThread.taskStep, CameraThread.setCameraState, handled]
  | setExit => simp [CameraThread.taskStep, CameraThread.setCameraState, handled]
  | writeIdle => simp [CameraThread.taskStep, CameraThread.goto, handled]
  | count => simp [CameraThread.taskStep, handled]
  | delay => simp [CameraThread.taskStep, handled]
  | ended => simp [CameraThread.taskStep, handled]

theorem receive_inv {leftover : List Event} {p : Process} {written : SysResult}
    (h : ProcessInv leftover p) (hpc : p.camera.pc = .receive) :
    ProcessInv leftover { p.receive with
      camera := p.camera.taskStep fun _ => ⟨(processEventQueue p.queue).1, written⟩ } := by
  have hcamera : p.camera.taskStep (fun _ => ⟨(processEventQueue p.queue).1, written⟩) =
      { p.camera with event := (processEventQueue p.queue).1, pc := .eventSwitch } := by
    simp [CameraThread.taskStep, hpc]
  rw [hcamera]
  cases hq : p.queue.messages with
  | nil =>
    have hreceive := Mqueue.osalQueueReceive_nil sizeofEvent hq
    have hp : p.receive = p := by
      simp [Process.receive, hreceive, processEventQueue_nil hq]
    rw [hp, processEventQueue_nil hq]
    exact ⟨h.queue, h.order, (fun event => by simp [handled]), fun _ hne => absurd rfl hne⟩
  | cons event rest =>
    have hreceive := Mqueue.osalQueueReceive_cons h.queue.msgsize.symm hq
    have hp : p.receive = { p with
        queue := { p.queue with messages := rest }, received := p.received ++ [event] } := by
      simp [Process.receive, hreceive, processEventQueue_cons h.queue.msgsize hq]
    have horder := h.order
    rw [hq] at horder
    rw [hp, processEventQueue_cons h.queue.msgsize hq]
    refine ⟨⟨h.queue.msgsize, fun hmem => ?_⟩, ?_, (fun event => by simp [handled]), fun _ _ => ?_⟩
    · apply h.queue.events
      rw [hq]
      exact List.mem_cons_of_mem _ hmem
    · simpa using horder
    · exact List.getLast?_concat

theorem processStep_inv {leftover : List Event} {p p' : Process} {a : ProcessAct}
    (h : ProcessInv leftover p) (ht : processStep p a = some p') : ProcessInv leftover p' := by
  cases a with
  | detection r =>
    simp only [processStep, Option.some.injEq] at ht
    subst ht
    cases hsent : sentBy p.detector.pc with
    | none => exact ⟨h.queue, h.order, h.handled, h.fetched⟩
    | some event =>
      have hsend := send_inv h (sentBy_ne_none hsent)
      exact ⟨hsend.queue, hsend.order, hsend.handled, hsend.fetched⟩
  | camera written =>
    simp only [processStep, Option.some.injEq] at ht
    subst ht
    by_cases hpc : p.camera.pc = .receive
    · rw [if_pos hpc]
      exact receive_inv h hpc
    · rw [if_neg hpc]
      obtain ⟨hnext, hhandled⟩ := taskStep_handled
        (fun _ => ⟨(processEventQueue p.queue).1, written⟩) p.camera hpc
      refine ⟨h.queue, h.order, fun event he => ?_, fun heq => absurd heq hnext⟩
      rcases hhandled event he with he | ⟨hswitch, hevent, hne⟩
      · exact h.handled event he
      · exact hevent ▸ h.fetched hswitch hne
  | detectionExit =>
    simp only [processStep, Option.some.injEq] at ht
    subst ht
    exact ⟨h.queue, h.order, h.handled, h.fetched⟩
  | cameraExit =>
    simp only [processStep, Option.some.injEq] at ht
    subst ht
    exact ⟨h.queue, h.order, h.handled, h.fetched⟩

theorem start_inv {named : Option (Mqueue Event)} (h : ∀ q ∈ named, QueueOk q) :
    ProcessInv ((named.map Mqueue.messages).getD []) (.start named) := by
  have hevent : ∀ event ∈ handled (Process.start named).camera.pc,
      (Process.start named).received.getLast? = some event := fun event he => nomatch he
  cases named with
  | none =>
    exact ⟨⟨rfl, by simp [Process.start, Mqueue.osalQueueCreate, Mqueue.mqOpen]⟩, rfl, hevent,
      fun heq => nomatch heq⟩
  | some q => exact ⟨h q rfl, (List.append_nil _).symm, hevent, fun heq => nomatch heq⟩

/-! ### Histories -/

structure MachineInv (m : Machine) : Prop where
  named : ∀ q ∈ m.named, QueueOk q
  process : ∀ p ∈ m.process, ∃ leftover, ProcessInv leftover p

theorem machineStep_inv {m m' : Machine} {a : MachineAct} (h : MachineInv m)
    (ht : machineStep m a = some m') : MachineInv m' := by
  obtain ⟨named, process⟩ := m
  cases a with
  | start =>
    cases process with
    | none =>
      simp only [machineStep, Option.some.injEq] at ht
      subst ht
      refine ⟨h.named, fun p hp => ?_⟩
      obtain rfl := Option.some.inj hp
      exact ⟨_, start_inv h.named⟩
    | some p => cases ht
  | act a =>
    cases process with
    | none => cases ht
    | some p =>
      obtain ⟨p', hp', rfl⟩ := Option.map_eq_some_iff.mp ht
      obtain ⟨leftover, hp⟩ := h.process p rfl
      have hinv := processStep_inv hp hp'
      exact ⟨fun q hq => Option.some.inj hq ▸ hinv.queue,
        fun q hq => ⟨leftover, Option.some.inj hq ▸ hinv⟩⟩
  | stop =>
    cases process with
    | none => cases ht
    | some p =>
      simp only [machineStep, Option.some.injEq] at ht
      subst ht
      obtain ⟨leftover, hp⟩ := h.process p rfl
      exact ⟨fun q hq => Option.some.inj hq ▸ hp.queue, fun q hq => nomatch hq⟩

theorem history_inv {history : List MachineAct} {m : Machine}
    (hr : run machineStep .init history = some m) : MachineInv m :=
  run_inv MachineInv (fun _ _ _ h ht => machineStep_inv h ht)
    ⟨(by simp [Machine.init]), (by simp [Machine.init])⟩ hr

/- With nothing left over, what the camera handles is what its process sent. -/
theorem ownMotion_of_inv {p : Process} (h : ProcessInv [] p) (a : ProcessAct) :
    OwnMotion 0 p a := by
  cases a with
  | detection r => trivial
  | detectionExit => trivial
  | cameraExit => trivial
  | camera written =>
    have horder : p.received <+: p.accepted := ⟨p.queue.messages, h.order⟩
    refine ⟨fun hpc => ?_, fun hpc => ?_⟩
    · have hlast := h.handled .motionDetected (by rw [hpc]; rfl)
      exact horder.subset (List.mem_of_getLast? hlast)
    · have hlast := h.handled .motionLost (by rw [hpc]; rfl)
      obtain ⟨earlier, hreceived⟩ := List.getLast?_eq_some_iff.mp hlast
      refine ⟨earlier.length, by simp [hreceived], ?_⟩
      obtain ⟨rest, hrest⟩ := horder
      rw [← hrest, hreceived]
      simp

/- The first three statements of the camera receive the first message. -/
theorem start_receives {q : Mqueue Event} (hq : QueueOk q) {event : Event} {rest : List Event}
    (h : q.messages = event :: rest) :
    run processStep (.start (some q)) (List.replicate 3 (.camera .ignore)) = some
      { detector := .start
        camera := ⟨.eventSwitch, ⟨.idle, 0, [.on]⟩, event, 0⟩
        queue := { q with messages := rest }
        accepted := []
        received := [event] } := by
  have hreceive := Mqueue.osalQueueReceive_cons hq.msgsize.symm h
  have hfirst : run processStep (.start (some q)) (List.replicate 2 (.camera .ignore)) = some
      ⟨.start, ⟨.receive, ⟨.idle, 0, [.on]⟩, .none, 0⟩, q, [], []⟩ := rfl
  have hlast : processStep ⟨.start, ⟨.receive, ⟨.idle, 0, [.on]⟩, .none, 0⟩, q, [], []⟩
      (.camera .ignore) = some ⟨.start, ⟨.eventSwitch, ⟨.idle, 0, [.on]⟩, event, 0⟩,
        { q with messages := rest }, [], [event]⟩ := by
    simp [processStep, Process.receive, hreceive, processEventQueue_cons hq.msgsize h,
      CameraThread.taskStep]
  rw [show List.replicate 3 (ProcessAct.camera .ignore) =
    List.replicate 2 (.camera .ignore) ++ [.camera .ignore] from rfl, run_append_some _ hfirst,
    run_cons_some _ hlast, run_nil]

/- A message left over is acted on before the detector has run at all. -/
theorem leftover_acted_on {q : Mqueue Event} (hq : QueueOk q) {event : Event} {rest : List Event}
    (h : q.messages = event :: rest) :
    ¬ Along processStep (OwnMotion q.messages.length) (.start (some q))
      (List.replicate 6 (.camera .ignore)) := by
  intro hall
  have hrest := Along.after (m := List.replicate 3 (.camera .ignore)) hall (start_receives hq h)
  cases event with
  | none =>
    apply hq.events
    rw [h]
    exact List.mem_cons_self
  | motionDetected =>
    have hlast := ((hrest.2 _ rfl).2 _ rfl).1.1 rfl
    cases hlast
  | motionLost =>
    obtain ⟨i, hi, hsent⟩ := ((hrest.2 _ rfl).2 _ rfl).1.2 rfl
    cases hsent

/-- After any history of earlier processes, every run of the present one acts on
motion of its own only, exactly if they left nothing in the queue. -/
theorem own_motion_iff (history : List MachineAct) (m : Machine)
    (hr : run machineStep .init history = some m) :
    (∀ acts, Along processStep (OwnMotion m.leftover.length) (.start m.named) acts) ↔
      m.leftover = [] := by
  have hinv := history_inv hr
  constructor
  · intro hall
    cases hq : m.named with
    | none => simp [Machine.leftover, hq]
    | some q =>
      have hleftover : m.leftover = q.messages := by simp [Machine.leftover, hq]
      cases hmessages : q.messages with
      | nil => exact hleftover.trans hmessages
      | cons event rest =>
        have h := hall (List.replicate 6 (.camera .ignore))
        rw [hleftover, hq] at h
        exact absurd h (leftover_acted_on (hinv.named q hq) hmessages)
  · intro hempty acts
    have hstart := start_inv hinv.named
    rw [show (m.named.map Mqueue.messages).getD [] = [] from hempty] at hstart
    rw [hempty]
    exact along_of_inv (ProcessInv []) (fun _ _ _ h ht => processStep_inv h ht)
      (fun _ a h => ownMotion_of_inv h a) hstart acts

/-- A process whose detector has sent `EVENT_MOTION_DETECTED`, ended before its
camera received it. -/
def endedEarly : List MachineAct :=
  .start :: List.replicate 8 (.act (.detection ⟨1, ⟨0, 0⟩⟩)) ++ [.stop]

theorem own_motion_emptied :
    Along processStep (OwnMotion 0) (.start (some ⟨10, sizeofEvent, []⟩))
      (List.replicate 8 (.detection ⟨1, ⟨0, 0⟩⟩) ++ List.replicate 6 (.camera .ignore)) :=
  (own_motion_iff [.start, .act (.camera .ignore), .stop]
    ⟨some ⟨10, sizeofEvent, []⟩, none⟩ rfl).mpr rfl _

/-- The next process starts capturing although its detector never ran. -/
theorem capture_on_leftover :
    (run machineStep .init endedEarly).map Machine.leftover = some [.motionDetected] ∧
      ((run machineStep .init endedEarly).bind fun m =>
        run processStep (.start m.named) (List.replicate 6 (.camera .ignore))).map
          (fun p => (p.camera.task.state, p.detector, p.accepted)) =
        some (.capturing, .start, []) := by
  decide

end MotionDetector.Events
