import MotionDetector.Camera.Shutdown
import MotionDetector.Detection.Shutdown
import MotionDetector.Shutdown.ExitFlags
import MotionDetector.Pipeline.System

/-!
# The pipeline statement by statement

The four tasks of the program, each at one of its statements, over the queue and
the two rings that they share. A step is one statement of one task, in any order;
a call of a function of the queue or of a ring is one statement.
-/

namespace MotionDetector.Pipeline

open Detection Camera Transcoder Nvm

variable {n : ℕ}

/-- What the tasks read, by the number of the pass or of the call: the samples and
the clock, the system calls of `framebuffer_writeframe` and of `image_save`, and
what the local `rgbFrame` holds at the start of `process_frames`. -/
structure Inputs (n : ℕ) where
  rd : ℕ → Reading
  io : ℕ → Capture
  calls : ℕ → SaveCalls
  rgbFrame : ℕ → Frame n

/-- `rawFrame`, `rgbFrame` and `saveFrame` are locals of the transcoder and the nvm
task. The last four fields keep what was sent, received, taken and handed on. -/
structure Tasks (n : ℕ) where
  detection : DetectionThread
  camera : CameraThread
  transcoder : TranscoderThread
  rawFrame : ℕ
  rgbFrame : Frame n
  nvm : NvmThread
  saveFrame : ℕ
  queue : Mqueue Event
  capture : CaptureStore n
  imageBuffer : RingBuffer (Frame n)
  sockfd : ℤ
  sends : List (Event × SysResult)
  received : List Event
  taken : List (Frame n × ℕ)
  handed : List (Handed n)

inductive Task where
  | detection
  | camera
  | transcoder
  | nvm
  deriving DecidableEq, Repr

/-- The event that the statement hands to `osal_queue_send`. -/
def sentBy : DetectionPc → Option Event
  | .sendDetected => some .motionDetected
  | .sendLost => some .motionLost
  | _ => none

/-- What the statement does to the buffer of `framebuffer_writeframe`. -/
def writes {ε β : Type*} (writeframe : ε → Bool → β → SysResult × β) (io : ε) (pc : CameraPc)
    (buf : β) : β :=
  match pc with
  | .writeIdle => (writeframe io false buf).2
  | .writeCapturing => (writeframe io true buf).2
  | _ => buf

namespace Tasks

def init : Tasks n where
  detection := .start
  camera := .start
  transcoder := .start
  rawFrame := 0
  rgbFrame := .zero
  nvm := .start
  saveFrame := 0
  queue := ⟨10, sizeofEvent, []⟩
  capture := ⟨.init (fun _ => .zero) 128, [], []⟩
  imageBuffer := .init (fun _ => .zero) 256
  sockfd := -1
  sends := []
  received := []
  taken := []
  handed := []

def detectionStep (inp : Inputs n) (s : Tasks n) : Tasks n :=
  let t := { s with detection := s.detection.taskStep inp.rd }
  match sentBy s.detection.pc with
  | none => t
  | some event =>
    { t with
      queue := (s.queue.osalQueueSend event sizeofEvent).2
      sends := s.sends ++ [(event, (s.queue.osalQueueSend event sizeofEvent).1)] }

def cameraStep (inp : Inputs n) (s : Tasks n) : Tasks n :=
  let io := inp.io s.camera.pass
  let seen : PassInput :=
    ⟨(processEventQueue s.queue).1, (CaptureStore.writeframe io true s.capture).1⟩
  let t := { s with
    camera := s.camera.taskStep fun _ => seen
    capture := writes CaptureStore.writeframe io s.camera.pc s.capture }
  match s.camera.pc with
  | .receive =>
    { t with
      queue := (processEventQueue s.queue).2
      received := s.received ++ (s.queue.osalQueueReceive sizeofEvent).2.1.toList }
  | _ => t

def transcoderStep (lut : ColorLut) (inp : Inputs n) (s : Tasks n) : Tasks n :=
  let got := framebufferGetframePtr s.capture.ring
  let t := { s with transcoder := s.transcoder.taskStep fun _ => got.1 }
  match s.transcoder.pc with
  | .getframe =>
    { t with rawFrame := got.2.getD s.rawFrame, rgbFrame := inp.rgbFrame s.transcoder.calls }
  | .convert =>
    { t with
      rgbFrame := Frame.load (imageConvert lut n PIXEL_FORMAT_CAMERA V4L2_PIX_FMT_RGB888
        (s.capture.ring.data s.rawFrame).memory s.rgbFrame.memory).2 }
  | .write =>
    { t with
      imageBuffer := (imagebufferWrite s.rgbFrame s.imageBuffer).2
      taken := s.taken ++ [(s.capture.ring.data s.rawFrame, s.imageBuffer.getlen.toNat)] }
  | .freeframe =>
    { t with capture := { s.capture with ring := (framebufferFreeframe s.capture.ring).2 } }
  | _ => t

/-- No state where `image_save` makes more calls of `sendto` than it is given
results for. -/
def nvmStep (inp : Inputs n) (s : Tasks n) : Option (Tasks n) :=
  let reads (result : SysResult) := s.nvm.taskStep ⟨fun _ => result, fun _ => result⟩
  match s.nvm.pc with
  | .startread =>
    let got := imagebufferStartread s.imageBuffer
    some { s with nvm := reads got.1, saveFrame := got.2.getD s.saveFrame }
  | .save =>
    match MotionDetector.imageSave s.sockfd n (inp.calls s.nvm.saves) with
    | (some result, sockfd, sends) =>
      some { s with
        nvm := reads result
        sockfd := sockfd
        handed := s.handed ++ [⟨s.imageBuffer.data s.saveFrame, result, sends⟩] }
    | _ => none
  | .endread =>
    some { s with nvm := reads .success, imageBuffer := (imagebufferEndread s.imageBuffer).2 }
  | _ => some { s with nvm := reads .success }

def step (lut : ColorLut) (inp : Inputs n) (s : Tasks n) : Task → Option (Tasks n)
  | .detection => some (s.detectionStep inp)
  | .camera => some (s.cameraStep inp)
  | .transcoder => some (s.transcoderStep lut inp)
  | .nvm => s.nvmStep inp

/-- The nvm task as the passes see it. -/
def nvmPc (s : Tasks n) : NvmPc :=
  match s.nvm.pc with
  | .save => .holding s.saveFrame
  | .traceError => .saved
  | .endread => .saved
  | _ => .idle

/-- The state of the passes, where no task is inside one. -/
def system (s : Tasks n) : System n where
  events := ⟨s.detection.fsm, s.queue, s.camera.task, s.capture, s.sends, s.received⟩
  imageBuffer := s.imageBuffer
  nvm := s.nvmPc
  sockfd := s.sockfd
  taken := s.taken
  handed := s.handed

/-- The transcoder holds a frame of the incoming ring. -/
def holds : TranscoderPc → Bool
  | .convert | .write | .freeframe => true
  | _ => false

/-- The detector and the camera are at the test of their loops and the transcoder
holds no frame. -/
def Quiet (s : Tasks n) : Prop :=
  s.detection.pc = .loopTest ∧ s.camera.pc = .loopTest ∧ holds s.transcoder.pc = false

instance (s : Tasks n) : Decidable s.Quiet := inferInstanceAs (Decidable (_ ∧ _))

end Tasks

/-! ### The rest of a pass of the detector -/

/-- The FSM at the end of the pass, and the events that are still to be sent. -/
def detectionRest (rd : ℕ → Reading) (t : DetectionThread) : DetectionFsm × List Event :=
  let clock := (rd t.pass).clock
  match t.pc with
  | .loopTest => detectionIteration (rd t.pass) t.fsm
  | .readGpio => detectionSwitch clock (processNextState (rd t.pass).curStatus t.fsm)
  | .risingTest => detectionSwitch clock (processNextState t.curStatus t.fsm)
  | .cancelTest | .setMotionDetected =>
    detectionSwitch clock (setDetectionState .motionDetected t.fsm)
  | .fallingTest =>
    detectionSwitch clock
      (if t.curStatus = 0 ∧ t.fsm.motionDetected = true then
        let s := { t.fsm with motionDetected := false }
        if s.detectionState ≠ .timeout then
          setDetectionState .timeout { s with detectionSubstate := .entry }
        else s
      else t.fsm)
  | .clearFlag =>
    let s := { t.fsm with motionDetected := false }
    detectionSwitch clock
      (if s.detectionState ≠ .timeout then
        setDetectionState .timeout { s with detectionSubstate := .entry }
      else s)
  | .timeoutTest =>
    detectionSwitch clock
      (if t.fsm.detectionState ≠ .timeout then
        setDetectionState .timeout { t.fsm with detectionSubstate := .entry }
      else t.fsm)
  | .setEntry =>
    detectionSwitch clock (setDetectionState .timeout { t.fsm with detectionSubstate := .entry })
  | .setTimeout => detectionSwitch clock (setDetectionState .timeout t.fsm)
  | .stateSwitch => detectionSwitch clock t.fsm
  | .detectedFlag =>
    (setDetectionState .detecting { t.fsm with motionDetected := true }, [.motionDetected])
  | .sendDetected => (setDetectionState .detecting t.fsm, [.motionDetected])
  | .lostFlag =>
    (setDetectionState .detecting { t.fsm with motionDetected := false }, [.motionLost])
  | .sendLost => (setDetectionState .detecting t.fsm, [.motionLost])
  | .detectedDone | .lostDone => (setDetectionState .detecting t.fsm, [])
  | .substateSwitch => (timeoutSwitch clock t.fsm, [])
  | .entryRun => ({ t.fsm with detectionSubstate := .run, timeoutStart := clock }, [])
  | .entryClock => ({ t.fsm with timeoutStart := clock }, [])
  | .runClock =>
    (if 5 ≤ elapsed clock t.fsm.timeoutStart then { t.fsm with detectionSubstate := .exit }
      else t.fsm, [])
  | .runTest =>
    (if 5 ≤ elapsed t.current t.fsm.timeoutStart then { t.fsm with detectionSubstate := .exit }
      else t.fsm, [])
  | .runExit => ({ t.fsm with detectionSubstate := .exit }, [])
  | .exitFlag => (setDetectionState .motionLost { t.fsm with motionDetected := false }, [])
  | .exitLost => (setDetectionState .motionLost t.fsm, [])
  | .delay | .ended => (t.fsm, [])

/- A statement that sends nothing leaves the rest of the pass to be the same. -/
theorem detectionRest_step (rd : ℕ → Reading) {t : DetectionThread} (hpc : t.pc ≠ .delay)
    (hsent : sentBy t.pc = none) : detectionRest rd (t.taskStep rd) = detectionRest rd t := by
  obtain ⟨pc, ⟨flag, state, substate, timeoutStart⟩, curStatus, current, pass, sends⟩ := t
  cases pc with
  | loopTest =>
    by_cases hs : state = .exit
    · subst hs
      rfl
    · simp [DetectionThread.taskStep, DetectionThread.goto, detectionRest, detectionIteration, hs]
  | risingTest =>
    by_cases h : curStatus ≠ 0 ∧ flag = false
    · simp [DetectionThread.taskStep, DetectionThread.goto, detectionRest, processNextState, h]
    · simp only [DetectionThread.taskStep, DetectionThread.goto, detectionRest, processNextState,
        if_neg h]
  | fallingTest =>
    by_cases h : curStatus = 0 ∧ flag = true
    · simp [DetectionThread.taskStep, DetectionThread.goto, detectionRest, h]
    · simp only [DetectionThread.taskStep, DetectionThread.goto, detectionRest, if_neg h]
  | timeoutTest =>
    by_cases h : state = .timeout
    · simp [DetectionThread.taskStep, DetectionThread.goto, detectionRest, h]
    · simp [DetectionThread.taskStep, DetectionThread.goto, detectionRest, h]
  | stateSwitch => cases state <;> rfl
  | substateSwitch => cases substate <;> rfl
  | runTest =>
    by_cases h : 5 ≤ elapsed current timeoutStart
    · simp [DetectionThread.taskStep, DetectionThread.goto, detectionRest, h]
    · simp [DetectionThread.taskStep, DetectionThread.goto, detectionRest, h]
  | delay => exact absurd rfl hpc
  | sendDetected => cases hsent
  | sendLost => cases hsent
  | _ => rfl

theorem detectionRest_sent (rd : ℕ → Reading) {t : DetectionThread} {event : Event}
    (hsent : sentBy t.pc = some event) :
    ∃ fsm, detectionRest rd t = (fsm, [event]) ∧
      detectionRest rd (t.taskStep rd) = (fsm, []) := by
  obtain ⟨pc, fsm, curStatus, current, pass, sends⟩ := t
  cases pc with
  | sendDetected =>
    cases hsent
    exact ⟨_, rfl, rfl⟩
  | sendLost =>
    cases hsent
    exact ⟨_, rfl, rfl⟩
  | _ => cases hsent

/-! ### The rest of a pass of the camera -/

/-- The camera has received its event and not come to `framebuffer_writeframe`. -/
def inPass : CameraPc → Bool
  | .eventSwitch | .idleTest | .setCapturing | .exitTest | .setIdle => true
  | .stateSwitch | .writeIdle | .writeCapturing => true
  | _ => false

section Camera

variable {ε β : Type*} {writeframe : ε → Bool → β → SysResult × β} {io : ε}

/-- The task and the buffer at the end of the pass. -/
def cameraRest (writeframe : ε → Bool → β → SysResult × β) (io : ε) (t : CameraThread) (buf : β) :
    CameraTask × β :=
  match t.pc with
  | .eventSwitch =>
    stateSwitch writeframe io { t.task with state := eventSwitch t.event t.task.state } buf
  | .idleTest =>
    stateSwitch writeframe io
      { t.task with state := if t.task.state = .idle then .capturing else t.task.state } buf
  | .setCapturing => stateSwitch writeframe io { t.task with state := .capturing } buf
  | .exitTest =>
    stateSwitch writeframe io
      { t.task with state := if t.task.state ≠ .exit then .idle else t.task.state } buf
  | .setIdle => stateSwitch writeframe io { t.task with state := .idle } buf
  | .stateSwitch => stateSwitch writeframe io t.task buf
  | .writeIdle => (t.task, (writeframe io false buf).2)
  | .writeCapturing =>
    match writeframe io true buf with
    | (.success, buf') => ({ t.task with numWrites := t.task.numWrites + 1 }, buf')
    | (_, buf') => (t.task, buf')
  | .count => ({ t.task with numWrites := t.task.numWrites + 1 }, buf)
  | .captureOn =>
    ({ t.task with capturestates := t.task.capturestates ++ [.on] }, buf)
  | .captureOff =>
    ({ t.task with state := .exit, capturestates := t.task.capturestates ++ [.off] }, buf)
  | .setExit => ({ t.task with state := .exit }, buf)
  | .loopTest | .receive | .delay | .ended => (t.task, buf)

/- Only the test behind `framebuffer_writeframe` looks at its result. -/
theorem cameraRest_step (writeframe : ε → Bool → β → SysResult × β) (io : ε)
    {t : CameraThread} {x : PassInput} (buf : β) (hpc : t.pc ≠ .receive)
    (hx : t.pc = .writeCapturing → x.written = (writeframe io true buf).1) :
    cameraRest writeframe io (t.taskStep fun _ => x) (writes writeframe io t.pc buf) =
      cameraRest writeframe io t buf := by
  obtain ⟨pc, ⟨state, numWrites, capturestates⟩, received, pass⟩ := t
  cases pc with
  | loopTest =>
    by_cases h : state = .exit
    · simp [CameraThread.taskStep, CameraThread.goto, cameraRest, writes, h]
    · simp [CameraThread.taskStep, CameraThread.goto, cameraRest, writes, h]
  | eventSwitch => cases received <;> rfl
  | idleTest =>
    by_cases h : state = .idle
    · simp [CameraThread.taskStep, CameraThread.goto, cameraRest, writes, h]
    · simp [CameraThread.taskStep, CameraThread.goto, cameraRest, writes, h]
  | exitTest =>
    by_cases h : state = .exit
    · simp [CameraThread.taskStep, CameraThread.goto, cameraRest, writes, h]
    · simp [CameraThread.taskStep, CameraThread.goto, cameraRest, writes, h]
  | stateSwitch => cases state <;> rfl
  | writeCapturing =>
    have hx := hx rfl
    rcases hw : writeframe io true buf with ⟨result, buf'⟩
    rw [hw] at hx
    cases result with
    | success => simp [CameraThread.taskStep, CameraThread.goto, cameraRest, writes, hw, hx]
    | failure => simp [CameraThread.taskStep, CameraThread.goto, cameraRest, writes, hw, hx]
    | ignore => simp [CameraThread.taskStep, CameraThread.goto, cameraRest, writes, hw, hx]
  | receive => exact absurd rfl hpc
  | _ => rfl

/-- The camera is not in a pass: it has not received an event. -/
def beforePass : CameraPc → Bool
  | .captureOn | .loopTest | .receive | .ended => true
  | _ => false

/-- `framebuffer_writeframe` is behind it. -/
def afterPass : CameraPc → Bool
  | .count | .captureOff | .setExit | .delay => true
  | _ => false

theorem not_inPass_of_before {pc : CameraPc} (h : beforePass pc = true) : inPass pc = false := by
  cases pc with
  | captureOn => rfl
  | loopTest => rfl
  | receive => rfl
  | ended => rfl
  | _ => cases h

theorem not_inPass_of_after {pc : CameraPc} (h : afterPass pc = true) : inPass pc = false := by
  cases pc with
  | count => rfl
  | captureOff => rfl
  | setExit => rfl
  | delay => rfl
  | _ => cases h

def isWrite : CameraPc → Bool
  | .writeIdle | .writeCapturing => true
  | _ => false

theorem not_isWrite_of_before {pc : CameraPc} (h : beforePass pc = true) :
    isWrite pc = false := by
  cases pc with
  | writeIdle => cases h
  | writeCapturing => cases h
  | _ => rfl

theorem not_isWrite_of_after {pc : CameraPc} (h : afterPass pc = true) : isWrite pc = false := by
  cases pc with
  | writeIdle => cases h
  | writeCapturing => cases h
  | _ => rfl

theorem writes_of_not {pc : CameraPc} (h : isWrite pc = false) (buf : β) :
    writes writeframe io pc buf = buf := by
  cases pc with
  | writeIdle => cases h
  | writeCapturing => cases h
  | _ => rfl

theorem cameraRest_after {t : CameraThread} (h : afterPass t.pc = true) (buf buf' : β) :
    (cameraRest writeframe io t buf).2 = buf ∧
      (cameraRest writeframe io t buf).1 = (cameraRest writeframe io t buf').1 := by
  obtain ⟨pc, task, event, pass⟩ := t
  cases pc with
  | count => exact ⟨rfl, rfl⟩
  | captureOff => exact ⟨rfl, rfl⟩
  | setExit => exact ⟨rfl, rfl⟩
  | delay => exact ⟨rfl, rfl⟩
  | _ => cases h

/- The pass goes on, or `framebuffer_writeframe` or a state without it is behind. -/
theorem inPass_step {t : CameraThread} (h : inPass t.pc = true) (x : PassInput) :
    (t.taskStep fun _ => x).pass = t.pass ∧
      (inPass (t.taskStep fun _ => x).pc = true ∧ isWrite t.pc = false ∨
        afterPass (t.taskStep fun _ => x).pc = true) := by
  obtain ⟨pc, ⟨state, numWrites, capturestates⟩, event, pass⟩ := t
  cases pc with
  | eventSwitch => cases event <;> exact ⟨rfl, .inl ⟨rfl, rfl⟩⟩
  | idleTest =>
    refine ⟨rfl, .inl ⟨?_, rfl⟩⟩
    simp only [CameraThread.taskStep, CameraThread.goto]
    split <;> rfl
  | setCapturing => exact ⟨rfl, .inl ⟨rfl, rfl⟩⟩
  | exitTest =>
    refine ⟨rfl, .inl ⟨?_, rfl⟩⟩
    simp only [CameraThread.taskStep, CameraThread.goto]
    split <;> rfl
  | setIdle => exact ⟨rfl, .inl ⟨rfl, rfl⟩⟩
  | stateSwitch =>
    cases state with
    | idle => exact ⟨rfl, .inl ⟨rfl, rfl⟩⟩
    | capturing => exact ⟨rfl, .inl ⟨rfl, rfl⟩⟩
    | exiting => exact ⟨rfl, .inr rfl⟩
    | exit => exact ⟨rfl, .inr rfl⟩
  | writeIdle => exact ⟨rfl, .inr rfl⟩
  | writeCapturing =>
    refine ⟨rfl, .inr ?_⟩
    simp only [CameraThread.taskStep, CameraThread.goto]
    split <;> rfl
  | _ => cases h

theorem afterPass_step {t : CameraThread} (h : afterPass t.pc = true) (x : PassInput) :
    t.pc = .delay ∨
      afterPass (t.taskStep fun _ => x).pc = true ∧ (t.taskStep fun _ => x).pass = t.pass := by
  obtain ⟨pc, task, event, pass⟩ := t
  cases pc with
  | count => exact .inr ⟨rfl, rfl⟩
  | captureOff => exact .inr ⟨rfl, rfl⟩
  | setExit => exact .inr ⟨rfl, rfl⟩
  | delay => exact .inl rfl
  | _ => cases h

/- Up to the receive a statement goes on with the loop or leaves it. -/
theorem beforePass_step {t : CameraThread} (h : beforePass t.pc = true) (x : PassInput) :
    t.pc = .receive ∨
      beforePass (t.taskStep fun _ => x).pc = true ∧ (t.taskStep fun _ => x).pass = t.pass ∧
        ((t.taskStep fun _ => x).pc = .receive →
          (t.taskStep fun _ => x).task.state ≠ .exit) := by
  obtain ⟨pc, ⟨state, numWrites, capturestates⟩, event, pass⟩ := t
  cases pc with
  | captureOn => exact .inr ⟨rfl, rfl, fun h => by cases h⟩
  | loopTest =>
    right
    by_cases hs : state = .exit
    · simp [CameraThread.taskStep, CameraThread.goto, beforePass, hs]
    · simp [CameraThread.taskStep, CameraThread.goto, beforePass, hs]
  | receive => exact .inl rfl
  | ended => exact .inr ⟨rfl, rfl, fun h => by cases h⟩
  | _ => cases h

end Camera

end MotionDetector.Pipeline
