import MotionDetector.Pipeline.Backlog
import MotionDetector.Pipeline.Statements

/-!
# The chain of the tasks

The detector and the camera share the queue, the camera and the transcoder the
incoming ring, the transcoder and the nvm task the image buffer. The passes of the
camera and the calls of `process_frames` are put in the order of their effects on
the incoming ring, in the middle. What the detector does after the camera has
received comes behind the pass of the camera, and what the nvm task does after
`imagebuffer_write` behind `process_frames`.
-/

namespace MotionDetector.Pipeline

open Transition RingBuffer Detection Camera Transcoder Nvm

variable {n : ℕ} {lut : ColorLut} {inp : Inputs n}

/-! ### The passes of one task -/

def taskOf : Act n → Task
  | .events (.detection _) => .detection
  | .events (.camera _) => .camera
  | .processFrames _ => .transcoder
  | _ => .nvm

def actsOf (task : Task) (l : List (Act n)) : List (Act n) := l.filter fun x => taskOf x = task

def saveCallsOf : Act n → Option SaveCalls
  | .imageSave calls => some calls
  | _ => none

section Acts

variable {task other : Task} {l l' : List (Act n)} {x : Act n}

@[simp] theorem actsOf_nil : actsOf task ([] : List (Act n)) = [] := rfl

@[simp] theorem actsOf_append : actsOf task (l ++ l') = actsOf task l ++ actsOf task l' :=
  List.filter_append _ _

theorem actsOf_of_forall_ne (h : ∀ x ∈ l, taskOf x ≠ task) : actsOf task l = [] := by
  apply List.filter_eq_nil_iff.mpr
  intro x hx
  rw [decide_eq_true_eq]
  exact h x hx

theorem other_of_only (h : ∀ y ∈ l, taskOf y = other) (hne : other ≠ task) :
    ∀ y ∈ l, taskOf y ≠ task := fun y hy hy' => hne ((h y hy).symm.trans hy')

theorem only_concat (h : ∀ y ∈ l, taskOf y = task) (hx : taskOf x = task) :
    ∀ y ∈ l ++ [x], taskOf y = task := by
  intro y hy
  rcases List.mem_append.mp hy with hy | hy
  · exact h y hy
  · rw [List.mem_singleton.mp hy]
    exact hx

theorem actsOf_singleton : actsOf task [x] = if taskOf x = task then [x] else [] := by
  by_cases h : taskOf x = task
  · simp [actsOf, h]
  · simp [actsOf, h]

theorem actsOf_insert (task : Task) (l l' : List (Act n)) (x : Act n) :
    actsOf task (l ++ x :: l') =
      actsOf task l ++ ((if taskOf x = task then [x] else []) ++ actsOf task l') := by
  rw [← List.singleton_append, actsOf_append, actsOf_append, actsOf_singleton]

theorem actsOf_insert_other (h : taskOf x ≠ task) :
    actsOf task (l ++ x :: l') = actsOf task (l ++ l') := by
  rw [actsOf_insert, if_neg h, List.nil_append, actsOf_append]

/- A pass that no later one of its task follows. -/
theorem actsOf_insert_last (h : taskOf x = task) (hl : ∀ y ∈ l', taskOf y ≠ task) :
    actsOf task (l ++ x :: l') = actsOf task (l ++ l') ++ [x] := by
  rw [actsOf_insert, if_pos h, actsOf_append, actsOf_of_forall_ne hl, List.append_nil,
    List.append_nil]

theorem actsOf_swap {l₁ l₂ : List (Act n)} {task₁ task₂ : Task} (h₁ : ∀ x ∈ l₁, taskOf x = task₁)
    (h₂ : ∀ x ∈ l₂, taskOf x = task₂) (hne : task₁ ≠ task₂) :
    actsOf task (l ++ l₁ ++ l₂) = actsOf task (l ++ l₂ ++ l₁) := by
  simp only [actsOf_append]
  by_cases htask : task₁ = task
  · have hother := other_of_only h₂ (htask ▸ hne.symm)
    rw [actsOf_of_forall_ne hother, List.append_nil, List.append_nil]
  · rw [actsOf_of_forall_ne (other_of_only h₁ htask), List.append_nil, List.append_nil]

end Acts

/-- `b` with the detector and the queue of `e`. -/
def queueOf {β : Type*} (b e : Events.System β) : Events.System β :=
  { b with detector := e.detector, queue := e.queue, sends := e.sends, received := e.received }

theorem send_foldl_queueOf {β : Type*} (events : List Event) (b e : Events.System β) :
    events.foldl Events.System.send (queueOf b e) =
      queueOf b (events.foldl Events.System.send e) := by
  induction events generalizing e with
  | nil => rfl
  | cons event events ih => exact ih (e.send event)

def withQueue (b s : System n) : System n := { b with events := queueOf b.events s.events }

def withEvents (e : Events.System (CaptureStore n)) (s : System n) : System n :=
  { s with events := e }

/- A pass of the detector sees the detector and the queue only. -/
theorem detector_frame (lut : ColorLut) (b s : System n) {x : Act n} (hx : taskOf x = .detection) :
    step lut (withQueue b s) x = (step lut s x).map (withQueue b) := by
  cases x with
  | events a =>
    cases a with
    | detection r =>
      simp only [step, Events.step, Option.map_some, withQueue]
      rw [← send_foldl_queueOf]
      rfl
    | camera io => cases hx
  | processFrames rgbFrame => cases hx
  | startread => cases hx
  | imageSave calls => cases hx
  | endread => cases hx

/- A step of the nvm task does not see the queue and the incoming ring. -/
theorem nvm_frame (lut : ColorLut) (e : Events.System (CaptureStore n)) (s : System n)
    {x : Act n} (hx : taskOf x = .nvm) :
    step lut (withEvents e s) x = (step lut s x).map (withEvents e) := by
  cases x with
  | events a => cases a <;> cases hx
  | processFrames rgbFrame => cases hx
  | startread =>
    simp only [step, withEvents]
    split
    · split <;> rfl
    · rfl
  | imageSave calls =>
    simp only [step, withEvents]
    split
    · split <;> rfl
    · rfl
  | endread =>
    simp only [step, withEvents]
    split <;> rfl

/-! ### The tasks against the passes -/

/-- The passes behind the receive of the camera. -/
def opened (pc : CameraPc) (a : System n) : System n :=
  if inPass pc then
    { a with events :=
      { a.events with
        queue := (processEventQueue a.events.queue).2
        received := a.events.received ++
          (a.events.queue.osalQueueReceive sizeofEvent).2.1.toList } }
  else a

/-- The passes behind the `imagebuffer_write` of the transcoder. -/
def written (pc : TranscoderPc) (slot : ℕ) (a : System n) : System n :=
  if pc = .freeframe then
    { a with
      imageBuffer := (imagebufferWrite (a.capture.ring.data slot) a.imageBuffer).2
      taken := a.taken ++ [(a.capture.ring.data slot, a.imageBuffer.getlen.toNat)] }
  else a

/-- A pass of the detector counts from its send on, or from its end if it sends
nothing. -/
inductive DetectorAt (rd : ℕ → Reading) (t : DetectionThread) (d : DetectionFsm) : ℕ → Prop
  | before (rest : detectionRest rd t = detectionIteration (rd t.pass) d)
      (start : t.pc = .loopTest → t.fsm = d) : DetectorAt rd t d t.pass
  | after (rest : detectionRest rd t = (d, [])) (inside : t.pc ≠ .loopTest) :
      DetectorAt rd t d (t.pass + 1)

/-- A pass of the camera counts once `framebuffer_writeframe` is behind it. -/
inductive CameraAt (io : ℕ → Capture) (t : CameraThread)
    (e : Events.System (CaptureStore n)) : ℕ → Prop
  | before (pc : beforePass t.pc = true)
      (task : ∀ buf : CaptureStore n,
        (cameraRest CaptureStore.writeframe (io t.pass) t buf).1 = e.camera)
      (alive : t.pc = .receive → t.task.state ≠ .exit) : CameraAt io t e t.pass
  | inside (pc : inPass t.pc = true)
      (rest : ∀ buf : CaptureStore n,
        cameraIteration CaptureStore.writeframe (io t.pass) e.camera e.queue buf =
          ((cameraRest CaptureStore.writeframe (io t.pass) t buf).1,
            (processEventQueue e.queue).2,
            (cameraRest CaptureStore.writeframe (io t.pass) t buf).2)) : CameraAt io t e t.pass
  | after (pc : afterPass t.pc = true)
      (task : ∀ buf : CaptureStore n,
        (cameraRest CaptureStore.writeframe (io t.pass) t buf).1 = e.camera) :
      CameraAt io t e (t.pass + 1)

/-- `late` are the passes of the detector since the camera received. -/
structure DetectorView (lut : ColorLut) (s : Tasks n) (a e : System n) (late : List (Act n)) :
    Prop where
  none : inPass s.camera.pc = false → late = []
  only : ∀ x ∈ late, taskOf x = .detection
  ran : run (step lut) (opened s.camera.pc a) late = some e
  queue : s.queue = e.events.queue
  sends : s.sends = e.events.sends
  received : s.received = e.events.received

/-- The frame that the transcoder holds is the next one of the incoming ring, and its
call does not count yet. -/
structure TranscoderView (s : Tasks n) (k : ℕ) : Prop where
  calls : k + (if Tasks.holds s.transcoder.pc then 1 else 0) = s.transcoder.calls
  frame : Tasks.holds s.transcoder.pc = true →
    framebufferGetframePtr s.capture.ring = (.success, some s.rawFrame)
  converted : s.transcoder.pc = .write → s.rgbFrame = s.capture.ring.data s.rawFrame

/-- `late` are the steps of the nvm task since the transcoder wrote. -/
structure NvmView (lut : ColorLut) (s : Tasks n) (a v : System n) (late : List (Act n)) :
    Prop where
  none : s.transcoder.pc ≠ .freeframe → late = []
  only : ∀ x ∈ late, taskOf x = .nvm
  ran : run (step lut) (written s.transcoder.pc s.rawFrame a) late = some v
  imageBuffer : s.imageBuffer = v.imageBuffer
  nvm : s.nvmPc = v.nvm
  sockfd : s.sockfd = v.sockfd
  taken : s.taken = v.taken
  handed : s.handed = v.handed

/-- Each task has made its passes and calls with its own inputs, in order: `i` those of
the detector, `j` those of the camera and `k` calls of `process_frames`. -/
structure Counted (inp : Inputs n) (t : NvmThread) (l : List (Act n)) (i j k : ℕ) : Prop where
  detection : actsOf .detection l = (List.range i).map fun k => .events (.detection (inp.rd k))
  camera : actsOf .camera l = (List.range j).map fun k => .events (.camera (inp.io k))
  transcoder : actsOf .transcoder l = (List.range k).map fun k => .processFrames (inp.rgbFrame k)
  saves : (actsOf .nvm l).filterMap saveCallsOf = (List.range t.saves).map inp.calls
  reads : (actsOf .nvm l).countP isStartread = t.reads

/-- `l` are the passes made, `late` and `late'` those held back. -/
structure Matched (lut : ColorLut) (inp : Inputs n) (s : Tasks n)
    (l late late' : List (Act n)) (a e v : System n) (i j k : ℕ) : Prop where
  ran : run (step lut) .init l = some a
  capture : s.capture = a.capture
  detection : DetectorView lut s a e late
  detector : DetectorAt inp.rd s.detection e.events.detector i
  camera : CameraAt inp.io s.camera a.events j
  transcoder : TranscoderView s k
  nvm : NvmView lut s a v late'
  counted : Counted inp s.nvm (l ++ late ++ late') i j k

def Serial (lut : ColorLut) (inp : Inputs n) (s : Tasks n) : Prop :=
  ∃ l late late' a e v i j k, Matched lut inp s l late late' a e v i j k

section Views

variable {s t : Tasks n} {l late late' : List (Act n)} {a b e v : System n} {i j : ℕ}

theorem withQueue_opened (pc : CameraPc) (a b : System n) :
    withQueue b (opened pc a) = opened pc (withQueue b a) := by
  unfold opened
  split
  · rfl
  · rfl

theorem withEvents_written {pc : TranscoderPc} {slot : ℕ} {ev : Events.System (CaptureStore n)}
    (hslot : pc = .freeframe → ev.buffer.ring.data slot = a.capture.ring.data slot) :
    withEvents ev (written pc slot a) = written pc slot (withEvents ev a) := by
  unfold written
  split
  · next hpc =>
    have hdata : (withEvents ev a).capture.ring.data slot = a.capture.ring.data slot := hslot hpc
    rw [hdata]
    rfl
  · rfl

theorem written_of_ne {pc : TranscoderPc} (h : pc ≠ .freeframe) (slot : ℕ) (a : System n) :
    written pc slot a = a := if_neg h

theorem opened_of_not (h : inPass s.camera.pc = false) : opened s.camera.pc a = a := by
  rw [opened, h]
  rfl

theorem DetectorView.frame (h : DetectorView lut s a e late) (hb : withQueue b a = b)
    (hpc : inPass t.camera.pc = inPass s.camera.pc) (hqueue : t.queue = s.queue)
    (hsends : t.sends = s.sends) (hreceived : t.received = s.received) :
    DetectorView lut t b (withQueue b e) late where
  none := by
    rw [hpc]
    exact h.none
  only := h.only
  ran := by
    have hopened : opened t.camera.pc b = withQueue b (opened s.camera.pc a) := by
      rw [withQueue_opened, hb, opened, opened, hpc]
    rw [hopened, run_frame (fun u x hx => detector_frame lut b u hx) h.only, h.ran]
    rfl
  queue := hqueue.trans h.queue
  sends := hsends.trans h.sends
  received := hreceived.trans h.received

theorem NvmView.frame (h : NvmView lut s a v late) (ev : Events.System (CaptureStore n))
    (hslot : s.transcoder.pc = .freeframe →
      ev.buffer.ring.data s.rawFrame = a.capture.ring.data s.rawFrame)
    (hpc : t.transcoder.pc = s.transcoder.pc) (hraw : t.rawFrame = s.rawFrame)
    (himage : t.imageBuffer = s.imageBuffer) (hnvm : t.nvmPc = s.nvmPc)
    (hsockfd : t.sockfd = s.sockfd) (htaken : t.taken = s.taken)
    (hhanded : t.handed = s.handed) :
    NvmView lut t (withEvents ev a) (withEvents ev v) late where
  none := by
    rw [hpc]
    exact h.none
  only := h.only
  ran := by
    rw [hpc, hraw, ← withEvents_written hslot,
      run_frame (fun u x hx => nvm_frame lut ev u hx) h.only, h.ran]
    rfl
  imageBuffer := himage.trans h.imageBuffer
  nvm := hnvm.trans h.nvm
  sockfd := hsockfd.trans h.sockfd
  taken := htaken.trans h.taken
  handed := hhanded.trans h.handed

theorem CameraAt.frame {io : ℕ → Capture} {t : CameraThread}
    {ev ev' : Events.System (CaptureStore n)} (h : CameraAt io t ev j)
    (hcamera : ev'.camera = ev.camera) (hqueue : inPass t.pc = true → ev'.queue = ev.queue) :
    CameraAt io t ev' j := by
  cases h with
  | before pc task alive => exact .before pc (fun buf => (task buf).trans hcamera.symm) alive
  | inside pc rest =>
    refine .inside pc fun buf => ?_
    rw [hcamera, hqueue pc]
    exact rest buf
  | after pc task => exact .after pc fun buf => (task buf).trans hcamera.symm

theorem DetectorView.of_not (hnot : inPass s.camera.pc = false)
    (hqueue : s.queue = a.events.queue) (hsends : s.sends = a.events.sends)
    (hreceived : s.received = a.events.received) : DetectorView lut s a a [] where
  none := fun _ => rfl
  only := fun x hx => by cases hx
  ran := by
    rw [opened_of_not hnot]
    rfl
  queue := hqueue
  sends := hsends
  received := hreceived

theorem DetectorView.eq_of_not (h : DetectorView lut s a e late)
    (hnot : inPass s.camera.pc = false) : late = [] ∧ a = e := by
  obtain rfl := h.none hnot
  have hran := h.ran
  rw [opened_of_not hnot] at hran
  exact ⟨rfl, Option.some.inj hran⟩

theorem NvmView.of_ne (hne : s.transcoder.pc ≠ .freeframe)
    (himage : s.imageBuffer = a.imageBuffer) (hnvm : s.nvmPc = a.nvm)
    (hsockfd : s.sockfd = a.sockfd) (htaken : s.taken = a.taken) (hhanded : s.handed = a.handed) :
    NvmView lut s a a [] where
  none := fun _ => rfl
  only := fun x hx => by cases hx
  ran := by
    rw [written_of_ne hne]
    rfl
  imageBuffer := himage
  nvm := hnvm
  sockfd := hsockfd
  taken := htaken
  handed := hhanded

theorem NvmView.eq_of_ne (h : NvmView lut s a v late) (hne : s.transcoder.pc ≠ .freeframe) :
    late = [] ∧ a = v := by
  obtain rfl := h.none hne
  have hran := h.ran
  rw [written_of_ne hne] at hran
  exact ⟨rfl, Option.some.inj hran⟩

/- Of the camera and of the transcoder nothing is held back. -/
theorem Matched.not_held {k : ℕ} (h : Matched lut inp s l late late' a e v i j k) {task : Task}
    (hdetection : .detection ≠ task) (hnvm : .nvm ≠ task) :
    ∀ x ∈ late ++ late', taskOf x ≠ task := by
  intro x hx
  rcases List.mem_append.mp hx with hx | hx
  · exact other_of_only h.detection.only hdetection x hx
  · exact other_of_only h.nvm.only hnvm x hx

end Views

section Counted

variable {t t' : NvmThread} {l l' : List (Act n)} {i j k : ℕ}

theorem range_succ_map {α : Type*} (f : ℕ → α) (k : ℕ) :
    (List.range (k + 1)).map f = (List.range k).map f ++ [f k] := by
  rw [List.range_succ, List.map_append, List.map_singleton]

theorem Counted.of_acts (h : Counted inp t l i j k)
    (hl : ∀ task, actsOf task l' = actsOf task l) : Counted inp t l' i j k :=
  ⟨(hl _).trans h.detection, (hl _).trans h.camera, (hl _).trans h.transcoder,
    (congrArg _ (hl _)).trans h.saves, (congrArg _ (hl _)).trans h.reads⟩

theorem Counted.detects (h : Counted inp t (l ++ l') i j k)
    (hl : ∀ y ∈ l', taskOf y ≠ .detection) :
    Counted inp t (l ++ .events (.detection (inp.rd i)) :: l') (i + 1) j k where
  detection := by rw [actsOf_insert_last (by rfl) hl, h.detection, range_succ_map]
  camera := by
    rw [actsOf_insert_other (by simp [taskOf])]
    exact h.camera
  transcoder := by
    rw [actsOf_insert_other (by simp [taskOf])]
    exact h.transcoder
  saves := by
    rw [actsOf_insert_other (by simp [taskOf])]
    exact h.saves
  reads := by
    rw [actsOf_insert_other (by simp [taskOf])]
    exact h.reads

theorem Counted.captures (h : Counted inp t (l ++ l') i j k)
    (hl : ∀ y ∈ l', taskOf y ≠ .camera) :
    Counted inp t (l ++ .events (.camera (inp.io j)) :: l') i (j + 1) k where
  detection := by
    rw [actsOf_insert_other (by simp [taskOf])]
    exact h.detection
  camera := by rw [actsOf_insert_last (by rfl) hl, h.camera, range_succ_map]
  transcoder := by
    rw [actsOf_insert_other (by simp [taskOf])]
    exact h.transcoder
  saves := by
    rw [actsOf_insert_other (by simp [taskOf])]
    exact h.saves
  reads := by
    rw [actsOf_insert_other (by simp [taskOf])]
    exact h.reads

theorem Counted.processes (h : Counted inp t (l ++ l') i j k)
    (hl : ∀ y ∈ l', taskOf y ≠ .transcoder) :
    Counted inp t (l ++ .processFrames (inp.rgbFrame k) :: l') i j (k + 1) where
  detection := by
    rw [actsOf_insert_other (by simp [taskOf])]
    exact h.detection
  camera := by
    rw [actsOf_insert_other (by simp [taskOf])]
    exact h.camera
  transcoder := by rw [actsOf_insert_last (by rfl) hl, h.transcoder, range_succ_map]
  saves := by
    rw [actsOf_insert_other (by simp [taskOf])]
    exact h.saves
  reads := by
    rw [actsOf_insert_other (by simp [taskOf])]
    exact h.reads

theorem Counted.saves_one (h : Counted inp t (l ++ l') i j k) {x : Act n}
    (hx : taskOf x = .nvm) (hl : ∀ y ∈ l', taskOf y ≠ .nvm)
    (hsaves : (List.range t.saves).map inp.calls ++ [x].filterMap saveCallsOf =
      (List.range t'.saves).map inp.calls)
    (hreads : t.reads + [x].countP isStartread = t'.reads) :
    Counted inp t' (l ++ x :: l') i j k where
  detection := by
    rw [actsOf_insert_other (by simp [hx])]
    exact h.detection
  camera := by
    rw [actsOf_insert_other (by simp [hx])]
    exact h.camera
  transcoder := by
    rw [actsOf_insert_other (by simp [hx])]
    exact h.transcoder
  saves := by
    rw [actsOf_insert_last hx hl, List.filterMap_append, h.saves]
    exact hsaves
  reads := by
    rw [actsOf_insert_last hx hl, List.countP_append, h.reads]
    exact hreads

end Counted

end MotionDetector.Pipeline
