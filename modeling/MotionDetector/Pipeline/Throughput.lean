import MotionDetector.Pipeline.Occupancy
import MotionDetector.Pipeline.Serial

/-!
# Throughput of the pipeline

The frames that are dequeued, taken and handed on, against the posts of the
sequencer: a pass of the camera dequeues one frame at most, a pass of the transcoder
takes two and a pass of the nvm task hands on two.
-/

namespace MotionDetector.Pipeline

open Transition Backlog Osal OsalState Shutdown Detection Camera Transcoder Nvm

variable {n : ℕ} {lut : ColorLut} {inp : Inputs n} {δ : ℕ} {cap : Task → ℕ}

/-! ### Calls that are over -/

/-- Calls of `process_frames`. -/
def servedCalls (t : TranscoderThread) : ℕ := t.calls - if Tasks.holds t.pc then 1 else 0

/-- Reads of the image buffer. -/
def servedReads (t : NvmThread) : ℕ := t.reads - if Tasks.reads t.pc then 1 else 0

theorem TranscoderAt.served {t : TranscoderThread} {w : ℕ} (h : TranscoderAt t w) :
    2 * w ≤ servedCalls t ∧ servedCalls t ≤ 2 * w + 2 := by
  unfold servedCalls
  obtain ⟨pc, exitTask, i, calls⟩ := t
  cases pc with
  | ended => exact h.elim
  | _ =>
    simp only [TranscoderAt] at h
    simp only [Tasks.holds, Bool.false_eq_true, if_false, if_true]
    omega

theorem NvmAt.served {t : NvmThread} {w : ℕ} (h : NvmAt t w) :
    2 * w ≤ servedReads t ∧ servedReads t ≤ 2 * w + 2 := by
  unfold servedReads
  obtain ⟨pc, exitTask, i, reads, saves, closed⟩ := t
  cases pc with
  | close => exact h.elim
  | ended => exact h.elim
  | _ =>
    simp only [NvmAt] at h
    simp only [Tasks.reads, Bool.false_eq_true, if_false, if_true]
    omega

section Served

variable {s t : Tasks n} {w : ℕ}

theorem getframePtr_result (b : RingBuffer (Frame n)) :
    (framebufferGetframePtr b).1 = if b.isEmpty then .ignore else .success := by
  unfold framebufferGetframePtr
  split <;> rfl

theorem startread_result (b : RingBuffer (Frame n)) :
    (imagebufferStartread b).1 = if b.isEmpty then .ignore else .success := by
  unfold imagebufferStartread
  cases b.isEmpty <;> rfl

theorem transcoder_served (h : TranscoderAt s.transcoder w) :
    servedCalls (s.transcoderStep lut inp).transcoder =
      servedCalls s.transcoder + if s.captureMove inp .transcoder = .serve then 1 else 0 := by
  have hnext : (s.transcoderStep lut inp).transcoder =
      s.transcoder.taskStep fun _ => (framebufferGetframePtr s.capture.ring).1 := by
    unfold Tasks.transcoderStep
    split <;> rfl
  rw [hnext]
  unfold Tasks.captureMove servedCalls
  rw [getframePtr_result]
  generalize s.transcoder = thread at h ⊢
  obtain ⟨pc, exitTask, i, calls⟩ := thread
  cases pc with
  | exitTest => cases exitTask <;> rfl
  | forTest =>
    simp only [TranscoderThread.taskStep, TranscoderThread.goto]
    split <;> rfl
  | getframe =>
    simp only [TranscoderThread.taskStep]
    cases s.capture.ring.isEmpty with
    | true => rfl
    | false => rfl
  | freeframe =>
    have hcalls : calls = 2 * w + i + 1 := h.2
    show calls - 0 = calls - 1 + 1
    omega
  | _ => rfl

theorem nvm_served (h : NvmAt s.nvm w) (ht : s.nvmStep inp = some t) :
    servedReads t.nvm = servedReads s.nvm + if s.imageMove .nvm = .serve then 1 else 0 := by
  obtain ⟨result, hnext, -, -, -, hresult⟩ := nvmStep_thread ht
  rw [hnext]
  rw [startread_result] at hresult
  unfold Tasks.imageMove servedReads
  generalize s.nvm = thread at h hresult ⊢
  obtain ⟨pc, exitTask, i, reads, saves, closed⟩ := thread
  cases pc with
  | forTest =>
    simp only [NvmThread.taskStep, NvmThread.goto]
    split <;> rfl
  | startread =>
    simp only [NvmThread.taskStep, hresult rfl]
    cases s.imageBuffer.isEmpty with
    | true => rfl
    | false => rfl
  | save =>
    simp only [NvmThread.taskStep]
    split <;> rfl
  | endread =>
    have hreads : reads = 2 * w + i + 1 := h.2
    show reads - 0 = reads - 1 + 1
    omega
  | exitTest =>
    simp only [NvmThread.taskStep, NvmThread.goto]
    split <;> rfl
  | _ => rfl

theorem step_servedCalls {task : Task} (h : TranscoderAt s.transcoder w)
    (ht : s.step lut inp task = some t) :
    servedCalls t.transcoder =
      servedCalls s.transcoder + if s.captureMove inp task = .serve then 1 else 0 := by
  cases step_threads ht with
  | detection own camera transcoder nvm =>
    rw [transcoder]
    rfl
  | camera x detection own transcoder nvm =>
    rw [transcoder]
    unfold Tasks.captureMove
    simp only
    split <;> rfl
  | transcoder x detection camera own nvm =>
    obtain rfl := Option.some.inj ht
    exact transcoder_served h
  | nvm x detection camera transcoder own =>
    rw [transcoder]
    rfl

theorem step_servedReads {task : Task} (h : NvmAt s.nvm w) (ht : s.step lut inp task = some t) :
    servedReads t.nvm = servedReads s.nvm + if s.imageMove task = .serve then 1 else 0 := by
  cases step_threads ht with
  | detection own camera transcoder nvm =>
    rw [nvm]
    rfl
  | camera x detection own transcoder nvm =>
    rw [nvm]
    rfl
  | transcoder x detection camera own nvm =>
    rw [nvm]
    unfold Tasks.imageMove
    simp only
    split <;> rfl
  | nvm x detection camera transcoder own => exact nvm_served h ht

end Served

/-! ### Frames against the passes -/

/- A pass of the camera comes to `framebuffer_writeframe` once at most. -/
theorem camera_writes_once (input : ℕ → PassInput) (t : CameraThread) :
    t.pass + (if afterPass t.pc then 1 else 0) + (if t.pc = .writeCapturing then 1 else 0) ≤
      (t.taskStep input).pass + if afterPass (t.taskStep input).pc then 1 else 0 := by
  obtain ⟨pc, ⟨state, numWrites, capturestates⟩, event, pass⟩ := t
  cases pc with
  | loopTest => cases state <;> exact Nat.le_refl _
  | eventSwitch => cases event <;> exact Nat.le_refl _
  | idleTest => cases state <;> exact Nat.le_refl _
  | exitTest => cases state <;> exact Nat.le_refl _
  | stateSwitch =>
    cases state with
    | idle => exact Nat.le_refl _
    | capturing => exact Nat.le_refl _
    | exiting => exact Nat.le_succ _
    | exit => exact Nat.le_succ _
  | writeIdle => exact Nat.le_succ _
  | writeCapturing =>
    by_cases hwritten : (input pass).written = .success
    · simp [CameraThread.taskStep, CameraThread.goto, afterPass, hwritten]
    · simp [CameraThread.taskStep, CameraThread.goto, afterPass, hwritten]
  | _ => exact Nat.le_refl _

theorem ite_one_le {p q : Prop} [Decidable p] [Decidable q] (h : p → q) :
    (if p then 1 else 0) ≤ if q then 1 else 0 := by
  by_cases hp : p
  · rw [if_pos hp, if_pos (h hp)]
  · rw [if_neg hp]
    exact Nat.zero_le _

theorem transcoder_writes_once (getframe : ℕ → SysResult) (t : TranscoderThread) :
    (if t.pc = .freeframe then 1 else 0) + (if t.pc = .write then 1 else 0) =
      (if t.pc = .freeframe then 1 else 0) +
        if (t.taskStep getframe).pc = .freeframe then 1 else 0 := by
  obtain ⟨pc, exitTask, i, calls⟩ := t
  cases pc with
  | exitTest => cases exitTask <;> rfl
  | forTest =>
    by_cases hi : i < 2
    · simp [TranscoderThread.taskStep, TranscoderThread.goto, hi]
    · simp [TranscoderThread.taskStep, TranscoderThread.goto, hi]
  | getframe =>
    by_cases hget : getframe calls = .success
    · simp [TranscoderThread.taskStep, hget]
    · simp [TranscoderThread.taskStep, hget]
  | _ => rfl

theorem nvm_saves_once (calls : NvmCalls) (t : NvmThread) :
    (if Tasks.saved t.pc then 1 else 0) + (if t.pc = .save then 1 else 0) =
      (if t.pc = .endread then 1 else 0) + if Tasks.saved (t.taskStep calls).pc then 1 else 0 := by
  obtain ⟨pc, exitTask, i, reads, saves, closed⟩ := t
  cases pc with
  | forTest =>
    by_cases hi : i < 2
    · simp [NvmThread.taskStep, NvmThread.goto, Tasks.saved, hi]
    · simp [NvmThread.taskStep, NvmThread.goto, Tasks.saved, hi]
  | startread =>
    by_cases hread : calls.startread reads = .success
    · simp [NvmThread.taskStep, Tasks.saved, hread]
    · simp [NvmThread.taskStep, Tasks.saved, hread]
  | save =>
    by_cases hsave : calls.imageSave saves = .success
    · simp [NvmThread.taskStep, Tasks.saved, hsave]
    · simp [NvmThread.taskStep, Tasks.saved, hsave]
  | exitTest => cases exitTask <;> rfl
  | _ => rfl

theorem handed_length {s t : Tasks n} {task : Task} (ht : s.step lut inp task = some t) :
    t.handed.length = s.handed.length + if task = .nvm ∧ s.nvm.pc = .save then 1 else 0 := by
  cases task with
  | detection =>
    obtain rfl := Option.some.inj ht
    unfold Tasks.detectionStep
    split <;> rfl
  | camera =>
    obtain rfl := Option.some.inj ht
    unfold Tasks.cameraStep
    split <;> rfl
  | transcoder =>
    obtain rfl := Option.some.inj ht
    unfold Tasks.transcoderStep
    split <;> rfl
  | nvm =>
    simp only [Tasks.step, Tasks.nvmStep] at ht
    split at ht
    · next hpc =>
      obtain rfl := Option.some.inj ht
      simp [hpc]
    · next hpc =>
      split at ht
      · obtain rfl := Option.some.inj ht
        simp [hpc]
      · cases ht
    · next hpc =>
      obtain rfl := Option.some.inj ht
      simp [hpc]
    · next hsave _ =>
      obtain rfl := Option.some.inj ht
      rw [if_neg fun h => hsave h.2]
      rfl

/-- A pass of the camera dequeues one frame at most, a call of `process_frames` takes
one at most and a read of the image buffer hands on one at most. -/
structure Rationed (s : Tasks n) : Prop where
  dequeued : s.dequeued ≤ s.camera.pass + if afterPass s.camera.pc then 1 else 0
  taken : s.taken.length ≤
    servedCalls s.transcoder + if s.transcoder.pc = .freeframe then 1 else 0
  handed : s.handed.length ≤ servedReads s.nvm + if Tasks.saved s.nvm.pc then 1 else 0

theorem init_rationed : Rationed (Tasks.init : Tasks n) :=
  ⟨Nat.zero_le _, Nat.zero_le _, Nat.zero_le _⟩

section Rationed

theorem captureMove_transcoder (s : Tasks n) : s.captureMove inp .transcoder ≠ .arrive := by
  intro hmove
  simp only [Tasks.captureMove] at hmove
  split at hmove
  · cases hmove
  · split at hmove
    · cases hmove
    · cases hmove
  · cases hmove

theorem imageMove_nvm (s : Tasks n) : s.imageMove .nvm ≠ .arrive := by
  intro hmove
  simp only [Tasks.imageMove] at hmove
  split at hmove
  · cases hmove
  · split at hmove
    · cases hmove
    · cases hmove
  · cases hmove

variable {s t : Tasks n} {task : Task} {R W R' W' : ℕ}

theorem Rationed.step_dequeued (h : Rationed s) (hthread : ThreadStep inp s t task)
    (hmoved : IncomingMoved s t (s.captureMove inp task) R W) :
    t.dequeued ≤ t.camera.pass + if afterPass t.camera.pc then 1 else 0 := by
  have hold := h.dequeued
  rw [hmoved.dequeued]
  cases hthread with
  | detection own camera transcoder nvm =>
    rw [camera]
    exact hold
  | camera x detection own transcoder nvm =>
    have hone := camera_writes_once x s.camera
    have hmove : (if s.captureMove inp .camera = .arrive then 1 else 0) ≤
        if s.camera.pc = .writeCapturing then 1 else 0 := by
      refine ite_one_le fun hm => ?_
      by_contra hpc
      simp [Tasks.captureMove, hpc] at hm
    rw [own]
    omega
  | transcoder x detection camera own nvm =>
    rw [if_neg (captureMove_transcoder s), camera]
    exact hold
  | nvm x detection camera transcoder own =>
    rw [camera]
    exact hold

theorem Rationed.step_taken {w : ℕ} (h : Rationed s) (hat : TranscoderAt s.transcoder w)
    (ht : s.step lut inp task = some t) (hmoved : ImageMoved s t (s.imageMove task) R' W') :
    t.taken.length ≤
      servedCalls t.transcoder + if t.transcoder.pc = .freeframe then 1 else 0 := by
  have hold := h.taken
  have hserved := step_servedCalls hat ht
  rw [hmoved.taken]
  cases step_threads ht with
  | detection own camera transcoder nvm =>
    rw [transcoder]
    exact hold
  | camera x detection own transcoder nvm =>
    rw [transcoder]
    exact hold
  | transcoder x detection camera own nvm =>
    have hone := transcoder_writes_once x s.transcoder
    have hwrite : (if s.imageMove .transcoder = .arrive then 1 else 0) =
        if s.transcoder.pc = .write then 1 else 0 := by
      simp [Tasks.imageMove]
    have hfree : (if s.transcoder.pc = .freeframe then 1 else 0) ≤
        if s.captureMove inp .transcoder = .serve then 1 else 0 := by
      refine ite_one_le fun hpc => ?_
      simp [Tasks.captureMove, hpc]
    rw [hwrite, hserved, own]
    omega
  | nvm x detection camera transcoder own =>
    rw [if_neg (imageMove_nvm s), transcoder]
    exact hold

theorem Rationed.step_handed {w : ℕ} (h : Rationed s) (hat : NvmAt s.nvm w)
    (ht : s.step lut inp task = some t) :
    t.handed.length ≤ servedReads t.nvm + if Tasks.saved t.nvm.pc then 1 else 0 := by
  have hold := h.handed
  have hread := step_servedReads hat ht
  have hhanded := handed_length ht
  rw [hhanded]
  cases step_threads ht with
  | detection own camera transcoder nvm =>
    rw [nvm]
    exact hold
  | camera x detection own transcoder nvm =>
    rw [nvm]
    exact hold
  | transcoder x detection camera own nvm =>
    rw [nvm]
    exact hold
  | nvm x detection camera transcoder own =>
    have hone := nvm_saves_once x s.nvm
    have hend : (if s.nvm.pc = .endread then 1 else 0) ≤
        if s.imageMove .nvm = .serve then 1 else 0 := by
      refine ite_one_le fun hpc => ?_
      simp [Tasks.imageMove, hpc]
    simp only [true_and]
    rw [hread, own]
    omega

theorem step_rationed {w w' : ℕ} (h : Rationed s) (htranscoder : TranscoderAt s.transcoder w)
    (hnvm : NvmAt s.nvm w') (hoccupied : Occupied s R W R' W')
    (ht : s.step lut inp task = some t) : Rationed t :=
  have hshifted := (step_occupied hoccupied ht).2
  ⟨h.step_dequeued (step_threads ht) hshifted.incoming, h.step_taken htranscoder ht hshifted.image,
    h.step_handed hnvm ht⟩

end Rationed

/-! ### Steps of the pipeline under the scheduler -/

/- At its delay a task is waiting, or a statement of it ends the delay. -/
inductive ClockedStep (lut : ColorLut) (inp : Inputs n) (s t : Clocked n) (a : ClockedAct) : Prop
  | waits (tasks : t.tasks = s.tasks) (wakes : t.wakes = s.wakes)
      (interrupts : t.interrupts = s.interrupts)
      (idle : ∀ task, a = .task task → s.tasks.AtDelay task)
  | moves (task : Task) (tasks : s.tasks.step lut inp task = some t.tasks)
      (wakes : t.wakes = Function.update s.wakes task
        (s.wakes task + if s.tasks.AtDelay task then 1 else 0))
      (interrupts : ∀ other, s.interrupts other ≤ t.interrupts other)
      (act : a = .task task ∨ a = .interrupted task ∧ s.tasks.AtDelay task)

theorem step_clocked {s t : Clocked n} {a : ClockedAct} (ht : s.step lut inp a = some t) :
    ClockedStep lut inp s t a := by
  cases a with
  | scheduler a =>
    obtain ⟨c, -, rfl⟩ := Option.map_eq_some_iff.mp ht
    exact .waits rfl rfl rfl fun task hact => by cases hact
  | task task =>
    simp only [Clocked.step, Clocked.delayStep] at ht
    split at ht
    · next hdelay =>
      split at ht
      · split at ht
        · next o tasks ho htasks =>
          obtain rfl := Option.some.inj ht
          exact .moves task htasks (by rw [if_pos hdelay]; rfl) (fun _ => Nat.le_refl _)
            (.inl rfl)
        · cases ht
      · split at ht
        · obtain rfl := Option.some.inj ht
          refine .waits rfl rfl rfl fun other hact => ?_
          cases hact
          exact hdelay
        · obtain ⟨tasks, htasks, rfl⟩ := Option.map_eq_some_iff.mp ht
          exact .moves task htasks (by rw [if_pos hdelay]; rfl) (fun _ => Nat.le_refl _)
            (.inl rfl)
    · next hdelay =>
      obtain ⟨tasks, htasks, rfl⟩ := Option.map_eq_some_iff.mp ht
      refine .moves task htasks ?_ (fun _ => Nat.le_refl _) (.inl rfl)
      rw [if_neg hdelay]
      exact (Function.update_eq_self task s.wakes).symm
  | interrupted task =>
    simp only [Clocked.step, Option.ite_none_right_eq_some] at ht
    obtain ⟨⟨hdelay, -⟩, ht⟩ := ht
    obtain ⟨tasks, htasks, rfl⟩ := Option.map_eq_some_iff.mp ht
    refine .moves task htasks (by rw [if_pos hdelay]; rfl) (fun other => ?_)
      (.inr ⟨rfl, hdelay⟩)
    show s.interrupts other ≤ Function.update s.interrupts task (s.interrupts task + 1) other
    by_cases hne : other = task
    · rw [hne, Function.update_self]
      exact Nat.le_succ _
    · rw [Function.update_of_ne hne]

/-- What holds of the four tasks in every run. -/
structure Accounted (s : Clocked n) : Prop where
  passes : Passes s.tasks s.wakes
  occupied : ∃ R W R' W', Occupied s.tasks R W R' W'
  rationed : Rationed s.tasks

theorem init_accounted (osal : OsalState) : Accounted (Clocked.init osal : Clocked n) :=
  ⟨init_passes, ⟨0, 0, 0, 0, init_occupied⟩, init_rationed⟩

theorem step_accounted {s t : Clocked n} {a : ClockedAct} (h : Accounted s)
    (ht : s.step lut inp a = some t) : Accounted t := by
  obtain ⟨R, W, R', W', hoccupied⟩ := h.occupied
  cases step_clocked ht with
  | waits tasks wakes interrupts idle =>
    refine ⟨?_, ?_, ?_⟩
    · rw [tasks, wakes]
      exact h.passes
    · rw [tasks]
      exact h.occupied
    · rw [tasks]
      exact h.rationed
  | moves task tasks wakes interrupts act =>
    refine ⟨?_, (step_occupied hoccupied tasks).1,
      step_rationed h.rationed h.passes.transcoder h.passes.nvm hoccupied tasks⟩
    rw [wakes]
    exact step_passes h.passes tasks

theorem run_accounted {s t : Clocked n} {acts : List ClockedAct} (h : Accounted s)
    (hr : run (Clocked.step lut inp) s acts = some t) : Accounted t :=
  run_inv Accounted (fun _ _ _ h ht => step_accounted h ht) h hr

theorem run_activated (hcap : ∀ task, cap task ≤ semValueMax) {s t : Clocked n}
    {acts : List ClockedAct} (h : Activated δ cap s)
    (ha : Along (Clocked.step lut inp) (OnTime δ cap) s acts)
    (hr : run (Clocked.step lut inp) s acts = some t) : Activated δ cap t :=
  run_inv_along (Activated δ cap) (fun _ _ _ h ha ht => step_activated hcap h ha ht) h ha hr

/-- The delays of every task that have ended are the visits that found it due, and
the passes, the calls and the frames follow from them. -/
structure OnSchedule (δ : ℕ) (cap : Task → ℕ) (s : Clocked n) : Prop where
  wakes : ∀ task, s.wakes task + s.signalSem task =
    (s.scheduler.visited task.entry + (task.periodCnts - 1) * δ) / task.periodCnts +
      s.interrupts task
  waiting : ∀ task, s.signalSem task ≤ cap task
  passes : s.tasks.detection.pass = s.wakes .detection ∧ s.tasks.camera.pass = s.wakes .camera
  calls : 2 * s.wakes .transcoder ≤ s.tasks.transcoder.calls ∧
    s.tasks.transcoder.calls ≤ 2 * s.wakes .transcoder + 2
  reads : 2 * s.wakes .nvm ≤ s.tasks.nvm.reads ∧ s.tasks.nvm.reads ≤ 2 * s.wakes .nvm + 2
  dequeued : s.tasks.dequeued ≤ s.wakes .camera + 1
  taken : s.tasks.taken.length ≤ 2 * s.wakes .transcoder + 2
  handed : s.tasks.handed.length ≤ 2 * s.wakes .nvm + 2

theorem TranscoderAt.taken {t : TranscoderThread} {w : ℕ} (h : TranscoderAt t w) :
    servedCalls t + (if t.pc = .freeframe then 1 else 0) ≤ 2 * w + 2 := by
  by_cases hpc : t.pc = .freeframe
  · unfold TranscoderAt at h
    rw [hpc] at h
    obtain ⟨hi, hcalls⟩ := h
    rw [servedCalls, if_pos hpc, hpc, hcalls]
    simp only [Tasks.holds, if_true]
    omega
  · rw [if_neg hpc]
    exact h.served.2

theorem NvmAt.handed {t : NvmThread} {w : ℕ} (h : NvmAt t w) :
    servedReads t + (if Tasks.saved t.pc then 1 else 0) ≤ 2 * w + 2 := by
  by_cases hpc : Tasks.saved t.pc = true
  · obtain ⟨pc, exitTask, i, reads, saves, closed⟩ := t
    cases pc with
    | traceError =>
      obtain ⟨hi, hreads⟩ := h
      simp only [servedReads, Tasks.saved, Tasks.reads, if_true]
      simp only at hreads hi
      omega
    | endread =>
      obtain ⟨hi, hreads⟩ := h
      simp only [servedReads, Tasks.saved, Tasks.reads, if_true]
      simp only at hreads hi
      omega
    | _ => cases hpc
  · rw [if_neg hpc]
    exact h.served.2

theorem Activated.onSchedule {s : Clocked n} (hactivated : Activated δ cap s)
    (h : Accounted s) : OnSchedule δ cap s where
  wakes task := by
    rw [hactivated.posts, hactivated.starts]
  waiting := hactivated.room
  passes := ⟨h.passes.detection, h.passes.camera⟩
  calls := h.passes.transcoder.calls
  reads := h.passes.nvm.reads
  dequeued := by
    have hdequeued := h.rationed.dequeued
    rw [h.passes.camera] at hdequeued
    refine hdequeued.trans (Nat.add_le_add_left ?_ _)
    split
    · exact Nat.le_refl 1
    · exact Nat.zero_le 1
  taken := h.rationed.taken.trans h.passes.transcoder.taken
  handed := h.rationed.handed.trans h.passes.nvm.handed

/-- Where every visit is on time, what each task has done after any order of the
statements follows from the visits of its entry: a post is neither lost nor taken
twice, and a signal that ends a delay adds one pass. -/
theorem onSchedule_of_onTime (lut : ColorLut) (inp : Inputs n) {osal : OsalState}
    (hready : Ready osal) (hδ : δ ≤ 1) (hcap : ∀ task, cap task ≤ semValueMax)
    (acts : List ClockedAct) (s : Clocked n)
    (ha : Along (Clocked.step lut inp) (OnTime δ cap) (.init osal) acts)
    (hr : run (Clocked.step lut inp) (.init osal) acts = some s) : OnSchedule δ cap s :=
  (run_activated hcap (init_activated hready hδ) ha hr).onSchedule
    (run_accounted (init_accounted osal) hr)

/-- An alarm and the pass of the sequencer that it posts. -/
def alarm : List ClockedAct :=
  [.scheduler .post, .scheduler .incTick, .scheduler .wait] ++
    List.replicate MAX_TASKS (.scheduler .visit)

def statements (task : Task) (k : ℕ) : List ClockedAct := List.replicate k (.task task)

/-- Every task comes to its delay and goes on at the alarms that are its own. -/
def sixAlarms : List ClockedAct :=
  statements .detection 10 ++ statements .camera 10 ++ statements .transcoder 12 ++
    statements .nvm 11 ++ alarm ++ statements .detection 7 ++ alarm ++ statements .detection 7 ++
    statements .camera 8 ++ alarm ++ statements .detection 7 ++ alarm ++
    statements .detection 7 ++ statements .camera 8 ++ alarm ++ statements .detection 7 ++
    alarm ++ statements .detection 7 ++ statements .camera 8 ++ statements .transcoder 16 ++
    statements .nvm 14

/-- The table of `main` where no call of the system fails. -/
def calmTable : OsalState := mainTable 99 1 (fun _ => ⟨0, 0, 0, 0⟩) 0

theorem calmTable_ready : Ready calmTable := mainTable_ready (by decide) (by decide) _ _

theorem sixAlarms_onTime :
    Along (Clocked.step flatLut highInputs) (OnTime 0 fun _ => 1) (.init calmTable) sixAlarms := by
  decide +kernel

theorem onSchedule_sixAlarms :
    ∃ s, run (Clocked.step flatLut highInputs) (.init calmTable) sixAlarms = some s ∧
      s.wakes .camera = 3 ∧ s.wakes .nvm = 1 ∧ OnSchedule 0 (fun _ => 1) s := by
  have hfinal : (run (Clocked.step flatLut highInputs) (.init calmTable) sixAlarms).map
      (fun s => (s.wakes .camera, s.wakes .nvm)) = some (3, 1) := by
    decide +kernel
  obtain ⟨s, hs, hvalues⟩ := Option.map_eq_some_iff.mp hfinal
  simp only [Prod.mk.injEq] at hvalues
  exact ⟨s, hs, hvalues.1, hvalues.2, onSchedule_of_onTime flatLut highInputs calmTable_ready
    (Nat.zero_le 1) (fun _ => by decide) sixAlarms s sixAlarms_onTime hs⟩

end MotionDetector.Pipeline
