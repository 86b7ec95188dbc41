import MotionDetector.Pipeline.Throughput

/-!
# Frames under deadlines

Where every task has taken up its posts but for a few when it is due again, the two
loops of the transcoder and the nvm task keep up with a camera device that gives one
frame in three passes of the sequencer, the rate that `camera_init` asks for, and no
frame is lost.
-/

namespace MotionDetector.Pipeline

open Transition Backlog Osal OsalState Shutdown Detection Camera Transcoder Nvm

variable {n : ℕ} {lut : ColorLut} {inp : Inputs n} {δ : ℕ} {cap : Task → ℕ}

namespace Clocked

/-- Passes of the sequencer. -/
def clock (s : Clocked n) : ℕ := s.scheduler.consumed

def captureMove (inp : Inputs n) (s : Clocked n) : ClockedAct → Move
  | .task task => s.tasks.captureMove inp task
  | _ => .other

def imageMove (s : Clocked n) : ClockedAct → Move
  | .task task => s.tasks.imageMove task
  | _ => .other

end Clocked

theorem captureMove_delay {s : Tasks n} {task : Task} (h : s.AtDelay task) :
    s.captureMove inp task = .other := by
  cases task with
  | detection => rfl
  | camera =>
    have hpc : s.camera.pc = .delay := h
    simp [Tasks.captureMove, hpc]
  | transcoder =>
    have hpc : s.transcoder.pc = .delay := h
    simp [Tasks.captureMove, hpc]
  | nvm => rfl

theorem imageMove_delay {s : Tasks n} {task : Task} (h : s.AtDelay task) :
    s.imageMove task = .other := by
  cases task with
  | detection => rfl
  | camera => rfl
  | transcoder =>
    have hpc : s.transcoder.pc = .delay := h
    simp [Tasks.imageMove, hpc]
  | nvm =>
    have hpc : s.nvm.pc = .delay := h
    simp [Tasks.imageMove, hpc]

section Step

variable {s t : Clocked n} {a : ClockedAct}

/- The moves of a step are those of the statement in it. -/
theorem step_moves (ht : s.step lut inp a = some t) :
    t.tasks = s.tasks ∧ s.captureMove inp a = .other ∧ s.imageMove a = .other ∨
      ∃ task, s.tasks.step lut inp task = some t.tasks ∧
        s.captureMove inp a = s.tasks.captureMove inp task ∧
        s.imageMove a = s.tasks.imageMove task := by
  cases step_clocked ht with
  | waits tasks wakes interrupts idle =>
    left
    refine ⟨tasks, ?_, ?_⟩
    · cases a with
      | task task => exact captureMove_delay (idle task rfl)
      | scheduler a => rfl
      | interrupted task => rfl
    · cases a with
      | task task => exact imageMove_delay (idle task rfl)
      | scheduler a => rfl
      | interrupted task => rfl
  | moves task tasks wakes interrupts act =>
    right
    refine ⟨task, tasks, ?_⟩
    rcases act with rfl | ⟨rfl, hdelay⟩
    · exact ⟨rfl, rfl⟩
    · exact ⟨(captureMove_delay hdelay).symm, (imageMove_delay hdelay).symm⟩

theorem step_incoming (h : Accounted s) (ht : s.step lut inp a = some t) :
    ∃ R W, s.tasks.capture.ring.getlen.toNat = W - R ∧
      IncomingMoved s.tasks t.tasks (s.captureMove inp a) R W := by
  obtain ⟨R, W, R', W', hoccupied⟩ := h.occupied
  refine ⟨R, W, hoccupied.incoming.getlen, ?_⟩
  rcases step_moves ht with ⟨htasks, hmove, -⟩ | ⟨task, htasks, hmove, -⟩
  · exact incomingMoved_of_same hoccupied (congrArg Tasks.capture htasks) hmove
  · rw [hmove]
    exact (step_occupied hoccupied htasks).2.incoming

theorem step_image (h : Accounted s) (ht : s.step lut inp a = some t) :
    ∃ R' W', s.tasks.imageBuffer.getlen.toNat = W' - R' ∧
      ImageMoved s.tasks t.tasks (s.imageMove a) R' W' := by
  obtain ⟨R, W, R', W', hoccupied⟩ := h.occupied
  refine ⟨R', W', hoccupied.image.getlen, ?_⟩
  rcases step_moves ht with ⟨htasks, -, hmove⟩ | ⟨task, htasks, -, hmove⟩
  · exact imageMoved_of_same hoccupied (congrArg Tasks.imageBuffer htasks)
      (congrArg Tasks.taken htasks) hmove
  · rw [hmove]
    exact (step_occupied hoccupied htasks).2.image

theorem step_clocked_served (h : Accounted s) (ht : s.step lut inp a = some t) :
    servedCalls t.tasks.transcoder = servedCalls s.tasks.transcoder +
        (if s.captureMove inp a = .serve then 1 else 0) ∧
      servedReads t.tasks.nvm =
        servedReads s.tasks.nvm + if s.imageMove a = .serve then 1 else 0 := by
  rcases step_moves ht with ⟨htasks, hmove, hmove'⟩ | ⟨task, htasks, hmove, hmove'⟩
  · rw [htasks, hmove, hmove']
    exact ⟨rfl, rfl⟩
  · rw [hmove, hmove']
    exact ⟨step_servedCalls h.passes.transcoder htasks, step_servedReads h.passes.nvm htasks⟩

end Step

/-! ### The frames of a run -/

section Frames

variable {s t : Clocked n} {acts : List ClockedAct} {osal : OsalState}

theorem run_serial (hshort : ∀ k, (inp.io k).bytes.length ≤ n)
    (hr : run (Clocked.step lut inp) (.init osal) acts = some s) : Serial lut inp s.tasks := by
  refine run_inv (fun s : Clocked n => Serial lut inp s.tasks) (fun s a t h ht => ?_)
    init_serial hr
  cases step_clocked ht with
  | waits tasks wakes interrupts idle =>
    rw [tasks]
    exact h
  | moves task tasks wakes interrupts act => exact step_serial hshort h tasks

/- Only the camera writes to the incoming ring, and what is stored stays recorded. -/
theorem step_stored_extends {s t : Tasks n} {task : Task} (ht : s.step lut inp task = some t) :
    s.capture.stored <+: t.capture.stored := by
  have hwrites (save : Bool) : s.capture.stored <+:
      (CaptureStore.writeframe (inp.io s.camera.pass) save s.capture).2.stored := by
    unfold CaptureStore.writeframe
    split
    · exact List.prefix_append _ _
    · exact List.prefix_rfl
  cases task with
  | detection =>
    obtain rfl := Option.some.inj ht
    unfold Tasks.detectionStep
    split <;> exact List.prefix_rfl
  | camera =>
    obtain rfl := Option.some.inj ht
    have hcapture : (s.cameraStep inp).capture =
        writes CaptureStore.writeframe (inp.io s.camera.pass) s.camera.pc s.capture := by
      unfold Tasks.cameraStep
      split <;> rfl
    rw [hcapture]
    cases s.camera.pc with
    | writeIdle => exact hwrites false
    | writeCapturing => exact hwrites true
    | _ => exact List.prefix_rfl
  | transcoder =>
    obtain rfl := Option.some.inj ht
    unfold Tasks.transcoderStep
    split <;> exact List.prefix_rfl
  | nvm =>
    have hcapture : t.capture = s.capture := by
      simp only [Tasks.step, Tasks.nvmStep] at ht
      split at ht
      · rw [← Option.some.inj ht]
      · split at ht
        · rw [← Option.some.inj ht]
        · cases ht
      · rw [← Option.some.inj ht]
      · rw [← Option.some.inj ht]
    rw [hcapture]

theorem clocked_stored_extends (hr : run (Clocked.step lut inp) s acts = some t) :
    s.tasks.capture.stored <+: t.tasks.capture.stored := by
  refine run_inv (fun t : Clocked n => s.tasks.capture.stored <+: t.tasks.capture.stored)
    (fun u a v h hv => h.trans ?_) List.prefix_rfl hr
  cases step_clocked hv with
  | waits tasks wakes interrupts idle => rw [tasks]
  | moves task tasks wakes interrupts act => exact step_stored_extends tasks

end Frames

/-! ### Levels and counts of a run -/

section Run

variable {s t : Clocked n} {acts : List ClockedAct}

theorem run_incoming (h : Accounted s) (hr : run (Clocked.step lut inp) s acts = some t) :
    t.tasks.capture.ring.getlen.toNat =
        level 127 s.tasks.capture.ring.getlen.toNat
          (moves (Clocked.step lut inp) (Clocked.captureMove inp) s acts) ∧
      t.tasks.capture.dropped.length = s.tasks.capture.dropped.length +
        refused 127 s.tasks.capture.ring.getlen.toNat
          (moves (Clocked.step lut inp) (Clocked.captureMove inp) s acts) := by
  refine run_level (fun u : Clocked n => u.tasks.capture.ring.getlen.toNat)
    (fun u => u.tasks.capture.dropped.length) Accounted
    (fun _ _ _ h ht => step_accounted h ht) (fun u a v h ht => ?_) (fun u a v h ht => ?_) h hr
  · obtain ⟨R, W, hlen, hmoved⟩ := step_incoming h ht
    rw [hlen]
    exact hmoved.level
  · obtain ⟨R, W, hlen, hmoved⟩ := step_incoming h ht
    rw [hlen]
    exact hmoved.dropped

theorem run_image (h : Accounted s) (hr : run (Clocked.step lut inp) s acts = some t) :
    t.tasks.imageBuffer.getlen.toNat =
        level 255 s.tasks.imageBuffer.getlen.toNat
          (moves (Clocked.step lut inp) Clocked.imageMove s acts) ∧
      t.tasks.lost.length = s.tasks.lost.length +
        refused 255 s.tasks.imageBuffer.getlen.toNat
          (moves (Clocked.step lut inp) Clocked.imageMove s acts) := by
  refine run_level (fun u : Clocked n => u.tasks.imageBuffer.getlen.toNat)
    (fun u => u.tasks.lost.length) Accounted
    (fun _ _ _ h ht => step_accounted h ht) (fun u a v h ht => ?_) (fun u a v h ht => ?_) h hr
  · obtain ⟨R', W', hlen, hmoved⟩ := step_image h ht
    rw [hlen]
    exact hmoved.level
  · obtain ⟨R', W', hlen, hmoved⟩ := step_image h ht
    rw [hlen]
    exact hmoved.lost

theorem run_served (h : Accounted s) (hr : run (Clocked.step lut inp) s acts = some t) :
    servedCalls t.tasks.transcoder = servedCalls s.tasks.transcoder +
        (moves (Clocked.step lut inp) (Clocked.captureMove inp) s acts).count .serve ∧
      servedReads t.tasks.nvm = servedReads s.tasks.nvm +
        (moves (Clocked.step lut inp) Clocked.imageMove s acts).count .serve :=
  ⟨run_count (fun u : Clocked n => servedCalls u.tasks.transcoder) Accounted
      (fun _ _ _ h ht => step_accounted h ht) (fun _ _ _ h ht => (step_clocked_served h ht).1) h hr,
    run_count (fun u : Clocked n => servedReads u.tasks.nvm) Accounted
      (fun _ _ _ h ht => step_accounted h ht) (fun _ _ _ h ht => (step_clocked_served h ht).2) h hr⟩

theorem run_arrived (h : Accounted s) (hr : run (Clocked.step lut inp) s acts = some t) :
    t.tasks.dequeued = s.tasks.dequeued +
        (moves (Clocked.step lut inp) (Clocked.captureMove inp) s acts).count .arrive ∧
      t.tasks.taken.length = s.tasks.taken.length +
        (moves (Clocked.step lut inp) Clocked.imageMove s acts).count .arrive := by
  constructor
  · refine run_count (fun u : Clocked n => u.tasks.dequeued) Accounted
      (fun _ _ _ h ht => step_accounted h ht) (fun u a v h ht => ?_) h hr
    obtain ⟨R, W, -, hmoved⟩ := step_incoming h ht
    exact hmoved.dequeued
  · refine run_count (fun u : Clocked n => u.tasks.taken.length) Accounted
      (fun _ _ _ h ht => step_accounted h ht) (fun u a v h ht => ?_) h hr
    obtain ⟨R', W', -, hmoved⟩ := step_image h ht
    exact hmoved.taken

theorem run_interrupts (hr : run (Clocked.step lut inp) s acts = some t) (task : Task) :
    s.interrupts task ≤ t.interrupts task := by
  refine run_inv (fun u : Clocked n => s.interrupts task ≤ u.interrupts task)
    (fun u a v h ht => ?_) (Nat.le_refl _) hr
  cases step_clocked ht with
  | waits tasks wakes interrupts idle =>
    rw [interrupts]
    exact h
  | moves other tasks wakes interrupts act => exact h.trans (interrupts task)

/- The tasks change the tables of the scheduler only. -/
theorem step_scheduler {a : ClockedAct} (ht : s.step lut inp a = some t) :
    (∃ b, schedulerStep s.scheduler b = some t.scheduler) ∨
      t.scheduler = { s.scheduler with osal := t.scheduler.osal } := by
  cases a with
  | scheduler b =>
    obtain ⟨c, hc, rfl⟩ := Option.map_eq_some_iff.mp ht
    exact .inl ⟨b, hc⟩
  | task task =>
    right
    simp only [Clocked.step, Clocked.delayStep] at ht
    split at ht
    · split at ht
      · split at ht
        · obtain rfl := Option.some.inj ht
          rfl
        · cases ht
      · split at ht
        · obtain rfl := Option.some.inj ht
          rfl
        · obtain ⟨tasks, -, rfl⟩ := Option.map_eq_some_iff.mp ht
          rfl
    · obtain ⟨tasks, -, rfl⟩ := Option.map_eq_some_iff.mp ht
      rfl
  | interrupted task =>
    right
    simp only [Clocked.step, Option.ite_none_right_eq_some] at ht
    obtain ⟨tasks, -, rfl⟩ := Option.map_eq_some_iff.mp ht.2
    rfl

theorem step_calls {a : ClockedAct} (ht : s.step lut inp a = some t) :
    s.scheduler.calls <+: t.scheduler.calls := by
  rcases step_scheduler ht with ⟨b, hb⟩ | hsame
  · by_cases hvisit : b = .visit
    · subst hvisit
      simp only [schedulerStep] at hb
      split at hb
      · cases hb
      · rw [← Option.some.inj hb]
        exact List.prefix_append _ _
    · rw [(schedulerStep_idle hvisit hb).1]
  · rw [hsame]

theorem run_starts (hr : run (Clocked.step lut inp) s acts = some t) (task : Task) :
    s.starts task ≤ t.starts task := by
  have hcalls : s.scheduler.calls <+: t.scheduler.calls :=
    run_inv (fun u : Clocked n => s.scheduler.calls <+: u.scheduler.calls)
      (fun _ _ _ h ht => h.trans (step_calls ht)) (List.prefix_refl _) hr
  have hfilter := (hcalls.filter fun c => c.2 = task.entry).length_le
  simpa [Clocked.starts, SchedulerSystem.callsOf] using hfilter

theorem visited_clock (s : Clocked n) (i : ℕ) :
    s.scheduler.visited i ≤ s.clock ∧ s.clock ≤ s.scheduler.visited i + 1 := by
  unfold SchedulerSystem.visited Clocked.clock
  split
  · omega
  · omega
  · split <;> omega

/-- The wakeups of a task in a stretch of the run. -/
theorem wakes_between (hs : Activated δ cap s) (ht : Activated δ cap t)
    (hr : run (Clocked.step lut inp) s acts = some t) (task : Task) :
    s.wakes task + (t.clock - s.clock - 1) / task.periodCnts ≤ t.wakes task + cap task := by
  have hposts := hs.posts task
  have hposts' := ht.posts task
  have hroom := ht.room task
  have hinterrupts := run_interrupts hr task
  have hstarts : s.starts task + (t.clock - s.clock - 1) / task.periodCnts ≤ t.starts task := by
    rcases Nat.eq_zero_or_pos (t.clock - s.clock - 1) with hzero | hpos
    · rw [hzero, Nat.zero_div]
      exact run_starts hr task
    · rw [hs.starts, ht.starts]
      refine Nat.div_add_div_le_add_div.trans (Nat.div_le_div_right ?_)
      have := (visited_clock s task.entry).1
      have := (visited_clock t task.entry).2
      omega
  omega

end Run

/-! ### The two rings -/

/-- Services of a task with two calls a pass and the period of 6 passes, at least,
in `k` passes of the sequencer. -/
def serviceCurve (cap k : ℕ) : ℕ := 2 * ((k - 1) / 6 - cap) - 2

section Curves

variable {osal : OsalState} {acts : List ClockedAct} {s : Clocked n}

theorem capture_serviceCurve (hready : Ready osal) (hδ : δ ≤ 1)
    (hcap : ∀ task, cap task ≤ semValueMax)
    (ha : Along (Clocked.step lut inp) (OnTime δ cap) (.init osal) acts) :
    ServiceCurve (Clocked.step lut inp) (Clocked.captureMove inp) Clocked.clock
        (serviceCurve (cap .transcoder)) (.init osal) acts ∧
      ServiceCurve (Clocked.step lut inp) Clocked.imageMove Clocked.clock
        (serviceCurve (cap .nvm)) (.init osal) acts := by
  have hbetween {before mid after : List ClockedAct} {t u : Clocked n}
      (hacts : before ++ (mid ++ after) = acts)
      (ht : run (Clocked.step lut inp) (.init osal) before = some t)
      (hu : run (Clocked.step lut inp) t mid = some u) (task : Task) :
      Accounted t ∧ Accounted u ∧
        t.wakes task + (u.clock - t.clock - 1) / task.periodCnts ≤ u.wakes task + cap task := by
    subst hacts
    have hbefore := run_activated hcap (init_activated hready hδ) ha.before ht
    have hmid := run_activated hcap hbefore (ha.after ht).before hu
    have haccounted := run_accounted (init_accounted osal) ht
    exact ⟨haccounted, run_accounted haccounted hu, wakes_between hbefore hmid hu task⟩
  constructor
  · intro before mid after t u hacts ht hu
    obtain ⟨haccounted, haccounted', hwakes⟩ := hbetween hacts ht hu .transcoder
    have hserved := (run_served haccounted hu).1
    have hfrom := haccounted.passes.transcoder.served.2
    have hto := haccounted'.passes.transcoder.served.1
    simp only [Task.periodCnts] at hwakes
    unfold serviceCurve
    omega
  · intro before mid after t u hacts ht hu
    obtain ⟨haccounted, haccounted', hwakes⟩ := hbetween hacts ht hu .nvm
    have hserved := (run_served haccounted hu).2
    have hfrom := haccounted.passes.nvm.served.2
    have hto := haccounted'.passes.nvm.served.1
    simp only [Task.periodCnts] at hwakes
    unfold serviceCurve
    omega

/- A frame that is written to the image buffer has been in the incoming ring before
the stretch or has come to it in the stretch. -/
theorem image_arrivalCurve {α : ℕ → ℕ} {bound : ℕ}
    (harrive : ArrivalCurve (Clocked.step lut inp) (Clocked.captureMove inp) Clocked.clock α
      (.init osal) acts)
    (hbound : ∀ before after t, before ++ after = acts →
      run (Clocked.step lut inp) (.init osal) before = some t →
        t.tasks.capture.ring.getlen.toNat ≤ bound) :
    ArrivalCurve (Clocked.step lut inp) Clocked.imageMove Clocked.clock
      (fun k => α k + bound + 1) (.init osal) acts := by
  intro before mid after t u hacts ht hu
  have haccounted := run_accounted (init_accounted osal) ht
  have hlevel := hbound before (mid ++ after) t hacts ht
  have hframes := harrive before mid after t u hacts ht hu
  obtain ⟨hdequeued, htaken⟩ := run_arrived haccounted hu
  have hdropped := (run_incoming haccounted hu).2
  obtain ⟨R, W, R', W', hoccupied⟩ := haccounted.occupied
  obtain ⟨R₁, W₁, R₁', W₁', hoccupied'⟩ := (run_accounted haccounted hu).occupied
  have hlen := hoccupied.incoming.getlen
  have hle := hoccupied.incoming.le
  have hle' := hoccupied'.incoming.le
  have hstored := hoccupied.stored
  have hstored' := hoccupied'.stored
  have hcount := hoccupied.taken
  have hcount' := hoccupied'.taken
  have hheld : (if u.tasks.transcoder.pc = .freeframe then 1 else 0) ≤ 1 := by
    split <;> omega
  unfold Tasks.dequeued at hdequeued
  simp only
  omega

theorem incoming_steady {c : ℕ} (hready : Ready osal) (hδ : δ ≤ 1)
    (hcap : ∀ task, cap task ≤ semValueMax)
    (ha : Along (Clocked.step lut inp) (OnTime δ cap) (.init osal) acts)
    (hdevice : ArrivalCurve (Clocked.step lut inp) (Clocked.captureMove inp) Clocked.clock
      (fun k => k / 3 + c) (.init osal) acts)
    (hr : run (Clocked.step lut inp) (.init osal) acts = some s) :
    Steady (c + 2 * cap .transcoder + 4)
      (moves (Clocked.step lut inp) (Clocked.captureMove inp) (.init osal) acts) := by
  refine steady_of_curves hr hdevice (capture_serviceCurve hready hδ hcap ha).1 fun k => ?_
  -- three passes bring a frame, and six two calls
  unfold serviceCurve
  omega

theorem init_getlens (osal : OsalState) :
    (Clocked.init osal : Clocked n).tasks.capture.ring.getlen.toNat = 0 ∧
      (Clocked.init osal : Clocked n).tasks.imageBuffer.getlen.toNat = 0 :=
  ⟨init_occupied.incoming.getlen, init_occupied.image.getlen⟩

theorem incoming_of_steady {c : ℕ}
    (h : Steady c (moves (Clocked.step lut inp) (Clocked.captureMove inp) (.init osal) acts))
    (hr : run (Clocked.step lut inp) (.init osal) acts = some s) :
    s.tasks.capture.ring.getlen.toNat ≤ c ∧ (c ≤ 127 → s.tasks.capture.dropped = []) := by
  obtain ⟨hlen, hdropped⟩ := run_incoming (init_accounted osal) hr
  rw [(init_getlens osal).1] at hlen hdropped
  refine ⟨?_, fun hroom => ?_⟩
  · rw [hlen]
    exact level_le h
  · rw [refused_eq_zero_iff.mpr (h.of_le hroom)] at hdropped
    exact List.length_eq_zero_iff.mp hdropped

theorem image_of_steady {c : ℕ}
    (h : Steady c (moves (Clocked.step lut inp) Clocked.imageMove (.init osal) acts))
    (hr : run (Clocked.step lut inp) (.init osal) acts = some s) :
    s.tasks.imageBuffer.getlen.toNat ≤ c ∧ (c ≤ 255 → s.tasks.lost = []) := by
  obtain ⟨hlen, hlost⟩ := run_image (init_accounted osal) hr
  rw [(init_getlens osal).2] at hlen hlost
  refine ⟨?_, fun hroom => ?_⟩
  · rw [hlen]
    exact level_le h
  · rw [refused_eq_zero_iff.mpr (h.of_le hroom)] at hlost
    exact List.length_eq_zero_iff.mp hlost

theorem image_steady {c : ℕ} (hready : Ready osal) (hδ : δ ≤ 1)
    (hcap : ∀ task, cap task ≤ semValueMax)
    (ha : Along (Clocked.step lut inp) (OnTime δ cap) (.init osal) acts)
    (hdevice : ArrivalCurve (Clocked.step lut inp) (Clocked.captureMove inp) Clocked.clock
      (fun k => k / 3 + c) (.init osal) acts)
    (hr : run (Clocked.step lut inp) (.init osal) acts = some s) :
    Steady (2 * c + 2 * cap .transcoder + 2 * cap .nvm + 9)
      (moves (Clocked.step lut inp) Clocked.imageMove (.init osal) acts) := by
  have hincoming := incoming_steady hready hδ hcap ha hdevice hr
  have harrive := image_arrivalCurve hdevice fun before after t hacts ht =>
    (incoming_of_steady (steady_before ht (hacts ▸ hincoming)) ht).1
  refine steady_of_curves hr harrive (capture_serviceCurve hready hδ hcap ha).2 fun k => ?_
  unfold serviceCurve
  omega

/-- Where every visit is on time and the device gives `c` frames at most ahead of one
in three passes of the sequencer, none longer than a slot, no frame is dropped at the
incoming ring and none finds the image buffer full, in any order of the statements:
what is taken are the first frames stored, and what is handed to `image_save` the
first of these. -/
theorem deadlines_lossless (lut : ColorLut) (inp : Inputs n) {c : ℕ}
    (hshort : ∀ k, (inp.io k).bytes.length ≤ n) (hready : Ready osal)
    (hδ : δ ≤ 1) (hcap : ∀ task, cap task ≤ semValueMax)
    (hroom : c + 2 * cap .transcoder + 4 ≤ 127)
    (hroom' : 2 * c + 2 * cap .transcoder + 2 * cap .nvm + 9 ≤ 255) (acts : List ClockedAct)
    (s : Clocked n) (ha : Along (Clocked.step lut inp) (OnTime δ cap) (.init osal) acts)
    (hdevice : ArrivalCurve (Clocked.step lut inp) (Clocked.captureMove inp) Clocked.clock
      (fun k => k / 3 + c) (.init osal) acts)
    (hr : run (Clocked.step lut inp) (.init osal) acts = some s) :
    s.tasks.capture.dropped = [] ∧ s.tasks.lost = [] ∧
      s.tasks.capture.ring.getlen.toNat ≤ c + 2 * cap .transcoder + 4 ∧
      s.tasks.imageBuffer.getlen.toNat ≤
        2 * c + 2 * cap .transcoder + 2 * cap .nvm + 9 ∧
      s.tasks.taken.map Prod.fst <+: s.tasks.capture.stored.map Prod.snd ∧
      s.tasks.handed.map Handed.image <+: s.tasks.taken.map Prod.fst := by
  obtain ⟨hring, hdropped⟩ :=
    incoming_of_steady (incoming_steady hready hδ hcap ha hdevice hr) hr
  obtain ⟨himage, hlost⟩ := image_of_steady (image_steady hready hδ hcap ha hdevice hr) hr
  obtain ⟨htaken, hhanded⟩ := (run_serial hshort hr).conserved hshort
  rw [kept_all (hlost hroom')] at hhanded
  exact ⟨hdropped hroom, hlost hroom', hring, himage, htaken, hhanded⟩

end Curves

theorem arrivalCurve_of_dequeued {osal : OsalState} {acts : List ClockedAct} {s : Clocked n}
    {c : ℕ} (hr : run (Clocked.step lut inp) (.init osal) acts = some s)
    (hc : s.tasks.dequeued = c) :
    ArrivalCurve (Clocked.step lut inp) (Clocked.captureMove inp) Clocked.clock
      (fun k => k / 3 + c) (.init osal) acts := by
  have harrived := (run_arrived (init_accounted osal) hr).1
  rw [hc] at harrived
  have hzero : (Clocked.init osal : Clocked n).tasks.dequeued = 0 := rfl
  refine arrivalCurve_of_count ?_ fun k => Nat.le_add_left c (k / 3)
  omega

theorem deadlines_lossless_sixAlarms :
    ∃ s, run (Clocked.step flatLut highInputs) (.init calmTable) sixAlarms = some s ∧
      s.tasks.handed.length = 3 ∧ s.tasks.capture.dropped = [] ∧ s.tasks.lost = [] := by
  have hfinal : (run (Clocked.step flatLut highInputs) (.init calmTable) sixAlarms).map
      (fun s => (s.tasks.handed.length, s.tasks.dequeued)) = some (3, 4) := by
    decide +kernel
  obtain ⟨s, hs, hvalues⟩ := Option.map_eq_some_iff.mp hfinal
  simp only [Prod.mk.injEq] at hvalues
  obtain ⟨hdropped, hlost, -⟩ := deadlines_lossless flatLut highInputs
    (fun _ => show shortFrame.length ≤ 5 by decide) calmTable_ready (Nat.zero_le 1)
    (fun _ => by decide) (by decide) (by decide) sixAlarms s sixAlarms_onTime
    (arrivalCurve_of_dequeued hs hvalues.2) hs
  exact ⟨s, hs, hvalues.1, hdropped, hlost⟩

end MotionDetector.Pipeline
