import MotionDetector.Pipeline.Clocked
import MotionDetector.Pipeline.EventStatements
import MotionDetector.Shutdown.Entries

/-!
# Activations of the tasks

Every post of the sequencer ends one `osal_task_delay`. Where the visits of the
sequencer are on time, the passes of each task follow from the number of alarms.
-/

namespace MotionDetector.Pipeline

open Transition Osal OsalState Shutdown Detection Camera Transcoder Nvm

variable {n : ℕ} {lut : ColorLut} {inp : Inputs n} {δ : ℕ} {cap : Task → ℕ} {s t : Clocked n}

/-! ### The semaphores -/

theorem visit_signalSem {o : OsalState} {i j : ℕ} (hj : j < MAX_TASKS)
    (hinit : o.osInitialized = true)
    (hroom : j = i → o.Due j → (o.sequencers j).signalSem < semValueMax) :
    ((o.sequencerVisit j).sequencers i).signalSem =
      (o.sequencers i).signalSem + if j = i ∧ o.Due j then 1 else 0 := by
  by_cases hdue : o.Due j
  · have hnat : j.toUInt8.toNat = j := by
      simp only [MAX_TASKS] at hj
      simp only [Nat.toUInt8_eq, UInt8.toNat_ofNat']
      omega
    rw [visit_due hdue]
    by_cases hsem : (o.sequencers j).signalSem < semValueMax
    · have hposts : ((o.access j).sequencers j.toUInt8.toNat).signalSem < semValueMax := by
        rw [hnat]
        exact hsem
      have haccess : (o.access j).osInitialized = true := hinit
      obtain ⟨u, hu, -, -, -, -, -, -, -, hseq⟩ := osalTaskStart_spec haccess hposts
      simp only [hu, (hseq i).2, hnat, hdue, and_true]
      by_cases hij : i = j
      · rw [if_pos hij, if_pos hij.symm]
        rfl
      · rw [if_neg hij, if_neg fun h => hij h.symm]
        rfl
    · have hij : j ≠ i := fun hij => hsem (hroom hij hdue)
      have hsem : ¬ ((o.access j).sequencers j.toUInt8.toNat).signalSem < semValueMax := by
        rw [hnat]
        exact hsem
      have hinit : (o.access j).osInitialized = true := hinit
      rw [if_neg fun h => hij h.1, osalTaskStart, if_pos hinit, semPost, if_neg hsem]
      rfl
  · rw [visit_idle hdue, if_neg fun h => hdue h.2]
    rfl

theorem setSequencer_periodCnts {o : OsalState} {id : ℕ} {e : Sequencer}
    (h : e.periodCnts = (o.sequencers id).periodCnts) (i : ℕ) :
    ((o.setSequencer id e).sequencers i).periodCnts = (o.sequencers i).periodCnts := by
  show (Function.update o.sequencers id e i).periodCnts = _
  by_cases hi : i = id
  · rw [hi, Function.update_self, h]
  · rw [Function.update_of_ne hi]

theorem semWait_periodCnts {o u : OsalState} {id : UInt8} (h : o.semWait id = some u) (i : ℕ) :
    (u.sequencers i).periodCnts = (o.sequencers i).periodCnts := by
  simp only [semWait, Option.ite_none_right_eq_some, Option.some.injEq] at h
  obtain ⟨-, rfl⟩ := h
  exact setSequencer_periodCnts (by rfl) i

theorem osalTaskSuspend_periodCnts (o : OsalState) (id : UInt8) (i : ℕ) :
    ((o.osalTaskSuspend id).sequencers i).periodCnts = (o.sequencers i).periodCnts := by
  unfold osalTaskSuspend
  split
  · exact setSequencer_periodCnts (by rfl) i
  · rfl

/-! ### The scheduler thread -/

theorem schedulerInv_of_osal {i p : ℕ} {c : SchedulerSystem} (h : SchedulerInv i p c)
    {o : OsalState} (hinit : o.osInitialized = c.osal.osInitialized)
    (hlive : c.osal.taskStates i ≠ .unused → o.taskStates i ≠ .unused)
    (hperiod : (o.sequencers i).periodCnts = (c.osal.sequencers i).periodCnts) :
    SchedulerInv i p { c with osal := o } where
  initialized := hinit.trans h.initialized
  live := hlive h.live
  period := by
    rw [← h.period]
    exact congrArg UInt32.toNat hperiod
  pass := h.pass
  taken := h.taken

/- Between two visits no task is started. -/
theorem schedulerStep_idle {c d : SchedulerSystem} {a : SchedulerAct} (ha : a ≠ .visit)
    (hd : schedulerStep c a = some d) :
    d.calls = c.calls ∧ d.osal.sequencers = c.osal.sequencers ∧ ∀ i, d.visited i = c.visited i := by
  cases a with
  | post =>
    obtain rfl := Option.some.inj hd
    unfold signalSched
    split
    · exact ⟨rfl, rfl, fun i => rfl⟩
    · exact ⟨rfl, rfl, fun i => rfl⟩
  | incTick =>
    simp only [schedulerStep, Option.ite_none_right_eq_some, Option.some.injEq] at hd
    obtain ⟨-, rfl⟩ := hd
    exact ⟨rfl, rfl, fun i => rfl⟩
  | wait =>
    simp only [schedulerStep, Option.ite_none_right_eq_some, Option.some.injEq] at hd
    obtain ⟨⟨hpc, -⟩, rfl⟩ := hd
    refine ⟨rfl, rfl, fun i => ?_⟩
    simp [SchedulerSystem.visited, hpc]
  | interrupted =>
    simp only [schedulerStep, Option.ite_none_right_eq_some, Option.some.injEq] at hd
    obtain ⟨hpc, rfl⟩ := hd
    refine ⟨rfl, rfl, fun i => ?_⟩
    simp [SchedulerSystem.visited, hpc]
  | visit => exact absurd rfl ha

theorem due_iff_dvd {i p : ℕ} {c : SchedulerSystem} (h : SchedulerInv i p c)
    (hp : 0 < p) (htick : c.osal.tick.toNat + δ = c.visited i + 1) :
    c.osal.Due i ↔ p ∣ c.visited i + (p - 1) * δ + 1 := by
  obtain ⟨q, rfl⟩ : ∃ q, p = q + 1 := ⟨p - 1, by omega⟩
  have hsum : c.visited i + (q + 1 - 1) * δ + 1 = c.osal.tick.toNat + (q + 1) * δ := by
    rw [Nat.add_sub_cancel, Nat.succ_mul]
    omega
  rw [due_iff hp h.live h.period, hsum]
  exact (Nat.dvd_add_left (Nat.dvd_mul_right _ _)).symm

/-- Posts and starts of each task against the visits of its entry. A visit with the
tick `δ` behind the number of the pass starts the task as an exact one `δ` passes
before would. -/
structure Activated (δ : ℕ) (cap : Task → ℕ) (s : Clocked n) : Prop where
  scheduler : ∀ task : Task, SchedulerInv task.entry task.periodCnts s.scheduler
  starts : ∀ task, s.starts task =
    (s.scheduler.visited task.entry + (task.periodCnts - 1) * δ) / task.periodCnts
  posts : ∀ task, s.wakes task + s.signalSem task = s.starts task + s.interrupts task
  room : ∀ task, s.signalSem task ≤ cap task

theorem init_activated {osal : OsalState} (h : Ready osal) (hδ : δ ≤ 1) :
    Activated δ cap (Clocked.init osal : Clocked n) where
  scheduler task :=
    ⟨h.initialized, h.live task, h.period task, fun post next hpc => (by cases hpc),
      fun next hpc => (by cases hpc)⟩
  starts task := by
    have hpos := task.periodCnts_pos
    have hle : (task.periodCnts - 1) * δ ≤ (task.periodCnts - 1) * 1 := Nat.mul_le_mul_left _ hδ
    refine (Nat.div_eq_of_lt ?_).symm
    show 0 + (task.periodCnts - 1) * δ < task.periodCnts
    omega
  posts task := by
    show 0 + (osal.sequencers task.entry).signalSem = 0 + 0
    rw [h.semaphore task]
  room task := by
    show (osal.sequencers task.entry).signalSem ≤ cap task
    rw [h.semaphore task]
    exact Nat.zero_le _

/-! ### One step -/

theorem Activated.idle (h : Activated δ cap s) {c : SchedulerSystem} {a : SchedulerAct}
    (ha : a ≠ .visit) (hc : schedulerStep s.scheduler a = some c) :
    Activated δ cap { s with scheduler := c } := by
  obtain ⟨hcalls, hseq, hvisited⟩ := schedulerStep_idle ha hc
  have hstarts (task : Task) : ({ s with scheduler := c } : Clocked n).starts task =
      s.starts task := by
    show (c.callsOf task.entry).length = _
    rw [SchedulerSystem.callsOf, hcalls]
    rfl
  have hsem (task : Task) : ({ s with scheduler := c } : Clocked n).signalSem task =
      s.signalSem task := by
    show (c.osal.sequencers task.entry).signalSem = _
    rw [hseq]
    rfl
  exact
    { scheduler := fun task => step_schedulerInv (h.scheduler task) hc
      starts := fun task => by
        rw [hstarts, h.starts]
        exact congrArg (fun v => (v + _) / _) (hvisited task.entry).symm
      posts := fun task => by
        rw [hstarts, hsem]
        exact h.posts task
      room := fun task => by
        rw [hsem]
        exact h.room task }

theorem Activated.visit (h : Activated δ cap s) (hcap : ∀ task, cap task ≤ semValueMax)
    {post : Bool} {j : ℕ} (hpc : s.scheduler.pc = .visiting post j)
    (htime : VisitOnTime δ cap s s.scheduler.pc) :
    Activated δ cap { s with scheduler := s.scheduler.afterVisit post j } := by
  rw [hpc] at htime
  obtain ⟨rfl, htick, hdeadline⟩ := htime
  have hj := (h.scheduler .detection).pass true j hpc
  have hinit := (h.scheduler .detection).initialized
  have htaken := (h.scheduler .detection).taken j hpc
  have hsem (task : Task) :
      ({ s with scheduler := s.scheduler.afterVisit true j } : Clocked n).signalSem task =
        s.signalSem task + if j = task.entry ∧ s.osal.Due j then 1 else 0 := by
    refine visit_signalSem hj hinit fun hentry hdue => ?_
    exact hentry ▸ (hdeadline task hentry.symm hdue).trans_le (hcap task)
  have hstarts (task : Task) :
      ({ s with scheduler := s.scheduler.afterVisit true j } : Clocked n).starts task =
        s.starts task + if j = task.entry ∧ s.osal.Due j then 1 else 0 := by
    show ((s.scheduler.afterVisit true j).callsOf task.entry).length = _
    rw [afterVisit_callsOf true hj hinit, List.length_append]
    by_cases hdue : j = task.entry ∧ s.scheduler.osal.Due j
    · rw [if_pos hdue, if_pos (show j = task.entry ∧ s.osal.Due j from hdue)]
      rfl
    · rw [if_neg hdue, if_neg (show ¬ (j = task.entry ∧ s.osal.Due j) from hdue)]
      rfl
  have hvisited (task : Task) :
      (s.scheduler.afterVisit true j).visited task.entry =
        if j = task.entry then s.scheduler.visited task.entry + 1
        else s.scheduler.visited task.entry := by
    rw [afterVisit_visited task.entry_lt hj hpc fun _ => htaken]
    simp only [true_and]
  refine ⟨fun task => step_schedulerInv (h.scheduler task) (visit_step hpc), fun task => ?_,
    fun task => ?_, fun task => ?_⟩
  · show _ = ((s.scheduler.afterVisit true j).visited task.entry + _) / _
    rw [hstarts, hvisited, h.starts]
    by_cases hentry : j = task.entry
    · have hv : s.scheduler.visited task.entry + 1 = s.scheduler.consumed := by
        simp only [SchedulerSystem.visited, hpc, hentry, Nat.lt_irrefl, if_false]
        omega
      have hdue := due_iff_dvd (h.scheduler task) task.periodCnts_pos (htick.trans hv.symm)
      rw [if_pos hentry, Nat.add_right_comm, Nat.succ_div]
      simp only [hentry, true_and]
      exact congrArg _ (if_congr hdue rfl rfl)
    · rw [if_neg hentry, if_neg fun hdue => hentry hdue.1]
      rfl
  · rw [hsem, hstarts]
    have := h.posts task
    show s.wakes task + _ = _ + s.interrupts task
    omega
  · rw [hsem]
    have hroom := h.room task
    by_cases hdue : j = task.entry ∧ s.osal.Due j
    · rw [if_pos hdue]
      exact hdeadline task hdue.1.symm hdue.2
    · rw [if_neg hdue]
      exact hroom

/- The tables after a statement of `osal_task_delay`. -/
theorem Activated.of_osal (h : Activated δ cap s) {o : OsalState} {t : Clocked n}
    (ht : t.scheduler = { s.scheduler with osal := o })
    (hinit : o.osInitialized = s.osal.osInitialized)
    (hlive : ∀ i, s.osal.taskStates i ≠ .unused → o.taskStates i ≠ .unused)
    (hperiod : ∀ i, (o.sequencers i).periodCnts = (s.osal.sequencers i).periodCnts)
    (hsem : ∀ task, t.signalSem task ≤ s.signalSem task)
    (hposts : ∀ task, t.wakes task + t.signalSem task + s.interrupts task =
      s.wakes task + s.signalSem task + t.interrupts task) : Activated δ cap t := by
  have hstarts (task : Task) : t.starts task = s.starts task := by
    rw [Clocked.starts, ht]
    rfl
  refine ⟨fun task => ?_, fun task => ?_, fun task => ?_, fun task => ?_⟩
  · rw [ht]
    exact schedulerInv_of_osal (h.scheduler task) hinit (hlive task.entry) (hperiod task.entry)
  · rw [hstarts, h.starts, ht]
    rfl
  · have := hposts task
    have := h.posts task
    rw [hstarts]
    omega
  · exact (hsem task).trans (h.room task)

theorem Activated.suspend (h : Activated δ cap s) (task : Task) (asleep : Task → Bool) :
    Activated δ cap { s.setOsal (s.osal.osalTaskSuspend task.entry.toUInt8) with
      asleep := asleep } := by
  have hsem (other : Task) :
      ((s.osal.osalTaskSuspend task.entry.toUInt8).sequencers other.entry).signalSem =
        s.signalSem other :=
    osalTaskSuspend_sems _ _ _
  refine h.of_osal rfl (osalTaskSuspend_sameTable _ _).1
    (fun i => (osalTaskSuspend_keeps _ _ i).used) (fun i => osalTaskSuspend_periodCnts _ _ i)
    (fun other => (hsem other).le) fun other => ?_
  show s.wakes other + _ + s.interrupts other = _
  rw [Clocked.signalSem]
  exact congrArg (fun k => s.wakes other + k + s.interrupts other) (hsem other)

theorem Activated.wake (h : Activated δ cap s) {task : Task} {o : OsalState}
    (ho : s.osal.semWait task.entry.toUInt8 = some o) (tasks : Tasks n) :
    Activated δ cap ((s.setOsal o).wake task tasks) := by
  obtain ⟨htaken, hother⟩ := semWait_sems ho
  rw [task.entry_toNat] at htaken hother
  have htaken : s.signalSem task = (o.sequencers task.entry).signalSem + 1 := htaken
  have hother (other : Task) (hne : other ≠ task) :
      (o.sequencers other.entry).signalSem = s.signalSem other :=
    hother other.entry fun hentry => hne (Task.entry_inj hentry)
  refine h.of_osal rfl (semWait_sameTable ho).1 (fun i => (semWait_keeps ho i).used)
    (fun i => semWait_periodCnts ho i) (fun other => ?_) fun other => ?_
  · show (o.sequencers other.entry).signalSem ≤ s.signalSem other
    by_cases hne : other = task
    · rw [hne]
      omega
    · exact (hother other hne).le
  · show Function.update s.wakes task (s.wakes task + 1) other +
        (o.sequencers other.entry).signalSem + s.interrupts other =
      s.wakes other + s.signalSem other + s.interrupts other
    by_cases hne : other = task
    · rw [hne, Function.update_self]
      omega
    · rw [Function.update_of_ne hne, hother other hne]

theorem Activated.interrupted (h : Activated δ cap s) (task : Task) (tasks : Tasks n) :
    Activated δ cap { s.wake task tasks with
      interrupts := Function.update s.interrupts task (s.interrupts task + 1) } := by
  refine h.of_osal (o := s.osal) rfl rfl (fun _ hlive => hlive) (fun _ => rfl)
    (fun _ => Nat.le_refl _) fun other => ?_
  show Function.update s.wakes task (s.wakes task + 1) other + s.signalSem other +
      s.interrupts other =
    s.wakes other + s.signalSem other +
      Function.update s.interrupts task (s.interrupts task + 1) other
  by_cases hne : other = task
  · rw [hne, Function.update_self, Function.update_self]
    omega
  · rw [Function.update_of_ne hne, Function.update_of_ne hne]

theorem step_activated (hcap : ∀ task, cap task ≤ semValueMax) {a : ClockedAct}
    (h : Activated δ cap s) (ha : OnTime δ cap s a) (ht : s.step lut inp a = some t) :
    Activated δ cap t := by
  cases a with
  | scheduler a =>
    obtain ⟨c, hc, rfl⟩ := Option.map_eq_some_iff.mp ht
    by_cases hvisit : a = .visit
    · subst hvisit
      cases hpc : s.scheduler.pc with
      | waiting => simp [schedulerStep, hpc] at hc
      | visiting post j =>
        rw [visit_step hpc] at hc
        obtain rfl := Option.some.inj hc
        exact h.visit hcap hpc ha
    · exact h.idle hvisit hc
  | task task =>
    simp only [Clocked.step, Clocked.delayStep] at ht
    split at ht
    · split at ht
      · split at ht
        · next o tasks ho htasks =>
          obtain rfl := Option.some.inj ht
          exact h.wake ho tasks
        · cases ht
      · split at ht
        · obtain rfl := Option.some.inj ht
          exact h.suspend task _
        · next hinit => exact absurd (h.scheduler task).initialized hinit
    · obtain ⟨tasks, -, rfl⟩ := Option.map_eq_some_iff.mp ht
      exact ⟨h.scheduler, h.starts, h.posts, h.room⟩
  | interrupted task =>
    simp only [Clocked.step, Option.ite_none_right_eq_some] at ht
    obtain ⟨tasks, -, rfl⟩ := Option.map_eq_some_iff.mp ht.2
    exact h.interrupted task tasks

/-! ### The passes of the threads -/

/-- The transcoder has woken `w` times: where its two calls of `process_frames` are. -/
def TranscoderAt (t : TranscoderThread) (w : ℕ) : Prop :=
  match t.pc with
  | .exitTest => t.calls = 2 * w
  | .forTest => t.i ≤ 2 ∧ t.calls = 2 * w + t.i
  | .getframe => t.i < 2 ∧ t.calls = 2 * w + t.i
  | .convert | .write | .freeframe | .increment => t.i < 2 ∧ t.calls = 2 * w + t.i + 1
  | .delay => t.calls = 2 * w + 2
  | .ended => False

/-- The nvm task has woken `w` times: where its two reads are. -/
def NvmAt (t : NvmThread) (w : ℕ) : Prop :=
  match t.pc with
  | .forTest => t.i ≤ 2 ∧ t.reads = 2 * w + t.i
  | .startread => t.i < 2 ∧ t.reads = 2 * w + t.i
  | .save | .traceError | .endread | .increment => t.i < 2 ∧ t.reads = 2 * w + t.i + 1
  | .exitTest | .delay => t.reads = 2 * w + 2
  | .close | .ended => False

theorem TranscoderAt.calls {t : TranscoderThread} {w : ℕ} (h : TranscoderAt t w) :
    2 * w ≤ t.calls ∧ t.calls ≤ 2 * w + 2 := by
  unfold TranscoderAt at h
  split at h
  case h_9 => exact h.elim
  all_goals omega

theorem NvmAt.reads {t : NvmThread} {w : ℕ} (h : NvmAt t w) :
    2 * w ≤ t.reads ∧ t.reads ≤ 2 * w + 2 := by
  unfold NvmAt at h
  split at h
  case h_9 => exact h.elim
  case h_10 => exact h.elim
  all_goals omega

theorem TranscoderAt.step {t : TranscoderThread} {w : ℕ} (h : TranscoderAt t w)
    (hflag : t.exitTask = false) (getframe : ℕ → SysResult) :
    TranscoderAt (t.taskStep getframe) (w + if t.pc = .delay then 1 else 0) := by
  obtain ⟨pc, exitTask, i, calls⟩ := t
  obtain rfl : exitTask = false := hflag
  cases pc with
  | exitTest => exact ⟨Nat.zero_le 2, h⟩
  | forTest =>
    obtain ⟨hi, hcalls⟩ := h
    simp only [TranscoderThread.taskStep, TranscoderThread.goto]
    by_cases hlt : i < 2
    · rw [if_pos hlt]
      exact ⟨hlt, hcalls⟩
    · rw [if_neg hlt]
      show calls = 2 * w + 2
      simp only at hcalls hi
      omega
  | getframe =>
    obtain ⟨hi, hcalls⟩ := h
    simp only [TranscoderThread.taskStep]
    split
    · exact ⟨hi, congrArg (· + 1) hcalls⟩
    · exact ⟨hi, congrArg (· + 1) hcalls⟩
  | convert => exact h
  | write => exact h
  | freeframe => exact h
  | increment => exact ⟨h.1, h.2⟩
  | delay =>
    show calls = 2 * (w + 1)
    have : calls = 2 * w + 2 := h
    omega
  | ended => exact h

theorem NvmAt.step {t : NvmThread} {w : ℕ} (h : NvmAt t w) (hflag : t.exitTask = false)
    (calls : NvmCalls) : NvmAt (t.taskStep calls) (w + if t.pc = .delay then 1 else 0) := by
  obtain ⟨pc, exitTask, i, reads, saves, closed⟩ := t
  obtain rfl : exitTask = false := hflag
  cases pc with
  | forTest =>
    obtain ⟨hi, hreads⟩ := h
    simp only [NvmThread.taskStep, NvmThread.goto]
    by_cases hlt : i < 2
    · rw [if_pos hlt]
      exact ⟨hlt, hreads⟩
    · rw [if_neg hlt]
      show reads = 2 * w + 2
      simp only at hreads hi
      omega
  | startread =>
    obtain ⟨hi, hreads⟩ := h
    simp only [NvmThread.taskStep]
    split
    · exact ⟨hi, congrArg (· + 1) hreads⟩
    · exact ⟨hi, congrArg (· + 1) hreads⟩
  | save =>
    simp only [NvmThread.taskStep]
    split
    · exact h
    · exact h
  | traceError => exact h
  | endread => exact h
  | increment => exact ⟨h.1, h.2⟩
  | exitTest => exact h
  | delay =>
    have : reads = 2 * w + 2 := h
    exact ⟨Nat.zero_le 2, show reads = 2 * (w + 1) + 0 by omega⟩
  | close => exact h
  | ended => exact h

/-- The numbers of passes against the delays that have ended. -/
structure Passes (s : Tasks n) (wakes : Task → ℕ) : Prop where
  detection : s.detection.pass = wakes .detection
  camera : s.camera.pass = wakes .camera
  transcoder : TranscoderAt s.transcoder (wakes .transcoder)
  nvm : NvmAt s.nvm (wakes .nvm)
  flags : s.transcoder.exitTask = false ∧ s.nvm.exitTask = false

theorem init_passes : Passes (Tasks.init : Tasks n) fun _ => 0 :=
  ⟨rfl, rfl, rfl, ⟨Nat.zero_le 2, rfl⟩, rfl, rfl⟩

theorem camera_pass (input : ℕ → PassInput) (t : CameraThread) :
    (t.taskStep input).pass = t.pass + if t.pc = .delay then 1 else 0 := by
  obtain ⟨pc, ⟨state, numWrites, capturestates⟩, event, pass⟩ := t
  cases pc with
  | eventSwitch => cases event <;> rfl
  | stateSwitch => cases state <;> rfl
  | _ => rfl

theorem detection_pass (rd : ℕ → Reading) (t : DetectionThread) :
    (t.taskStep rd).pass = t.pass + if t.pc = .delay then 1 else 0 := by
  by_cases hdelay : t.pc = .delay
  · rw [if_pos hdelay, taskStep_delay hdelay]
  · rw [if_neg hdelay, taskStep_pass rd hdelay]
    rfl

theorem transcoder_exitTask (getframe : ℕ → SysResult) (t : TranscoderThread) :
    (t.taskStep getframe).exitTask = t.exitTask := by
  obtain ⟨pc, exitTask, i, calls⟩ := t
  cases pc with
  | exitTest => cases exitTask <;> rfl
  | _ => rfl

theorem nvm_exitTask (calls : NvmCalls) (t : NvmThread) :
    (t.taskStep calls).exitTask = t.exitTask := by
  obtain ⟨pc, exitTask, i, reads, saves, closed⟩ := t
  cases pc with
  | _ => rfl

/- What a statement of one task does to the threads. -/
inductive ThreadStep (inp : Inputs n) (s t : Tasks n) : Task → Prop
  | detection (own : t.detection = s.detection.taskStep inp.rd) (camera : t.camera = s.camera)
      (transcoder : t.transcoder = s.transcoder) (nvm : t.nvm = s.nvm) :
      ThreadStep inp s t .detection
  | camera (x : ℕ → PassInput) (detection : t.detection = s.detection)
      (own : t.camera = s.camera.taskStep x) (transcoder : t.transcoder = s.transcoder)
      (nvm : t.nvm = s.nvm) : ThreadStep inp s t .camera
  | transcoder (x : ℕ → SysResult) (detection : t.detection = s.detection)
      (camera : t.camera = s.camera) (own : t.transcoder = s.transcoder.taskStep x)
      (nvm : t.nvm = s.nvm) : ThreadStep inp s t .transcoder
  | nvm (x : NvmCalls) (detection : t.detection = s.detection) (camera : t.camera = s.camera)
      (transcoder : t.transcoder = s.transcoder) (own : t.nvm = s.nvm.taskStep x) :
      ThreadStep inp s t .nvm

/- What a statement of `nvmTask` sees of the buffer and of the socket is the result of
one call. -/
theorem nvmStep_thread {s t : Tasks n} (ht : s.nvmStep inp = some t) :
    ∃ result : SysResult,
      t.nvm = s.nvm.taskStep ⟨fun _ => result, fun _ => result⟩ ∧
      t.detection = s.detection ∧ t.camera = s.camera ∧ t.transcoder = s.transcoder ∧
      (s.nvm.pc = .startread → result = (imagebufferStartread s.imageBuffer).1) := by
  unfold Tasks.nvmStep at ht
  split at ht
  · obtain rfl := Option.some.inj ht
    exact ⟨_, rfl, rfl, rfl, rfl, fun _ => rfl⟩
  · next hpc =>
    split at ht
    · next result sockfd sends hsave =>
      obtain rfl := Option.some.inj ht
      exact ⟨result, rfl, rfl, rfl, rfl, fun hpc' => by cases hpc.symm.trans hpc'⟩
    · cases ht
  · next hpc =>
    obtain rfl := Option.some.inj ht
    exact ⟨.success, rfl, rfl, rfl, rfl, fun hpc' => by cases hpc.symm.trans hpc'⟩
  · next hno _ _ =>
    obtain rfl := Option.some.inj ht
    exact ⟨.success, rfl, rfl, rfl, rfl, fun hpc => absurd hpc hno⟩

theorem step_threads {s t : Tasks n} {task : Task} (ht : s.step lut inp task = some t) :
    ThreadStep inp s t task := by
  cases task with
  | detection =>
    obtain rfl := Option.some.inj ht
    unfold Tasks.detectionStep
    split
    · exact .detection rfl rfl rfl rfl
    · exact .detection rfl rfl rfl rfl
  | camera =>
    obtain rfl := Option.some.inj ht
    let seen : PassInput := ⟨(processEventQueue s.queue).1,
      (CaptureStore.writeframe (inp.io s.camera.pass) true s.capture).1⟩
    unfold Tasks.cameraStep
    split
    · exact .camera (fun _ => seen) rfl rfl rfl rfl
    · exact .camera (fun _ => seen) rfl rfl rfl rfl
  | transcoder =>
    obtain rfl := Option.some.inj ht
    unfold Tasks.transcoderStep
    split <;>
      exact .transcoder (fun _ => (framebufferGetframePtr s.capture.ring).1) rfl rfl rfl rfl
  | nvm =>
    obtain ⟨result, own, hdetection, hcamera, htranscoder, -⟩ := nvmStep_thread ht
    exact .nvm _ hdetection hcamera htranscoder own

theorem step_passes {s t : Tasks n} {task : Task} {wakes : Task → ℕ} (h : Passes s wakes)
    (ht : s.step lut inp task = some t) :
    Passes t (Function.update wakes task (wakes task + if s.AtDelay task then 1 else 0)) := by
  cases step_threads ht with
  | detection own camera transcoder nvm =>
    refine ⟨?_, ?_, ?_, ?_, ?_⟩
    · rw [own, Function.update_self, ← h.detection]
      exact detection_pass inp.rd s.detection
    · rw [camera]
      exact h.camera
    · rw [transcoder]
      exact h.transcoder
    · rw [nvm]
      exact h.nvm
    · rw [transcoder, nvm]
      exact h.flags
  | camera x detection own transcoder nvm =>
    refine ⟨?_, ?_, ?_, ?_, ?_⟩
    · rw [detection]
      exact h.detection
    · rw [own, Function.update_self, ← h.camera]
      exact camera_pass x s.camera
    · rw [transcoder]
      exact h.transcoder
    · rw [nvm]
      exact h.nvm
    · rw [transcoder, nvm]
      exact h.flags
  | transcoder x detection camera own nvm =>
    refine ⟨?_, ?_, ?_, ?_, ?_⟩
    · rw [detection]
      exact h.detection
    · rw [camera]
      exact h.camera
    · rw [own, Function.update_self]
      exact h.transcoder.step h.flags.1 x
    · rw [nvm]
      exact h.nvm
    · rw [own, transcoder_exitTask, nvm]
      exact h.flags
  | nvm x detection camera transcoder own =>
    refine ⟨?_, ?_, ?_, ?_, ?_⟩
    · rw [detection]
      exact h.detection
    · rw [camera]
      exact h.camera
    · rw [transcoder]
      exact h.transcoder
    · rw [own, Function.update_self]
      exact h.nvm.step h.flags.2 x
    · rw [transcoder, own, nvm_exitTask]
      exact h.flags

end MotionDetector.Pipeline
