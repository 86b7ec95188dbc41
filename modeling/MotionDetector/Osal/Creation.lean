import MotionDetector.Osal.TaskEffects

/-!
# The result of `osal_task_create`

Past the check of the priority every outcome is reported as `SYS_SUCCESS`. The
entry is written and counted whether or not a thread was created for it, and
whether or not the table has it.
-/

namespace MotionDetector.Osal

open OsalState

/-- `osal_task_create` gets past its checks. -/
def Admitted (c : Create) (s : OsalState) : Prop :=
  s.osInitialized = true ∧ s.rtMinPrio ≤ c.priority.toNat ∧ (c.priority.toNat : ℤ) ≤ s.rtMaxPrio

instance (c : Create) (s : OsalState) : Decidable (Admitted c s) :=
  inferInstanceAs (Decidable (_ ∧ _))

/-- The entry of a task in `osal_task_tcb`. -/
def tcbEntry (c : Create) (calls : CreateCalls) (idx : UInt8) : TaskTcb :=
  { taskId := idx, taskName := c.name, taskStack := c.stack, taskPriority := c.priority
    taskFunc := c.taskFunc, taskExitFunc := c.exitFunc, taskArgs := (idx, c.args)
    taskHandle := calls.taskHandle }

/-- From `s` to `t` the thread was given the next entry of the tables, inside of
them and in use. -/
structure Registered (c : Create) (calls : CreateCalls) (s t : OsalState) : Prop where
  inTable : s.taskIdx.toNat < MAX_TASKS
  counted : t.taskIdx = s.taskIdx + 1
  tcb : t.tcb = Function.update s.tcb s.taskIdx.toNat (tcbEntry c calls s.taskIdx)
  period : (t.sequencers s.taskIdx.toNat).periodMs = c.periodMs
  used : t.taskStates s.taskIdx.toNat ≠ .unused

/-- `pthread_create` was reached, which is so past the checks, and succeeded. -/
def ThreadStarted (c : Create) (calls : CreateCalls) (s : OsalState) : Prop :=
  Admitted c s ∧ calls.pthreadCreate = 0

structure AllOrNothing (c : Create) (calls : CreateCalls) (s : OsalState) : Prop where
  success : (s.osalTaskCreate c calls).1 = .success ↔
    ThreadStarted c calls s ∧ Registered c calls s (s.osalTaskCreate c calls).2.2
  failure : ¬ (ThreadStarted c calls s ∧ Registered c calls s (s.osalTaskCreate c calls).2.2) →
    (s.osalTaskCreate c calls).1 = .failure ∧
      (s.osalTaskCreate c calls).2.2.taskIdx = s.taskIdx ∧
      (s.osalTaskCreate c calls).2.2.tcb = s.tcb ∧
      (s.osalTaskCreate c calls).2.2.sequencers = s.sequencers

/-- The entry can be marked: it is in use already, it is only suspended, or its
semaphore, which a failed `sem_init` leaves as it is, takes a post. -/
def Markable (calls : CreateCalls) (s : OsalState) : Prop :=
  s.schedulerStarted = true → calls.semInit < 0 →
    (s.sequencers s.taskIdx.toNat).signalSem < semValueMax ∨
      s.taskStates s.taskIdx.toNat ≠ .unused

/-! ### What a call that gets past the checks does -/

theorem osalTaskCreate_refused {c : Create} (calls : CreateCalls) {s : OsalState}
    (h : ¬ Admitted c s) : s.osalTaskCreate c calls = (.failure, none, s) := by
  unfold osalTaskCreate
  split
  · rfl
  · next hinit =>
    rw [if_pos]
    by_contra hprio
    apply h
    simp only [Admitted]
    simp only [not_not] at hinit
    exact ⟨hinit, by omega, by omega⟩

/-- The tables before the entry is marked and counted. -/
def prepared (c : Create) (calls : CreateCalls) (s : OsalState) : OsalState :=
  ((s.fillTcb c).osalSemInit s.taskIdx.toNat calls.semInit).2.setThread c calls

theorem osalTaskCreate_admitted {c : Create} (calls : CreateCalls) {s : OsalState}
    (h : Admitted c s) :
    s.osalTaskCreate c calls = (.success, some s.taskIdx, (prepared c calls s).register) := by
  obtain ⟨hinit, hmin, hmax⟩ := h
  unfold osalTaskCreate
  rw [if_neg (by simp [hinit]), if_neg (by omega), if_neg (by simp)]
  simp [prepared]

theorem prepared_fields (c : Create) (calls : CreateCalls) (s : OsalState) :
    (prepared c calls s).osInitialized = s.osInitialized ∧
      (prepared c calls s).schedulerStarted = s.schedulerStarted ∧
      (prepared c calls s).taskIdx = s.taskIdx := by
  unfold prepared osalSemInit
  split
  · simp [setThread, osalTaskSetPeriod, setSequencer, setTcb, access, fillTcb]
  · simp [setThread, osalTaskSetPeriod, setSequencer, setTcb, access, fillTcb]

theorem prepared_tcb (c : Create) (calls : CreateCalls) (s : OsalState) :
    (prepared c calls s).tcb =
      Function.update s.tcb s.taskIdx.toNat (tcbEntry c calls s.taskIdx) := by
  unfold prepared osalSemInit
  split
  · simp [setThread, osalTaskSetPeriod, setSequencer, setTcb, access, fillTcb, tcbEntry]
  · simp [setThread, osalTaskSetPeriod, setSequencer, setTcb, access, fillTcb, tcbEntry]

theorem prepared_sequencer (c : Create) (calls : CreateCalls) (s : OsalState) :
    (prepared c calls s).sequencers s.taskIdx.toNat =
      { periodMs := c.periodMs, periodCnts := c.periodMs / TIMER_TICK_MS
        signalSem := if calls.semInit < 0 then (s.sequencers s.taskIdx.toNat).signalSem else 0
        taskState := s.taskStates s.taskIdx.toNat } := by
  unfold prepared osalSemInit
  split
  · next h => simp [setThread, osalTaskSetPeriod, setSequencer, setTcb, access, fillTcb, taskStates]
  · next h => simp [setThread, osalTaskSetPeriod, setSequencer, setTcb, access, fillTcb, taskStates]

/- A start marks the entry `task_idx`, here its own, unless the post fails. -/
theorem osalTaskStart_own {s : OsalState} (hinit : s.osInitialized = true) :
    (s.osalTaskStart s.taskIdx).2.taskIdx = s.taskIdx ∧
      (s.osalTaskStart s.taskIdx).2.tcb = s.tcb ∧
      ((s.osalTaskStart s.taskIdx).2.sequencers s.taskIdx.toNat).periodMs =
        (s.sequencers s.taskIdx.toNat).periodMs ∧
      (s.osalTaskStart s.taskIdx).2.taskStates s.taskIdx.toNat =
        if (s.sequencers s.taskIdx.toNat).signalSem < semValueMax then .running
        else s.taskStates s.taskIdx.toNat := by
  by_cases hsem : (s.sequencers s.taskIdx.toNat).signalSem < semValueMax
  · simp [osalTaskStart, hinit, semPost, hsem, isError, setTaskState, setSequencer, access,
      taskStates]
  · simp [osalTaskStart, hinit, semPost, hsem, isError, access, taskStates]

theorem register_fields {s : OsalState} (hinit : s.osInitialized = true) :
    s.register.taskIdx = s.taskIdx + 1 ∧ s.register.tcb = s.tcb ∧
      (s.register.sequencers s.taskIdx.toNat).periodMs =
        (s.sequencers s.taskIdx.toNat).periodMs ∧
      s.register.taskStates s.taskIdx.toNat =
        if s.schedulerStarted = false then .suspended
        else if (s.sequencers s.taskIdx.toNat).signalSem < semValueMax then .running
        else s.taskStates s.taskIdx.toNat := by
  unfold register
  by_cases hstarted : s.schedulerStarted = true
  · obtain ⟨-, htcb, hperiod, hstate⟩ := osalTaskStart_own hinit
    rw [if_pos hstarted]
    refine ⟨rfl, htcb, hperiod, ?_⟩
    rw [hstarted, if_neg (by decide)]
    exact hstate
  · simp only [Bool.not_eq_true] at hstarted
    simp [hstarted, setTaskState, setSequencer, access, taskStates]

theorem registered_iff (c : Create) (calls : CreateCalls) {s : OsalState}
    (hinit : s.osInitialized = true) :
    Registered c calls s (prepared c calls s).register ↔
      s.taskIdx.toNat < MAX_TASKS ∧ Markable calls s := by
  obtain ⟨hinit', hstarted, hidx⟩ := prepared_fields c calls s
  have hsequencer := prepared_sequencer c calls s
  obtain ⟨hcounted, htcb, hperiod, hstate⟩ :=
    register_fields (s := prepared c calls s) (hinit'.trans hinit)
  rw [hidx] at hcounted hperiod hstate
  simp only [taskStates, hsequencer, hstarted] at hstate hperiod
  have hused : (prepared c calls s).register.taskStates s.taskIdx.toNat ≠ .unused ↔
      Markable calls s := by
    unfold taskStates Markable
    rw [hstate]
    cases s.schedulerStarted with
    | false => simp
    | true =>
      by_cases hsem : calls.semInit < 0
      · by_cases hroom : (s.sequencers s.taskIdx.toNat).signalSem < semValueMax
        · simp [hsem, hroom]
        · simp [hsem, hroom, taskStates]
      · simp [hsem, semValueMax]
  constructor
  · intro h
    exact ⟨h.inTable, hused.mp h.used⟩
  · rintro ⟨hlt, hmark⟩
    exact ⟨hlt, hcounted, htcb.trans (prepared_tcb c calls s), hperiod, hused.mpr hmark⟩

theorem allOrNothing_of_admitted {c : Create} {s : OsalState} (calls : CreateCalls)
    (h : Admitted c s) :
    AllOrNothing c calls s ↔
      calls.pthreadCreate = 0 ∧ s.taskIdx.toNat < MAX_TASKS ∧ Markable calls s := by
  have hreg := registered_iff c calls h.1
  have hcreate := osalTaskCreate_admitted calls h
  constructor
  · intro hall
    have hok := hall.success.mp (by rw [hcreate])
    rw [hcreate] at hok
    exact ⟨hok.1.2, hreg.mp hok.2⟩
  · intro ⟨hthread, hplace⟩
    have hok : ThreadStarted c calls s ∧
        Registered c calls s (s.osalTaskCreate c calls).2.2 := by
      rw [hcreate]
      exact ⟨⟨h, hthread⟩, hreg.mpr hplace⟩
    exact ⟨iff_of_true (by rw [hcreate]) hok, fun hno => absurd hok hno⟩

theorem allOrNothing_of_refused {c : Create} {s : OsalState} (calls : CreateCalls)
    (h : ¬ Admitted c s) : AllOrNothing c calls s := by
  have hcreate := osalTaskCreate_refused calls h
  refine ⟨iff_of_false ?_ fun hok => h hok.1.1, fun _ => ?_⟩
  · rw [hcreate]
    simp
  · rw [hcreate]
    exact ⟨rfl, rfl, rfl, rfl⟩

/-- In every state and for every outcome of the calls, `osal_task_create` is all
or nothing exactly when it refuses the arguments, or the thread is created and
the table has a free entry for it that can be marked. -/
theorem create_all_or_nothing_iff (c : Create) (calls : CreateCalls) (s : OsalState) :
    AllOrNothing c calls s ↔
      (Admitted c s →
        calls.pthreadCreate = 0 ∧ s.taskIdx.toNat < MAX_TASKS ∧ Markable calls s) := by
  by_cases h : Admitted c s
  · rw [allOrNothing_of_admitted calls h]
    simp [h]
  · exact iff_of_true (allOrNothing_of_refused calls h) fun hadmitted => absurd hadmitted h

def worker : Create := ⟨"worker", 0, 50, some 1, some 2, 55, 0⟩

/- `sched_get_priority_max(SCHED_FIFO)` is 99 and the minimum is 1. -/
def createdTasks (k : ℕ) : OsalState :=
  Nat.repeat (fun s => (s.osalTaskCreate worker ⟨0, 0, 0, 7⟩).2.2) k (.init 97 1)

/-- The first task although `pthread_create` fails with `EAGAIN`, and the sixth
task of a table of five, are both reported as created. -/
theorem create_reports_success :
    (¬ AllOrNothing worker ⟨0, 0, 11, 7⟩ (createdTasks 0) ∧
      ((createdTasks 0).osalTaskCreate worker ⟨0, 0, 11, 7⟩).1 = .success) ∧
    ¬ AllOrNothing worker ⟨0, 0, 0, 7⟩ (createdTasks 5) ∧
      ((createdTasks 5).osalTaskCreate worker ⟨0, 0, 0, 7⟩).1 = .success := by
  refine ⟨⟨fun h => ?_, by decide⟩, fun h => ?_, by decide⟩
  · have hthread := ((allOrNothing_of_admitted _ (by decide)).mp h).1
    exact absurd hthread (by decide)
  · have hlt := ((allOrNothing_of_admitted _ (by decide)).mp h).2.1
    exact absurd hlt (by decide)

end MotionDetector.Osal
