import MotionDetector.Osal.Scheduler
import MotionDetector.Pipeline.Statements
import MotionDetector.Shutdown.Program

/-!
# The pipeline under the scheduler

The statements of the four tasks and those of the scheduler thread in any order. A
task that has come to its `osal_task_delay` waits for its semaphore, which only the
sequencer posts. The program is in its normal operation: all tasks are created and
nothing has asked for a shutdown.
-/

namespace MotionDetector.Pipeline

open Transition Osal OsalState Shutdown Detection Camera Transcoder Nvm

variable {n : ℕ}

/-- The entry of the task in the table, in the order of creation. -/
def Task.entry : Task → ℕ
  | .detection => 0
  | .camera => 1
  | .transcoder => 2
  | .nvm => 3

/-- The period in timer ticks, with the rates of `main`. -/
def Task.periodCnts : Task → ℕ
  | .detection => 1
  | .camera => 2
  | .transcoder => 6
  | .nvm => 6

theorem Task.entry_lt (task : Task) : task.entry < MAX_TASKS := by
  cases task <;> decide

theorem Task.entry_toNat (task : Task) : task.entry.toUInt8.toNat = task.entry := by
  cases task <;> rfl

theorem Task.entry_inj {task other : Task} (h : task.entry = other.entry) : task = other := by
  cases task <;> cases other <;> first | rfl | cases h

theorem Task.periodCnts_pos (task : Task) : 0 < task.periodCnts := by
  cases task <;> decide

/-- The next statement of the task is the `osal_task_delay` of its loop. -/
def Tasks.AtDelay (s : Tasks n) : Task → Prop
  | .detection => s.detection.pc = .delay
  | .camera => s.camera.pc = .delay
  | .transcoder => s.transcoder.pc = .delay
  | .nvm => s.nvm.pc = .delay

instance (s : Tasks n) : (task : Task) → Decidable (s.AtDelay task)
  | .detection => inferInstanceAs (Decidable (_ = _))
  | .camera => inferInstanceAs (Decidable (_ = _))
  | .transcoder => inferInstanceAs (Decidable (_ = _))
  | .nvm => inferInstanceAs (Decidable (_ = _))

/-- `asleep task` tells that the task is in the `sem_wait` of its delay. `wakes`
counts the delays that have ended, `interrupts` those of them that a signal has
ended instead of a post. -/
structure Clocked (n : ℕ) where
  scheduler : SchedulerSystem
  asleep : Task → Bool
  wakes : Task → ℕ
  interrupts : Task → ℕ
  tasks : Tasks n

inductive ClockedAct where
  | scheduler (a : SchedulerAct)
  | task (task : Task)
  | interrupted (task : Task)

namespace Clocked

def init (osal : OsalState) : Clocked n :=
  ⟨.init osal, fun _ => false, fun _ => 0, fun _ => 0, .init⟩

def osal (s : Clocked n) : OsalState := s.scheduler.osal

def setOsal (osal : OsalState) (s : Clocked n) : Clocked n :=
  { s with scheduler := { s.scheduler with osal := osal } }

def signalSem (s : Clocked n) (task : Task) : ℕ := (s.osal.sequencers task.entry).signalSem

/-- Calls of `osal_task_start` by the sequencer. -/
def starts (s : Clocked n) (task : Task) : ℕ := (s.scheduler.callsOf task.entry).length

/-- The end of the `osal_task_delay` of the task. -/
def wake (task : Task) (tasks : Tasks n) (s : Clocked n) : Clocked n :=
  { s with
    asleep := Function.update s.asleep task false
    wakes := Function.update s.wakes task (s.wakes task + 1)
    tasks := tasks }

/-- `osal_task_delay`: the state is written, then the semaphore is waited for. -/
def delayStep (lut : ColorLut) (inp : Inputs n) (task : Task) (s : Clocked n) :
    Option (Clocked n) :=
  if s.asleep task then
    match s.osal.semWait task.entry.toUInt8, s.tasks.step lut inp task with
    | some osal, some tasks => some ((s.setOsal osal).wake task tasks)
    | _, _ => none
  else if s.osal.osInitialized then
    some { s.setOsal (s.osal.osalTaskSuspend task.entry.toUInt8) with
      asleep := Function.update s.asleep task true }
  else (s.tasks.step lut inp task).map fun tasks => s.wake task tasks

def step (lut : ColorLut) (inp : Inputs n) (s : Clocked n) : ClockedAct → Option (Clocked n)
  | .scheduler a =>
    (schedulerStep s.scheduler a).map fun scheduler => { s with scheduler := scheduler }
  | .task task =>
    if s.tasks.AtDelay task then s.delayStep lut inp task
    else (s.tasks.step lut inp task).map fun tasks => { s with tasks := tasks }
  | .interrupted task =>
    -- `EINTR` ends the wait, and `osal_task_delay` does not look at its result
    if s.tasks.AtDelay task ∧ s.asleep task then
      (s.tasks.step lut inp task).map fun tasks =>
        { s.wake task tasks with
          interrupts := Function.update s.interrupts task (s.interrupts task + 1) }
    else none

end Clocked

/-! ### Visits on time -/

/-- The pass of the sequencer has taken a post, and the tick is `δ` behind its number:
0 where the handler has come to its end, 1 where its post has woken the scheduler
before the increment. A task that is due has fewer than `cap` posts waiting. -/
def VisitOnTime (δ : ℕ) (cap : Task → ℕ) (s : Clocked n) : SchedulerPc → Prop
  | .waiting => True
  | .visiting post i =>
    post = true ∧ s.osal.tick.toNat + δ = s.scheduler.consumed ∧
      ∀ task : Task, task.entry = i → s.osal.Due i → s.signalSem task < cap task

def OnTime (δ : ℕ) (cap : Task → ℕ) (s : Clocked n) : ClockedAct → Prop
  | .scheduler .visit => VisitOnTime δ cap s s.scheduler.pc
  | _ => True

theorem forall_task {P : Task → Prop} :
    (∀ task, P task) ↔ P .detection ∧ P .camera ∧ P .transcoder ∧ P .nvm := by
  constructor
  · intro h
    exact ⟨h _, h _, h _, h _⟩
  · rintro ⟨hdetection, hcamera, htranscoder, hnvm⟩ task
    cases task with
    | detection => exact hdetection
    | camera => exact hcamera
    | transcoder => exact htranscoder
    | nvm => exact hnvm

instance (δ : ℕ) (cap : Task → ℕ) (s : Clocked n) : ∀ pc, Decidable (VisitOnTime δ cap s pc)
  | .waiting => inferInstanceAs (Decidable True)
  | .visiting _ _ =>
    decidable_of_iff (_ ∧ _ ∧ _) (and_congr Iff.rfl (and_congr Iff.rfl forall_task.symm))

instance (δ : ℕ) (cap : Task → ℕ) (s : Clocked n) : ∀ a, Decidable (OnTime δ cap s a)
  | .scheduler .visit => inferInstanceAs (Decidable (VisitOnTime _ _ _ _))
  | .scheduler .post => inferInstanceAs (Decidable True)
  | .scheduler .incTick => inferInstanceAs (Decidable True)
  | .scheduler .wait => inferInstanceAs (Decidable True)
  | .scheduler .interrupted => inferInstanceAs (Decidable True)
  | .task _ => inferInstanceAs (Decidable True)
  | .interrupted _ => inferInstanceAs (Decidable True)

/-! ### The tables that `main` makes -/

/-- The tasks of `main` are in their entries, with nothing posted. -/
structure Ready (osal : OsalState) : Prop where
  initialized : osal.osInitialized = true
  live : ∀ task : Task, osal.taskStates task.entry ≠ .unused
  period : ∀ task : Task, (osal.sequencers task.entry).periodCnts.toNat = task.periodCnts
  semaphore : ∀ task : Task, (osal.sequencers task.entry).signalSem = 0

def createAll (calls : Create → CreateCalls) (cs : List Create) (s : OsalState) : OsalState :=
  cs.foldl (fun s c => (s.osalTaskCreate c (calls c)).2.2) s

/-- The state behind `osal_start_scheduler`. -/
def mainTable (rtMaxPrio rtMinPrio : ℤ) (calls : Create → CreateCalls) (ret : ℤ) : OsalState :=
  ((createAll calls creates (.init rtMaxPrio rtMinPrio)).osalStartScheduler ret).2

/-- The entries of the table are those of `cs`. -/
structure Filled (rtMaxPrio rtMinPrio : ℤ) (cs : List Create) (s : OsalState) : Prop where
  initialized : s.osInitialized = true
  stopped : s.schedulerStarted = false
  priorities : s.rtMaxPrio = rtMaxPrio ∧ s.rtMinPrio = rtMinPrio
  taskIdx : s.taskIdx.toNat = cs.length
  entries : ∀ i c, cs[i]? = some c →
    s.taskStates i = .suspended ∧ (s.sequencers i).periodCnts = c.periodMs / TIMER_TICK_MS
  semaphores : ∀ i, (s.sequencers i).signalSem = 0

theorem create_sequencers {c : Create} (calls : CreateCalls) {s t : OsalState} (h : Admitted c s)
    (hstopped : s.schedulerStarted = false) (ht : (s.osalTaskCreate c calls).2.2 = t) :
    t.osInitialized = true ∧ t.schedulerStarted = false ∧
      (t.rtMaxPrio = s.rtMaxPrio ∧ t.rtMinPrio = s.rtMinPrio) ∧ t.taskIdx = s.taskIdx + 1 ∧
      t.sequencers = Function.update s.sequencers s.taskIdx.toNat
        { periodMs := c.periodMs, periodCnts := c.periodMs / TIMER_TICK_MS
          signalSem := if calls.semInit < 0 then (s.sequencers s.taskIdx.toNat).signalSem else 0
          taskState := .suspended } := by
  rw [osalTaskCreate_admitted calls h] at ht
  have hinit := h.1
  subst ht
  by_cases hsem : calls.semInit < 0
  · simp [prepared, register, osalSemInit, setThread, osalTaskSetPeriod, setTaskState,
      setSequencer, setTcb, access, fillTcb, hstopped, hinit, hsem]
  · simp [prepared, register, osalSemInit, setThread, osalTaskSetPeriod, setTaskState,
      setSequencer, setTcb, access, fillTcb, hstopped, hinit, hsem]

section Tables

variable {rtMaxPrio rtMinPrio : ℤ} {cs : List Create} {s : OsalState}

theorem Filled.create {c : Create} (h : Filled rtMaxPrio rtMinPrio cs s)
    (hlen : cs.length < MAX_TASKS)
    (hprio : rtMinPrio ≤ c.priority.toNat ∧ c.priority.toNat ≤ rtMaxPrio) (calls : CreateCalls) :
    Filled rtMaxPrio rtMinPrio (cs ++ [c]) (s.osalTaskCreate c calls).2.2 := by
  have hadmitted : Admitted c s := by
    refine ⟨h.initialized, ?_, ?_⟩
    · rw [h.priorities.2]
      exact hprio.1
    · rw [h.priorities.1]
      exact hprio.2
  obtain ⟨hinit, hstopped, hprios, hidx, hseq⟩ := create_sequencers calls hadmitted h.stopped rfl
  have hlt : cs.length < 5 := hlen
  have hat := h.taskIdx
  refine ⟨hinit, hstopped, ⟨hprios.1.trans h.priorities.1, hprios.2.trans h.priorities.2⟩, ?_,
    ?_, ?_⟩
  · rw [hidx, List.length_append, List.length_singleton, UInt8.toNat_add, h.taskIdx]
    exact Nat.mod_eq_of_lt (by simp; omega)
  · intro i c' hc
    rcases Nat.lt_or_ge i cs.length with hi | hi
    · rw [List.getElem?_append_left hi] at hc
      have hne : i ≠ s.taskIdx.toNat := by omega
      have hold := h.entries i c' hc
      simp only [taskStates, hseq, Function.update_of_ne hne]
      exact hold
    · rw [List.getElem?_append_right hi, List.getElem?_singleton] at hc
      split at hc
      · next hzero =>
        obtain rfl := Option.some.inj hc
        have heq : i = s.taskIdx.toNat := by omega
        rw [taskStates, hseq, heq, Function.update_self]
        exact ⟨rfl, rfl⟩
      · cases hc
  · intro i
    rw [hseq]
    by_cases heq : i = s.taskIdx.toNat
    · rw [heq, Function.update_self]
      simp only [h.semaphores, ite_self]
    · rw [Function.update_of_ne heq]
      exact h.semaphores i

theorem Filled.createAll {rest : List Create} (h : Filled rtMaxPrio rtMinPrio cs s)
    (hlen : (cs ++ rest).length ≤ MAX_TASKS)
    (hprio : ∀ c ∈ rest, rtMinPrio ≤ c.priority.toNat ∧ c.priority.toNat ≤ rtMaxPrio)
    (calls : Create → CreateCalls) :
    Filled rtMaxPrio rtMinPrio (cs ++ rest) (createAll calls rest s) := by
  induction rest generalizing cs s with
  | nil =>
    rw [List.append_nil]
    exact h
  | cons c rest ih =>
    obtain ⟨hc, hrest⟩ := List.forall_mem_cons.mp hprio
    rw [List.length_append, List.length_cons] at hlen
    have hnext := ih (h.create (by omega) hc (calls c)) (by simp; omega) hrest
    rwa [List.append_assoc, List.singleton_append] at hnext

theorem mainTable_ready (hmax : 95 ≤ rtMaxPrio) (hmin : rtMinPrio ≤ 75)
    (calls : Create → CreateCalls) (ret : ℤ) :
    Ready (mainTable rtMaxPrio rtMinPrio calls ret) := by
  have hempty : Filled rtMaxPrio rtMinPrio [] (.init rtMaxPrio rtMinPrio) :=
    ⟨rfl, rfl, ⟨rfl, rfl⟩, rfl, fun i c hc => (by cases hc), fun _ => rfl⟩
  have hfilled : Filled rtMaxPrio rtMinPrio creates
      (createAll calls creates (.init rtMaxPrio rtMinPrio)) := by
    refine hempty.createAll (by decide) ?_ calls
    intro c hc
    simp only [List.mem_cons, List.not_mem_nil, or_false] at hc
    rcases hc with rfl | rfl | rfl | rfl
    · exact ⟨by show rtMinPrio ≤ 95; omega, by show (95 : ℤ) ≤ _; omega⟩
    · exact ⟨by show rtMinPrio ≤ 90; omega, by show (90 : ℤ) ≤ _; omega⟩
    · exact ⟨by show rtMinPrio ≤ 80; omega, by show (80 : ℤ) ≤ _; omega⟩
    · exact ⟨by show rtMinPrio ≤ 75; omega, by show (75 : ℤ) ≤ _; omega⟩
  have htable : mainTable rtMaxPrio rtMinPrio calls ret =
      { createAll calls creates (.init rtMaxPrio rtMinPrio) with schedulerStarted := true } := by
    rw [mainTable, osalStartScheduler, if_pos hfilled.initialized]
  rw [htable]
  refine ⟨hfilled.initialized, fun task => ?_, fun task => ?_, fun task => hfilled.semaphores _⟩
  · obtain ⟨c, hc⟩ : ∃ c, creates[task.entry]? = some c := by
      cases task <;> exact ⟨_, rfl⟩
    have hstate := (hfilled.entries task.entry c hc).1
    intro hunused
    cases hstate.symm.trans hunused
  · cases task with
    | detection => exact congrArg UInt32.toNat (hfilled.entries 0 _ rfl).2
    | camera => exact congrArg UInt32.toNat (hfilled.entries 1 _ rfl).2
    | transcoder => exact congrArg UInt32.toNat (hfilled.entries 2 _ rfl).2
    | nvm => exact congrArg UInt32.toNat (hfilled.entries 3 _ rfl).2

end Tables

end MotionDetector.Pipeline
