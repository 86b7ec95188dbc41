import MotionDetector.Types
import Mathlib.Logic.Function.Basic

/-!
# Tasks and the sequencer (`utils/osal/osal.c`)

The two task tables are memory indexed by any number: an index from `MAX_TASKS`
on is past the end of the array. `touched` lists the indices accessed and
`starts` the calls of `osal_task_start`, each with the states of all entries
before and after it. The mutexes are left out: an operation is one step.
-/

namespace MotionDetector.Osal

def MAX_TASKS : ℕ := 5

def TIMER_TICK_MS : UInt32 := 11

def semValueMax : ℕ := 2147483647

inductive TaskState where
  | unused
  | running
  | suspended
  deriving DecidableEq, Repr

/-- The address of a task function, `none` for `NULL`. -/
abbrev OsalFunc := Option ℕ

structure TaskTcb where
  taskId : UInt8
  taskName : String
  taskStack : UInt16
  taskPriority : UInt8
  taskFunc : OsalFunc
  taskExitFunc : OsalFunc
  taskArgs : UInt8 × ℕ
  taskHandle : ℕ
  deriving DecidableEq, Repr

structure Sequencer where
  periodMs : UInt32
  periodCnts : UInt32
  signalSem : ℕ
  taskState : TaskState
  deriving DecidableEq, Repr

structure Start where
  id : ℕ
  before : ℕ → TaskState
  after : ℕ → TaskState

structure OsalState where
  osInitialized : Bool
  schedulerStarted : Bool
  rtMaxPrio : ℤ
  rtMinPrio : ℤ
  taskIdx : UInt8
  tcb : ℕ → TaskTcb
  sequencers : ℕ → Sequencer
  osSchedSem : ℕ
  tick : UInt64
  touched : List ℕ
  starts : List Start

def OsalState.init (rtMaxPrio rtMinPrio : ℤ) : OsalState :=
  ⟨true, false, rtMaxPrio, rtMinPrio, 0, fun _ => ⟨0, "", 0, 0, none, none, (0, 0), 0⟩,
    fun _ => ⟨0, 0, 0, .unused⟩, 0, 0, [], []⟩

structure Create where
  name : String
  stack : UInt16
  priority : UInt8
  taskFunc : OsalFunc
  exitFunc : OsalFunc
  periodMs : UInt32
  args : ℕ

/- Results of the calls below: `pthread_attr_init` and `pthread_create` return 0
or an error number, `sem_init` 0 or -1. -/
structure CreateCalls where
  attrInit : ℕ
  semInit : ℤ
  pthreadCreate : ℕ
  taskHandle : ℕ
  deriving DecidableEq

namespace OsalState

def access (id : ℕ) (s : OsalState) : OsalState := { s with touched := s.touched ++ [id] }

def setSequencer (id : ℕ) (e : Sequencer) (s : OsalState) : OsalState :=
  { s.access id with sequencers := Function.update s.sequencers id e }

def setTcb (id : ℕ) (t : TaskTcb) (s : OsalState) : OsalState :=
  { s.access id with tcb := Function.update s.tcb id t }

def setTaskState (id : ℕ) (state : TaskState) (s : OsalState) : OsalState :=
  s.setSequencer id { s.sequencers id with taskState := state }

def taskStates (s : OsalState) (id : ℕ) : TaskState := (s.sequencers id).taskState

def semPost (id : ℕ) (s : OsalState) : ℤ × OsalState :=
  if (s.sequencers id).signalSem < semValueMax then
    (0, s.setSequencer id
      { s.sequencers id with signalSem := (s.sequencers id).signalSem + 1 })
  else (-1, s.access id)

/-- The new state is written to the entry `task_idx`, not to the entry `id`. -/
def osalTaskStart (id : UInt8) (s : OsalState) : SysResult × OsalState :=
  if s.osInitialized then
    let (res, t) := s.semPost id.toNat
    if isError res = .success then
      let u := t.setTaskState s.taskIdx.toNat .running
      (.success, { u with starts := s.starts ++ [⟨id.toNat, s.taskStates, u.taskStates⟩] })
    else
      (.failure, { t with starts := s.starts ++ [⟨id.toNat, s.taskStates, t.taskStates⟩] })
  else (.failure, s)

def osalTaskSetPeriod (id : UInt8) (periodMs : UInt32) (s : OsalState) : OsalState :=
  s.setSequencer id.toNat
    { s.sequencers id.toNat with periodMs := periodMs, periodCnts := periodMs / TIMER_TICK_MS }

def osalSemInit (id : ℕ) (res : ℤ) (s : OsalState) : SysResult × OsalState :=
  (isError res,
    if res < 0 then s.access id
    else s.setSequencer id { s.sequencers id with signalSem := 0 })

def fillTcb (c : Create) (s : OsalState) : OsalState :=
  s.setTcb s.taskIdx.toNat
    { s.tcb s.taskIdx.toNat with
      taskId := s.taskIdx, taskName := c.name, taskStack := c.stack, taskPriority := c.priority
      taskFunc := c.taskFunc, taskExitFunc := c.exitFunc, taskArgs := (s.taskIdx, c.args) }

def setThread (c : Create) (calls : CreateCalls) (s : OsalState) : OsalState :=
  (s.setTcb s.taskIdx.toNat
    { s.tcb s.taskIdx.toNat with taskHandle := calls.taskHandle }).osalTaskSetPeriod
      s.taskIdx c.periodMs

def register (s : OsalState) : OsalState :=
  let t := if s.schedulerStarted then (s.osalTaskStart s.taskIdx).2
    else s.setTaskState s.taskIdx.toNat .suspended
  { t with taskIdx := s.taskIdx + 1 }

/-- The result, `*id` where it is written, and the state. `IS_ERROR` of the
results of the calls is never `SYS_FAILURE`: an error number is positive, and so
is the `SYS_FAILURE` that `osal_sem_init` returns. -/
def osalTaskCreate (c : Create) (calls : CreateCalls) (s : OsalState) :
    SysResult × Option UInt8 × OsalState :=
  if ¬ s.osInitialized then (.failure, none, s)
  else if (c.priority.toNat : ℤ) > s.rtMaxPrio ∨ (c.priority.toNat : ℤ) < s.rtMinPrio then
    (.failure, none, s)
  else if isError calls.attrInit = .failure then (.failure, none, s)
  else
    let (res, t) := (s.fillTcb c).osalSemInit s.taskIdx.toNat calls.semInit
    if isError res.code = .failure then (.success, some s.taskIdx, t)
    else if isError calls.pthreadCreate = .failure then (.success, some s.taskIdx, t)
    else (.success, some s.taskIdx, (t.setThread c calls).register)

def osalTaskDelete (id : UInt8) (s : OsalState) : OsalState :=
  if s.osInitialized then
    let s := s.setTcb id.toNat
      { s.tcb id.toNat with
        taskName := "", taskStack := 0, taskPriority := 0, taskFunc := none, taskArgs := (0, 0) }
    s.setTaskState id.toNat .unused
  else s

/-- Up to the wait on the semaphore. -/
def osalTaskSuspend (id : UInt8) (s : OsalState) : OsalState :=
  if s.osInitialized then s.setTaskState id.toNat .suspended else s

def semWait (id : UInt8) (s : OsalState) : Option OsalState :=
  if 0 < (s.sequencers id.toNat).signalSem then
    some (s.setSequencer id.toNat
      { s.sequencers id.toNat with signalSem := (s.sequencers id.toNat).signalSem - 1 })
  else none

/-- `ret` is the result of `timer_settime`. -/
def osalStartScheduler (ret : ℤ) (s : OsalState) : SysResult × OsalState :=
  if s.osInitialized then (isError ret, { s with schedulerStarted := true }) else (.failure, s)

def Due (s : OsalState) (i : ℕ) : Prop :=
  s.taskStates i ≠ .unused ∧ (s.sequencers i).periodCnts ≠ 0 ∧
    s.tick % (s.sequencers i).periodCnts.toUInt64 = 0

instance (s : OsalState) (i : ℕ) : Decidable (s.Due i) := inferInstanceAs (Decidable (_ ∧ _))

def sequencerVisit (i : ℕ) (s : OsalState) : OsalState :=
  if s.Due i then ((s.access i).osalTaskStart i.toUInt8).2 else s.access i

def osalTaskGenericSequencer (s : OsalState) : OsalState :=
  (List.range MAX_TASKS).foldl (fun s i => s.sequencerVisit i) s

def signalSched (s : OsalState) : OsalState :=
  if s.osSchedSem < semValueMax then { s with osSchedSem := s.osSchedSem + 1 } else s

def incTick (s : OsalState) : OsalState := { s with tick := s.tick + 1 }

def osalTaskWaitAll (s : OsalState) : List ℕ × ℕ :=
  if s.osInitialized then
    let joined := (List.range MAX_TASKS).filter fun i => s.taskStates i ≠ .unused
    (joined, joined.length)
  else ([], 0)

def shutdownNotified (s : OsalState) : List ℕ :=
  (List.range MAX_TASKS).filter fun i =>
    s.taskStates i ≠ .unused ∧ (s.tcb i).taskExitFunc ≠ none

end OsalState

end MotionDetector.Osal
