import MotionDetector.Lib.Sections
import MotionDetector.Types

/-!
# Mutexes and the critical sections (`utils/osal/osal.c`)

The two mutexes get the ceiling `rt_max_prio`. The main thread and the scheduler
run above it, and a lock by a thread above the ceiling fails with a positive error
number: `osal_mutex_lock` reports success and its callers do not look at the
result, so the thread goes on without the mutex.
-/

namespace MotionDetector.Osal

open Sections Transition

/-! ### Mutexes -/

/-- `osal_mutex_attr_e`. -/
inductive MutexAttr where
  | prioInherit
  | prioCeiling
  | none
  deriving DecidableEq, Repr

/-- The protocol of a mutex; a static mutex that was never set up has `none`. -/
inductive Protocol where
  | none
  | inherit
  | protect (ceiling : ℤ)
  deriving DecidableEq, Repr

def EINVAL : ℕ := 22

def EPERM : ℕ := 1

/-- `pthread_mutexattr_setprioceiling`, for a range of the priorities that ends
two above `rt_max_prio`. -/
def setprioceiling (rtMinPrio rtMaxPrio ceiling : ℤ) : ℕ :=
  if ceiling < rtMinPrio ∨ rtMaxPrio + 2 < ceiling then EINVAL else 0

/-- `osal_mutex_init`, with the protocol that the mutex has before. -/
def osalMutexInit (osInitialized : Bool) (rtMinPrio rtMaxPrio : ℤ) (attr : MutexAttr)
    (mutex : Protocol) : SysResult × Protocol :=
  if osInitialized then
    let (ret, protocol) := match attr with
      | .prioInherit => (0, Protocol.inherit)
      | .prioCeiling => (setprioceiling rtMinPrio rtMaxPrio rtMaxPrio, .protect rtMaxPrio)
      | .none => (0, .none)
    (.success, if ret = 0 then protocol else mutex)
  else (.failure, mutex)

inductive MutexId where
  | osTcbMutex
  | osSchedMutex
  deriving DecidableEq, Repr

inductive ThreadId where
  | main
  | scheduler
  | task (i : ℕ)
  deriving DecidableEq, Repr

/- Set with `sched_setscheduler` in `osal_init`, in `osal_create_scheduler` and,
from the argument `priority`, in `osal_task_create`. -/
def schedPriority (rtMaxPrio : ℤ) (tasks : ℕ → UInt8) : ThreadId → ℤ
  | .main => rtMaxPrio + 2
  | .scheduler => rtMaxPrio + 1
  | .task i => (tasks i).toNat

def Protocol.Exceeded (p : Protocol) (prio : ℤ) : Prop :=
  match p with
  | .protect ceiling => ceiling < prio
  | .inherit => False
  | .none => False

instance (p : Protocol) (prio : ℤ) : Decidable (p.Exceeded prio) := by
  cases p <;> (unfold Protocol.Exceeded; infer_instance)

/-- The error number and the owner after the call, `none` while it blocks. -/
def pthreadMutexLock (p : Protocol) (prio : ℤ) (t : ThreadId) (owner : Option ThreadId) :
    Option (ℕ × Option ThreadId) :=
  if p.Exceeded prio then some (EINVAL, owner)
  else match owner with
    | none => some (0, some t)
    | some _ => none

def osalMutexLock (osInitialized : Bool) (p : Protocol) (prio : ℤ) (t : ThreadId)
    (owner : Option ThreadId) : Option (SysResult × Option ThreadId) :=
  if osInitialized then
    (pthreadMutexLock p prio t owner).map fun (ret, owner') => (isError ret, owner')
  else some (.failure, owner)

/- An unlock by another thread than the owner is undefined: the owner may keep the
mutex or lose it. -/
def pthreadMutexUnlock (t : ThreadId) (released : Bool) (owner : Option ThreadId) :
    ℕ × Option ThreadId :=
  if owner = some t then (0, none)
  else if released then (0, none) else (EPERM, owner)

def osalMutexUnlock (osInitialized : Bool) (t : ThreadId) (released : Bool)
    (owner : Option ThreadId) : SysResult × Option ThreadId :=
  if osInitialized then
    let (ret, owner') := pthreadMutexUnlock t released owner
    (isError ret, owner')
  else (.failure, owner)

/- A lock that returns is never an error to the caller, with the mutex or without. -/
theorem osalMutexLock_success {p : Protocol} {prio : ℤ} {t : ThreadId}
    {owner owner' : Option ThreadId} {res : SysResult}
    (h : osalMutexLock true p prio t owner = some (res, owner')) : res = .success := by
  simp only [osalMutexLock, if_true] at h
  obtain ⟨⟨ret, o⟩, -, heq⟩ := Option.map_eq_some_iff.mp h
  obtain ⟨rfl, -⟩ := Prod.mk.inj heq
  exact isError_natCast ret

/-! ### The sections -/

inductive Call where
  | create (schedulerStarted : Bool)
  | start
  | suspend
  | setPeriod
  | delete
  deriving DecidableEq, Repr

def osalTaskSetPeriodBody : List (Instr MutexId) :=
  [.lock .osSchedMutex, .work, .unlock .osSchedMutex]

/- With and without an error from `sem_post` the section ends the same way. -/
def osalTaskStartBody : List (Instr MutexId) :=
  [.lock .osSchedMutex, .work, .unlock .osSchedMutex]

/- After the section the task waits for its semaphore. -/
def osalTaskSuspendBody : List (Instr MutexId) :=
  [.lock .osSchedMutex, .work, .unlock .osSchedMutex, .work]

/- After the section the thread is cancelled or exits. -/
def osalTaskDeleteBody : List (Instr MutexId) :=
  [.lock .osSchedMutex, .work, .unlock .osSchedMutex, .work]

/- The two errors that lead to `cleanup` are never seen, as `IS_ERROR` gets a
`sys_result_e` and an error number. -/
def osalTaskCreateBody (schedulerStarted : Bool) : List (Instr MutexId) :=
  [.lock .osTcbMutex, .work] ++ osalTaskSetPeriodBody ++
    (if schedulerStarted then osalTaskStartBody else [.work]) ++ [.work, .unlock .osTcbMutex]

def Call.body : Call → List (Instr MutexId)
  | .create schedulerStarted => osalTaskCreateBody schedulerStarted
  | .start => osalTaskStartBody
  | .suspend => osalTaskSuspendBody
  | .setPeriod => osalTaskSetPeriodBody
  | .delete => osalTaskDeleteBody

/- The callers of `osal_mutex_lock` and `osal_mutex_unlock` drop the result. -/
def mutexOps (mutexes : MutexId → Protocol) (prio : ThreadId → ℤ) : Ops ThreadId MutexId where
  lock t m owner := (osalMutexLock true (mutexes m) (prio t) t owner).map Prod.snd
  unlock t _ released owner := (osalMutexUnlock true t released owner).2

theorem mutexOps_lawful (mutexes : MutexId → Protocol) (prio : ThreadId → ℤ) :
    (mutexOps mutexes prio).Lawful fun t m => (mutexes m).Exceeded (prio t) where
  bypassed t m o h := by simp [mutexOps, osalMutexLock, pthreadMutexLock, h]
  free t m h := by simp [mutexOps, osalMutexLock, pthreadMutexLock, h]
  taken t m u h := by simp [mutexOps, osalMutexLock, pthreadMutexLock, h]
  own t m released := by simp [mutexOps, osalMutexUnlock, pthreadMutexUnlock]
  open_ t m released := by
    cases released <;> simp [mutexOps, osalMutexUnlock, pthreadMutexUnlock]

theorem balanced_section {inside : MutexId → Bool} {m : MutexId} {rest : List (Instr MutexId)}
    (hm : inside m = false) (hrest : Balanced inside rest) :
    Balanced inside (.lock m :: .work :: .unlock m :: rest) := by
  refine ⟨hm, Function.update_self .., ?_⟩
  rw [Function.update_idem, ← hm, Function.update_eq_self]
  exact hrest

theorem body_balanced (c : Call) : Balanced (fun _ => false) c.body := by
  cases c with
  | create schedulerStarted =>
    have hsched : Function.update (fun _ : MutexId => false) .osTcbMutex true .osSchedMutex =
        false := rfl
    have hend : Balanced (Function.update (fun _ : MutexId => false) .osTcbMutex true)
        [.work, .unlock .osTcbMutex] := by
      refine ⟨Function.update_self .., ?_⟩
      rw [Function.update_idem]
      exact Function.update_eq_self (f := fun _ => false) MutexId.osTcbMutex
    refine ⟨rfl, balanced_section hsched ?_⟩
    cases schedulerStarted with
    | true => exact balanced_section hsched hend
    | false => exact hend
  | start => exact balanced_section rfl rfl
  | suspend => exact balanced_section rfl rfl
  | setPeriod => exact balanced_section rfl rfl
  | delete => exact balanced_section rfl rfl

/- With a ceiling that no thread exceeds, the sections exclude each other. -/
theorem sections_exclusive_of_ceiling (mutexes : MutexId → Protocol) (prio : ThreadId → ℤ)
    (hceiling : ∀ t m, ¬ (mutexes m).Exceeded (prio t)) {acts : List (Act ThreadId Call)}
    (hr : (run (step (mutexOps mutexes prio) Call.body) .init acts).isSome) :
    Throughout (step (mutexOps mutexes prio) Call.body) Exclusive .init acts := by
  have hlawful := mutexOps_lawful mutexes prio
  simp only [hceiling] at hlawful
  exact exclusive_of_no_bypass hlawful body_balanced hr

/-! ### The mutexes of `osal_init` -/

section

variable {rtMinPrio rtMaxPrio : ℤ} {tasks : ℕ → UInt8}

def osalInitMutexes (rtMinPrio rtMaxPrio : ℤ) (_ : MutexId) : Protocol :=
  (osalMutexInit true rtMinPrio rtMaxPrio .prioCeiling .none).2

def sectionsStep (rtMinPrio rtMaxPrio : ℤ) (tasks : ℕ → UInt8) :
    State ThreadId MutexId → Act ThreadId Call → Option (State ThreadId MutexId) :=
  step (mutexOps (osalInitMutexes rtMinPrio rtMaxPrio) (schedPriority rtMaxPrio tasks)) Call.body

/-- The check of the priority in `osal_task_create`, for every task. -/
def AllAdmitted (rtMinPrio rtMaxPrio : ℤ) (tasks : ℕ → UInt8) : Prop :=
  ∀ i, rtMinPrio ≤ (tasks i).toNat ∧ ((tasks i).toNat : ℤ) ≤ rtMaxPrio

/-- The threads that the two priorities above `rt_max_prio` are for. -/
def AboveCeiling (t : ThreadId) : Prop := t = .main ∨ t = .scheduler

theorem exceeded_iff (h : AllAdmitted rtMinPrio rtMaxPrio tasks) (t : ThreadId) (m : MutexId) :
    (osalInitMutexes rtMinPrio rtMaxPrio m).Exceeded (schedPriority rtMaxPrio tasks t) ↔
      AboveCeiling t := by
  have hmin := h 0
  have hret : setprioceiling rtMinPrio rtMaxPrio rtMaxPrio = 0 := by
    rw [setprioceiling, if_neg (by omega)]
  have hmutex : osalInitMutexes rtMinPrio rtMaxPrio m = .protect rtMaxPrio := by
    simp [osalInitMutexes, osalMutexInit, hret]
  rw [hmutex]
  unfold Protocol.Exceeded AboveCeiling
  cases t with
  | main => exact iff_of_true (Int.lt_add_of_pos_right rtMaxPrio (by decide)) (.inl rfl)
  | scheduler => exact iff_of_true (Int.lt_succ rtMaxPrio) (.inr rfl)
  | task i =>
    have hmax := (h i).2
    simp only [schedPriority, reduceCtorEq, or_self, iff_false]
    omega

/- Two tasks never meet in a section; the main thread and the scheduler keep
nobody out and are kept out by nobody. -/
theorem sections_exclusive_iff (hadmitted : AllAdmitted rtMinPrio rtMaxPrio tasks)
    {acts : List (Act ThreadId Call)}
    (hr : (run (sectionsStep rtMinPrio rtMaxPrio tasks) .init acts).isSome) :
    Throughout (sectionsStep rtMinPrio rtMaxPrio tasks) Exclusive .init acts ↔
      Along (sectionsStep rtMinPrio rtMaxPrio tasks) (Guarded fun t _ => AboveCeiling t)
        .init acts := by
  have hlawful := mutexOps_lawful (osalInitMutexes rtMinPrio rtMaxPrio)
    (schedPriority rtMaxPrio tasks)
  simp only [exceeded_iff hadmitted] at hlawful
  exact exclusive_iff_guarded hlawful body_balanced hr

/- The main thread sets a period, the scheduler starts a task and the task goes to
sleep, each behind the section of the one before. -/
theorem sections_exclusive_turns :
    Throughout (sectionsStep 1 97 fun _ => 97) Exclusive .init
      [.call .main .setPeriod, .next .main false, .next .main false, .next .main false,
        .call .scheduler .start, .next .scheduler false, .next .scheduler false,
        .next .scheduler false, .call (.task 0) .suspend, .next (.task 0) false] := by
  refine (sections_exclusive_iff (fun _ => by decide) (by decide)).mpr ?_
  simp [Along, Guarded, sectionsStep, step, State.init, Call.body, osalTaskSetPeriodBody,
    osalTaskStartBody, osalTaskSuspendBody, Function.update_apply]

/- While a task is in the section of `osal_task_suspend`, a tick makes the
scheduler start it. -/
theorem scheduler_in_section :
    ∃ s, run (sectionsStep 1 97 fun _ => 97) .init
        [.call (.task 0) .suspend, .next (.task 0) false, .call .scheduler .start,
          .next .scheduler false] = some s ∧
      s.inside (.task 0, .osSchedMutex) = true ∧ s.inside (.scheduler, .osSchedMutex) = true ∧
      ¬ Exclusive s := by
  refine ⟨_, rfl, rfl, rfl, fun hex => ?_⟩
  have := hex .osSchedMutex (.task 0) .scheduler rfl rfl
  cases this

/-- Over all interleavings of the calls that the threads may make, the sections
exclude each other exactly if no mutex that the main thread or the scheduler locks
is locked by another thread. -/
theorem exclusive_in_every_run_iff (hadmitted : AllAdmitted rtMinPrio rtMaxPrio tasks)
    (calls : ThreadId → Call → Prop) :
    (∀ acts : List (Act ThreadId Call), (∀ a ∈ acts, Makes calls a) →
      (run (sectionsStep rtMinPrio rtMaxPrio tasks) .init acts).isSome →
        Throughout (sectionsStep rtMinPrio rtMaxPrio tasks) Exclusive .init acts) ↔
      ∀ t u m, AboveCeiling t → t ≠ u → Locks Call.body calls t m →
        ¬ Locks Call.body calls u m := by
  have hlawful := mutexOps_lawful (osalInitMutexes rtMinPrio rtMaxPrio)
    (schedPriority rtMaxPrio tasks)
  simp only [exceeded_iff hadmitted] at hlawful
  exact always_exclusive_iff hlawful body_balanced (fun _ _ _ habove => habove) calls

/- So no choice of priorities keeps the scheduler's starts apart from a task that
suspends itself. -/
theorem start_meets_suspend (hadmitted : AllAdmitted rtMinPrio rtMaxPrio tasks) (i : ℕ)
    (calls : ThreadId → Call → Prop) (hstart : calls .scheduler .start)
    (hsuspend : calls (.task i) .suspend) :
    ∃ acts : List (Act ThreadId Call), (∀ a ∈ acts, Makes calls a) ∧
      ¬ Throughout (sectionsStep rtMinPrio rtMaxPrio tasks) Exclusive .init acts := by
  by_contra hnone
  refine (exclusive_in_every_run_iff hadmitted calls).mp (fun acts hmakes _ => ?_) .scheduler
    (.task i) .osSchedMutex (.inr rfl) (by simp) ⟨.start, hstart, by decide⟩
    ⟨.suspend, hsuspend, by decide⟩
  by_contra hex
  exact hnone ⟨acts, hmakes, hex⟩

end

end MotionDetector.Osal
