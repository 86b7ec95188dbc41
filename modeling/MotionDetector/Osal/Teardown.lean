import MotionDetector.Lib.Transition
import MotionDetector.Osal.Creation

/-!
# The two teardowns

`osal_deinit` is called by the main thread after `osal_task_wait_all` and by the
scheduler thread on a shutdown. The loop deletes every entry of the table, in use
or not, and nothing keeps the two calls apart: `os_initialized` is cleared behind
the loop. The mutex does not either, both callers are above its ceiling.
-/

namespace MotionDetector.Osal

open Transition

namespace OsalState

/-- The critical section of `osal_task_delete`. -/
def clearEntry (id : ℕ) (s : OsalState) : OsalState :=
  let s := s.setTcb id
    { s.tcb id with
      taskName := "", taskStack := 0, taskPriority := 0, taskFunc := none, taskArgs := (0, 0) }
  s.setTaskState id .unused

def osalStopScheduler (s : OsalState) : OsalState :=
  if s.osInitialized then { s with schedulerStarted := false } else s

/- Neither `os_initialized` nor `task_idx` changes. -/
def SameTable (s t : OsalState) : Prop :=
  t.osInitialized = s.osInitialized ∧ t.taskIdx = s.taskIdx

theorem osalTaskStart_sameTable (id : UInt8) (s : OsalState) :
    SameTable s (s.osalTaskStart id).2 := by
  by_cases hinit : s.osInitialized = true
  · by_cases hsem : (s.sequencers id.toNat).signalSem < semValueMax
    · obtain ⟨t, ht, -, -, -, hinit', hidx, -⟩ := osalTaskStart_spec hinit hsem
      rw [ht]
      exact ⟨hinit', hidx⟩
    · simp [SameTable, osalTaskStart, hinit, semPost, hsem, isError, access]
  · simp [SameTable, osalTaskStart, hinit]

theorem sequencerVisits_sameTable (l : List ℕ) (s : OsalState) :
    SameTable s (l.foldl (fun s i => s.sequencerVisit i) s) := by
  induction l generalizing s with
  | nil => exact ⟨rfl, rfl⟩
  | cons i l ih =>
    have hrest := ih (s.sequencerVisit i)
    have hvisit : SameTable s (s.sequencerVisit i) := by
      by_cases hdue : s.Due i
      · rw [visit_due hdue]
        exact osalTaskStart_sameTable i.toUInt8 (s.access i)
      · rw [visit_idle hdue]
        exact ⟨rfl, rfl⟩
    exact ⟨hrest.1.trans hvisit.1, hrest.2.trans hvisit.2⟩

theorem signalSched_sameTable (s : OsalState) : SameTable s s.signalSched := by
  unfold signalSched
  split <;> exact ⟨rfl, rfl⟩

theorem osalTaskSuspend_sameTable (id : UInt8) (s : OsalState) :
    SameTable s (s.osalTaskSuspend id) := by
  unfold osalTaskSuspend
  split <;> exact ⟨rfl, rfl⟩

theorem semWait_sameTable {id : UInt8} {s t : OsalState} (h : s.semWait id = some t) :
    SameTable s t := by
  unfold semWait at h
  split at h
  · obtain rfl := Option.some.inj h
    exact ⟨rfl, rfl⟩
  · cases h

theorem osalStopScheduler_sameTable (s : OsalState) : SameTable s s.osalStopScheduler := by
  unfold osalStopScheduler
  split <;> exact ⟨rfl, rfl⟩

theorem osalStartScheduler_sameTable (ret : ℤ) (s : OsalState) :
    SameTable s (s.osalStartScheduler ret).2 := by
  unfold osalStartScheduler
  split <;> exact ⟨rfl, rfl⟩

end OsalState

/-- Where the thread of an entry is; it exits from within `osal_task_delete`, or
comes back from it where the OSAL is not initialized any more. -/
inductive TaskPc where
  | absent
  | running
  | deleting
  | exiting
  | exited
  | returned
  | cancelled
  deriving DecidableEq, Repr

namespace TaskPc

def Alive (p : TaskPc) : Prop := p = .running ∨ p = .deleting ∨ p = .exiting

def DeletedItself (p : TaskPc) : Prop := p = .exiting ∨ p = .exited

instance (p : TaskPc) : Decidable p.Alive := inferInstanceAs (Decidable (_ ∨ _))

instance (p : TaskPc) : Decidable p.DeletedItself := inferInstanceAs (Decidable (_ ∨ _))

end TaskPc

inductive MainPc where
  | creating
  | waitAll
  | waiting (i : ℕ)
  | joining (i : ℕ)
  | joined
  deriving DecidableEq, Repr

inductive Caller where
  | main
  | scheduler
  deriving DecidableEq, Repr

def Caller.other : Caller → Caller
  | .main => .scheduler
  | .scheduler => .main

/-- The next statement of a call of `osal_deinit`: the loop test, the section and
the `pthread_cancel` of an entry, and after the loop `pthread_kill` and the
assignment to `os_initialized`. -/
inductive DeinitPc where
  | before
  | test
  | entry (i : ℕ)
  | clear (i : ℕ)
  | cancel (i : ℕ)
  | kill
  | unset
  | returned
  deriving DecidableEq, Repr

/-- The loop of the call is over. -/
def DeinitPc.Over (p : DeinitPc) : Prop := p = .kill ∨ p = .unset ∨ p = .returned

/-- Entries that a call has come past when it is at `p`. -/
def DeinitPc.reached : DeinitPc → ℕ
  | .before => 0
  | .test => 0
  | .entry i => i
  | .clear i => i
  | .cancel i => i + 1
  | .kill => MAX_TASKS
  | .unset => MAX_TASKS
  | .returned => MAX_TASKS

/-- `torn c i` tells that the loop of `c` went through the section for entry `i`;
`destroyed` and `cancelled` count the calls of `sem_destroy` and `pthread_cancel`. -/
structure Teardown where
  osal : OsalState
  tasks : ℕ → TaskPc
  mainPc : MainPc
  deinit : Caller → DeinitPc
  torn : Caller → ℕ → Bool
  destroyed : ℕ → ℕ
  cancelled : ℕ → ℕ

inductive TeardownAct where
  | create (c : Create) (calls : CreateCalls)
  | startScheduler (ret : ℤ)
  | alarm
  | sequencerPass
  | suspend (id : UInt8)
  | wake (id : UInt8)
  | shutdown
  | waitAll
  | osalDeinit (c : Caller)
  | taskDelete (i : ℕ)
  | taskClear (i : ℕ)
  | taskExit (i : ℕ)
  | cancellation (i : ℕ)

namespace Teardown

def init (rtMaxPrio rtMinPrio : ℤ) : Teardown :=
  ⟨.init rtMaxPrio rtMinPrio, fun _ => .absent, .creating, fun _ => .before,
    fun _ _ => false, fun _ => 0, fun _ => 0⟩

def goto (c : Caller) (p : DeinitPc) (s : Teardown) : Teardown :=
  { s with deinit := Function.update s.deinit c p }

def setTask (i : ℕ) (p : TaskPc) (s : Teardown) : Teardown :=
  { s with tasks := Function.update s.tasks i p }

/-- One statement of `osal_deinit`. -/
def deinitStep (c : Caller) (s : Teardown) : Option Teardown :=
  match s.deinit c with
  | .before => none
  | .test => some (s.goto c (if s.osal.osInitialized then .entry 0 else .returned))
  | .entry i =>
    if i < MAX_TASKS then
      some (s.goto c (if s.osal.osInitialized then .clear i else .entry (i + 1)))
    else some (s.goto c .kill)
  | .clear i =>
    some { s.goto c (.cancel i) with
      osal := s.osal.clearEntry i
      torn := Function.update s.torn c (Function.update (s.torn c) i true)
      destroyed := Function.update s.destroyed i (s.destroyed i + 1) }
  | .cancel i =>
    some { s.goto c (.entry (i + 1)) with
      cancelled := Function.update s.cancelled i (s.cancelled i + 1) }
  | .kill => some (s.goto c .unset)
  | .unset =>
    some { s.goto c .returned with osal := { s.osal with osInitialized := false } }
  | .returned => none

/-- One statement of `osal_task_wait_all`; `framebuffer_deinit` and the call of
`osal_deinit` follow. -/
def waitStep (s : Teardown) : Option Teardown :=
  match s.mainPc with
  | .creating => none
  | .waitAll =>
    if s.osal.osInitialized then some { s with mainPc := .waiting 0 }
    else some { s.goto .main .test with mainPc := .joined }
  | .waiting i =>
    if i < MAX_TASKS then
      some { s with
        mainPc := if s.osal.taskStates i ≠ .unused then .joining i else .waiting (i + 1) }
    else some { s.goto .main .test with mainPc := .joined }
  | .joining i =>
    if (s.tasks i).Alive then none else some { s with mainPc := .waiting (i + 1) }
  | .joined => none

/- The main thread creates the tasks, and a signal leads to a shutdown once
`osal_start_scheduler` has installed its handler; with a failed start `main`
returns. A thread only ends by a cancellation while it is in its loop. -/
def step (s : Teardown) : TeardownAct → Option Teardown
  | .create c calls =>
    if s.mainPc = .creating then
      match s.osal.osalTaskCreate c calls with
      | (.success, some id, osal) =>
        some { s with
          osal := osal
          tasks := if calls.pthreadCreate = 0 then Function.update s.tasks id.toNat .running
            else s.tasks }
      | (_, _, osal) => some { s with osal := osal }
    else none
  | .startScheduler ret =>
    if s.mainPc = .creating then
      match s.osal.osalStartScheduler ret with
      | (.success, osal) => some { s with osal := osal, mainPc := .waitAll }
      | _ => none
    else none
  | .alarm => some { s with osal := s.osal.signalSched.incTick }
  | .sequencerPass =>
    if s.deinit .scheduler = .before then
      some { s with osal := s.osal.osalTaskGenericSequencer }
    else none
  | .suspend id =>
    if s.tasks id.toNat = .running then some { s with osal := s.osal.osalTaskSuspend id }
    else none
  | .wake id =>
    if s.tasks id.toNat = .running then (s.osal.semWait id).map fun osal => { s with osal := osal }
    else none
  | .shutdown =>
    if s.mainPc ≠ .creating ∧ s.deinit .scheduler = .before then
      some { s.goto .scheduler .test with osal := s.osal.osalStopScheduler }
    else none
  | .waitAll => s.waitStep
  | .osalDeinit c => s.deinitStep c
  | .taskDelete i =>
    if s.tasks i = .running then
      some (s.setTask i (if s.osal.osInitialized then .deleting else .returned))
    else none
  | .taskClear i =>
    if s.tasks i = .deleting then
      some { s.setTask i .exiting with
        osal := s.osal.clearEntry i
        destroyed := Function.update s.destroyed i (s.destroyed i + 1) }
    else none
  | .taskExit i => if s.tasks i = .exiting then some (s.setTask i .exited) else none
  | .cancellation i =>
    if s.tasks i = .running ∧ 0 < s.cancelled i then some (s.setTask i .cancelled) else none

/-- A task was created for the entry and has not deleted itself. -/
def Live (s : Teardown) (i : ℕ) : Prop := s.tasks i ≠ .absent ∧ ¬ (s.tasks i).DeletedItself

/-- No more tasks are created than the table has entries. -/
def InTable (s : Teardown) : TeardownAct → Prop
  | .create _ _ => s.osal.taskIdx.toNat < MAX_TASKS
  | _ => True

/-! ### The invariant -/

structure Position (osInitialized : Bool) (p : DeinitPc) (torn : ℕ → Bool) : Prop where
  bound : p.reached ≤ MAX_TASKS
  inside : ∀ i, p = .clear i → i < MAX_TASKS
  torn_lt : ∀ j, torn j = true → j < p.reached
  torn_of_lt : osInitialized = true → ∀ j < p.reached, torn j = true
  cancel : ∀ i, p = .cancel i → torn i = true
  returned : p = .returned → osInitialized = false

/-- The call went through the section for entry `i` and has cancelled its thread. -/
def didCancel (s : Teardown) (c : Caller) (i : ℕ) : Bool :=
  s.torn c i && decide (s.deinit c ≠ .cancel i)

theorem Position.uninitialized {osInitialized : Bool} {p : DeinitPc} {torn : ℕ → Bool}
    (h : Position osInitialized p torn) : Position false p torn :=
  ⟨h.bound, h.inside, h.torn_lt, nofun, h.cancel, fun _ => rfl⟩

structure Inv (s : Teardown) : Prop where
  destroyed : ∀ i, s.destroyed i = (s.torn .main i).toNat + (s.torn .scheduler i).toNat +
    if (s.tasks i).DeletedItself then 1 else 0
  cancelled : ∀ i, s.cancelled i =
    (s.didCancel .main i).toNat + (s.didCancel .scheduler i).toNat
  position : ∀ c, Position s.osal.osInitialized (s.deinit c) (s.torn c)
  uninitialized : s.osal.osInitialized = false →
    ∃ c, s.deinit c = .returned ∧ ∀ i < MAX_TASKS, s.torn c i = true
  creating : s.mainPc = .creating →
    s.osal.osInitialized = true ∧ ∀ c, s.deinit c = .before
  calls : s.mainPc ≠ .joined → s.deinit .main = .before
  room : s.osal.taskIdx.toNat ≤ MAX_TASKS
  fresh : ∀ i, s.osal.taskIdx.toNat ≤ i → s.tasks i = .absent

variable {s t : Teardown}

theorem init_inv (rtMaxPrio rtMinPrio : ℤ) : Inv (init rtMaxPrio rtMinPrio) where
  destroyed _ := rfl
  cancelled _ := rfl
  position _ :=
    { bound := Nat.zero_le _
      inside := fun _ h => nomatch h
      torn_lt := fun _ h => absurd h Bool.false_ne_true
      torn_of_lt := fun _ j hj => absurd hj (Nat.not_lt_zero j)
      cancel := fun _ h => nomatch h
      returned := fun h => nomatch h }
  uninitialized h := nomatch h
  creating _ := ⟨rfl, fun _ => rfl⟩
  calls _ := rfl
  room := Nat.zero_le _
  fresh _ _ := rfl

/- Only the tables change. -/
theorem Inv.tables (h : Inv s) {o : OsalState} (ho : s.osal.SameTable o) :
    Inv { s with osal := o } where
  destroyed := h.destroyed
  cancelled := h.cancelled
  position c := ho.1 ▸ h.position c
  uninitialized hfalse := h.uninitialized (ho.1.symm.trans hfalse)
  creating hmain := ⟨ho.1.trans (h.creating hmain).1, (h.creating hmain).2⟩
  calls := h.calls
  room := ho.2 ▸ h.room
  fresh := ho.2 ▸ h.fresh

/- A thread moves on without deleting its entry. -/
theorem Inv.task (h : Inv s) {i : ℕ} {p : TaskPc} (hi : s.tasks i ≠ .absent)
    (hp : p.DeletedItself ↔ (s.tasks i).DeletedItself) : Inv (s.setTask i p) where
  destroyed j := by
    have hj : (Function.update s.tasks i p j).DeletedItself ↔ (s.tasks j).DeletedItself := by
      by_cases heq : j = i
      · rw [heq, Function.update_self]
        exact hp
      · rw [Function.update_of_ne heq]
    simp only [setTask, hj]
    exact h.destroyed j
  cancelled := h.cancelled
  position := h.position
  uninitialized := h.uninitialized
  creating := h.creating
  calls := h.calls
  room := h.room
  fresh j hj := by
    have hne : j ≠ i := by
      rintro rfl
      exact hi (h.fresh j hj)
    simp only [setTask, Function.update_of_ne hne]
    exact h.fresh j hj

theorem goto_deinit (c c' : Caller) (p : DeinitPc) :
    (s.goto c p).deinit c' = if c' = c then p else s.deinit c' := by
  by_cases h : c' = c
  · subst h
    simp [goto]
  · simp [goto, h]

/- With `os_initialized` cleared it is the other call that has returned. -/
theorem Inv.other_returned (h : Inv s) {c : Caller} (p : DeinitPc)
    (hreturned : s.deinit c ≠ .returned) (hfalse : s.osal.osInitialized = false) :
    ∃ c', c' ≠ c ∧ (s.goto c p).deinit c' = .returned ∧
      ∀ i < MAX_TASKS, s.torn c' i = true := by
  obtain ⟨c', hret, htorn⟩ := h.uninitialized hfalse
  have hne : c' ≠ c := by
    rintro rfl
    exact hreturned hret
  refine ⟨c', hne, ?_, htorn⟩
  rw [goto_deinit, if_neg hne]
  exact hret

/- The main thread calls `osal_deinit` behind `osal_task_wait_all` only. -/
theorem Inv.goto_calls (h : Inv s) {c : Caller} (p : DeinitPc)
    (hjoined : c = .main → s.mainPc = .joined) (hne : s.mainPc ≠ .joined) :
    (s.goto c p).deinit .main = .before := by
  have hc : Caller.main ≠ c := fun heq => hne (hjoined heq.symm)
  rw [goto_deinit, if_neg hc]
  exact h.calls hne

theorem goto_didCancel {c : Caller} {p : DeinitPc} (hold : ∀ i, s.deinit c ≠ .cancel i)
    (hnew : ∀ i, p ≠ .cancel i) (c' : Caller) (i : ℕ) :
    (s.goto c p).didCancel c' i = s.didCancel c' i := by
  simp only [didCancel, goto_deinit]
  by_cases hc : c' = c
  · subst hc
    simp [hold i, hnew i, Teardown.goto]
  · simp [hc, Teardown.goto]

theorem goto_position {c : Caller} {p : DeinitPc} {osInitialized : Bool}
    (h : ∀ c, Position osInitialized (s.deinit c) (s.torn c))
    (hp : Position osInitialized p (s.torn c)) (c' : Caller) :
    Position osInitialized ((s.goto c p).deinit c') (s.torn c') := by
  rw [goto_deinit]
  by_cases hc : c' = c
  · subst hc
    rw [if_pos rfl]
    exact hp
  · rw [if_neg hc]
    exact h c'

/- A call moves on between statements that delete nothing. -/
theorem Inv.goto (h : Inv s) {c : Caller} {p : DeinitPc} (hmain : s.mainPc ≠ .creating)
    (hjoined : c = .main → s.mainPc = .joined) (hreturned : s.deinit c ≠ .returned)
    (hold : ∀ i, s.deinit c ≠ .cancel i)
    (hnew : ∀ i, p ≠ .cancel i) (hp : Position s.osal.osInitialized p (s.torn c)) :
    Inv (s.goto c p) where
  destroyed := h.destroyed
  cancelled i := by
    rw [goto_didCancel hold hnew, goto_didCancel hold hnew]
    exact h.cancelled i
  position := goto_position h.position hp
  uninitialized hfalse := by
    obtain ⟨c', -, hret, htorn⟩ := h.other_returned p hreturned hfalse
    exact ⟨c', hret, htorn⟩
  creating hcreating := absurd hcreating hmain
  calls := h.goto_calls p hjoined
  room := h.room
  fresh := h.fresh

theorem Inv.not_creating (h : Inv s) {c : Caller} (hc : s.deinit c ≠ .before) :
    s.mainPc ≠ .creating := fun hmain => hc ((h.creating hmain).2 c)

theorem Inv.joined (h : Inv s) {c : Caller} (hc : s.deinit c ≠ .before) :
    c = .main → s.mainPc = .joined := by
  rintro rfl
  by_contra hne
  exact hc (h.calls hne)

/- A call that has begun moves on. -/
theorem Inv.goOn (h : Inv s) {c : Caller} {p : DeinitPc} (hbefore : s.deinit c ≠ .before)
    (hreturned : s.deinit c ≠ .returned) (hold : ∀ i, s.deinit c ≠ .cancel i)
    (hnew : ∀ i, p ≠ .cancel i) (hp : Position s.osal.osInitialized p (s.torn c)) :
    Inv (s.goto c p) :=
  h.goto (h.not_creating hbefore) (h.joined hbefore) hreturned hold hnew hp

theorem callers_sum (f : Caller → ℕ) (c : Caller) :
    f .main + f .scheduler = f c + f c.other := by
  cases c with
  | main => rfl
  | scheduler => exact Nat.add_comm _ _

theorem Inv.not_torn (h : Inv s) {c : Caller} {i : ℕ} (hpc : s.deinit c = .clear i) :
    s.torn c i = false := by
  by_contra htrue
  have hlt := (h.position c).torn_lt i (by simpa using htrue)
  rw [hpc] at hlt
  exact Nat.lt_irrefl i hlt

theorem Position.clear {osInitialized : Bool} {torn : ℕ → Bool} {i : ℕ}
    (h : Position osInitialized (.clear i) torn) :
    Position osInitialized (.cancel i) (Function.update torn i true) where
  bound := h.inside i rfl
  inside _ heq := nomatch heq
  torn_lt j hj := by
    by_cases hji : j = i
    · rw [hji]
      exact Nat.lt_add_one i
    · rw [Function.update_of_ne hji] at hj
      exact Nat.lt_succ_of_lt (h.torn_lt j hj)
  torn_of_lt hinit j hj := by
    by_cases hji : j = i
    · rw [hji, Function.update_self]
    · rw [Function.update_of_ne hji]
      exact h.torn_of_lt hinit j (Nat.lt_of_le_of_ne (Nat.le_of_lt_succ hj) hji)
  cancel j hj := by
    rw [← DeinitPc.cancel.inj hj, Function.update_self]
  returned heq := nomatch heq

/- Between its section and its `pthread_cancel` an entry is torn, not cancelled. -/
theorem clear_didCancel (h : Inv s) {c : Caller} {i : ℕ} (hpc : s.deinit c = .clear i)
    (c' : Caller) (j : ℕ) :
    (Function.update s.torn c (Function.update (s.torn c) i true) c' j &&
      decide ((s.goto c (.cancel i)).deinit c' ≠ .cancel j)) = s.didCancel c' j := by
  simp only [goto_deinit, didCancel]
  by_cases hc : c' = c
  · subst hc
    rw [if_pos rfl, hpc]
    by_cases hj : j = i
    · subst hj
      simp [h.not_torn hpc]
    · simp [hj, Ne.symm hj]
  · simp [hc]

/- The section for entry `i`. -/
theorem Inv.clear (h : Inv s) {c : Caller} {i : ℕ} (hpc : s.deinit c = .clear i) :
    Inv { s.goto c (.cancel i) with
      osal := s.osal.clearEntry i
      torn := Function.update s.torn c (Function.update (s.torn c) i true)
      destroyed := Function.update s.destroyed i (s.destroyed i + 1) } where
  destroyed j := by
    have hfalse := h.not_torn hpc
    have hsum := h.destroyed j
    have hother : c.other ≠ c := by cases c <;> decide
    rw [callers_sum (fun c => (s.torn c j).toNat) c] at hsum
    rw [callers_sum (fun c' => (Function.update s.torn c
      (Function.update (s.torn c) i true) c' j).toNat) c]
    show Function.update s.destroyed i (s.destroyed i + 1) j = _ + _ +
      if (s.tasks j).DeletedItself then 1 else 0
    simp only [Function.update_self, Function.update_of_ne hother]
    by_cases hj : j = i
    · subst hj
      simp only [Function.update_self, hsum, hfalse, Bool.toNat_true, Bool.toNat_false]
      omega
    · simp only [Function.update_of_ne hj]
      exact hsum
  cancelled j := by
    have hsum := h.cancelled j
    rw [← clear_didCancel h hpc, ← clear_didCancel h hpc] at hsum
    exact hsum
  position c' := by
    have hpos := h.position c
    rw [hpc] at hpos
    simp only [Teardown.goto]
    by_cases hc : c' = c
    · subst hc
      simp only [Function.update_self]
      exact hpos.clear
    · simp only [Function.update_of_ne hc]
      exact h.position c'
  uninitialized hfalse := by
    obtain ⟨c', hne, hret, htorn⟩ :=
      h.other_returned (c := c) (.cancel i) (by simp [hpc]) hfalse
    refine ⟨c', hret, ?_⟩
    simp only [Function.update_of_ne hne]
    exact htorn
  creating hcreating := absurd hcreating (h.not_creating (by rw [hpc]; nofun))
  calls := h.goto_calls _ (h.joined (by rw [hpc]; nofun))
  room := h.room
  fresh := h.fresh

/- The `pthread_cancel` of entry `i`. -/
theorem Inv.cancel (h : Inv s) {c : Caller} {i : ℕ} (hpc : s.deinit c = .cancel i) :
    Inv { s.goto c (.entry (i + 1)) with
      cancelled := Function.update s.cancelled i (s.cancelled i + 1) } where
  destroyed := h.destroyed
  cancelled j := by
    have hpos := h.position c
    rw [hpc] at hpos
    have htorn := hpos.cancel i rfl
    have hsum := h.cancelled j
    have hother : c.other ≠ c := by cases c <;> decide
    rw [callers_sum (fun c => (s.didCancel c j).toNat) c] at hsum
    show Function.update s.cancelled i (s.cancelled i + 1) j =
      ((s.goto c (.entry (i + 1))).didCancel .main j).toNat +
        ((s.goto c (.entry (i + 1))).didCancel .scheduler j).toNat
    rw [callers_sum (fun c' => ((s.goto c (.entry (i + 1))).didCancel c' j).toNat) c]
    have hrest : (s.goto c (.entry (i + 1))).didCancel c.other j = s.didCancel c.other j := by
      simp [didCancel, hother, Teardown.goto]
    have hown : (s.goto c (.entry (i + 1))).didCancel c j = s.torn c j := by
      simp [didCancel, Teardown.goto]
    have hbefore : s.didCancel c j = (s.torn c j && decide (j ≠ i)) := by
      simp [didCancel, hpc, eq_comm]
    simp only [hrest, hown]
    by_cases hj : j = i
    · subst hj
      simp only [Function.update_self, hsum, hbefore, htorn]
      simp only [Bool.toNat_true, ne_eq, not_true_eq_false, decide_false, Bool.and_false,
        Bool.toNat_false]
      omega
    · simp only [Function.update_of_ne hj, hsum, hbefore]
      simp [hj]
  position := by
    have hpos := h.position c
    rw [hpc] at hpos
    exact goto_position h.position
      ⟨hpos.bound, nofun, hpos.torn_lt, hpos.torn_of_lt, nofun, nofun⟩
  uninitialized hfalse := by
    obtain ⟨c', -, hret, htorn⟩ :=
      h.other_returned (c := c) (.entry (i + 1)) (by simp [hpc]) hfalse
    exact ⟨c', hret, htorn⟩
  creating hcreating := absurd hcreating (h.not_creating (by rw [hpc]; nofun))
  calls := h.goto_calls _ (h.joined (by rw [hpc]; nofun))
  room := h.room
  fresh := h.fresh

theorem Inv.unset (h : Inv s) {c : Caller} (hpc : s.deinit c = .unset) :
    Inv { s.goto c .returned with osal := { s.osal with osInitialized := false } } where
  destroyed := h.destroyed
  cancelled i := by
    have hold : ∀ i, s.deinit c ≠ .cancel i := by simp [hpc]
    show s.cancelled i = ((s.goto c .returned).didCancel .main i).toNat +
      ((s.goto c .returned).didCancel .scheduler i).toNat
    rw [goto_didCancel (p := .returned) hold nofun, goto_didCancel (p := .returned) hold nofun]
    exact h.cancelled i
  position := by
    have hpos := h.position c
    rw [hpc] at hpos
    apply goto_position fun c => (h.position c).uninitialized
    exact ⟨hpos.bound, nofun, hpos.torn_lt, nofun, nofun, fun _ => rfl⟩
  uninitialized _ := by
    cases hinit : s.osal.osInitialized with
    | true =>
      have htorn := (h.position c).torn_of_lt hinit
      rw [hpc] at htorn
      exact ⟨c, Function.update_self .., htorn⟩
    | false =>
      obtain ⟨c', -, hret, htorn⟩ :=
        h.other_returned (c := c) .returned (by simp [hpc]) hinit
      exact ⟨c', hret, htorn⟩
  creating hcreating := absurd hcreating (h.not_creating (by rw [hpc]; nofun))
  calls := h.goto_calls _ (h.joined (by rw [hpc]; nofun))
  room := h.room
  fresh := h.fresh

theorem deinit_inv {c : Caller} (h : Inv s) (ht : s.deinitStep c = some t) : Inv t := by
  have hpos := h.position c
  unfold deinitStep at ht
  cases hpc : s.deinit c with
  | before => simp [hpc] at ht
  | test =>
    simp only [hpc, Option.some.injEq] at ht
    subst ht
    rw [hpc] at hpos
    apply h.goOn
    · simp [hpc]
    · simp [hpc]
    · simp [hpc]
    · intro i
      split <;> nofun
    · split
      · exact ⟨Nat.zero_le _, nofun, hpos.torn_lt, hpos.torn_of_lt, nofun, nofun⟩
      · next hfalse =>
        refine ⟨Nat.le_refl _, nofun, ?_, fun htrue => absurd htrue hfalse, nofun, fun _ => ?_⟩
        · exact fun j hj => absurd (hpos.torn_lt j hj) (Nat.not_lt_zero j)
        · simpa using hfalse
  | entry i =>
    simp only [hpc] at ht
    rw [hpc] at hpos
    split at ht
    · next hi =>
      obtain rfl := Option.some.inj ht
      apply h.goOn
      · simp [hpc]
      · simp [hpc]
      · simp [hpc]
      · intro j
        split <;> nofun
      · split
        · refine ⟨hpos.bound, ?_, hpos.torn_lt, hpos.torn_of_lt, nofun, nofun⟩
          intro j hj
          rw [← DeinitPc.clear.inj hj]
          exact hi
        · next hfalse =>
          exact ⟨hi, nofun, fun j hj => Nat.lt_succ_of_lt (hpos.torn_lt j hj),
            fun htrue => absurd htrue hfalse, nofun, nofun⟩
    · next hi =>
      obtain rfl := Option.some.inj ht
      obtain rfl : i = MAX_TASKS := Nat.le_antisymm hpos.bound (Nat.le_of_not_lt hi)
      apply h.goOn
      · simp [hpc]
      · simp [hpc]
      · simp [hpc]
      · nofun
      · exact ⟨hpos.bound, nofun, hpos.torn_lt, hpos.torn_of_lt, nofun, nofun⟩
  | clear i =>
    simp only [hpc, Option.some.injEq] at ht
    subst ht
    exact h.clear hpc
  | cancel i =>
    simp only [hpc, Option.some.injEq] at ht
    subst ht
    exact h.cancel hpc
  | kill =>
    simp only [hpc, Option.some.injEq] at ht
    subst ht
    rw [hpc] at hpos
    apply h.goOn
    · simp [hpc]
    · simp [hpc]
    · simp [hpc]
    · nofun
    · exact ⟨hpos.bound, nofun, hpos.torn_lt, hpos.torn_of_lt, nofun, nofun⟩
  | unset =>
    simp only [hpc, Option.some.injEq] at ht
    subst ht
    exact h.unset hpc
  | returned => simp [hpc] at ht

theorem Inv.main (h : Inv s) {p : MainPc} (hjoined : s.mainPc ≠ .joined)
    (hp : p ≠ .creating) : Inv { s with mainPc := p } where
  destroyed := h.destroyed
  cancelled := h.cancelled
  position := h.position
  uninitialized := h.uninitialized
  creating hcreating := absurd hcreating hp
  calls _ := h.calls hjoined
  room := h.room
  fresh := h.fresh

/- The main thread is done with `osal_task_wait_all`. -/
theorem Inv.join (h : Inv s) (hjoined : s.mainPc ≠ .joined) :
    Inv { s.goto .main .test with mainPc := .joined } := by
  have hbefore := h.calls hjoined
  have hpos := h.position .main
  rw [hbefore] at hpos
  have hwait : Inv { s with mainPc := .joined } := h.main hjoined nofun
  apply hwait.goto
  · nofun
  · exact fun _ => rfl
  · simp [hbefore]
  · simp [hbefore]
  · nofun
  · exact ⟨hpos.bound, nofun, hpos.torn_lt, hpos.torn_of_lt, nofun, nofun⟩

theorem wait_inv (h : Inv s) (ht : s.waitStep = some t) : Inv t := by
  unfold waitStep at ht
  cases hpc : s.mainPc with
  | creating => simp [hpc] at ht
  | waitAll =>
    simp only [hpc] at ht
    split at ht
    · obtain rfl := Option.some.inj ht
      exact h.main (by simp [hpc]) nofun
    · obtain rfl := Option.some.inj ht
      exact h.join (by simp [hpc])
  | waiting i =>
    simp only [hpc] at ht
    split at ht
    · obtain rfl := Option.some.inj ht
      apply h.main (by simp [hpc])
      split <;> nofun
    · obtain rfl := Option.some.inj ht
      exact h.join (by simp [hpc])
  | joining i =>
    simp only [hpc] at ht
    split at ht
    · cases ht
    · obtain rfl := Option.some.inj ht
      exact h.main (by simp [hpc]) nofun
  | joined => simp [hpc] at ht

theorem register_initialized {s : OsalState} (hinit : s.osInitialized = true) :
    s.register.osInitialized = true := by
  unfold OsalState.register
  split
  · obtain ⟨-, -, -, hinit', -⟩ := OsalState.osalTaskStart_frame s.taskIdx hinit
    exact hinit'
  · exact hinit

theorem create_inv {c : Create} {calls : CreateCalls} (h : Inv s)
    (htable : s.osal.taskIdx.toNat < MAX_TASKS) (ht : s.step (.create c calls) = some t) :
    Inv t := by
  simp only [step] at ht
  split at ht
  · next hmain =>
    have hinit := (h.creating hmain).1
    by_cases hadm : Admitted c s.osal
    · obtain ⟨hinit', -, hidx'⟩ := prepared_fields c calls s.osal
      have hregister := register_initialized (hinit'.trans hinit)
      have hidx := (register_fields (hinit'.trans hinit)).1
      have hnat : (prepared c calls s.osal).register.taskIdx.toNat = s.osal.taskIdx.toNat + 1 := by
        rw [hidx, hidx']
        simp only [MAX_TASKS] at htable
        simp only [UInt8.toNat_add, UInt8.toNat_one]
        omega
      have htasks (i : ℕ) (hi : i ≠ s.osal.taskIdx.toNat) :
          (if calls.pthreadCreate = 0 then Function.update s.tasks s.osal.taskIdx.toNat .running
            else s.tasks) i = s.tasks i := by
        split
        · exact Function.update_of_ne hi ..
        · rfl
      rw [osalTaskCreate_admitted calls hadm] at ht
      obtain rfl := Option.some.inj ht
      apply Inv.mk
      · intro i
        have hsum := h.destroyed i
        have hfresh := h.fresh s.osal.taskIdx.toNat le_rfl
        by_cases hi : i = s.osal.taskIdx.toNat
        · subst hi
          have hold : ¬ (s.tasks s.osal.taskIdx.toNat).DeletedItself := by
            rw [hfresh]
            decide
          have hnew : ¬ ((if calls.pthreadCreate = 0 then
              Function.update s.tasks s.osal.taskIdx.toNat .running
              else s.tasks) s.osal.taskIdx.toNat).DeletedItself := by
            split
            · rw [Function.update_self]
              decide
            · exact hold
          rw [if_neg hold] at hsum
          rw [if_neg hnew]
          exact hsum
        · simp only [htasks i hi]
          exact hsum
      · exact h.cancelled
      · intro c
        simp only [hregister]
        have := h.position c
        rwa [hinit] at this
      · simp [hregister]
      · exact fun _ => ⟨hregister, (h.creating hmain).2⟩
      · exact h.calls
      · simp only [hnat]
        exact htable
      · intro i hi
        simp only [hnat] at hi
        simp only [htasks i (by omega)]
        exact h.fresh i (by omega)
    · rw [osalTaskCreate_refused calls hadm] at ht
      obtain rfl := Option.some.inj ht
      exact h
  · cases ht

/- A task that deletes itself goes through the section for its own entry. -/
theorem Inv.taskClear (h : Inv s) {i : ℕ} (hi : s.tasks i = .deleting) :
    Inv { s.setTask i .exiting with
      osal := s.osal.clearEntry i
      destroyed := Function.update s.destroyed i (s.destroyed i + 1) } where
  destroyed j := by
    have hsum := h.destroyed j
    show Function.update s.destroyed i (s.destroyed i + 1) j =
      (s.torn .main j).toNat + (s.torn .scheduler j).toNat +
        if (Function.update s.tasks i .exiting j).DeletedItself then 1 else 0
    by_cases hj : j = i
    · subst hj
      rw [if_neg (by rw [hi]; decide)] at hsum
      rw [if_pos (by rw [Function.update_self]; decide), Function.update_self, hsum]
    · simp only [Function.update_of_ne hj]
      exact hsum
  cancelled := h.cancelled
  position := h.position
  uninitialized := h.uninitialized
  creating := h.creating
  calls := h.calls
  room := h.room
  fresh j hj := by
    have hne : j ≠ i := by
      rintro rfl
      have := h.fresh j hj
      rw [hi] at this
      cases this
    show Function.update s.tasks i .exiting j = .absent
    rw [Function.update_of_ne hne]
    exact h.fresh j hj

theorem Inv.shutdown (h : Inv s) (hmain : s.mainPc ≠ .creating)
    (hbefore : s.deinit .scheduler = .before) :
    Inv { s.goto .scheduler .test with osal := s.osal.osalStopScheduler } := by
  have hpos := h.position .scheduler
  rw [hbefore] at hpos
  have hgoto : Inv (s.goto .scheduler .test) := by
    apply h.goto hmain
    · nofun
    · simp [hbefore]
    · simp [hbefore]
    · nofun
    · exact ⟨hpos.bound, nofun, hpos.torn_lt, hpos.torn_of_lt, nofun, nofun⟩
  exact hgoto.tables (OsalState.osalStopScheduler_sameTable s.osal)

theorem start_inv {ret : ℤ} (h : Inv s) (ht : s.step (.startScheduler ret) = some t) :
    Inv t := by
  simp only [step] at ht
  split at ht
  · next hmain =>
    have hsame := OsalState.osalStartScheduler_sameTable ret s.osal
    rcases hstart : s.osal.osalStartScheduler ret with ⟨res, o⟩
    rw [hstart] at hsame
    cases res with
    | success =>
      simp only [hstart, Option.some.injEq] at ht
      subst ht
      have htables := h.tables hsame
      exact { htables with
        creating := nofun
        calls := fun _ => (h.creating hmain).2 .main }
    | failure => simp [hstart] at ht
    | ignore => simp [hstart] at ht
  · cases ht

theorem step_inv {a : TeardownAct} (h : Inv s) (htable : s.InTable a) (ht : s.step a = some t) :
    Inv t := by
  cases a with
  | create c calls => exact create_inv h htable ht
  | startScheduler ret => exact start_inv h ht
  | alarm =>
    obtain rfl := Option.some.inj ht
    exact h.tables (OsalState.signalSched_sameTable s.osal)
  | sequencerPass =>
    simp only [step, Option.ite_none_right_eq_some, Option.some.injEq] at ht
    obtain ⟨-, rfl⟩ := ht
    exact h.tables (OsalState.sequencerVisits_sameTable _ s.osal)
  | suspend id =>
    simp only [step, Option.ite_none_right_eq_some, Option.some.injEq] at ht
    obtain ⟨-, rfl⟩ := ht
    exact h.tables (OsalState.osalTaskSuspend_sameTable id s.osal)
  | wake id =>
    simp only [step, Option.ite_none_right_eq_some] at ht
    obtain ⟨o, ho, rfl⟩ := Option.map_eq_some_iff.mp ht.2
    exact h.tables (OsalState.semWait_sameTable ho)
  | shutdown =>
    simp only [step, Option.ite_none_right_eq_some, Option.some.injEq] at ht
    obtain ⟨hpc, rfl⟩ := ht
    exact h.shutdown hpc.1 hpc.2
  | waitAll => exact wait_inv h ht
  | osalDeinit c => exact deinit_inv h ht
  | taskDelete i =>
    simp only [step, Option.ite_none_right_eq_some, Option.some.injEq] at ht
    obtain ⟨hi, rfl⟩ := ht
    apply h.task
    · simp [hi]
    · rw [hi]
      split <;> decide
  | taskClear i =>
    simp only [step, Option.ite_none_right_eq_some, Option.some.injEq] at ht
    obtain ⟨hi, rfl⟩ := ht
    exact h.taskClear hi
  | taskExit i =>
    simp only [step, Option.ite_none_right_eq_some, Option.some.injEq] at ht
    obtain ⟨hi, rfl⟩ := ht
    apply h.task
    · simp [hi]
    · rw [hi]
      decide
  | cancellation i =>
    simp only [step, Option.ite_none_right_eq_some, Option.some.injEq] at ht
    obtain ⟨hi, rfl⟩ := ht
    apply h.task
    · simp [hi.1]
    · rw [hi.1]
      decide

end Teardown

end MotionDetector.Osal
