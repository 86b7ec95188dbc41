import MotionDetector.Shutdown.Program

/-!
# What holds of an entry until its task is cancelled

Before the call of its exit function a task works in its loop, and its entry is
in use, so that the loop over the exit functions finds it and the main thread
waits for it. Afterwards nobody posts to its semaphore any more: it comes to its
end exactly if it could with the posts it had at the call and the signals since.
-/

namespace MotionDetector.Shutdown

open Transition Wakeups Osal Detection Camera Transcoder Nvm

/-! ### The tables -/

/-- The exit function of the entry stays, and its state does not become
`TASKSTATE_UNUSED`; nor does the scheduler start or stop. -/
structure KeepsEntry (o o' : OsalState) (i : ℕ) : Prop where
  started : o'.schedulerStarted = o.schedulerStarted
  exitFunc : (o'.tcb i).taskExitFunc = (o.tcb i).taskExitFunc
  used : o.taskStates i ≠ .unused → o'.taskStates i ≠ .unused

def signalSems (o : OsalState) (i : ℕ) : ℕ := (o.sequencers i).signalSem

theorem KeepsEntry.refl (o : OsalState) (i : ℕ) : KeepsEntry o o i := ⟨rfl, rfl, id⟩

theorem KeepsEntry.trans {o o' o'' : OsalState} {i : ℕ} (h : KeepsEntry o o' i)
    (h' : KeepsEntry o' o'' i) : KeepsEntry o o'' i :=
  ⟨h'.started.trans h.started, h'.exitFunc.trans h.exitFunc,
    fun hused => h'.used (h.used hused)⟩

theorem osalTaskStart_keeps (id : UInt8) (o : OsalState) (i : ℕ) :
    KeepsEntry o (o.osalTaskStart id).2 i := by
  by_cases hinit : o.osInitialized = true
  · obtain ⟨-, -, -, -, -, -, hstates⟩ := OsalState.osalTaskStart_frame id hinit
    have hsame : (o.osalTaskStart id).2.schedulerStarted = o.schedulerStarted ∧
        (o.osalTaskStart id).2.tcb = o.tcb := by
      by_cases hsem : (o.sequencers id.toNat).signalSem < semValueMax
      · simp [OsalState.osalTaskStart, hinit, OsalState.semPost, hsem, isError,
          OsalState.setTaskState, OsalState.setSequencer, OsalState.access]
      · simp [OsalState.osalTaskStart, hinit, OsalState.semPost, hsem, isError, OsalState.access]
    refine ⟨hsame.1, ?_, (hstates i).2⟩
    rw [hsame.2]
  · simp only [OsalState.osalTaskStart, if_neg hinit]
    exact .refl o i

theorem sequencerPass_keeps (o : OsalState) (i : ℕ) :
    KeepsEntry o o.osalTaskGenericSequencer i := by
  unfold OsalState.osalTaskGenericSequencer
  induction List.range MAX_TASKS generalizing o with
  | nil => exact .refl o i
  | cons j l ih =>
    have hvisit : KeepsEntry o (o.sequencerVisit j) i := by
      unfold OsalState.sequencerVisit
      have haccess : KeepsEntry o (o.access j) i := ⟨rfl, rfl, id⟩
      split
      · exact haccess.trans (osalTaskStart_keeps j.toUInt8 (o.access j) i)
      · exact haccess
    exact hvisit.trans (ih (o.sequencerVisit j))

theorem osalTaskSuspend_keeps (id : UInt8) (o : OsalState) (i : ℕ) :
    KeepsEntry o (o.osalTaskSuspend id) i := by
  unfold OsalState.osalTaskSuspend
  split
  · refine ⟨rfl, rfl, fun hused => ?_⟩
    rw [OsalState.setTaskState_taskStates]
    by_cases hi : i = id.toNat
    · rw [hi, Function.update_self]
      exact nofun
    · rwa [Function.update_of_ne hi]
  · exact .refl o i

theorem osalTaskSuspend_sems (id : UInt8) (o : OsalState) (i : ℕ) :
    signalSems (o.osalTaskSuspend id) i = signalSems o i := by
  unfold OsalState.osalTaskSuspend signalSems
  split
  · by_cases hi : i = id.toNat
    · subst hi
      simp [OsalState.setTaskState, OsalState.setSequencer]
    · simp [OsalState.setTaskState, OsalState.setSequencer, OsalState.access, hi]
  · rfl

theorem semWait_keeps {id : UInt8} {o o' : OsalState} (h : o.semWait id = some o') (i : ℕ) :
    KeepsEntry o o' i := by
  unfold OsalState.semWait at h
  split at h
  · obtain rfl := Option.some.inj h
    exact ⟨rfl, rfl,
      fun hused => (congrFun (OsalState.setSequencer_same (by rfl)) i).trans_ne hused⟩
  · cases h

/- A wait takes one post, and needs one. -/
theorem semWait_sems {id : UInt8} {o o' : OsalState} (h : o.semWait id = some o') :
    signalSems o id.toNat = signalSems o' id.toNat + 1 ∧
      ∀ i, i ≠ id.toNat → signalSems o' i = signalSems o i := by
  unfold OsalState.semWait at h
  split at h
  · next hpos =>
    obtain rfl := Option.some.inj h
    refine ⟨?_, fun i hi => ?_⟩
    · simp only [signalSems, OsalState.setSequencer, Function.update_self]
      omega
    · simp [signalSems, OsalState.setSequencer, OsalState.access, hi]
  · cases h

theorem clearEntry_keeps {j i : ℕ} (hi : i ≠ j) (o : OsalState) :
    KeepsEntry o (o.clearEntry j) i := by
  refine ⟨rfl, ?_, fun hused => ?_⟩
  · simp [OsalState.clearEntry, OsalState.setTaskState, OsalState.setSequencer, OsalState.setTcb,
      OsalState.access, hi]
  · unfold OsalState.clearEntry
    rw [OsalState.setTaskState_taskStates, Function.update_of_ne hi]
    exact hused

/- The exit function and the count are left in an entry that is cleared. -/
theorem clearEntry_leaves (j : ℕ) (o : OsalState) (i : ℕ) :
    ((o.clearEntry j).tcb i).taskExitFunc = (o.tcb i).taskExitFunc ∧
      signalSems (o.clearEntry j) i = signalSems o i := by
  by_cases hi : i = j
  · subst hi
    simp [OsalState.clearEntry, OsalState.setTaskState, OsalState.setSequencer, OsalState.setTcb,
      OsalState.access, signalSems]
  · simp [OsalState.clearEntry, OsalState.setTaskState, OsalState.setSequencer, OsalState.setTcb,
      OsalState.access, signalSems, hi]

/- Before the scheduler runs, a new entry is suspended. -/
theorem create_entry {c : Create} (calls : CreateCalls) {o : OsalState}
    (hadm : Admitted c o) (hstarted : o.schedulerStarted = false) :
    let o' := (prepared c calls o).register
    (o'.tcb o.taskIdx.toNat).taskExitFunc = c.exitFunc ∧
      o'.taskStates o.taskIdx.toNat = .suspended ∧ o'.taskIdx = o.taskIdx + 1 ∧
      o'.schedulerStarted = false ∧ ∀ i, i ≠ o.taskIdx.toNat → KeepsEntry o o' i := by
  obtain ⟨hinit, hstarted', hidx⟩ := prepared_fields c calls o
  have htcb := prepared_tcb c calls o
  have hfields := register_fields (s := prepared c calls o) (hinit.trans hadm.1)
  rw [hidx, hstarted', hstarted] at hfields
  obtain ⟨hidx', htcb', -, hstate⟩ := hfields
  have hsequencers (i : ℕ) (hi : i ≠ o.taskIdx.toNat) :
      (prepared c calls o).taskStates i = o.taskStates i := by
    unfold prepared OsalState.osalSemInit
    split
    · simp [OsalState.setThread, OsalState.osalTaskSetPeriod, OsalState.setSequencer,
        OsalState.setTcb, OsalState.access, OsalState.fillTcb, OsalState.taskStates, hi]
    · simp [OsalState.setThread, OsalState.osalTaskSetPeriod, OsalState.setSequencer,
        OsalState.setTcb, OsalState.access, OsalState.fillTcb, OsalState.taskStates, hi]
  have hregister : (prepared c calls o).register =
      { (prepared c calls o).setTaskState o.taskIdx.toNat .suspended with
        taskIdx := o.taskIdx + 1 } := by
    unfold OsalState.register
    rw [hstarted', hstarted, hidx]
    rfl
  have hstopped : (prepared c calls o).register.schedulerStarted = false := by
    rw [hregister]
    exact hstarted'.trans hstarted
  refine ⟨?_, hstate, hidx', hstopped,
    fun i hi => ⟨hstopped.trans hstarted.symm, ?_, fun hused => ?_⟩⟩
  · rw [htcb', htcb, Function.update_self]
    rfl
  · rw [htcb', htcb, Function.update_of_ne hi]
  · rw [hregister]
    show ((prepared c calls o).setTaskState o.taskIdx.toNat .suspended).taskStates i ≠ .unused
    rw [OsalState.setTaskState_taskStates, Function.update_of_ne hi, hsequencers i hi]
    exact hused

namespace Program

/-- No task with an exit function is cancelled before it has left its loop, run
the statements behind it and deleted itself. -/
def Graceful (s : Program) : Prop :=
  ∀ i, s.teardown.tasks i ≠ .absent → s.exitFunc i ≠ none → 0 < s.teardown.cancelled i →
    s.teardown.tasks i = .exited ∧ (s.threads i).Left

/-- Every task that was asleep when its exit function was called has been woken or
has a post to wake it. -/
def Woken (s : Program) : Prop := ∀ i, s.slept i = true → 0 < s.signalSem i

/-! ### The invariant -/

/-- The main thread has not come past the entry in `osal_task_wait_all`. -/
def Behind : MainPc → ℕ → Prop
  | .creating, _ => True
  | .waitAll, _ => True
  | .waiting j, i => j ≤ i
  | .joining j, i => j ≤ i
  | .joined, _ => False

/-- The exit function of the task has yet to be called. -/
structure Waiting (s : Program) (i : ℕ) : Prop where
  running : s.teardown.tasks i = .running
  used : s.teardown.osal.taskStates i ≠ .unused
  place : s.exits ≤ i
  main : Behind s.teardown.mainPc i

/-- With `n` posts and the signals so far `t` comes to its end exactly if the thread
does with the posts it has left, whatever signals are still to come. -/
def OnPath (inp : Inputs) (s : Program) (i : ℕ) (t : Thread) (n : ℕ) : Prop :=
  ∀ m, Ends (Thread.sleeper inp) t (n + s.interrupts i + m) ↔
    Ends (Thread.sleeper inp) (s.threads i) (s.signalSem i + m)

/-- The exit function was called when the thread was `t` and had `n` posts. -/
structure Notified (inp : Inputs) (s : Program) (i : ℕ) (t : Thread) (n : ℕ) : Prop where
  out : s.teardown.deinit .scheduler ≠ .before
  alive : s.teardown.tasks i ≠ .returned ∧ s.teardown.tasks i ≠ .cancelled
  path : s.teardown.tasks i = .running → OnPath inp s i t.exitFunction n
  ended : s.teardown.tasks i ≠ .running →
    Ends (Thread.sleeper inp) t.exitFunction (n + s.interrupts i) ∧ (s.threads i).Ended
  left : (s.threads i).Ended → (s.threads i).Left

structure Entry (inp : Inputs) (s : Program) (i : ℕ) : Prop where
  asleep : s.asleep i = true → s.teardown.tasks i = .running ∧ (s.threads i).AtDelay
  exitFunc : s.teardown.tasks i ≠ .absent → s.exitFunc i ≠ none
  slept : s.slept i = true → s.asleep i = true ∧ s.notified i ≠ none
  working : s.notified i = none → (s.threads i).Working
  waiting : s.notified i = none → s.teardown.tasks i ≠ .absent → Waiting s i
  notified : ∀ t n, s.notified i = some (t, n) → s.teardown.tasks i ≠ .absent →
    Notified inp s i t n

structure Outer (s : Program) : Prop where
  teardown : s.teardown.Inv
  few : s.teardown.osal.taskIdx.toNat ≤ creates.length
  creating : s.teardown.mainPc = .creating → s.teardown.osal.schedulerStarted = false
  before : s.teardown.deinit .scheduler = .before → s.exits = 0 ∧ ∀ i, s.notified i = none
  done : s.teardown.deinit .scheduler ≠ .before → s.teardown.deinit .scheduler ≠ .test →
    s.exits = MAX_TASKS
  called : ∀ i, s.notified i ≠ none → i < s.exits

structure Inv (inp : Inputs) (s : Program) : Prop where
  outer : Outer s
  entries : ∀ i, Entry inp s i

variable {inp : Inputs} {s u : Program} {i : ℕ}

theorem firstThreads_working (i : ℕ) : (firstThreads i).Working := by
  match i with
  | 0 => exact DetectionThread.start_working
  | 1 => exact CameraThread.start_working
  | 2 => exact TranscoderThread.start_working
  | _ + 3 => exact NvmThread.start_working

theorem init_inv (inp : Inputs) (rtMaxPrio rtMinPrio : ℤ) : Inv inp (init rtMaxPrio rtMinPrio) where
  outer :=
    { teardown := Teardown.init_inv rtMaxPrio rtMinPrio
      few := Nat.zero_le _
      creating := fun _ => rfl
      before := fun _ => ⟨rfl, fun _ => rfl⟩
      done := fun h => absurd rfl h
      called := fun _ h => absurd rfl h }
  entries i :=
    { asleep := fun h => absurd h Bool.false_ne_true
      exitFunc := fun h => absurd rfl h
      slept := fun h => absurd h Bool.false_ne_true
      working := fun _ => firstThreads_working i
      waiting := fun _ h => absurd rfl h
      notified := fun _ _ h => nomatch h }

theorem init_graceful (rtMaxPrio rtMinPrio : ℤ) : Graceful (init rtMaxPrio rtMinPrio) :=
  fun _ h => absurd rfl h

theorem Inv.lt (h : Inv inp s) (hi : s.teardown.tasks i ≠ .absent) : i < creates.length := by
  by_contra hge
  exact hi (h.outer.teardown.fresh i (h.outer.few.trans (Nat.le_of_not_lt hge)))

theorem Entry.alive (he : Entry inp s i) (hi : s.teardown.tasks i ≠ .absent) :
    s.teardown.tasks i ≠ .returned ∧ s.teardown.tasks i ≠ .cancelled := by
  cases hnot : s.notified i with
  | none =>
    rw [(he.waiting hnot hi).running]
    exact ⟨nofun, nofun⟩
  | some p => exact (he.notified p.1 p.2 hnot hi).alive

/- While all is graceful a task that has not exited has not been cancelled, and
`os_initialized` is set as long as there is one. -/
theorem Inv.alive (h : Inv inp s) (hg : Graceful s) (hi : s.teardown.tasks i ≠ .absent)
    (hexited : s.teardown.tasks i ≠ .exited) :
    s.teardown.cancelled i = 0 ∧ s.teardown.osal.osInitialized = true := by
  have hzero : s.teardown.cancelled i = 0 := by
    by_contra hne
    exact hexited (hg i hi ((h.entries i).exitFunc hi) (Nat.pos_of_ne_zero hne)).1
  refine ⟨hzero, ?_⟩
  by_contra hfalse
  obtain ⟨c, hret, htorn⟩ := h.outer.teardown.uninitialized (by simpa using hfalse)
  have hlt : i < MAX_TASKS := (h.lt hi).trans (by decide)
  have hdid : s.teardown.didCancel c i = true := by
    simp [Teardown.didCancel, htorn i hlt, hret]
  have hsum := h.outer.teardown.cancelled i
  rw [Teardown.callers_sum (fun c => (s.teardown.didCancel c i).toNat) c, hdid, hzero] at hsum
  simp only [Bool.toNat_true] at hsum
  omega

theorem Inv.running (h : Inv inp s) (hg : Graceful s) (hrunning : s.teardown.tasks i = .running) :
    s.teardown.tasks i ≠ .absent ∧ s.teardown.cancelled i = 0 ∧
      s.teardown.osal.osInitialized = true := by
  have hi : s.teardown.tasks i ≠ .absent := by
    rw [hrunning]
    exact nofun
  refine ⟨hi, h.alive hg hi ?_⟩
  rw [hrunning]
  exact nofun

/-- Nothing of entry `j` changes from `s` to `u` but its state in the table, and
the count of its semaphore before the call of its exit function. -/
structure Keeps (s u : Program) (j : ℕ) : Prop where
  task : u.teardown.tasks j = s.teardown.tasks j
  thread : u.threads j = s.threads j
  asleep : u.asleep j = s.asleep j
  slept : u.slept j = s.slept j
  notified : u.notified j = s.notified j
  interrupts : u.interrupts j = s.interrupts j
  exitFunc : u.exitFunc j = s.exitFunc j
  sem : s.notified j ≠ none → u.signalSem j = s.signalSem j
  used : Waiting s j → u.teardown.osal.taskStates j ≠ .unused
  place : Waiting s j → u.exits ≤ j
  main : Waiting s j → Behind u.teardown.mainPc j
  out : s.teardown.deinit .scheduler ≠ .before → u.teardown.deinit .scheduler ≠ .before

theorem Keeps.refl (s : Program) (j : ℕ) : Keeps s s j where
  task := rfl
  thread := rfl
  asleep := rfl
  slept := rfl
  notified := rfl
  interrupts := rfl
  exitFunc := rfl
  sem _ := rfl
  used hw := hw.used
  place hw := hw.place
  main hw := hw.main
  out := id

theorem Entry.keep {j : ℕ} (h : Entry inp s j) (hk : Keeps s u j) : Entry inp u j where
  asleep hasleep := by
    rw [hk.asleep] at hasleep
    rw [hk.task, hk.thread]
    exact h.asleep hasleep
  exitFunc hj := by
    rw [hk.task] at hj
    rw [hk.exitFunc]
    exact h.exitFunc hj
  slept hslept := by
    rw [hk.slept] at hslept
    rw [hk.asleep, hk.notified]
    exact h.slept hslept
  working hnone := by
    rw [hk.notified] at hnone
    rw [hk.thread]
    exact h.working hnone
  waiting hnone hj := by
    rw [hk.notified] at hnone
    rw [hk.task] at hj
    have hw := h.waiting hnone hj
    exact ⟨hk.task.trans hw.running, hk.used hw, hk.place hw, hk.main hw⟩
  notified t n hsome hj := by
    rw [hk.notified] at hsome
    rw [hk.task] at hj
    have hn := h.notified t n hsome hj
    have hsem := hk.sem (by rw [hsome]; exact nofun)
    apply Notified.mk
    · exact hk.out hn.out
    · rw [hk.task]
      exact hn.alive
    · rw [hk.task, OnPath, hk.thread, hk.interrupts, hsem]
      exact hn.path
    · rw [hk.task, hk.thread, hk.interrupts]
      exact hn.ended
    · rw [hk.thread]
      exact hn.left

end Program

end MotionDetector.Shutdown
