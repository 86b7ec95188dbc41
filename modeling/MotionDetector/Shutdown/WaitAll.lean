import MotionDetector.Shutdown.Graceful

/-!
# What the main thread has waited for

Behind `osal_task_wait_all` the main thread calls `framebuffer_deinit`, which unmaps
the buffers that the camera task copies from. It joins the thread of an entry only if
it finds the entry in use.
-/

namespace MotionDetector.Osal

open MotionDetector.Shutdown

/-- Entries that the main thread has come past. -/
def MainPc.past : MainPc → ℕ
  | .creating => 0
  | .waitAll => 0
  | .waiting i => i
  | .joining i => i
  | .joined => MAX_TASKS

namespace Teardown

/-- No task that the main thread has come past is in its loop. -/
def WaitedFor (s : Teardown) : Prop := ∀ i < s.mainPc.past, i < MAX_TASKS → s.tasks i ≠ .running

/-- With its next statement the main thread comes past entry `i` and does not join. -/
def PassesOver (s : Teardown) (i : ℕ) : Prop :=
  match s.mainPc with
  | .waitAll => s.osal.osInitialized = false
  | .waiting j => i = j ∧ s.osal.taskStates j = .unused
  | _ => False

instance (s : Teardown) (i : ℕ) : Decidable (s.PassesOver i) := by
  unfold PassesOver
  split <;> infer_instance

variable {s t : Teardown}

theorem WaitedFor.keep (h : s.WaitedFor) (hmain : t.mainPc = s.mainPc)
    (htasks : ∀ i, t.tasks i = .running → s.tasks i = .running) : t.WaitedFor := by
  intro i hi hlt hrunning
  rw [hmain] at hi
  exact h i hi hlt (htasks i hrunning)

theorem wait_waitedFor_iff (h : s.WaitedFor) (ht : s.waitStep = some t) :
    t.WaitedFor ↔ ∀ i < MAX_TASKS, s.PassesOver i → s.tasks i ≠ .running := by
  unfold waitStep at ht
  cases hpc : s.mainPc with
  | creating => simp [hpc] at ht
  | waitAll =>
    simp only [hpc] at ht
    split at ht
    · next hinit =>
      obtain rfl := Option.some.inj ht
      refine iff_of_true (fun i hi => absurd hi (Nat.not_lt_zero i)) fun i _ hpass => ?_
      rw [PassesOver, hpc] at hpass
      exact absurd (hinit.symm.trans hpass) (by decide)
    · next hinit =>
      obtain rfl := Option.some.inj ht
      have hpass (i : ℕ) : s.PassesOver i := by
        rw [PassesOver, hpc]
        simpa using hinit
      exact ⟨fun hall i hi _ => hall i hi hi, fun hall i hi _ => hall i hi (hpass i)⟩
  | waiting j =>
    have hpassed : s.mainPc.past = j := by rw [hpc]; rfl
    simp only [hpc] at ht
    split at ht
    · next hj =>
      obtain rfl := Option.some.inj ht
      by_cases hused : s.osal.taskStates j ≠ .unused
      · refine iff_of_true (fun i hi => ?_) fun i _ hpass => ?_
        · simp only [if_pos hused] at hi
          exact h i (hpassed.symm ▸ hi)
        · rw [PassesOver, hpc] at hpass
          exact absurd hpass.2 hused
      · simp only [WaitedFor, if_neg hused, MainPc.past]
        constructor
        · intro hall i hi hpass
          rw [PassesOver, hpc] at hpass
          exact hall i (hpass.1 ▸ Nat.lt_succ_self i) hi
        · intro hall i hi hlt
          rcases Nat.lt_succ_iff_lt_or_eq.mp hi with hbefore | rfl
          · exact h i (hpassed.symm ▸ hbefore) hlt
          · apply hall i hlt
            rw [PassesOver, hpc]
            exact ⟨rfl, not_not.mp hused⟩
    · next hj =>
      obtain rfl := Option.some.inj ht
      refine iff_of_true (fun i _ hi => ?_) fun i hi hpass => ?_
      · exact h i (by rw [hpassed]; omega) hi
      · rw [PassesOver, hpc] at hpass
        omega
  | joining j =>
    have hpassed : s.mainPc.past = j := by rw [hpc]; rfl
    simp only [hpc] at ht
    split at ht
    · cases ht
    · next hended =>
      obtain rfl := Option.some.inj ht
      refine iff_of_true (fun i hi hlt => ?_) fun i _ hpass => ?_
      · rcases Nat.lt_succ_iff_lt_or_eq.mp hi with hbefore | rfl
        · exact h i (hpassed.symm ▸ hbefore) hlt
        · exact fun hrunning => hended (.inl hrunning)
      · rw [PassesOver, hpc] at hpass
        exact absurd hpass id
  | joined => simp [hpc] at ht

theorem deinit_frame {c : Caller} (ht : s.deinitStep c = some t) :
    t.mainPc = s.mainPc ∧ t.tasks = s.tasks := by
  unfold deinitStep at ht
  cases hpc : s.deinit c with
  | before => simp [hpc] at ht
  | entry i =>
    simp only [hpc] at ht
    split at ht
    · obtain rfl := Option.some.inj ht
      exact ⟨rfl, rfl⟩
    · obtain rfl := Option.some.inj ht
      exact ⟨rfl, rfl⟩
  | returned => simp [hpc] at ht
  | _ =>
    simp only [hpc, Option.some.injEq] at ht
    subst ht
    exact ⟨rfl, rfl⟩

theorem running_of_setTask {i j : ℕ} {p : TaskPc} (hp : p ≠ .running)
    (h : (s.setTask i p).tasks j = .running) : s.tasks j = .running := by
  simp only [setTask] at h
  by_cases hj : j = i
  · rw [hj, Function.update_self] at h
    exact absurd h hp
  · rwa [Function.update_of_ne hj] at h

/- Only the creation of a task lets a thread run, and then nothing has been passed. -/
theorem step_waitedFor {a : TeardownAct} (h : s.WaitedFor) (ha : a ≠ .waitAll)
    (ht : s.step a = some t) : t.WaitedFor := by
  cases a with
  | create c calls =>
    simp only [step] at ht
    split at ht
    · next hmain =>
      have hnone : t.mainPc = .creating := by
        split at ht
        · obtain rfl := Option.some.inj ht
          exact hmain
        · obtain rfl := Option.some.inj ht
          exact hmain
      intro i hi
      rw [hnone] at hi
      exact absurd hi (Nat.not_lt_zero i)
    · cases ht
  | startScheduler ret =>
    simp only [step] at ht
    split at ht
    · rcases hstart : s.osal.osalStartScheduler ret with ⟨res, o⟩
      cases res with
      | success =>
        simp only [hstart, Option.some.injEq] at ht
        subst ht
        exact fun i hi => absurd hi (Nat.not_lt_zero i)
      | failure => simp [hstart] at ht
      | ignore => simp [hstart] at ht
    · cases ht
  | alarm =>
    obtain rfl := Option.some.inj ht
    exact h.keep rfl fun _ => id
  | sequencerPass =>
    simp only [step, Option.ite_none_right_eq_some, Option.some.injEq] at ht
    obtain ⟨-, rfl⟩ := ht
    exact h.keep rfl fun _ => id
  | suspend id =>
    simp only [step, Option.ite_none_right_eq_some, Option.some.injEq] at ht
    obtain ⟨-, rfl⟩ := ht
    exact h.keep rfl fun _ h => h
  | wake id =>
    simp only [step, Option.ite_none_right_eq_some] at ht
    obtain ⟨o, -, rfl⟩ := Option.map_eq_some_iff.mp ht.2
    exact h.keep rfl fun _ h => h
  | shutdown =>
    simp only [step, Option.ite_none_right_eq_some, Option.some.injEq] at ht
    obtain ⟨-, rfl⟩ := ht
    exact h.keep rfl fun _ => id
  | waitAll => exact absurd rfl ha
  | osalDeinit c =>
    obtain ⟨hmain, htasks⟩ := deinit_frame ht
    exact h.keep hmain fun i hi => htasks ▸ hi
  | taskDelete i =>
    simp only [step, Option.ite_none_right_eq_some, Option.some.injEq] at ht
    obtain ⟨-, rfl⟩ := ht
    exact h.keep rfl fun _ => running_of_setTask (by split <;> decide)
  | taskClear i =>
    simp only [step, Option.ite_none_right_eq_some, Option.some.injEq] at ht
    obtain ⟨-, rfl⟩ := ht
    exact h.keep rfl fun _ => running_of_setTask (by decide)
  | taskExit i =>
    simp only [step, Option.ite_none_right_eq_some, Option.some.injEq] at ht
    obtain ⟨-, rfl⟩ := ht
    exact h.keep rfl fun _ => running_of_setTask (by decide)
  | cancellation i =>
    simp only [step, Option.ite_none_right_eq_some, Option.some.injEq] at ht
    obtain ⟨-, rfl⟩ := ht
    exact h.keep rfl fun _ => running_of_setTask (by decide)

/-! ### Entries of running tasks -/

/-- Until a teardown has cleared it, the entry of a task in its loop is in use. -/
structure InUse (s : Teardown) : Prop where
  started : s.mainPc = .creating → s.osal.schedulerStarted = false
  used : ∀ i, s.tasks i = .running → (∀ c, s.torn c i = false) → s.osal.taskStates i ≠ .unused

theorem init_inUse (rtMaxPrio rtMinPrio : ℤ) : InUse (init rtMaxPrio rtMinPrio) where
  started _ := rfl
  used _ h := nomatch h

theorem InUse.keep (h : InUse s) (hmain : t.mainPc = s.mainPc)
    (htasks : ∀ i, t.tasks i = .running → s.tasks i = .running)
    (htorn : ∀ i, (∀ c, t.torn c i = false) → ∀ c, s.torn c i = false)
    (hstarted : s.mainPc = .creating → t.osal.schedulerStarted = s.osal.schedulerStarted)
    (hused : ∀ i, t.tasks i = .running → (∀ c, t.torn c i = false) →
      s.osal.taskStates i ≠ .unused → t.osal.taskStates i ≠ .unused) : InUse t where
  started hcreating :=
    (hstarted (hmain ▸ hcreating)).trans (h.started (hmain ▸ hcreating))
  used i hrunning hnone :=
    hused i hrunning hnone (h.used i (htasks i hrunning) (htorn i hnone))

/- Only the tables change. -/
theorem InUse.tables (h : InUse s) {o : OsalState} (ho : ∀ i, KeepsEntry s.osal o i) :
    InUse { s with osal := o } :=
  h.keep rfl (fun _ hrunning => hrunning) (fun _ hnone => hnone) (fun _ => (ho 0).started)
    fun i _ _ => (ho i).used

/- A thread moves on. -/
theorem InUse.task (h : InUse s) {i : ℕ} {p : TaskPc} (hp : p ≠ .running) :
    InUse (s.setTask i p) :=
  h.keep rfl (fun _ => running_of_setTask hp) (fun _ hnone => hnone) (fun _ => rfl)
    fun _ _ _ => id

theorem create_inUse {c : Create} {calls : CreateCalls} (h : InUse s)
    (ht : s.step (.create c calls) = some t) : InUse t := by
  simp only [step] at ht
  split at ht
  · next hmain =>
    by_cases hadm : Admitted c s.osal
    · obtain ⟨-, hstate, -, hstarted, hkeeps⟩ := create_entry calls hadm (h.started hmain)
      rw [osalTaskCreate_admitted calls hadm] at ht
      obtain rfl := Option.some.inj ht
      refine ⟨fun _ => hstarted, fun i hrunning hnone => ?_⟩
      by_cases hi : i = s.osal.taskIdx.toNat
      · rw [hi]
        exact hstate.trans_ne (by decide)
      · refine (hkeeps i hi).used (h.used i ?_ hnone)
        simp only at hrunning
        split at hrunning
        · rwa [Function.update_of_ne hi] at hrunning
        · exact hrunning
    · rw [osalTaskCreate_refused calls hadm] at ht
      obtain rfl := Option.some.inj ht
      exact h
  · cases ht

theorem deinit_inUse {c : Caller} (hinv : Inv s) (h : InUse s) (ht : s.deinitStep c = some t) :
    InUse t := by
  obtain ⟨hmain, htasks⟩ := deinit_frame ht
  have hgoto (p : DeinitPc) : InUse (s.goto c p) :=
    h.keep rfl (fun _ hrunning => hrunning) (fun _ hnone => hnone) (fun _ => rfl) fun _ _ _ => id
  unfold deinitStep at ht
  cases hpc : s.deinit c with
  | before => simp [hpc] at ht
  | returned => simp [hpc] at ht
  | test =>
    simp only [hpc, Option.some.injEq] at ht
    subst ht
    exact hgoto _
  | entry i =>
    simp only [hpc] at ht
    split at ht
    · obtain rfl := Option.some.inj ht
      exact hgoto _
    · obtain rfl := Option.some.inj ht
      exact hgoto _
  | clear i =>
    simp only [hpc, Option.some.injEq] at ht
    subst ht
    have hcreating := hinv.not_creating (c := c) (by rw [hpc]; nofun)
    have htorn (c' : Caller) (j : ℕ) (hj : Function.update s.torn c
        (Function.update (s.torn c) i true) c' j = false) : s.torn c' j = false ∧
          (c' = c → j ≠ i) := by
      by_cases hc : c' = c
      · subst hc
        rw [Function.update_self] at hj
        have hne : j ≠ i := by
          rintro rfl
          rw [Function.update_self] at hj
          cases hj
        rw [Function.update_of_ne hne] at hj
        exact ⟨hj, fun _ => hne⟩
      · rw [Function.update_of_ne hc] at hj
        exact ⟨hj, fun heq => absurd heq hc⟩
    refine h.keep rfl (fun _ hrunning => hrunning) (fun j hnone c' => (htorn c' j (hnone c')).1)
      (fun hmain => absurd hmain hcreating) fun j _ hnone => ?_
    exact (clearEntry_keeps ((htorn c j (hnone c)).2 rfl) s.osal).used
  | cancel i =>
    simp only [hpc, Option.some.injEq] at ht
    subst ht
    exact h.keep rfl (fun _ hrunning => hrunning) (fun _ hnone => hnone) (fun _ => rfl)
      fun _ _ _ => id
  | kill =>
    simp only [hpc, Option.some.injEq] at ht
    subst ht
    exact hgoto _
  | unset =>
    simp only [hpc, Option.some.injEq] at ht
    subst ht
    exact h.keep rfl (fun _ hrunning => hrunning) (fun _ hnone => hnone) (fun _ => rfl)
      fun _ _ _ => id

theorem wait_inUse (h : InUse s) (ht : s.waitStep = some t) : InUse t := by
  have hmain (p : MainPc) (hp : p ≠ .creating) : InUse { s with mainPc := p } :=
    ⟨fun hcreating => absurd hcreating hp, h.used⟩
  unfold waitStep at ht
  cases hpc : s.mainPc with
  | creating => simp [hpc] at ht
  | waitAll =>
    simp only [hpc] at ht
    split at ht
    · obtain rfl := Option.some.inj ht
      exact hmain _ nofun
    · obtain rfl := Option.some.inj ht
      exact ⟨nofun, h.used⟩
  | waiting i =>
    simp only [hpc] at ht
    split at ht
    · obtain rfl := Option.some.inj ht
      exact hmain _ (by split <;> nofun)
    · obtain rfl := Option.some.inj ht
      exact ⟨nofun, h.used⟩
  | joining i =>
    simp only [hpc] at ht
    split at ht
    · cases ht
    · obtain rfl := Option.some.inj ht
      exact hmain _ nofun
  | joined => simp [hpc] at ht

theorem step_inUse {a : TeardownAct} (hinv : Inv s) (h : InUse s) (ht : s.step a = some t) :
    InUse t := by
  cases a with
  | create c calls => exact create_inUse h ht
  | startScheduler ret =>
    simp only [step] at ht
    split at ht
    · rcases hstart : s.osal.osalStartScheduler ret with ⟨res, o⟩
      cases res with
      | success =>
        simp only [hstart, Option.some.injEq] at ht
        subst ht
        refine ⟨(fun h => by cases h), fun i hrunning hnone => ?_⟩
        have hstates : o.taskStates = s.osal.taskStates := by
          have := congrArg (fun p => p.2.taskStates) hstart
          simp only [OsalState.osalStartScheduler] at this
          rw [← this]
          split <;> rfl
        simp only [hstates]
        exact h.used i hrunning hnone
      | failure => simp [hstart] at ht
      | ignore => simp [hstart] at ht
    · cases ht
  | alarm =>
    obtain rfl := Option.some.inj ht
    refine h.tables fun i => ?_
    unfold OsalState.signalSched
    split
    · exact ⟨rfl, rfl, id⟩
    · exact ⟨rfl, rfl, id⟩
  | sequencerPass =>
    simp only [step, Option.ite_none_right_eq_some, Option.some.injEq] at ht
    obtain ⟨-, rfl⟩ := ht
    exact h.tables (sequencerPass_keeps s.osal)
  | suspend id =>
    simp only [step, Option.ite_none_right_eq_some, Option.some.injEq] at ht
    obtain ⟨-, rfl⟩ := ht
    exact h.tables (osalTaskSuspend_keeps id s.osal)
  | wake id =>
    simp only [step, Option.ite_none_right_eq_some] at ht
    obtain ⟨o, ho, rfl⟩ := Option.map_eq_some_iff.mp ht.2
    exact h.tables (semWait_keeps ho)
  | shutdown =>
    simp only [step, Option.ite_none_right_eq_some, Option.some.injEq] at ht
    obtain ⟨⟨hmain, -⟩, rfl⟩ := ht
    refine h.keep rfl (fun _ hrunning => hrunning) (fun _ hnone => hnone)
      (fun hcreating => absurd hcreating hmain) fun i _ _ hused => ?_
    have hstates : s.osal.osalStopScheduler.taskStates = s.osal.taskStates := by
      unfold OsalState.osalStopScheduler
      split <;> rfl
    simp only [hstates]
    exact hused
  | waitAll => exact wait_inUse h ht
  | osalDeinit c => exact deinit_inUse hinv h ht
  | taskDelete i =>
    simp only [step, Option.ite_none_right_eq_some, Option.some.injEq] at ht
    obtain ⟨-, rfl⟩ := ht
    exact h.task (by split <;> decide)
  | taskClear i =>
    simp only [step, Option.ite_none_right_eq_some, Option.some.injEq] at ht
    obtain ⟨-, rfl⟩ := ht
    refine h.keep rfl (fun _ => running_of_setTask (by decide)) (fun _ hnone => hnone)
      (fun _ => rfl) fun j hrunning _ => ?_
    have hj : j ≠ i := by
      rintro rfl
      simp [setTask] at hrunning
    exact (clearEntry_keeps hj s.osal).used
  | taskExit i =>
    simp only [step, Option.ite_none_right_eq_some, Option.some.injEq] at ht
    obtain ⟨-, rfl⟩ := ht
    exact h.task (by decide)
  | cancellation i =>
    simp only [step, Option.ite_none_right_eq_some, Option.some.injEq] at ht
    obtain ⟨-, rfl⟩ := ht
    exact h.task (by decide)

theorem deinit_other {c c' : Caller} (hc : c' ≠ c) (ht : s.deinitStep c = some t) :
    t.deinit c' = s.deinit c' := by
  have hgoto (p : DeinitPc) : (s.goto c p).deinit c' = s.deinit c' := by
    rw [goto_deinit, if_neg hc]
  unfold deinitStep at ht
  cases hpc : s.deinit c with
  | before => simp [hpc] at ht
  | entry i =>
    simp only [hpc] at ht
    split at ht
    · obtain rfl := Option.some.inj ht
      exact hgoto _
    · obtain rfl := Option.some.inj ht
      exact hgoto _
  | returned => simp [hpc] at ht
  | _ =>
    simp only [hpc, Option.some.injEq] at ht
    subst ht
    exact hgoto _

/- Only a shutdown makes the scheduler thread call `osal_deinit`. -/
theorem step_before {b : TeardownAct} (h : s.deinit .scheduler = .before) (hb : b ≠ .shutdown)
    (ht : s.step b = some t) : t.deinit .scheduler = .before := by
  cases b with
  | create c calls =>
    simp only [step] at ht
    split at ht
    · split at ht
      · obtain rfl := Option.some.inj ht
        exact h
      · obtain rfl := Option.some.inj ht
        exact h
    · cases ht
  | startScheduler ret =>
    simp only [step] at ht
    split at ht
    · split at ht
      · obtain rfl := Option.some.inj ht
        exact h
      · cases ht
    · cases ht
  | alarm =>
    obtain rfl := Option.some.inj ht
    exact h
  | wake id =>
    simp only [step, Option.ite_none_right_eq_some] at ht
    obtain ⟨o, -, rfl⟩ := Option.map_eq_some_iff.mp ht.2
    exact h
  | shutdown => exact absurd rfl hb
  | waitAll =>
    have hjoin (p : MainPc) : ({ s.goto .main .test with mainPc := p } : Teardown).deinit
        .scheduler = .before := by
      show (s.goto .main .test).deinit .scheduler = .before
      rw [goto_deinit, if_neg (by decide)]
      exact h
    simp only [step, waitStep] at ht
    split at ht
    · cases ht
    · split at ht
      · obtain rfl := Option.some.inj ht
        exact h
      · obtain rfl := Option.some.inj ht
        exact hjoin _
    · split at ht
      · obtain rfl := Option.some.inj ht
        exact h
      · obtain rfl := Option.some.inj ht
        exact hjoin _
    · split at ht
      · cases ht
      · obtain rfl := Option.some.inj ht
        exact h
    · cases ht
  | osalDeinit c =>
    cases c with
    | main => exact (deinit_other (by decide) ht).trans h
    | scheduler => simp [step, deinitStep, h] at ht
  | _ =>
    simp only [step, Option.ite_none_right_eq_some, Option.some.injEq] at ht
    obtain ⟨-, rfl⟩ := ht
    exact h

theorem torn_scheduler (hinv : Inv s) (h : s.deinit .scheduler = .before) (i : ℕ) :
    s.torn .scheduler i = false := by
  by_contra htorn
  have hlt := (hinv.position .scheduler).torn_lt i (by simpa using htorn)
  rw [h] at hlt
  exact Nat.not_lt_zero i hlt

/- An entry is passed over while its task is in its loop only if the scheduler
thread has cleared it. -/
theorem PassesOver.torn (hinv : Inv s) (h : InUse s) {i : ℕ} (hi : i < MAX_TASKS)
    (hpass : s.PassesOver i) (hrunning : s.tasks i = .running) : s.torn .scheduler i = true := by
  have hmain : s.mainPc ≠ .joined := by
    intro hjoined
    rw [PassesOver, hjoined] at hpass
    exact hpass
  have hbefore := hinv.calls hmain
  have hnone : s.torn .main i = false := by
    by_contra htorn
    have hlt := (hinv.position .main).torn_lt i (by simpa using htorn)
    rw [hbefore] at hlt
    exact Nat.not_lt_zero i hlt
  by_contra hfalse
  have hused := h.used i hrunning fun c => by
    cases c with
    | main => exact hnone
    | scheduler => simpa using hfalse
  unfold PassesOver at hpass
  split at hpass
  · obtain ⟨c, hreturned, htorn⟩ := hinv.uninitialized hpass
    cases c with
    | main => exact absurd (hbefore.symm.trans hreturned) nofun
    | scheduler => exact hfalse (htorn i hi)
  · exact hused (hpass.1 ▸ hpass.2)
  · exact hpass

end Teardown

end MotionDetector.Osal

namespace MotionDetector.Shutdown.Program

open Transition Osal

/-- Where the main thread comes past an entry that the scheduler thread has cleared,
the task is not in its loop any more. -/
def WaitsFor (s : Program) (a : ProgramAct) : Prop :=
  a = .waitAll → ∀ i < MAX_TASKS, s.teardown.PassesOver i →
    s.teardown.torn .scheduler i = true → s.teardown.tasks i ≠ .running

variable {inp : Inputs} {s u : Program}

theorem step_waits_iff {a : ProgramAct} (hinv : s.teardown.Inv) (huse : s.teardown.InUse)
    (h : s.teardown.WaitedFor) (hu : s.step inp a = some u) :
    u.teardown.WaitedFor ↔ WaitsFor s a := by
  by_cases ha : a = .waitAll
  · subst ha
    obtain ⟨d, hd, rfl⟩ := osalStep_some hu
    refine (Teardown.wait_waitedFor_iff h hd).trans ⟨fun hall _ i hi hpass _ => hall i hi hpass,
      fun hall i hi hpass hrunning => ?_⟩
    exact hall rfl i hi hpass (hpass.torn hinv huse hi hrunning) hrunning
  · refine iff_of_true ?_ fun heq => absurd heq ha
    rcases step_osal hu with hsame | ⟨b, -, hb, hd⟩
    · rw [hsame]
      exact h
    · exact Teardown.step_waitedFor h (fun heq => ha (hb.waitAll heq)) hd

theorem step_inUse {a : ProgramAct} (hinv : s.teardown.Inv) (h : s.teardown.InUse)
    (hu : s.step inp a = some u) : u.teardown.InUse := by
  rcases step_teardown hu with hsame | ⟨b, -, hd⟩
  · rw [hsame]
    exact h
  · exact Teardown.step_inUse hinv h hd

theorem step_before {a : ProgramAct} (h : s.teardown.deinit .scheduler = .before)
    (ha : a ≠ .shutdown) (hu : s.step inp a = some u) :
    u.teardown.deinit .scheduler = .before := by
  rcases step_osal hu with hsame | ⟨b, -, hb, hd⟩
  · rw [hsame]
    exact h
  · exact Teardown.step_before h (fun heq => ha (hb.shutdown heq)) hd

/-- In every run the main thread comes past the entries of tasks that are not in
their loops, so that `framebuffer_deinit` unmaps no buffer in use, exactly if it never
passes over an entry that the teardown of the scheduler thread has cleared before the
task has left its loop. Without a shutdown it does not. -/
theorem waited_for_iff (inp : Inputs) (rtMaxPrio rtMinPrio : ℤ) (acts : List ProgramAct)
    (hr : (run (step inp) (init rtMaxPrio rtMinPrio) acts).isSome) :
    (Throughout (step inp) (fun s => s.teardown.WaitedFor) (init rtMaxPrio rtMinPrio) acts ↔
      Along (step inp) WaitsFor (init rtMaxPrio rtMinPrio) acts) ∧
    ((∀ a ∈ acts, a ≠ .shutdown) →
      Throughout (step inp) (fun s => s.teardown.WaitedFor) (init rtMaxPrio rtMinPrio) acts) := by
  have hinit : (init rtMaxPrio rtMinPrio).teardown.Inv := Teardown.init_inv rtMaxPrio rtMinPrio
  have huse : (init rtMaxPrio rtMinPrio).teardown.InUse :=
    Teardown.init_inUse rtMaxPrio rtMinPrio
  have hiff : Throughout (step inp) (fun s => s.teardown.WaitedFor) (init rtMaxPrio rtMinPrio)
      acts ↔ Along (step inp) WaitsFor (init rtMaxPrio rtMinPrio) acts :=
    throughout_iff_along (fun s => s.teardown.Inv ∧ s.teardown.InUse)
      (fun _ _ _ h _ _ hu => ⟨step_teardown_inv h.1 hu, step_inUse h.1 h.2 hu⟩)
      (fun _ _ _ h hw hu => step_waits_iff h.1 h.2 hw hu) ⟨hinit, huse⟩
      (fun i hi => absurd hi (Nat.not_lt_zero i)) hr
  refine ⟨hiff, fun hnone => hiff.mpr (along_of_before fun p a t hp ht _ i _ _ htorn => ?_)⟩
  -- without a shutdown the scheduler thread has cleared no entry
  have hsub : ∀ b ∈ p, b ≠ .shutdown := fun b hb =>
    hnone b (hp.subset (List.mem_append_left [a] hb))
  have hkept : t.teardown.Inv ∧ t.teardown.deinit .scheduler = .before :=
    run_inv_along (fun s => s.teardown.Inv ∧ s.teardown.deinit .scheduler = .before)
      (fun _ _ _ h ha hu => ⟨step_teardown_inv h.1 hu, step_before h.2 ha hu⟩)
      ⟨hinit, rfl⟩ (along_of_forall hsub _) ht
  rw [Teardown.torn_scheduler hkept.1 hkept.2 i] at htorn
  cases htorn

/-- The signal comes while the camera task is about to capture a frame, and the main
thread begins to wait when the entries have been cleared. -/
def lateWait : List ProgramAct :=
  startup ++ List.replicate 5 (.task 1) ++ .shutdown :: List.replicate 5 .exitFunction ++
    List.replicate 13 (.osalDeinit .scheduler) ++ List.replicate 7 .waitAll

/-- The camera task goes on with `framebuffer_writeframe` when the main thread is at
`framebuffer_deinit`. -/
theorem waited_for_iff_lateWait :
    ¬ Along (step idleInputs) WaitsFor (init 97 1) lateWait ∧
      ∃ s c, run (step idleInputs) (init 97 1) lateWait = some s ∧
        s.teardown.mainPc = .joined ∧ s.teardown.tasks 1 = .running ∧
        s.threads 1 = .camera c ∧ c.pc = .writeIdle := by
  have hfinal : (run (step idleInputs) (init 97 1) lateWait).map (fun s =>
      (s.teardown.mainPc, s.teardown.tasks 1, match s.threads 1 with
        | .camera c => some c.pc
        | _ => none)) = some (.joined, .running, some .writeIdle) := by
    decide +kernel
  obtain ⟨s, hs, hvalues⟩ := Option.map_eq_some_iff.mp hfinal
  simp only [Prod.mk.injEq] at hvalues
  obtain ⟨hmain, hrunning, hcamera⟩ := hvalues
  have hiff := (waited_for_iff idleInputs 97 1 lateWait (by rw [hs]; rfl)).1
  refine ⟨fun h => ?_, ?_⟩
  · have hwaited : s.teardown.WaitedFor := (hiff.mpr h).last hs
    exact hwaited 1 (by rw [hmain]; decide) (by decide) hrunning
  · split at hcamera
    · next c hc => exact ⟨s, c, hs, hmain, hrunning, hc, Option.some.inj hcamera⟩
    · cases hcamera

end MotionDetector.Shutdown.Program
