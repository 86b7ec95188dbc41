import MotionDetector.Shutdown.Moves

/-!
# What is asleep stays asleep

The sequencer is the only one that posts, and it runs on the thread that calls the
exit functions. From then on no schedule wakes a task that has no post left, and
only another signal does.
-/

namespace MotionDetector.Shutdown.Program

open Transition Osal

variable {inp : Inputs} {s u : Program} {i : ℕ}

/-- Neither a wait of task `i` nor its `osal_task_delete`. -/
def Foreign (i : ℕ) : TeardownAct → Prop
  | .wake id => i ≠ id.toNat
  | .taskDelete j => i ≠ j
  | _ => True

/- Once the scheduler has left its loop only a wait changes a count, and a task
leaves its loop by itself or for a cancellation. -/
theorem late_step {s d : Teardown} {a : TeardownAct} (h : s.Inv)
    (hout : s.deinit .scheduler ≠ .before) (hd : s.step a = some d) (i : ℕ)
    (hforeign : Foreign i a) :
    d.deinit .scheduler ≠ .before ∧ signalSems d.osal i = signalSems s.osal i ∧
      (s.tasks i = .running ∨ s.tasks i = .cancelled →
        d.tasks i = .running ∨ d.tasks i = .cancelled) := by
  have hmain := h.not_creating hout
  have hset {j : ℕ} {p : TaskPc} (hj : i ≠ j) (ht : s.tasks i = .running ∨ s.tasks i = .cancelled) :
      (s.setTask j p).tasks i = .running ∨ (s.setTask j p).tasks i = .cancelled := by
    simp only [Teardown.setTask, Function.update_of_ne hj]
    exact ht
  cases a with
  | create c calls => simp [Teardown.step, if_neg hmain] at hd
  | startScheduler ret => simp [Teardown.step, if_neg hmain] at hd
  | sequencerPass => simp [Teardown.step, if_neg hout] at hd
  | shutdown => simp [Teardown.step, hout] at hd
  | alarm =>
    obtain rfl := Option.some.inj hd
    have hsame : s.osal.signalSched.sequencers = s.osal.sequencers := by
      unfold OsalState.signalSched
      split <;> rfl
    exact ⟨hout, by simp only [signalSems, OsalState.incTick, hsame], id⟩
  | suspend id =>
    simp only [Teardown.step, Option.ite_none_right_eq_some, Option.some.injEq] at hd
    obtain ⟨-, rfl⟩ := hd
    exact ⟨hout, osalTaskSuspend_sems id s.osal i, fun ht => ht⟩
  | wake id =>
    simp only [Teardown.step, Option.ite_none_right_eq_some] at hd
    obtain ⟨o, ho, rfl⟩ := Option.map_eq_some_iff.mp hd.2
    exact ⟨hout, (semWait_sems ho).2 i hforeign, fun ht => ht⟩
  | waitAll =>
    obtain ⟨hosal, htasks, -, hdeinit, -⟩ := waitStep_frame hd
    refine ⟨?_, by rw [hosal], by rw [htasks]; exact id⟩
    rw [hdeinit]
    exact hout
  | osalDeinit c =>
    have hframe := deinitStep_frame hd
    obtain ⟨p, hp, hpc⟩ := hframe.pc
    refine ⟨?_, hframe.sems i, by rw [hframe.tasks]; exact id⟩
    rw [hpc, Teardown.goto_deinit]
    split
    · exact hp
    · exact hout
  | taskDelete j =>
    simp only [Teardown.step, Option.ite_none_right_eq_some, Option.some.injEq] at hd
    obtain ⟨-, rfl⟩ := hd
    exact ⟨hout, rfl, hset hforeign⟩
  | taskClear j =>
    simp only [Teardown.step, Option.ite_none_right_eq_some, Option.some.injEq] at hd
    obtain ⟨hj, rfl⟩ := hd
    refine ⟨hout, (clearEntry_leaves j s.osal i).2, fun ht => hset ?_ ht⟩
    rintro rfl
    rw [hj] at ht
    rcases ht with ht | ht <;> cases ht
  | taskExit j =>
    simp only [Teardown.step, Option.ite_none_right_eq_some, Option.some.injEq] at hd
    obtain ⟨hj, rfl⟩ := hd
    refine ⟨hout, rfl, fun ht => hset ?_ ht⟩
    rintro rfl
    rw [hj] at ht
    rcases ht with ht | ht <;> cases ht
  | cancellation j =>
    simp only [Teardown.step, Option.ite_none_right_eq_some, Option.some.injEq] at hd
    obtain ⟨-, rfl⟩ := hd
    refine ⟨hout, rfl, fun ht => ?_⟩
    by_cases hj : i = j
    · subst hj
      exact .inr (Function.update_self ..)
    · exact hset hj ht

/-- The task sleeps without a post, and the scheduler has left its loop. -/
structure Stuck (s : Program) (i : ℕ) : Prop where
  teardown : s.teardown.Inv
  out : s.teardown.deinit .scheduler ≠ .before
  task : s.teardown.tasks i = .running ∨ s.teardown.tasks i = .cancelled
  asleep : s.asleep i = true
  delay : (s.threads i).AtDelay
  empty : s.signalSem i = 0

theorem task_lt {s : Teardown} (h : s.Inv) {j : ℕ} (hj : s.tasks j ≠ .absent) : j < 256 := by
  by_contra hge
  have hroom := h.room
  simp only [MAX_TASKS] at hroom
  exact hj (h.fresh j (by omega))

theorem Stuck.stops (h : Stuck s i) : s.taskStep inp i = none := by
  unfold taskStep
  rcases h.task with htask | htask
  · have hlt := task_lt h.teardown (j := i) (by rw [htask]; exact nofun)
    have hempty : ¬ 0 < (s.teardown.osal.sequencers i).signalSem := by
      rw [show (s.teardown.osal.sequencers i).signalSem = 0 from h.empty]
      exact Nat.lt_irrefl 0
    simp only [htask, if_neg h.delay.not_ended, if_pos h.delay, delayStep, if_pos h.asleep,
      Teardown.step, toUInt8_toNat hlt, if_true, OsalState.semWait, if_neg hempty]
    rfl
  · simp only [htask]

/- A step of the OSAL, and what the thread of another entry does with it. -/
theorem Stuck.late {a : TeardownAct} (h : Stuck s i)
    (hd : s.teardown.step a = some u.teardown) (hinv : u.teardown.Inv)
    (hforeign : Foreign i a)
    (hasleep : u.asleep i = s.asleep i) (hthread : u.threads i = s.threads i) : Stuck u i := by
  obtain ⟨hout, hsem, htask⟩ := late_step h.teardown h.out hd i hforeign
  exact ⟨hinv, hout, htask h.task, hasleep.trans h.asleep, hthread ▸ h.delay, hsem.trans h.empty⟩

theorem Stuck.other {j : ℕ} (h : Stuck s i) (hj : i ≠ j) (hu : s.taskStep inp j = some u) :
    Stuck u i := by
  have hinv := step_teardown_inv (a := .task j) h.teardown hu
  have hosal {a : TeardownAct} (hforeign : Foreign i a) (hv : s.osalStep a = some u) :
      Stuck u i := by
    obtain ⟨d, hd, rfl⟩ := osalStep_some hv
    exact h.late hd hinv hforeign rfl rfl
  have hthread (t : Thread) : Function.update s.threads j t i = s.threads i :=
    Function.update_of_ne hj ..
  have hstatement (t : Thread) : Stuck (s.setThread j t) i :=
    ⟨h.teardown, h.out, h.task, h.asleep, (congrArg Thread.AtDelay (hthread t)).mpr h.delay,
      h.empty⟩
  unfold taskStep at hu
  cases hpc : s.teardown.tasks j with
  | running =>
    have hnat := toUInt8_toNat (task_lt h.teardown (j := j) (by rw [hpc]; exact nofun))
    simp only [hpc] at hu
    split at hu
    · exact hosal (a := .taskDelete j) hj hu
    · split at hu
      · unfold delayStep at hu
        split at hu
        · obtain ⟨d, hd, rfl⟩ := Option.map_eq_some_iff.mp hu
          refine h.late hd hinv ?_ (Function.update_of_ne hj ..) (hthread _)
          rw [Foreign, hnat]
          exact hj
        · split at hu
          · obtain ⟨d, hd, rfl⟩ := Option.map_eq_some_iff.mp hu
            exact h.late hd hinv (by trivial) (Function.update_of_ne hj ..) rfl
          · obtain rfl := Option.some.inj hu
            exact hstatement _
      · obtain rfl := Option.some.inj hu
        exact hstatement _
  | deleting =>
    simp only [hpc] at hu
    exact hosal (by trivial) hu
  | exiting =>
    simp only [hpc] at hu
    exact hosal (by trivial) hu
  | absent => simp [hpc] at hu
  | exited => simp [hpc] at hu
  | returned => simp [hpc] at hu
  | cancelled => simp [hpc] at hu

theorem Stuck.step {a : ProgramAct} (h : Stuck s i) (ha : a ≠ .interrupted i)
    (hu : s.step inp a = some u) : Stuck u i := by
  have hinv := step_teardown_inv h.teardown hu
  have hosal {b : TeardownAct} (hforeign : Foreign i b) (hv : s.osalStep b = some u) :
      Stuck u i := by
    obtain ⟨d, hd, rfl⟩ := osalStep_some hv
    exact h.late hd hinv hforeign rfl rfl
  cases a with
  | create calls =>
    simp only [Program.step] at hu
    split at hu
    · exact hosal (by trivial) hu
    · cases hu
  | startScheduler ret =>
    simp only [Program.step, Option.ite_none_right_eq_some] at hu
    exact hosal (by trivial) hu.2
  | alarm => exact hosal (by trivial) hu
  | sequencerPass => exact hosal (by trivial) hu
  | task j =>
    by_cases hj : i = j
    · subst hj
      rw [show s.step inp (.task i) = none from h.stops] at hu
      cases hu
    · exact h.other hj hu
  | interrupted j =>
    have hj : i ≠ j := fun hj => ha (hj ▸ rfl)
    simp only [Program.step, interruptStep, Option.ite_none_right_eq_some,
      Option.some.injEq] at hu
    obtain ⟨-, rfl⟩ := hu
    have hthread : Function.update s.threads j ((s.threads j).taskStep inp) i = s.threads i :=
      Function.update_of_ne hj ..
    refine ⟨h.teardown, h.out, h.task, ?_, ?_, h.empty⟩
    · exact (Function.update_of_ne hj ..).trans h.asleep
    · exact (congrArg Thread.AtDelay hthread).mpr h.delay
  | shutdown => exact hosal (by trivial) hu
  | exitFunction =>
    simp only [Program.step, exitStep, Option.ite_none_right_eq_some] at hu
    obtain ⟨-, hu⟩ := hu
    split at hu
    · obtain rfl := Option.some.inj hu
      refine ⟨h.teardown, h.out, h.task, h.asleep, ?_, h.empty⟩
      show (Function.update s.threads s.exits (s.threads s.exits).exitFunction i).AtDelay
      by_cases hi : i = s.exits
      · rw [← hi, Function.update_self, Thread.exitFunction_atDelay]
        exact h.delay
      · rw [Function.update_of_ne hi]
        exact h.delay
    · obtain rfl := Option.some.inj hu
      exact ⟨h.teardown, h.out, h.task, h.asleep, h.delay, h.empty⟩
  | waitAll => exact hosal (by trivial) hu
  | osalDeinit c =>
    simp only [Program.step, Option.ite_none_right_eq_some] at hu
    exact hosal (by trivial) hu.2
  | cancellation j => exact hosal (by trivial) hu

/-- A task that is asleep without a post when the scheduler has left its loop is
not woken but by a signal: without one it does not take a step any more, whatever
the schedule. -/
theorem stuck_forever {acts : List ProgramAct} (h : Stuck s i) (hacts : .interrupted i ∉ acts)
    (hu : run (Program.step inp) s acts = some u) : Stuck u i ∧ u.taskStep inp i = none := by
  have hquiet : ∀ a ∈ acts, a ≠ .interrupted i := fun a ha heq => hacts (heq ▸ ha)
  have hstuck := run_inv_along (fun s => Stuck s i) (fun _ _ _ h ha hu => h.step ha hu) h
    (along_of_forall hquiet s) hu
  exact ⟨hstuck, hstuck.stops⟩

end MotionDetector.Shutdown.Program
