import MotionDetector.Shutdown.Entries

/-!
# The steps that keep every entry

The alarm, the sequencer, the main thread and `osal_deinit` change nothing of an
entry that its task goes by.
-/

namespace MotionDetector.Shutdown.Program

open Transition Wakeups Osal

variable {inp : Inputs} {s u : Program} {i : ℕ}

theorem keeps_teardown {d : Teardown} {j : ℕ} (htask : d.tasks j = s.teardown.tasks j)
    (hfunc : (d.osal.tcb j).taskExitFunc = s.exitFunc j)
    (hsem : s.notified j ≠ none → signalSems d.osal j = s.signalSem j)
    (hused : Waiting s j → d.osal.taskStates j ≠ .unused)
    (hmain : Waiting s j → Behind d.mainPc j)
    (hout : s.teardown.deinit .scheduler ≠ .before → d.deinit .scheduler ≠ .before) :
    Keeps s { s with teardown := d } j where
  task := htask
  thread := rfl
  asleep := rfl
  slept := rfl
  notified := rfl
  interrupts := rfl
  exitFunc := hfunc
  sem := hsem
  used := hused
  place hw := hw.place
  main := hmain
  out := hout

theorem keeps_tables {d : Teardown} {j : ℕ} (htasks : d.tasks = s.teardown.tasks)
    (hsequencers : d.osal.sequencers = s.teardown.osal.sequencers)
    (htcb : d.osal.tcb = s.teardown.osal.tcb)
    (hmain : Waiting s j → Behind d.mainPc j)
    (hout : s.teardown.deinit .scheduler ≠ .before → d.deinit .scheduler ≠ .before) :
    Keeps s { s with teardown := d } j := by
  refine keeps_teardown (congrFun htasks j) ?_ (fun _ => ?_) (fun hw => ?_) hmain hout
  · rw [htcb, exitFunc]
  · rw [signalSems, hsequencers, signalSem]
  · rw [OsalState.taskStates, hsequencers]
    exact hw.used

theorem Outer.table (h : Outer s) {d : Teardown} (hd : d.Inv)
    (hidx : d.osal.taskIdx = s.teardown.osal.taskIdx)
    (hcreating : d.mainPc = .creating → d.osal.schedulerStarted = false)
    (hbefore : d.deinit .scheduler = .before → s.teardown.deinit .scheduler = .before)
    (hdone : d.deinit .scheduler ≠ .before → d.deinit .scheduler ≠ .test → s.exits = MAX_TASKS) :
    Outer { s with teardown := d } where
  teardown := hd
  few := hidx ▸ h.few
  creating := hcreating
  before hb := h.before (hbefore hb)
  done := hdone
  called := h.called

/- Where the scheduler is in its call of `osal_deinit` the exit functions have
all been called. -/
theorem Outer.same (h : Outer s) {d : Teardown} (hd : d.Inv)
    (hidx : d.osal.taskIdx = s.teardown.osal.taskIdx)
    (hcreating : d.mainPc = .creating → d.osal.schedulerStarted = false)
    (hdeinit : d.deinit .scheduler = s.teardown.deinit .scheduler) :
    Outer { s with teardown := d } := by
  apply h.table hd hidx hcreating
  · rw [hdeinit]
    exact id
  · rw [hdeinit]
    exact h.done

/-- All entries are kept and nobody is cancelled. -/
structure Quiet (s u : Program) : Prop where
  outer : Outer u
  keeps : ∀ j, Keeps s u j
  cancelled : u.teardown.cancelled = s.teardown.cancelled

theorem Keeps.ended {j : ℕ} (hk : Keeps s u j) (hg : Graceful s)
    (hc : u.teardown.cancelled j = s.teardown.cancelled j) (hj : u.teardown.tasks j ≠ .absent)
    (hfunc : u.exitFunc j ≠ none) (hpos : 0 < u.teardown.cancelled j) :
    u.teardown.tasks j = .exited ∧ (u.threads j).Left := by
  rw [hk.task] at hj ⊢
  rw [hk.exitFunc] at hfunc
  rw [hc] at hpos
  rw [hk.thread]
  exact hg j hj hfunc hpos

theorem startScheduler_quiet (h : Inv inp s) {ret : ℤ}
    (hu : s.step inp (.startScheduler ret) = some u) : Quiet s u := by
  simp only [step, Option.ite_none_right_eq_some] at hu
  obtain ⟨d, hd, rfl⟩ := osalStep_some hu.2
  have hinv := Teardown.step_inv h.outer.teardown (by trivial) hd
  simp only [Teardown.step, OsalState.osalStartScheduler] at hd
  split at hd
  · next hmain =>
    have hwait : MainPc.waitAll ≠ .creating := by decide
    have hinit := (h.outer.teardown.creating hmain).1
    rw [if_pos hinit] at hd
    cases hret : isError ret with
    | success =>
      rw [hret] at hd
      obtain rfl := Option.some.inj hd
      refine ⟨h.outer.same hinv rfl (fun h => absurd h hwait) rfl, fun j => ?_, rfl⟩
      exact keeps_tables rfl rfl rfl (fun _ => trivial) id
    | failure => simp [hret] at hd
    | ignore => simp [hret] at hd
  · cases hd

theorem alarm_quiet (h : Inv inp s) (hu : s.step inp .alarm = some u) : Quiet s u := by
  obtain ⟨d, hd, rfl⟩ := osalStep_some hu
  have hinv := Teardown.step_inv h.outer.teardown (by trivial) hd
  obtain rfl := Option.some.inj hd
  have hsame : s.teardown.osal.signalSched.sequencers = s.teardown.osal.sequencers ∧
      s.teardown.osal.signalSched.tcb = s.teardown.osal.tcb ∧
      s.teardown.osal.signalSched.taskIdx = s.teardown.osal.taskIdx ∧
      s.teardown.osal.signalSched.schedulerStarted = s.teardown.osal.schedulerStarted := by
    unfold OsalState.signalSched
    split <;> exact ⟨rfl, rfl, rfl, rfl⟩
  refine ⟨h.outer.same hinv hsame.2.2.1 ?_ rfl, fun j => ?_, rfl⟩
  · exact fun hmain => hsame.2.2.2.trans (h.outer.creating hmain)
  · exact keeps_tables rfl hsame.1 hsame.2.1 Waiting.main id

/- The sequencer runs before any exit function is called. -/
theorem sequencerPass_quiet (h : Inv inp s) (hu : s.step inp .sequencerPass = some u) :
    Quiet s u := by
  obtain ⟨d, hd, rfl⟩ := osalStep_some hu
  have hinv := Teardown.step_inv h.outer.teardown (by trivial) hd
  simp only [Teardown.step, Option.ite_none_right_eq_some, Option.some.injEq] at hd
  obtain ⟨hbefore, rfl⟩ := hd
  have hidx : s.teardown.osal.osalTaskGenericSequencer.taskIdx = s.teardown.osal.taskIdx :=
    (OsalState.sequencerVisits_sameTable (List.range MAX_TASKS) s.teardown.osal).2
  have hkeeps (j : ℕ) := sequencerPass_keeps s.teardown.osal j
  have hnone := (h.outer.before hbefore).2
  generalize s.teardown.osal.osalTaskGenericSequencer = o at hinv hidx hkeeps ⊢
  refine ⟨h.outer.same hinv hidx ?_ rfl, fun j => ?_, rfl⟩
  · exact fun hmain => (hkeeps 0).started.trans (h.outer.creating hmain)
  · exact keeps_teardown rfl (hkeeps j).exitFunc (fun hne => absurd (hnone j) hne)
      (fun hw => (hkeeps j).used hw.used) Waiting.main id

theorem shutdown_quiet (h : Inv inp s) (hu : s.step inp .shutdown = some u) : Quiet s u := by
  obtain ⟨d, hd, rfl⟩ := osalStep_some hu
  have hinv := Teardown.step_inv h.outer.teardown (by trivial) hd
  simp only [Teardown.step, Option.ite_none_right_eq_some, Option.some.injEq] at hd
  obtain ⟨⟨hmain, hbefore⟩, rfl⟩ := hd
  have hsame : s.teardown.osal.osalStopScheduler.sequencers = s.teardown.osal.sequencers ∧
      s.teardown.osal.osalStopScheduler.tcb = s.teardown.osal.tcb ∧
      s.teardown.osal.osalStopScheduler.taskIdx = s.teardown.osal.taskIdx := by
    unfold OsalState.osalStopScheduler
    split <;> exact ⟨rfl, rfl, rfl⟩
  have htest : (s.teardown.goto .scheduler .test).deinit .scheduler = .test := by
    rw [Teardown.goto_deinit, if_pos rfl]
  refine ⟨h.outer.table hinv hsame.2.2 (fun hcreating => absurd hcreating hmain) ?_ ?_,
    fun j => ?_, rfl⟩
  · intro hb
    rw [show _ = DeinitPc.test from htest] at hb
    cases hb
  · exact fun _ hne => absurd htest hne
  · refine keeps_tables rfl hsame.1 hsame.2.1 (fun hw => hw.main) fun _ hb => ?_
    rw [show _ = DeinitPc.test from htest] at hb
    cases hb

/- The main thread joins a task whose exit function has not been called, and does
not get past it. -/
theorem waitStep_behind {d : Teardown} {j : ℕ} (h : Inv inp s) (hg : Graceful s)
    (hw : Waiting s j) (hd : s.teardown.waitStep = some d) : Behind d.mainPc j := by
  have hrunning := hw.running
  obtain ⟨hj, -, hinit⟩ := h.running hg hrunning
  have hlt : j < MAX_TASKS := (h.lt hj).trans (by decide)
  have hbehind := hw.main
  unfold Teardown.waitStep at hd
  cases hpc : s.teardown.mainPc with
  | creating => simp [hpc] at hd
  | waitAll =>
    simp only [hpc, if_pos hinit, Option.some.injEq] at hd
    subst hd
    exact Nat.zero_le j
  | waiting k =>
    rw [hpc] at hbehind
    have hk : k ≤ j := hbehind
    simp only [hpc, if_pos (Nat.lt_of_le_of_lt hk hlt), Option.some.injEq] at hd
    subst hd
    show Behind (if s.teardown.osal.taskStates k ≠ .unused then .joining k else .waiting (k + 1)) j
    split
    · exact hk
    · next hunused =>
      have hne : k ≠ j := by
        rintro rfl
        exact hunused hw.used
      exact Nat.lt_of_le_of_ne hk hne
  | joining k =>
    rw [hpc] at hbehind
    have hk : k ≤ j := hbehind
    simp only [hpc] at hd
    split at hd
    · cases hd
    · next hdead =>
      obtain rfl := Option.some.inj hd
      have hne : k ≠ j := by
        rintro rfl
        exact hdead (.inl hrunning)
      exact Nat.lt_of_le_of_ne hk hne
  | joined =>
    rw [hpc] at hbehind
    exact hbehind.elim

theorem waitStep_frame {s d : Teardown} (hd : s.waitStep = some d) :
    d.osal = s.osal ∧ d.tasks = s.tasks ∧ d.cancelled = s.cancelled ∧
      d.deinit .scheduler = s.deinit .scheduler ∧ d.mainPc ≠ .creating := by
  have hdeinit : (s.goto .main .test).deinit .scheduler = s.deinit .scheduler := by
    rw [Teardown.goto_deinit, if_neg nofun]
  unfold Teardown.waitStep at hd
  cases hpc : s.mainPc with
  | creating => simp [hpc] at hd
  | waitAll =>
    simp only [hpc] at hd
    split at hd
    · obtain rfl := Option.some.inj hd
      exact ⟨rfl, rfl, rfl, rfl, nofun⟩
    · obtain rfl := Option.some.inj hd
      exact ⟨rfl, rfl, rfl, hdeinit, nofun⟩
  | waiting k =>
    simp only [hpc] at hd
    split at hd
    · obtain rfl := Option.some.inj hd
      refine ⟨rfl, rfl, rfl, rfl, ?_⟩
      simp only
      split <;> nofun
    · obtain rfl := Option.some.inj hd
      exact ⟨rfl, rfl, rfl, hdeinit, nofun⟩
  | joining k =>
    simp only [hpc] at hd
    split at hd
    · cases hd
    · obtain rfl := Option.some.inj hd
      exact ⟨rfl, rfl, rfl, rfl, nofun⟩
  | joined => simp [hpc] at hd

theorem waitAll_quiet (h : Inv inp s) (hg : Graceful s) (hu : s.step inp .waitAll = some u) :
    Quiet s u := by
  obtain ⟨d, hd, rfl⟩ := osalStep_some hu
  have hinv := Teardown.step_inv h.outer.teardown (by trivial) hd
  have hwait : s.teardown.waitStep = some d := hd
  obtain ⟨hosal, htasks, hcancelled, hdeinit, hmain⟩ := waitStep_frame hwait
  refine ⟨h.outer.same hinv (by rw [hosal]) (fun hcreating => absurd hcreating hmain) hdeinit,
    fun j => ?_, hcancelled⟩
  apply keeps_tables htasks
  · rw [hosal]
  · rw [hosal]
  · exact fun hw => waitStep_behind h hg hw hwait
  · rw [hdeinit]
    exact id

/- A thread gets to `osal_deinit` when all exit functions have been called. -/
theorem Inv.not_waiting (h : Inv inp s) {c : Caller} {j : ℕ} (hc : s.teardown.deinit c ≠ .before)
    (hexits : c = .scheduler → s.exits = MAX_TASKS) : ¬ Waiting s j := by
  intro hw
  cases c with
  | main =>
    have hbehind := hw.main
    rw [h.outer.teardown.joined hc rfl] at hbehind
    exact hbehind
  | scheduler =>
    have hlt := h.lt (i := j) (by rw [hw.running]; exact nofun)
    have hplace := hw.place
    rw [hexits rfl] at hplace
    exact absurd hplace (Nat.not_le_of_lt (hlt.trans (by decide)))

theorem Outer.deinit (h : Outer s) {c : Caller} {d : Teardown} {p : DeinitPc} (hd : d.Inv)
    (hexits : c = .scheduler → s.exits = MAX_TASKS)
    (hidx : d.osal.taskIdx = s.teardown.osal.taskIdx)
    (hstarted : d.osal.schedulerStarted = s.teardown.osal.schedulerStarted)
    (hmain : d.mainPc = s.teardown.mainPc)
    (hdeinit : d.deinit = (s.teardown.goto c p).deinit) (hp : p ≠ .before) :
    Outer { s with teardown := d } := by
  have hpc : d.deinit .scheduler =
      if c = .scheduler then p else s.teardown.deinit .scheduler := by
    rw [hdeinit, Teardown.goto_deinit]
    exact if_congr eq_comm rfl rfl
  apply h.table hd hidx
  · intro hcreating
    rw [hstarted]
    exact h.creating (hmain.symm.trans hcreating)
  · intro hb
    rw [hpc] at hb
    split at hb
    · exact absurd hb hp
    · exact hb
  · rw [hpc]
    split
    · next hc => exact fun _ _ => hexits hc
    · exact h.done

theorem goto_out {c : Caller} {p : DeinitPc} (hp : p ≠ .before)
    (h : s.teardown.deinit .scheduler ≠ .before) :
    (s.teardown.goto c p).deinit .scheduler ≠ .before := by
  rw [Teardown.goto_deinit]
  split
  · exact hp
  · exact h

/-- What all statements of `osal_deinit` leave alone. -/
structure DeinitFrame (c : Caller) (s d : Teardown) : Prop where
  tasks : d.tasks = s.tasks
  main : d.mainPc = s.mainPc
  idx : d.osal.taskIdx = s.osal.taskIdx
  started : d.osal.schedulerStarted = s.osal.schedulerStarted
  exitFunc : ∀ i, (d.osal.tcb i).taskExitFunc = (s.osal.tcb i).taskExitFunc
  sems : ∀ i, signalSems d.osal i = signalSems s.osal i
  began : s.deinit c ≠ .before
  pc : ∃ p, p ≠ DeinitPc.before ∧ d.deinit = (s.goto c p).deinit
  cancelled : (∀ i, s.deinit c ≠ .cancel i) → d.cancelled = s.cancelled

theorem deinitStep_frame {c : Caller} {s d : Teardown} (hd : s.deinitStep c = some d) :
    DeinitFrame c s d := by
  have hgoto {p : DeinitPc} (hc : s.deinit c ≠ .before) (hp : p ≠ .before) :
      DeinitFrame c s (s.goto c p) :=
    ⟨rfl, rfl, rfl, rfl, fun _ => rfl, fun _ => rfl, hc, ⟨p, hp, rfl⟩, fun _ => rfl⟩
  unfold Teardown.deinitStep at hd
  cases hpc : s.deinit c with
  | before => simp [hpc] at hd
  | test =>
    simp only [hpc, Option.some.injEq] at hd
    subst hd
    exact hgoto (by rw [hpc]; exact nofun) (by split <;> nofun)
  | entry i =>
    simp only [hpc] at hd
    split at hd
    · obtain rfl := Option.some.inj hd
      exact hgoto (by rw [hpc]; exact nofun) (by split <;> nofun)
    · obtain rfl := Option.some.inj hd
      exact hgoto (by rw [hpc]; exact nofun) nofun
  | clear i =>
    simp only [hpc, Option.some.injEq] at hd
    subst hd
    have hleaves := clearEntry_leaves i s.osal
    exact ⟨rfl, rfl, rfl, rfl, fun j => (hleaves j).1, fun j => (hleaves j).2,
      by rw [hpc]; exact nofun, ⟨.cancel i, nofun, rfl⟩, fun _ => rfl⟩
  | cancel i =>
    simp only [hpc, Option.some.injEq] at hd
    subst hd
    exact ⟨rfl, rfl, rfl, rfl, fun _ => rfl, fun _ => rfl, by rw [hpc]; exact nofun,
      ⟨.entry (i + 1), nofun, rfl⟩, fun hno => absurd hpc (hno i)⟩
  | kill =>
    simp only [hpc, Option.some.injEq] at hd
    subst hd
    exact hgoto (by rw [hpc]; exact nofun) nofun
  | unset =>
    simp only [hpc, Option.some.injEq] at hd
    subst hd
    exact ⟨rfl, rfl, rfl, rfl, fun _ => rfl, fun _ => rfl, by rw [hpc]; exact nofun,
      ⟨.returned, nofun, rfl⟩, fun _ => rfl⟩
  | returned => simp [hpc] at hd

/- A statement of `osal_deinit` keeps all entries. -/
theorem deinit_keeps (h : Inv inp s) {c : Caller} (hu : s.step inp (.osalDeinit c) = some u) :
    Outer u ∧ (∀ j, Keeps s u j) ∧
      ((∀ i, s.teardown.deinit c ≠ .cancel i) → u.teardown.cancelled = s.teardown.cancelled) := by
  have hinv := step_teardown_inv h.outer.teardown hu
  simp only [step, Option.ite_none_right_eq_some] at hu
  obtain ⟨hexits, hu⟩ := hu
  obtain ⟨d, hd, rfl⟩ := osalStep_some hu
  have hframe := deinitStep_frame hd
  have hno (j : ℕ) : ¬ Waiting s j := h.not_waiting hframe.began hexits
  obtain ⟨p, hp, hpc⟩ := hframe.pc
  refine ⟨h.outer.deinit hinv hexits hframe.idx hframe.started hframe.main hpc hp, fun j => ?_,
    hframe.cancelled⟩
  apply keeps_teardown (congrFun hframe.tasks j) (hframe.exitFunc j)
  · exact fun _ => hframe.sems j
  · exact fun hw => absurd hw (hno j)
  · exact fun hw => absurd hw (hno j)
  · intro hout
    rw [hpc]
    exact goto_out hp hout

end MotionDetector.Shutdown.Program
