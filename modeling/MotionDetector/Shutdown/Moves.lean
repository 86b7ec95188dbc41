import MotionDetector.Shutdown.Steps

/-!
# The steps that move an entry

A statement of a task, its creation and the call of its exit function move one
entry. No entry moves once its task is cancelled, as long as the shutdown is
graceful.
-/

namespace MotionDetector.Shutdown.Program

open Transition Wakeups Osal

variable {inp : Inputs} {s u : Program} {i : ℕ}

/-- Only entry `i` moves, whose task nobody has cancelled. -/
structure Moves (inp : Inputs) (s u : Program) (i : ℕ) : Prop where
  outer : Outer u
  others : ∀ j, j ≠ i → Keeps s u j
  own : Entry inp u i
  cancelled : u.teardown.cancelled = s.teardown.cancelled
  zero : u.teardown.tasks i ≠ .absent → s.teardown.cancelled i = 0

theorem Moves.inv (hm : Moves inp s u i) (h : Inv inp s) : Inv inp u := by
  refine ⟨hm.outer, fun j => ?_⟩
  by_cases hj : j = i
  · rw [hj]
    exact hm.own
  · exact (h.entries j).keep (hm.others j hj)

theorem Moves.graceful (hm : Moves inp s u i) (hg : Graceful s) : Graceful u := by
  intro j hj hfunc hpos
  by_cases heq : j = i
  · subst heq
    rw [hm.cancelled, hm.zero hj] at hpos
    exact absurd hpos (Nat.lt_irrefl 0)
  · exact (hm.others j heq).ended hg (congrFun hm.cancelled j) hj hfunc hpos

theorem toUInt8_toNat {n : ℕ} (h : n < 256) : n.toUInt8.toNat = n := by
  simp only [Nat.toUInt8_eq, UInt8.toNat_ofNat']
  exact Nat.mod_eq_of_lt h

/- What a task does to its own entry while it is in its loop. -/
theorem Notified.loop {t : Thread} {n : ℕ} (hn : Notified inp s i t n)
    (hrunning : s.teardown.tasks i = .running) (hrunning' : u.teardown.tasks i = .running)
    (hout : u.teardown.deinit .scheduler = s.teardown.deinit .scheduler)
    (hpath : ∀ t n, OnPath inp s i t n → OnPath inp u i t n)
    (hleft : (u.threads i).Ended → (u.threads i).Left) : Notified inp u i t n where
  out := hout ▸ hn.out
  alive := by
    rw [hrunning']
    exact ⟨nofun, nofun⟩
  path _ := hpath t.exitFunction n (hn.path hrunning)
  ended hne := absurd hrunning' hne
  left := hleft

theorem Entry.loop (he : Entry inp s i) (hrunning : s.teardown.tasks i = .running)
    (htasks : u.teardown.tasks = s.teardown.tasks)
    (hfunc : u.exitFunc i = s.exitFunc i)
    (hused : s.teardown.osal.taskStates i ≠ .unused → u.teardown.osal.taskStates i ≠ .unused)
    (hmain : u.teardown.mainPc = s.teardown.mainPc) (hexits : u.exits = s.exits)
    (hnotified : u.notified = s.notified)
    (hout : u.teardown.deinit .scheduler = s.teardown.deinit .scheduler)
    (hasleep : u.asleep i = true → (u.threads i).AtDelay)
    (hslept : u.slept i = true → u.asleep i = true ∧ s.slept i = true)
    (hworking : (s.threads i).Working → (u.threads i).Working)
    (hpath : ∀ t n, OnPath inp s i t n → OnPath inp u i t n)
    (hleft : (u.threads i).Ended → (u.threads i).Left) : Entry inp u i := by
  have hi : s.teardown.tasks i ≠ .absent := by rw [hrunning]; exact nofun
  have hrunning' : u.teardown.tasks i = .running := (congrFun htasks i).trans hrunning
  apply Entry.mk
  · exact fun h => ⟨hrunning', hasleep h⟩
  · intro _
    rw [hfunc]
    exact he.exitFunc hi
  · intro h
    rw [hnotified]
    exact ⟨(hslept h).1, (he.slept (hslept h).2).2⟩
  · intro hnone
    rw [hnotified] at hnone
    exact hworking (he.working hnone)
  · intro hnone _
    rw [hnotified] at hnone
    have hw := he.waiting hnone hi
    exact ⟨hrunning', hused hw.used, hexits ▸ hw.place, hmain ▸ hw.main⟩
  · intro t n hsome _
    rw [hnotified] at hsome
    exact (he.notified t n hsome hi).loop hrunning hrunning' hout hpath hleft

/- Statements of a thread that the OSAL does not see. -/
theorem others_setThread {t : Thread} {j : ℕ} (hj : j ≠ i) : Keeps s (s.setThread i t) j where
  task := rfl
  thread := Function.update_of_ne hj ..
  asleep := rfl
  slept := rfl
  notified := rfl
  interrupts := rfl
  exitFunc := rfl
  sem _ := rfl
  used hw := hw.used
  place hw := hw.place
  main hw := hw.main
  out := id

theorem Entry.left (he : Entry inp s i) (hi : s.teardown.tasks i ≠ .absent)
    (hended : (s.threads i).Ended) : (s.threads i).Left := by
  cases hnot : s.notified i with
  | none => exact absurd hended (he.working hnot).not_ended
  | some p => exact (he.notified p.1 p.2 hnot hi).left hended

theorem statement_moves (h : Inv inp s) (hg : Graceful s) (hrunning : s.teardown.tasks i = .running)
    (hended : ¬ (s.threads i).Ended) (hdelay : ¬ (s.threads i).AtDelay) :
    Moves inp s (s.setThread i ((s.threads i).taskStep inp)) i := by
  have he := h.entries i
  obtain ⟨hi, hzero, -⟩ := h.running hg hrunning
  have hthread : (s.setThread i ((s.threads i).taskStep inp)).threads i =
      (s.threads i).taskStep inp := Function.update_self ..
  have hawake : s.asleep i = false := by
    by_contra hasleep
    exact hdelay (he.asleep (by simpa using hasleep)).2
  have hpath (m : ℕ) : Ends (Thread.sleeper inp) (s.threads i) (s.signalSem i + m) ↔
      Ends (Thread.sleeper inp) ((s.threads i).taskStep inp) (s.signalSem i + m) :=
    ends_go_iff (m := Thread.sleeper inp) hended hdelay
  refine ⟨⟨h.outer.teardown, h.outer.few, h.outer.creating, h.outer.before, h.outer.done,
    h.outer.called⟩, fun j hj => others_setThread hj, ?_, rfl, fun _ => hzero⟩
  apply he.loop (u := s.setThread i ((s.threads i).taskStep inp)) hrunning rfl rfl id rfl rfl rfl
    rfl
  · intro hasleep
    rw [show s.asleep i = true from hasleep] at hawake
    cases hawake
  · intro hslept
    exact ⟨(he.slept hslept).1, hslept⟩
  · rw [hthread]
    exact Thread.step_working inp
  · intro t n hon m
    rw [hthread]
    exact (hon m).trans (hpath m)
  · rw [hthread]
    exact Thread.step_left hended

/- The task goes to sleep: its count stays. -/
theorem suspend_moves (h : Inv inp s) (hg : Graceful s) (hrunning : s.teardown.tasks i = .running)
    (hdelay : (s.threads i).AtDelay) (hawake : s.asleep i = false) {d : Teardown}
    (hd : s.teardown.step (.suspend i.toUInt8) = some d) :
    Moves inp s { s with teardown := d, asleep := Function.update s.asleep i true } i := by
  have he := h.entries i
  obtain ⟨hi, hzero, -⟩ := h.running hg hrunning
  have hinv := Teardown.step_inv h.outer.teardown (by trivial) hd
  simp only [Teardown.step, Option.ite_none_right_eq_some, Option.some.injEq] at hd
  obtain ⟨-, rfl⟩ := hd
  have hkeeps (j : ℕ) := osalTaskSuspend_keeps i.toUInt8 s.teardown.osal j
  have hsems (j : ℕ) : signalSems (s.teardown.osal.osalTaskSuspend i.toUInt8) j = s.signalSem j :=
    osalTaskSuspend_sems i.toUInt8 s.teardown.osal j
  have hsame := OsalState.osalTaskSuspend_sameTable i.toUInt8 s.teardown.osal
  generalize s.teardown.osal.osalTaskSuspend i.toUInt8 = o at hinv hkeeps hsems hsame ⊢
  have hslept : s.slept i ≠ true := by
    intro hslept
    rw [(he.slept hslept).1] at hawake
    cases hawake
  have hsem : (o.sequencers i).signalSem = s.signalSem i := hsems i
  refine ⟨⟨hinv, hsame.2 ▸ h.outer.few, fun hmain => (hkeeps 0).started.trans
    (h.outer.creating hmain), h.outer.before, h.outer.done, h.outer.called⟩, fun j hj => ?_, ?_,
    rfl, fun _ => hzero⟩
  · exact
      { task := rfl
        thread := rfl
        asleep := Function.update_of_ne hj ..
        slept := rfl
        notified := rfl
        interrupts := rfl
        exitFunc := (hkeeps j).exitFunc
        sem := fun _ => hsems j
        used := fun hw => (hkeeps j).used hw.used
        place := fun hw => hw.place
        main := fun hw => hw.main
        out := id }
  · apply he.loop (u := ⟨{ s.teardown with osal := o }, s.threads, Function.update s.asleep i true,
      s.exits, s.notified, s.slept, s.interrupts⟩) hrunning rfl (hkeeps i).exitFunc (hkeeps i).used
      rfl rfl rfl rfl
    · exact fun _ => hdelay
    · exact fun hs => absurd hs hslept
    · exact id
    · intro t n hon m
      simp only [signalSem, hsem]
      exact hon m
    · exact he.left hi

/- The task takes a post and goes on. -/
theorem wake_moves (h : Inv inp s) (hg : Graceful s) (hrunning : s.teardown.tasks i = .running)
    (hended : ¬ (s.threads i).Ended) (hdelay : (s.threads i).AtDelay) {d : Teardown}
    (hd : s.teardown.step (.wake i.toUInt8) = some d) :
    Moves inp s { s.setThread i ((s.threads i).taskStep inp) with
      teardown := d
      asleep := Function.update s.asleep i false
      slept := Function.update s.slept i false } i := by
  have he := h.entries i
  obtain ⟨hi, hzero, -⟩ := h.running hg hrunning
  have hnat := toUInt8_toNat ((h.lt hi).trans (by decide))
  have hinv := Teardown.step_inv h.outer.teardown (by trivial) hd
  simp only [Teardown.step, Option.ite_none_right_eq_some] at hd
  obtain ⟨o, ho, rfl⟩ := Option.map_eq_some_iff.mp hd.2
  have hkeeps (j : ℕ) := semWait_keeps ho j
  have hsame := OsalState.semWait_sameTable ho
  obtain ⟨htake, hothers⟩ := semWait_sems ho
  rw [hnat] at htake hothers
  have hthread : Function.update s.threads i ((s.threads i).taskStep inp) i =
      (s.threads i).taskStep inp := Function.update_self ..
  have hpath (m : ℕ) : Ends (Thread.sleeper inp) (s.threads i) (s.signalSem i + m) ↔
      Ends (Thread.sleeper inp) ((s.threads i).taskStep inp) (signalSems o i + m) := by
    rw [show s.signalSem i = signalSems o i + 1 from htake, Nat.add_right_comm]
    exact ends_wake_iff (m := Thread.sleeper inp) hended hdelay
  refine ⟨⟨hinv, hsame.2 ▸ h.outer.few, fun hmain => (hkeeps 0).started.trans
    (h.outer.creating hmain), h.outer.before, h.outer.done, h.outer.called⟩, fun j hj => ?_, ?_,
    rfl, fun _ => hzero⟩
  · exact
      { task := rfl
        thread := Function.update_of_ne hj ..
        asleep := Function.update_of_ne hj ..
        slept := Function.update_of_ne hj ..
        notified := rfl
        interrupts := rfl
        exitFunc := (hkeeps j).exitFunc
        sem := fun _ => hothers j hj
        used := fun hw => (hkeeps j).used hw.used
        place := fun hw => hw.place
        main := fun hw => hw.main
        out := id }
  · apply he.loop (u := ⟨{ s.teardown with osal := o },
      Function.update s.threads i ((s.threads i).taskStep inp), Function.update s.asleep i false,
      s.exits, s.notified, Function.update s.slept i false, s.interrupts⟩) hrunning rfl
      (hkeeps i).exitFunc (hkeeps i).used rfl rfl rfl rfl
    · simp
    · simp
    · simp only [hthread]
      exact Thread.step_working inp
    · intro t n hon m
      simp only [hthread]
      exact (hon m).trans (hpath m)
    · simp only [hthread]
      exact Thread.step_left hended

/- A signal ends the wait of the task, and its posts stay. -/
theorem interrupt_moves (h : Inv inp s) (hg : Graceful s) (hu : s.interruptStep inp i = some u) :
    Moves inp s u i := by
  simp only [interruptStep, Option.ite_none_right_eq_some, Option.some.injEq] at hu
  obtain ⟨⟨-, hrunning, hdelay, -⟩, rfl⟩ := hu
  have he := h.entries i
  obtain ⟨-, hzero, -⟩ := h.running hg hrunning
  have hended := hdelay.not_ended
  have hthread : Function.update s.threads i ((s.threads i).taskStep inp) i =
      (s.threads i).taskStep inp := Function.update_self ..
  have hpath (m : ℕ) : Ends (Thread.sleeper inp) (s.threads i) (s.signalSem i + (m + 1)) ↔
      Ends (Thread.sleeper inp) ((s.threads i).taskStep inp) (s.signalSem i + m) :=
    ends_wake_iff (m := Thread.sleeper inp) hended hdelay
  refine ⟨⟨h.outer.teardown, h.outer.few, h.outer.creating, h.outer.before, h.outer.done,
    h.outer.called⟩, fun j hj => ?_, ?_, rfl, fun _ => hzero⟩
  · exact
      { task := rfl
        thread := Function.update_of_ne hj ..
        asleep := Function.update_of_ne hj ..
        slept := Function.update_of_ne hj ..
        notified := rfl
        interrupts := Function.update_of_ne hj ..
        exitFunc := rfl
        sem := fun _ => rfl
        used := fun hw => hw.used
        place := fun hw => hw.place
        main := fun hw => hw.main
        out := id }
  · apply he.loop (u := ⟨s.teardown, Function.update s.threads i ((s.threads i).taskStep inp),
      Function.update s.asleep i false, s.exits, s.notified, Function.update s.slept i false,
      Function.update s.interrupts i (s.interrupts i + 1)⟩) hrunning rfl rfl id rfl rfl rfl rfl
    · simp
    · simp
    · simp only [hthread]
      exact Thread.step_working inp
    · intro t n hon m
      simp only [hthread, Function.update_self]
      rw [show n + (s.interrupts i + 1) + m = n + s.interrupts i + (m + 1) by omega]
      exact (hon (m + 1)).trans (hpath m)
    · simp only [hthread]
      exact Thread.step_left hended

/-- Entry `i` gets on in the `osal_task_delete` of its task. -/
structure Deletes (s : Program) (d : Teardown) (i : ℕ) : Prop where
  inv : d.Inv
  idx : d.osal.taskIdx = s.teardown.osal.taskIdx
  started : d.osal.schedulerStarted = s.teardown.osal.schedulerStarted
  main : d.mainPc = s.teardown.mainPc
  deinit : d.deinit = s.teardown.deinit
  cancelled : d.cancelled = s.teardown.cancelled
  exitFunc : (d.osal.tcb i).taskExitFunc = s.exitFunc i
  sems : ∀ j, signalSems d.osal j = s.signalSem j
  keeps : ∀ j, j ≠ i → KeepsEntry s.teardown.osal d.osal j
  tasks : ∀ j, j ≠ i → d.tasks j = s.teardown.tasks j
  gone : d.tasks i = .deleting ∨ d.tasks i = .exiting ∨ d.tasks i = .exited

variable {d : Teardown}

theorem Notified.delete {t : Thread} {n : ℕ} (hn : Notified inp s i t n) (hd : Deletes s d i)
    (hends : Ends (Thread.sleeper inp) t.exitFunction (n + s.interrupts i))
    (hended : (s.threads i).Ended) : Notified inp { s with teardown := d } i t n where
  out := by
    simp only [hd.deinit]
    exact hn.out
  alive := by
    rcases hd.gone with h | h | h
    · simp [h]
    · simp [h]
    · simp [h]
  path hrunning := by
    have hrunning : d.tasks i = .running := hrunning
    rcases hd.gone with h | h | h <;> rw [h] at hrunning <;> cases hrunning
  ended _ := ⟨hends, hended⟩
  left := hn.left

theorem delete_moves (h : Inv inp s) (hg : Graceful s) (hi : s.teardown.tasks i ≠ .absent)
    (hexited : s.teardown.tasks i ≠ .exited) (hended : (s.threads i).Ended)
    (hawake : s.asleep i = false) (hd : Deletes s d i)
    (hends : ∀ t n, s.notified i = some (t, n) →
      Ends (Thread.sleeper inp) t.exitFunction (n + s.interrupts i)) :
    Moves inp s { s with teardown := d } i := by
  have he := h.entries i
  have hzero := (h.alive hg hi hexited).1
  have hslept : s.slept i ≠ true := by
    intro hslept
    rw [(he.slept hslept).1] at hawake
    cases hawake
  have hsome : s.notified i ≠ none := fun hnone => (he.working hnone).not_ended hended
  refine ⟨h.outer.same hd.inv hd.idx ?_ (by rw [hd.deinit]), fun j hj => ?_, ?_, hd.cancelled,
    fun _ => hzero⟩
  · intro hcreating
    rw [hd.main] at hcreating
    exact hd.started.trans (h.outer.creating hcreating)
  · apply keeps_teardown (hd.tasks j hj) (hd.keeps j hj).exitFunc
    · exact fun _ => hd.sems j
    · exact fun hw => (hd.keeps j hj).used hw.used
    · rw [hd.main]
      exact Waiting.main
    · rw [hd.deinit]
      exact id
  · apply Entry.mk
    · intro hs
      rw [show s.asleep i = true from hs] at hawake
      cases hawake
    · intro _
      rw [show exitFunc { s with teardown := d } i = s.exitFunc i from hd.exitFunc]
      exact he.exitFunc hi
    · exact fun hs => absurd hs hslept
    · exact fun hnone => absurd hnone hsome
    · exact fun hnone => absurd hnone hsome
    · exact fun t n hnot _ => (he.notified t n hnot hi).delete hd (hends t n hnot) hended

theorem deletes_setTask {p : TaskPc} (hinv : (s.teardown.setTask i p).Inv)
    (hp : p = .deleting ∨ p = .exiting ∨ p = .exited) :
    Deletes s (s.teardown.setTask i p) i where
  inv := hinv
  idx := rfl
  started := rfl
  main := rfl
  deinit := rfl
  cancelled := rfl
  exitFunc := rfl
  sems _ := rfl
  keeps j _ := .refl _ j
  tasks j hj := Function.update_of_ne hj ..
  gone := by
    simp only [Teardown.setTask, Function.update_self]
    exact hp

/- A task that is in `osal_task_delete` has ended and is awake. -/
theorem Inv.gone (h : Inv inp s) (hi : s.teardown.tasks i ≠ .absent)
    (hrunning : s.teardown.tasks i ≠ .running) :
    s.asleep i = false ∧ (s.threads i).Ended ∧
      ∀ t n, s.notified i = some (t, n) →
        Ends (Thread.sleeper inp) t.exitFunction (n + s.interrupts i) := by
  have he := h.entries i
  refine ⟨?_, ?_, fun t n hnot => ((he.notified t n hnot hi).ended hrunning).1⟩
  · by_contra hasleep
    exact hrunning (he.asleep (by simpa using hasleep)).1
  · cases hnot : s.notified i with
    | none => exact absurd (he.waiting hnot hi).running hrunning
    | some p => exact ((he.notified p.1 p.2 hnot hi).ended hrunning).2

theorem task_moves (h : Inv inp s) (hg : Graceful s) (hu : s.taskStep inp i = some u) :
    Moves inp s u i := by
  have he := h.entries i
  unfold taskStep at hu
  cases hpc : s.teardown.tasks i with
  | running =>
    obtain ⟨hi, -, hinit⟩ := h.running hg hpc
    simp only [hpc] at hu
    split at hu
    · next hended =>
      obtain ⟨d, hd, rfl⟩ := osalStep_some hu
      have hinv := Teardown.step_inv h.outer.teardown (by trivial) hd
      simp only [Teardown.step, hpc, hinit, if_true, Option.some.injEq] at hd
      subst hd
      have hawake : s.asleep i = false := by
        by_contra hasleep
        have hdelay := (he.asleep (by simpa using hasleep)).2
        exact hdelay.not_ended hended
      refine delete_moves h hg hi (by rw [hpc]; decide) hended hawake
        (deletes_setTask hinv (.inl rfl)) fun t n hnot => ?_
      exact ((he.notified t n hnot hi).path hpc 0).mpr (.ended _ hended)
    · next hended =>
      split at hu
      · next hdelay =>
        unfold delayStep at hu
        split at hu
        · obtain ⟨d, hd, rfl⟩ := Option.map_eq_some_iff.mp hu
          exact wake_moves h hg hpc hended hdelay hd
        · next hasleep =>
          obtain ⟨d, hd, rfl⟩ := Option.map_eq_some_iff.mp hu
          exact suspend_moves h hg hpc hdelay (by simpa using hasleep) hd
      · next hdelay =>
        obtain rfl := Option.some.inj hu
        exact statement_moves h hg hpc hended hdelay
  | deleting =>
    have hi : s.teardown.tasks i ≠ .absent := by rw [hpc]; decide
    obtain ⟨hawake, hended, hends⟩ := h.gone hi (by rw [hpc]; decide)
    simp only [hpc] at hu
    obtain ⟨d, hd, rfl⟩ := osalStep_some hu
    have hinv := Teardown.step_inv h.outer.teardown (by trivial) hd
    simp only [Teardown.step, hpc, if_true, Option.some.injEq] at hd
    subst hd
    refine delete_moves h hg hi (by rw [hpc]; decide) hended hawake ?_ hends
    have hleaves := clearEntry_leaves i s.teardown.osal
    exact
      { inv := hinv
        idx := rfl
        started := rfl
        main := rfl
        deinit := rfl
        cancelled := rfl
        exitFunc := (hleaves i).1
        sems := fun j => (hleaves j).2
        keeps := fun j hj => clearEntry_keeps hj s.teardown.osal
        tasks := fun j hj => Function.update_of_ne hj ..
        gone := .inr (.inl (Function.update_self ..)) }
  | exiting =>
    have hi : s.teardown.tasks i ≠ .absent := by rw [hpc]; decide
    obtain ⟨hawake, hended, hends⟩ := h.gone hi (by rw [hpc]; decide)
    simp only [hpc] at hu
    obtain ⟨d, hd, rfl⟩ := osalStep_some hu
    have hinv := Teardown.step_inv h.outer.teardown (by trivial) hd
    simp only [Teardown.step, hpc, if_true, Option.some.injEq] at hd
    subst hd
    exact delete_moves h hg hi (by rw [hpc]; decide) hended hawake
      (deletes_setTask hinv (.inr (.inr rfl))) hends
  | absent => simp [hpc] at hu
  | exited => simp [hpc] at hu
  | returned => simp [hpc] at hu
  | cancelled => simp [hpc] at hu

/- A task that takes a step does not sleep any more. -/
theorem task_not_slept (h : Inv inp s) (hu : s.taskStep inp i = some u) : u.slept i ≠ true := by
  have he := h.entries i
  have hkept {v : Program} (hv : v.slept = s.slept)
      (hstay : s.asleep i = true → (s.threads i).AtDelay → False) : v.slept i ≠ true := by
    intro hslept
    rw [hv] at hslept
    have hasleep := (he.slept hslept).1
    exact hstay hasleep (he.asleep hasleep).2
  have hosal {a : TeardownAct} (hrunning : s.teardown.tasks i ≠ .running)
      (hv : s.osalStep a = some u) : u.slept i ≠ true := by
    obtain ⟨d, -, rfl⟩ := osalStep_some hv
    exact hkept rfl fun hasleep _ => hrunning (he.asleep hasleep).1
  unfold taskStep at hu
  cases hpc : s.teardown.tasks i with
  | running =>
    simp only [hpc] at hu
    split at hu
    · next hended =>
      obtain ⟨d, -, rfl⟩ := osalStep_some hu
      exact hkept rfl fun _ hdelay => hdelay.not_ended hended
    · split at hu
      · next hdelay =>
        unfold delayStep at hu
        split at hu
        · obtain ⟨d, -, rfl⟩ := Option.map_eq_some_iff.mp hu
          simp
        · next hawake =>
          split at hu
          · obtain ⟨d, -, rfl⟩ := Option.map_eq_some_iff.mp hu
            exact hkept rfl fun hasleep _ => hawake hasleep
          · obtain rfl := Option.some.inj hu
            exact hkept rfl fun hasleep _ => hawake hasleep
      · next hdelay =>
        obtain rfl := Option.some.inj hu
        exact hkept rfl fun _ hat => hdelay hat
  | deleting =>
    simp only [hpc] at hu
    exact hosal (by rw [hpc]; exact nofun) hu
  | exiting =>
    simp only [hpc] at hu
    exact hosal (by rw [hpc]; exact nofun) hu
  | absent => simp [hpc] at hu
  | exited => simp [hpc] at hu
  | returned => simp [hpc] at hu
  | cancelled => simp [hpc] at hu

/- What a task asleep since its exit function was called wakes with is a post. -/
theorem task_takes_post (h : Inv inp s) (hslept : s.slept i = true)
    (hu : s.taskStep inp i = some u) : 0 < s.signalSem i := by
  have he := h.entries i
  obtain ⟨hasleep, -⟩ := he.slept hslept
  obtain ⟨hrunning, hdelay⟩ := he.asleep hasleep
  have hlt := h.lt (i := i) (by rw [hrunning]; exact nofun)
  have hnat := toUInt8_toNat (hlt.trans (by decide))
  simp only [taskStep, hrunning, if_neg hdelay.not_ended, if_pos hdelay, delayStep,
    if_pos hasleep, Teardown.step, hnat, if_true] at hu
  obtain ⟨d, hd, -⟩ := Option.map_eq_some_iff.mp hu
  obtain ⟨o, ho, -⟩ := Option.map_eq_some_iff.mp hd
  have htake := (semWait_sems ho).1
  rw [hnat] at htake
  exact Nat.lt_of_lt_of_eq (Nat.succ_pos _) htake.symm

theorem uncancelled {s : Teardown} (h : s.Inv) (hbefore : ∀ c, s.deinit c = .before) (i : ℕ) :
    s.cancelled i = 0 := by
  have hno (c : Caller) : s.didCancel c i = false := by
    have htorn : s.torn c i = false := by
      by_contra htrue
      have hlt := (h.position c).torn_lt i (by simpa using htrue)
      rw [hbefore c] at hlt
      exact absurd hlt (Nat.not_lt_zero i)
    simp [Teardown.didCancel, htorn]
  rw [h.cancelled i, hno, hno]
  rfl

theorem creates_exitFunc {k : ℕ} {c : Create} (hc : creates[k]? = some c) : c.exitFunc ≠ none := by
  have hmem := List.mem_of_getElem? hc
  simp only [creates, List.mem_cons, List.not_mem_nil, or_false] at hmem
  rcases hmem with rfl | rfl | rfl | rfl <;> exact nofun

/- A new task works in its loop, and its exit function has yet to be called. -/
theorem Entry.create {d : Teardown} (he : Entry inp s i) (habsent : s.teardown.tasks i = .absent)
    (hnone : s.notified i = none) (hexits : s.exits = 0) (hmain : d.mainPc = .creating)
    (htask : d.tasks i = .absent ∨ d.tasks i = .running)
    (hfunc : (d.osal.tcb i).taskExitFunc ≠ none) (hused : d.osal.taskStates i ≠ .unused) :
    Entry inp { s with teardown := d } i := by
  have hawake : s.asleep i ≠ true := by
    intro hasleep
    have hrunning := (he.asleep hasleep).1
    rw [habsent] at hrunning
    cases hrunning
  apply Entry.mk
  · exact fun hasleep => absurd hasleep hawake
  · exact fun _ => hfunc
  · exact fun hslept => absurd (he.slept hslept).1 hawake
  · exact he.working
  · intro _ hcreated
    apply Waiting.mk
    · exact htask.resolve_left hcreated
    · exact hused
    · simp only [hexits]
      exact Nat.zero_le _
    · simp only [hmain]
      trivial
  · intro t n hsome
    rw [show s.notified i = some (t, n) from hsome] at hnone
    cases hnone

/- A new entry is suspended, and its thread may have failed to start. -/
theorem create_moves (h : Inv inp s) {c : Create} {calls : CreateCalls} {d : Teardown}
    (hc : creates[s.teardown.osal.taskIdx.toNat]? = some c)
    (hmain : s.teardown.mainPc = .creating) (hadm : Admitted c s.teardown.osal)
    (hd : s.teardown.step (.create c calls) = some d) :
    Moves inp s { s with teardown := d } s.teardown.osal.taskIdx.toNat := by
  have hlt : s.teardown.osal.taskIdx.toNat < creates.length := by
    by_contra hge
    rw [List.getElem?_eq_none (Nat.le_of_not_lt hge)] at hc
    cases hc
  have hinv := Teardown.step_inv (a := .create c calls) h.outer.teardown
    (hlt.trans (by decide)) hd
  obtain ⟨hfunc, hstate, hidx, hstarted, hkeeps⟩ :=
    create_entry calls hadm (h.outer.creating hmain)
  have hbefore := (h.outer.teardown.creating hmain).2
  obtain ⟨hexits, hnone⟩ := h.outer.before (hbefore .scheduler)
  have habsent := h.outer.teardown.fresh s.teardown.osal.taskIdx.toNat le_rfl
  simp only [Teardown.step, if_pos hmain, osalTaskCreate_admitted calls hadm,
    Option.some.injEq] at hd
  subst hd
  generalize (prepared c calls s.teardown.osal).register = o
    at hinv hfunc hstate hidx hstarted hkeeps ⊢
  have hfew : o.taskIdx.toNat ≤ creates.length := by
    rw [hidx]
    simp only [creates, List.length_cons, List.length_nil] at hlt ⊢
    simp only [UInt8.toNat_add, UInt8.toNat_one]
    omega
  refine ⟨⟨hinv, hfew, fun _ => hstarted, h.outer.before, h.outer.done, h.outer.called⟩,
    fun j hj => ?_, ?_, rfl, fun _ => uncancelled h.outer.teardown hbefore _⟩
  · refine keeps_teardown ?_ (hkeeps j hj).exitFunc (fun hne => absurd (hnone j) hne)
      (fun hw => (hkeeps j hj).used hw.used) Waiting.main id
    simp only
    split
    · exact Function.update_of_ne hj ..
    · rfl
  · apply (h.entries _).create habsent (hnone _) hexits
    · exact hmain
    · simp only
      split
      · exact .inr (Function.update_self ..)
      · exact .inl habsent
    · simp only [hfunc]
      exact creates_exitFunc hc
    · show OsalState.taskStates o s.teardown.osal.taskIdx.toNat ≠ .unused
      rw [hstate]
      decide

/- A refused creation changes nothing. -/
theorem create_cases (h : Inv inp s) {calls : CreateCalls}
    (hu : s.step inp (.create calls) = some u) :
    u = s ∨ ∃ i, Moves inp s u i ∧ s.notified i = none ∧ u.slept i = s.slept i := by
  simp only [step] at hu
  cases hc : creates[s.teardown.osal.taskIdx.toNat]? with
  | none => simp [hc] at hu
  | some c =>
    simp only [hc] at hu
    obtain ⟨d, hd, rfl⟩ := osalStep_some hu
    by_cases hmain : s.teardown.mainPc = .creating
    · by_cases hadm : Admitted c s.teardown.osal
      · have hnone := (h.outer.before ((h.outer.teardown.creating hmain).2 .scheduler)).2
        exact .inr ⟨_, create_moves h hc hmain hadm hd, hnone _, rfl⟩
      · simp only [Teardown.step, if_pos hmain, osalTaskCreate_refused calls hadm,
          Option.some.injEq] at hd
        subst hd
        exact .inl rfl
    · simp only [Teardown.step, if_neg hmain] at hd
      cases hd

/-! ### The exit functions -/

/- The exit function is called in a thread that works in its loop. -/
theorem Entry.exit (he : Entry inp s i) (hnone : s.notified i = none)
    (hout : s.teardown.deinit .scheduler ≠ .before) (hteardown : u.teardown = s.teardown)
    (hthread : u.threads i = (s.threads i).exitFunction) (hasleep : u.asleep i = s.asleep i)
    (hslept : u.slept i = s.asleep i) (hinterrupts : u.interrupts i = 0)
    (hnotified : u.notified i = some (s.threads i, s.signalSem i)) : Entry inp u i := by
  have hfunc : u.exitFunc i = s.exitFunc i := by
    rw [Program.exitFunc, Program.exitFunc, hteardown]
  have hsem : u.signalSem i = s.signalSem i := by simp only [signalSem, hteardown]
  apply Entry.mk
  · rw [hasleep, hteardown, hthread, Thread.exitFunction_atDelay]
    exact he.asleep
  · rw [hfunc, hteardown]
    exact he.exitFunc
  · rw [hslept, hasleep, hnotified]
    exact fun h => ⟨h, Option.some_ne_none _⟩
  · rw [hnotified]
    exact fun h => absurd h (Option.some_ne_none _)
  · rw [hnotified]
    exact fun h => absurd h (Option.some_ne_none _)
  · rw [hnotified, hteardown]
    intro t n hsome hi
    obtain ⟨rfl, rfl⟩ := Prod.mk.inj (Option.some.inj hsome)
    have hrunning := (he.waiting hnone hi).running
    have hended := (he.working hnone).not_ended
    apply Notified.mk
    · rw [hteardown]
      exact hout
    · rw [hteardown, hrunning]
      decide
    · intro _ m
      rw [hthread, hsem, hinterrupts]
      exact Iff.rfl
    · rw [hteardown]
      exact fun hne => absurd hrunning hne
    · rw [hthread, Thread.exitFunction_ended]
      exact fun hend => absurd hend hended

/- The exit function of an entry is called. -/
theorem exit_moves (h : Inv inp s) (hg : Graceful s)
    (htest : s.teardown.deinit .scheduler = .test) :
    Moves inp s { s.setThread s.exits (s.threads s.exits).exitFunction with
      exits := s.exits + 1
      notified := Function.update s.notified s.exits (some (s.threads s.exits, s.signalSem s.exits))
      slept := Function.update s.slept s.exits (s.asleep s.exits)
      interrupts := Function.update s.interrupts s.exits 0 } s.exits := by
  have he := h.entries s.exits
  have hnone : s.notified s.exits = none := by
    by_contra hsome
    exact absurd (h.outer.called s.exits hsome) (Nat.lt_irrefl _)
  have hbefore : s.teardown.deinit .scheduler ≠ .before := by rw [htest]; exact nofun
  refine ⟨⟨h.outer.teardown, h.outer.few, h.outer.creating, fun hb => absurd hb hbefore,
    fun _ hne => absurd htest hne, fun j hsome => ?_⟩, fun j hj => ?_, ?_, rfl, fun hi => ?_⟩
  · simp only at hsome ⊢
    by_cases hj : j = s.exits
    · rw [hj]
      exact Nat.lt_succ_self _
    · rw [Function.update_of_ne hj] at hsome
      exact Nat.lt_succ_of_lt (h.outer.called j hsome)
  · exact
      { task := rfl
        thread := Function.update_of_ne hj ..
        asleep := rfl
        slept := Function.update_of_ne hj ..
        notified := Function.update_of_ne hj ..
        interrupts := Function.update_of_ne hj ..
        exitFunc := rfl
        sem := fun _ => rfl
        used := fun hw => hw.used
        place := fun hw => Nat.lt_of_le_of_ne hw.place (Ne.symm hj)
        main := fun hw => hw.main
        out := id }
  · exact he.exit hnone hbefore rfl (Function.update_self ..) rfl (Function.update_self ..)
      (Function.update_self ..) (Function.update_self ..)
  · exact (h.running hg (he.waiting hnone hi).running).2.1

/- An entry that is not in use, or has no exit function, is passed over. -/
theorem exit_quiet (h : Inv inp s) (htest : s.teardown.deinit .scheduler = .test)
    (hskip : ¬ s.Called s.exits) : Quiet s { s with exits := s.exits + 1 } where
  outer :=
    { teardown := h.outer.teardown
      few := h.outer.few
      creating := h.outer.creating
      before := fun hb => by
        rw [show s.teardown.deinit .scheduler = .before from hb] at htest
        cases htest
      done := fun _ hne => absurd htest hne
      called := fun j hsome => Nat.lt_succ_of_lt (h.outer.called j hsome) }
  keeps j :=
    { task := rfl
      thread := rfl
      asleep := rfl
      slept := rfl
      notified := rfl
      interrupts := rfl
      exitFunc := rfl
      sem := fun _ => rfl
      used := fun hw => hw.used
      place := fun hw => by
        refine Nat.lt_of_le_of_ne hw.place ?_
        rintro rfl
        exact hskip ⟨hw.used, (h.entries _).exitFunc (by rw [hw.running]; exact nofun)⟩
      main := fun hw => hw.main
      out := id }
  cancelled := rfl

/-! ### The cancellations -/

theorem deinit_cancelled {c : Caller} (hpc : s.teardown.deinit c = .cancel i)
    (hu : s.step inp (.osalDeinit c) = some u) :
    u.teardown.cancelled =
      Function.update s.teardown.cancelled i (s.teardown.cancelled i + 1) := by
  simp only [step, Option.ite_none_right_eq_some] at hu
  obtain ⟨d, hd, rfl⟩ := osalStep_some hu.2
  simp only [Teardown.step, Teardown.deinitStep, hpc, Option.some.injEq] at hd
  subst hd
  rfl

/- A thread only dies in its loop after it was cancelled there. -/
theorem cancellation_none (h : Inv inp s) (hg : Graceful s) :
    s.step inp (.cancellation i) = none := by
  have hno : ¬ (s.teardown.tasks i = .running ∧ 0 < s.teardown.cancelled i) := by
    intro ⟨hrunning, hpos⟩
    rw [(h.running hg hrunning).2.1] at hpos
    exact Nat.lt_irrefl 0 hpos
  simp only [step, osalStep, Teardown.step, if_neg hno]
  rfl

end MotionDetector.Shutdown.Program
