import MotionDetector.Shutdown.Moves

/-!
# The graceful shutdown

No post comes after the scheduler has left its loop, so what is asleep in
`osal_task_delay` stays asleep unless a start was left over or another signal comes,
and `osal_deinit` cancels it there. Every task has ended when it is cancelled exactly
if the scheduling lets it run as far as it can and it has had as many posts and
signals as its place in the loop still takes.
-/

namespace MotionDetector.Shutdown.Program

open Transition Wakeups Osal

/-- When its exit function was called, the task was not about to overwrite the
request, and the posts it had then and the `k` signals since are enough for the
sleeps on its way. -/
def Enough (inp : Inputs) (k : ℕ) : Option (Thread × ℕ) → Prop
  | none => False
  | some (t, n) => ¬ t.WritePending inp ∧ t.wakeUps ≤ n + k

/-- A task that is cancelled has run as far as it can and had enough wake-ups. -/
def CancelReady (inp : Inputs) (s : Program) : ProgramAct → Prop
  | .osalDeinit c => ∀ i, s.teardown.deinit c = .cancel i → s.teardown.tasks i ≠ .absent →
      s.taskStep inp i = none ∧ Enough inp (s.interrupts i) (s.notified i)
  | _ => True

/-- A task that is asleep when its exit function is called has a post left, or a
signal ends its wait later. -/
def CallReady (s : Program) (a : ProgramAct) (rest : List ProgramAct) : Prop :=
  a = .exitFunction → s.asleep s.exits = true →
    0 < s.signalSem s.exits ∨ .interrupted s.exits ∈ rest

def Ready (inp : Inputs) (s : Program) (a : ProgramAct) (rest : List ProgramAct) : Prop :=
  CancelReady inp s a ∧ CallReady s a rest

instance (inp : Inputs) (k : ℕ) : (o : Option (Thread × ℕ)) → Decidable (Enough inp k o)
  | none => .isFalse id
  | some _ => inferInstanceAs (Decidable (_ ∧ _))

instance (inp : Inputs) (s : Program) : (a : ProgramAct) → Decidable (CancelReady inp s a)
  | .osalDeinit c =>
    match hpc : s.teardown.deinit c with
    | .cancel i =>
      decidable_of_iff (s.teardown.tasks i ≠ .absent →
        (s.taskStep inp i).isNone ∧ Enough inp (s.interrupts i) (s.notified i))
        (by simp [CancelReady, hpc])
    | .before | .test | .entry _ | .clear _ | .kill | .unset | .returned =>
      .isTrue (by simp [CancelReady, hpc])
  | .create _ | .startScheduler _ | .alarm | .sequencerPass | .task _ => .isTrue trivial
  | .interrupted _ | .shutdown | .exitFunction | .waitAll | .cancellation _ => .isTrue trivial

instance (inp : Inputs) (s : Program) (a : ProgramAct) (rest : List ProgramAct) :
    Decidable (Ready inp s a rest) :=
  inferInstanceAs (Decidable (_ ∧ (_ → _ → _ ∨ _)))

variable {inp : Inputs} {s u : Program} {i : ℕ}

theorem enough_iff {k : ℕ} {t : Thread} {n : ℕ} :
    Enough inp k (some (t, n)) ↔ Ends (Thread.sleeper inp) t.exitFunction (n + k) :=
  (Thread.exit_ends_iff inp t (n + k)).symm

/- A thread without a next statement has exited, or sleeps with no post. -/
theorem stopped_cases (h : Inv inp s) (hg : Graceful s) (hi : s.teardown.tasks i ≠ .absent)
    (hstop : s.taskStep inp i = none) : s.teardown.tasks i = .exited ∨
      s.teardown.tasks i = .running ∧ (s.threads i).AtDelay ∧ s.signalSem i = 0 := by
  have he := h.entries i
  unfold taskStep at hstop
  cases hpc : s.teardown.tasks i with
  | absent => exact absurd hpc hi
  | exited => exact .inl rfl
  | running =>
    have hinit := (h.running hg hpc).2.2
    have hnat := toUInt8_toNat ((h.lt hi).trans (by decide))
    simp only [hpc] at hstop
    split at hstop
    · simp [osalStep, Teardown.step, hpc] at hstop
    · split at hstop
      · next hdelay =>
        refine .inr ⟨rfl, hdelay, ?_⟩
        unfold delayStep at hstop
        split at hstop
        · simp only [Teardown.step, hnat, hpc, if_true, Option.map_eq_none_iff,
            OsalState.semWait] at hstop
          split at hstop
          · cases hstop
          · next hzero => exact Nat.eq_zero_of_not_pos hzero
        · simp [Teardown.step, hnat, hpc] at hstop
      · cases hstop
  | deleting => simp [hpc, osalStep, Teardown.step] at hstop
  | exiting => simp [hpc, osalStep, Teardown.step] at hstop
  | returned => exact absurd hpc (he.alive hi).1
  | cancelled => exact absurd hpc (he.alive hi).2

theorem cancel_graceful_iff (h : Inv inp s) (hg : Graceful s) {c : Caller}
    (hpc : s.teardown.deinit c = .cancel i) (hu : s.step inp (.osalDeinit c) = some u) :
    Graceful u ↔ CancelReady inp s (.osalDeinit c) := by
  obtain ⟨-, hkeeps, -⟩ := deinit_keeps h hu
  have hcancelled := deinit_cancelled hpc hu
  have he := h.entries i
  constructor
  · intro hgu j hj hi
    obtain rfl : i = j := by
      rw [hpc] at hj
      exact DeinitPc.cancel.inj hj
    have hexited : s.teardown.tasks i = .exited := by
      rw [← (hkeeps i).task]
      refine (hgu i ?_ ?_ ?_).1
      · rw [(hkeeps i).task]
        exact hi
      · rw [(hkeeps i).exitFunc]
        exact he.exitFunc hi
      · rw [hcancelled, Function.update_self]
        exact Nat.succ_pos _
    have hne : s.teardown.tasks i ≠ .running := by rw [hexited]; decide
    refine ⟨by simp only [taskStep, hexited], ?_⟩
    cases hnot : s.notified i with
    | none => exact absurd (he.waiting hnot hi).running hne
    | some p => exact enough_iff.mpr ((he.notified p.1 p.2 hnot hi).ended hne).1
  · intro hready j hj hfunc hpos
    by_cases heq : j = i
    · subst heq
      rw [(hkeeps j).task] at hj ⊢
      rw [(hkeeps j).thread]
      obtain ⟨hstop, henough⟩ := hready j hpc hj
      cases hnot : s.notified j with
      | none =>
        rw [hnot] at henough
        exact henough.elim
      | some p =>
        have hn := he.notified p.1 p.2 hnot hj
        rw [hnot] at henough
        have hends := enough_iff.mp henough
        rcases stopped_cases h hg hj hstop with hexited | ⟨hrunning, hdelay, hzero⟩
        · exact ⟨hexited, hn.left (hn.ended (by rw [hexited]; decide)).2⟩
        · have hrest := (hn.path hrunning 0).mp hends
          rw [hzero] at hrest
          exact absurd hrest (not_ends_asleep (m := Thread.sleeper inp) hdelay.not_ended hdelay)
    · refine (hkeeps j).ended hg ?_ hj hfunc hpos
      rw [hcancelled, Function.update_of_ne heq]

/-! ### One step -/

/-- What a step does to the entries: it keeps them all or moves one, and the call of
an exit function is the only one that starts from a task asleep. -/
inductive Effect (inp : Inputs) (s u : Program) (a : ProgramAct) : Prop
  | kept (outer : Outer u) (keeps : ∀ j, Keeps s u j)
      (cancelled : (∀ c i, a = .osalDeinit c → s.teardown.deinit c ≠ .cancel i) →
        u.teardown.cancelled = s.teardown.cancelled)
      (signal : ∀ j, a ≠ .interrupted j) (call : a = .exitFunction → s.asleep s.exits ≠ true)
  | moved (i : ℕ) (moves : Moves inp s u i) (awake : u.slept i ≠ true)
      (woken : s.slept i = true → 0 < s.signalSem i ∨ a = .interrupted i)
      (signal : ∀ j, a = .interrupted j → j = i) (call : a ≠ .exitFunction)
  | called (moves : Moves inp s u s.exits) (first : s.notified s.exits = none)
      (slept : u.slept s.exits = s.asleep s.exits)
      (sem : u.signalSem s.exits = s.signalSem s.exits) (act : a = .exitFunction)

theorem Effect.inv {a : ProgramAct} (he : Effect inp s u a) (h : Inv inp s) : Inv inp u := by
  cases he with
  | kept outer keeps cancelled signal call => exact ⟨outer, fun j => (h.entries j).keep (keeps j)⟩
  | moved i moves awake woken signal call => exact moves.inv h
  | called moves first slept sem act => exact moves.inv h

theorem Quiet.effect {a : ProgramAct} (hq : Quiet s u) (signal : ∀ j, a ≠ .interrupted j)
    (call : a = .exitFunction → s.asleep s.exits ≠ true) : Effect inp s u a :=
  .kept hq.outer hq.keeps (fun _ => hq.cancelled) signal call

theorem create_effect (h : Inv inp s) {calls : CreateCalls}
    (hu : s.step inp (.create calls) = some u) : Effect inp s u (.create calls) := by
  rcases create_cases h hu with hsame | ⟨i, hmoves, hnone, hslept⟩
  · rw [hsame]
    exact Quiet.effect ⟨h.outer, fun j => .refl s j, rfl⟩ (by simp) (by simp)
  · have hawake : s.slept i ≠ true := fun hs => ((h.entries i).slept hs).2 hnone
    exact .moved i hmoves (hslept ▸ hawake) (fun hs => absurd hs hawake) (by simp) (by simp)

theorem exit_effect (h : Inv inp s) (hg : Graceful s) (hu : s.step inp .exitFunction = some u) :
    Effect inp s u .exitFunction := by
  simp only [step, exitStep, Option.ite_none_right_eq_some] at hu
  obtain ⟨⟨htest, -⟩, hu⟩ := hu
  have hnone : s.notified s.exits = none := by
    by_contra hsome
    exact absurd (h.outer.called s.exits hsome) (Nat.lt_irrefl _)
  split at hu
  · obtain rfl := Option.some.inj hu
    exact .called (exit_moves h hg htest) hnone (Function.update_self ..) rfl rfl
  · next hskip =>
    obtain rfl := Option.some.inj hu
    refine (exit_quiet h htest hskip).effect (by simp) fun _ hasleep => hskip ?_
    have he := h.entries s.exits
    have hi : s.teardown.tasks s.exits ≠ .absent := by
      rw [(he.asleep hasleep).1]
      decide
    exact ⟨(he.waiting hnone hi).used, he.exitFunc hi⟩

theorem step_effect {a : ProgramAct} (h : Inv inp s) (hg : Graceful s)
    (hu : s.step inp a = some u) : Effect inp s u a := by
  cases a with
  | create calls => exact create_effect h hu
  | startScheduler ret => exact (startScheduler_quiet h hu).effect (by simp) (by simp)
  | alarm => exact (alarm_quiet h hu).effect (by simp) (by simp)
  | sequencerPass => exact (sequencerPass_quiet h hu).effect (by simp) (by simp)
  | task i =>
    refine .moved i (task_moves h hg hu) (task_not_slept h hu) (fun hslept => .inl ?_)
      (by simp) (by simp)
    exact task_takes_post h hslept hu
  | interrupted i =>
    refine .moved i (interrupt_moves h hg hu) ?_ (fun _ => .inr rfl) (fun j hj => ?_) (by simp)
    · simp only [step, interruptStep, Option.ite_none_right_eq_some, Option.some.injEq] at hu
      obtain ⟨-, rfl⟩ := hu
      simp
    · exact (ProgramAct.interrupted.inj hj).symm
  | shutdown => exact (shutdown_quiet h hu).effect (by simp) (by simp)
  | exitFunction => exact exit_effect h hg hu
  | waitAll => exact (waitAll_quiet h hg hu).effect (by simp) (by simp)
  | osalDeinit c =>
    obtain ⟨houter, hkeeps, hcancelled⟩ := deinit_keeps h hu
    exact .kept houter hkeeps (fun hno => hcancelled fun i => hno c i rfl) (by simp) (by simp)
  | cancellation i =>
    rw [cancellation_none h hg] at hu
    cases hu

/- The next state is graceful exactly if the step is ready. -/
theorem step_graceful_iff {a : ProgramAct} (h : Inv inp s) (hg : Graceful s)
    (hu : s.step inp a = some u) : Graceful u ↔ CancelReady inp s a := by
  by_cases hcancel : ∃ c i, a = .osalDeinit c ∧ s.teardown.deinit c = .cancel i
  · obtain ⟨c, i, rfl, hpc⟩ := hcancel
    exact cancel_graceful_iff h hg hpc hu
  · have hno (c : Caller) (i : ℕ) (ha : a = .osalDeinit c) : s.teardown.deinit c ≠ .cancel i :=
      fun hpc => hcancel ⟨c, i, ha, hpc⟩
    refine iff_of_true ?_ ?_
    · cases step_effect h hg hu with
      | kept outer keeps cancelled signal call =>
        exact fun j => (keeps j).ended hg (congrFun (cancelled hno) j)
      | moved i moves awake woken signal call => exact moves.graceful hg
      | called moves first slept sem act => exact moves.graceful hg
    · cases a with
      | osalDeinit c => exact fun i hpc => absurd hpc (hno c i rfl)
      | _ => trivial

/-- If task `i` sleeps on since before the call of its exit function, it has a post,
or a signal is to come. -/
def Roused (s : Program) (rest : List ProgramAct) (i : ℕ) : Prop :=
  s.slept i = true → 0 < s.signalSem i ∨ .interrupted i ∈ rest

theorem Keeps.roused {j : ℕ} {a : ProgramAct} {rest : List ProgramAct} (hk : Keeps s u j)
    (he : Entry inp s j) (ha : a ≠ .interrupted j) :
    Roused u rest j ↔ Roused s (a :: rest) j := by
  unfold Roused
  rw [hk.slept, List.mem_cons, or_iff_right ha.symm]
  refine imp_congr_right fun hslept => ?_
  rw [hk.sem (he.slept hslept).2]

/- Only the call of an exit function asks for a wake-up that was not asked for. -/
theorem Effect.roused {a : ProgramAct} (he : Effect inp s u a) (h : Inv inp s)
    (rest : List ProgramAct) :
    (∀ i, Roused u rest i) ↔ CallReady s a rest ∧ ∀ i, Roused s (a :: rest) i := by
  cases he with
  | kept outer keeps cancelled signal call =>
    have hready : CallReady s a rest := fun ha hasleep => absurd hasleep (call ha)
    rw [and_iff_right hready]
    exact forall_congr' fun j => (keeps j).roused (h.entries j) (signal j)
  | moved i moves awake woken signal call =>
    have hready : CallReady s a rest := fun ha => absurd ha call
    rw [and_iff_right hready]
    refine forall_congr' fun j => ?_
    by_cases hj : j = i
    · rw [hj]
      refine iff_of_true (fun hslept => absurd hslept awake) fun hslept => ?_
      rcases woken hslept with hpos | rfl
      · exact .inl hpos
      · exact .inr List.mem_cons_self
    · exact (moves.others j hj).roused (h.entries j) fun ha => hj (signal j ha)
  | called moves first slept sem act =>
    subst act
    have hown : Roused u rest s.exits ↔ CallReady s .exitFunction rest := by
      rw [Roused, slept, sem]
      exact ⟨fun hroused _ => hroused, fun hready => hready rfl⟩
    have hother (j : ℕ) (hj : j ≠ s.exits) :
        Roused u rest j ↔ Roused s (.exitFunction :: rest) j :=
      (moves.others j hj).roused (h.entries j) (by simp)
    constructor
    · intro hroused
      refine ⟨hown.mp (hroused s.exits), fun j => ?_⟩
      by_cases hj : j = s.exits
      · rw [hj]
        exact fun hslept => absurd first ((h.entries s.exits).slept hslept).2
      · exact (hother j hj).mp (hroused j)
    · rintro ⟨hready, hroused⟩ j
      by_cases hj : j = s.exits
      · rw [hj]
        exact hown.mpr hready
      · exact (hother j hj).mpr (hroused j)

/-- In every run the shutdown is graceful exactly if every task that is asleep at
the call of its exit function has a post left or is hit by a signal later, and every
task has run as far as it can when it is cancelled, with the request not overwritten
and a post or a signal for each sleep on its way. -/
theorem shutdown_graceful_iff (inp : Inputs) (rtMaxPrio rtMinPrio : ℤ) (acts : List ProgramAct)
    (u : Program) (hr : run (step inp) (init rtMaxPrio rtMinPrio) acts = some u) :
    Throughout (step inp) Graceful (init rtMaxPrio rtMinPrio) acts ∧ Woken u ↔
      Onward (step inp) (Ready inp) (init rtMaxPrio rtMinPrio) acts := by
  have hnone (i : ℕ) : Roused (init rtMaxPrio rtMinPrio) acts i :=
    fun hslept => absurd hslept Bool.false_ne_true
  have hlast (s : Program) : Woken s ↔ ∀ i, Roused s [] i := by
    refine forall_congr' fun i => imp_congr_right fun _ => ?_
    rw [or_iff_left List.not_mem_nil]
  have hiff : Throughout (step inp) Graceful (init rtMaxPrio rtMinPrio) acts ∧ Woken u ↔
      Onward (step inp) (Ready inp) (init rtMaxPrio rtMinPrio) acts ∧
        ∀ i, Roused (init rtMaxPrio rtMinPrio) acts i :=
    throughout_and_iff_onward (Inv inp) (CancelReady inp) CallReady
      (fun s rest => ∀ i, Roused s rest i)
      (fun _ _ _ h hg hu => (step_effect h hg hu).inv h)
      (fun _ _ _ h hg hu => step_graceful_iff h hg hu)
      (fun _ _ _ rest h hg hu => (step_effect h hg hu).roused h rest) hlast
      (fun _ _ _ => Iff.rfl) (init_inv inp rtMaxPrio rtMinPrio)
      (init_graceful rtMaxPrio rtMinPrio) hr
  rw [hiff, and_iff_left hnone]

/-- No motion, no frames and nothing to save. -/
def idleInputs : Inputs :=
  ⟨fun _ => ⟨0, ⟨0, 0⟩⟩, fun _ => ⟨.none, .ignore⟩, fun _ => .failure,
    ⟨fun _ => .failure, fun _ => .failure⟩⟩

def startup : List ProgramAct :=
  (List.range 4).map (fun k => .create ⟨0, 0, 0, k⟩) ++ [.startScheduler 0]

/-- The signal comes before the first statement of any task, and the tasks run to
their ends before `osal_deinit`. -/
def earlySignal : List ProgramAct :=
  startup ++ .shutdown :: List.replicate 5 .exitFunction ++ List.replicate 4 (.task 0) ++
    List.replicate 5 (.task 1) ++ List.replicate 4 (.task 2) ++ List.replicate 12 (.task 3) ++
    List.replicate 19 (.osalDeinit .scheduler)

theorem shutdown_graceful_earlySignal :
    ∃ u, run (step idleInputs) (init 97 1) earlySignal = some u ∧
      Throughout (step idleInputs) Graceful (init 97 1) earlySignal ∧ Woken u := by
  have hfinal : (run (step idleInputs) (init 97 1) earlySignal).isSome := by decide +kernel
  obtain ⟨u, hu⟩ := Option.isSome_iff_exists.mp hfinal
  exact ⟨u, hu, (shutdown_graceful_iff idleInputs 97 1 earlySignal u hu).mpr (by decide +kernel)⟩

/-- Every task has gone to sleep before the signal comes. The alarm that ends the wait
of the scheduler leaves the detection task a post, and the others none. -/
def lateSignal : List ProgramAct :=
  startup ++ List.replicate 6 (.task 0) ++ List.replicate 7 (.task 1) ++
    List.replicate 9 (.task 2) ++ List.replicate 9 (.task 3) ++
    .alarm :: .sequencerPass :: .shutdown :: List.replicate 5 .exitFunction ++
    List.replicate 13 (.osalDeinit .scheduler)

/-- No post wakes the other three from the calls of the exit functions on, and each is
cancelled in its `sem_wait`, the NVM task with its file open. -/
theorem sleepers_cancelled :
    ∃ s, run (step idleInputs) (init 97 1) lateSignal = some s ∧
      ¬ (Throughout (step idleInputs) Graceful (init 97 1) lateSignal ∧ Woken s) ∧
      ∀ i < 4, 0 < i → s.teardown.tasks i = .running ∧ s.slept i = true ∧ s.signalSem i = 0 ∧
        s.teardown.cancelled i = 1 ∧ s.taskStep idleInputs i = none := by
  have hfinal : (run (step idleInputs) (init 97 1) lateSignal).map (fun s =>
      (List.range 3).map fun i => (s.teardown.tasks (i + 1), s.slept (i + 1), s.signalSem (i + 1),
        s.teardown.cancelled (i + 1), (s.taskStep idleInputs (i + 1)).isNone)) =
      some (List.replicate 3 (.running, true, 0, 1, true)) := by
    decide +kernel
  obtain ⟨s, hs, hvalues⟩ := Option.map_eq_some_iff.mp hfinal
  have hall (i : ℕ) (hi : i < 4) (hpos : 0 < i) : s.teardown.tasks i = .running ∧
      s.slept i = true ∧ s.signalSem i = 0 ∧ s.teardown.cancelled i = 1 ∧
      s.taskStep idleInputs i = none := by
    obtain ⟨k, rfl⟩ : ∃ k, i = k + 1 := ⟨i - 1, by omega⟩
    have hk : k < 3 := by omega
    have hentry := congrArg (fun l => l[k]?) hvalues
    simp only [List.getElem?_map, List.getElem?_range hk, List.getElem?_replicate, if_pos hk,
      Option.map_some, Option.some.injEq, Prod.mk.injEq, Option.isNone_iff_eq_none] at hentry
    exact hentry
  refine ⟨s, hs, fun h => ?_, hall⟩
  obtain ⟨-, hslept, hzero, -⟩ := hall 3 (by decide) (by decide)
  have hpos := h.2 3 hslept
  rw [hzero] at hpos
  exact Nat.lt_irrefl 0 hpos

end MotionDetector.Shutdown.Program
