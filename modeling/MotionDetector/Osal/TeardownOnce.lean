import MotionDetector.Osal.Teardown

/-!
# What the teardowns touch

Every live task is deleted once and nothing else is, exactly if the entries that
a teardown comes to are of tasks that nobody deleted before. A run to the end of a
loop gives all entries of the table a live task, or the loop has touched one
without.
-/

namespace MotionDetector.Osal.Teardown

open Transition

variable {s t : Teardown}

/-- Each live task is torn down once, by the end of the loop at the latest, and
nothing else is. -/
structure TornDownOnce (s : Teardown) : Prop where
  absent : ∀ i, s.tasks i = .absent → s.destroyed i = 0 ∧ s.cancelled i = 0
  deleted : ∀ i, (s.tasks i).DeletedItself → s.destroyed i = 1 ∧ s.cancelled i = 0
  live : ∀ i, s.Live i → s.destroyed i ≤ 1 ∧ s.cancelled i ≤ 1
  finished : ∀ c, (s.deinit c).Over → ∀ i, s.Live i → s.destroyed i = 1 ∧ s.cancelled i = 1

/-- A teardown comes to an entry whose task was created, has not deleted itself
and was not deleted by the other teardown, and a task that deletes itself was not
deleted by any. -/
def Sole (s : Teardown) : TeardownAct → Prop
  | .osalDeinit c => ∀ i < MAX_TASKS, s.deinit c = .clear i → s.Live i ∧ s.torn c.other i = false
  | .taskClear i => ∀ c, s.torn c i = false
  | _ => True

/-- The counts of an entry fit its task. -/
structure Once (p : TaskPc) (destroyed cancelled : ℕ) : Prop where
  absent : p = .absent → destroyed = 0 ∧ cancelled = 0
  deleted : p.DeletedItself → destroyed = 1 ∧ cancelled = 0
  live : p ≠ .absent → ¬ p.DeletedItself → destroyed ≤ 1 ∧ cancelled ≤ 1

theorem Once.of_deleted {p : TaskPc} {d n : ℕ} (hdel : p.DeletedItself) (hd : d = 1)
    (hn : n = 0) : Once p d n := by
  apply Once.mk
  · rintro rfl
    exact absurd hdel (by decide)
  · exact fun _ => ⟨hd, hn⟩
  · exact fun _ hlive => absurd hdel hlive

theorem Once.of_live {p : TaskPc} {d n : ℕ} (hcreated : p ≠ .absent) (hdel : ¬ p.DeletedItself)
    (hd : d ≤ 1) (hn : n ≤ 1) : Once p d n := by
  apply Once.mk
  · exact fun habsent => absurd habsent hcreated
  · exact fun hd => absurd hd hdel
  · exact fun _ _ => ⟨hd, hn⟩

/- Where a loop is over, one of the two calls went through the whole table. -/
theorem Inv.swept (h : Inv s) {c : Caller} (hover : (s.deinit c).Over) :
    ∃ c', (∀ i < MAX_TASKS, s.torn c' i = true) ∧ ∀ i, s.deinit c' ≠ .cancel i := by
  cases hinit : s.osal.osInitialized with
  | true =>
    have hpos := h.position c
    rw [hinit] at hpos
    have htorn := hpos.torn_of_lt rfl
    refine ⟨c, fun i hi => htorn i ?_, fun i hi => ?_⟩
    · rcases hover with hpc | hpc | hpc <;> rwa [hpc]
    · rw [hi] at hover
      rcases hover with hpc | hpc | hpc <;> cases hpc
  | false =>
    obtain ⟨c', hret, htorn⟩ := h.uninitialized hinit
    exact ⟨c', htorn, by simp [hret]⟩

theorem Inv.live_lt (h : Inv s) {i : ℕ} (hi : s.tasks i ≠ .absent) : i < MAX_TASKS := by
  by_contra hge
  exact hi (h.fresh i (h.room.trans (Nat.le_of_not_lt hge)))

theorem destroyed_of_torn (h : Inv s) {c : Caller} {i : ℕ} (htorn : s.torn c i = true) :
    1 + (s.torn c.other i).toNat + (if (s.tasks i).DeletedItself then 1 else 0) =
      s.destroyed i := by
  have hsum := h.destroyed i
  rw [callers_sum (fun c => (s.torn c i).toNat) c, htorn] at hsum
  exact hsum.symm

theorem tornDownOnce_iff (h : Inv s) :
    TornDownOnce s ↔ ∀ i, Once (s.tasks i) (s.destroyed i) (s.cancelled i) := by
  constructor
  · intro honce i
    exact ⟨honce.absent i, honce.deleted i, fun hcreated hdel => honce.live i ⟨hcreated, hdel⟩⟩
  · intro honce
    have hlive (i : ℕ) (hi : s.Live i) := (honce i).live hi.1 hi.2
    refine ⟨fun i => (honce i).absent, fun i => (honce i).deleted, hlive, ?_⟩
    intro c hover i hi
    obtain ⟨c', htorn, hpc⟩ := h.swept hover
    have hlt := h.live_lt hi.1
    have hdestroyed := destroyed_of_torn h (htorn i hlt)
    have hcancelled := h.cancelled i
    rw [callers_sum (fun c => (s.didCancel c i).toNat) c'] at hcancelled
    have hdid : s.didCancel c' i = true := by simp [didCancel, htorn i hlt, hpc i]
    simp only [hdid, Bool.toNat_true] at hcancelled
    have := hlive i hi
    omega

theorem Inv.torn_lt (h : Inv s) {c : Caller} {i : ℕ} (htorn : s.torn c i = true) :
    i < MAX_TASKS :=
  Nat.lt_of_lt_of_le ((h.position c).torn_lt i htorn) (h.position c).bound

/- An entry past the table belongs to no task and is not torn down. -/
theorem Inv.once_beyond (h : Inv s) {i : ℕ} (hi : MAX_TASKS ≤ i) :
    Once (s.tasks i) (s.destroyed i) (s.cancelled i) := by
  have habsent := h.fresh i (h.room.trans hi)
  have hno (c : Caller) : s.torn c i = false := by
    by_contra htrue
    exact absurd (h.torn_lt (by simpa using htrue)) (Nat.not_lt_of_le hi)
  have hdestroyed := h.destroyed i
  have hcancelled := h.cancelled i
  simp only [didCancel, hno, Bool.toNat_false, Bool.false_and] at hdestroyed hcancelled
  rw [habsent, if_neg (by decide)] at hdestroyed
  refine ⟨fun _ => ⟨hdestroyed, hcancelled⟩, fun hdel => ?_,
    fun hcreated => absurd habsent hcreated⟩
  rw [habsent] at hdel
  exact absurd hdel (by decide)

/-- At the end of a loop every live task has been torn down once, and nothing else
has, exactly if all entries belong to live tasks and the other call has torn down
none of them. -/
theorem Inv.finished_once_iff (h : Inv s) {c : Caller} (hover : (s.deinit c).Over) :
    TornDownOnce s ↔
      ∃ c', ∀ i < MAX_TASKS, s.Live i ∧ s.torn c' i = true ∧ s.torn c'.other i = false := by
  constructor
  · intro honce
    obtain ⟨c', htorn, -⟩ := h.swept hover
    refine ⟨c', fun i hi => ?_⟩
    have hdestroyed := destroyed_of_torn h (htorn i hi)
    have hcreated : s.tasks i ≠ .absent := fun habsent => by
      have := (honce.absent i habsent).1
      omega
    have hdel : ¬ (s.tasks i).DeletedItself := fun hdel => by
      have := (honce.deleted i hdel).1
      rw [if_pos hdel] at hdestroyed
      omega
    have hle := (honce.live i ⟨hcreated, hdel⟩).1
    refine ⟨⟨hcreated, hdel⟩, htorn i hi, ?_⟩
    by_contra htrue
    rw [show s.torn c'.other i = true by simpa using htrue] at hdestroyed
    simp only [Bool.toNat_true] at hdestroyed
    omega
  · rintro ⟨c', hall⟩
    rw [tornDownOnce_iff h]
    intro i
    by_cases hi : i < MAX_TASKS
    · obtain ⟨⟨hcreated, hdel⟩, htorn, hother⟩ := hall i hi
      have hdestroyed := destroyed_of_torn h htorn
      rw [hother, if_neg hdel] at hdestroyed
      have hcancelled := h.cancelled i
      rw [callers_sum (fun c => (s.didCancel c i).toNat) c'] at hcancelled
      have hno : s.didCancel c'.other i = false := by simp [didCancel, hother]
      have hbool := Bool.toNat_le (s.didCancel c' i)
      simp only [hno, Bool.toNat_false] at hdestroyed hcancelled
      exact .of_live hcreated hdel (by omega) (by omega)
    · exact h.once_beyond (Nat.le_of_not_lt hi)

/- Entries that a step does not touch stay as they are. -/
theorem once_update {p : TaskPc} {d n : ℕ} {i : ℕ} (ht : Inv t)
    (honce : ∀ j, Once (s.tasks j) (s.destroyed j) (s.cancelled j))
    (htasks : t.tasks = Function.update s.tasks i p)
    (hdestroyed : t.destroyed = Function.update s.destroyed i d)
    (hcancelled : t.cancelled = Function.update s.cancelled i n) :
    TornDownOnce t ↔ Once p d n := by
  rw [tornDownOnce_iff ht, htasks, hdestroyed, hcancelled]
  constructor
  · intro h
    have := h i
    simpa only [Function.update_self] using this
  · intro h j
    by_cases hj : j = i
    · subst hj
      simpa only [Function.update_self] using h
    · simp only [Function.update_of_ne hj]
      exact honce j

theorem clear_once_iff (h : Inv s) {c : Caller} {i : ℕ} (hpc : s.deinit c = .clear i)
    (honce : Once (s.tasks i) (s.destroyed i) (s.cancelled i)) :
    Once (s.tasks i) (s.destroyed i + 1) (s.cancelled i) ↔
      s.Live i ∧ s.torn c.other i = false := by
  have hsum := h.destroyed i
  rw [callers_sum (fun c => (s.torn c i).toNat) c, h.not_torn hpc] at hsum
  constructor
  · intro hafter
    have hcreated : s.tasks i ≠ .absent := fun habsent => by
      have := (hafter.absent habsent).1
      omega
    have hdel : ¬ (s.tasks i).DeletedItself := fun hdel => by
      have := (honce.deleted hdel).1
      have := (hafter.deleted hdel).1
      omega
    refine ⟨⟨hcreated, hdel⟩, ?_⟩
    have hle := (hafter.live hcreated hdel).1
    cases htorn : s.torn c.other i with
    | false => rfl
    | true =>
      rw [htorn] at hsum
      simp only [Bool.toNat_true] at hsum
      omega
  · rintro ⟨⟨hcreated, hdel⟩, htorn⟩
    rw [htorn, if_neg hdel] at hsum
    simp only [Bool.toNat_false] at hsum
    exact .of_live hcreated hdel (by omega) (honce.live hcreated hdel).2

theorem cancel_once (h : Inv s) {c : Caller} {i : ℕ} (hpc : s.deinit c = .cancel i)
    (honce : Once (s.tasks i) (s.destroyed i) (s.cancelled i)) :
    Once (s.tasks i) (s.destroyed i) (s.cancelled i + 1) := by
  have hdestroyed := destroyed_of_torn h ((h.position c).cancel i hpc)
  have hcreated : s.tasks i ≠ .absent := fun habsent => by
    have := (honce.absent habsent).1
    omega
  have hdel : ¬ (s.tasks i).DeletedItself := fun hdel => by
    have := (honce.deleted hdel).1
    rw [if_pos hdel] at hdestroyed
    omega
  have hlive := honce.live hcreated hdel
  have hother : s.torn c.other i = false := by
    cases htorn : s.torn c.other i with
    | false => rfl
    | true =>
      rw [htorn] at hdestroyed
      simp only [Bool.toNat_true] at hdestroyed
      omega
  have hcancelled := h.cancelled i
  rw [callers_sum (fun c => (s.didCancel c i).toNat) c] at hcancelled
  have hown : s.didCancel c i = false := by simp [didCancel, hpc]
  have hrest : s.didCancel c.other i = false := by simp [didCancel, hother]
  rw [hown, hrest] at hcancelled
  simp only [Bool.toNat_false] at hcancelled
  exact .of_live hcreated hdel hlive.1 (by omega)

theorem taskClear_once_iff (h : Inv s) {i : ℕ} (hi : s.tasks i = .deleting) :
    Once .exiting (s.destroyed i + 1) (s.cancelled i) ↔ ∀ c, s.torn c i = false := by
  have hsum := h.destroyed i
  rw [if_neg (by rw [hi]; decide)] at hsum
  constructor
  · intro hafter c
    have := (hafter.deleted (.inl rfl)).1
    rw [callers_sum (fun c => (s.torn c i).toNat) c] at hsum
    cases htorn : s.torn c i with
    | false => rfl
    | true =>
      rw [htorn] at hsum
      simp only [Bool.toNat_true] at hsum
      omega
  · intro htorn
    have hcancelled := h.cancelled i
    simp only [didCancel, htorn, Bool.false_and, Bool.toNat_false] at hcancelled hsum
    exact .of_deleted (.inl rfl) (by omega) hcancelled

theorem Once.of_class {p q : TaskPc} {d n : ℕ} (h : Once p d n)
    (habsent : q = .absent ↔ p = .absent) (hdel : q.DeletedItself ↔ p.DeletedItself) :
    Once q d n :=
  ⟨fun hq => h.absent (habsent.mp hq), fun hq => h.deleted (hdel.mp hq),
    fun hq hq' => h.live (fun hp => hq (habsent.mpr hp)) fun hp => hq' (hdel.mpr hp)⟩

/- Steps that delete nothing keep the counts, and a task in its class. -/
theorem once_same (hs : Inv s) (ht : Inv t) (honce : TornDownOnce s)
    (htasks : ∀ i, Once (s.tasks i) (s.destroyed i) (s.cancelled i) →
      Once (t.tasks i) (s.destroyed i) (s.cancelled i))
    (hdestroyed : t.destroyed = s.destroyed) (hcancelled : t.cancelled = s.cancelled) :
    TornDownOnce t := by
  rw [tornDownOnce_iff hs] at honce
  rw [tornDownOnce_iff ht, hdestroyed, hcancelled]
  exact fun i => htasks i (honce i)

theorem setTask_once {i : ℕ} {p : TaskPc} (hs : Inv s) (ht : Inv (s.setTask i p))
    (honce : TornDownOnce s) (habsent : p = .absent ↔ s.tasks i = .absent)
    (hdel : p.DeletedItself ↔ (s.tasks i).DeletedItself) : TornDownOnce (s.setTask i p) := by
  apply once_same hs ht honce
  · intro j hj
    by_cases heq : j = i
    · subst heq
      simp only [setTask, Function.update_self]
      exact hj.of_class habsent hdel
    · simp only [setTask, Function.update_of_ne heq]
      exact hj
  · rfl
  · rfl

theorem create_once {c : Create} {calls : CreateCalls} (hs : Inv s) (ht : Inv t)
    (honce : TornDownOnce s) (hstep : s.step (.create c calls) = some t) : TornDownOnce t := by
  simp only [step] at hstep
  split at hstep
  · next hmain =>
    by_cases hadm : Admitted c s.osal
    · have hfresh := hs.fresh s.osal.taskIdx.toNat le_rfl
      rw [osalTaskCreate_admitted calls hadm] at hstep
      obtain rfl := Option.some.inj hstep
      refine once_same hs ht honce (fun i hi => ?_) rfl rfl
      simp only
      split
      · by_cases heq : i = s.osal.taskIdx.toNat
        · subst heq
          have hzero := hi.absent hfresh
          rw [Function.update_self]
          exact .of_live (by decide) (by decide) (by omega) (by omega)
        · rwa [Function.update_of_ne heq]
      · exact hi
    · rw [osalTaskCreate_refused calls hadm] at hstep
      obtain rfl := Option.some.inj hstep
      exact honce
  · cases hstep

theorem deinit_once_iff {c : Caller} (hs : Inv s) (ht : Inv t) (honce : TornDownOnce s)
    (hstep : s.deinitStep c = some t) : TornDownOnce t ↔ s.Sole (.osalDeinit c) := by
  have hall := (tornDownOnce_iff hs).mp honce
  simp only [deinitStep] at hstep
  simp only [Sole]
  cases hpc : s.deinit c with
  | before => simp [hpc] at hstep
  | clear i =>
    simp only [hpc, Option.some.injEq] at hstep
    subst hstep
    rw [once_update ht hall (Function.update_eq_self i s.tasks).symm rfl
      (Function.update_eq_self i s.cancelled).symm]
    rw [clear_once_iff hs hpc (hall i)]
    constructor
    · rintro h j - heq
      obtain rfl := DeinitPc.clear.inj heq
      exact h
    · exact fun h => h i ((hs.position c).inside i hpc) rfl
  | cancel i =>
    simp only [hpc, Option.some.injEq] at hstep
    subst hstep
    rw [once_update ht hall (Function.update_eq_self i s.tasks).symm
      (Function.update_eq_self i s.destroyed).symm rfl]
    exact iff_of_true (cancel_once hs hpc (hall i)) nofun
  | test =>
    simp only [hpc, Option.some.injEq] at hstep
    subst hstep
    exact iff_of_true (once_same hs ht honce (fun _ h => h) rfl rfl) nofun
  | entry i =>
    simp only [hpc] at hstep
    split at hstep
    · obtain rfl := Option.some.inj hstep
      exact iff_of_true (once_same hs ht honce (fun _ h => h) rfl rfl) nofun
    · obtain rfl := Option.some.inj hstep
      exact iff_of_true (once_same hs ht honce (fun _ h => h) rfl rfl) nofun
  | kill =>
    simp only [hpc, Option.some.injEq] at hstep
    subst hstep
    exact iff_of_true (once_same hs ht honce (fun _ h => h) rfl rfl) nofun
  | unset =>
    simp only [hpc, Option.some.injEq] at hstep
    subst hstep
    exact iff_of_true (once_same hs ht honce (fun _ h => h) rfl rfl) nofun
  | returned => simp [hpc] at hstep

/- The tables, the main thread and the calls apart, a step changes nothing. -/
theorem wait_frame (hstep : s.waitStep = some t) :
    t.tasks = s.tasks ∧ t.destroyed = s.destroyed ∧ t.cancelled = s.cancelled := by
  unfold waitStep at hstep
  split at hstep
  · cases hstep
  · split at hstep <;> (obtain rfl := Option.some.inj hstep; exact ⟨rfl, rfl, rfl⟩)
  · split at hstep <;> (obtain rfl := Option.some.inj hstep; exact ⟨rfl, rfl, rfl⟩)
  · split at hstep
    · cases hstep
    · obtain rfl := Option.some.inj hstep
      exact ⟨rfl, rfl, rfl⟩
  · cases hstep

theorem step_once_iff {a : TeardownAct} (hs : Inv s) (ht : Inv t) (honce : TornDownOnce s)
    (hstep : s.step a = some t) : TornDownOnce t ↔ s.Sole a := by
  have hsame (htasks : t.tasks = s.tasks) (hdestroyed : t.destroyed = s.destroyed)
      (hcancelled : t.cancelled = s.cancelled) : TornDownOnce t :=
    once_same hs ht honce (fun i hi => by rwa [htasks]) hdestroyed hcancelled
  cases a with
  | create c calls => exact iff_of_true (create_once hs ht honce hstep) trivial
  | startScheduler ret =>
    simp only [step] at hstep
    split at hstep
    · split at hstep
      · obtain rfl := Option.some.inj hstep
        exact iff_of_true (hsame rfl rfl rfl) trivial
      · cases hstep
    · cases hstep
  | alarm =>
    obtain rfl := Option.some.inj hstep
    exact iff_of_true (hsame rfl rfl rfl) trivial
  | sequencerPass =>
    simp only [step, Option.ite_none_right_eq_some, Option.some.injEq] at hstep
    obtain ⟨-, rfl⟩ := hstep
    exact iff_of_true (hsame rfl rfl rfl) trivial
  | suspend id =>
    simp only [step, Option.ite_none_right_eq_some, Option.some.injEq] at hstep
    obtain ⟨-, rfl⟩ := hstep
    exact iff_of_true (hsame rfl rfl rfl) trivial
  | wake id =>
    simp only [step, Option.ite_none_right_eq_some] at hstep
    obtain ⟨o, -, rfl⟩ := Option.map_eq_some_iff.mp hstep.2
    exact iff_of_true (hsame rfl rfl rfl) trivial
  | shutdown =>
    simp only [step, Option.ite_none_right_eq_some, Option.some.injEq] at hstep
    obtain ⟨-, rfl⟩ := hstep
    exact iff_of_true (hsame rfl rfl rfl) trivial
  | waitAll =>
    obtain ⟨htasks, hdestroyed, hcancelled⟩ := wait_frame hstep
    exact iff_of_true (hsame htasks hdestroyed hcancelled) trivial
  | osalDeinit c => exact deinit_once_iff hs ht honce hstep
  | taskDelete i =>
    simp only [step, Option.ite_none_right_eq_some, Option.some.injEq] at hstep
    obtain ⟨hi, rfl⟩ := hstep
    refine iff_of_true (setTask_once hs ht honce ?_ ?_) trivial
    · rw [hi]
      split <;> decide
    · rw [hi]
      split <;> decide
  | taskClear i =>
    simp only [step, Option.ite_none_right_eq_some, Option.some.injEq] at hstep
    obtain ⟨hi, rfl⟩ := hstep
    rw [once_update ht ((tornDownOnce_iff hs).mp honce) rfl rfl
      (Function.update_eq_self i s.cancelled).symm]
    exact taskClear_once_iff hs hi
  | taskExit i =>
    simp only [step, Option.ite_none_right_eq_some, Option.some.injEq] at hstep
    obtain ⟨hi, rfl⟩ := hstep
    refine iff_of_true (setTask_once hs ht honce ?_ ?_) trivial
    · rw [hi]
      decide
    · rw [hi]
      decide
  | cancellation i =>
    simp only [step, Option.ite_none_right_eq_some, Option.some.injEq] at hstep
    obtain ⟨hi, rfl⟩ := hstep
    refine iff_of_true (setTask_once hs ht honce ?_ ?_) trivial
    · rw [hi.1]
      decide
    · rw [hi.1]
      decide

theorem init_once (rtMaxPrio rtMinPrio : ℤ) : TornDownOnce (init rtMaxPrio rtMinPrio) := by
  rw [tornDownOnce_iff (init_inv rtMaxPrio rtMinPrio)]
  exact fun _ => ⟨fun _ => ⟨rfl, rfl⟩, nofun, fun h => absurd rfl h⟩

instance (s : Teardown) (i : ℕ) : Decidable (s.Live i) := inferInstanceAs (Decidable (_ ∧ _))

instance (s : Teardown) : DecidablePred s.InTable
  | .create _ _ => inferInstanceAs (Decidable (_ < _))
  | .startScheduler _ | .alarm | .sequencerPass | .suspend _ | .wake _ | .shutdown | .waitAll
  | .osalDeinit _ | .taskDelete _ | .taskClear _ | .taskExit _ | .cancellation _ =>
    inferInstanceAs (Decidable True)

instance (s : Teardown) : DecidablePred s.Sole
  | .osalDeinit _ => inferInstanceAs (Decidable (∀ i < MAX_TASKS, _ → _ ∧ _))
  | .taskClear i =>
    decidable_of_iff (s.torn .main i = false ∧ s.torn .scheduler i = false)
      ⟨fun h c => by cases c <;> simp [h], fun h => ⟨h _, h _⟩⟩
  | .create _ _ | .startScheduler _ | .alarm | .sequencerPass | .suspend _ | .wake _ | .shutdown
  | .waitAll | .taskDelete _ | .taskExit _ | .cancellation _ => inferInstanceAs (Decidable True)

/- A teardown is sound as long as it only comes to entries of its own. -/
theorem teardown_once_iff {rtMaxPrio rtMinPrio : ℤ} {acts : List TeardownAct}
    (hr : (run step (init rtMaxPrio rtMinPrio) acts).isSome) :
    (Along step (fun s a => s.InTable a ∧ s.Sole a) (init rtMaxPrio rtMinPrio) acts →
      Throughout step TornDownOnce (init rtMaxPrio rtMinPrio) acts) ∧
    (Along step InTable (init rtMaxPrio rtMinPrio) acts →
      Throughout step TornDownOnce (init rtMaxPrio rtMinPrio) acts →
      Along step Sole (init rtMaxPrio rtMinPrio) acts) := by
  have hiff (htable : Along step InTable (init rtMaxPrio rtMinPrio) acts) :
      Throughout step TornDownOnce (init rtMaxPrio rtMinPrio) acts ↔
        Along step Sole (init rtMaxPrio rtMinPrio) acts := by
    refine throughout_iff_along_within Inv ?_ ?_ (init_inv _ _) (init_once _ _) hr htable
    · intro s a t hs _ htable _ ht
      exact step_inv hs htable ht
    · intro s a t hs honce htable ht
      exact step_once_iff hs (step_inv hs htable ht) honce ht
  constructor
  · intro h
    obtain ⟨htable, hsole⟩ := along_and.mp h
    exact (hiff htable).mpr hsole
  · intro htable honce
    exact (hiff htable).mp honce

/-- In a run to the end of a loop each live task has been torn down once, and
nothing else has, exactly if all entries of the table have a task, none has deleted
itself and one of the two calls has torn down all of them, the other none. -/
theorem finished_once_iff {rtMaxPrio rtMinPrio : ℤ} {acts : List TeardownAct} {c : Caller}
    (hr : run step (init rtMaxPrio rtMinPrio) acts = some t)
    (htable : Along step InTable (init rtMaxPrio rtMinPrio) acts) (hover : (t.deinit c).Over) :
    TornDownOnce t ↔
      ∃ c', ∀ i < MAX_TASKS, t.Live i ∧ t.torn c' i = true ∧ t.torn c'.other i = false := by
  have hinv : Inv t := run_inv_along Inv (fun _ _ _ hs hg ht => step_inv hs hg ht)
    (init_inv rtMaxPrio rtMinPrio) htable hr
  exact hinv.finished_once_iff hover

def createTask (name : String) (priority : UInt8) (periodMs : UInt32) (address : ℕ) :
    TeardownAct :=
  .create ⟨name, 0, priority, some address, some (address + 1), periodMs, 0⟩ ⟨0, 0, 0, address⟩

/-- The tasks of `main`, and a signal. -/
def mainThenSignal : List TeardownAct :=
  [createTask "detection" 95 11 100, createTask "camera" 90 22 200,
    createTask "transcoder" 80 66 300, createTask "nvm" 75 66 400, .startScheduler 0, .shutdown]

/- With a fifth task the table is full. -/
theorem teardown_once_fullTable :
    Throughout step TornDownOnce (init 97 1)
      (createTask "fifth" 75 66 500 :: mainThenSignal ++
        List.replicate 19 (.osalDeinit .scheduler)) :=
  (teardown_once_iff (by decide +kernel)).1 (by decide +kernel)

/- With the four tasks of `main` the loop comes to an entry without one. -/
theorem teardown_touches_unused :
    ∃ s, run step (init 97 1) (mainThenSignal ++ List.replicate 16 (.osalDeinit .scheduler)) =
        some s ∧
      s.tasks 4 = .absent ∧ s.destroyed 4 = 1 ∧ s.cancelled 4 = 1 ∧ ¬ TornDownOnce s := by
  have hfinal : (run step (init 97 1)
      (mainThenSignal ++ List.replicate 16 (.osalDeinit .scheduler))).map
      (fun s => (s.tasks 4, s.destroyed 4, s.cancelled 4)) = some (.absent, 1, 1) := by
    decide +kernel
  obtain ⟨s, hs, hvalues⟩ := Option.map_eq_some_iff.mp hfinal
  simp only [Prod.mk.injEq] at hvalues
  obtain ⟨hpc, hdestroyed, hcancelled⟩ := hvalues
  refine ⟨s, hs, hpc, hdestroyed, hcancelled, fun honce => ?_⟩
  have hzero := (honce.absent 4 hpc).1
  rw [hdestroyed] at hzero
  cases hzero

end MotionDetector.Osal.Teardown
