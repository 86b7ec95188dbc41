import MotionDetector.Lib.Transition
import MotionDetector.Osal.TaskEffects
import Mathlib.Data.List.Range

/-!
# The task table

Creation, deletion, suspension and sequencer passes in any order, with ids of
created tasks. The table stays in step with the tasks exactly as long as no
registered task is started: `osal_task_start` marks the entry behind the last
registered one.
-/

namespace MotionDetector.Osal

open Transition

structure TableSystem where
  osal : OsalState
  created : List ℕ
  deleted : List ℕ

def TableSystem.init (rtMaxPrio rtMinPrio : ℤ) : TableSystem :=
  ⟨.init rtMaxPrio rtMinPrio, [], []⟩

inductive TableAct where
  | create (c : Create) (calls : CreateCalls)
  | startScheduler (ret : ℤ)
  | start (id : UInt8)
  | suspend (id : UInt8)
  | wake (id : UInt8)
  | setPeriod (id : UInt8) (periodMs : UInt32)
  | delete (id : UInt8)
  | alarm
  | sequencerPass

/- A call with an id that no task was created with is not a step, nor is a
successful creation after `MAX_TASKS` of them. -/
def tableStep (s : TableSystem) : TableAct → Option TableSystem
  | .create c calls =>
    match s.osal.osalTaskCreate c calls with
    | (.success, some id, osal) =>
      if s.created.length < MAX_TASKS then
        some { s with osal := osal, created := s.created ++ [id.toNat] }
      else none
    | (_, _, osal) => some { s with osal := osal }
  | .startScheduler ret => some { s with osal := (s.osal.osalStartScheduler ret).2 }
  | .start id =>
    if id.toNat ∈ s.created then some { s with osal := (s.osal.osalTaskStart id).2 } else none
  | .suspend id =>
    if id.toNat ∈ s.created then some { s with osal := s.osal.osalTaskSuspend id } else none
  | .wake id =>
    if id.toNat ∈ s.created then (s.osal.semWait id).map fun osal => { s with osal := osal }
    else none
  | .setPeriod id periodMs =>
    if id.toNat ∈ s.created then some { s with osal := s.osal.osalTaskSetPeriod id periodMs }
    else none
  | .delete id =>
    if id.toNat ∈ s.created then
      some { s with osal := s.osal.osalTaskDelete id, deleted := s.deleted ++ [id.toNat] }
    else none
  | .alarm => some { s with osal := s.osal.signalSched.incTick }
  | .sequencerPass => some { s with osal := s.osal.osalTaskGenericSequencer }

def TableSystem.Live (s : TableSystem) (i : ℕ) : Prop := i ∈ s.created ∧ i ∉ s.deleted

instance (s : TableSystem) (i : ℕ) : Decidable (s.Live i) :=
  inferInstanceAs (Decidable (_ ∧ _))

structure TableOk (s : TableSystem) : Prop where
  live : ∀ i < MAX_TASKS, s.osal.taskStates i ≠ .unused ↔ s.Live i
  starts : ∀ c ∈ s.osal.starts, c.Exact
  bounds : ∀ i ∈ s.osal.touched, i < MAX_TASKS

/-- No registered task is started, by a call or by the sequencer, and no
deleted one is suspended. -/
def NoRestart (s : TableSystem) : TableAct → Prop
  | .start _ => False
  | .suspend id => id.toNat ∉ s.deleted
  | .sequencerPass => ∀ i < MAX_TASKS, ¬ s.osal.Due i
  | _ => True

/-! ### The invariant -/

structure TableInv (s : TableSystem) : Prop where
  initialized : s.osal.osInitialized = true
  created : s.created = List.range s.osal.taskIdx.toNat
  room : s.osal.taskIdx.toNat ≤ MAX_TASKS
  deleted : ∀ i ∈ s.deleted, i ∈ s.created
  sems : ∀ i, (s.osal.sequencers i).signalSem ≤ 1
  fresh : ∀ i, s.osal.taskIdx.toNat ≤ i → (s.osal.sequencers i).signalSem = 0

theorem TableInv.lt {s : TableSystem} (h : TableInv s) {i : ℕ} (hi : i ∈ s.created) :
    i < s.osal.taskIdx.toNat := by
  simpa [h.created] using hi

theorem TableInv.lt_max {s : TableSystem} (h : TableInv s) {i : ℕ} (hi : i ∈ s.created) :
    i < MAX_TASKS :=
  Nat.lt_of_lt_of_le (h.lt hi) h.room

theorem TableInv.unregistered {s : TableSystem} (h : TableInv s) :
    ¬ s.Live s.osal.taskIdx.toNat := fun hl => Nat.lt_irrefl _ (h.lt hl.1)

theorem init_tableInv (rtMaxPrio rtMinPrio : ℤ) :
    TableInv (.init rtMaxPrio rtMinPrio) := by
  apply TableInv.mk <;> simp [TableSystem.init, OsalState.init]

theorem init_tableOk (rtMaxPrio rtMinPrio : ℤ) : TableOk (.init rtMaxPrio rtMinPrio) := by
  apply TableOk.mk <;>
    simp [TableSystem.init, OsalState.init, OsalState.taskStates, TableSystem.Live]

theorem TableOk.update {s t : TableSystem} (h : TableOk s) {id : ℕ} {state : TaskState}
    (hid : id < MAX_TASKS)
    (hstates : t.osal.taskStates = Function.update s.osal.taskStates id state)
    (hstate : state ≠ .unused ↔ t.Live id) (hlive : ∀ j, j ≠ id → (t.Live j ↔ s.Live j))
    (htouched : ∀ i ∈ t.osal.touched, i ∈ s.osal.touched ∨ i = id)
    (hstarts : ∀ c ∈ t.osal.starts, c ∈ s.osal.starts ∨ c.Exact) : TableOk t := by
  apply TableOk.mk
  · intro i hi
    rw [hstates]
    by_cases hne : i = id
    · rw [hne, Function.update_self]
      exact hstate
    · rw [Function.update_of_ne hne, hlive i hne]
      exact h.live i hi
  · intro c hc
    rcases hstarts c hc with hc | hc
    · exact h.starts c hc
    · exact hc
  · intro i hi
    rcases htouched i hi with hi | rfl
    · exact h.bounds i hi
    · exact hid

theorem TableOk.not_bad {s : TableSystem} (h : TableOk s) : ¬ s.osal.Bad := by
  rintro (⟨c, hc, hbad⟩ | ⟨i, hi, hbad⟩)
  · exact hbad (h.starts c hc)
  · exact absurd (h.bounds i hi) (Nat.not_lt.mpr hbad)

/- A started entry that is registered shows in the log. -/
theorem restart_bad {s : TableSystem} (hs : TableInv s) (hok : TableOk s) {id : UInt8}
    (hid : id.toNat < s.osal.taskIdx.toNat) {o : OsalState}
    (hinit : o.osInitialized = s.osal.osInitialized) (hidx : o.taskIdx = s.osal.taskIdx)
    (hseq : o.sequencers = s.osal.sequencers) : (o.osalTaskStart id).2.Bad := by
  apply OsalState.start_bad
  · rw [hinit]
    exact hs.initialized
  · rw [hseq]
    exact Nat.lt_of_le_of_lt (hs.sems id.toNat) (by decide)
  · rw [hidx]
    omega
  · rw [hidx]
    intro hlt
    have hfree : s.osal.taskStates s.osal.taskIdx.toNat = .unused := by
      by_contra hused
      exact hs.unregistered ((hok.live _ hlt).mp hused)
    rw [← hfree]
    simp [OsalState.taskStates, hseq]

/- The first due entry of a pass is registered, and its start shows in the log. -/
theorem pass_bad {s : TableSystem} (hs : TableInv s) (hok : TableOk s) {o : OsalState}
    (hinit : o.osInitialized = s.osal.osInitialized) (hidx : o.taskIdx = s.osal.taskIdx)
    (hseq : o.sequencers = s.osal.sequencers) (htick : o.tick = s.osal.tick) (l : List ℕ)
    (hl : ∀ i ∈ l, i < MAX_TASKS) (hdue : ∃ i ∈ l, s.osal.Due i) :
    (l.foldl (fun s i => s.sequencerVisit i) o).Bad := by
  induction l generalizing o with
  | nil => simp at hdue
  | cons i l ih =>
    have hiff : o.Due i ↔ s.osal.Due i := by
      simp [OsalState.Due, OsalState.taskStates, hseq, htick]
    rw [List.foldl_cons]
    by_cases hi : s.osal.Due i
    · apply OsalState.Bad.visits
      rw [OsalState.visit_due (hiff.mpr hi)]
      have hlt := hl i (by simp)
      have hnat : i.toUInt8.toNat = i := by
        simp only [MAX_TASKS] at hlt
        simp only [Nat.toUInt8_eq, UInt8.toNat_ofNat']
        omega
      apply restart_bad hs hok (o := o.access i) ?_ hinit hidx hseq
      rw [hnat]
      exact hs.lt ((hok.live i hlt).mp hi.1).1
    · rw [OsalState.visit_idle (fun h => hi (hiff.mp h))]
      apply ih (o := o.access i) hinit hidx hseq htick
      · intro j hj
        exact hl j (by simp [hj])
      · obtain ⟨j, hj, hdj⟩ := hdue
        rcases List.mem_cons.mp hj with rfl | hj
        · exact absurd hdj hi
        · exact ⟨j, hj, hdj⟩

theorem pass_idle {s : OsalState} (h : ∀ i < MAX_TASKS, ¬ s.Due i) :
    s.osalTaskGenericSequencer = { s with touched := s.touched ++ List.range MAX_TASKS } :=
  OsalState.visits_idle _ fun i hi => h i (List.mem_range.mp hi)

/-- An operation on the entry `id` that leaves the other fields alone. -/
structure Rewrites (id : ℕ) (s t : OsalState) : Prop where
  initialized : t.osInitialized = s.osInitialized
  taskIdx : t.taskIdx = s.taskIdx
  touched : ∀ i ∈ t.touched, i ∈ s.touched ∨ i = id
  starts : t.starts = s.starts
  sems : ∀ j, (t.sequencers j).signalSem ≤ (s.sequencers j).signalSem

theorem TableInv.rewrites {s t : TableSystem} (h : TableInv s) {id : ℕ}
    (hr : Rewrites id s.osal t.osal) (hcreated : t.created = s.created)
    (hdeleted : ∀ i ∈ t.deleted, i ∈ t.created) : TableInv t := by
  apply TableInv.mk
  · rw [hr.initialized]
    exact h.initialized
  · rw [hcreated, hr.taskIdx]
    exact h.created
  · rw [hr.taskIdx]
    exact h.room
  · exact hdeleted
  · exact fun i => (hr.sems i).trans (h.sems i)
  · intro i hi
    rw [hr.taskIdx] at hi
    have hle := hr.sems i
    rw [h.fresh i hi] at hle
    exact Nat.le_zero.mp hle

theorem setSequencer_rewrites {id : ℕ} {e : Sequencer} {s : OsalState}
    (hsem : e.signalSem ≤ (s.sequencers id).signalSem) :
    Rewrites id s (s.setSequencer id e) := by
  apply Rewrites.mk
  · rfl
  · rfl
  · simp [OsalState.setSequencer, OsalState.access]
  · rfl
  · intro j
    by_cases hj : j = id
    · subst hj
      simpa [OsalState.setSequencer] using hsem
    · simp [OsalState.setSequencer, hj]

theorem delete_rewrites (id : UInt8) {s : OsalState} (hinit : s.osInitialized = true) :
    Rewrites id.toNat s (s.osalTaskDelete id) ∧
      (s.osalTaskDelete id).taskStates = Function.update s.taskStates id.toNat .unused := by
  simp only [OsalState.osalTaskDelete, hinit, if_true]
  generalize hm : s.setTcb id.toNat _ = m
  have hstates : m.taskStates = s.taskStates := by
    subst hm
    rfl
  have hrw : Rewrites id.toNat m (m.setTaskState id.toNat .unused) := setSequencer_rewrites le_rfl
  constructor
  · subst hm
    apply Rewrites.mk
    · exact hrw.initialized
    · exact hrw.taskIdx
    · simp [OsalState.setTaskState, OsalState.setSequencer, OsalState.setTcb, OsalState.access]
    · exact hrw.starts
    · exact hrw.sems
  · rw [← hstates]
    exact OsalState.setTaskState_taskStates _ _ m

/-! ### Steps -/

theorem create_ok {s t : TableSystem} {c : Create} {calls : CreateCalls} (hs : TableInv s)
    (hok : TableOk s) (ht : tableStep s (.create c calls) = some t) : TableInv t ∧ TableOk t := by
  have hsem : (s.osal.sequencers s.osal.taskIdx.toNat).signalSem < semValueMax :=
    Nat.lt_of_le_of_lt (hs.sems _) (by decide)
  rcases OsalState.osalTaskCreate_cases c calls hs.initialized hsem with
    hc | ⟨o, hc, hreg⟩
  · simp only [tableStep, hc, Option.some.injEq] at ht
    subst ht
    exact ⟨hs, hok⟩
  · simp only [tableStep, hc] at ht
    split at ht
    · next hlt =>
      obtain rfl := Option.some.inj ht
      have hidx : s.osal.taskIdx.toNat < MAX_TASKS := by
        simpa [hs.created] using hlt
      have hnext : o.taskIdx.toNat = s.osal.taskIdx.toNat + 1 := by
        simp only [MAX_TASKS] at hidx
        rw [hreg.taskIdx, UInt8.toNat_add]
        exact Nat.mod_eq_of_lt (by simp; omega)
      obtain ⟨state, hused, hstates⟩ := hreg.states
      constructor
      · apply TableInv.mk
        · exact hreg.initialized
        · simp [hs.created, hnext, List.range_succ]
        · rw [hnext]
          exact hidx
        · intro i hi
          exact List.mem_append_left _ (hs.deleted i hi)
        · intro i
          have hle := hreg.sems i
          by_cases hi : i = s.osal.taskIdx.toNat
          · rw [hs.fresh i hi.ge, if_pos hi] at hle
            exact hle
          · rw [if_neg hi] at hle
            exact hle.trans (hs.sems i)
        · intro i hi
          have hlt : s.osal.taskIdx.toNat < i := by
            simp only [hnext] at hi
            omega
          have hle := hreg.sems i
          rw [hs.fresh i hlt.le, if_neg hlt.ne'] at hle
          exact Nat.le_zero.mp hle
      · apply hok.update hidx hstates _ _ hreg.touched hreg.starts
        · refine iff_of_true hused ⟨by simp, fun hd => ?_⟩
          exact Nat.lt_irrefl _ (hs.lt (hs.deleted _ hd))
        · intro j hj
          simp [TableSystem.Live, hj]
    · cases ht

theorem suspend_iff {s t : TableSystem} {id : UInt8} (hs : TableInv s) (hok : TableOk s)
    (ht : tableStep s (.suspend id) = some t) :
    TableInv t ∧ (TableOk t ↔ id.toNat ∉ s.deleted) := by
  simp only [tableStep] at ht
  split at ht
  · next hcreated =>
    obtain rfl := Option.some.inj ht
    have heq : s.osal.osalTaskSuspend id = s.osal.setTaskState id.toNat .suspended := by
      simp [OsalState.osalTaskSuspend, hs.initialized]
    have hrw : Rewrites id.toNat s.osal (s.osal.osalTaskSuspend id) := by
      rw [heq]
      exact setSequencer_rewrites le_rfl
    have hstates : (s.osal.osalTaskSuspend id).taskStates =
        Function.update s.osal.taskStates id.toNat .suspended := by
      rw [heq]
      exact OsalState.setTaskState_taskStates _ _ _
    refine ⟨hs.rewrites hrw rfl hs.deleted, fun h hd => ?_, fun hlive => ?_⟩
    · have hl := (h.live id.toNat (hs.lt_max hcreated)).mp (by simp [hstates])
      exact hl.2 hd
    · apply hok.update (hs.lt_max hcreated) hstates
      · exact iff_of_true (by decide) ⟨hcreated, hlive⟩
      · exact fun j _ => Iff.rfl
      · exact hrw.touched
      · intro c hc
        rw [hrw.starts] at hc
        exact .inl hc
  · cases ht

theorem delete_ok {s t : TableSystem} {id : UInt8} (hs : TableInv s) (hok : TableOk s)
    (ht : tableStep s (.delete id) = some t) : TableInv t ∧ TableOk t := by
  simp only [tableStep] at ht
  split at ht
  · next hcreated =>
    obtain rfl := Option.some.inj ht
    obtain ⟨hrw, hstates⟩ := delete_rewrites id hs.initialized
    have hdeleted : ∀ i ∈ s.deleted ++ [id.toNat], i ∈ s.created := by
      intro i hi
      rcases List.mem_append.mp hi with hi | hi
      · exact hs.deleted i hi
      · rw [List.mem_singleton.mp hi]
        exact hcreated
    constructor
    · exact hs.rewrites hrw rfl hdeleted
    · apply hok.update (hs.lt_max hcreated) hstates
      · simp [TableSystem.Live]
      · intro j hj
        simp [TableSystem.Live, hj]
      · exact hrw.touched
      · intro c hc
        rw [hrw.starts] at hc
        exact .inl hc
  · cases ht

theorem TableOk.same {s t : TableSystem} (h : TableOk s) {id : ℕ} (hid : id < MAX_TASKS)
    (hr : Rewrites id s.osal t.osal) (hstates : t.osal.taskStates = s.osal.taskStates)
    (hcreated : t.created = s.created) (hdeleted : t.deleted = s.deleted) : TableOk t := by
  have hlive (j : ℕ) : t.Live j ↔ s.Live j := by simp [TableSystem.Live, hcreated, hdeleted]
  have hkeep : t.osal.taskStates =
      Function.update s.osal.taskStates id (s.osal.taskStates id) := by
    rw [hstates, Function.update_eq_self]
  apply h.update hid hkeep
  · rw [hlive]
    exact h.live id hid
  · exact fun j _ => hlive j
  · exact hr.touched
  · intro c hc
    rw [hr.starts] at hc
    exact .inl hc

theorem tableStep_iff {s t : TableSystem} {a : TableAct} (hs : TableInv s) (hok : TableOk s)
    (ht : tableStep s a = some t) : (NoRestart s a → TableInv t) ∧ (TableOk t ↔ NoRestart s a) := by
  cases a with
  | create c calls =>
    have h := create_ok hs hok ht
    exact ⟨fun _ => h.1, iff_of_true h.2 trivial⟩
  | startScheduler ret =>
    simp only [tableStep, OsalState.osalStartScheduler, hs.initialized, if_true,
      Option.some.injEq] at ht
    subst ht
    exact ⟨fun _ => ⟨rfl, hs.created, hs.room, hs.deleted, hs.sems, hs.fresh⟩,
      iff_of_true ⟨hok.live, hok.starts, hok.bounds⟩ trivial⟩
  | start id =>
    simp only [tableStep] at ht
    split at ht
    · next hcreated =>
      obtain rfl := Option.some.inj ht
      have hbad := restart_bad hs hok (hs.lt hcreated) rfl rfl rfl
      exact ⟨fun h => h.elim, iff_of_false (fun h => h.not_bad hbad) fun h => h⟩
    · cases ht
  | suspend id =>
    have h := suspend_iff hs hok ht
    exact ⟨fun _ => h.1, h.2⟩
  | wake id =>
    simp only [tableStep] at ht
    split at ht
    · next hcreated =>
      obtain ⟨o, ho, rfl⟩ := Option.map_eq_some_iff.mp ht
      simp only [OsalState.semWait] at ho
      split at ho
      · obtain rfl := Option.some.inj ho
        let taken : Sequencer := { s.osal.sequencers id.toNat with
          signalSem := (s.osal.sequencers id.toNat).signalSem - 1 }
        have hrw : Rewrites id.toNat s.osal (s.osal.setSequencer id.toNat taken) :=
          setSequencer_rewrites (Nat.sub_le _ _)
        have hstates : (s.osal.setSequencer id.toNat taken).taskStates = s.osal.taskStates :=
          OsalState.setSequencer_same rfl
        exact ⟨fun _ => hs.rewrites hrw rfl hs.deleted,
          iff_of_true (hok.same (hs.lt_max hcreated) hrw hstates rfl rfl) trivial⟩
      · cases ho
    · cases ht
  | setPeriod id periodMs =>
    simp only [tableStep] at ht
    split at ht
    · next hcreated =>
      obtain rfl := Option.some.inj ht
      have hrw : Rewrites id.toNat s.osal (s.osal.osalTaskSetPeriod id periodMs) :=
        setSequencer_rewrites le_rfl
      have hstates : (s.osal.osalTaskSetPeriod id periodMs).taskStates = s.osal.taskStates :=
        OsalState.setSequencer_same rfl
      exact ⟨fun _ => hs.rewrites hrw rfl hs.deleted,
        iff_of_true (hok.same (hs.lt_max hcreated) hrw hstates rfl rfl) trivial⟩
    · cases ht
  | delete id =>
    have h := delete_ok hs hok ht
    exact ⟨fun _ => h.1, iff_of_true h.2 trivial⟩
  | alarm =>
    obtain rfl := Option.some.inj ht
    unfold OsalState.signalSched
    split
    · exact ⟨fun _ => ⟨hs.initialized, hs.created, hs.room, hs.deleted, hs.sems, hs.fresh⟩,
        iff_of_true ⟨hok.live, hok.starts, hok.bounds⟩ trivial⟩
    · exact ⟨fun _ => ⟨hs.initialized, hs.created, hs.room, hs.deleted, hs.sems, hs.fresh⟩,
        iff_of_true ⟨hok.live, hok.starts, hok.bounds⟩ trivial⟩
  | sequencerPass =>
    obtain rfl := Option.some.inj ht
    by_cases hdue : ∀ i < MAX_TASKS, ¬ s.osal.Due i
    · rw [pass_idle hdue]
      refine ⟨fun _ => ⟨hs.initialized, hs.created, hs.room, hs.deleted, hs.sems, hs.fresh⟩,
        iff_of_true ⟨hok.live, hok.starts, fun i hi => ?_⟩ hdue⟩
      rcases List.mem_append.mp hi with hi | hi
      · exact hok.bounds i hi
      · exact List.mem_range.mp hi
    · have hsome : ∃ i ∈ List.range MAX_TASKS, s.osal.Due i := by
        simpa using hdue
      have hbad : s.osal.osalTaskGenericSequencer.Bad := by
        unfold OsalState.osalTaskGenericSequencer
        exact pass_bad hs hok rfl rfl rfl rfl (List.range MAX_TASKS)
          (fun i hi => List.mem_range.mp hi) hsome
      generalize s.osal.osalTaskGenericSequencer = o at hbad ⊢
      exact ⟨fun h => absurd h hdue, iff_of_false (fun h => h.not_bad hbad) hdue⟩

theorem TableOk.live_tasks {s : TableSystem} (h : TableOk s)
    (hinit : s.osal.osInitialized = true) :
    s.osal.osalTaskWaitAll.1 = (List.range MAX_TASKS).filter (fun i => s.Live i) ∧
      s.osal.osalTaskWaitAll.2 = s.osal.osalTaskWaitAll.1.length ∧
      s.osal.shutdownNotified = (List.range MAX_TASKS).filter
        (fun i => s.Live i ∧ (s.osal.tcb i).taskExitFunc ≠ none) := by
  simp only [OsalState.osalTaskWaitAll, hinit, if_true, OsalState.shutdownNotified]
  refine ⟨List.filter_congr fun i hi => ?_, trivial, List.filter_congr fun i hi => ?_⟩
  · simp [h.live i (List.mem_range.mp hi)]
  · simp [h.live i (List.mem_range.mp hi)]

/-- In a run the table stays correct exactly when no step restarts a registered
task or suspends a deleted one, and then the live tasks are joined and notified. -/
theorem table_ok_iff (rtMaxPrio rtMinPrio : ℤ) (acts : List TableAct)
    (hr : (run tableStep (.init rtMaxPrio rtMinPrio) acts).isSome) :
    (Throughout tableStep TableOk (.init rtMaxPrio rtMinPrio) acts ↔
      Along tableStep NoRestart (.init rtMaxPrio rtMinPrio) acts) ∧
    (Along tableStep NoRestart (.init rtMaxPrio rtMinPrio) acts →
      ∀ s, run tableStep (.init rtMaxPrio rtMinPrio) acts = some s →
        s.osal.osalTaskWaitAll.1 = (List.range MAX_TASKS).filter (fun i => s.Live i) ∧
        s.osal.osalTaskWaitAll.2 = s.osal.osalTaskWaitAll.1.length ∧
        s.osal.shutdownNotified = (List.range MAX_TASKS).filter
          (fun i => s.Live i ∧ (s.osal.tcb i).taskExitFunc ≠ none)) := by
  have hinit := init_tableInv rtMaxPrio rtMinPrio
  have hok := init_tableOk rtMaxPrio rtMinPrio
  constructor
  · exact throughout_iff_along TableInv
      (fun s a t hs h hg ht => (tableStep_iff hs h ht).1 hg)
      (fun s a t hs h ht => (tableStep_iff hs h ht).2) hinit hok hr
  · intro hg s hs
    let Inv (s : TableSystem) : Prop := TableInv s ∧ TableOk s
    have hinv : Inv s := by
      refine run_inv_along Inv ?_ ⟨hinit, hok⟩ hg hs
      rintro s a t ⟨hs, h⟩ hg ht
      have hstep := tableStep_iff hs h ht
      exact ⟨hstep.1 hg, hstep.2.mpr hg⟩
    exact hinv.2.live_tasks hinv.1.initialized

def mainTask (name : String) (priority : UInt8) (periodMs : UInt32) (address : ℕ) : TableAct :=
  .create ⟨name, 0, priority, some address, some (address + 1), periodMs, 0⟩ ⟨0, 0, 0, address⟩

def mainTasks : List TableAct :=
  [mainTask "detection" 95 11 100, mainTask "camera" 90 22 200, mainTask "transcoder" 80 66 300,
    mainTask "nvm" 75 66 400, .startScheduler 0]

/- Before the first tick all is well. -/
theorem table_ok_iff_mainTasks :
    Throughout tableStep TableOk (.init 97 1) mainTasks := by
  apply (table_ok_iff 97 1 mainTasks (by decide)).1.mpr
  simp [mainTasks, mainTask, Along, NoRestart]

/-- The first pass after a tick starts `detection` and marks entry 4, of a task
that was never created. -/
theorem table_broken_firstTick :
    ∃ s, run tableStep (.init 97 1) (mainTasks ++ [.alarm, .sequencerPass]) = some s ∧
      s.osal.taskStates 4 = .running ∧ ¬ s.Live 4 ∧ ¬ TableOk s ∧
      s.osal.osalTaskWaitAll.1 = [0, 1, 2, 3, 4] := by
  have hfinal : (run tableStep (.init 97 1) (mainTasks ++ [.alarm, .sequencerPass])).map
      (fun s => (s.osal.taskStates 4, s.created, s.osal.osalTaskWaitAll.1)) =
      some (.running, [0, 1, 2, 3], [0, 1, 2, 3, 4]) := by
    decide +kernel
  obtain ⟨s, hs, hvalues⟩ := Option.map_eq_some_iff.mp hfinal
  simp only [Prod.mk.injEq] at hvalues
  obtain ⟨hstate, hcreated, hjoined⟩ := hvalues
  have hlive : ¬ s.Live 4 := by simp [TableSystem.Live, hcreated]
  refine ⟨s, hs, hstate, hlive, fun hok => hlive ?_, hjoined⟩
  exact (hok.live 4 (by decide)).mp (by simp [hstate])

end MotionDetector.Osal
