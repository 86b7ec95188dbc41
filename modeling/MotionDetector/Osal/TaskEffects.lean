import MotionDetector.Osal.Tasks
import Mathlib.Order.Nat

/-!
# What the task operations do to the tables
-/

namespace MotionDetector.Osal

/-- The call made its own entry, and no other, `TASKSTATE_RUNNING`. -/
structure Start.Exact (c : Start) : Prop where
  own : c.after c.id = .running
  frame : ∀ j, j ≠ c.id → c.after j = c.before j

namespace OsalState

theorem setSequencer_taskStates (id : ℕ) (e : Sequencer) (s : OsalState) :
    (s.setSequencer id e).taskStates = Function.update s.taskStates id e.taskState := by
  funext j
  by_cases hj : j = id
  · subst hj
    simp [taskStates, setSequencer]
  · simp [taskStates, setSequencer, hj]

theorem setTaskState_taskStates (id : ℕ) (state : TaskState) (s : OsalState) :
    (s.setTaskState id state).taskStates = Function.update s.taskStates id state :=
  setSequencer_taskStates id _ s

theorem setSequencer_same {id : ℕ} {e : Sequencer} {s : OsalState}
    (h : e.taskState = s.taskStates id) : (s.setSequencer id e).taskStates = s.taskStates := by
  rw [setSequencer_taskStates, h, Function.update_eq_self]

/- What `osal_task_start` does while the semaphore of the task has room. -/
theorem osalTaskStart_spec {s : OsalState} {id : UInt8} (hinit : s.osInitialized = true)
    (hsem : (s.sequencers id.toNat).signalSem < semValueMax) :
    ∃ t, s.osalTaskStart id = (.success, t) ∧
      t.taskStates = Function.update s.taskStates s.taskIdx.toNat .running ∧
      t.touched = s.touched ++ [id.toNat, s.taskIdx.toNat] ∧
      t.starts = s.starts ++ [⟨id.toNat, s.taskStates, t.taskStates⟩] ∧
      t.osInitialized = s.osInitialized ∧ t.taskIdx = s.taskIdx ∧ t.tick = s.tick ∧
      t.osSchedSem = s.osSchedSem ∧
      ∀ j, (t.sequencers j).periodCnts = (s.sequencers j).periodCnts ∧
        (t.sequencers j).signalSem =
          if j = id.toNat then (s.sequencers j).signalSem + 1 else (s.sequencers j).signalSem := by
  let posted := s.setSequencer id.toNat
    { s.sequencers id.toNat with signalSem := (s.sequencers id.toNat).signalSem + 1 }
  let u := posted.setTaskState s.taskIdx.toNat .running
  have hposted : posted.taskStates = s.taskStates := setSequencer_same rfl
  have hu : u.taskStates = Function.update s.taskStates s.taskIdx.toNat .running := by
    rw [← hposted]
    exact setTaskState_taskStates _ _ posted
  refine ⟨{ u with starts := s.starts ++ [⟨id.toNat, s.taskStates, u.taskStates⟩] },
    ?_, hu, ?_, rfl, rfl, rfl, rfl, rfl, fun j => ?_⟩
  · simp [osalTaskStart, hinit, semPost, hsem, isError, u, posted]
  · simp [u, posted, setTaskState, setSequencer, access]
  · by_cases hj : j = s.taskIdx.toNat
    · by_cases hid : j = id.toNat
      · simp [u, posted, setTaskState, setSequencer, ← hj, ← hid]
      · simp [u, posted, setTaskState, setSequencer, ← hj, hid]
    · by_cases hid : j = id.toNat
      · subst hid
        simp [u, posted, setTaskState, setSequencer, hj]
      · simp [u, posted, setTaskState, setSequencer, hj, hid]

theorem osalTaskStart_frame {s : OsalState} (id : UInt8) (hinit : s.osInitialized = true) :
    ∃ c, (s.osalTaskStart id).2.starts = s.starts ++ [c] ∧ c.id = id.toNat ∧
      (s.osalTaskStart id).2.osInitialized = true ∧ (s.osalTaskStart id).2.tick = s.tick ∧
      (s.osalTaskStart id).2.osSchedSem = s.osSchedSem ∧
      ∀ j, ((s.osalTaskStart id).2.sequencers j).periodCnts = (s.sequencers j).periodCnts ∧
        (s.taskStates j ≠ .unused → (s.osalTaskStart id).2.taskStates j ≠ .unused) := by
  by_cases hsem : (s.sequencers id.toNat).signalSem < semValueMax
  · obtain ⟨t, ht, hstates, -, hstarts, hinit', -, htick, hsched, hseq⟩ :=
      osalTaskStart_spec hinit hsem
    rw [ht]
    refine ⟨_, hstarts, rfl, hinit'.trans hinit, htick, hsched, fun j => ⟨(hseq j).1, ?_⟩⟩
    intro hj
    simp only [hstates]
    by_cases hidx : j = s.taskIdx.toNat
    · simp [hidx]
    · rwa [Function.update_of_ne hidx]
  · have hfail : s.osalTaskStart id = (.failure, { s.access id.toNat with
        starts := s.starts ++ [⟨id.toNat, s.taskStates, (s.access id.toNat).taskStates⟩] }) := by
      simp [osalTaskStart, hinit, semPost, hsem, isError]
    rw [hfail]
    exact ⟨_, rfl, rfl, hinit, rfl, rfl, fun j => ⟨rfl, fun h => h⟩⟩

/-- A record of a wrong or out of bounds access that no later step removes. -/
def Bad (s : OsalState) : Prop :=
  (∃ c ∈ s.starts, ¬ c.Exact) ∨ ∃ i ∈ s.touched, MAX_TASKS ≤ i

theorem start_bad {s : OsalState} {id : UInt8} (hinit : s.osInitialized = true)
    (hsem : (s.sequencers id.toNat).signalSem < semValueMax) (hne : s.taskIdx.toNat ≠ id.toNat)
    (hfree : s.taskIdx.toNat < MAX_TASKS → s.taskStates s.taskIdx.toNat = .unused) :
    (s.osalTaskStart id).2.Bad := by
  obtain ⟨t, ht, hstates, htouched, hstarts, -⟩ := osalTaskStart_spec hinit hsem
  rw [ht]
  by_cases hlt : s.taskIdx.toNat < MAX_TASKS
  · refine .inl ⟨⟨id.toNat, s.taskStates, t.taskStates⟩, by simp [hstarts], fun hexact => ?_⟩
    have hsame := hexact.frame s.taskIdx.toNat hne
    simp [hstates, hfree hlt] at hsame
  · exact .inr ⟨s.taskIdx.toNat, by simp [htouched], Nat.le_of_not_lt hlt⟩

/-- The entry `task_idx` is written, and no state of the table yet. -/
structure Prepares (s t : OsalState) : Prop where
  initialized : t.osInitialized = s.osInitialized
  taskIdx : t.taskIdx = s.taskIdx
  states : t.taskStates = s.taskStates
  touched : ∀ i ∈ t.touched, i ∈ s.touched ∨ i = s.taskIdx.toNat
  starts : t.starts = s.starts
  sems : ∀ j, (t.sequencers j).signalSem ≤ (s.sequencers j).signalSem

theorem Prepares.trans {s t u : OsalState} (h : Prepares s t) (h' : Prepares t u) :
    Prepares s u := by
  apply Prepares.mk
  · exact h'.initialized.trans h.initialized
  · exact h'.taskIdx.trans h.taskIdx
  · exact h'.states.trans h.states
  · intro i hi
    rcases h'.touched i hi with hi | hi
    · exact h.touched i hi
    · exact .inr (by rw [hi, h.taskIdx])
  · exact h'.starts.trans h.starts
  · exact fun j => (h'.sems j).trans (h.sems j)

theorem access_prepares (s : OsalState) : Prepares s (s.access s.taskIdx.toNat) :=
  ⟨rfl, rfl, rfl, by simp [access], rfl, fun _ => le_rfl⟩

theorem setTcb_prepares (t : TaskTcb) (s : OsalState) :
    Prepares s (s.setTcb s.taskIdx.toNat t) :=
  ⟨rfl, rfl, rfl, by simp [setTcb, access], rfl, fun _ => le_rfl⟩

theorem setSequencer_prepares {e : Sequencer} {s : OsalState}
    (hstate : e.taskState = s.taskStates s.taskIdx.toNat)
    (hsem : e.signalSem ≤ (s.sequencers s.taskIdx.toNat).signalSem) :
    Prepares s (s.setSequencer s.taskIdx.toNat e) := by
  apply Prepares.mk
  · rfl
  · rfl
  · exact setSequencer_same hstate
  · simp [setSequencer, access]
  · rfl
  · intro j
    by_cases hj : j = s.taskIdx.toNat
    · subst hj
      simpa [setSequencer] using hsem
    · simp [setSequencer, hj]

theorem fillTcb_prepares (c : Create) (s : OsalState) : Prepares s (s.fillTcb c) :=
  setTcb_prepares _ s

theorem osalSemInit_prepares (res : ℤ) (s : OsalState) :
    Prepares s (s.osalSemInit s.taskIdx.toNat res).2 := by
  unfold osalSemInit
  split
  · exact access_prepares s
  · exact setSequencer_prepares rfl (Nat.zero_le _)

theorem setThread_prepares (c : Create) (calls : CreateCalls) (s : OsalState) :
    Prepares s (s.setThread c calls) :=
  (setTcb_prepares _ s).trans (setSequencer_prepares (s := s.setTcb s.taskIdx.toNat _) rfl le_rfl)

structure Registers (s t : OsalState) : Prop where
  initialized : t.osInitialized = true
  taskIdx : t.taskIdx = s.taskIdx + 1
  states : ∃ state, state ≠ .unused ∧
    t.taskStates = Function.update s.taskStates s.taskIdx.toNat state
  touched : ∀ i ∈ t.touched, i ∈ s.touched ∨ i = s.taskIdx.toNat
  starts : ∀ c ∈ t.starts, c ∈ s.starts ∨ c.Exact
  sems : ∀ j, (t.sequencers j).signalSem ≤
    (s.sequencers j).signalSem + if j = s.taskIdx.toNat then 1 else 0

theorem register_registers {s : OsalState} (hinit : s.osInitialized = true)
    (hsem : (s.sequencers s.taskIdx.toNat).signalSem < semValueMax) :
    Registers s s.register := by
  unfold register
  split
  · obtain ⟨t, ht, hstates, htouched, hstarts, hinit', -, -, -, hseq⟩ :=
      osalTaskStart_spec hinit hsem
    rw [ht]
    apply Registers.mk
    · exact hinit'.trans hinit
    · rfl
    · exact ⟨.running, by decide, hstates⟩
    · intro i hi
      simpa [htouched] using hi
    · intro c hc
      simp only [hstarts, List.mem_append, List.mem_singleton] at hc
      rcases hc with hc | rfl
      · exact .inl hc
      · right
        apply Start.Exact.mk
        · simp [hstates]
        · intro j hj
          simp [hstates, Function.update_of_ne hj]
    · intro j
      rw [(hseq j).2]
      split <;> simp
  · apply Registers.mk
    · exact hinit
    · rfl
    · exact ⟨.suspended, by decide, setTaskState_taskStates _ _ s⟩
    · intro i hi
      simpa [setTaskState, setSequencer, access] using hi
    · intro c hc
      exact .inl hc
    · intro j
      by_cases hj : j = s.taskIdx.toNat
      · subst hj
        simp [setTaskState, setSequencer]
      · simp [setTaskState, setSequencer, hj]

theorem Registers.of_prepares {s t u : OsalState} (h : Prepares s t) (h' : Registers t u) :
    Registers s u := by
  apply Registers.mk
  · exact h'.initialized
  · rw [h'.taskIdx, h.taskIdx]
  · rw [← h.states, ← h.taskIdx]
    exact h'.states
  · intro i hi
    rcases h'.touched i hi with hi | hi
    · exact h.touched i hi
    · exact .inr (by rw [hi, h.taskIdx])
  · rw [← h.starts]
    exact h'.starts
  · intro j
    have hj := h'.sems j
    rw [h.taskIdx] at hj
    exact hj.trans (Nat.add_le_add_right (h.sems j) _)

theorem osalTaskCreate_cases (c : Create) (calls : CreateCalls) {s : OsalState}
    (hinit : s.osInitialized = true)
    (hsem : (s.sequencers s.taskIdx.toNat).signalSem < semValueMax) :
    s.osalTaskCreate c calls = (.failure, none, s) ∨
      ∃ t, s.osalTaskCreate c calls = (.success, some s.taskIdx, t) ∧ Registers s t := by
  unfold osalTaskCreate
  rw [if_neg (by simp [hinit])]
  split
  · exact .inl rfl
  · right
    rw [if_neg (by simp)]
    refine ⟨(setThread c calls (osalSemInit s.taskIdx.toNat calls.semInit
      (s.fillTcb c)).2).register, by simp, ?_⟩
    have hfill := fillTcb_prepares c s
    have hprep := (hfill.trans (osalSemInit_prepares calls.semInit (s.fillTcb c))).trans
      (setThread_prepares c calls _)
    refine (register_registers ?_ ?_).of_prepares hprep
    · exact hprep.initialized.trans hinit
    · have hle := hprep.sems s.taskIdx.toNat
      rw [hprep.taskIdx]
      exact Nat.lt_of_le_of_lt hle hsem

theorem visit_due {s : OsalState} {i : ℕ} (h : s.Due i) :
    s.sequencerVisit i = ((s.access i).osalTaskStart i.toUInt8).2 := if_pos h

theorem visit_idle {s : OsalState} {i : ℕ} (h : ¬ s.Due i) :
    s.sequencerVisit i = s.access i := if_neg h

/- A pass over entries none of which is due only reads them. -/
theorem visits_idle (l : List ℕ) {s : OsalState} (h : ∀ i ∈ l, ¬ s.Due i) :
    l.foldl (fun s i => s.sequencerVisit i) s = { s with touched := s.touched ++ l } := by
  induction l generalizing s with
  | nil => simp
  | cons i l ih =>
    rw [List.foldl_cons, visit_idle (h i (by simp)), ih]
    · simp [access]
    · intro j hj
      exact h j (by simp [hj])

theorem osalTaskStart_log (id : UInt8) (s : OsalState) :
    s.starts <+: (s.osalTaskStart id).2.starts ∧ s.touched <+: (s.osalTaskStart id).2.touched := by
  by_cases hinit : s.osInitialized = true
  · by_cases hsem : (s.sequencers id.toNat).signalSem < semValueMax
    · obtain ⟨t, ht, -, htouched, hstarts, -⟩ := osalTaskStart_spec hinit hsem
      simp [ht, htouched, hstarts]
    · simp [osalTaskStart, hinit, semPost, hsem, isError, access]
  · simp [osalTaskStart, hinit]

theorem Bad.mono {s t : OsalState} (h : s.Bad) (hstarts : s.starts <+: t.starts)
    (htouched : s.touched <+: t.touched) : t.Bad := by
  rcases h with ⟨c, hc, hbad⟩ | ⟨i, hi, hbad⟩
  · exact .inl ⟨c, hstarts.subset hc, hbad⟩
  · exact .inr ⟨i, htouched.subset hi, hbad⟩

theorem Bad.visits (l : List ℕ) {s : OsalState} (h : s.Bad) :
    (l.foldl (fun s i => s.sequencerVisit i) s).Bad := by
  induction l generalizing s with
  | nil => exact h
  | cons i l ih =>
    rw [List.foldl_cons]
    apply ih
    by_cases hdue : s.Due i
    · have hlog := osalTaskStart_log i.toUInt8 (s.access i)
      rw [visit_due hdue]
      exact h.mono hlog.1 ((List.prefix_append _ _).trans hlog.2)
    · rw [visit_idle hdue]
      exact h.mono List.prefix_rfl (List.prefix_append _ _)

end OsalState

end MotionDetector.Osal
