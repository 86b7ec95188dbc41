import MotionDetector.Lib.Transition
import MotionDetector.Osal.TaskEffects
import Mathlib.Data.List.Range
import Mathlib.Data.Nat.ModEq

/-!
# Periodic activation (`osal_signal_handler_dispatcher`, `osal_signal_handler_task`)

`SIGALRM` posts `os_sched_sem` and increments `tick`, in two steps. The
scheduler waits on the semaphore and visits the entries of the table one by
one. Posts are counted while the tick is read at the visit, so a pass that runs
late sees the tick of a later alarm.
-/

namespace MotionDetector.Osal

open Transition

/-- Where the scheduler thread is: waiting, or in a pass about to visit an
entry. `post` tells whether its wait took a post or was interrupted. -/
inductive SchedulerPc where
  | waiting
  | visiting (post : Bool) (next : ℕ)
  deriving DecidableEq, Repr

/-- `inHandler` counts the handlers between the post and the increment,
`delivered` the alarms and `consumed` the posts taken. `calls` lists the calls
of `osal_task_start` by the sequencer, each with the number of posts taken. -/
structure SchedulerSystem where
  osal : OsalState
  pc : SchedulerPc
  inHandler : ℕ
  delivered : ℕ
  consumed : ℕ
  calls : List (ℕ × ℕ)

def SchedulerSystem.init (osal : OsalState) : SchedulerSystem := ⟨osal, .waiting, 0, 0, 0, []⟩

inductive SchedulerAct where
  | post
  | incTick
  | wait
  | interrupted
  | visit
  deriving DecidableEq, Repr

def schedulerStep (s : SchedulerSystem) : SchedulerAct → Option SchedulerSystem
  | .post =>
    some { s with
      osal := s.osal.signalSched
      inHandler := s.inHandler + 1
      delivered := s.delivered + 1 }
  | .incTick =>
    if 0 < s.inHandler then
      some { s with osal := s.osal.incTick, inHandler := s.inHandler - 1 }
    else none
  | .wait =>
    if s.pc = .waiting ∧ 0 < s.osal.osSchedSem then
      some { s with
        osal := { s.osal with osSchedSem := s.osal.osSchedSem - 1 }
        pc := .visiting true 0
        consumed := s.consumed + 1 }
    else none
  | .interrupted =>
    -- the handler is installed without `SA_RESTART` and `EINTR` is not looked at
    if s.pc = .waiting then some { s with pc := .visiting false 0 } else none
  | .visit =>
    match s.pc with
    | .waiting => none
    | .visiting post i =>
      let osal := s.osal.sequencerVisit i
      let started := osal.starts.drop s.osal.starts.length
      some { s with
        osal := osal
        pc := if i + 1 < MAX_TASKS then .visiting post (i + 1) else .waiting
        calls := s.calls ++ started.map fun c => (s.consumed, c.id) }

def SchedulerSystem.callsOf (s : SchedulerSystem) (i : ℕ) : List ℕ :=
  (s.calls.filter fun c => c.2 = i).map Prod.fst

def SchedulerSystem.visited (s : SchedulerSystem) (i : ℕ) : ℕ :=
  match s.pc with
  | .waiting => s.consumed
  | .visiting false _ => s.consumed
  | .visiting true next => if i < next then s.consumed else s.consumed - 1

def multiples (p n : ℕ) : List ℕ := (List.range' 1 n).filter fun m => p ∣ m

theorem multiples_succ (p n : ℕ) :
    multiples p (n + 1) = multiples p n ++ if p ∣ n + 1 then [n + 1] else [] := by
  have hrange : List.range' 1 (n + 1) = List.range' 1 n ++ [n + 1] := by
    rw [List.range'_concat, Nat.one_mul, Nat.add_comm 1 n]
  rw [multiples, hrange, List.filter_append]
  by_cases h : p ∣ n + 1
  · simp [multiples, h]
  · simp [multiples, h]

theorem multiples_length (p n : ℕ) : (multiples p n).length = n / p := by
  induction n with
  | zero => simp [multiples]
  | succ n ih =>
    rw [multiples_succ, List.length_append, ih, Nat.succ_div]
    split
    · rfl
    · rfl

/-- No post is lost, and task `i` has been started once for each multiple of
its period, in the pass that the alarm of that number posted. -/
structure StartsExact (i p : ℕ) (s : SchedulerSystem) : Prop where
  posts : s.osal.osSchedSem + s.consumed = s.delivered
  starts : s.callsOf i = multiples p (s.visited i)

/-- At the visit of entry `i` the tick is a multiple of the period exactly when
the number of the pass is. -/
def VisitInStep (i p tick consumed : ℕ) : SchedulerPc → Prop
  | .waiting => True
  | .visiting post j => j = i → (p ∣ tick ↔ post = true ∧ p ∣ consumed)

instance (i p tick consumed : ℕ) : ∀ pc, Decidable (VisitInStep i p tick consumed pc)
  | .waiting => inferInstanceAs (Decidable True)
  | .visiting _ _ => inferInstanceAs (Decidable (_ → _))

def InStep (i p : ℕ) (s : SchedulerSystem) : SchedulerAct → Prop
  | .post => s.osal.osSchedSem < semValueMax
  | .visit => VisitInStep i p s.osal.tick.toNat s.consumed s.pc
  | _ => True

instance (i p : ℕ) (s : SchedulerSystem) : ∀ a, Decidable (InStep i p s a)
  | .post => inferInstanceAs (Decidable (_ < _))
  | .visit => inferInstanceAs (Decidable (VisitInStep _ _ _ _ _))
  | .incTick => inferInstanceAs (Decidable True)
  | .wait => inferInstanceAs (Decidable True)
  | .interrupted => inferInstanceAs (Decidable True)

/-! ### Steps -/

structure SchedulerInv (i p : ℕ) (s : SchedulerSystem) : Prop where
  initialized : s.osal.osInitialized = true
  live : s.osal.taskStates i ≠ .unused
  period : (s.osal.sequencers i).periodCnts.toNat = p
  pass : ∀ post next, s.pc = .visiting post next → next < MAX_TASKS
  taken : ∀ next, s.pc = .visiting true next → 1 ≤ s.consumed

theorem due_iff {i p : ℕ} (hp : 0 < p) {s : OsalState} (hlive : s.taskStates i ≠ .unused)
    (hperiod : (s.sequencers i).periodCnts.toNat = p) : s.Due i ↔ p ∣ s.tick.toNat := by
  have hne : (s.sequencers i).periodCnts ≠ 0 := by
    intro h
    rw [h] at hperiod
    simp at hperiod
    omega
  have hmod : s.tick % (s.sequencers i).periodCnts.toUInt64 = 0 ↔ p ∣ s.tick.toNat := by
    rw [← UInt64.toNat_inj, UInt64.toNat_mod, UInt32.toNat_toUInt64, hperiod]
    simp [Nat.dvd_iff_mod_eq_zero]
  simp [OsalState.Due, hlive, hne, hmod]

/- What a visit of entry `j` does to the state of the tables. -/
theorem visit_spec {s : OsalState} {j : ℕ} (hj : j < MAX_TASKS)
    (hinit : s.osInitialized = true) :
    (s.sequencerVisit j).osInitialized = true ∧ (s.sequencerVisit j).tick = s.tick ∧
      (s.sequencerVisit j).osSchedSem = s.osSchedSem ∧
      (∀ i, ((s.sequencerVisit j).sequencers i).periodCnts = (s.sequencers i).periodCnts) ∧
      (∀ i, s.taskStates i ≠ .unused → (s.sequencerVisit j).taskStates i ≠ .unused) ∧
      ((s.sequencerVisit j).starts.drop s.starts.length).map Start.id =
        if s.Due j then [j] else [] := by
  by_cases hdue : s.Due j
  · have hnat : j.toUInt8.toNat = j := by
      simp only [MAX_TASKS] at hj
      simp only [Nat.toUInt8_eq, UInt8.toNat_ofNat']
      omega
    obtain ⟨c, hstarts, hid, hinit', htick, hsched, hseq⟩ :=
      OsalState.osalTaskStart_frame (s := s.access j) j.toUInt8 hinit
    rw [OsalState.visit_due hdue, if_pos hdue, hstarts]
    refine ⟨hinit', htick, hsched, fun i => (hseq i).1, fun i => (hseq i).2, ?_⟩
    simp [OsalState.access, hid, hnat]
  · rw [OsalState.visit_idle hdue, if_neg hdue]
    exact ⟨hinit, rfl, rfl, fun _ => rfl, fun _ h => h, by simp [OsalState.access]⟩

def SchedulerSystem.afterVisit (s : SchedulerSystem) (post : Bool) (j : ℕ) : SchedulerSystem :=
  { s with
    osal := s.osal.sequencerVisit j
    pc := if j + 1 < MAX_TASKS then .visiting post (j + 1) else .waiting
    calls := s.calls ++ ((s.osal.sequencerVisit j).starts.drop s.osal.starts.length).map
      fun c => (s.consumed, c.id) }

theorem visit_step {s : SchedulerSystem} {post : Bool} {j : ℕ} (hpc : s.pc = .visiting post j) :
    schedulerStep s .visit = some (s.afterVisit post j) := by
  simp [schedulerStep, hpc, SchedulerSystem.afterVisit]

theorem afterVisit_callsOf {s : SchedulerSystem} (post : Bool) {j : ℕ} (hj : j < MAX_TASKS)
    (hinit : s.osal.osInitialized = true) (i : ℕ) :
    (s.afterVisit post j).callsOf i =
      s.callsOf i ++ if j = i ∧ s.osal.Due j then [s.consumed] else [] := by
  obtain ⟨-, -, -, -, -, hstarts⟩ := visit_spec hj hinit
  have hcalls : (s.afterVisit post j).calls =
      s.calls ++ (if s.osal.Due j then [j] else []).map fun id => (s.consumed, id) := by
    rw [← hstarts, List.map_map]
    rfl
  simp only [SchedulerSystem.callsOf, hcalls, List.filter_append, List.map_append,
    List.append_cancel_left_eq]
  by_cases hdue : s.osal.Due j
  · by_cases hji : j = i
    · subst hji
      simp [hdue]
    · simp [hji]
  · simp [hdue]

/- Entry `i` has been visited once more after its own visit in a pass with a
post, and the count is the same after any other visit. -/
theorem afterVisit_visited {s : SchedulerSystem} {post : Bool} {i j : ℕ} (hi : i < MAX_TASKS)
    (hj : j < MAX_TASKS) (hpc : s.pc = .visiting post j)
    (htaken : post = true → 1 ≤ s.consumed) :
    (s.afterVisit post j).visited i =
      if post = true ∧ j = i then s.visited i + 1 else s.visited i := by
  unfold SchedulerSystem.afterVisit SchedulerSystem.visited
  simp only [hpc]
  cases post with
  | false =>
    by_cases hlast : j + 1 < MAX_TASKS
    · simp [hlast]
    · simp [hlast]
  | true =>
    have hc := htaken rfl
    by_cases hlast : j + 1 < MAX_TASKS
    · simp only [hlast, if_true, true_and]
      split_ifs <;> omega
    · simp only [hlast, if_false, true_and]
      split_ifs <;> omega

theorem step_schedulerInv {i p : ℕ} {s t : SchedulerSystem} {a : SchedulerAct}
    (hs : SchedulerInv i p s) (ht : schedulerStep s a = some t) : SchedulerInv i p t := by
  cases a with
  | post =>
    obtain rfl := Option.some.inj ht
    unfold OsalState.signalSched
    split
    · exact ⟨hs.initialized, hs.live, hs.period, hs.pass, hs.taken⟩
    · exact ⟨hs.initialized, hs.live, hs.period, hs.pass, hs.taken⟩
  | incTick =>
    simp only [schedulerStep] at ht
    split at ht
    · obtain rfl := Option.some.inj ht
      exact ⟨hs.initialized, hs.live, hs.period, hs.pass, hs.taken⟩
    · cases ht
  | wait =>
    simp only [schedulerStep] at ht
    split at ht
    · obtain rfl := Option.some.inj ht
      refine ⟨hs.initialized, hs.live, hs.period, fun post next h => ?_, fun next h => ?_⟩
      · cases h
        decide
      · exact Nat.le_add_left 1 _
    · cases ht
  | interrupted =>
    simp only [schedulerStep] at ht
    split at ht
    · obtain rfl := Option.some.inj ht
      refine ⟨hs.initialized, hs.live, hs.period, fun post next h => ?_, fun next h => ?_⟩
      · cases h
        decide
      · cases h
    · cases ht
  | visit =>
    cases hpc : s.pc with
    | waiting => simp [schedulerStep, hpc] at ht
    | visiting post j =>
      rw [visit_step hpc] at ht
      obtain rfl := Option.some.inj ht
      obtain ⟨hinit, -, -, hperiod, hlive, -⟩ := visit_spec (hs.pass post j hpc) hs.initialized
      refine ⟨hinit, hlive i hs.live, ?_, fun post' next h => ?_, fun next h => ?_⟩
      · rw [← hs.period]
        exact congrArg UInt32.toNat (hperiod i)
      · simp only [SchedulerSystem.afterVisit] at h
        split at h
        · next hlt =>
          cases h
          exact hlt
        · cases h
      · simp only [SchedulerSystem.afterVisit] at h
        split at h
        · cases h
          exact hs.taken j hpc
        · cases h

theorem visit_startsExact_iff {i p : ℕ} (hi : i < MAX_TASKS) (hp : 0 < p)
    {s : SchedulerSystem} {post : Bool} {j : ℕ} (hs : SchedulerInv i p s)
    (hexact : StartsExact i p s) (hpc : s.pc = .visiting post j) :
    StartsExact i p (s.afterVisit post j) ↔ InStep i p s .visit := by
  have hj := hs.pass post j hpc
  have htaken : post = true → 1 ≤ s.consumed := by
    rintro rfl
    exact hs.taken j hpc
  have hcalls := afterVisit_callsOf post hj hs.initialized i
  have hvisited := afterVisit_visited hi hj hpc htaken
  have hposts : (s.afterVisit post j).osal.osSchedSem + (s.afterVisit post j).consumed =
      (s.afterVisit post j).delivered := by
    obtain ⟨-, -, hsem, -⟩ := visit_spec hj hs.initialized
    show (s.osal.sequencerVisit j).osSchedSem + s.consumed = s.delivered
    rw [hsem]
    exact hexact.posts
  have hdue := due_iff hp hs.live hs.period
  by_cases hji : j = i
  · subst hji
    have hin : InStep j p s .visit ↔ (s.osal.Due j ↔ post = true ∧ p ∣ s.consumed) := by
      simp [InStep, VisitInStep, hpc, hdue]
    have hstarts : StartsExact j p (s.afterVisit post j) ↔
        (s.afterVisit post j).callsOf j = multiples p ((s.afterVisit post j).visited j) :=
      ⟨fun h => h.starts, fun h => ⟨hposts, h⟩⟩
    rw [hin, hstarts, hcalls, hvisited, hexact.starts]
    cases post with
    | false =>
      by_cases hd : s.osal.Due j
      · simp [hd]
      · simp [hd]
    | true =>
      have hv : s.visited j + 1 = s.consumed := by
        have := htaken rfl
        simp only [SchedulerSystem.visited, hpc, Nat.lt_irrefl, if_false]
        omega
      simp only [and_self, if_true, true_and]
      rw [multiples_succ, hv, List.append_cancel_left_eq]
      by_cases hd : s.osal.Due j
      · by_cases hm : p ∣ s.consumed
        · simp [hd, hm]
        · simp [hd, hm]
      · by_cases hm : p ∣ s.consumed
        · simp [hd, hm]
        · simp [hd, hm]
  · refine iff_of_true ⟨hposts, ?_⟩ ?_
    · rw [hcalls, hvisited, if_neg (by simp [hji]), if_neg (by simp [hji]), List.append_nil]
      exact hexact.starts
    · simp [InStep, VisitInStep, hpc, hji]

theorem startsExact_iff {i p : ℕ} (hi : i < MAX_TASKS) (hp : 0 < p) {s t : SchedulerSystem}
    {a : SchedulerAct} (hs : SchedulerInv i p s) (hexact : StartsExact i p s)
    (ht : schedulerStep s a = some t) : StartsExact i p t ↔ InStep i p s a := by
  cases a with
  | post =>
    obtain rfl := Option.some.inj ht
    by_cases hroom : s.osal.osSchedSem < semValueMax
    · refine iff_of_true ⟨?_, hexact.starts⟩ hroom
      have := hexact.posts
      simp only [OsalState.signalSched, hroom, if_true]
      omega
    · refine iff_of_false (fun h => ?_) hroom
      have h1 := hexact.posts
      have h2 := h.posts
      simp only [OsalState.signalSched, hroom, if_false] at h2
      omega
  | incTick =>
    simp only [schedulerStep] at ht
    split at ht
    · obtain rfl := Option.some.inj ht
      exact iff_of_true ⟨hexact.posts, hexact.starts⟩ trivial
    · cases ht
  | wait =>
    simp only [schedulerStep] at ht
    split at ht
    · next hpc =>
      obtain rfl := Option.some.inj ht
      refine iff_of_true ⟨?_, ?_⟩ trivial
      · have := hexact.posts
        have := hpc.2
        simp only
        omega
      · have := hexact.starts
        simp only [SchedulerSystem.visited, hpc.1] at this
        show s.callsOf i = multiples p (if i < 0 then s.consumed + 1 else s.consumed + 1 - 1)
        simpa using this
    · cases ht
  | interrupted =>
    simp only [schedulerStep] at ht
    split at ht
    · next hpc =>
      obtain rfl := Option.some.inj ht
      refine iff_of_true ⟨hexact.posts, ?_⟩ trivial
      have := hexact.starts
      simp only [SchedulerSystem.visited, hpc] at this
      exact this
    · cases ht
  | visit =>
    cases hpc : s.pc with
    | waiting => simp [schedulerStep, hpc] at ht
    | visiting post j =>
      rw [visit_step hpc] at ht
      obtain rfl := Option.some.inj ht
      exact visit_startsExact_iff hi hp hs hexact hpc

/-- Over a run the activation of task `i` is exact exactly when every visit of
its entry is in step with the alarms. Once all posts are consumed the task has
then been started once for each multiple of its period. -/
theorem starts_exact_iff {i p : ℕ} (hi : i < MAX_TASKS) (hp : 0 < p) (osal : OsalState)
    (hinit : osal.osInitialized = true) (hlive : osal.taskStates i ≠ .unused)
    (hperiod : (osal.sequencers i).periodCnts.toNat = p) (hsem : osal.osSchedSem = 0)
    (acts : List SchedulerAct) (hr : (run schedulerStep (.init osal) acts).isSome) :
    (Throughout schedulerStep (StartsExact i p) (.init osal) acts ↔
      Along schedulerStep (InStep i p) (.init osal) acts) ∧
    (Along schedulerStep (InStep i p) (.init osal) acts →
      ∀ s, run schedulerStep (.init osal) acts = some s →
        s.pc = .waiting → s.osal.osSchedSem = 0 →
        s.callsOf i = multiples p s.delivered ∧ (s.callsOf i).length = s.delivered / p) := by
  have hs : SchedulerInv i p (.init osal) :=
    ⟨hinit, hlive, hperiod, by simp [SchedulerSystem.init], by simp [SchedulerSystem.init]⟩
  have hexact : StartsExact i p (.init osal) :=
    ⟨by simp [SchedulerSystem.init, hsem], rfl⟩
  have hiff := throughout_iff_along (SchedulerInv i p)
    (fun s a t hs _ _ ht => step_schedulerInv hs ht)
    (fun s a t hs h ht => startsExact_iff hi hp hs h ht) hs hexact hr
  refine ⟨hiff, fun hg s hrun hpc hdrained => ?_⟩
  have hfinal := (hiff.mpr hg).last hrun
  have hall : s.visited i = s.delivered := by
    have := hfinal.posts
    simp only [SchedulerSystem.visited, hpc]
    omega
  have hcalls := hfinal.starts
  rw [hall] at hcalls
  exact ⟨hcalls, by rw [hcalls, multiples_length]⟩

def cameraTable : OsalState :=
  ((OsalState.init 97 1).osalTaskCreate ⟨"camera", 0, 90, none, none, 22, 0⟩ ⟨0, 0, 0, 0⟩).2.2

def schedulerPass : List SchedulerAct := .wait :: List.replicate 5 .visit

def prompt : List SchedulerAct :=
  [.post, .incTick] ++ schedulerPass ++ [.post, .incTick] ++ schedulerPass

theorem starts_exact_iff_prompt :
    ∃ s, run schedulerStep (.init cameraTable) prompt = some s ∧ s.callsOf 0 = multiples 2 2 := by
  have hfinal : (run schedulerStep (.init cameraTable) prompt).map
      (fun s => (s.pc, s.osal.osSchedSem, s.delivered)) = some (.waiting, 0, 2) := by
    decide +kernel
  obtain ⟨s, hs, hvalues⟩ := Option.map_eq_some_iff.mp hfinal
  simp only [Prod.mk.injEq] at hvalues
  obtain ⟨hpc, hsem, hdelivered⟩ := hvalues
  have hexact := (starts_exact_iff (i := 0) (p := 2) (by decide) (by decide) cameraTable rfl
    (by decide) (by decide) rfl prompt (by simp [hs])).2 (by decide +kernel) s hs hpc hsem
  rw [hdelivered] at hexact
  exact ⟨s, hs, hexact.1⟩

def late : List SchedulerAct :=
  [.post, .incTick, .post, .incTick] ++ schedulerPass ++ schedulerPass

/-- Two passes on the second tick: the task is started twice instead of once. -/
theorem starts_doubled_late :
    ∃ s, run schedulerStep (.init cameraTable) late = some s ∧ s.pc = .waiting ∧
      s.osal.osSchedSem = 0 ∧ s.delivered = 2 ∧ s.callsOf 0 = [1, 2] ∧
      (s.callsOf 0).length ≠ s.delivered / 2 := by
  have hfinal : (run schedulerStep (.init cameraTable) late).map
      (fun s => (s.pc, s.osal.osSchedSem, s.delivered, s.callsOf 0)) =
      some (.waiting, 0, 2, [1, 2]) := by
    decide +kernel
  obtain ⟨s, hs, hvalues⟩ := Option.map_eq_some_iff.mp hfinal
  simp only [Prod.mk.injEq] at hvalues
  obtain ⟨hpc, hsem, hdelivered, hcalls⟩ := hvalues
  exact ⟨s, hs, hpc, hsem, hdelivered, hcalls, by simp [hcalls, hdelivered]⟩

end MotionDetector.Osal
