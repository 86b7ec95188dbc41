import MotionDetector.Osal.Teardown
import MotionDetector.Shutdown.ExitFlags
import MotionDetector.Shutdown.Loops

/-!
# The program from its first task to the end of the teardowns

The four tasks of `main.c` over the teardown of the OSAL: a thread runs its loop
where `Osal.Teardown` has it running, and between the stop of the scheduler and
`osal_deinit` the scheduler thread calls the exit functions. Only the sequencer
posts to the semaphores of the tasks; besides, a signal ends a wait.
-/

namespace MotionDetector.Shutdown

open Transition Wakeups Osal Detection Camera Transcoder Nvm

/-- What the tasks read and what their calls return. -/
structure Inputs where
  rd : ℕ → Reading
  passes : ℕ → PassInput
  getframe : ℕ → SysResult
  nvm : NvmCalls

inductive Thread where
  | detection (t : DetectionThread)
  | camera (t : CameraThread)
  | transcoder (t : TranscoderThread)
  | nvm (t : NvmThread)

namespace Thread

def taskStep (inp : Inputs) : Thread → Thread
  | .detection t => .detection (t.taskStep inp.rd)
  | .camera t => .camera (t.taskStep inp.passes)
  | .transcoder t => .transcoder (t.taskStep inp.getframe)
  | .nvm t => .nvm (t.taskStep inp.nvm)

/-- The exit function of the task, between two of its statements. -/
def exitFunction : Thread → Thread
  | .detection t => .detection t.detectionExit
  | .camera t => .camera t.cameraExit
  | .transcoder t => .transcoder t.transcoderExit
  | .nvm t => .nvm t.nvmExit

/-- The next statement is the `osal_task_delay` of the loop. -/
def AtDelay : Thread → Prop
  | .detection t => t.pc = .delay
  | .camera t => t.pc = .delay
  | .transcoder t => t.pc = .delay
  | .nvm t => t.pc = .delay

/-- The next statement is `osal_task_delete(id, false)` behind the loop. -/
def Ended : Thread → Prop
  | .detection t => t.pc = .ended
  | .camera t => t.pc = .ended
  | .transcoder t => t.pc = .ended
  | .nvm t => t.pc = .ended

/-- The loop is left, and the NVM task has closed its file. -/
def Left : Thread → Prop
  | .detection t => t.pc = .ended
  | .camera t => t.pc = .ended
  | .transcoder t => t.pc = .ended
  | .nvm t => t.pc = .ended ∧ t.closed = true

def Working : Thread → Prop
  | .detection t => t.Working
  | .camera t => t.Working
  | .transcoder t => t.Working
  | .nvm t => t.Working

/-- The rest of the pass undoes the request of the exit function. -/
def WritePending (inp : Inputs) : Thread → Prop
  | .detection t => t.WritePending inp.rd
  | .camera t => t.WritePending
  | .transcoder _ => False
  | .nvm _ => False

/-- Sleeps on the way from here to the end, once the request is made. -/
def wakeUps : Thread → ℕ
  | .detection t => DetectionThread.wakeUps t.pc
  | .camera t => CameraThread.wakeUps t.pc
  | .transcoder t => TranscoderThread.wakeUps t.pc
  | .nvm t => NvmThread.wakeUps t.pc

instance (t : Thread) : Decidable t.AtDelay := by
  cases t <;> exact inferInstanceAs (Decidable (_ = _))

instance (t : Thread) : Decidable t.Ended := by
  cases t <;> exact inferInstanceAs (Decidable (_ = _))

instance (inp : Inputs) : (t : Thread) → Decidable (t.WritePending inp)
  | .detection t => inferInstanceAs (Decidable (t.WritePending inp.rd))
  | .camera t => inferInstanceAs (Decidable t.WritePending)
  | .transcoder _ => .isFalse id
  | .nvm _ => .isFalse id

def sleeper (inp : Inputs) : Sleeper Thread := ⟨taskStep inp, AtDelay, Ended⟩

variable {inp : Inputs} {t : Thread}

/- After its exit function a task ends exactly if the request is not overwritten,
with the wake-ups that its place in the loop asks for. -/
theorem exit_ends_iff (inp : Inputs) (t : Thread) (n : ℕ) :
    Ends (sleeper inp) t.exitFunction n ↔ ¬ t.WritePending inp ∧ t.wakeUps ≤ n := by
  cases t with
  | detection t =>
    refine Iff.trans ?_ (DetectionThread.exit_ends_iff inp.rd t n)
    exact ends_embed (k := sleeper inp) Thread.detection (fun _ => rfl) (fun _ => .rfl)
      fun _ => .rfl
  | camera t =>
    refine Iff.trans ?_ (CameraThread.exit_ends_iff inp.passes t n)
    exact ends_embed (k := sleeper inp) Thread.camera (fun _ => rfl) (fun _ => .rfl) fun _ => .rfl
  | transcoder t =>
    have h := TranscoderThread.exit_ends_iff inp.getframe t n
    have hembed : Ends (sleeper inp) (exitFunction (.transcoder t)) n ↔
        Ends (TranscoderThread.sleeper inp.getframe) t.transcoderExit n :=
      ends_embed (k := sleeper inp) Thread.transcoder (fun _ => rfl) (fun _ => .rfl) fun _ => .rfl
    rw [hembed, h]
    exact ⟨fun hle => ⟨not_false, hle⟩, fun hle => hle.2⟩
  | nvm t =>
    have h := NvmThread.exit_ends_iff inp.nvm t n
    have hembed : Ends (sleeper inp) (exitFunction (.nvm t)) n ↔
        Ends (NvmThread.sleeper inp.nvm) t.nvmExit n :=
      ends_embed (k := sleeper inp) Thread.nvm (fun _ => rfl) (fun _ => .rfl) fun _ => .rfl
    rw [hembed, h]
    exact ⟨fun hle => ⟨not_false, hle⟩, fun hle => hle.2⟩

variable (inp) in
theorem step_working (h : t.Working) : (t.taskStep inp).Working := by
  cases t with
  | detection t => exact DetectionThread.step_working inp.rd h
  | camera t => exact CameraThread.step_working inp.passes h
  | transcoder t => exact TranscoderThread.step_working inp.getframe h
  | nvm t => exact NvmThread.step_working inp.nvm h

theorem Working.not_ended (h : t.Working) : ¬ t.Ended := by
  cases t with
  | detection t => exact DetectionThread.Working.pc h
  | camera t => exact (CameraThread.Working.pc h).1
  | transcoder t => exact TranscoderThread.Working.pc h
  | nvm t => exact (NvmThread.Working.pc h).2

theorem AtDelay.not_ended (h : t.AtDelay) : ¬ t.Ended := by
  intro hended
  cases t <;> exact absurd (Eq.trans (Eq.symm h) hended) (by decide)

@[simp] theorem exitFunction_ended : t.exitFunction.Ended ↔ t.Ended := by
  cases t <;> rfl

@[simp] theorem exitFunction_atDelay : t.exitFunction.AtDelay ↔ t.AtDelay := by
  cases t <;> rfl

theorem Left.ended (h : t.Left) : t.Ended := by
  cases t with
  | nvm t => exact h.1
  | _ => exact h

/- A task that comes to its end has run the statements behind its loop. -/
theorem step_left (hended : ¬ t.Ended) (h : (t.taskStep inp).Ended) :
    (t.taskStep inp).Left := by
  cases t with
  | nvm t =>
    refine ⟨h, ?_⟩
    obtain ⟨pc, exitTask, i, reads, saves, closed⟩ := t
    cases pc with
    | close => rfl
    | ended => exact absurd rfl hended
    | forTest =>
      simp only [taskStep, Ended, NvmThread.taskStep, NvmThread.goto] at h
      split at h <;> cases h
    | startread =>
      simp only [taskStep, Ended, NvmThread.taskStep] at h
      split at h <;> cases h
    | save =>
      simp only [taskStep, Ended, NvmThread.taskStep] at h
      split at h <;> cases h
    | exitTest =>
      simp only [taskStep, Ended, NvmThread.taskStep, NvmThread.goto] at h
      split at h <;> cases h
    | _ => cases h
  | _ => exact h

end Thread

/-- The tasks of `main.c`; an address stands for each task function. -/
def creates : List Create :=
  [⟨"detection", 0, 95, some 100, some 101, 11, 0⟩, ⟨"camera", 0, 90, some 200, some 201, 22, 0⟩,
    ⟨"transcoder", 0, 80, some 300, some 301, 66, 0⟩, ⟨"nvm", 0, 75, some 400, some 401, 66, 0⟩]

def firstThreads : ℕ → Thread
  | 0 => .detection .start
  | 1 => .camera .start
  | 2 => .transcoder .start
  | _ => .nvm .start

/-- `asleep i` tells that task `i` is in the `sem_wait` of its `osal_task_delay`,
`exits` is the `i` of the loop over the exit functions. `notified i` keeps the
thread and the count of its semaphore from when its exit function was called,
`slept i` that it was asleep then and has not been woken, and `interrupts i` counts
its waits that a signal has ended since then. -/
structure Program where
  teardown : Teardown
  threads : ℕ → Thread
  asleep : ℕ → Bool
  exits : ℕ
  notified : ℕ → Option (Thread × ℕ)
  slept : ℕ → Bool
  interrupts : ℕ → ℕ

inductive ProgramAct where
  | create (calls : CreateCalls)
  | startScheduler (ret : ℤ)
  | alarm
  | sequencerPass
  | task (i : ℕ)
  | interrupted (i : ℕ)
  | shutdown
  | exitFunction
  | waitAll
  | osalDeinit (c : Caller)
  | cancellation (i : ℕ)
  deriving DecidableEq

namespace Program

def init (rtMaxPrio rtMinPrio : ℤ) : Program :=
  ⟨.init rtMaxPrio rtMinPrio, firstThreads, fun _ => false, 0, fun _ => none, fun _ => false,
    fun _ => 0⟩

def signalSem (s : Program) (i : ℕ) : ℕ := (s.teardown.osal.sequencers i).signalSem

def exitFunc (s : Program) (i : ℕ) : OsalFunc := (s.teardown.osal.tcb i).taskExitFunc

def setThread (i : ℕ) (t : Thread) (s : Program) : Program :=
  { s with threads := Function.update s.threads i t }

def osalStep (a : TeardownAct) (s : Program) : Option Program :=
  (s.teardown.step a).map fun teardown => { s with teardown := teardown }

/-- `osal_task_delay`: the state is written, then the semaphore is waited for. -/
def delayStep (inp : Inputs) (i : ℕ) (s : Program) : Option Program :=
  if s.asleep i then
    (s.teardown.step (.wake i.toUInt8)).map fun teardown =>
      { s.setThread i ((s.threads i).taskStep inp) with
        teardown := teardown
        asleep := Function.update s.asleep i false
        slept := Function.update s.slept i false }
  else if s.teardown.osal.osInitialized then
    (s.teardown.step (.suspend i.toUInt8)).map fun teardown =>
      { s with teardown := teardown, asleep := Function.update s.asleep i true }
  else some (s.setThread i ((s.threads i).taskStep inp))

/-- With its handler installed a signal ends the wait with `EINTR`, and
`osal_task_delay` does not look at the result. -/
def interruptStep (inp : Inputs) (i : ℕ) (s : Program) : Option Program :=
  if s.teardown.mainPc ≠ .creating ∧ s.teardown.tasks i = .running ∧ (s.threads i).AtDelay ∧
      s.asleep i then
    some { s.setThread i ((s.threads i).taskStep inp) with
      asleep := Function.update s.asleep i false
      slept := Function.update s.slept i false
      interrupts := Function.update s.interrupts i (s.interrupts i + 1) }
  else none

/-- One statement of a task. -/
def taskStep (inp : Inputs) (i : ℕ) (s : Program) : Option Program :=
  match s.teardown.tasks i with
  | .running =>
    if (s.threads i).Ended then s.osalStep (.taskDelete i)
    else if (s.threads i).AtDelay then s.delayStep inp i
    else some (s.setThread i ((s.threads i).taskStep inp))
  | .deleting => s.osalStep (.taskClear i)
  | .exiting => s.osalStep (.taskExit i)
  | _ => none

/-- The exit function of entry `i` is called. -/
def Called (s : Program) (i : ℕ) : Prop :=
  s.teardown.osal.taskStates i ≠ .unused ∧ s.exitFunc i ≠ none

instance (s : Program) (i : ℕ) : Decidable (s.Called i) := inferInstanceAs (Decidable (_ ∧ _))

/-- One pass of the loop over the exit functions. -/
def exitStep (s : Program) : Option Program :=
  if s.teardown.deinit .scheduler = .test ∧ s.exits < MAX_TASKS then
    if s.Called s.exits then
      some { s.setThread s.exits (s.threads s.exits).exitFunction with
        exits := s.exits + 1
        notified := Function.update s.notified s.exits
          (some (s.threads s.exits, s.signalSem s.exits))
        slept := Function.update s.slept s.exits (s.asleep s.exits)
        interrupts := Function.update s.interrupts s.exits 0 }
    else some { s with exits := s.exits + 1 }
  else none

def step (inp : Inputs) (s : Program) : ProgramAct → Option Program
  | .create calls =>
    match creates[s.teardown.osal.taskIdx.toNat]? with
    | some c => s.osalStep (.create c calls)
    | none => none
  | .startScheduler ret =>
    if s.teardown.osal.taskIdx.toNat = creates.length then s.osalStep (.startScheduler ret)
    else none
  | .alarm => s.osalStep .alarm
  | .sequencerPass => s.osalStep .sequencerPass
  | .task i => s.taskStep inp i
  | .interrupted i => s.interruptStep inp i
  | .shutdown => s.osalStep .shutdown
  | .exitFunction => s.exitStep
  | .waitAll => s.osalStep .waitAll
  | .osalDeinit c =>
    if c = .scheduler → s.exits = MAX_TASKS then s.osalStep (.osalDeinit c) else none
  | .cancellation i => s.osalStep (.cancellation i)

variable {inp : Inputs} {s u : Program}

theorem osalStep_some {a : TeardownAct} (h : s.osalStep a = some u) :
    ∃ d, s.teardown.step a = some d ∧ u = { s with teardown := d } := by
  obtain ⟨d, hd, rfl⟩ := Option.map_eq_some_iff.mp h
  exact ⟨d, hd, rfl⟩

structure SameKind (a : ProgramAct) (b : TeardownAct) : Prop where
  waitAll : b = .waitAll → a = .waitAll
  shutdown : b = .shutdown → a = .shutdown

/- `osal_task_wait_all` and the shutdown are the same steps there. -/
theorem step_osal {a : ProgramAct} (hu : s.step inp a = some u) :
    u.teardown = s.teardown ∨ ∃ b, s.teardown.InTable b ∧ SameKind a b ∧
      s.teardown.step b = some u.teardown := by
  have hosal {b : TeardownAct} (htable : s.teardown.InTable b) (hv : s.osalStep b = some u)
      (hb : SameKind a b) :
      u.teardown = s.teardown ∨ ∃ b, s.teardown.InTable b ∧ SameKind a b ∧
        s.teardown.step b = some u.teardown := by
    obtain ⟨d, hd, rfl⟩ := osalStep_some hv
    exact .inr ⟨b, htable, hb, hd⟩
  cases a with
  | create calls =>
    simp only [step] at hu
    cases hc : creates[s.teardown.osal.taskIdx.toNat]? with
    | none => simp [hc] at hu
    | some c =>
      have hlt : s.teardown.osal.taskIdx.toNat < creates.length := by
        by_contra hge
        rw [List.getElem?_eq_none (Nat.le_of_not_lt hge)] at hc
        cases hc
      simp only [hc] at hu
      exact hosal (b := .create c calls) (hlt.trans (by decide)) hu ⟨nofun, nofun⟩
  | startScheduler ret =>
    simp only [step, Option.ite_none_right_eq_some] at hu
    exact hosal (by trivial) hu.2 ⟨nofun, nofun⟩
  | alarm => exact hosal (by trivial) hu ⟨nofun, nofun⟩
  | sequencerPass => exact hosal (by trivial) hu ⟨nofun, nofun⟩
  | task i =>
    simp only [step, taskStep] at hu
    split at hu
    · split at hu
      · exact hosal (by trivial) hu ⟨nofun, nofun⟩
      · split at hu
        · unfold delayStep at hu
          split at hu
          · obtain ⟨d, hd, rfl⟩ := Option.map_eq_some_iff.mp hu
            exact .inr ⟨.wake i.toUInt8, trivial, ⟨nofun, nofun⟩, hd⟩
          · split at hu
            · obtain ⟨d, hd, rfl⟩ := Option.map_eq_some_iff.mp hu
              exact .inr ⟨.suspend i.toUInt8, trivial, ⟨nofun, nofun⟩, hd⟩
            · obtain rfl := Option.some.inj hu
              exact .inl rfl
        · obtain rfl := Option.some.inj hu
          exact .inl rfl
    · exact hosal (by trivial) hu ⟨nofun, nofun⟩
    · exact hosal (by trivial) hu ⟨nofun, nofun⟩
    · cases hu
  | interrupted i =>
    simp only [step, interruptStep, Option.ite_none_right_eq_some, Option.some.injEq] at hu
    obtain ⟨-, rfl⟩ := hu
    exact .inl rfl
  | shutdown => exact hosal (by trivial) hu ⟨nofun, fun _ => rfl⟩
  | exitFunction =>
    simp only [step, exitStep, Option.ite_none_right_eq_some] at hu
    obtain ⟨-, hu⟩ := hu
    split at hu
    · obtain rfl := Option.some.inj hu
      exact .inl rfl
    · obtain rfl := Option.some.inj hu
      exact .inl rfl
  | waitAll => exact hosal (by trivial) hu ⟨fun _ => rfl, nofun⟩
  | osalDeinit c =>
    simp only [step, Option.ite_none_right_eq_some] at hu
    exact hosal (by trivial) hu.2 ⟨nofun, nofun⟩
  | cancellation i => exact hosal (by trivial) hu ⟨nofun, nofun⟩

/-- Every step is one that the teardown knows, or one that it does not see. -/
theorem step_teardown {a : ProgramAct} (hu : s.step inp a = some u) :
    u.teardown = s.teardown ∨
      ∃ b, s.teardown.InTable b ∧ s.teardown.step b = some u.teardown := by
  rcases step_osal hu with hsame | ⟨b, htable, -, hb⟩
  · exact .inl hsame
  · exact .inr ⟨b, htable, hb⟩

/- So the invariant of the teardown holds in every run of the program. -/
theorem step_teardown_inv {a : ProgramAct} (h : s.teardown.Inv) (hu : s.step inp a = some u) :
    u.teardown.Inv := by
  rcases step_teardown hu with hsame | ⟨b, htable, hb⟩
  · rw [hsame]
    exact h
  · exact Teardown.step_inv h htable hb

end Program

end MotionDetector.Shutdown
