import MotionDetector.Lib.Wakeups
import MotionDetector.Types

/-!
# The loops with an exit flag (`src/transcoder/transcoder.c`, `src/nvm/nvm.c`)

The exit function sets `exit_task`, which only the task reads. The transcoder
tests it before its two frames and sleeps behind them, the NVM task tests it
behind its two images and sleeps only where it is not set.
-/

namespace MotionDetector

open Wakeups

/-! ### `transcoder_task` -/

namespace Transcoder

/-- The statement that comes next; `process_frames` from `getframe` to
`freeframe`. -/
inductive TranscoderPc where
  | exitTest
  | forTest
  | getframe
  | convert
  | write
  | freeframe
  | increment
  | delay
  | ended
  deriving DecidableEq, Repr

/-- `i` is the variable of the `for` loop, `calls` counts the calls of
`framebuffer_getframe_ptr`. -/
structure TranscoderThread where
  pc : TranscoderPc
  exitTask : Bool
  i : ℕ
  calls : ℕ
  deriving DecidableEq, Repr

namespace TranscoderThread

def start : TranscoderThread := ⟨.exitTest, false, 0, 0⟩

def goto (pc : TranscoderPc) (t : TranscoderThread) : TranscoderThread := { t with pc := pc }

/-- One statement of `transcoder_task`. `getframe` gives the results of
`framebuffer_getframe_ptr`; what is done with a frame decides nothing here. -/
def taskStep (getframe : ℕ → SysResult) (t : TranscoderThread) : TranscoderThread :=
  match t.pc with
  | .exitTest => if t.exitTask then t.goto .ended else { t with i := 0, pc := .forTest }
  | .forTest => t.goto (if t.i < 2 then .getframe else .delay)
  | .getframe =>
    { t with
      calls := t.calls + 1
      pc := if getframe t.calls = .success then .convert else .increment }
  | .convert => t.goto .write
  | .write => t.goto .freeframe
  | .freeframe => t.goto .increment
  | .increment => { t with i := t.i + 1, pc := .forTest }
  | .delay => t.goto .exitTest
  | .ended => t

def transcoderExit (t : TranscoderThread) : TranscoderThread := { t with exitTask := true }

def sleeper (getframe : ℕ → SysResult) : Sleeper TranscoderThread :=
  ⟨taskStep getframe, fun t => t.pc = .delay, fun t => t.pc = .ended⟩

def wakeUps : TranscoderPc → ℕ
  | .exitTest | .ended => 0
  | _ => 1

/-- Statements between the exit function and the end, at most; a pass of the
`for` loop has six. -/
def remaining (t : TranscoderThread) : ℕ :=
  match t.pc with
  | .ended => 0
  | .exitTest => 1
  | .delay => 2
  | .forTest => 3 + 6 * (2 - t.i)
  | .increment => 4 + 6 * (1 - t.i)
  | .freeframe => 5 + 6 * (1 - t.i)
  | .write => 6 + 6 * (1 - t.i)
  | .convert => 7 + 6 * (1 - t.i)
  | .getframe => 8 + 6 * (1 - t.i)

structure Working (t : TranscoderThread) : Prop where
  exitTask : t.exitTask = false
  pc : t.pc ≠ .ended

theorem start_working : Working start := ⟨rfl, by decide⟩

variable {getframe : ℕ → SysResult} {t : TranscoderThread}

variable (getframe) in
theorem step_working (h : Working t) : Working (taskStep getframe t) := by
  obtain ⟨hflag, hpc⟩ := h
  obtain ⟨pc, exitTask, i, calls⟩ := t
  obtain rfl : exitTask = false := hflag
  cases pc with
  | exitTest => exact ⟨rfl, nofun⟩
  | forTest =>
    refine ⟨rfl, ?_⟩
    simp only [taskStep, goto]
    split <;> nofun
  | getframe =>
    refine ⟨rfl, ?_⟩
    simp only [taskStep]
    split <;> nofun
  | convert => exact ⟨rfl, nofun⟩
  | write => exact ⟨rfl, nofun⟩
  | freeframe => exact ⟨rfl, nofun⟩
  | increment => exact ⟨rfl, nofun⟩
  | delay => exact ⟨rfl, nofun⟩
  | ended => exact absurd rfl hpc

theorem step_closer (hflag : t.exitTask = true) (hpc : t.pc ≠ .ended) :
    (taskStep getframe t).exitTask = true ∧ remaining (taskStep getframe t) < remaining t ∧
      (t.pc ≠ .delay → wakeUps (taskStep getframe t).pc = wakeUps t.pc) := by
  obtain ⟨pc, exitTask, i, calls⟩ := t
  obtain rfl : exitTask = true := hflag
  cases pc with
  | exitTest => exact ⟨rfl, Nat.lt_add_one _, fun _ => rfl⟩
  | forTest =>
    simp only [taskStep, goto]
    split
    · next hi => exact ⟨trivial, by simp only [remaining]; omega, fun _ => rfl⟩
    · exact ⟨trivial, by simp only [remaining]; omega, fun _ => rfl⟩
  | getframe =>
    simp only [taskStep]
    split
    · exact ⟨trivial, by simp only [remaining]; omega, fun _ => rfl⟩
    · exact ⟨trivial, by simp only [remaining]; omega, fun _ => rfl⟩
  | convert => exact ⟨rfl, by simp only [taskStep, goto, remaining]; omega, fun _ => rfl⟩
  | write => exact ⟨rfl, by simp only [taskStep, goto, remaining]; omega, fun _ => rfl⟩
  | freeframe => exact ⟨rfl, by simp only [taskStep, goto, remaining]; omega, fun _ => rfl⟩
  | increment => exact ⟨rfl, by simp only [taskStep, remaining]; omega, fun _ => rfl⟩
  | delay => exact ⟨rfl, Nat.lt_add_one _, fun h => absurd rfl h⟩
  | ended => exact absurd rfl hpc

theorem exit_ends_iff (getframe : ℕ → SysResult) (t : TranscoderThread) (n : ℕ) :
    Ends (sleeper getframe) t.transcoderExit n ↔ wakeUps t.pc ≤ n := by
  apply ends_iff_need (s := t.transcoderExit) (P := fun t => t.exitTask = true) remaining
    (fun t => wakeUps t.pc)
  · intro u _ hended
    rw [show u.pc = .ended from hended]
    rfl
  · exact fun u hflag hended hdelay => (step_closer hflag hended).2.2 hdelay
  · intro u _ _ hdelay
    have hpc : u.pc = .delay := hdelay
    simp [sleeper, taskStep, goto, hpc, wakeUps]
  · exact fun u hflag hended => ⟨(step_closer hflag hended).1, (step_closer hflag hended).2.1⟩
  · rfl

end TranscoderThread

end Transcoder

/-! ### `nvm_task` -/

namespace Nvm

inductive NvmPc where
  | forTest
  | startread
  | save
  | traceError
  | endread
  | increment
  | exitTest
  | delay
  | close
  | ended
  deriving DecidableEq, Repr

/-- `reads` and `saves` count the calls of `imagebuffer_startread` and of
`image_save`, `closed` tells that `image_close` has been called. -/
structure NvmThread where
  pc : NvmPc
  exitTask : Bool
  i : ℕ
  reads : ℕ
  saves : ℕ
  closed : Bool
  deriving DecidableEq, Repr

/-- The results of `imagebuffer_startread` and of `image_save`. -/
structure NvmCalls where
  startread : ℕ → SysResult
  imageSave : ℕ → SysResult

namespace NvmThread

def start : NvmThread := ⟨.forTest, false, 0, 0, 0, false⟩

def goto (pc : NvmPc) (t : NvmThread) : NvmThread := { t with pc := pc }

/-- One statement of `nvm_task`. -/
def taskStep (calls : NvmCalls) (t : NvmThread) : NvmThread :=
  match t.pc with
  | .forTest => t.goto (if t.i < 2 then .startread else .exitTest)
  | .startread =>
    { t with
      reads := t.reads + 1
      pc := if calls.startread t.reads = .success then .save else .increment }
  | .save =>
    { t with
      saves := t.saves + 1
      pc := if calls.imageSave t.saves ≠ .success then .traceError else .endread }
  | .traceError => t.goto .endread
  | .endread => t.goto .increment
  | .increment => { t with i := t.i + 1, pc := .forTest }
  | .exitTest => t.goto (if t.exitTask then .close else .delay)
  | .delay => { t with i := 0, pc := .forTest }
  | .close => { t with closed := true, pc := .ended }
  | .ended => t

def nvmExit (t : NvmThread) : NvmThread := { t with exitTask := true }

def sleeper (calls : NvmCalls) : Sleeper NvmThread :=
  ⟨taskStep calls, fun t => t.pc = .delay, fun t => t.pc = .ended⟩

def wakeUps : NvmPc → ℕ
  | .delay => 1
  | _ => 0

def remaining (t : NvmThread) : ℕ :=
  match t.pc with
  | .ended => 0
  | .close => 1
  | .exitTest => 2
  | .forTest => 3 + 6 * (2 - t.i)
  | .increment => 4 + 6 * (1 - t.i)
  | .endread => 5 + 6 * (1 - t.i)
  | .traceError => 6 + 6 * (1 - t.i)
  | .save => 7 + 6 * (1 - t.i)
  | .startread => 8 + 6 * (1 - t.i)
  | .delay => 16

structure Working (t : NvmThread) : Prop where
  exitTask : t.exitTask = false
  pc : t.pc ≠ .close ∧ t.pc ≠ .ended

theorem start_working : Working start := ⟨rfl, by decide⟩

variable {calls : NvmCalls} {t : NvmThread}

variable (calls) in
theorem step_working (h : Working t) : Working (taskStep calls t) := by
  obtain ⟨hflag, hclose, hended⟩ := h
  obtain ⟨pc, exitTask, i, reads, saves, closed⟩ := t
  obtain rfl : exitTask = false := hflag
  cases pc with
  | forTest =>
    refine ⟨rfl, ?_⟩
    simp only [taskStep, goto]
    split <;> decide
  | startread =>
    refine ⟨rfl, ?_⟩
    simp only [taskStep]
    split <;> decide
  | save =>
    refine ⟨rfl, ?_⟩
    simp only [taskStep]
    split <;> decide
  | traceError => exact ⟨rfl, nofun, nofun⟩
  | endread => exact ⟨rfl, nofun, nofun⟩
  | increment => exact ⟨rfl, nofun, nofun⟩
  | exitTest => exact ⟨rfl, nofun, nofun⟩
  | delay => exact ⟨rfl, nofun, nofun⟩
  | close => exact absurd rfl hclose
  | ended => exact absurd rfl hended

theorem step_closer (hflag : t.exitTask = true) (hpc : t.pc ≠ .ended) :
    (taskStep calls t).exitTask = true ∧ remaining (taskStep calls t) < remaining t ∧
      (t.pc ≠ .delay → wakeUps (taskStep calls t).pc = wakeUps t.pc) := by
  obtain ⟨pc, exitTask, i, reads, saves, closed⟩ := t
  obtain rfl : exitTask = true := hflag
  cases pc with
  | forTest =>
    simp only [taskStep, goto]
    split
    · next hi => exact ⟨trivial, by simp only [remaining]; omega, fun _ => rfl⟩
    · exact ⟨trivial, by simp only [remaining]; omega, fun _ => rfl⟩
  | startread =>
    simp only [taskStep]
    split
    · exact ⟨trivial, by simp only [remaining]; omega, fun _ => rfl⟩
    · exact ⟨trivial, by simp only [remaining]; omega, fun _ => rfl⟩
  | save =>
    simp only [taskStep]
    split
    · exact ⟨trivial, by simp only [remaining]; omega, fun _ => rfl⟩
    · exact ⟨trivial, by simp only [remaining]; omega, fun _ => rfl⟩
  | traceError => exact ⟨rfl, by simp only [taskStep, goto, remaining]; omega, fun _ => rfl⟩
  | endread => exact ⟨rfl, by simp only [taskStep, goto, remaining]; omega, fun _ => rfl⟩
  | increment => exact ⟨rfl, by simp only [taskStep, remaining]; omega, fun _ => rfl⟩
  | exitTest => exact ⟨rfl, Nat.lt_add_one _, fun _ => rfl⟩
  | delay => exact ⟨rfl, Nat.lt_add_one _, fun h => absurd rfl h⟩
  | close => exact ⟨rfl, Nat.lt_add_one _, fun _ => rfl⟩
  | ended => exact absurd rfl hpc

theorem exit_ends_iff (calls : NvmCalls) (t : NvmThread) (n : ℕ) :
    Ends (sleeper calls) t.nvmExit n ↔ wakeUps t.pc ≤ n := by
  apply ends_iff_need (s := t.nvmExit) (P := fun t => t.exitTask = true) remaining
    (fun t => wakeUps t.pc)
  · intro u _ hended
    rw [show u.pc = .ended from hended]
    rfl
  · exact fun u hflag hended hdelay => (step_closer hflag hended).2.2 hdelay
  · intro u _ _ hdelay
    have hpc : u.pc = .delay := hdelay
    simp [sleeper, taskStep, hpc, wakeUps]
  · exact fun u hflag hended => ⟨(step_closer hflag hended).1, (step_closer hflag hended).2.1⟩
  · rfl

end NvmThread

end Nvm

end MotionDetector
