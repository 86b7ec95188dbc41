import MotionDetector.Lib.Printf
import MotionDetector.Types

/-!
# The system log (`utils/syslog/syslog.c`)

A `char` is a Lean character. The hooks `_printFunc` and `_vprintFunc` are the
two functions they are set to in every initialized state.
-/

namespace MotionDetector

open Printf

variable {α : Type*}

/-- What may be given as a format: a string that leaves no conversion open. With
its NUL it is an object, which has no more bytes than an `int` can count. -/
structure FormatString where
  chars : List Char
  noNul : '\x00' ∉ chars
  whole : Whole chars
  small : chars.length < INT_MAX

namespace FormatString

def strlen (msg : FormatString) : ℕ := msg.chars.length

/-- `msg[i]`, which is the NUL for `i = strlen(msg)`. -/
def charAt (msg : FormatString) (i : ℕ) : Char := msg.chars.getD i '\x00'

@[simp] theorem charAt_strlen (msg : FormatString) : msg.charAt msg.strlen = '\x00' := by
  simp [charAt, strlen]

end FormatString

/-- The static members; only an open file is ever initialized. -/
structure Syslog where
  courseNum : Int32
  assignmentNum : Int32
  isInitialized : Bool
  traceFd : ℤ
  ready : isInitialized = true → 0 ≤ traceFd

/-- What `open` returns for a file name, and whether `popen` returns a stream. -/
structure SyslogCalls where
  openFile : List Char → ℤ
  popen : Bool

def SYSLOG_FILE_NAME_SIZE : ℕ := 20

def syslogInit (F : Formatter α) (courseNum assignmentNum : Int32) (calls : SyslogCalls)
    (s : Syslog) : SysResult × Syslog :=
  if ¬ s.isInitialized then
    let buf := (vsnprintf F SYSLOG_FILE_NAME_SIZE "syslog-prog-%i.%i.txt".toList
      [.int courseNum.toInt, .int assignmentNum.toInt]).2
    let traceFd := calls.openFile buf
    if h : traceFd < 0 then (.failure, ⟨courseNum, assignmentNum, false, traceFd, nofun⟩)
    else if ¬ calls.popen then (.failure, ⟨courseNum, assignmentNum, false, traceFd, nofun⟩)
    else (.success, ⟨courseNum, assignmentNum, true, traceFd, fun _ => Int.not_lt.mp h⟩)
  else (.ignore, s)

def syslogClose (s : Syslog) : SysResult × Syslog :=
  if s.isInitialized then (.success, { s with isInitialized := false, ready := nofun })
  else (.ignore, s)

theorem syslogInit_isInitialized {F : Formatter α} {courseNum assignmentNum : Int32}
    {calls : SyslogCalls} {s : Syslog}
    (h : (syslogInit F courseNum assignmentNum calls s).1 = .success) :
    (syslogInit F courseNum assignmentNum calls s).2.isInitialized = true := by
  revert h
  unfold syslogInit
  split
  · dsimp only
    split
    · exact nofun
    · split
      · exact nofun
      · exact fun _ => rfl
  · exact nofun

/-! ### Writing -/

/-- A call of `write`: what the buffer holds in front of its NUL, and the number
of bytes asked for. -/
structure TraceWrite where
  fd : ℤ
  stored : List Char
  count : ℕ
  deriving DecidableEq, Repr

/-- The body that `trace_write` and `vtrace_write` share. -/
def formatWrite (F : Formatter α) (s : Syslog) (msg : List Char) (args : List (Arg α)) :
    ℤ × List TraceWrite :=
  if s.traceFd < 0 then (0, [])
  else
    let (n, buf) := vsnprintf F 256 msg args
    if n > -1 then (n, [⟨s.traceFd, buf, n.toNat⟩]) else (n, [])

def traceWrite (F : Formatter α) (s : Syslog) (msg : List Char) (args : List (Arg α)) :
    ℤ × List TraceWrite :=
  formatWrite F s msg args

def vtraceWrite (F : Formatter α) (s : Syslog) (msg : List Char) (argp : List (Arg α)) :
    ℤ × List TraceWrite :=
  formatWrite F s msg argp

/-- What `strftime` stored in the three arrays. -/
structure LocalTime where
  month : List Char
  day : List Char
  ti : List Char
  month_le : month.length ≤ 3
  day_le : day.length ≤ 2
  ti_le : ti.length ≤ 8

def PLATFORM : List Char := "beaglebone".toList

def syslogTrace (F : Formatter α) (msg : FormatString) (args : List (Arg α)) (localTime : LocalTime)
    (s : Syslog) : List TraceWrite :=
  if s.isInitialized then
    let date := (vsnprintf F 17 "%s %s %s".toList
      [.str localTime.month, .str localTime.day, .str localTime.ti]).2
    let fmt := "%s %s: [COURSE #:%i][Final Project] ".toList
    let header := traceWrite F s fmt
      [.str date, .str PLATFORM, .int s.courseNum.toInt, .int s.assignmentNum.toInt]
    let line :=
      if '\n' ≠ msg.charAt msg.strlen then
        let formatted_msg := (vsnprintf F 256 "%s\n".toList [.str msg.chars]).2
        vtraceWrite F s formatted_msg args
      else vtraceWrite F s msg.chars args
    header.2 ++ line.2
  else []

end MotionDetector
