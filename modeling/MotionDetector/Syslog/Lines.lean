import MotionDetector.Syslog.Syslog

/-!
# The lines of the log
-/

namespace MotionDetector

open Printf

variable {α : Type*}

/-- No more bytes are written than the buffer holds. -/
def TraceWrite.Inside (w : TraceWrite) : Prop := w.count ≤ w.stored.length

def TraceWrite.text (w : TraceWrite) : List Char := w.stored.take w.count

def EndsWithNewline (text : List Char) : Prop :=
  ∃ line, text = line ++ ['\n'] ∧ line.getLast? ≠ some '\n'

/-- A call wrote its header and one line. -/
def OneLine (writes : List TraceWrite) : Prop :=
  ∃ header line : TraceWrite, writes = [header, line] ∧ header.Inside ∧ line.Inside ∧
    EndsWithNewline line.text

/-- With room for the newline the message is a line without it. Otherwise 255
characters of the format are left, and they have to make a line of their own. -/
def FormatString.Fits (F : Formatter α) (msg : FormatString) (args : List (Arg α)) : Prop :=
  msg.strlen ≤ 254 ∧ (∃ text, expand F msg.chars args = some text ∧ text.length ≤ 254 ∧
      text.getLast? ≠ some '\n') ∨
    255 ≤ msg.strlen ∧ ∃ text, expand F (msg.chars.take 255) args = some text ∧
      text.length ≤ 255 ∧ EndsWithNewline text

theorem endsWithNewline_concat (text : List Char) :
    EndsWithNewline (text ++ ['\n']) ↔ text.getLast? ≠ some '\n' := by
  constructor
  · rintro ⟨line, heq, hlast⟩
    rw [List.append_cancel_right heq]
    exact hlast
  · exact fun hlast => ⟨text, rfl, hlast⟩

section Trace

variable (F : Formatter α) {s : Syslog}

/-! ### One call of `vsnprintf` and `write` -/

theorem formatWrite_some (hs : s.isInitialized = true) {msg text : List Char} {args : List (Arg α)}
    (h : expand F msg args = some text) (hlen : text.length ≤ INT_MAX) :
    (formatWrite F s msg args).2 = [⟨s.traceFd, text.take 255, text.length⟩] := by
  have hfd : ¬ s.traceFd < 0 := Int.not_lt.mpr (s.ready hs)
  have hn : (text.length : ℤ) > -1 := by omega
  simp only [formatWrite, if_neg hfd, vsnprintf_eq h hlen, if_pos hn, Int.toNat_natCast]

theorem formatWrite_error {msg : List Char} {args : List (Arg α)}
    (h : ∀ text, expand F msg args = some text → INT_MAX < text.length) :
    (formatWrite F s msg args).2 = [] := by
  have hn : vsnprintf F 256 msg args = (-1, []) := by
    unfold vsnprintf
    split
    · rfl
    · rename_i text htext
      exact if_neg (Nat.not_le.mpr (h text htext))
  unfold formatWrite
  split
  · rfl
  · rw [hn]
    rfl

theorem inside_iff (fd : ℤ) (text : List Char) :
    TraceWrite.Inside ⟨fd, text.take 255, text.length⟩ ↔ text.length ≤ 255 := by
  rw [TraceWrite.Inside, List.length_take]
  exact Nat.le_min.trans (and_iff_left (Nat.le_refl _))

theorem text_of_le (fd : ℤ) {text : List Char} (h : text.length ≤ 255) :
    TraceWrite.text ⟨fd, text.take 255, text.length⟩ = text := by
  rw [TraceWrite.text, List.take_of_length_le h, List.take_length]

/-! ### The header -/

theorem date_length_le (t : LocalTime) :
    (vsnprintf F 17 "%s %s %s".toList [.str t.month, .str t.day, .str t.ti]).2.length ≤ 16 := by
  have hdate : expand F "%s %s %s".toList [.str t.month, .str t.day, .str t.ti] =
      some (t.month ++ [' '] ++ t.day ++ [' '] ++ t.ti) := by
    simp [expand, expandFrom_ordinary]
  have hmonth := t.month_le
  have hday := t.day_le
  have hti := t.ti_le
  rw [vsnprintf_eq hdate]
  · exact List.length_take_le 16 _
  · simp only [List.length_append, List.length_cons, List.length_nil, INT_MAX]
    omega

theorem traceWrite_header (hs : s.isInitialized = true) {date : List Char}
    (hdate : date.length ≤ 16) :
    ∃ header : TraceWrite,
      (traceWrite F s "%s %s: [COURSE #:%i][Final Project] ".toList [.str date, .str PLATFORM,
        .int s.courseNum.toInt, .int s.assignmentNum.toInt]).2 = [header] ∧ header.Inside := by
  have hheader : expand F "%s %s: [COURSE #:%i][Final Project] ".toList [.str date, .str PLATFORM,
      .int s.courseNum.toInt, .int s.assignmentNum.toInt] =
        some (date ++ [' '] ++ PLATFORM ++ ": [COURSE #:".toList ++ decimal s.courseNum.toInt ++
          "][Final Project] ".toList) := by
    simp [expand, expandFrom_ordinary]
  have hcourse : (decimal s.courseNum.toInt).length ≤ 11 := by
    have hlow := s.courseNum.le_toInt
    have hhigh := s.courseNum.toInt_lt
    apply decimal_length_le
    omega
  have hplatform : PLATFORM.length = 10 := by decide
  have hbefore : ": [COURSE #:".toList.length = 12 := by simp
  have hbehind : "][Final Project] ".toList.length = 17 := by simp
  have hlen : (date ++ [' '] ++ PLATFORM ++ ": [COURSE #:".toList ++ decimal s.courseNum.toInt ++
      "][Final Project] ".toList).length ≤ 255 := by
    simp only [List.length_append, List.length_singleton, hplatform, hbefore, hbehind]
    omega
  have hmax : 255 ≤ INT_MAX := by decide
  have hwrite := formatWrite_some F hs hheader (Nat.le_trans hlen hmax)
  exact ⟨_, hwrite, (inside_iff s.traceFd _).mpr hlen⟩

/-! ### The message -/

/- `vsnprintf` cuts the text off, and its result tells how long it was. -/
theorem vtraceWrite_line_iff (hs : s.isInitialized = true) (format : List Char)
    (args : List (Arg α)) :
    (∃ line : TraceWrite, (vtraceWrite F s format args).2 = [line] ∧ line.Inside ∧
        EndsWithNewline line.text) ↔
      ∃ text, expand F format args = some text ∧ text.length ≤ 255 ∧ EndsWithNewline text := by
  constructor
  · rintro ⟨line, hline, hinside, hends⟩
    by_cases htext : ∃ text, expand F format args = some text ∧ text.length ≤ INT_MAX
    · obtain ⟨text, htext, hlen⟩ := htext
      rw [vtraceWrite, formatWrite_some F hs htext hlen] at hline
      obtain ⟨rfl⟩ := hline
      have hfits := (inside_iff s.traceFd text).mp hinside
      rw [text_of_le s.traceFd hfits] at hends
      exact ⟨text, htext, hfits, hends⟩
    · have herror : ∀ text, expand F format args = some text → INT_MAX < text.length :=
        fun text h => Nat.not_le.mp fun hlen => htext ⟨text, h, hlen⟩
      rw [vtraceWrite, formatWrite_error F herror] at hline
      cases hline
  · rintro ⟨text, htext, hfits, hends⟩
    refine ⟨_, formatWrite_some F hs htext (Nat.le_trans hfits (by decide)), ?_, ?_⟩
    · exact (inside_iff s.traceFd text).mpr hfits
    · rw [text_of_le s.traceFd hfits]
      exact hends

/- The character looked at is the NUL, so the newline is always appended. -/
theorem syslogTrace_eq (hs : s.isInitialized = true) (msg : FormatString) (args : List (Arg α))
    (t : LocalTime) :
    ∃ header : TraceWrite, header.Inside ∧ syslogTrace F msg args t s =
      header :: (vtraceWrite F s ((msg.chars ++ ['\n']).take 255) args).2 := by
  obtain ⟨header, hheader, hinside⟩ := traceWrite_header F hs (date_length_le F t)
  have hline : expand F "%s\n".toList [.str msg.chars] = some (msg.chars ++ ['\n']) := by
    simp [expand, expandFrom_ordinary]
  have hsmall : (msg.chars ++ ['\n']).length ≤ INT_MAX := by
    rw [List.length_append]
    exact msg.small
  refine ⟨header, hinside, ?_⟩
  have hnul : '\n' ≠ msg.charAt msg.strlen := by
    rw [FormatString.charAt_strlen]
    decide
  simp only [syslogTrace, if_pos hs, if_pos hnul, hheader, vsnprintf_eq hline hsmall]
  rfl

/- So the log gets what is left of the message with its newline. -/
theorem oneLine_iff (hs : s.isInitialized = true) (msg : FormatString) (args : List (Arg α))
    (t : LocalTime) :
    OneLine (syslogTrace F msg args t s) ↔
      ∃ text, expand F ((msg.chars ++ ['\n']).take 255) args = some text ∧ text.length ≤ 255 ∧
        EndsWithNewline text := by
  obtain ⟨header, hinside, htrace⟩ := syslogTrace_eq F hs msg args t
  rw [← vtraceWrite_line_iff F hs, htrace]
  constructor
  · rintro ⟨_, line, hwrites, -, hline⟩
    obtain ⟨rfl, htail⟩ := List.cons.inj hwrites
    exact ⟨line, htail, hline⟩
  · rintro ⟨line, htail, hline⟩
    exact ⟨header, line, by rw [htail], hinside, hline⟩

/-- In every state in which the log is initialized. -/
theorem syslog_trace_line_iff (hs : s.isInitialized = true) (msg : FormatString)
    (args : List (Arg α)) (t : LocalTime) :
    OneLine (syslogTrace F msg args t s) ↔ msg.Fits F args := by
  rw [oneLine_iff F hs, FormatString.Fits, FormatString.strlen]
  rcases Nat.lt_or_ge msg.chars.length 255 with hlen | hlen
  · have hkeep : (msg.chars ++ ['\n']).take 255 = msg.chars ++ ['\n'] := by
      apply List.take_of_length_le
      rw [List.length_append, List.length_singleton]
      omega
    rw [hkeep, expand_concat msg.whole (by decide)]
    constructor
    · rintro ⟨_, hline, hfits, hends⟩
      obtain ⟨text, htext, rfl⟩ := Option.map_eq_some_iff.mp hline
      rw [List.length_append, List.length_singleton] at hfits
      exact .inl ⟨by omega, text, htext, by omega, (endsWithNewline_concat text).mp hends⟩
    · rintro (⟨-, text, htext, hfits, hlast⟩ | ⟨hlong, -⟩)
      · refine ⟨text ++ ['\n'], by rw [htext]; rfl, ?_, (endsWithNewline_concat text).mpr hlast⟩
        rw [List.length_append, List.length_singleton]
        omega
      · omega
  · rw [List.take_append_of_le_length hlen]
    constructor
    · exact fun h => .inr ⟨hlen, h⟩
    · rintro (⟨hshort, -⟩ | ⟨-, h⟩)
      · omega
      · exact h

end Trace

/-! ### Calls -/

/-- The static members before `syslog_init`. -/
def zeroSyslog : Syslog := ⟨0, 0, false, 0, nofun⟩

/-- `main` has initialized the log. -/
def mainSyslog : Syslog := (syslogInit plainFormatter 3 1 ⟨fun _ => 3, true⟩ zeroSyslog).2

theorem mainSyslog_isInitialized : mainSyslog.isInitialized = true := rfl

def march : LocalTime :=
  ⟨"Mar".toList, "16".toList, "12:00:00".toList, by decide, by decide, by decide⟩

def motionDetected : FormatString :=
  ⟨"Motion Detected: %d".toList, by decide, by decide, by decide⟩

def noReadIo : FormatString :=
  ⟨"%s does not support read i/o\n".toList, by decide, by decide, by decide⟩

def stringOnly : FormatString := ⟨"%s".toList, by decide, by decide, by decide⟩

def longMessage : FormatString :=
  ⟨List.replicate 255 'a', by decide +kernel, by decide +kernel, by decide +kernel⟩

theorem syslog_trace_line_iff_motionDetected :
    OneLine (syslogTrace plainFormatter motionDetected [.int 1] march mainSyslog) :=
  (syslog_trace_line_iff plainFormatter mainSyslog_isInitialized motionDetected [.int 1]
    march).mpr (.inl ⟨by decide, "Motion Detected: 1".toList, by decide, by decide, by decide⟩)

/-- A message with a newline of its own gets a second one, a long one gets none,
and a long text is written beyond the end of the buffer. -/
theorem syslog_trace_line_fails :
    ¬ OneLine (syslogTrace plainFormatter noReadIo [.str "/dev/video0".toList] march mainSyslog) ∧
      ¬ OneLine (syslogTrace plainFormatter longMessage [] march mainSyslog) ∧
      ¬ OneLine (syslogTrace plainFormatter stringOnly [.str (List.replicate 255 'a')] march
        mainSyslog) := by
  have hs := mainSyslog_isInitialized
  rw [oneLine_iff plainFormatter hs, oneLine_iff plainFormatter hs, oneLine_iff plainFormatter hs]
  refine ⟨?_, ?_, ?_⟩
  · rintro ⟨text, htext, -, hends⟩
    have htwo : expand plainFormatter ((noReadIo.chars ++ ['\n']).take 255)
        [.str "/dev/video0".toList] =
          some ("/dev/video0 does not support read i/o\n".toList ++ ['\n']) := by decide
    rw [htwo] at htext
    cases htext
    exact (endsWithNewline_concat _).mp hends (by decide)
  · rintro ⟨text, htext, -, line, hline, -⟩
    have hnone : (expand plainFormatter ((longMessage.chars ++ ['\n']).take 255) []).map
        List.getLast? = some (some 'a') := by decide +kernel
    rw [htext, hline] at hnone
    simp at hnone
  · rintro ⟨text, htext, hfits, -⟩
    have hlen : (expand plainFormatter ((stringOnly.chars ++ ['\n']).take 255)
        [.str (List.replicate 255 'a')]).map List.length = some 256 := by
      decide +kernel
    rw [htext] at hlen
    have := Option.some.inj hlen
    omega

end MotionDetector
