import MotionDetector.Detection.Trace

/-!
# Failed reads of the sensor

`read_gpio_value` returns -1 when it fails, and `detection_task` keeps the result
in a `uint8_t`: to the FSM a failed read is a sample of 255.
-/

namespace MotionDetector.Detection

/-- The results of `open` and `read`, and the character read. -/
structure GpioCalls where
  fd : ℤ
  read : ℤ
  value : Char
  deriving DecidableEq, Repr

def readGpioValue (calls : GpioCalls) : ℤ :=
  if calls.fd < 0 then -1
  else if calls.read ≠ 1 then -1
  else if calls.value = '1' then 1 else 0

/-- The conversion of an `int` to `uint8_t`. -/
def toUint8 (x : ℤ) : UInt8 := (x % 256).toNat.toUInt8

structure Pass where
  calls : GpioCalls
  clock : Timespec
  deriving DecidableEq, Repr

def Pass.reading (p : Pass) : Reading := ⟨toUint8 (readGpioValue p.calls), p.clock⟩

def Pass.Failed (p : Pass) : Prop := readGpioValue p.calls = -1

instance (p : Pass) : Decidable p.Failed := inferInstanceAs (Decidable (_ = _))

def readings (passes : ℕ → Pass) (i : ℕ) : Reading := (passes i).reading

/-- In pass `i` a failed read is not motion, leaves a timeout to go on and lets a
pending loss be sent. -/
structure FailureIgnored (passes : ℕ → Pass) (i : ℕ) : Prop where
  detected : Event.motionDetected ∈ sentAt (readings passes) i →
    readGpioValue (passes i).calls = 1
  timeout : (passes i).Failed → (stateAt (readings passes) i).detectionState = .timeout →
    stateAt (readings passes) (i + 1) =
      timeoutSwitch (passes i).clock (stateAt (readings passes) i)
  lost : (passes i).Failed → (stateAt (readings passes) i).detectionState = .motionLost →
    sentAt (readings passes) i = [Event.motionLost]

variable {passes : ℕ → Pass} {i : ℕ}

theorem readGpioValue_cases (calls : GpioCalls) :
    readGpioValue calls = -1 ∨ readGpioValue calls = 0 ∨ readGpioValue calls = 1 := by
  unfold readGpioValue
  split
  · exact .inl rfl
  · split
    · exact .inl rfl
    · split
      · exact .inr (.inr rfl)
      · exact .inr (.inl rfl)

/- Only a read of 0 is low. -/
theorem low_readings (passes : ℕ → Pass) (i : ℕ) :
    Low (readings passes) i ↔ readGpioValue (passes i).calls = 0 := by
  simp only [Low, readings, Pass.reading]
  rcases readGpioValue_cases (passes i).calls with h | h | h
  · rw [h]
    decide
  · rw [h]
    decide
  · rw [h]
    decide

theorem Pass.Failed.not_low (h : (passes i).Failed) : ¬ Low (readings passes) i := by
  have hvalue : readGpioValue (passes i).calls = -1 := h
  rw [low_readings, hvalue]
  decide

/- A timeout runs, or a loss is pending, only behind a low sample. -/
theorem After.low_of_timeout {rd : ℕ → Reading} {n : ℕ} {s : DetectionFsm} (h : After rd n s)
    (hs : s.detectionState = .timeout ∨ s.detectionState = .motionLost) : Low rd n := by
  cases h with
  | active _ _ state => rcases hs with hs | hs <;> rw [state] at hs <;> cases hs
  | quiet low _ _ => exact low n le_rfl
  | waiting _ run _ _ _ _ _ => exact run.low n run.le le_rfl
  | elapsed _ run _ _ _ _ => exact run.low n run.le le_rfl
  | losing _ _ run _ _ _ _ => exact run.low n run.le le_rfl
  | lost _ _ run _ _ _ _ => exact run.low n run.le le_rfl

theorem low_before_timeout {rd : ℕ → Reading} (hs : (stateAt rd i).detectionState = .timeout ∨
    (stateAt rd i).detectionState = .motionLost) : i ≠ 0 ∧ Low rd (i - 1) := by
  cases i with
  | zero => rcases hs with hs | hs <;> cases hs
  | succ m => exact ⟨Nat.succ_ne_zero m, (after_pass rd m).low_of_timeout hs⟩

/-- In every run failed reads are ignored exactly if no read fails in the first
pass or in the one behind a read of 0. -/
theorem failure_ignored_iff (passes : ℕ → Pass) (n : ℕ) :
    (∀ i ≤ n, FailureIgnored passes i) ↔
      ∀ i ≤ n, (passes i).Failed → i ≠ 0 ∧ readGpioValue (passes (i - 1)).calls ≠ 0 := by
  constructor
  · intro h i hi hfailed
    by_contra hedge
    have hsent : Event.motionDetected ∈ sentAt (readings passes) i := by
      rw [detected_iff, low_readings passes (i - 1)]
      refine ⟨hfailed.not_low, ?_⟩
      by_contra hnot
      exact hedge (not_or.mp hnot)
    have hone := (h i hi).detected hsent
    rw [show readGpioValue (passes i).calls = -1 from hfailed] at hone
    cases hone
  · intro h i hi
    have hno (hfailed : (passes i).Failed)
        (hs : (stateAt (readings passes) i).detectionState = .timeout ∨
          (stateAt (readings passes) i).detectionState = .motionLost) : False := by
      obtain ⟨-, hlow⟩ := low_before_timeout hs
      exact (h i hi hfailed).2 ((low_readings passes (i - 1)).mp hlow)
    refine ⟨fun hsent => ?_, fun hfailed hs => (hno hfailed (.inl hs)).elim,
      fun hfailed hs => (hno hfailed (.inr hs)).elim⟩
    rw [detected_iff, low_readings, low_readings] at hsent
    obtain ⟨hhigh, hedge⟩ := hsent
    rcases readGpioValue_cases (passes i).calls with hvalue | hvalue | hvalue
    · obtain ⟨hpos, hne⟩ := h i hi hvalue
      rcases hedge with hedge | hedge
      · exact absurd hedge hpos
      · exact absurd hedge hne
    · exact absurd hvalue hhigh
    · exact hvalue

/-- Motion, its end, and a read that fails while the timeout runs. -/
def failingSensor (i : ℕ) : Pass :=
  ⟨if i = 0 then ⟨3, 1, '1'⟩ else if i = 1 then ⟨3, 1, '0'⟩ else ⟨-1, 0, '0'⟩, ⟨i, 0⟩⟩

theorem failure_taken_for_motion :
    (failingSensor 2).Failed ∧
      (stateAt (readings failingSensor) 2).detectionState = .timeout ∧
      sentAt (readings failingSensor) 2 = [Event.motionDetected] ∧
      (stateAt (readings failingSensor) 3).detectionState = .detecting ∧
      ¬ ∀ i ≤ 2, FailureIgnored failingSensor i := by
  have hsent : sentAt (readings failingSensor) 2 = [Event.motionDetected] := by decide
  refine ⟨by decide, by decide, hsent, by decide, fun h => ?_⟩
  have hone := (h 2 le_rfl).detected (by rw [hsent]; exact List.mem_singleton_self _)
  exact absurd hone (by decide)

end MotionDetector.Detection
