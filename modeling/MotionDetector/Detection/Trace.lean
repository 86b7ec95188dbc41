import MotionDetector.Detection.Fsm

/-!
# The event trace of the motion detection FSM

The invariant of the loop names, for the last pass, what the flag, the state
and the substate record of the samples seen so far: the sensor is high, it has
never been high, or it has been low since some pass `r` and the timeout that
started there is running, has just elapsed, is about to be reported or has
been reported.
-/

namespace MotionDetector.Detection

variable (rd : ℕ → Reading)

def Low (i : ℕ) : Prop := (rd i).curStatus = 0

instance (i : ℕ) : Decidable (Low rd i) := inferInstanceAs (Decidable (_ = _))

/-- Pass `r` starts a low run that lasts at least through pass `n`. -/
structure LowRun (r n : ℕ) : Prop where
  pos : 1 ≤ r
  le : r ≤ n
  high : ¬ Low rd (r - 1)
  low : ∀ j, r ≤ j → j ≤ n → Low rd j

def Elapsed (r k : ℕ) : Prop :=
  r < k ∧ 5000000000 ≤ (rd k).clock.nanos - (rd r).clock.nanos

/-- Pass `k` is the first after `r` that reads the clock at least 5 s later. -/
def FirstElapsed (r k : ℕ) : Prop := IsLeast {j | Elapsed rd r j} k

inductive After (n : ℕ) (s : DetectionFsm) : Prop
  | active (high : ¬ Low rd n) (flag : s.motionDetected = true)
      (state : s.detectionState = .detecting)
  | quiet (low : ∀ j ≤ n, Low rd j) (flag : s.motionDetected = false)
      (state : s.detectionState = .detecting)
  | waiting (r : ℕ) (run : LowRun rd r n) (flag : s.motionDetected = false)
      (state : s.detectionState = .timeout) (substate : s.detectionSubstate = .run)
      (start : s.timeoutStart = (rd r).clock) (early : ∀ k ≤ n, ¬ Elapsed rd r k)
  | elapsed (r : ℕ) (run : LowRun rd r n) (flag : s.motionDetected = false)
      (state : s.detectionState = .timeout) (substate : s.detectionSubstate = .exit)
      (first : FirstElapsed rd r n)
  | losing (r k : ℕ) (run : LowRun rd r n) (flag : s.motionDetected = false)
      (state : s.detectionState = .motionLost) (first : FirstElapsed rd r k)
      (index : n = k + 1)
  | lost (r k : ℕ) (run : LowRun rd r n) (flag : s.motionDetected = false)
      (state : s.detectionState = .detecting) (first : FirstElapsed rd r k)
      (index : k + 2 ≤ n)

variable {rd}

theorem LowRun.unique {r r' n n' : ℕ} (h : LowRun rd r n) (h' : LowRun rd r' n') (hn : r ≤ n')
    (hn' : r' ≤ n) : r = r' := by
  have hp := h.pos
  have hp' := h'.pos
  rcases lt_trichotomy r r' with hlt | heq | hgt
  · exact absurd (h.low (r' - 1) (by omega) (by omega)) h'.high
  · exact heq
  · exact absurd (h'.low (r - 1) (by omega) (by omega)) h.high

theorem LowRun.extend {r n : ℕ} (h : LowRun rd r n) (hl : Low rd (n + 1)) :
    LowRun rd r (n + 1) := by
  refine ⟨h.pos, h.le.trans (Nat.le_succ n), h.high, fun j hr hj => ?_⟩
  rcases Nat.lt_or_eq_of_le hj with hj | rfl
  · exact h.low j hr (Nat.le_of_lt_succ hj)
  · exact hl

theorem FirstElapsed.unique {r k k' : ℕ} (h : FirstElapsed rd r k) (h' : FirstElapsed rd r k') :
    k = k' :=
  IsLeast.unique h h'

theorem firstElapsed_of_early {r n : ℕ} (he : ∀ k ≤ n, ¬ Elapsed rd r k)
    (h : Elapsed rd r (n + 1)) : FirstElapsed rd r (n + 1) := by
  refine ⟨h, fun j hj => ?_⟩
  by_contra hlt
  exact he j (by omega) hj

/-! ### One pass -/

theorem iteration_high {s : DetectionFsm} {r : Reading} (hx : s.detectionState ≠ .exit)
    (hr : r.curStatus ≠ 0) (hf : s.motionDetected = false) :
    detectionIteration r s =
      ({ s with motionDetected := true, detectionState := .detecting }, [.motionDetected]) := by
  simp [detectionIteration, hx, processNextState, hr, hf, detectionSwitch, setDetectionState]

theorem iteration_still_high {s : DetectionFsm} {r : Reading} (hr : r.curStatus ≠ 0)
    (hf : s.motionDetected = true) (hs : s.detectionState = .detecting) :
    detectionIteration r s = (s, []) := by
  simp [detectionIteration, processNextState, hr, hf, hs, detectionSwitch]

/- The falling edge enters the timeout and, in the same pass, starts it. -/
theorem iteration_falling {s : DetectionFsm} {r : Reading} (hr : r.curStatus = 0)
    (hf : s.motionDetected = true) (hs : s.detectionState = .detecting) :
    detectionIteration r s = (⟨false, .timeout, .run, r.clock⟩, []) := by
  simp [detectionIteration, processNextState, hr, hf, hs, detectionSwitch, timeoutSwitch,
    setDetectionState]

/- A low sample while the flag is already clear leaves the state to the switch. -/
theorem iteration_low {s : DetectionFsm} {r : Reading} (hx : s.detectionState ≠ .exit)
    (hr : r.curStatus = 0) (hf : s.motionDetected = false) :
    detectionIteration r s = detectionSwitch r.clock s := by
  simp [detectionIteration, hx, processNextState, hr, hf]

/-! ### The invariant over runs -/

theorem After.state_ne_exit {n : ℕ} {s : DetectionFsm} (h : After rd n s) :
    s.detectionState ≠ .exit := by
  cases h <;> simp_all

theorem After.flag_eq {n : ℕ} {s : DetectionFsm} (h : After rd n s) :
    s.motionDetected = true ↔ ¬ Low rd n := by
  cases h with
  | active high flag _ => simp [flag, high]
  | quiet low flag _ => simp [flag, low n le_rfl]
  | waiting r run flag _ _ _ _ => simp [flag, run.low n run.le le_rfl]
  | elapsed r run flag _ _ _ => simp [flag, run.low n run.le le_rfl]
  | losing r k run flag _ _ _ => simp [flag, run.low n run.le le_rfl]
  | lost r k run flag _ _ _ => simp [flag, run.low n run.le le_rfl]

theorem after_zero : After rd 0 (stateAt rd 1) := by
  by_cases hl : (rd 0).curStatus = 0
  · have he : stateAt rd 1 = DetectionFsm.init := by
      simp [stateAt, iteration_low, hl, DetectionFsm.init, detectionSwitch]
    rw [he]
    refine .quiet (fun j hj => ?_) rfl rfl
    obtain rfl : j = 0 := by omega
    exact hl
  · have he : stateAt rd 1 = { DetectionFsm.init with motionDetected := true } := by
      simp [stateAt, iteration_high, hl, DetectionFsm.init]
    rw [he]
    exact .active hl rfl rfl

theorem after_succ {n : ℕ} {s : DetectionFsm} (h : After rd n s) :
    After rd (n + 1) (detectionIteration (rd (n + 1)) s).1 := by
  by_cases hl : Low rd (n + 1)
  · cases h with
    | active high flag state =>
      rw [iteration_falling hl flag state]
      have hrun : LowRun rd (n + 1) (n + 1) := by
        refine ⟨by omega, le_rfl, high, fun j h1 h2 => ?_⟩
        obtain rfl : j = n + 1 := by omega
        exact hl
      exact .waiting (n + 1) hrun rfl rfl rfl rfl fun k hk he => by
        have := he.1
        omega
    | quiet low flag state =>
      rw [iteration_low (by simp [state]) hl flag]
      simp only [detectionSwitch, state]
      refine .quiet (fun j hj => ?_) flag state
      rcases Nat.lt_or_eq_of_le hj with hj | rfl
      · exact low j (by omega)
      · exact hl
    | waiting r run flag state substate start early =>
      have hrn := run.le
      rw [iteration_low (by simp [state]) hl flag]
      simp only [detectionSwitch, state, timeoutSwitch, substate, start, five_le_elapsed]
      split
      · next hge =>
        exact .elapsed r (run.extend hl) flag rfl rfl
          (firstElapsed_of_early early ⟨by omega, hge⟩)
      · next hlt =>
        refine .waiting r (run.extend hl) flag state substate start fun k hk he => ?_
        rcases Nat.lt_or_eq_of_le hk with hk | rfl
        · exact early k (by omega) he
        · exact hlt he.2
    | elapsed r run flag state substate first =>
      rw [iteration_low (by simp [state]) hl flag]
      simp only [detectionSwitch, state, timeoutSwitch, substate]
      exact .losing r n (run.extend hl) rfl rfl first rfl
    | losing r k run flag state first index =>
      rw [iteration_low (by simp [state]) hl flag]
      simp only [detectionSwitch, state]
      exact .lost r k (run.extend hl) rfl rfl first (by omega)
    | lost r k run flag state first index =>
      rw [iteration_low (by simp [state]) hl flag]
      simp only [detectionSwitch, state]
      exact .lost r k (run.extend hl) flag state first (by omega)
  · by_cases hf : s.motionDetected = true
    · cases h with
      | active high flag state =>
        rw [iteration_still_high hl flag state]
        exact .active hl flag state
      | quiet _ flag _ => simp [flag] at hf
      | waiting _ _ flag _ _ _ _ => simp [flag] at hf
      | elapsed _ _ flag _ _ _ => simp [flag] at hf
      | losing _ _ _ flag _ _ _ => simp [flag] at hf
      | lost _ _ _ flag _ _ _ => simp [flag] at hf
    · rw [iteration_high h.state_ne_exit hl (by simpa using hf)]
      exact .active hl rfl rfl

theorem after_pass (rd : ℕ → Reading) (n : ℕ) : After rd n (stateAt rd (n + 1)) := by
  induction n with
  | zero => exact after_zero
  | succ n ih => exact after_succ ih

/-! ### What a pass sends -/

theorem sent_zero (rd : ℕ → Reading) :
    sentAt rd 0 = if Low rd 0 then [] else [Event.motionDetected] := by
  by_cases hl : Low rd 0
  · rw [if_pos hl, sentAt, iteration_low (by simp [stateAt, DetectionFsm.init]) hl rfl]
    rfl
  · rw [if_neg hl, sentAt, iteration_high (by simp [stateAt, DetectionFsm.init]) hl rfl]

theorem sent_high (rd : ℕ → Reading) (n : ℕ) (hh : ¬ Low rd (n + 1)) :
    sentAt rd (n + 1) = if Low rd n then [Event.motionDetected] else [] := by
  have ha := after_pass rd n
  unfold sentAt
  by_cases hl : Low rd n
  · have hf : (stateAt rd (n + 1)).motionDetected = false := by
      simpa [hl] using ha.flag_eq
    rw [iteration_high ha.state_ne_exit hh hf, if_pos hl]
  · rw [if_neg hl]
    cases ha with
    | active _ flag state => rw [iteration_still_high hh flag state]
    | quiet low _ _ => exact absurd (low n le_rfl) hl
    | waiting _ run _ _ _ _ _ => exact absurd (run.low n run.le le_rfl) hl
    | elapsed _ run _ _ _ _ => exact absurd (run.low n run.le le_rfl) hl
    | losing _ _ run _ _ _ _ => exact absurd (run.low n run.le le_rfl) hl
    | lost _ _ run _ _ _ _ => exact absurd (run.low n run.le le_rfl) hl

/- On a low sample only the pass two after the first elapsed one reports. -/
theorem sent_low (rd : ℕ → Reading) (n : ℕ) (hl : Low rd (n + 1)) :
    (sentAt rd (n + 1) = [] ∧
        ∀ r k, LowRun rd r (n + 1) → FirstElapsed rd r k → n ≠ k + 1) ∨
      (sentAt rd (n + 1) = [Event.motionLost] ∧
        ∃ r k, LowRun rd r (n + 1) ∧ FirstElapsed rd r k ∧ n = k + 1) := by
  have ha := after_pass rd n
  unfold sentAt
  cases ha with
  | active high flag state =>
    rw [iteration_falling hl flag state]
    refine .inl ⟨rfl, fun r k hrun hfirst hk => ?_⟩
    have hrk := hfirst.1.1
    exact high (hrun.low n (by omega) (by omega))
  | quiet low flag state =>
    rw [iteration_low (by simp [state]) hl flag]
    refine .inl ⟨by simp [detectionSwitch, state], fun r k hrun hfirst hk => ?_⟩
    have hrk := hfirst.1.1
    exact hrun.high (low (r - 1) (by omega))
  | waiting r run flag state substate start early =>
    rw [iteration_low (by simp [state]) hl flag]
    refine .inl ⟨by simp [detectionSwitch, state], fun r' k hrun hfirst hk => ?_⟩
    have hrk := hfirst.1.1
    obtain rfl := hrun.unique run (by omega) (run.le.trans (Nat.le_succ n))
    exact early k (by omega) hfirst.1
  | elapsed r run flag state substate first =>
    rw [iteration_low (by simp [state]) hl flag]
    refine .inl ⟨by simp [detectionSwitch, state], fun r' k hrun hfirst hk => ?_⟩
    have hrk := hfirst.1.1
    obtain rfl := hrun.unique run (by omega) (run.le.trans (Nat.le_succ n))
    have := first.unique hfirst
    omega
  | losing r k run flag state first index =>
    rw [iteration_low (by simp [state]) hl flag]
    exact .inr ⟨by simp [detectionSwitch, state], r, k, run.extend hl, first, index⟩
  | lost r k run flag state first index =>
    rw [iteration_low (by simp [state]) hl flag]
    refine .inl ⟨by simp [detectionSwitch, state], fun r' k' hrun hfirst hk => ?_⟩
    have hrk := hfirst.1.1
    obtain rfl := hrun.unique run (by omega) (run.le.trans (Nat.le_succ n))
    have := first.unique hfirst
    omega

theorem detected_iff (rd : ℕ → Reading) (i : ℕ) :
    Event.motionDetected ∈ sentAt rd i ↔ ¬ Low rd i ∧ (i = 0 ∨ Low rd (i - 1)) := by
  cases i with
  | zero => rw [sent_zero]; split <;> simp_all
  | succ n =>
    by_cases hl : Low rd (n + 1)
    · rcases sent_low rd n hl with ⟨hs, -⟩ | ⟨hs, -⟩ <;> simp [hs, hl]
    · rw [sent_high rd n hl]
      split <;> simp_all

theorem lost_iff (rd : ℕ → Reading) (i : ℕ) :
    Event.motionLost ∈ sentAt rd i ↔
      ∃ r k, LowRun rd r i ∧ FirstElapsed rd r k ∧ i = k + 2 := by
  constructor
  · intro h
    cases i with
    | zero => rw [sent_zero] at h; split at h <;> simp at h
    | succ n =>
      by_cases hl : Low rd (n + 1)
      · rcases sent_low rd n hl with ⟨hs, -⟩ | ⟨-, r, k, hrun, hfirst, hk⟩
        · simp [hs] at h
        · exact ⟨r, k, hrun, hfirst, by omega⟩
      · rw [sent_high rd n hl] at h
        split at h <;> simp at h
  · rintro ⟨r, k, hrun, hfirst, rfl⟩
    have hrk := hfirst.1.1
    rcases sent_low rd (k + 1) (hrun.low _ hrun.le le_rfl) with ⟨-, hne⟩ | ⟨hs, -⟩
    · exact absurd rfl (hne r k hrun hfirst)
    · simp [hs]

theorem sent_cases (rd : ℕ → Reading) (i : ℕ) :
    sentAt rd i = [] ∨ sentAt rd i = [Event.motionDetected] ∨ sentAt rd i = [Event.motionLost] := by
  cases i with
  | zero => rw [sent_zero]; split <;> simp
  | succ n =>
    by_cases hl : Low rd (n + 1)
    · rcases sent_low rd n hl with ⟨hs, -⟩ | ⟨hs, -⟩ <;> simp [hs]
    · rw [sent_high rd n hl]
      split <;> simp

theorem lost_once {i j : ℕ} (hij : i < j) (hi : Event.motionLost ∈ sentAt rd i)
    (hj : Event.motionLost ∈ sentAt rd j) : ∃ m, i < m ∧ m < j ∧ ¬ Low rd m := by
  obtain ⟨r, k, hrun, hfirst, rfl⟩ := (lost_iff rd i).mp hi
  obtain ⟨r', k', hrun', hfirst', rfl⟩ := (lost_iff rd j).mp hj
  have hp' := hrun'.pos
  have hrk := hfirst.1.1
  have hrk' := hfirst'.1.1
  by_contra hno
  have hle : r' ≤ k + 2 := by
    by_contra hlt
    exact hno ⟨r' - 1, by
      rcases Nat.lt_or_ge (k + 2) (r' - 1) with h | h
      · exact h
      · exact absurd (hrun.low (r' - 1) (by omega) h) hrun'.high, by omega, hrun'.high⟩
  obtain rfl := hrun.unique hrun' (by omega) hle
  have := hfirst.unique hfirst'
  omega

theorem lost_after_five_seconds {i n : ℕ} (hn : i ≤ n)
    (hclock : ∀ j k, j ≤ k → k ≤ n → (rd j).clock.nanos ≤ (rd k).clock.nanos)
    (hi : Event.motionLost ∈ sentAt rd i) :
    ∃ r, LowRun rd r i ∧ (∀ j ≤ i, ¬ Low rd j → j < r) ∧
      5000000000 ≤ (rd i).clock.nanos - (rd r).clock.nanos := by
  obtain ⟨r, k, hrun, hfirst, rfl⟩ := (lost_iff rd i).mp hi
  refine ⟨r, hrun, fun j hj hh => ?_, ?_⟩
  · by_contra hlt
    exact hh (hrun.low j (by omega) hj)
  · have h1 := hfirst.1.2
    have h2 := hclock k (k + 2) (by omega) hn
    omega

/-- The exact event trace of the detector over the passes `0 .. n`. -/
theorem event_trace (rd : ℕ → Reading) (n : ℕ)
    (hclock : ∀ j k, j ≤ k → k ≤ n → (rd j).clock.nanos ≤ (rd k).clock.nanos) :
    (∀ i ≤ n, Event.motionDetected ∈ sentAt rd i ↔ ¬ Low rd i ∧ (i = 0 ∨ Low rd (i - 1))) ∧
    (∀ i ≤ n, Event.motionLost ∈ sentAt rd i ↔
      ∃ r k, LowRun rd r i ∧ FirstElapsed rd r k ∧ i = k + 2) ∧
    (∀ i ≤ n, sentAt rd i = [] ∨ sentAt rd i = [Event.motionDetected] ∨
      sentAt rd i = [Event.motionLost]) ∧
    (∀ i j, i < j → j ≤ n → Event.motionLost ∈ sentAt rd i → Event.motionLost ∈ sentAt rd j →
      ∃ m, i < m ∧ m < j ∧ ¬ Low rd m) ∧
    (∀ i ≤ n, Event.motionLost ∈ sentAt rd i →
      ∃ r, LowRun rd r i ∧ (∀ j ≤ i, ¬ Low rd j → j < r) ∧
        5000000000 ≤ (rd i).clock.nanos - (rd r).clock.nanos) :=
  ⟨fun i _ => detected_iff rd i, fun i _ => lost_iff rd i, fun i _ => sent_cases rd i,
    fun _ _ hij _ hi hj => lost_once hij hi hj,
    fun _ hi hs => lost_after_five_seconds hi hclock hs⟩

def briefMotion (i : ℕ) : Reading := ⟨if i = 0 then 1 else 0, ⟨3 * i, 0⟩⟩

/-- The low run starts in pass 1, 6 s have elapsed in pass 3, pass 5 reports. -/
theorem event_trace_briefMotion :
    Event.motionLost ∈ sentAt briefMotion 5 := by
  refine ((event_trace briefMotion 5 ?_).2.1 5 le_rfl).mpr ⟨1, 3, ?_, ?_, rfl⟩
  · intro j k hjk _
    simp only [briefMotion, Timespec.nanos]
    omega
  · refine ⟨le_rfl, by omega, by decide, fun j h1 _ => ?_⟩
    simp [Low, briefMotion, show j ≠ 0 by omega]
  · refine ⟨⟨by omega, by decide⟩, fun j hj => ?_⟩
    have h1 := hj.1
    have h2 := hj.2
    simp only [briefMotion, Timespec.nanos] at h2
    omega

end MotionDetector.Detection
