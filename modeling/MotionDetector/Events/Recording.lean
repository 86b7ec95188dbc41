import MotionDetector.Events.Agreement

/-!
# What the camera makes of the sensor

From the samples of the sensor to the state of the camera, over any order of the
passes of the two loops. Motion is under way from the first high sample on, up to
the report that is two passes after the first pass that reads the clock 5 s after
the sensor fell.
-/

namespace MotionDetector.Detection

variable {rd : ℕ → Reading}

/-- The sensor has been high up to pass `n`, and the end of its last high run is
not reported by then. -/
def InMotion (rd : ℕ → Reading) (n : ℕ) : Prop :=
  (∃ i ≤ n, ¬ Low rd i) ∧ ∀ r k, LowRun rd r n → FirstElapsed rd r k → n < k + 2

theorem LowRun.seen {r n : ℕ} (h : LowRun rd r n) : ∃ i ≤ n, ¬ Low rd i :=
  ⟨r - 1, (Nat.sub_le r 1).trans h.le, h.high⟩

theorem After.active_iff {n : ℕ} {s : DetectionFsm} (h : After rd n s) :
    Events.Active s ↔ InMotion rd n := by
  cases h with
  | active high flag state =>
    refine iff_of_true (.inl flag) ⟨⟨n, le_rfl, high⟩, fun r k hrun _ => ?_⟩
    exact absurd (hrun.low n hrun.le le_rfl) high
  | quiet low flag state =>
    refine iff_of_false (by simp [Events.Active, flag, state]) ?_
    rintro ⟨⟨i, hi, hhigh⟩, -⟩
    exact hhigh (low i hi)
  | waiting r run flag state substate start early =>
    refine iff_of_true (.inr (.inl state)) ⟨run.seen, fun r' k hrun hfirst => ?_⟩
    obtain rfl := hrun.unique run hrun.le run.le
    have hlate : n < k := by
      by_contra hle
      exact early k (by omega) hfirst.1
    omega
  | elapsed r run flag state substate first =>
    refine iff_of_true (.inr (.inl state)) ⟨run.seen, fun r' k hrun hfirst => ?_⟩
    obtain rfl := hrun.unique run hrun.le run.le
    have := first.unique hfirst
    omega
  | losing r k run flag state first index =>
    refine iff_of_true (.inr (.inr state)) ⟨run.seen, fun r' k' hrun hfirst => ?_⟩
    obtain rfl := hrun.unique run hrun.le run.le
    have := first.unique hfirst
    omega
  | lost r k run flag state first index =>
    refine iff_of_false (by simp [Events.Active, flag, state]) ?_
    rintro ⟨-, hopen⟩
    have := hopen r k run first
    omega

end MotionDetector.Detection

namespace MotionDetector.Events

open Transition Detection Camera

variable {ε β : Type*} {writeframe : ε → Bool → β → SysResult × β} {s t : System β}

/-- The samples of the passes of the detector, in order. -/
def readings (acts : List (Act ε)) : List Reading :=
  acts.filterMap fun a =>
    match a with
    | .detection r => some r
    | .camera _ => none

def readingAt (l : List Reading) (i : ℕ) : Reading := l.getD i ⟨0, ⟨0, 0⟩⟩

/-- Motion is under way after the passes with the samples `l`. -/
def MotionNow (l : List Reading) : Prop := l ≠ [] ∧ InMotion (readingAt l) (l.length - 1)

def detectorAfter (l : List Reading) : DetectionFsm :=
  l.foldl (fun d r => (detectionIteration r d).1) .init

theorem stateAt_readingAt (l : List Reading) {n : ℕ} (hn : n ≤ l.length) :
    stateAt (readingAt l) n = detectorAfter (l.take n) := by
  induction n with
  | zero => rfl
  | succ n ih =>
    have hget : l.take (n + 1) = l.take n ++ [readingAt l n] := by
      rw [List.take_add_one, readingAt, List.getD_eq_getElem?_getD,
        List.getElem?_eq_getElem (by omega : n < l.length)]
      rfl
    rw [stateAt, ih (by omega), hget]
    simp [detectorAfter]

theorem active_detectorAfter (l : List Reading) : Active (detectorAfter l) ↔ MotionNow l := by
  by_cases hl : l = []
  · subst hl
    exact iff_of_false (by simp [Active, detectorAfter, DetectionFsm.init]) fun h => h.1 rfl
  · have hpos := List.length_pos_iff.mpr hl
    have hstate := stateAt_readingAt l (le_refl l.length)
    rw [List.take_length, ← Nat.sub_add_cancel hpos] at hstate
    rw [← hstate, (after_pass (readingAt l) (l.length - 1)).active_iff, MotionNow]
    simp [hl]

/- No pass of the camera touches the detector. -/
theorem run_detector {acts : List (Act ε)} (hr : run (step writeframe) s acts = some t) :
    t.detector = (readings acts).foldl (fun d r => (detectionIteration r d).1) s.detector := by
  induction acts generalizing s with
  | nil =>
    obtain rfl : s = t := by simpa using hr
    rfl
  | cons a acts ih =>
    obtain ⟨u, hu, hrest⟩ := Option.bind_eq_some_iff.mp hr
    rw [ih hrest]
    cases a with
    | detection r =>
      simp only [step, Option.some.injEq] at hu
      subst hu
      rw [send_foldl_detector]
      rfl
    | camera io =>
      simp only [step, Option.some.injEq] at hu
      subst hu
      rfl

/-- The camera captures exactly while motion is under way, once it has consumed the
events sent so far and as long as none of the sends failed. -/
theorem recording_iff (writeframe : ε → Bool → β → SysResult × β) (buffer : β)
    (acts : List (Act ε)) (s : System β)
    (hr : run (step writeframe) (.init buffer) acts = some s)
    (hsent : ∀ x ∈ s.sends, x.2 = .success) :
    (s.drained = .capturing ↔ MotionNow (readings acts)) ∧
      (s.queue.messages = [] → (s.camera.state = .capturing ↔ MotionNow (readings acts))) := by
  have ha := reachable_agrees hr hsent
  have hactive : Active s.detector ↔ MotionNow (readings acts) := by
    rw [run_detector hr]
    exact active_detectorAfter _
  have hdrained := (ha.capturing.trans ha.active).trans hactive
  refine ⟨hdrained, fun hq => ?_⟩
  have hstate : s.drained = s.camera.state := by simp [System.drained, hq]
  rwa [hstate] at hdrained

theorem recording_iff_motion :
    ∃ s, run (step storing) (.init ())
        [.detection ⟨1, ⟨0, 0⟩⟩, .camera (), .detection ⟨0, ⟨1, 0⟩⟩, .camera ()] = some s ∧
      MotionNow [⟨1, ⟨0, 0⟩⟩, ⟨0, ⟨1, 0⟩⟩] := by
  have hfinal : (run (step storing) (System.init ())
      [.detection ⟨1, ⟨0, 0⟩⟩, .camera (), .detection ⟨0, ⟨1, 0⟩⟩, .camera ()]).map
        (fun s => (s.queue.messages, s.sends, s.camera.state)) =
      some ([], [(.motionDetected, .success)], .capturing) := by decide
  obtain ⟨s, hs, hvalues⟩ := Option.map_eq_some_iff.mp hfinal
  simp only [Prod.mk.injEq] at hvalues
  obtain ⟨hqueue, hsends, hstate⟩ := hvalues
  exact ⟨s, hs, ((recording_iff storing () _ s hs (by simp [hsends])).2 hqueue).mp hstate⟩

/-! ### Whatever the sends return -/

/-- The camera follows the events it has received. -/
structure Heard (s : System β) : Prop where
  serves : Serves s
  events : ∀ event ∈ s.queue.messages, event ≠ .none
  capturing : s.camera.state = .capturing ↔ s.received.getLast? = some .motionDetected

theorem init_heard (buffer : β) : Heard (System.init buffer) where
  serves := init_serves buffer
  events event h := by simp [System.init] at h
  capturing := by simp [System.init, CameraTask.start]

theorem capturing_eventSwitch {state : CameraFsm} {event : Event} (h : Serving state)
    (hevent : event ≠ .none) : eventSwitch event state = .capturing ↔ event = .motionDetected := by
  rcases h with rfl | rfl <;> cases event <;> simp_all [eventSwitch]

theorem detection_heard {r : Reading} (h : Heard s)
    (ht : step writeframe s (.detection r) = some t) : Heard t := by
  obtain ⟨hserves, heffect⟩ := detection_effect h.serves ht
  cases heffect with
  | silent still same camera queue sends received =>
    exact
      { serves := hserves
        events := by
          rw [queue]
          exact h.events
        capturing := by
          rw [camera, received]
          exact h.capturing }
  | sent event raises active room camera queue sends received =>
    refine
      { serves := hserves
        events := fun e he => ?_
        capturing := by
          rw [camera, received]
          exact h.capturing }
    rw [queue] at he
    rcases List.mem_append.mp he with he | he
    · exact h.events e he
    · rw [List.mem_singleton.mp he]
      rcases active with ⟨rfl, -⟩ | ⟨rfl, -⟩
      · decide
      · decide
  | dropped event raises full queue sends received =>
    have hcamera : t.camera = s.camera := by
      simp only [step, Option.some.injEq] at ht
      subst ht
      exact send_foldl_camera _ _
    exact
      { serves := hserves
        events := by
          rw [queue]
          exact h.events
        capturing := by
          rw [hcamera, received]
          exact h.capturing }

theorem camera_heard {io : ε} (h : Heard s) (ht : step writeframe s (.camera io) = some t) :
    Heard t := by
  obtain ⟨hserves, heffect⟩ := camera_effect h.serves ht
  cases heffect with
  | consumed event detector camera queue sends received =>
    have hevent : event ≠ .none := h.events event (by simp [queue])
    refine
      { serves := hserves
        events := fun e he => h.events e (by rw [queue]; exact List.mem_cons_of_mem _ he)
        capturing := ?_ }
    rw [camera, capturing_eventSwitch h.serves.serving hevent, received]
    simp
  | idled detector camera queue empty sends received =>
    exact
      { serves := hserves
        events := by
          rw [queue]
          exact h.events
        capturing := by
          rw [camera, received]
          exact h.capturing }

theorem step_heard {a : Act ε} (h : Heard s) (ht : step writeframe s a = some t) : Heard t := by
  cases a with
  | detection r => exact detection_heard h ht
  | camera io => exact camera_heard h ht

/- The pass of the camera that comes next acts on the event it receives first. -/
theorem Heard.capturing_iff (h : Heard s) :
    Capturing s.camera s.queue ↔
      (s.received ++ s.queue.messages.head?.toList).getLast? = some .motionDetected := by
  unfold Capturing
  cases hq : s.queue.messages with
  | nil =>
    rw [processEventQueue_nil hq]
    simpa [eventSwitch] using h.capturing
  | cons event rest =>
    rw [processEventQueue_cons h.serves.msgsize hq,
      capturing_eventSwitch h.serves.serving (h.events event (by simp [hq]))]
    simp

/-- Nothing has been detected, and no event is under way. -/
structure Still (s : System β) : Prop where
  serves : Serves s
  inactive : ¬ Active s.detector
  queue : s.queue.messages = []
  received : s.received = []

theorem init_still (buffer : β) : Still (System.init buffer) :=
  ⟨init_serves buffer, by simp [System.init, Active, DetectionFsm.init], rfl, rfl⟩

def LowSample : Act ε → Prop
  | .detection r => r.curStatus = 0
  | .camera _ => True

theorem step_still {a : Act ε} (h : Still s) (ha : LowSample a)
    (ht : step writeframe s a = some t) : Still t := by
  cases a with
  | detection r =>
    obtain ⟨hserves, heffect⟩ := detection_effect h.serves ht
    have hno : ¬ Raises r s.detector := by
      rintro ⟨-, hr | hlost⟩
      · exact hr ha
      · exact h.inactive (.inr (.inr hlost))
    cases heffect with
    | silent still same camera queue sends received =>
      exact ⟨hserves, mt same.mp h.inactive, queue ▸ h.queue, received ▸ h.received⟩
    | sent event raises active room camera queue sends received => exact absurd raises hno
    | dropped event raises full queue sends received => exact absurd raises hno
  | camera io =>
    obtain ⟨hserves, heffect⟩ := camera_effect h.serves ht
    cases heffect with
    | consumed event detector camera queue sends received => simp [h.queue] at queue
    | idled detector camera queue empty sends received =>
      exact ⟨hserves, detector ▸ h.inactive, queue ▸ h.queue, received ▸ h.received⟩

end MotionDetector.Events
