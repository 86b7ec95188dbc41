import MotionDetector.Events.MotionEvents

/-!
# Agreement of detector and camera

As long as no send fails, the camera captures exactly when motion was the last
event sent, which is when the detector is active. With events still queued this
holds of the state the camera reaches by consuming them.
-/

namespace MotionDetector.Events

open Transition Detection Camera

variable {ε β : Type*}

def System.LastDetected (s : System β) : Prop := s.raised.getLast? = some .motionDetected

/-- The state the camera reaches by consuming the queued events in order. -/
def System.drained (s : System β) : CameraFsm :=
  s.queue.messages.foldl (fun state event => eventSwitch event state) s.camera.state

structure Agrees (s : System β) (c : CameraFsm) : Prop where
  capturing : c = .capturing ↔ s.LastDetected
  active : s.LastDetected ↔ Active s.detector
  idle : c ≠ .capturing → c = .idle

theorem foldl_serving {c : CameraFsm} (events : List Event) (h : Serving c) :
    Serving (events.foldl (fun state event => eventSwitch event state) c) := by
  induction events generalizing c with
  | nil => exact h
  | cons event events ih => exact ih (eventSwitch_serving event h)

theorem init_agrees (buffer : β) : Agrees (System.init buffer) (System.init buffer).drained := by
  apply Agrees.mk
  · simp [System.drained, System.init, CameraTask.start, System.LastDetected, System.raised]
  · simp [System.init, System.LastDetected, System.raised, Active, DetectionFsm.init]
  · simp [System.drained, System.init, CameraTask.start]

theorem detection_agrees {r : Reading} {s t : System β} (hs : Serves s)
    (h : DetectionEffect r s t) (hsent : ∀ x ∈ t.sends, x.2 = .success)
    (ha : Agrees s s.drained) : Agrees t t.drained := by
  cases h with
  | silent still same camera queue sends received =>
    have hdrained : t.drained = s.drained := by simp [System.drained, camera, queue]
    have hlast : t.LastDetected ↔ s.LastDetected := by
      simp [System.LastDetected, System.raised, sends]
    rw [hdrained]
    exact ⟨ha.capturing.trans hlast.symm, hlast.trans (ha.active.trans same.symm), ha.idle⟩
  | sent event raises active room camera queue sends received =>
    have hserving : Serving s.drained := foldl_serving _ hs.serving
    have hdrained : t.drained = eventSwitch event s.drained := by
      simp [System.drained, camera, queue]
    have hlast : t.LastDetected ↔ event = .motionDetected := by
      simp [System.LastDetected, System.raised, sends]
    rcases active with ⟨rfl, hactive⟩ | ⟨rfl, hidle⟩
    · have hcap : t.drained = .capturing := by
        rw [hdrained]
        rcases hserving with h | h <;> simp [eventSwitch, h]
      exact ⟨iff_of_true hcap (hlast.mpr rfl), iff_of_true (hlast.mpr rfl) hactive,
        fun hne => absurd hcap hne⟩
    · have hcap : t.drained = .idle := by
        rw [hdrained]
        rcases hserving with h | h <;> simp [eventSwitch, h]
      have hno : ¬ t.LastDetected := by simp [hlast]
      exact ⟨iff_of_false (by simp [hcap]) hno, iff_of_false hno hidle, fun _ => hcap⟩
  | dropped event raises full queue sends received =>
    have hmem : (event, SysResult.failure) ∈ t.sends := by simp [sends]
    exact absurd (hsent _ hmem) (by simp)

theorem camera_agrees {s t : System β} (h : CameraEffect s t) (ha : Agrees s s.drained) :
    Agrees t t.drained := by
  cases h with
  | consumed event detector camera queue sends received =>
    have hdrained : t.drained = s.drained := by simp [System.drained, camera, queue]
    have hlast : t.LastDetected ↔ s.LastDetected := by
      simp [System.LastDetected, System.raised, sends]
    rw [hdrained]
    exact ⟨ha.capturing.trans hlast.symm, by rw [hlast, detector]; exact ha.active, ha.idle⟩
  | idled detector camera queue empty sends received =>
    have hdrained : t.drained = s.drained := by simp [System.drained, camera, queue]
    have hlast : t.LastDetected ↔ s.LastDetected := by
      simp [System.LastDetected, System.raised, sends]
    rw [hdrained]
    exact ⟨ha.capturing.trans hlast.symm, by rw [hlast, detector]; exact ha.active, ha.idle⟩

/- Results of earlier sends are never dropped from the record. -/
theorem sends_extends {writeframe : ε → Bool → β → SysResult × β} {s t : System β} {a : Act ε}
    (hs : Serves s) (ht : step writeframe s a = some t) : s.sends <+: t.sends := by
  cases a with
  | detection r =>
    cases (detection_effect hs ht).2 with
    | silent _ _ _ _ sends _ => simp [sends]
    | sent _ _ _ _ _ _ sends _ => simp [sends]
    | dropped _ _ _ _ sends _ => simp [sends]
  | camera io =>
    cases (camera_effect hs ht).2 with
    | consumed _ _ _ _ sends _ => simp [sends]
    | idled _ _ _ _ sends _ => simp [sends]

theorem step_agrees {writeframe : ε → Bool → β → SysResult × β} {s t : System β} {a : Act ε}
    (hs : Serves s) (ht : step writeframe s a = some t)
    (hsent : ∀ x ∈ t.sends, x.2 = .success) (ha : Agrees s s.drained) : Agrees t t.drained := by
  cases a with
  | detection r => exact detection_agrees hs (detection_effect hs ht).2 hsent ha
  | camera io => exact camera_agrees (camera_effect hs ht).2 ha

theorem reachable_agrees {writeframe : ε → Bool → β → SysResult × β} {buffer : β}
    {acts : List (Act ε)} {s : System β}
    (hr : run (step writeframe) (.init buffer) acts = some s)
    (hsent : ∀ x ∈ s.sends, x.2 = .success) : Agrees s s.drained := by
  let Inv (s : System β) : Prop :=
    Serves s ∧ ((∀ x ∈ s.sends, x.2 = .success) → Agrees s s.drained)
  have hinv : Inv s := by
    refine run_inv Inv ?_ ⟨init_serves buffer, fun _ => init_agrees buffer⟩ hr
    rintro s a t ⟨hs, ha⟩ ht
    refine ⟨step_serves hs ht, fun hsent => step_agrees hs ht hsent (ha fun x hx => ?_)⟩
    exact hsent x ((sends_extends hs ht).subset hx)
  exact hinv.2 hsent

/- Passes of the camera alone consume the queue as `drained` says. -/
theorem run_drained {writeframe : ε → Bool → β → SysResult × β} {s t : System β} {ios : List ε}
    (hs : Serves s) (hlen : s.queue.messages.length ≤ ios.length)
    (hr : run (step writeframe) s (ios.map .camera) = some t) :
    t.queue.messages = [] ∧ t.camera.state = s.drained ∧ t.detector = s.detector ∧
      t.sends = s.sends := by
  induction ios generalizing s with
  | nil =>
    obtain rfl : s = t := by simpa using hr
    have hnil : s.queue.messages = [] := List.length_eq_zero_iff.mp (by simpa using hlen)
    simp [System.drained, hnil]
  | cons io ios ih =>
    obtain ⟨m, hm, hrest⟩ := Option.bind_eq_some_iff.mp hr
    obtain ⟨hserves, heffect⟩ := camera_effect hs hm
    cases heffect with
    | consumed event detector camera queue sends received =>
      have hdrained : m.drained = s.drained := by simp [System.drained, camera, queue]
      have := ih hserves (by simpa [queue] using hlen) hrest
      rwa [hdrained, detector, sends] at this
    | idled detector camera queue empty sends received =>
      have hdrained : m.drained = s.drained := by simp [System.drained, camera, queue]
      have := ih hserves (by simp [queue, empty]) hrest
      rwa [hdrained, detector, sends] at this

/-- With every send successful, the camera agrees with the detector whenever
the queue is empty, and otherwise once it has consumed the queue. -/
theorem detection_camera_agree (writeframe : ε → Bool → β → SysResult × β) (buffer : β)
    (acts : List (Act ε)) (s : System β)
    (hr : run (step writeframe) (.init buffer) acts = some s)
    (hsent : ∀ x ∈ s.sends, x.2 = .success) :
    (s.queue.messages = [] → Agrees s s.camera.state) ∧ Agrees s s.drained ∧
      ∀ (ios : List ε) (t : System β), ios.length = s.queue.messages.length →
        run (step writeframe) s (ios.map .camera) = some t →
        t.queue.messages = [] ∧ t.camera.state = s.drained ∧ Agrees t t.camera.state := by
  have ha := reachable_agrees hr hsent
  refine ⟨fun hq => by simpa [System.drained, hq] using ha, ha, fun ios t hlen ht => ?_⟩
  obtain ⟨hq, hstate, hdetector, hsends⟩ := run_drained (reachable_serves hr) hlen.ge ht
  have hlast : t.LastDetected ↔ s.LastDetected := by
    simp [System.LastDetected, System.raised, hsends]
  rw [hstate]
  exact ⟨hq, rfl, ha.capturing.trans hlast.symm, by rw [hlast, hdetector]; exact ha.active,
    ha.idle⟩

def storing (_ : Unit) (saveFrame : Bool) (_ : Unit) : SysResult × Unit :=
  (if saveFrame then .success else .ignore, ())

theorem detection_camera_agree_motion :
    ∃ s, run (step storing) (.init ()) [.detection ⟨1, ⟨0, 0⟩⟩, .camera ()] = some s ∧
      s.camera.state = .capturing ∧ Active s.detector := by
  have hsome : (run (step storing) (System.init ())
      [.detection ⟨1, ⟨0, 0⟩⟩, .camera ()]).isSome := by decide
  obtain ⟨s, hs⟩ := Option.isSome_iff_exists.mp hsome
  have hfinal : (run (step storing) (System.init ())
      [.detection ⟨1, ⟨0, 0⟩⟩, .camera ()]).map
        (fun s => (s.queue.messages, s.sends, s.camera.state)) =
      some ([], [(.motionDetected, .success)], .capturing) := by decide
  rw [hs, Option.map_some, Option.some.injEq, Prod.mk.injEq, Prod.mk.injEq] at hfinal
  obtain ⟨hqueue, hsends, hstate⟩ := hfinal
  have ha := (detection_camera_agree storing () _ s hs (by simp [hsends])).1 hqueue
  exact ⟨s, hs, hstate, ha.active.mp (ha.capturing.mp hstate)⟩

end MotionDetector.Events
