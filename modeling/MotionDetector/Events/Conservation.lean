import MotionDetector.Events.Agreement

/-!
# Events lost on a full queue

The detector ignores the result of `osal_queue_send` and moves its own state
on. A raised event reaches the camera exactly when it is raised while the queue
has room.
-/

namespace MotionDetector.Events

open Transition Detection Camera

variable {ε β : Type*}

def NoEventLost (s : System β) : Prop := s.received ++ s.queue.messages = s.raised

/-- An event is raised only while the queue holds fewer than 10 entries. -/
def Room (s : System β) : Act ε → Prop
  | .detection r => Raises r s.detector → s.queue.messages.length < 10
  | .camera _ => True

theorem detection_room_iff {r : Reading} {s t : System β} (h : DetectionEffect r s t)
    (hlost : NoEventLost s) :
    NoEventLost t ↔ Room s (.detection r : Act ε) := by
  unfold NoEventLost System.raised at *
  cases h with
  | silent still same camera queue sends received =>
    refine iff_of_true ?_ fun hr => absurd hr still
    rw [received, queue, sends]
    exact hlost
  | sent event raises active room camera queue sends received =>
    refine iff_of_true ?_ fun _ => room
    rw [received, queue, sends, List.map_append, ← hlost]
    simp
  | dropped event raises full queue sends received =>
    refine iff_of_false ?_ fun h => absurd (h raises) (Nat.not_lt.mpr full)
    rw [received, queue, sends, List.map_append, ← hlost]
    simp

theorem camera_keeps {s t : System β} (h : CameraEffect s t) (hlost : NoEventLost s) :
    NoEventLost t := by
  unfold NoEventLost System.raised at *
  cases h with
  | consumed event detector camera queue sends received =>
    rw [received, sends, ← hlost, queue]
    simp
  | idled detector camera queue empty sends received =>
    rw [received, queue, sends]
    exact hlost

theorem step_lost_iff {writeframe : ε → Bool → β → SysResult × β} {s t : System β} {a : Act ε}
    (hs : Serves s) (hlost : NoEventLost s) (ht : step writeframe s a = some t) :
    NoEventLost t ↔ Room s a := by
  cases a with
  | detection r => exact detection_room_iff (detection_effect hs ht).2 hlost
  | camera io => exact iff_of_true (camera_keeps (camera_effect hs ht).2 hlost) trivial

theorem run_isSome (writeframe : ε → Bool → β → SysResult × β) (s : System β)
    (acts : List (Act ε)) : (run (step writeframe) s acts).isSome := by
  induction acts generalizing s with
  | nil => rfl
  | cons a acts ih =>
    cases a with
    | detection r => exact ih _
    | camera io => exact ih _

theorem sends_success {writeframe : ε → Bool → β → SysResult × β} {buffer : β}
    {acts : List (Act ε)} {s : System β}
    (hroom : Along (step writeframe) Room (.init buffer) acts)
    (hr : run (step writeframe) (.init buffer) acts = some s) :
    ∀ x ∈ s.sends, x.2 = .success := by
  let Inv (s : System β) : Prop := Serves s ∧ ∀ x ∈ s.sends, x.2 = .success
  have hinv : Inv s := by
    refine run_inv_along Inv ?_ ⟨init_serves buffer, by simp [System.init]⟩ hroom hr
    rintro s a t ⟨hs, hsent⟩ hg ht
    refine ⟨step_serves hs ht, ?_⟩
    cases a with
    | detection r =>
      cases (detection_effect hs ht).2 with
      | silent still same camera queue sends received => rwa [sends]
      | sent event raises active room camera queue sends received =>
        intro x hx
        rw [sends, List.mem_append, List.mem_singleton] at hx
        rcases hx with hx | rfl
        · exact hsent x hx
        · rfl
      | dropped event raises full queue sends received =>
        exact absurd (hg raises) (Nat.not_lt.mpr full)
    | camera io =>
      cases (camera_effect hs ht).2 with
      | consumed event detector camera queue sends received => rwa [sends]
      | idled detector camera queue empty sends received => rwa [sends]
  exact hinv.2

/-- No event is lost in a run exactly when each is raised with room in the
queue, and then the camera does not go on capturing for an idle detector. -/
theorem no_event_lost_iff (writeframe : ε → Bool → β → SysResult × β) (buffer : β)
    (acts : List (Act ε)) :
    (Throughout (step writeframe) NoEventLost (.init buffer) acts ↔
      Along (step writeframe) Room (.init buffer) acts) ∧
    (Along (step writeframe) Room (.init buffer) acts →
      ∀ s, run (step writeframe) (.init buffer) acts = some s →
        s.queue.messages = [] → ¬ Active s.detector → s.camera.state = .idle) := by
  constructor
  · exact throughout_iff_along Serves (fun s a t hs _ _ ht => step_serves hs ht)
      (fun s a t hs hlost ht => step_lost_iff hs hlost ht) (init_serves buffer) rfl
      (run_isSome writeframe _ acts)
  · intro hroom s hr hqueue hidle
    have ha := reachable_agrees hr (sends_success hroom hr)
    have hstate : s.drained = s.camera.state := by simp [System.drained, hqueue]
    rw [hstate] at ha
    exact ha.idle fun hcap => hidle (ha.active.mp (ha.capturing.mp hcap))

/-- Ten reports of motion while the camera is held up, then 5 s of rest, then
ten passes of the camera. -/
def heldUp : List (Act Unit) :=
  (List.replicate 10 [.detection ⟨1, ⟨0, 0⟩⟩, .detection ⟨0, ⟨0, 0⟩⟩]).flatten ++
    List.replicate 3 (.detection ⟨0, ⟨5, 0⟩⟩) ++ List.replicate 10 (.camera ())

/-- The report of lost motion is dropped and the camera goes on capturing. -/
theorem event_lost_heldUp :
    ∃ s, run (step storing) (.init ()) heldUp = some s ∧ ¬ NoEventLost s ∧
      s.queue.messages = [] ∧ ¬ Active s.detector ∧ s.camera.state = .capturing := by
  have hfinal : (run (step storing) (System.init ()) heldUp).map
      (fun s => ((s.received, s.queue.messages, s.raised),
        s.detector.motionDetected, s.detector.detectionState, s.camera.state)) =
      some ((List.replicate 10 .motionDetected, [],
        List.replicate 10 .motionDetected ++ [.motionLost]), false, .detecting, .capturing) := by
    decide +kernel
  obtain ⟨s, hs, hvalues⟩ := Option.map_eq_some_iff.mp hfinal
  simp only [Prod.mk.injEq] at hvalues
  obtain ⟨⟨hreceived, hqueue, hraised⟩, hflag, hstate, hcamera⟩ := hvalues
  refine ⟨s, hs, ?_, hqueue, by simp [Active, hflag, hstate], hcamera⟩
  simp [NoEventLost, hreceived, hqueue, hraised]

end MotionDetector.Events
