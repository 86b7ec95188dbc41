import MotionDetector.Events.Recording
import MotionDetector.Pipeline.Backlog

/-!
# Frames are saved for motion only

The events of the detector decide which frames enter the incoming ring, whatever
the results of the sends and the order of the passes.
-/

namespace MotionDetector.Events

variable {β : Type*}

theorem Heard.setBuffer {s : System β} (h : Heard s) (buffer : β) :
    Heard { s with buffer := buffer } :=
  ⟨⟨h.serves.settled, h.serves.serving, h.serves.maxmsg, h.serves.msgsize⟩, h.events, h.capturing⟩

theorem Still.setBuffer {s : System β} (h : Still s) (buffer : β) :
    Still { s with buffer := buffer } :=
  ⟨⟨h.serves.settled, h.serves.serving, h.serves.maxmsg, h.serves.msgsize⟩, h.inactive, h.queue,
    h.received⟩

end MotionDetector.Events

namespace MotionDetector.Pipeline

open Transition

variable {n : ℕ} {lut : ColorLut} {s t : System n}

/- The other tasks touch no more of the two event tasks than the ring. -/
theorem step_events {a : Act n} (ht : step lut s a = some t) :
    (∃ e, a = .events e ∧ Events.step CaptureStore.writeframe s.events e = some t.events) ∨
      (∀ e, a ≠ .events e) ∧ t.events = { s.events with buffer := t.capture } := by
  cases a with
  | events e =>
    obtain ⟨u, hu, rfl⟩ := Option.map_eq_some_iff.mp ht
    exact .inl ⟨e, rfl, hu⟩
  | processFrames rgbFrame =>
    simp only [step, Option.some.injEq] at ht
    subst ht
    exact .inr ⟨fun e he => (by cases he), rfl⟩
  | startread =>
    obtain ⟨-, rfl | ⟨slot, -, rfl⟩⟩ := startread_step ht
    · exact .inr ⟨fun e he => (by cases he), rfl⟩
    · exact .inr ⟨fun e he => (by cases he), rfl⟩
  | imageSave calls =>
    obtain ⟨slot, result, fd, sends, -, -, rfl⟩ := imageSave_step ht
    exact .inr ⟨fun e he => (by cases he), rfl⟩
  | endread =>
    obtain ⟨-, rfl⟩ := endread_step ht
    exact .inr ⟨fun e he => (by cases he), rfl⟩

theorem step_heard {a : Act n} (h : Events.Heard s.events) (ht : step lut s a = some t) :
    Events.Heard t.events := by
  rcases step_events ht with ⟨e, -, he⟩ | ⟨-, he⟩
  · exact Events.step_heard h he
  · rw [he]
    exact h.setBuffer _

def LowSample : Act n → Prop
  | .events e => Events.LowSample e
  | _ => True

/-- Nothing has been detected and nothing has been saved. -/
structure Unused (s : System n) : Prop where
  still : Events.Still s.events
  stored : s.capture.stored = []

theorem Events.Still.not_capturing {β : Type*} {s : Events.System β} (h : Events.Still s)
    (hheard : Events.Heard s) : ¬ Camera.Capturing s.camera s.queue := by
  rw [hheard.capturing_iff, h.queue, h.received]
  simp

theorem step_unused {a : Act n} (hheard : Events.Heard s.events) (h : Unused s)
    (ha : LowSample a) (ht : step lut s a = some t) : Unused t := by
  constructor
  · rcases step_events ht with ⟨e, rfl, he⟩ | ⟨-, he⟩
    · exact Events.step_still h.still ha he
    · rw [he]
      exact h.still.setBuffer _
  · rcases step_stored ht with ⟨-, hstored, -⟩ | ⟨io, -, hstores, -⟩
    · rw [hstored, h.stored]
    · exact absurd hstores.1 (Events.Still.not_capturing h.still hheard)

/-- The frame of `io` is in the incoming ring behind those that were there, or it was
dropped for the ring was full. -/
inductive Recorded (s t : System n) (io : Capture) : Prop
  | saved (room : s.capture.ring.isFull = false)
      (contents : t.capture.ring.contents =
        s.capture.ring.contents ++ [slotImage s.capture.ring io.bytes])
      (stored : t.capture.stored =
        s.capture.stored ++ [(io.bytes, slotImage s.capture.ring io.bytes)])
      (dropped : t.capture.dropped = s.capture.dropped)
  | dropped (full : s.capture.ring.isFull = true) (ring : t.capture.ring = s.capture.ring)
      (stored : t.capture.stored = s.capture.stored)
      (dropped : t.capture.dropped = s.capture.dropped ++ [127])

theorem Recorded.changes {io : Capture} (h : Recorded s t io) : t.capture ≠ s.capture := by
  intro hsame
  cases h with
  | saved room contents stored dropped =>
    rw [hsame] at stored
    simp at stored
  | dropped full ring stored dropped =>
    rw [hsame] at dropped
    simp at dropped

/- A pass of the camera with a frame to save saves it or drops it. -/
theorem recorded_of_delivers {io : Capture} (h : Levelled s) (hdelivers : Delivers s io)
    (hfits : StoreFits s (.events (.camera io)))
    (ht : step lut s (.events (.camera io)) = some t) : Recorded s t io := by
  obtain ⟨R, W, R', W', h⟩ := h
  cases hroom : s.capture.ring.isFull with
  | false =>
    have hstores := stores_of_delivers hdelivers hroom
    cases (events_effect ht).2 with
    | same none store => exact absurd hstores (none io rfl)
    | saved io' act stores store =>
      cases act
      refine .saved hroom ?_ ?_ ?_
      · rw [store]
        exact saveFrame_contents h.incoming hroom (hfits hstores)
      · rw [store]
      · rw [store]
    | dropped full store =>
      rw [hroom] at full
      cases full
  | true =>
    have hdropped := camera_dropped ht
    have hlen : s.capture.ring.getlen.toNat = 127 := by
      have hfull := h.incoming.isFull.mp hroom
      rw [h.incoming.getlen]
      omega
    rw [if_pos ⟨hdelivers, hroom⟩, hlen] at hdropped
    cases (events_effect ht).2 with
    | same none store =>
      rw [store] at hdropped
      simp at hdropped
    | saved io' act stores store =>
      have hno := stores.2.2.2.2
      rw [hroom] at hno
      cases hno
    | dropped full store =>
      refine .dropped hroom ?_ ?_ hdropped
      · rw [store]
      · rw [store]

/- And one without leaves the ring as it is. -/
theorem kept_of_not_delivers {io : Capture} (hno : ¬ Delivers s io)
    (ht : step lut s (.events (.camera io)) = some t) : t.capture = s.capture := by
  have hdropped := camera_dropped ht
  rw [if_neg fun h => hno h.1, List.append_nil] at hdropped
  cases (events_effect ht).2 with
  | same none store => exact store
  | saved io' act stores store =>
    cases act
    exact absurd (delivers_of_stores stores) hno
  | dropped full store =>
    rw [store] at hdropped
    simp at hdropped

/-- A pass of the camera saves a frame in the incoming ring, or drops it if the ring
is full, exactly when it dequeues one and the last event, the one received in that
pass included, is a report of motion; otherwise it leaves the ring alone. As long as
every sample of the sensor is low, no frame is stored, taken or streamed. -/
theorem saved_for_motion (lut : ColorLut) (acts : List (Act n)) (s : System n)
    (hr : InsideRun lut acts s) :
    (∀ io t, StoreFits s (.events (.camera io)) →
      step lut s (.events (.camera io)) = some t →
        (Recorded s t io ↔ io.select ≠ -1 ∧ framebufferDequeueframe io.dqbuf = .success ∧
          (s.events.received ++ s.events.queue.messages.head?.toList).getLast? =
            some .motionDetected) ∧
        (Recorded s t io ∨ t.capture = s.capture)) ∧
      ((∀ a ∈ acts, LowSample a) → s.capture.stored = [] ∧ s.taken = [] ∧ s.handed = []) := by
  have hheard : Events.Heard s.events :=
    run_inv (fun s : System n => Events.Heard s.events) (fun _ _ _ h ht => step_heard h ht)
      (Events.init_heard _) hr.ran
  have hlevelled := reachable_levelled hr.ran
  refine ⟨fun io t hfits ht => ?_, fun hlow => ?_⟩
  · have hdelivers : Delivers s io ↔ io.select ≠ -1 ∧
        framebufferDequeueframe io.dqbuf = .success ∧
          (s.events.received ++ s.events.queue.messages.head?.toList).getLast? =
            some .motionDetected := by
      rw [Delivers, hheard.capturing_iff]
      constructor
      · rintro ⟨hlast, hselect, hdq⟩
        exact ⟨hselect, hdq, hlast⟩
      · rintro ⟨hselect, hdq, hlast⟩
        exact ⟨hlast, hselect, hdq⟩
    rw [← hdelivers]
    by_cases hd : Delivers s io
    · have hrecorded := recorded_of_delivers hlevelled hd hfits ht
      exact ⟨iff_of_true hrecorded hd, .inl hrecorded⟩
    · have hsame := kept_of_not_delivers hd ht
      exact ⟨iff_of_false (fun h => h.changes hsame) hd, .inr hsame⟩
  · have hunused : Unused s := by
      have h := run_inv_along (fun s : System n => Events.Heard s.events ∧ Unused s)
        (fun s a t hs ha ht => ⟨step_heard hs.1 ht, step_unused hs.1 hs.2 ha ht⟩)
        ⟨Events.init_heard _, Events.init_still _, rfl⟩ (along_of_forall hlow .init) hr.ran
      exact h.2
    obtain ⟨R, W, R', W', h⟩ := hlevelled
    have hstored := h.stored
    have htaken := h.taken
    have hkept := h.kept
    have hhanded := h.handed
    have hle := h.incoming.le
    have hle' := h.image.le
    rw [hunused.stored, List.length_nil] at hstored
    have hnone : s.taken = [] := List.eq_nil_of_length_eq_zero (by omega)
    refine ⟨hunused.stored, hnone, List.eq_nil_of_length_eq_zero ?_⟩
    rw [System.kept, hnone] at hkept
    simp only [List.filter_nil, List.map_nil, List.length_nil] at hkept
    by_cases hidle : s.nvm = .idle
    · rw [hhanded, hidle]
      simp
      omega
    · have := h.busy hidle
      omega

def stillRoom : List (Act 5) :=
  [.events (.detection ⟨0, ⟨0, 0⟩⟩), dequeues 5 shortFrame, .processFrames .zero, .startread]

theorem saved_for_motion_stillRoom :
    ∃ s t, run (step flatLut) .init stillRoom = some s ∧
      step flatLut s (dequeues 5 shortFrame) = some t ∧ t.capture = s.capture ∧
      s.handed = [] := by
  have hfinal : (run (step flatLut) .init (stillRoom ++ [dequeues 5 shortFrame])).isSome := by
    decide +kernel
  obtain ⟨t, ht⟩ := Option.isSome_iff_exists.mp hfinal
  rw [run_append] at ht
  obtain ⟨s, hs, ht⟩ := Option.bind_eq_some_iff.mp ht
  obtain ⟨t', ht', -⟩ := Option.bind_eq_some_iff.mp ht
  have hvalues : (run (step flatLut) .init stillRoom).map
      (fun s => (s.events.received, s.events.queue.messages)) = some ([], []) := by
    decide +kernel
  rw [hs, Option.map_some, Option.some.injEq, Prod.mk.injEq] at hvalues
  obtain ⟨R, W, R', W', hlevels⟩ := reachable_levelled hs
  obtain ⟨hpass, hlow⟩ := saved_for_motion flatLut stillRoom s ⟨hs, by decide +kernel⟩
  obtain ⟨hiff, hsame⟩ := hpass ⟨0, 0, shortFrame, 0⟩ t'
    (fun _ => copyFits_of_length hlevels.incoming (by decide)) ht'
  refine ⟨s, t', hs, ht', hsame.resolve_left fun hrecorded => ?_, (hlow fun a ha => ?_).2.2⟩
  · have hlast := (hiff.mp hrecorded).2.2
    rw [hvalues.1, hvalues.2] at hlast
    simp at hlast
  · simp only [stillRoom, List.mem_cons, List.not_mem_nil, or_false] at ha
    rcases ha with rfl | rfl | rfl | rfl
    · rfl
    · trivial
    · trivial
    · trivial

end MotionDetector.Pipeline
