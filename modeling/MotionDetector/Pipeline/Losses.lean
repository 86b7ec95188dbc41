import MotionDetector.Lib.Losses
import MotionDetector.Pipeline.Backlog

/-!
# How many frames are lost

What a schedule loses at each of the two frame rings is the greatest sum over
stretches of it that do not overlap, and where every other frame is follows.
-/

namespace MotionDetector.Pipeline

open Transition RingBuffer Backlog

variable {n : ℕ} {lut : ColorLut} {s t : System n}

/-- Frames `framebuffer_writeframe` had to save, with and without room for them. -/
def System.dequeued (s : System n) : ℕ := s.capture.stored.length + s.capture.dropped.length

theorem captureMove_eq_arrive {a : Act n} :
    captureMove s a = .arrive ↔ ∃ io, a = .events (.camera io) ∧ Delivers s io := by
  cases a with
  | events a =>
    cases a with
    | detection r => simp [captureMove]
    | camera io => simp [captureMove]
  | processFrames rgbFrame => simp [captureMove]
  | startread => simp [captureMove]
  | imageSave calls => simp [captureMove]
  | endread => simp [captureMove]

theorem step_dequeued {a : Act n} (h : Levelled s) (ht : step lut s a = some t) :
    t.dequeued = s.dequeued + if captureMove s a = .arrive then 1 else 0 := by
  have hdropped := (step_moved h ht).2.1
  obtain ⟨R, W, R', W', h⟩ := h
  have hfull := h.incoming.isFull
  have hlen := h.incoming.getlen
  unfold System.dequeued
  rcases step_stored ht with ⟨hnone, hstored, -⟩ | ⟨io, rfl, hstores, hstored, -⟩
  · by_cases ha : captureMove s a = .arrive
    · obtain ⟨io, rfl, hdelivers⟩ := captureMove_eq_arrive.mp ha
      have hf : s.capture.ring.isFull = true := by
        by_contra hf
        exact hnone io rfl (stores_of_delivers hdelivers (Bool.eq_false_of_not_eq_true hf))
      have := hfull.mp hf
      rw [hstored, hdropped, refuses, if_pos ⟨ha, by omega⟩, if_pos ha, Nat.add_assoc]
    · rw [hstored, hdropped, refuses, if_neg fun h => ha h.1, if_neg ha]
      rfl
  · have ha : captureMove s (.events (.camera io)) = .arrive :=
      if_pos (delivers_of_stores hstores)
    have hf : ¬ s.capture.ring.isFull = true := by simp [hstores.2.2.2.2]
    have hroom := h.incoming.room
    have hlt := mt hfull.mpr hf
    rw [hstored, hdropped, refuses, if_neg fun h => absurd h.2 (by omega), if_pos ha,
      List.length_append, List.length_singleton]
    omega

/-- The frames dropped at the incoming ring and those that find the image buffer
full number exactly what the worst stretches of the schedule leave over 127 and 255
places. Every other frame dequeued while capturing is taken or in the incoming ring,
and what was taken with room for it is with `image_save` or in the image buffer, both
in order and with the bytes that were stored. -/
theorem losses_isGreatest (lut : ColorLut) (acts : List (Act n)) (s : System n)
    (hfits : Along (step lut) StoreFits .init acts) (hr : run (step lut) .init acts = some s) :
    IsGreatest (Excesses 127 (moves (step lut) captureMove .init acts))
        s.capture.dropped.length ∧
      IsGreatest (Excesses 255 (moves (step lut) imageMove .init acts)) s.lost.length ∧
      (moves (step lut) captureMove .init acts).count .arrive =
        s.capture.dropped.length + s.appended.length ∧
      s.appended = s.taken.map Prod.fst ++ s.capture.ring.contents ∧
      (s.taken.filter fun t => t.2 ≠ 255).map Prod.fst =
        s.handed.map Handed.image ++ s.pending := by
  obtain ⟨R, W, R', W', hflow⟩ := reachable_flow hfits hr
  refine ⟨?_, ?_, ?_, hflow.appended, hflow.kept⟩
  · rw [(incoming_levels hr).2]
    exact refused_isGreatest 127 _
  · rw [image_levels hr]
    exact refused_isGreatest 255 _
  · have hcount := run_count System.dequeued Levelled (fun _ _ _ h ht => step_levelled h ht)
      (fun _ _ _ h ht => step_dequeued h ht) init_levelled hr
    have hzero : (System.init : System n).dequeued = 0 := rfl
    rw [hzero, Nat.zero_add] at hcount
    rw [← hcount, System.dequeued, System.appended, List.length_map, Nat.add_comm]

/-- The ring overruns, one call makes room, and it overruns again. -/
def twiceOverrun : List (Act 5) :=
  overrun ++ [.processFrames .zero, dequeues 5 shortFrame, dequeues 5 shortFrame]

theorem losses_isGreatest_twiceOverrun :
    ∃ s, run (step flatLut) .init twiceOverrun = some s ∧ s.capture.dropped.length = 2 ∧
      IsGreatest (Excesses 127 (moves (step flatLut) captureMove .init twiceOverrun)) 2 := by
  have hfinal : (run (step flatLut) .init twiceOverrun).map
      (fun s => (s.capture.dropped.length, s.capture.stored.map Prod.fst)) =
        some (2, List.replicate 128 shortFrame) := by
    decide +kernel
  obtain ⟨s, hs, hvalues⟩ := Option.map_eq_some_iff.mp hfinal
  simp only [Prod.mk.injEq] at hvalues
  have hfits := reachable_storeFits hs (short_of_stored (by decide) hvalues.2)
  have h := (losses_isGreatest flatLut twiceOverrun s hfits hs).1
  rw [hvalues.1] at h
  exact ⟨s, hs, hvalues.1, h⟩

end MotionDetector.Pipeline
