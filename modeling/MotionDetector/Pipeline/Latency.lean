import MotionDetector.Pipeline.Deadlines

/-!
# Latency under deadlines

How many passes of the sequencer it takes at most from `framebuffer_writeframe` to
`image_save`. What the two rings hold is bounded, and so is the time in which the
services of a ring come to as many.
-/

namespace MotionDetector.Pipeline

open Transition Backlog Osal OsalState Shutdown Detection Camera Transcoder Nvm

variable {n : ℕ} {lut : ColorLut} {inp : Inputs n} {δ : ℕ} {cap : Task → ℕ} {osal : OsalState}
  {s t : Clocked n} {acts : List ClockedAct}

/-! ### The clock -/

theorem step_clock {a : ClockedAct} (ht : s.step lut inp a = some t) :
    t.clock ≤ s.clock + 1 := by
  unfold Clocked.clock
  rcases step_scheduler ht with ⟨b, hb⟩ | hsame
  · cases b with
    | post =>
      rw [← Option.some.inj hb]
      exact Nat.le_succ _
    | incTick =>
      simp only [schedulerStep, Option.ite_none_right_eq_some, Option.some.injEq] at hb
      rw [← hb.2]
      exact Nat.le_succ _
    | wait =>
      simp only [schedulerStep, Option.ite_none_right_eq_some, Option.some.injEq] at hb
      rw [← hb.2]
    | interrupted =>
      simp only [schedulerStep, Option.ite_none_right_eq_some, Option.some.injEq] at hb
      rw [← hb.2]
      exact Nat.le_succ _
    | visit =>
      simp only [schedulerStep] at hb
      split at hb
      · cases hb
      · rw [← Option.some.inj hb]
        exact Nat.le_succ _
  · rw [hsame]
    exact Nat.le_succ _

/-! ### What the services of a stretch come to -/

/-- Frames that have had room in the image buffer. -/
def Clocked.written (s : Clocked n) : ℕ := s.tasks.taken.length - s.tasks.lost.length

theorem Accounted.incoming_le (h : Accounted s) :
    s.tasks.capture.ring.getlen.toNat ≤ s.tasks.capture.stored.length := by
  obtain ⟨R, W, R', W', hoccupied⟩ := h.occupied
  rw [hoccupied.incoming.getlen, hoccupied.stored]
  exact Nat.sub_le W R

theorem Accounted.image_le (h : Accounted s) :
    s.tasks.imageBuffer.getlen.toNat ≤ s.written ∧
      s.tasks.lost.length ≤ s.tasks.taken.length := by
  obtain ⟨R, W, R', W', hoccupied⟩ := h.occupied
  have hkept := hoccupied.kept
  rw [hoccupied.image.getlen, Clocked.written]
  omega

theorem step_incoming_fills {a : ClockedAct} (h : Accounted s)
    (ht : s.step lut inp a = some t) :
    Fills 127 s.tasks.capture.ring.getlen.toNat t.tasks.capture.ring.getlen.toNat
      s.tasks.capture.stored.length t.tasks.capture.stored.length (s.captureMove inp a) := by
  obtain ⟨R, W, hlen, hmoved⟩ := step_incoming h ht
  have hdequeued := hmoved.dequeued
  have hdropped := hmoved.dropped
  unfold Tasks.dequeued at hdequeued
  rw [hlen]
  refine ⟨hmoved.level, ?_⟩
  omega

theorem step_image_fills {a : ClockedAct} (h : Accounted s) (ht : s.step lut inp a = some t) :
    Fills 255 s.tasks.imageBuffer.getlen.toNat t.tasks.imageBuffer.getlen.toNat s.written
      t.written (s.imageMove a) := by
  obtain ⟨R', W', hlen, hmoved⟩ := step_image h ht
  have htaken := hmoved.taken
  have hlost := hmoved.lost
  have hle := h.image_le.2
  have hle' := (step_accounted h ht).image_le.2
  rw [hlen]
  refine ⟨hmoved.level, ?_⟩
  unfold Clocked.written
  omega

/- The frames in the incoming ring are taken. -/
theorem taken_of_services (h : Accounted s) (hr : run (Clocked.step lut inp) s acts = some t)
    (hmany : s.tasks.capture.ring.getlen.toNat ≤
      (moves (Clocked.step lut inp) (Clocked.captureMove inp) s acts).count .serve) :
    s.tasks.capture.stored.length ≤ t.tasks.taken.length := by
  have hserved := run_serves_all (fun u : Clocked n => u.tasks.capture.ring.getlen.toNat)
    (fun u => u.tasks.capture.stored.length) Accounted (fun _ _ _ h ht => step_accounted h ht)
    (fun _ h => h.incoming_le) (fun _ _ _ h ht => step_incoming_fills h ht) h hr hmany
  obtain ⟨R, W, R', W', hoccupied⟩ := (run_accounted h hr).occupied
  have htaken := hoccupied.taken
  have hstored := hoccupied.stored
  have hle := hoccupied.incoming.le
  rw [hoccupied.incoming.getlen] at hserved
  omega

/- The frames in the image buffer are handed to `image_save`. -/
theorem handed_of_services (h : Accounted s) (hr : run (Clocked.step lut inp) s acts = some t)
    (hmany : s.tasks.imageBuffer.getlen.toNat ≤
      (moves (Clocked.step lut inp) Clocked.imageMove s acts).count .serve) :
    s.written ≤ t.tasks.handed.length := by
  have hserved := run_serves_all (fun u : Clocked n => u.tasks.imageBuffer.getlen.toNat)
    Clocked.written Accounted (fun _ _ _ h ht => step_accounted h ht) (fun _ h => h.image_le.1)
    (fun _ _ _ h ht => step_image_fills h ht) h hr hmany
  obtain ⟨R, W, R', W', hoccupied⟩ := (run_accounted h hr).occupied
  have hhanded := hoccupied.handed
  have hkept := hoccupied.kept
  have hle := hoccupied.image.le
  rw [hoccupied.image.getlen] at hserved
  unfold Clocked.written at hserved ⊢
  omega

/-! ### Both rings -/

/-- Passes of the sequencer in which a task with `cap` posts waiting at most serves
`items`. -/
def serviceTime (cap items : ℕ) : ℕ := 6 * (cap + (items + 3) / 2) + 1

theorem le_serviceCurve {cap items k : ℕ} (hk : serviceTime cap items ≤ k) :
    items ≤ serviceCurve cap k := by
  unfold serviceTime at hk
  unfold serviceCurve
  omega

/-- When the two tasks have had the time for what the rings can hold, the images stored
are the first ones handed to `image_save`, and none was dropped. -/
theorem handed_within (lut : ColorLut) (inp : Inputs n) {c : ℕ}
    (hshort : ∀ k, (inp.io k).bytes.length ≤ n) (hready : Ready osal)
    (hδ : δ ≤ 1) (hcap : ∀ task, cap task ≤ semValueMax)
    (hroom : c + 2 * cap .transcoder + 4 ≤ 127)
    (hroom' : 2 * c + 2 * cap .transcoder + 2 * cap .nvm + 9 ≤ 255)
    (before acts : List ClockedAct) (s t : Clocked n)
    (ha : Along (Clocked.step lut inp) (OnTime δ cap) (.init osal) (before ++ acts))
    (hdevice : ArrivalCurve (Clocked.step lut inp) (Clocked.captureMove inp) Clocked.clock
      (fun k => k / 3 + c) (.init osal) (before ++ acts))
    (hs : run (Clocked.step lut inp) (.init osal) before = some s)
    (ht : run (Clocked.step lut inp) s acts = some t)
    (htime : s.clock + serviceTime (cap .transcoder) (c + 2 * cap .transcoder + 4) +
      serviceTime (cap .nvm) (2 * c + 2 * cap .transcoder + 2 * cap .nvm + 9) ≤ t.clock) :
    s.tasks.capture.dropped = [] ∧
      s.tasks.capture.stored.map Prod.snd <+: t.tasks.handed.map Handed.image := by
  obtain ⟨mid, rest, u, rfl, hu, hrest, hclock⟩ := exists_at_clock Clocked.clock
    (fun _ _ _ h => step_clock h) ht (by omega) (Nat.le_add_right s.clock
      (serviceTime (cap .transcoder) (c + 2 * cap .transcoder + 4)))
  have hrun : run (Clocked.step lut inp) (.init osal) (before ++ (mid ++ rest)) = some t := by
    rw [run_append_some _ hs]
    exact ht
  have hmid : run (Clocked.step lut inp) (.init osal) (before ++ mid) = some u := by
    rw [run_append_some _ hs]
    exact hu
  have hincoming := incoming_steady hready hδ hcap ha hdevice hrun
  have himage := image_steady hready hδ hcap ha hdevice hrun
  obtain ⟨hserve, hserve'⟩ := capture_serviceCurve hready hδ hcap ha
  -- what the incoming ring holds is taken by `u`
  obtain ⟨hring, hdropped⟩ := incoming_of_steady (steady_before hs hincoming) hs
  have htime₁ : serviceTime (cap .transcoder) (c + 2 * cap .transcoder + 4) ≤
      u.clock - s.clock := by omega
  have htaken : s.tasks.capture.stored.length ≤ u.tasks.taken.length :=
    taken_of_services (run_accounted (init_accounted osal) hs) hu
      ((hring.trans (le_serviceCurve htime₁)).trans (hserve before mid rest s u rfl hs hu))
  -- and what the image buffer holds there is handed on from then on
  rw [← List.append_assoc] at himage
  obtain ⟨hbuffer, hlost⟩ := image_of_steady (steady_before hmid himage) hmid
  have htime₂ : serviceTime (cap .nvm) (2 * c + 2 * cap .transcoder + 2 * cap .nvm + 9) ≤
      t.clock - u.clock := by omega
  have hhanded : u.written ≤ t.tasks.handed.length :=
    handed_of_services (run_accounted (init_accounted osal) hmid) hrest
      ((hbuffer.trans (le_serviceCurve htime₂)).trans
        (hserve' (before ++ mid) rest [] u t (by simp) hmid hrest))
  unfold Clocked.written at hhanded
  rw [hlost hroom'] at hhanded
  -- and in the order of the frames
  obtain ⟨htakenPrefix, hhandedPrefix⟩ := (run_serial hshort hrun).conserved hshort
  rw [kept_all ((image_of_steady himage (by rwa [List.append_assoc])).2 hroom')] at hhandedPrefix
  have hstored := (clocked_stored_extends ht).map Prod.snd
  refine ⟨hdropped hroom, List.prefix_of_prefix_length_le hstored
    (hhandedPrefix.trans htakenPrefix) ?_⟩
  rw [List.length_map, List.length_map]
  exact htaken.trans hhanded

/-- A sensor that stays high and a device that gives one frame. -/
def oneShot : Inputs 5 where
  rd _ := ⟨1, ⟨0, 0⟩⟩
  io k := if k = 0 then ⟨1, 0, shortFrame, 0⟩ else ⟨-1, 0, [], 0⟩
  calls _ := ⟨3, [5]⟩
  rgbFrame _ := .zero

/-- The detector and the camera do not come to their second pass. -/
def firstFrame : List ClockedAct := statements .detection 10 ++ statements .camera 10

def sixPasses : List ClockedAct :=
  (List.replicate 6 alarm).flatten ++ statements .transcoder 10 ++ statements .nvm 10

def seventeenRounds : List ClockedAct :=
  statements .transcoder 12 ++ statements .nvm 11 ++ (List.replicate 17 sixPasses).flatten

def slowStart : Task → ℕ
  | .transcoder | .nvm => 1
  | _ => 200

theorem handed_within_seventeenRounds :
    ∃ s t, run (Clocked.step flatLut oneShot) (.init calmTable) firstFrame = some s ∧
      run (Clocked.step flatLut oneShot) s seventeenRounds = some t ∧
      s.tasks.capture.stored.length = 1 ∧
      s.tasks.capture.stored.map Prod.snd <+: t.tasks.handed.map Handed.image := by
  have honTime : Along (Clocked.step flatLut oneShot) (OnTime 0 slowStart) (.init calmTable)
      (firstFrame ++ seventeenRounds) := by
    decide +kernel
  have hfirst : (run (Clocked.step flatLut oneShot) (.init calmTable) firstFrame).map
      (fun s => (s.tasks.capture.stored.length, s.clock)) = some (1, 0) := by
    decide +kernel
  have hfinal : (run (Clocked.step flatLut oneShot) (.init calmTable)
      (firstFrame ++ seventeenRounds)).map (fun t => (t.tasks.dequeued, t.clock)) =
        some (1, 102) := by
    decide +kernel
  obtain ⟨s, hs, hvalues⟩ := Option.map_eq_some_iff.mp hfirst
  obtain ⟨t, ht, hvalues'⟩ := Option.map_eq_some_iff.mp hfinal
  simp only [Prod.mk.injEq] at hvalues hvalues'
  have hrest : run (Clocked.step flatLut oneShot) s seventeenRounds = some t := by
    rwa [run_append_some _ hs] at ht
  have hshort (k : ℕ) : (oneShot.io k).bytes.length ≤ 5 := by
    cases k with
    | zero => decide
    | succ k => exact Nat.zero_le 5
  obtain ⟨-, hhanded⟩ := handed_within flatLut oneShot hshort calmTable_ready (Nat.zero_le 1)
    (fun task => by cases task <;> decide) (by decide) (by decide) firstFrame seventeenRounds s t
    honTime (arrivalCurve_of_dequeued ht hvalues'.1) hs hrest
    (by rw [hvalues.2, hvalues'.2]; decide)
  exact ⟨s, t, hs, hrest, hvalues.1, hhanded⟩

end MotionDetector.Pipeline
