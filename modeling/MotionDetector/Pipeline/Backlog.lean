import MotionDetector.Lib.Backlog
import MotionDetector.Pipeline.Conservation

/-!
# Backlog of the two frame rings

Which schedules of the tasks lose no frame. To the incoming ring a frame dequeued
while capturing is an arrival and a call of `process_frames` a service, to the
image buffer a frame taken is an arrival. The counts rest on no copy leaving the
storage of the ring, what the frames hold on the copies fitting.
-/

namespace MotionDetector.Pipeline

open Transition RingBuffer Backlog

variable {n : ℕ} {lut : ColorLut} {s t : System n} {R W R' W' : ℕ}

/-- `framebuffer_writeframe` has a frame to save, with or without room for it. -/
def Delivers (s : System n) (io : Capture) : Prop :=
  Camera.Capturing s.events.camera s.events.queue ∧
    io.select ≠ -1 ∧ framebufferDequeueframe io.dqbuf = .success

instance (s : System n) (io : Capture) : Decidable (Delivers s io) :=
  inferInstanceAs (Decidable (_ ∧ _))

def captureMove (s : System n) : Act n → Move
  | .events (.camera io) => if Delivers s io then .arrive else .other
  | .processFrames _ => .serve
  | _ => .other

/-- A slot of `imageBuffer` is free again at the end of the pass that streamed it. -/
def imageMove (s : System n) : Act n → Move
  | .processFrames _ => if s.capture.ring.isEmpty then .other else .arrive
  | .endread => .serve
  | _ => .other

/- `R`, `W` and `R'`, `W'` count the frames read from and written to the rings. -/
structure Levels (s : System n) (R W R' W' : ℕ) : Prop where
  incoming : Tracks s.capture.ring 7 R W
  image : Tracks s.imageBuffer 8 R' W'
  stored : s.capture.stored.length = W
  taken : s.taken.length = R
  kept : s.kept.length = W'
  busy : s.nvm ≠ .idle → R' < W'
  handed : s.handed.length = R' + if s.nvm = .saved then 1 else 0

theorem init_levels : Levels (System.init : System n) 0 0 0 0 where
  incoming := init_flow.incoming
  image := init_flow.image
  stored := rfl
  taken := rfl
  kept := rfl
  busy h := absurd rfl h
  handed := rfl

/-- The frames that found `imageBuffer` full. -/
def System.lost (s : System n) : List (Frame n × ℕ) := s.taken.filter fun t => t.2 = 255

/-- A step against its moves at the two rings. -/
structure Moved (s t : System n) (a : Act n) (R W R' W' : ℕ) : Prop where
  incoming : t.capture.ring.getlen.toNat = next 127 (W - R) (captureMove s a)
  dropped : t.capture.dropped.length =
    s.capture.dropped.length + refuses 127 (W - R) (captureMove s a)
  image : t.imageBuffer.getlen.toNat = next 255 (W' - R') (imageMove s a)
  lost : t.lost.length = s.lost.length + refuses 255 (W' - R') (imageMove s a)

/-! ### One step -/

theorem stores_of_delivers {io : Capture} (h : Delivers s io)
    (hroom : s.capture.ring.isFull = false) : Stores s io :=
  ⟨h.1, h.2.1, h.2.2, rfl, hroom⟩

theorem delivers_of_stores {io : Capture} (h : Stores s io) : Delivers s io :=
  ⟨h.1, h.2.1, h.2.2.1⟩

theorem camera_dropped {io : Capture} (ht : step lut s (.events (.camera io)) = some t) :
    t.capture.dropped = s.capture.dropped ++
      if Delivers s io ∧ s.capture.ring.isFull = true then [s.capture.ring.getlen.toNat]
      else [] := by
  simp only [step, Events.step, Option.map_some, Option.some.injEq] at ht
  subst ht
  rcases Camera.cameraIteration_buffer CaptureStore.writeframe io s.events.camera
    s.events.queue s.capture with ⟨hcap, h⟩ | ⟨hidle, h⟩
  · refine (congrArg CaptureStore.dropped h).trans ?_
    have hiff : Drops io true s.capture.ring ↔
        Delivers s io ∧ s.capture.ring.isFull = true := by
      constructor
      · rintro ⟨hselect, hdq, -, hfull⟩
        exact ⟨⟨hcap, hselect, hdq⟩, hfull⟩
      · rintro ⟨⟨-, hselect, hdq⟩, hfull⟩
        exact ⟨hselect, hdq, rfl, hfull⟩
    rw [CaptureStore.writeframe]
    simp only [hiff]
    split
    · rfl
    · exact (List.append_nil _).symm
  · rw [if_neg (fun h => hidle h.1.1), List.append_nil]
    rcases h with h | h
    · exact congrArg CaptureStore.dropped h
    · exact (congrArg CaptureStore.dropped h).trans
        (congrArg CaptureStore.dropped (writeframe_false io _))

/- A step that leaves the image buffer and the nvm task alone. -/
theorem Levels.of_capture (h : Levels s R W R' W') {W₁ : ℕ}
    (ht : t = { s with events := t.events }) (hin : Tracks t.capture.ring 7 R W₁)
    (hstored : t.capture.stored.length = W₁) : Levels t R W₁ R' W' := by
  have htaken : t.taken = s.taken := by rw [ht]
  have himage : t.imageBuffer = s.imageBuffer := by rw [ht]
  have hnvm : t.nvm = s.nvm := by rw [ht]
  have hhanded : t.handed = s.handed := by rw [ht]
  exact
    { incoming := hin
      image := himage ▸ h.image
      stored := hstored
      taken := htaken ▸ h.taken
      kept := by
        rw [← h.kept, System.kept, System.kept, htaken]
      busy := by
        rw [hnvm]
        exact h.busy
      handed := by
        rw [hnvm, hhanded]
        exact h.handed }

theorem moved_of_image {a : Act n} (h : Levels s R W R' W')
    (ht : t = { s with events := t.events }) (ha : imageMove s a = .other)
    (hincoming : t.capture.ring.getlen.toNat = next 127 (W - R) (captureMove s a))
    (hdropped : t.capture.dropped.length =
      s.capture.dropped.length + refuses 127 (W - R) (captureMove s a)) :
    Moved s t a R W R' W' where
  incoming := hincoming
  dropped := hdropped
  image := by
    have himage : t.imageBuffer = s.imageBuffer := by rw [ht]
    rw [himage, ha, h.image.getlen]
    rfl
  lost := by
    have htaken : t.taken = s.taken := by rw [ht]
    rw [ha, System.lost, System.lost, htaken]
    rfl

theorem Levels.detection {r : Detection.Reading} (h : Levels s R W R' W')
    (ht : step lut s (.events (.detection r)) = some t) :
    Levels t R W R' W' ∧ Moved s t (.events (.detection r)) R W R' W' := by
  obtain ⟨hsame, -⟩ := events_effect ht
  simp only [step, Events.step, Option.map_some, Option.some.injEq] at ht
  have hbuffer : t.capture = s.capture := by
    rw [← ht]
    exact Events.send_foldl_buffer _ _
  refine ⟨h.of_capture hsame (hbuffer ▸ h.incoming) (hbuffer ▸ h.stored),
    moved_of_image h hsame rfl ?_ ?_⟩
  · rw [hbuffer, h.incoming.getlen]
    rfl
  · rw [hbuffer]
    rfl

theorem camera_stores {io : Capture} (ht : step lut s (.events (.camera io)) = some t)
    (hstores : Stores s io) :
    t.capture.ring = saveFrame io.bytes s.capture.ring ∧
      t.capture.stored.length = s.capture.stored.length + 1 := by
  cases (events_effect ht).2 with
  | same none store => exact absurd hstores (none io rfl)
  | saved io' act stores store =>
    cases act
    rw [store]
    exact ⟨rfl, by simp⟩
  | dropped full store => simp [hstores.2.2.2.2] at full

theorem camera_idles {io : Capture} (ht : step lut s (.events (.camera io)) = some t)
    (hno : ¬ Stores s io) :
    t.capture.ring = s.capture.ring ∧ t.capture.stored = s.capture.stored := by
  cases (events_effect ht).2 with
  | same none store =>
    rw [store]
    exact ⟨rfl, rfl⟩
  | saved io' act stores store =>
    cases act
    exact absurd stores hno
  | dropped full store =>
    rw [store]
    exact ⟨rfl, rfl⟩

theorem Levels.camera {io : Capture} (h : Levels s R W R' W')
    (ht : step lut s (.events (.camera io)) = some t) :
    ∃ W₁, Levels t R W₁ R' W' ∧ Moved s t (.events (.camera io)) R W R' W' := by
  obtain ⟨hsame, -⟩ := events_effect ht
  have hdropped := congrArg List.length (camera_dropped ht)
  rw [List.length_append] at hdropped
  have hle := h.incoming.le
  have hroom := h.incoming.room
  have hfull := h.incoming.isFull
  by_cases hdelivers : Delivers s io
  · have hmove : captureMove s (.events (.camera io)) = .arrive := if_pos hdelivers
    by_cases hf : s.capture.ring.isFull = true
    · have hlen := hfull.mp hf
      have hno : ¬ Stores s io := fun hs => by simp [hs.2.2.2.2] at hf
      obtain ⟨hring, hstored⟩ := camera_idles ht hno
      rw [if_pos ⟨hdelivers, hf⟩] at hdropped
      refine ⟨W, h.of_capture hsame (hring ▸ h.incoming) (hstored ▸ h.stored),
        moved_of_image h hsame rfl ?_ ?_⟩
      · rw [hring, h.incoming.getlen, hmove, next, if_neg (by omega)]
      · rw [hdropped, hmove, refuses, if_pos ⟨rfl, by omega⟩]
        rfl
    · have hlen : W - R < 127 := by
        have := mt hfull.mpr hf
        omega
      obtain ⟨hring, hstored⟩ :=
        camera_stores ht (stores_of_delivers hdelivers (Bool.eq_false_of_not_eq_true hf))
      have hin : Tracks t.capture.ring 7 R (W + 1) := by
        rw [hring]
        exact saveFrame_tracks h.incoming (Bool.eq_false_of_not_eq_true hf) io.bytes
      rw [if_neg fun hd => hf hd.2] at hdropped
      refine ⟨W + 1, h.of_capture hsame hin (by rw [hstored, h.stored]),
        moved_of_image h hsame rfl ?_ ?_⟩
      · rw [hin.getlen, hmove, next, if_pos hlen]
        omega
      · rw [hdropped, hmove, refuses, if_neg fun hr => absurd hr.2 (by omega)]
        rfl
  · have hmove : captureMove s (.events (.camera io)) = .other := if_neg hdelivers
    obtain ⟨hring, hstored⟩ := camera_idles ht fun hs => hdelivers (delivers_of_stores hs)
    rw [if_neg fun hd => hdelivers hd.1] at hdropped
    refine ⟨W, h.of_capture hsame (hring ▸ h.incoming) (hstored ▸ h.stored),
      moved_of_image h hsame rfl ?_ ?_⟩
    · rw [hring, h.incoming.getlen, hmove]
      rfl
    · rw [hdropped, hmove]
      rfl

theorem Levels.processFrames {rgbFrame : Frame n} (h : Levels s R W R' W')
    (ht : step lut s (.processFrames rgbFrame) = some t) :
    ∃ R₁ W₁', Levels t R₁ W R' W₁' ∧ Moved s t (.processFrames rgbFrame) R W R' W' := by
  have hle := h.incoming.le
  have hle' := h.image.le
  have hroom' := h.image.room
  have hlen := h.image.getlen
  simp only [step, takenFrame_eq h.incoming, Option.some.injEq] at ht
  by_cases hlt : R < W
  · have hmove : imageMove s (.processFrames rgbFrame) = .arrive := by
      simp [imageMove, h.incoming.isEmpty_eq, hlt.ne]
    have hserve : s.capture.ring.incReadptr.getlen.toNat = next 127 (W - R) .serve := by
      rw [(h.incoming.incReadptr hlt).getlen, next]
      omega
    rw [processFrames_of_lt lut rgbFrame h.incoming hlt, if_pos hlt] at ht
    rcases Nat.lt_or_ge (W' + 1) (R' + 2 ^ 8) with hroom | hfull
    · obtain ⟨hwrite, htracks, -⟩ :=
        imagebufferWrite_room h.image hroom (s.capture.ring.data (R % 2 ^ 7))
      rw [hwrite] at ht
      have hne : W' - R' ≠ 255 := by omega
      subst ht
      refine ⟨R + 1, W' + 1, ?_, ?_⟩
      · exact
          { incoming := h.incoming.incReadptr hlt
            image := htracks
            stored := h.stored
            taken := by simp [h.taken]
            kept := by
              rw [← h.kept]
              simp [System.kept, List.filter_append, hlen, hne]
            busy := fun hb => (h.busy hb).trans (Nat.lt_succ_self _)
            handed := h.handed }
      · exact
          { incoming := hserve
            dropped := rfl
            image := by
              rw [hmove, next, if_pos (by omega)]
              exact htracks.getlen.trans (by omega)
            lost := by
              rw [hmove, refuses, if_neg fun hr => absurd hr.2 (by omega)]
              simp [System.lost, List.filter_append, hlen, hne] }
    · have hfull : W' + 1 = R' + 2 ^ 8 := Nat.le_antisymm h.image.room hfull
      rw [imagebufferWrite_full h.image hfull] at ht
      have heq : W' - R' = 255 := by omega
      subst ht
      refine ⟨R + 1, W', ?_, ?_⟩
      · exact
          { incoming := h.incoming.incReadptr hlt
            image := h.image
            stored := h.stored
            taken := by simp [h.taken]
            kept := by
              rw [← h.kept]
              simp [System.kept, List.filter_append, hlen, heq]
            busy := h.busy
            handed := h.handed }
      · exact
          { incoming := hserve
            dropped := rfl
            image := by
              rw [hmove, next, if_neg (by omega)]
              exact hlen
            lost := by
              rw [hmove, refuses, if_pos ⟨rfl, by omega⟩]
              simp [System.lost, List.filter_append, hlen, heq] }
  · obtain rfl : R = W := Nat.le_antisymm h.incoming.le (Nat.le_of_not_lt hlt)
    have hmove : imageMove s (.processFrames rgbFrame) = .other := by
      simp [imageMove, h.incoming.isEmpty_eq]
    rw [processFrames_of_eq lut rgbFrame h.incoming, if_neg hlt] at ht
    simp only [Option.toList_none, List.map_nil, List.append_nil] at ht
    subst ht
    refine ⟨R, W', h, ?_⟩
    exact
      { incoming := by
          rw [captureMove, next, Nat.sub_self]
          exact h.incoming.getlen.trans (Nat.sub_self _)
        dropped := rfl
        image := by
          rw [hmove]
          exact hlen
        lost := by
          rw [hmove]
          rfl }

/- Where only the nvm task moves on and no slot is freed. -/
theorem moved_of_nvm {a : Act n} (h : Levels s R W R' W') (hcapture : t.capture = s.capture)
    (himage : t.imageBuffer = s.imageBuffer) (htaken : t.taken = s.taken)
    (ha : captureMove s a = .other) (ha' : imageMove s a = .other) : Moved s t a R W R' W' where
  incoming := by
    rw [hcapture, ha, h.incoming.getlen]
    rfl
  dropped := by
    rw [hcapture, ha]
    rfl
  image := by
    rw [himage, ha', h.image.getlen]
    rfl
  lost := by
    rw [ha', System.lost, System.lost, htaken]
    rfl

theorem Levels.startread (h : Levels s R W R' W') (ht : step lut s .startread = some t) :
    Levels t R W R' W' ∧ Moved s t .startread R W R' W' := by
  obtain ⟨hs, rfl | ⟨slot, hread, rfl⟩⟩ := startread_step ht
  · exact ⟨h, moved_of_nvm h rfl rfl rfl rfl rfl⟩
  · refine ⟨?_, moved_of_nvm h rfl rfl rfl rfl rfl⟩
    have hhanded := h.handed
    rw [hs] at hhanded
    rw [imagebufferStartread_eq h.image] at hread
    split at hread
    · next hlt =>
      exact
        { incoming := h.incoming
          image := h.image
          stored := h.stored
          taken := h.taken
          kept := h.kept
          busy := fun _ => hlt
          handed := hhanded }
    · cases hread

theorem Levels.imageSave {calls : SaveCalls} (h : Levels s R W R' W')
    (ht : step lut s (.imageSave calls) = some t) :
    Levels t R W R' W' ∧ Moved s t (.imageSave calls) R W R' W' := by
  obtain ⟨slot, result, fd, sends, hs, -, rfl⟩ := imageSave_step ht
  have hhanded := h.handed
  rw [hs] at hhanded
  refine ⟨?_, moved_of_nvm h rfl rfl rfl rfl rfl⟩
  exact
    { incoming := h.incoming
      image := h.image
      stored := h.stored
      taken := h.taken
      kept := h.kept
      busy := fun _ => h.busy (by simp [hs])
      handed := by simpa using hhanded }

theorem Levels.endread (h : Levels s R W R' W') (ht : step lut s .endread = some t) :
    Levels t R W (R' + 1) W' ∧ Moved s t .endread R W R' W' := by
  obtain ⟨hs, rfl⟩ := endread_step ht
  have hlt := h.busy (by simp [hs])
  have hhanded := h.handed
  rw [hs] at hhanded
  rw [imagebufferEndread_of_lt h.image hlt]
  refine ⟨?_, ?_⟩
  · exact
      { incoming := h.incoming
        image := h.image.incReadptr hlt
        stored := h.stored
        taken := h.taken
        kept := h.kept
        busy := fun hb => absurd rfl hb
        handed := hhanded }
  · exact
      { incoming := h.incoming.getlen
        dropped := rfl
        image := by
          rw [imageMove, next]
          exact (h.image.incReadptr hlt).getlen.trans (by omega)
        lost := rfl }

theorem step_levels {a : Act n} (h : Levels s R W R' W') (ht : step lut s a = some t) :
    (∃ R W R' W', Levels t R W R' W') ∧ Moved s t a R W R' W' := by
  cases a with
  | events a =>
    cases a with
    | detection r =>
      obtain ⟨h, hm⟩ := h.detection ht
      exact ⟨⟨R, W, R', W', h⟩, hm⟩
    | camera io =>
      obtain ⟨W₁, h, hm⟩ := h.camera ht
      exact ⟨⟨R, W₁, R', W', h⟩, hm⟩
  | processFrames rgbFrame =>
    obtain ⟨R₁, W₁', h, hm⟩ := h.processFrames ht
    exact ⟨⟨R₁, W, R', W₁', h⟩, hm⟩
  | startread =>
    obtain ⟨h, hm⟩ := h.startread ht
    exact ⟨⟨R, W, R', W', h⟩, hm⟩
  | imageSave calls =>
    obtain ⟨h, hm⟩ := h.imageSave ht
    exact ⟨⟨R, W, R', W', h⟩, hm⟩
  | endread =>
    obtain ⟨h, hm⟩ := h.endread ht
    exact ⟨⟨R, W, R' + 1, W', h⟩, hm⟩

def Levelled (s : System n) : Prop := ∃ R W R' W', Levels s R W R' W'

theorem step_levelled {a : Act n} (h : Levelled s) (ht : step lut s a = some t) : Levelled t := by
  obtain ⟨R, W, R', W', h⟩ := h
  exact (step_levels h ht).1

theorem step_moved {a : Act n} (h : Levelled s) (ht : step lut s a = some t) :
    t.capture.ring.getlen.toNat =
        next 127 s.capture.ring.getlen.toNat (captureMove s a) ∧
      t.capture.dropped.length =
        s.capture.dropped.length + refuses 127 s.capture.ring.getlen.toNat (captureMove s a) ∧
      t.imageBuffer.getlen.toNat = next 255 s.imageBuffer.getlen.toNat (imageMove s a) ∧
      t.lost.length = s.lost.length + refuses 255 s.imageBuffer.getlen.toNat (imageMove s a) := by
  obtain ⟨R, W, R', W', h⟩ := h
  have hm := (step_levels h ht).2
  rw [h.incoming.getlen, h.image.getlen]
  exact ⟨hm.incoming, hm.dropped, hm.image, hm.lost⟩

theorem reachable_levelled {acts : List (Act n)} (hr : run (step lut) .init acts = some s) :
    Levelled s :=
  run_inv Levelled (fun _ _ _ h ht => step_levelled h ht) ⟨0, 0, 0, 0, init_levels⟩ hr

theorem init_levelled : Levelled (System.init : System n) := ⟨0, 0, 0, 0, init_levels⟩

theorem init_getlen : (System.init : System n).capture.ring.getlen.toNat = 0 ∧
    (System.init : System n).imageBuffer.getlen.toNat = 0 :=
  ⟨init_levels.incoming.getlen, init_levels.image.getlen⟩

theorem incoming_levels {acts : List (Act n)} (hr : run (step lut) .init acts = some s) :
    s.capture.ring.getlen.toNat = level 127 0 (moves (step lut) captureMove .init acts) ∧
      s.capture.dropped.length = refused 127 0 (moves (step lut) captureMove .init acts) := by
  have h := run_level (fun s : System n => s.capture.ring.getlen.toNat)
    (fun s => s.capture.dropped.length) Levelled
    (fun _ _ _ h ht => step_levelled h ht) (fun _ _ _ h ht => (step_moved h ht).1)
    (fun _ _ _ h ht => (step_moved h ht).2.1) init_levelled hr
  rw [init_getlen.1] at h
  exact ⟨h.1, h.2.trans (Nat.zero_add _)⟩

theorem image_levels {acts : List (Act n)} (hr : run (step lut) .init acts = some s) :
    s.lost.length = refused 255 0 (moves (step lut) imageMove .init acts) := by
  have h := run_level (fun s : System n => s.imageBuffer.getlen.toNat)
    (fun s => s.lost.length) Levelled
    (fun _ _ _ h ht => step_levelled h ht) (fun _ _ _ h ht => (step_moved h ht).2.2.1)
    (fun _ _ _ h ht => (step_moved h ht).2.2.2) init_levelled hr
  rw [init_getlen.2] at h
  exact h.2.trans (Nat.zero_add _)

/-! ### Schedules that lose no frame -/

/-- As long as no copy leaves the storage, the incoming ring drops nothing exactly
when in every stretch of the run the frames dequeued while capturing outnumber the
calls of `process_frames` by at most 127, and no frame finds the image buffer full
exactly when in every stretch the frames taken outnumber the slots given back by at
most 255. -/
theorem nothing_lost_iff (lut : ColorLut) (acts : List (Act n)) (s : System n)
    (hr : InsideRun lut acts s) :
    (s.capture.dropped = [] ↔ Steady 127 (moves (step lut) captureMove .init acts)) ∧
      (s.lost = [] ↔ Steady 255 (moves (step lut) imageMove .init acts)) := by
  rw [← List.length_eq_zero_iff, ← List.length_eq_zero_iff, (incoming_levels hr.ran).2,
    image_levels hr.ran]
  exact ⟨refused_eq_zero_iff, refused_eq_zero_iff⟩

/-- One frame more than the ring has room for and no call of `process_frames`. -/
def overrun : List (Act 5) := motion 5 :: List.replicate 128 (dequeues 5 shortFrame)

theorem nothing_lost_overrun :
    ¬ Steady 127 (moves (step flatLut) captureMove .init overrun) ∧
      Steady 255 (moves (step flatLut) imageMove .init overrun) := by
  have hfinal : (run (step flatLut) .init overrun).map
      (fun s => (s.capture.dropped, s.lost)) = some ([127], []) := by
    decide +kernel
  obtain ⟨s, hs, hvalues⟩ := Option.map_eq_some_iff.mp hfinal
  simp only [Prod.mk.injEq] at hvalues
  have h := nothing_lost_iff flatLut overrun s ⟨hs, by decide +kernel⟩
  refine ⟨fun hsteady => ?_, h.2.mp hvalues.2⟩
  have hnone := h.1.mpr hsteady
  rw [hvalues.1] at hnone
  cases hnone

def isCamera : Act n → Bool
  | .events (.camera _) => true
  | _ => false

def isProcessFrames : Act n → Bool
  | .processFrames _ => true
  | _ => false

def isStartread : Act n → Bool
  | .startread => true
  | _ => false

/-- To the frames that wait for the nvm task a pass of its loop is a service, with
or without one of them there. -/
def waitMove (s : System n) : Act n → Move
  | .processFrames _ => if s.capture.ring.isEmpty then .other else .arrive
  | .startread => .serve
  | _ => .other

/-- Images in the buffer and not held by the nvm task. -/
def System.waiting (s : System n) : ℕ :=
  s.imageBuffer.getlen.toNat - if s.nvm = .idle then 0 else 1

theorem step_waiting {a : Act n} (h : Levelled s) (ht : step lut s a = some t) :
    t.waiting ≤ next 255 s.waiting (waitMove s a) := by
  have himage := (step_moved h ht).2.2.1
  obtain ⟨R, W, R', W', h⟩ := h
  have hlen := h.image.getlen
  have hbusy := h.busy
  unfold System.waiting
  cases a with
  | events a =>
    obtain ⟨hsame, -⟩ := events_effect ht
    have hnvm : t.nvm = s.nvm := by rw [hsame]
    rw [himage, hnvm]
    cases a with
    | detection r => exact Nat.le_refl _
    | camera io => exact Nat.le_refl _
  | processFrames rgbFrame =>
    have hnvm : t.nvm = s.nvm := by
      simp only [step, Option.some.injEq] at ht
      rw [← ht]
      rfl
    rw [himage, hnvm]
    simp only [imageMove, waitMove]
    split
    · exact Nat.le_refl _
    · by_cases hidle : s.nvm = .idle
      · simp [hidle]
      · have := hbusy hidle
        simp only [hidle, if_false, next]
        split <;> split <;> omega
  | startread =>
    obtain ⟨hs, -⟩ := startread_step ht
    simp only [step, hs, imagebufferStartread_eq h.image] at ht
    by_cases hlt : R' < W'
    · rw [if_pos hlt] at ht
      cases ht
      simp [hs, waitMove, next]
    · rw [if_neg hlt] at ht
      cases ht
      have hzero : s.imageBuffer.getlen.toNat = 0 := by omega
      simp [hs, hzero]
  | imageSave calls =>
    obtain ⟨slot, result, fd, sends, hs, -, rfl⟩ := imageSave_step ht
    simp [hs, waitMove, next]
  | endread =>
    obtain ⟨hs, rfl⟩ := endread_step ht
    rw [himage]
    simp [hs, imageMove, waitMove, next]

theorem waiting_le {acts p q : List (Act n)} {c : ℕ} (hp : p ++ q = acts)
    (hsteady : Steady c (moves (step lut) waitMove .init acts))
    (hr : run (step lut) .init p = some s) : s.imageBuffer.getlen.toNat ≤ c + 1 := by
  have hzero : (System.init : System n).waiting = 0 := by
    rw [System.waiting, init_getlen.2]
    rfl
  have hlevel := run_level_le System.waiting Levelled
    (fun _ _ _ h ht => step_levelled h ht) (fun _ _ _ h ht => step_waiting h ht)
    init_levelled hr
  rw [hzero] at hlevel
  rw [← hp, moves_append hr] at hsteady
  have hle : s.waiting ≤ c :=
    hlevel.trans (level_le (hsteady.mono (List.prefix_append _ _).isInfix))
  unfold System.waiting at hle
  split at hle <;> omega

/- With room at every step no frame finds the image buffer full. -/
theorem lost_of_room {acts : List (Act n)} (hr : run (step lut) .init acts = some s)
    (hroom : Along (step lut) (fun s _ => s.imageBuffer.getlen.toNat < 255) .init acts) :
    s.lost = [] := by
  have h := run_inv_along (fun s : System n => Levelled s ∧ s.lost = [])
    (fun s a t hs hlt ht => ?_) ⟨init_levelled, rfl⟩ hroom hr
  · exact h.2
  · refine ⟨step_levelled hs.1 ht, List.eq_nil_of_length_eq_zero ?_⟩
    rw [(step_moved hs.1 ht).2.2.2, hs.2, refuses, if_neg fun hr => absurd hr.2 (by omega)]
    rfl

theorem kept_all {l : List (Frame n × ℕ)} (h : (l.filter fun t => t.2 = 255) = []) :
    (l.filter fun t => t.2 ≠ 255) = l := by
  rw [List.filter_eq_nil_iff] at h
  rw [List.filter_eq_self]
  intro t ht
  have hne := h t ht
  simpa using hne

/-- Where the tasks come in rounds, with at most `c` passes of the camera against
`c` calls of `process_frames` and at most `c'` of these against `c'` passes of the
nvm loop, no frame is lost and the rings stay short: as long as the copies fit, what
was stored is with `image_save` or in a ring, unchanged and in order. -/
theorem paced_lossless (lut : ColorLut) {c c' : ℕ} (hc : c ≤ 63) (hc' : c' ≤ 126)
    (acts : List (Act n)) (s : System n) (hcamera : Paced isCamera isProcessFrames c acts)
    (hnvm : Paced isProcessFrames isStartread c' acts)
    (hfits : Along (step lut) StoreFits .init acts)
    (hr : run (step lut) .init acts = some s) :
    s.capture.dropped = [] ∧ s.lost = [] ∧ s.capture.ring.getlen.toNat ≤ 2 * c ∧
      s.imageBuffer.getlen.toNat ≤ 2 * c' + 1 ∧
      s.appended = s.handed.map Handed.image ++ s.pending ++ s.capture.ring.contents := by
  have hcapture : Steady (2 * c) (moves (step lut) captureMove .init acts) := by
    refine hcamera.steady (fun s a h => ?_) (fun s a h => ?_) hr
    · cases a with
      | events a =>
        cases a with
        | detection r => cases h
        | camera io => rfl
      | processFrames rgbFrame => cases h
      | startread => cases h
      | imageSave calls => cases h
      | endread => cases h
    · cases a with
      | processFrames rgbFrame => rfl
      | events a => cases h
      | startread => cases h
      | imageSave calls => cases h
      | endread => cases h
  have hwait : Steady (2 * c') (moves (step lut) waitMove .init acts) := by
    refine hnvm.steady (fun s a h => ?_) (fun s a h => ?_) hr
    · cases a with
      | processFrames rgbFrame => rfl
      | events a => cases h
      | startread => cases h
      | imageSave calls => cases h
      | endread => cases h
    · cases a with
      | startread => rfl
      | events a => cases h
      | processFrames rgbFrame => cases h
      | imageSave calls => cases h
      | endread => cases h
  have hroom : Along (step lut) (fun s _ => s.imageBuffer.getlen.toNat < 255) .init acts := by
    refine along_of_before fun p a t hp ht => ?_
    obtain ⟨q, hq⟩ := hp
    have := waiting_le (by rw [← List.append_assoc]; exact hq) hwait ht
    omega
  have hlost := lost_of_room hr hroom
  refine ⟨List.eq_nil_of_length_eq_zero ?_, hlost, ?_,
    waiting_le (List.append_nil acts) hwait hr, ?_⟩
  · rw [(incoming_levels hr).2]
    exact refused_eq_zero_iff.mpr (hcapture.of_le (by omega))
  · rw [(incoming_levels hr).1]
    exact level_le hcapture
  · obtain ⟨R, W, R', W', hflow⟩ := reachable_flow hfits hr
    have hkept := hflow.kept
    rw [System.kept, kept_all hlost] at hkept
    rw [hflow.appended, hkept]

def frameRound : List (Act 5) :=
  [motion 5, dequeues 5 shortFrame, .processFrames .zero, .startread, .imageSave ⟨3, [5]⟩,
    .endread]

theorem paced_lossless_rounds :
    ∃ s, run (step flatLut) .init (frameRound ++ frameRound) = some s ∧
      s.capture.dropped = [] ∧ s.lost = [] ∧ s.appended.length = 2 ∧
      s.appended = s.handed.map Handed.image ++ s.pending ++ s.capture.ring.contents := by
  have hfinal : (run (step flatLut) .init (frameRound ++ frameRound)).map
      (fun s => s.capture.stored.map Prod.fst) = some (List.replicate 2 shortFrame) := by
    decide +kernel
  obtain ⟨s, hs, hstored⟩ := Option.map_eq_some_iff.mp hfinal
  have hfits := reachable_storeFits hs (short_of_stored (by decide) (k := 2) hstored)
  have hlength : s.appended.length = 2 := by
    rw [System.appended, List.length_map, ← List.length_map Prod.fst, hstored]
    rfl
  have hcamera : Paced isCamera isProcessFrames 1 (frameRound ++ frameRound) :=
    ⟨[frameRound, frameRound], [], rfl, by decide, by decide⟩
  have hnvm : Paced isProcessFrames isStartread 1 (frameRound ++ frameRound) :=
    ⟨[frameRound, frameRound], [], rfl, by decide, by decide⟩
  have h := paced_lossless flatLut (by decide) (by decide) _ s hcamera hnvm hfits hs
  exact ⟨s, hs, h.1, h.2.1, hlength, h.2.2.2.2⟩

/-! ### How long a frame waits -/

theorem taken_extends {a : Act n} (ht : step lut s a = some t) : s.taken <+: t.taken := by
  cases a with
  | events a =>
    rw [(events_effect ht).1]
  | processFrames rgbFrame =>
    simp only [step, Option.some.injEq] at ht
    rw [← ht]
    exact List.prefix_append _ _
  | startread =>
    obtain ⟨-, rfl | ⟨slot, -, rfl⟩⟩ := startread_step ht
    · exact List.prefix_rfl
    · exact List.prefix_rfl
  | imageSave calls =>
    obtain ⟨slot, result, fd, sends, -, -, rfl⟩ := imageSave_step ht
    exact List.prefix_rfl
  | endread =>
    obtain ⟨-, rfl⟩ := endread_step ht
    exact List.prefix_rfl

theorem run_taken_extends {acts : List (Act n)} (hr : run (step lut) s acts = some t) :
    s.taken <+: t.taken :=
  run_inv (fun t => s.taken <+: t.taken) (fun _ _ _ h ht => h.trans (taken_extends ht))
    List.prefix_rfl hr

theorem kept_extends (h : s.taken <+: t.taken) : s.kept <+: t.kept := (h.filter _).map _

theorem processFrames_takes {rgbFrame : Frame n} (h : Levels s R W R' W')
    (ht : step lut s (.processFrames rgbFrame) = some t) :
    W ≤ t.taken.length ∨ s.taken.length + 1 ≤ t.taken.length := by
  have htaken := h.taken
  have hle := (taken_extends ht).length_le
  simp only [step, takenFrame_eq h.incoming, Option.some.injEq] at ht
  by_cases hlt : R < W
  · right
    rw [if_pos hlt] at ht
    simp [← ht]
  · left
    omega

/- A frame is taken after as many calls as there are frames before it. -/
theorem taken_catches_up {acts : List (Act n)} (h : Levelled s)
    (hr : run (step lut) s acts = some t)
    (hcalls : s.capture.ring.getlen.toNat ≤ acts.countP isProcessFrames) :
    s.capture.stored.length ≤ t.taken.length := by
  have hcount : acts.countP isProcessFrames ≤
      (moves (step lut) captureMove s acts).count .serve := by
    refine le_moves_count (fun s a ha => ?_) hr
    cases a with
    | processFrames rgbFrame => rfl
    | events a => cases ha
    | startread => cases ha
    | imageSave calls => cases ha
    | endread => cases ha
  have hcatch : min s.capture.stored.length
      (s.taken.length + (moves (step lut) captureMove s acts).count .serve) ≤ t.taken.length := by
    refine run_catches_up (fun s : System n => s.taken.length)
      (fun u => Levelled u ∧ s.capture.stored.length ≤ u.capture.stored.length)
      (fun u a v hu hv => ⟨step_levelled hu.1 hv, hu.2.trans (stored_extends hv).length_le⟩)
      (fun u a v _ hv => (taken_extends hv).length_le) (fun u a v hu hv hm => ?_)
      ⟨h, Nat.le_refl _⟩ hr
    obtain ⟨⟨R, W, R', W', hu⟩, hgoal⟩ := hu
    cases a with
    | events a =>
      cases a with
      | detection r => cases hm
      | camera io =>
        simp only [captureMove] at hm
        split at hm <;> cases hm
    | processFrames rgbFrame =>
      have hstored := hu.stored
      rcases processFrames_takes hu hv with hle | hle
      · exact .inl (by omega)
      · exact .inr hle
    | startread => cases hm
    | imageSave calls => cases hm
    | endread => cases hm
  obtain ⟨R, W, R', W', h⟩ := h
  have hlen := h.incoming.getlen
  have hle := h.incoming.le
  have hstored := h.stored
  have htaken := h.taken
  omega

/-- Frames handed to `image_save`, with the one the nvm task is about to hand. -/
def System.begun (s : System n) : ℕ :=
  s.handed.length + match s.nvm with
    | .holding _ => 1
    | _ => 0

theorem begun_mono {a : Act n} (ht : step lut s a = some t) : s.begun ≤ t.begun := by
  unfold System.begun
  cases a with
  | events a => rw [(events_effect ht).1]
  | processFrames rgbFrame =>
    simp only [step, Option.some.injEq] at ht
    rw [← ht]
    exact Nat.le_refl _
  | startread =>
    obtain ⟨hs, rfl | ⟨slot, -, rfl⟩⟩ := startread_step ht
    · exact Nat.le_refl _
    · simp [hs]
  | imageSave calls =>
    obtain ⟨slot, result, fd, sends, hs, -, rfl⟩ := imageSave_step ht
    simp [hs]
  | endread =>
    obtain ⟨hs, rfl⟩ := endread_step ht
    simp [hs]

theorem startread_begins (h : Levels s R W R' W') (ht : step lut s .startread = some t) :
    W' ≤ t.begun ∨ s.begun + 1 ≤ t.begun := by
  obtain ⟨hs, -⟩ := startread_step ht
  have hhanded := h.handed
  have hle := h.image.le
  simp only [step, hs, imagebufferStartread_eq h.image] at ht
  unfold System.begun
  by_cases hlt : R' < W'
  · right
    rw [if_pos hlt] at ht
    cases ht
    simp [hs]
  · left
    rw [if_neg hlt] at ht
    cases ht
    simp only [hs] at hhanded ⊢
    simp at hhanded
    omega

theorem begun_catches_up {acts : List (Act n)} (h : Levelled s)
    (hr : run (step lut) s acts = some t)
    (hreads : s.imageBuffer.getlen.toNat ≤ acts.countP isStartread) :
    s.kept.length ≤ t.begun := by
  have hcount : acts.countP isStartread ≤ (moves (step lut) waitMove s acts).count .serve := by
    refine le_moves_count (fun s a ha => ?_) hr
    cases a with
    | startread => rfl
    | events a => cases ha
    | processFrames rgbFrame => cases ha
    | imageSave calls => cases ha
    | endread => cases ha
  have hcatch : min s.kept.length
      (s.begun + (moves (step lut) waitMove s acts).count .serve) ≤ t.begun := by
    refine run_catches_up System.begun (fun u => Levelled u ∧ s.kept.length ≤ u.kept.length)
      (fun u a v hu hv =>
        ⟨step_levelled hu.1 hv, hu.2.trans (kept_extends (taken_extends hv)).length_le⟩)
      (fun u a v _ hv => begun_mono hv) (fun u a v hu hv hm => ?_) ⟨h, Nat.le_refl _⟩ hr
    obtain ⟨⟨R, W, R', W', hu⟩, hgoal⟩ := hu
    have hkept := hu.kept
    cases a with
    | startread =>
      rcases startread_begins hu hv with hle | hle
      · exact .inl (by omega)
      · exact .inr hle
    | events a => cases hm
    | processFrames rgbFrame =>
      simp only [waitMove] at hm
      split at hm <;> cases hm
    | imageSave calls => cases hm
    | endread => cases hm
  obtain ⟨R, W, R', W', h⟩ := h
  have hlen := h.image.getlen
  have hle := h.image.le
  have hkept := h.kept
  have hhanded := h.handed
  have hbegun : R' ≤ s.begun := by
    unfold System.begun
    omega
  omega

/-- Counted from any moment, 127 calls of `process_frames` take every frame that
was in the ring then, and 255 passes of the nvm loop hand to `image_save` every one
of these that the image buffer had room for, in order. -/
theorem served_within (lut : ColorLut) (acts more most : List (Act n)) (s t u : System n)
    (hr : run (step lut) .init acts = some s) (hmore : run (step lut) s more = some t)
    (hmost : run (step lut) t most = some u)
    (hfits : Along (step lut) StoreFits .init (acts ++ more ++ most))
    (hcalls : 127 ≤ more.countP isProcessFrames) (hreads : 255 ≤ most.countP isStartread)
    (hheld : ∀ slot, u.nvm ≠ .holding slot) :
    (u.taken.take s.appended.length).map Prod.fst = s.appended ∧
      ((u.taken.take s.appended.length).filter fun t => t.2 ≠ 255).map Prod.fst <+:
        u.handed.map Handed.image := by
  have hat := (run_append_some more hr).trans hmore
  have hau := (run_append_some most hat).trans hmost
  have hs := reachable_levelled hr
  have ht := reachable_levelled hat
  obtain ⟨R, W, R', W', hflow⟩ := reachable_flow hfits.before.before hr
  obtain ⟨P, Q, P', Q', hflow'⟩ := reachable_flow hfits hau
  have happended : s.appended.length = s.capture.stored.length := List.length_map _
  have htaken : s.appended.length ≤ t.taken.length := by
    rw [happended]
    refine taken_catches_up hs hmore (Nat.le_trans ?_ hcalls)
    rw [hflow.incoming.getlen]
    have := hflow.incoming.room
    omega
  have hpre := run_taken_extends hmost
  have htake : u.taken.take s.appended.length = t.taken.take s.appended.length := by
    obtain ⟨rest, hrest⟩ := hpre
    rw [← hrest, List.take_append_of_le_length htaken]
  refine ⟨?_, ?_⟩
  · have hlater : s.appended <+: u.appended :=
      (run_stored_extends ((run_append_some most hmore).trans hmost)).map _
    have hlen : s.appended.length ≤ (u.taken.map Prod.fst).length := by
      rw [List.length_map]
      exact htaken.trans hpre.length_le
    calc (u.taken.take s.appended.length).map Prod.fst
        = (u.taken.map Prod.fst).take s.appended.length := List.map_take
      _ = u.appended.take s.appended.length := by
        rw [hflow'.appended, List.take_append_of_le_length hlen]
      _ = s.appended := (List.prefix_iff_eq_take.mp hlater).symm
  · have hkept : t.kept <+: u.handed.map Handed.image := by
      have hle : t.kept.length ≤ u.begun := by
        refine begun_catches_up ht hmost (Nat.le_trans ?_ hreads)
        obtain ⟨R, W, R', W', h⟩ := ht
        have hroom := h.image.room
        rw [h.image.getlen]
        omega
      have hbegun : u.begun = (u.handed.map Handed.image).length := by
        rw [List.length_map]
        unfold System.begun
        split
        · next slot hslot => exact absurd hslot (hheld slot)
        · rfl
      have hlater := kept_extends hpre
      rw [hflow'.kept] at hlater
      exact List.prefix_of_prefix_length_le hlater (List.prefix_append _ _) (hbegun ▸ hle)
    rw [htake]
    exact (((List.take_prefix _ t.taken).filter _).map _).trans hkept

def twoStored : List (Act 5) := [motion 5, dequeues 5 shortFrame, dequeues 5 shortFrame]

def manyCalls : List (Act 5) := List.replicate 127 (.processFrames .zero)

def manyPasses : List (Act 5) :=
  [.startread, .imageSave ⟨3, [5]⟩, .endread, .startread, .imageSave ⟨3, [5]⟩, .endread] ++
    List.replicate 253 .startread

theorem served_within_two :
    ∃ s u, run (step flatLut) .init twoStored = some s ∧
      run (step flatLut) s (manyCalls ++ manyPasses) = some u ∧
      (u.taken.take s.appended.length).map Prod.fst = s.appended ∧
      ((u.taken.take s.appended.length).filter fun t => t.2 ≠ 255).map Prod.fst <+:
        u.handed.map Handed.image := by
  have hfinal : (run (step flatLut) .init (twoStored ++ manyCalls ++ manyPasses)).map
      (fun s => (s.nvm, s.capture.stored.map Prod.fst)) =
      some (.idle, List.replicate 2 shortFrame) := by
    decide +kernel
  obtain ⟨u, hu, hvalues⟩ := Option.map_eq_some_iff.mp hfinal
  simp only [Prod.mk.injEq] at hvalues
  have hfits := reachable_storeFits hu (short_of_stored (by decide) (k := 2) hvalues.2)
  have hsplit := hu
  rw [run_append] at hsplit
  obtain ⟨t, ht, hmost⟩ := Option.bind_eq_some_iff.mp hsplit
  rw [run_append] at ht
  obtain ⟨s, hs, hmore⟩ := Option.bind_eq_some_iff.mp ht
  have h := served_within flatLut twoStored manyCalls manyPasses s t u hs hmore hmost hfits
    (by decide +kernel) (by decide +kernel)
    (fun slot hslot => by rw [hvalues.1] at hslot; cases hslot)
  exact ⟨s, u, hs, (run_append_some manyPasses hmore).trans hmost, h⟩

end MotionDetector.Pipeline
