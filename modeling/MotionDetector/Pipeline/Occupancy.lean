import MotionDetector.Lib.Rates
import MotionDetector.Pipeline.Activations
import MotionDetector.Pipeline.Losses

/-!
# What the statements do to the two frame rings

The moves of the backlog, with one statement a step: a frame comes to the incoming
ring with the call of `framebuffer_writeframe` and is served by
`framebuffer_freeframe`, it comes to the image buffer with `imagebuffer_write` and
is served by `imagebuffer_endread`.
-/

namespace MotionDetector.Pipeline

open Transition RingBuffer Backlog Detection Camera Transcoder Nvm

variable {n : ℕ} {lut : ColorLut} {inp : Inputs n} {s t : Tasks n} {R W R' W' : ℕ}

/-- A frame has been dequeued, for which there may be no room. -/
def Fetches (io : Capture) : Prop :=
  io.select ≠ -1 ∧ framebufferDequeueframe io.dqbuf = .success

instance (io : Capture) : Decidable (Fetches io) := inferInstanceAs (Decidable (_ ∧ _))

namespace Tasks

/-- A call of `process_frames` that finds no frame serves an empty ring. -/
def captureMove (inp : Inputs n) (s : Tasks n) : Task → Move
  | .camera =>
    if s.camera.pc = .writeCapturing ∧ Fetches (inp.io s.camera.pass) then .arrive else .other
  | .transcoder =>
    match s.transcoder.pc with
    | .freeframe => .serve
    | .getframe => if s.capture.ring.isEmpty then .serve else .other
    | _ => .other
  | _ => .other

def imageMove (s : Tasks n) : Task → Move
  | .transcoder => if s.transcoder.pc = .write then .arrive else .other
  | .nvm =>
    match s.nvm.pc with
    | .endread => .serve
    | .startread => if s.imageBuffer.isEmpty then .serve else .other
    | _ => .other
  | _ => .other

/-- The nvm task holds a slot of the image buffer. -/
def reads : Nvm.NvmPc → Bool
  | .save | .traceError | .endread => true
  | _ => false

/-- `image_save` has been called for the slot. -/
def saved : Nvm.NvmPc → Bool
  | .traceError | .endread => true
  | _ => false

def lost (s : Tasks n) : List (Frame n × ℕ) := s.taken.filter fun t => t.2 = 255

/-- Frames `framebuffer_writeframe` had to save, with and without room for them. -/
def dequeued (s : Tasks n) : ℕ := s.capture.stored.length + s.capture.dropped.length

end Tasks

/- `R`, `W` and `R'`, `W'` count the frames read from and written to the rings. -/
structure Occupied (s : Tasks n) (R W R' W' : ℕ) : Prop where
  incoming : Tracks s.capture.ring 7 R W
  image : Tracks s.imageBuffer 8 R' W'
  stored : s.capture.stored.length = W
  holding : Tasks.holds s.transcoder.pc = true → R < W
  taken : s.taken.length = R + if s.transcoder.pc = .freeframe then 1 else 0
  kept : s.taken.length = s.lost.length + W'
  reading : Tasks.reads s.nvm.pc = true → R' < W'
  handed : s.handed.length = R' + if Tasks.saved s.nvm.pc then 1 else 0

theorem init_occupied : Occupied (Tasks.init : Tasks n) 0 0 0 0 where
  incoming := init_levels.incoming
  image := init_levels.image
  stored := rfl
  holding h := by cases h
  taken := rfl
  kept := rfl
  reading h := by cases h
  handed := rfl

/-- A statement that is the move `m` at the incoming ring. -/
structure IncomingMoved (s t : Tasks n) (m : Move) (R W : ℕ) : Prop where
  level : t.capture.ring.getlen.toNat = next 127 (W - R) m
  dropped : t.capture.dropped.length = s.capture.dropped.length + refuses 127 (W - R) m
  dequeued : t.dequeued = s.dequeued + if m = .arrive then 1 else 0

/-- A statement that is the move `m` at the image buffer. -/
structure ImageMoved (s t : Tasks n) (m : Move) (R' W' : ℕ) : Prop where
  level : t.imageBuffer.getlen.toNat = next 255 (W' - R') m
  lost : t.lost.length = s.lost.length + refuses 255 (W' - R') m
  taken : t.taken.length = s.taken.length + if m = .arrive then 1 else 0

structure Shifted (inp : Inputs n) (s t : Tasks n) (task : Task) (R W R' W' : ℕ) : Prop where
  incoming : IncomingMoved s t (s.captureMove inp task) R W
  image : ImageMoved s t (s.imageMove task) R' W'

theorem incomingMoved_of_same (h : Occupied s R W R' W') (hcapture : t.capture = s.capture)
    {m : Move} (hm : m = .other) : IncomingMoved s t m R W := by
  subst hm
  refine ⟨?_, ?_, ?_⟩
  · rw [hcapture]
    exact h.incoming.getlen
  · rw [hcapture]
    rfl
  · rw [Tasks.dequeued, hcapture]
    rfl

theorem imageMoved_of_same (h : Occupied s R W R' W') (himage : t.imageBuffer = s.imageBuffer)
    (htaken : t.taken = s.taken) {m : Move} (hm : m = .other) : ImageMoved s t m R' W' := by
  subst hm
  refine ⟨?_, ?_, ?_⟩
  · rw [himage]
    exact h.image.getlen
  · rw [Tasks.lost, htaken]
    rfl
  · rw [htaken]
    rfl

/- Where a statement makes no move, the rings are as before. -/
theorem shifted_of_other {task : Task} (h : Occupied s R W R' W')
    (hcapture : t.capture = s.capture) (himage : t.imageBuffer = s.imageBuffer)
    (htaken : t.taken = s.taken) (ha : s.captureMove inp task = .other)
    (ha' : s.imageMove task = .other) : Shifted inp s t task R W R' W' :=
  ⟨incomingMoved_of_same h hcapture ha, imageMoved_of_same h himage htaken ha'⟩

theorem Occupied.detection (h : Occupied s R W R' W') :
    Occupied (s.detectionStep inp) R W R' W' ∧
      Shifted inp s (s.detectionStep inp) .detection R W R' W' := by
  unfold Tasks.detectionStep
  split
  · exact ⟨{ h with }, shifted_of_other h rfl rfl rfl rfl rfl⟩
  · exact ⟨{ h with }, shifted_of_other h rfl rfl rfl rfl rfl⟩

/-! ### Statements of the camera -/

/- What `framebuffer_writeframe` does while capturing. -/
inductive Wrote (io : Capture) (c c' : CaptureStore n) : Prop
  | saved (fetches : Fetches io) (room : c.ring.isFull = false)
      (ring : c'.ring = saveFrame io.bytes c.ring)
      (stored : c'.stored.length = c.stored.length + 1) (dropped : c'.dropped = c.dropped)
  | dropped (fetches : Fetches io) (full : c.ring.isFull = true) (ring : c'.ring = c.ring)
      (stored : c'.stored = c.stored) (dropped : c'.dropped.length = c.dropped.length + 1)
  | nothing (none : ¬ Fetches io) (same : c' = c)

theorem writeframe_wrote (io : Capture) (c : CaptureStore n) :
    Wrote io c (CaptureStore.writeframe io true c).2 := by
  rw [CaptureStore.writeframe, framebufferWriteframe_ring]
  by_cases hfetches : Fetches io
  · by_cases hfull : c.ring.isFull = true
    · have hno : ¬ Saves io true c.ring := fun hsaves => by simp [hsaves.2.2.2] at hfull
      have hdrops : Drops io true c.ring := ⟨hfetches.1, hfetches.2, rfl, hfull⟩
      exact .dropped hfetches hfull (if_neg hno) (if_neg hno) (by simp [hdrops])
    · have hroom := Bool.eq_false_of_not_eq_true hfull
      have hsaves : Saves io true c.ring := ⟨hfetches.1, hfetches.2, rfl, hroom⟩
      have hno : ¬ Drops io true c.ring := fun hdrops => hfull hdrops.2.2.2
      exact .saved hfetches hroom (if_pos hsaves) (by simp [hsaves]) (if_neg hno)
  · have hsaves : ¬ Saves io true c.ring := fun hsaves => hfetches ⟨hsaves.1, hsaves.2.1⟩
    have hdrops : ¬ Drops io true c.ring := fun hdrops => hfetches ⟨hdrops.1, hdrops.2.1⟩
    refine .nothing hfetches ?_
    simp only [if_neg hsaves, if_neg hdrops]

theorem incomingMoved_of_wrote {io : Capture} (h : Occupied s R W R' W')
    (hwrote : Wrote io s.capture t.capture) :
    ∃ W₁, Tracks t.capture.ring 7 R W₁ ∧ t.capture.stored.length = W₁ ∧ W ≤ W₁ ∧
      IncomingMoved s t (if Fetches io then .arrive else .other) R W := by
  have hstored := h.stored
  have hle := h.incoming.le
  have hroom := h.incoming.room
  have hfull := h.incoming.isFull
  cases hwrote with
  | saved fetches room ring stored dropped =>
    have hlt : W - R < 127 := by
      have := mt hfull.mpr (by simp [room])
      omega
    have htracks : Tracks t.capture.ring 7 R (W + 1) := by
      rw [ring]
      exact saveFrame_tracks h.incoming room _
    refine ⟨W + 1, htracks, by omega, Nat.le_succ W, ?_⟩
    rw [if_pos fetches]
    refine ⟨?_, ?_, ?_⟩
    · rw [htracks.getlen, next, if_pos hlt]
      omega
    · rw [dropped, refuses, if_neg fun hr => absurd hr.2 (by omega)]
      rfl
    · rw [Tasks.dequeued, Tasks.dequeued, stored, dropped, if_pos rfl]
      omega
  | dropped fetches full ring stored dropped =>
    have hmany := hfull.mp full
    refine ⟨W, ring ▸ h.incoming, stored ▸ hstored, Nat.le_refl W, ?_⟩
    rw [if_pos fetches]
    refine ⟨?_, ?_, ?_⟩
    · rw [ring, h.incoming.getlen, next, if_neg (by omega)]
    · rw [dropped, refuses, if_pos ⟨rfl, by omega⟩]
    · rw [Tasks.dequeued, Tasks.dequeued, stored, dropped, if_pos rfl]
      omega
  | nothing none same =>
    rw [if_neg none]
    exact ⟨W, same ▸ h.incoming, same ▸ hstored, Nat.le_refl W, incomingMoved_of_same h same rfl⟩

/- The camera has its effect on the incoming ring, and there only while capturing. -/
theorem cameraStep_capture (inp : Inputs n) (s : Tasks n) :
    Wrote (inp.io s.camera.pass) s.capture (s.cameraStep inp).capture ∧
        s.camera.pc = .writeCapturing ∨
      (s.cameraStep inp).capture = s.capture ∧ s.camera.pc ≠ .writeCapturing := by
  have hcapture : (s.cameraStep inp).capture =
      writes CaptureStore.writeframe (inp.io s.camera.pass) s.camera.pc s.capture := by
    unfold Tasks.cameraStep
    split <;> rfl
  rw [hcapture]
  cases s.camera.pc with
  | writeCapturing => exact .inl ⟨writeframe_wrote _ _, rfl⟩
  | writeIdle => exact .inr ⟨writeframe_false _ _, fun hpc => (by cases hpc)⟩
  | _ => exact .inr ⟨rfl, fun hpc => (by cases hpc)⟩

theorem cameraStep_others (inp : Inputs n) (s : Tasks n) :
    (s.cameraStep inp).imageBuffer = s.imageBuffer ∧ (s.cameraStep inp).taken = s.taken ∧
      (s.cameraStep inp).transcoder = s.transcoder ∧ (s.cameraStep inp).nvm = s.nvm ∧
      (s.cameraStep inp).handed = s.handed := by
  unfold Tasks.cameraStep
  split <;> exact ⟨rfl, rfl, rfl, rfl, rfl⟩

variable (inp) in
theorem Occupied.camera (h : Occupied s R W R' W') :
    ∃ W₁, Occupied (s.cameraStep inp) R W₁ R' W' ∧
      Shifted inp s (s.cameraStep inp) .camera R W R' W' := by
  obtain ⟨himage, htaken, htranscoder, hnvm, hhanded⟩ := cameraStep_others inp s
  have hkeep {W₁ : ℕ} (hin : Tracks (s.cameraStep inp).capture.ring 7 R W₁)
      (hstored : (s.cameraStep inp).capture.stored.length = W₁) (hle : W ≤ W₁) :
      Occupied (s.cameraStep inp) R W₁ R' W' :=
    { incoming := hin
      image := by rw [himage]; exact h.image
      stored := hstored
      holding := fun hholds => by
        rw [htranscoder] at hholds
        exact (h.holding hholds).trans_le hle
      taken := by rw [htaken, htranscoder]; exact h.taken
      kept := by rw [Tasks.lost, htaken]; exact h.kept
      reading := by rw [hnvm]; exact h.reading
      handed := by rw [hhanded, hnvm]; exact h.handed }
  have himages : ImageMoved s (s.cameraStep inp) (s.imageMove .camera) R' W' :=
    imageMoved_of_same h himage htaken rfl
  rcases cameraStep_capture inp s with ⟨hwrote, hpc⟩ | ⟨hsame, hpc⟩
  · obtain ⟨W₁, htracks, hstored, hle, hmoved⟩ := incomingMoved_of_wrote h hwrote
    have hmove : s.captureMove inp .camera =
        if Fetches (inp.io s.camera.pass) then .arrive else .other := by
      simp [Tasks.captureMove, hpc]
    refine ⟨W₁, hkeep htracks hstored hle, ?_, himages⟩
    rw [hmove]
    exact hmoved
  · have hmove : s.captureMove inp .camera = .other := by
      simp [Tasks.captureMove, hpc]
    exact ⟨W, hkeep (hsame ▸ h.incoming) (hsame ▸ h.stored) (Nat.le_refl W),
      incomingMoved_of_same h hsame hmove, himages⟩

/-! ### Statements of the transcoder -/

theorem lost_append {t : Tasks n} (x : Frame n) (l : ℕ) (ht : t.taken = s.taken ++ [(x, l)]) :
    t.lost.length = s.lost.length + if l = 255 then 1 else 0 := by
  rw [Tasks.lost, Tasks.lost, ht, List.filter_append, List.length_append]
  by_cases hl : l = 255
  · simp [hl]
  · simp [hl]

theorem Occupied.getframe (h : Occupied s R W R' W') (hpc : s.transcoder.pc = .getframe) :
    Occupied (s.transcoderStep lut inp) R W R' W' ∧
      Shifted inp s (s.transcoderStep lut inp) .transcoder R W R' W' := by
  have hempty := h.incoming.isEmpty_eq
  have htaken : s.taken.length = R := by
    rw [h.taken, hpc]
    rfl
  unfold Tasks.transcoderStep
  rw [hpc]
  simp only [TranscoderThread.taskStep, hpc]
  rcases Nat.lt_or_eq_of_le h.incoming.le with hlt | rfl
  · rw [getframePtr_of_lt h.incoming hlt]
    refine ⟨{ h with holding := fun _ => hlt, taken := htaken },
      shifted_of_other h rfl rfl rfl ?_ ?_⟩
    · simp [Tasks.captureMove, hpc, hempty, hlt.ne]
    · simp [Tasks.imageMove, hpc]
  · rw [getframePtr_of_eq h.incoming]
    have hmove : s.captureMove inp .transcoder = .serve := by
      simp [Tasks.captureMove, hpc, hempty]
    have hmove' : s.imageMove .transcoder = .other := by
      simp [Tasks.imageMove, hpc]
    refine ⟨{ h with holding := fun hholds => (by cases hholds), taken := htaken }, ?_⟩
    refine ⟨?_, imageMoved_of_same h (by rfl) (by rfl) hmove'⟩
    rw [hmove]
    refine ⟨?_, rfl, rfl⟩
    rw [next]
    exact h.incoming.getlen.trans (by omega)

theorem Occupied.write (h : Occupied s R W R' W') (hpc : s.transcoder.pc = .write) :
    ∃ W₁', Occupied (s.transcoderStep lut inp) R W R' W₁' ∧
      Shifted inp s (s.transcoderStep lut inp) .transcoder R W R' W' := by
  have hle := h.image.le
  have hroom := h.image.room
  have hlen := h.image.getlen
  have hlt : R < W := h.holding (by rw [hpc]; rfl)
  have htaken : s.taken.length = R := by
    rw [h.taken, hpc]
    rfl
  have hmove : s.captureMove inp .transcoder = .other := by
    simp [Tasks.captureMove, hpc]
  have hmove' : s.imageMove .transcoder = .arrive := by
    simp [Tasks.imageMove, hpc]
  unfold Tasks.transcoderStep
  rw [hpc]
  simp only [TranscoderThread.taskStep, TranscoderThread.goto, hpc]
  rcases Nat.lt_or_ge (W' + 1) (R' + 2 ^ 8) with hplace | hfull
  · obtain ⟨hwrite, htracks, -⟩ := imagebufferWrite_room h.image hplace s.rgbFrame
    rw [hwrite]
    refine ⟨W' + 1, ?_, ?_⟩
    · exact
        { h with
          image := htracks
          holding := fun _ => hlt
          taken := by simp [htaken]
          kept := by
            have hkept := h.kept
            rw [lost_append _ _ rfl, if_neg (by omega), List.length_append, List.length_singleton]
            omega
          reading := fun hreads => (h.reading hreads).trans (Nat.lt_succ_self _) }
    · refine ⟨incomingMoved_of_same h (by rfl) hmove, ?_⟩
      rw [hmove']
      refine ⟨?_, ?_, List.length_append⟩
      · rw [next, if_pos (by omega)]
        exact htracks.getlen.trans (by omega)
      · rw [lost_append _ _ rfl, refuses, if_neg (by omega), if_neg (by omega)]
  · have hfull : W' + 1 = R' + 2 ^ 8 := Nat.le_antisymm hroom hfull
    rw [imagebufferWrite_full h.image hfull]
    refine ⟨W', ?_, ?_⟩
    · exact
        { h with
          holding := fun _ => hlt
          taken := by simp [htaken]
          kept := by
            have hkept := h.kept
            rw [lost_append _ _ rfl, if_pos (by omega), List.length_append, List.length_singleton]
            omega }
    · refine ⟨incomingMoved_of_same h (by rfl) hmove, ?_⟩
      rw [hmove']
      refine ⟨?_, ?_, List.length_append⟩
      · rw [next, if_neg (by omega)]
        exact hlen
      · rw [lost_append _ _ rfl, refuses, if_pos (by omega), if_pos ⟨rfl, by omega⟩]

theorem Occupied.freeframe (h : Occupied s R W R' W') (hpc : s.transcoder.pc = .freeframe) :
    Occupied (s.transcoderStep lut inp) (R + 1) W R' W' ∧
      Shifted inp s (s.transcoderStep lut inp) .transcoder R W R' W' := by
  have hlt : R < W := h.holding (by rw [hpc]; rfl)
  have htracks := h.incoming.incReadptr hlt
  have htaken : s.taken.length = R + 1 := by
    rw [h.taken, hpc]
    rfl
  have hmove : s.captureMove inp .transcoder = .serve := by
    simp [Tasks.captureMove, hpc]
  have hmove' : s.imageMove .transcoder = .other := by
    simp [Tasks.imageMove, hpc]
  unfold Tasks.transcoderStep
  rw [hpc]
  simp only [TranscoderThread.taskStep, TranscoderThread.goto, hpc, freeframe_of_lt h.incoming hlt]
  refine ⟨?_, ?_⟩
  · exact
      { h with
        incoming := htracks
        holding := fun hholds => (by cases hholds)
        taken := htaken }
  · refine ⟨?_, imageMoved_of_same h (by rfl) (by rfl) hmove'⟩
    rw [hmove]
    refine ⟨?_, rfl, rfl⟩
    rw [next]
    exact htracks.getlen.trans (by omega)

variable (lut inp) in
theorem Occupied.transcoder (h : Occupied s R W R' W') :
    ∃ R₁ W₁', Occupied (s.transcoderStep lut inp) R₁ W R' W₁' ∧
      Shifted inp s (s.transcoderStep lut inp) .transcoder R W R' W' := by
  by_cases hget : s.transcoder.pc = .getframe
  · exact ⟨R, W', h.getframe hget⟩
  by_cases hwrite : s.transcoder.pc = .write
  · obtain ⟨W₁', hnext⟩ := h.write hwrite
    exact ⟨R, W₁', hnext⟩
  by_cases hfree : s.transcoder.pc = .freeframe
  · exact ⟨R + 1, W', h.freeframe hfree⟩
  refine ⟨R, W', ?_⟩
  obtain ⟨detection, camera, ⟨pc, exitTask, i, calls⟩, rawFrame, rgbFrame, nvm, saveFrame, queue,
    capture, imageBuffer, sockfd, sends, received, taken, handed⟩ := s
  cases pc with
  | exitTest =>
    refine ⟨?_, shifted_of_other h rfl rfl rfl rfl rfl⟩
    cases exitTask with
    | false => exact { h with }
    | true => exact { h with }
  | forTest =>
    refine ⟨?_, shifted_of_other h rfl rfl rfl rfl rfl⟩
    simp only [Tasks.transcoderStep, TranscoderThread.taskStep, TranscoderThread.goto]
    split
    · exact { h with holding := fun hholds => (by cases hholds) }
    · exact { h with holding := fun hholds => (by cases hholds) }
  | getframe => exact absurd rfl hget
  | write => exact absurd rfl hwrite
  | freeframe => exact absurd rfl hfree
  | _ => exact ⟨{ h with }, shifted_of_other h rfl rfl rfl rfl rfl⟩

/-! ### Statements of the nvm task -/

theorem Occupied.startread (h : Occupied s R W R' W') (hpc : s.nvm.pc = .startread)
    (ht : s.nvmStep inp = some t) :
    Occupied t R W R' W' ∧ Shifted inp s t .nvm R W R' W' := by
  have hempty := h.image.isEmpty_eq
  have hhanded : s.handed.length = R' := by
    rw [h.handed, hpc]
    rfl
  simp only [Tasks.nvmStep, hpc, Option.some.injEq] at ht
  subst ht
  simp only [NvmThread.taskStep, hpc]
  rcases Nat.lt_or_eq_of_le h.image.le with hlt | rfl
  · rw [imagebufferStartread_eq h.image, if_pos hlt]
    refine ⟨{ h with reading := fun _ => hlt, handed := hhanded },
      shifted_of_other h rfl rfl rfl rfl ?_⟩
    simp [Tasks.imageMove, hpc, hempty, hlt.ne]
  · rw [imagebufferStartread_eq h.image, if_neg (Nat.lt_irrefl R')]
    have hmove : s.imageMove .nvm = .serve := by
      simp [Tasks.imageMove, hpc, hempty]
    refine ⟨{ h with reading := fun hreads => (by cases hreads), handed := hhanded },
      incomingMoved_of_same h (by rfl) rfl, ?_⟩
    rw [hmove]
    refine ⟨?_, rfl, rfl⟩
    rw [next]
    exact h.image.getlen.trans (by omega)

theorem Occupied.save (h : Occupied s R W R' W') (hpc : s.nvm.pc = .save)
    (ht : s.nvmStep inp = some t) :
    Occupied t R W R' W' ∧ Shifted inp s t .nvm R W R' W' := by
  have hlt : R' < W' := h.reading (by rw [hpc]; rfl)
  have hhanded : s.handed.length = R' := by
    rw [h.handed, hpc]
    rfl
  have hmove : s.imageMove .nvm = .other := by
    simp [Tasks.imageMove, hpc]
  simp only [Tasks.nvmStep, hpc] at ht
  split at ht
  · obtain rfl := Option.some.inj ht
    refine ⟨{ h with reading := fun _ => hlt, handed := ?_ },
      shifted_of_other h rfl rfl rfl rfl hmove⟩
    simp only [NvmThread.taskStep, hpc]
    split
    · simp [Tasks.saved, hhanded]
    · simp [Tasks.saved, hhanded]
  · cases ht

theorem Occupied.endread (h : Occupied s R W R' W') (hpc : s.nvm.pc = .endread)
    (ht : s.nvmStep inp = some t) :
    Occupied t R W (R' + 1) W' ∧ Shifted inp s t .nvm R W R' W' := by
  have hlt : R' < W' := h.reading (by rw [hpc]; rfl)
  have hhanded : s.handed.length = R' + 1 := by
    rw [h.handed, hpc]
    rfl
  have hmove : s.imageMove .nvm = .serve := by
    simp [Tasks.imageMove, hpc]
  simp only [Tasks.nvmStep, hpc, Option.some.injEq] at ht
  subst ht
  simp only [NvmThread.taskStep, NvmThread.goto, hpc, imagebufferEndread_of_lt h.image hlt]
  refine ⟨?_, incomingMoved_of_same h (by rfl) rfl, ?_⟩
  · exact
      { h with
        image := h.image.incReadptr hlt
        reading := fun hreads => (by cases hreads)
        handed := hhanded }
  · rw [hmove]
    refine ⟨?_, rfl, rfl⟩
    rw [next]
    exact (h.image.incReadptr hlt).getlen.trans (by omega)

theorem Occupied.nvm (h : Occupied s R W R' W') (ht : s.nvmStep inp = some t) :
    ∃ R₁', Occupied t R W R₁' W' ∧ Shifted inp s t .nvm R W R' W' := by
  by_cases hread : s.nvm.pc = .startread
  · exact ⟨R', h.startread hread ht⟩
  by_cases hsave : s.nvm.pc = .save
  · exact ⟨R', h.save hsave ht⟩
  by_cases hend : s.nvm.pc = .endread
  · exact ⟨R' + 1, h.endread hend ht⟩
  refine ⟨R', ?_⟩
  obtain ⟨detection, camera, transcoder, rawFrame, rgbFrame, ⟨pc, exitTask, i, reads, saves,
    closed⟩, saveFrame, queue, capture, imageBuffer, sockfd, sends, received, taken, handed⟩ := s
  cases pc with
  | startread => exact absurd rfl hread
  | save => exact absurd rfl hsave
  | endread => exact absurd rfl hend
  | forTest =>
    obtain rfl := Option.some.inj ht
    refine ⟨?_, shifted_of_other h rfl rfl rfl rfl rfl⟩
    simp only [NvmThread.taskStep, NvmThread.goto]
    split
    · exact { h with reading := fun hreads => (by cases hreads) }
    · exact { h with reading := fun hreads => (by cases hreads) }
  | exitTest =>
    obtain rfl := Option.some.inj ht
    refine ⟨?_, shifted_of_other h rfl rfl rfl rfl rfl⟩
    simp only [NvmThread.taskStep, NvmThread.goto]
    split
    · exact { h with reading := fun hreads => (by cases hreads) }
    · exact { h with reading := fun hreads => (by cases hreads) }
  | _ =>
    obtain rfl := Option.some.inj ht
    exact ⟨{ h with }, shifted_of_other h rfl rfl rfl rfl rfl⟩

/-! ### Every step -/

theorem step_occupied {task : Task} (h : Occupied s R W R' W') (ht : s.step lut inp task = some t) :
    (∃ R W R' W', Occupied t R W R' W') ∧ Shifted inp s t task R W R' W' := by
  cases task with
  | detection =>
    obtain rfl := Option.some.inj ht
    exact ⟨⟨R, W, R', W', h.detection.1⟩, h.detection.2⟩
  | camera =>
    obtain rfl := Option.some.inj ht
    obtain ⟨W₁, hnext, hshift⟩ := h.camera inp
    exact ⟨⟨R, W₁, R', W', hnext⟩, hshift⟩
  | transcoder =>
    obtain rfl := Option.some.inj ht
    obtain ⟨R₁, W₁', hnext, hshift⟩ := h.transcoder lut inp
    exact ⟨⟨R₁, W, R', W₁', hnext⟩, hshift⟩
  | nvm =>
    obtain ⟨R₁', hnext, hshift⟩ := h.nvm ht
    exact ⟨⟨R, W, R₁', W', hnext⟩, hshift⟩

end MotionDetector.Pipeline
