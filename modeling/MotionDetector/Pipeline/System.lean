import MotionDetector.Events.MotionEvents
import MotionDetector.Pipeline.Framebuffer
import MotionDetector.Pipeline.Image

/-!
# The frame pipeline (`transcoder.c`, `nvm.c`)

The detector and the camera with their queue, the transcoder and the nvm task,
over the two frame rings. A pass of the nvm loop is three steps: the other tasks
may run while `image_save` holds a slot.
-/

namespace MotionDetector.Pipeline

open Transition

variable {n : ℕ}

/-- `incomingBuffer`, the bytes and the slot image of every frame appended to
it, and its length at every frame that found it full. -/
structure CaptureStore (n : ℕ) where
  ring : RingBuffer (Frame n)
  stored : List (List UInt8 × Frame n)
  dropped : List ℕ

def CaptureStore.writeframe (io : Capture) (save : Bool) (c : CaptureStore n) :
    SysResult × CaptureStore n :=
  ((framebufferWriteframe io save c.ring).1,
    { ring := (framebufferWriteframe io save c.ring).2
      stored := if Saves io save c.ring then
          c.stored ++ [(io.bytes, slotImage c.ring io.bytes)]
        else c.stored
      dropped := if Drops io save c.ring then c.dropped ++ [c.ring.getlen.toNat]
        else c.dropped })

/-- `process_frames`, given what the local `rgbFrame` holds at its start. The
result of `imagebuffer_write` is not looked at. -/
def processFrames (lut : ColorLut) (rgbFrame : Frame n)
    (incoming image : RingBuffer (Frame n)) : RingBuffer (Frame n) × RingBuffer (Frame n) :=
  match framebufferGetframePtr incoming with
  | (.success, some rawFrame) =>
    let bytes := (imageConvert lut n PIXEL_FORMAT_CAMERA V4L2_PIX_FMT_RGB888
      (incoming.data rawFrame).memory rgbFrame.memory).2
    ((framebufferFreeframe incoming).2, (imagebufferWrite (Frame.load bytes) image).2)
  | _ => (incoming, image)

def takenFrame (incoming : RingBuffer (Frame n)) : Option (Frame n) :=
  match framebufferGetframePtr incoming with
  | (.success, some rawFrame) => some (incoming.data rawFrame)
  | _ => none

inductive NvmPc where
  | idle
  | holding (save_frame : ℕ)
  | saved
  deriving DecidableEq, Repr

structure Handed (n : ℕ) where
  image : Frame n
  result : SysResult
  sends : List Send

def Handed.datagrams (h : Handed n) : List (List UInt8) :=
  (h.sends.filter fun s => 0 ≤ s.sizeSent).map fun s => s.datagram h.image.bytes

/-- `taken` lists the frames taken by `process_frames`, each with the length of
`imageBuffer` at that moment. -/
structure System (n : ℕ) where
  events : Events.System (CaptureStore n)
  imageBuffer : RingBuffer (Frame n)
  nvm : NvmPc
  sockfd : ℤ
  taken : List (Frame n × ℕ)
  handed : List (Handed n)

inductive Act (n : ℕ) where
  | events (a : Events.Act Capture)
  | processFrames (rgbFrame : Frame n)
  | startread
  | imageSave (calls : SaveCalls)
  | endread

def System.init : System n :=
  { events := .init ⟨.init (fun _ => .zero) 128, [], []⟩
    imageBuffer := .init (fun _ => .zero) 256
    nvm := .idle
    sockfd := -1
    taken := []
    handed := [] }

def System.capture (s : System n) : CaptureStore n := s.events.buffer

def System.setCapture (s : System n) (c : CaptureStore n) : System n :=
  { s with events := { s.events with buffer := c } }

def step (lut : ColorLut) (s : System n) : Act n → Option (System n)
  | .events a =>
    (Events.step CaptureStore.writeframe s.events a).map fun events => { s with events := events }
  | .processFrames rgbFrame =>
    let (incoming, image) := processFrames lut rgbFrame s.capture.ring s.imageBuffer
    some { s.setCapture { s.capture with ring := incoming } with
      imageBuffer := image
      taken := s.taken ++ (takenFrame s.capture.ring).toList.map
        fun frame => (frame, s.imageBuffer.getlen.toNat) }
  | .startread =>
    match s.nvm with
    | .idle =>
      match imagebufferStartread s.imageBuffer with
      | (.success, some save_frame) => some { s with nvm := .holding save_frame }
      | _ => some s
    | _ => none
  | .imageSave calls =>
    match s.nvm with
    | .holding save_frame =>
      match MotionDetector.imageSave s.sockfd n calls with
      | (some result, sockfd, sends) =>
        some { s with
          nvm := .saved
          sockfd := sockfd
          handed := s.handed ++ [⟨s.imageBuffer.data save_frame, result, sends⟩] }
      | _ => none
    | _ => none
  | .endread =>
    match s.nvm with
    | .saved =>
      some { s with nvm := .idle, imageBuffer := (imagebufferEndread s.imageBuffer).2 }
    | _ => none

def System.appended (s : System n) : List (Frame n) := s.capture.stored.map Prod.snd

/-- The frames taken while `imageBuffer` held fewer than 255. -/
def System.kept (s : System n) : List (Frame n) :=
  (s.taken.filter fun t => t.2 ≠ 255).map Prod.fst

/-- The contents of `imageBuffer` that are still to be handed to `image_save`. -/
def System.pending (s : System n) : List (Frame n) :=
  match s.nvm with
  | .saved => s.imageBuffer.contents.tail
  | _ => s.imageBuffer.contents

/-! ### One step -/

section Tracks

open RingBuffer

variable {incoming image : RingBuffer (Frame n)} {k k' R W R' W' : ℕ}

theorem takenFrame_eq (h : Tracks incoming k R W) :
    takenFrame incoming = if R < W then some (incoming.data (R % 2 ^ k)) else none := by
  unfold takenFrame
  by_cases hlt : R < W
  · rw [getframePtr_of_lt h hlt, if_pos hlt]
  · obtain rfl : R = W := Nat.le_antisymm h.le (Nat.le_of_not_lt hlt)
    rw [getframePtr_of_eq h, if_neg hlt]

theorem processFrames_of_lt (lut : ColorLut) (rgbFrame : Frame n) (h : Tracks incoming k R W)
    (hlt : R < W) :
    processFrames lut rgbFrame incoming image =
      (incoming.incReadptr, (imagebufferWrite (incoming.data (R % 2 ^ k)) image).2) := by
  rw [processFrames, getframePtr_of_lt h hlt]
  simp only [freeframe_of_lt h hlt, imageConvert_camera]

theorem processFrames_of_eq (lut : ColorLut) (rgbFrame : Frame n) (h : Tracks incoming k R R) :
    processFrames lut rgbFrame incoming image = (incoming, image) := by
  rw [processFrames, getframePtr_of_eq h]

end Tracks

def Stores (s : System n) (io : Capture) : Prop :=
  Camera.Capturing s.events.camera s.events.queue ∧ Saves io true s.capture.ring

/- What a step of the detector or the camera does to the capture store. -/
inductive CaptureEffect (s : System n) (a : Events.Act Capture) (c : CaptureStore n) : Prop
  | same (none : ∀ io, a = .camera io → ¬ Stores s io) (store : c = s.capture)
  | saved (io : Capture) (act : a = .camera io) (stores : Stores s io)
      (store : c = ⟨saveFrame io.bytes s.capture.ring,
        s.capture.stored ++ [(io.bytes, slotImage s.capture.ring io.bytes)], s.capture.dropped⟩)
  | dropped (full : s.capture.ring.isFull = true)
      (store : c = { s.capture with
        dropped := s.capture.dropped ++ [s.capture.ring.getlen.toNat] })

theorem writeframe_false (io : Capture) (c : CaptureStore n) : (c.writeframe io false).2 = c := by
  simp [CaptureStore.writeframe, framebufferWriteframe_ring, Saves, Drops]

theorem events_effect {s t : System n} {lut : ColorLut} {a : Events.Act Capture}
    (ht : step lut s (.events a) = some t) :
    t = { s with events := t.events } ∧ CaptureEffect s a t.capture := by
  obtain ⟨e, he, rfl⟩ := Option.map_eq_some_iff.mp ht
  refine ⟨rfl, ?_⟩
  cases a with
  | detection r =>
    simp only [Events.step, Option.some.injEq] at he
    subst he
    exact .same (fun io h => by cases h) (Events.send_foldl_buffer _ _)
  | camera io =>
    simp only [Events.step, Option.some.injEq] at he
    subst he
    rcases Camera.cameraIteration_buffer CaptureStore.writeframe io s.events.camera
      s.events.queue s.capture with ⟨hcapturing, h⟩ | ⟨hidle, h⟩
    · by_cases hsaves : Saves io true s.capture.ring
      · refine .saved io rfl ⟨hcapturing, hsaves⟩ (h.trans ?_)
        have hno : ¬ Drops io true s.capture.ring := by
          intro hdrops
          have := hdrops.2.2.2
          simp [hsaves.2.2.2] at this
        simp [CaptureStore.writeframe, framebufferWriteframe_ring, hsaves, hno]
      · by_cases hdrops : Drops io true s.capture.ring
        · refine .dropped hdrops.2.2.2 (h.trans ?_)
          simp [CaptureStore.writeframe, framebufferWriteframe_ring, hsaves, hdrops]
        · refine .same (fun io' hio hst => ?_) (h.trans ?_)
          · cases hio
            exact hsaves hst.2
          · simp [CaptureStore.writeframe, framebufferWriteframe_ring, hsaves, hdrops]
    · refine .same (fun io' _ hst => hidle hst.1) ?_
      rcases h with h | h
      · exact h
      · exact h.trans (writeframe_false io _)

theorem processFrames_data (lut : ColorLut) (rgbFrame : Frame n)
    (incoming image : RingBuffer (Frame n)) :
    (processFrames lut rgbFrame incoming image).1.data = incoming.data := by
  unfold processFrames
  split
  · unfold framebufferFreeframe
    split
    · rfl
    · rfl
  · rfl

theorem imageSave_step {s t : System n} {lut : ColorLut} {calls : SaveCalls}
    (ht : step lut s (.imageSave calls) = some t) :
    ∃ slot result fd sends, s.nvm = .holding slot ∧
      MotionDetector.imageSave s.sockfd n calls = (some result, fd, sends) ∧
      t = { s with
        nvm := .saved
        sockfd := fd
        handed := s.handed ++ [⟨s.imageBuffer.data slot, result, sends⟩] } := by
  cases hs : s.nvm with
  | idle => simp [step, hs] at ht
  | saved => simp [step, hs] at ht
  | holding slot =>
    simp only [step, hs] at ht
    split at ht
    · next result fd sends hsave =>
      exact ⟨slot, result, fd, sends, rfl, hsave, (Option.some.inj ht).symm⟩
    · cases ht

theorem startread_step {s t : System n} {lut : ColorLut} (ht : step lut s .startread = some t) :
    s.nvm = .idle ∧
      (t = s ∨ ∃ slot, imagebufferStartread s.imageBuffer = (.success, some slot) ∧
        t = { s with nvm := .holding slot }) := by
  cases hs : s.nvm with
  | idle =>
    refine ⟨rfl, ?_⟩
    simp only [step, hs] at ht
    split at ht
    · next slot hread => exact .inr ⟨slot, hread, (Option.some.inj ht).symm⟩
    · exact .inl (Option.some.inj ht).symm
  | holding slot => simp [step, hs] at ht
  | saved => simp [step, hs] at ht

theorem endread_step {s t : System n} {lut : ColorLut} (ht : step lut s .endread = some t) :
    s.nvm = .saved ∧
      t = { s with nvm := .idle, imageBuffer := (imagebufferEndread s.imageBuffer).2 } := by
  cases hs : s.nvm with
  | idle => simp [step, hs] at ht
  | holding slot => simp [step, hs] at ht
  | saved =>
    simp only [step, hs] at ht
    exact ⟨rfl, (Option.some.inj ht).symm⟩

/- Slots and the record of stored frames change in the passes of the camera
that save a frame, and in no other step. -/
theorem step_stored {s t : System n} {lut : ColorLut} {a : Act n}
    (ht : step lut s a = some t) :
    ((∀ io, a = .events (.camera io) → ¬ Stores s io) ∧
        t.capture.stored = s.capture.stored ∧ t.capture.ring.data = s.capture.ring.data) ∨
      ∃ io, a = .events (.camera io) ∧ Stores s io ∧
        t.capture.stored =
          s.capture.stored ++ [(io.bytes, slotImage s.capture.ring io.bytes)] ∧
        t.capture.ring.data =
          memcpy s.capture.ring.data s.capture.ring.writePtr.toNat io.bytes := by
  cases a with
  | events a =>
    cases (events_effect ht).2 with
    | same none store =>
      refine .inl ⟨fun io h => none io (Act.events.inj h), ?_, ?_⟩
      · rw [store]
      · rw [store]
    | saved io act stores store =>
      subst act
      refine .inr ⟨io, rfl, stores, ?_, ?_⟩
      · rw [store]
      · rw [store]
        rfl
    | dropped full store =>
      refine .inl ⟨fun io _ stores => ?_, ?_, ?_⟩
      · simp [stores.2.2.2.2] at full
      · rw [store]
      · rw [store]
  | processFrames rgbFrame =>
    left
    simp only [step, Option.some.injEq] at ht
    subst ht
    exact ⟨(fun _ h => nomatch h), rfl, processFrames_data lut rgbFrame _ _⟩
  | startread =>
    obtain ⟨-, rfl | ⟨slot, -, rfl⟩⟩ := startread_step ht
    · exact .inl ⟨(fun _ h => nomatch h), rfl, rfl⟩
    · exact .inl ⟨(fun _ h => nomatch h), rfl, rfl⟩
  | imageSave calls =>
    obtain ⟨slot, result, fd, sends, -, -, rfl⟩ := imageSave_step ht
    exact .inl ⟨(fun _ h => nomatch h), rfl, rfl⟩
  | endread =>
    obtain ⟨-, rfl⟩ := endread_step ht
    exact .inl ⟨(fun _ h => nomatch h), rfl, rfl⟩

end MotionDetector.Pipeline
