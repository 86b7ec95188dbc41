import MotionDetector.Pipeline.Delivery
import MotionDetector.Pipeline.Slots
import Mathlib.Data.List.GetD

/-!
# What a frame carries of others

No length goes with a frame, and the stream gets whole slots. Two runs with the
same schedule send the same bytes for the same frame exactly if they have left
the same bytes behind it, and these are known: at each place the byte of the last
frame in this slot that reached it.
-/

namespace MotionDetector

/-! ### Rings at the same place -/

namespace RingBuffer

variable {α β : Type}

/-- All but the cells agree. -/
structure SamePlace (b : RingBuffer α) (c : RingBuffer β) : Prop where
  size : b.size = c.size
  readPtr : b.readPtr = c.readPtr
  writePtr : b.writePtr = c.writePtr

variable {b : RingBuffer α} {c : RingBuffer β}

theorem SamePlace.getlen (h : SamePlace b c) : b.getlen = c.getlen := by
  simp only [RingBuffer.getlen, h.size, h.readPtr, h.writePtr]

theorem SamePlace.isEmpty (h : SamePlace b c) : b.isEmpty = c.isEmpty := by
  simp only [RingBuffer.isEmpty, h.readPtr, h.writePtr]

theorem SamePlace.isFull (h : SamePlace b c) : b.isFull = c.isFull := by
  simp only [RingBuffer.isFull, h.getlen, h.size]

theorem SamePlace.readZc (h : SamePlace b c) : b.readZc = c.readZc := by
  simp only [RingBuffer.readZc, h.readPtr]

theorem SamePlace.setData (h : SamePlace b c) (data : ℕ → α) (data' : ℕ → β) :
    SamePlace { b with data := data } { c with data := data' } :=
  ⟨h.size, h.readPtr, h.writePtr⟩

theorem SamePlace.incReadptr (h : SamePlace b c) : SamePlace b.incReadptr c.incReadptr :=
  ⟨h.size, by simp only [RingBuffer.incReadptr, h.size, h.readPtr], h.writePtr⟩

theorem SamePlace.incWriteptr (h : SamePlace b c) : SamePlace b.incWriteptr c.incWriteptr :=
  ⟨h.size, h.readPtr, by simp only [RingBuffer.incWriteptr, h.size, h.writePtr]⟩

theorem SamePlace.write (h : SamePlace b c) (x : α) (y : β) :
    SamePlace (b.write x) (c.write y) :=
  (h.setData _ _).incWriteptr

end RingBuffer

namespace Events

variable {β γ : Type*}

theorem send_foldl_queue (events : List Event) (s : System β) :
    (events.foldl System.send s).queue =
      events.foldl (fun q e => (q.osalQueueSend e Camera.sizeofEvent).2) s.queue := by
  induction events generalizing s with
  | nil => rfl
  | cons event events ih => exact ih (s.send event)

end Events

namespace Pipeline

open Transition RingBuffer

variable {n : ℕ} {lut : ColorLut}

/-! ### Two runs with one schedule -/

/-- The step without the bytes it works on. -/
def Act.schedule : Act n → Act n
  | .events (.camera io) => .events (.camera { io with bytes := [] })
  | .processFrames _ => .processFrames .zero
  | a => a

/-- The states agree in everything but the bytes of frames. -/
structure Alike (s t : System n) : Prop where
  detector : s.events.detector = t.events.detector
  queue : s.events.queue = t.events.queue
  camera : s.events.camera = t.events.camera
  incoming : SamePlace s.capture.ring t.capture.ring
  stored : s.frames.length = t.frames.length
  image : SamePlace s.imageBuffer t.imageBuffer
  nvm : s.nvm = t.nvm
  sockfd : s.sockfd = t.sockfd
  taken : s.taken.map Prod.snd = t.taken.map Prod.snd
  handed : s.handed.map (fun h => (h.result, h.sends)) =
    t.handed.map fun h => (h.result, h.sends)

variable {s s' t t' : System n}

theorem alike_refl (s : System n) : Alike s s :=
  ⟨rfl, rfl, rfl, ⟨rfl, rfl, rfl⟩, rfl, ⟨rfl, rfl, rfl⟩, rfl, rfl, rfl, rfl⟩

structure SameStore (c d : CaptureStore n) : Prop where
  ring : SamePlace c.ring d.ring
  stored : c.stored.length = d.stored.length

theorem writeframe_sameStore {c d : CaptureStore n} (h : SameStore c d) {io io' : Capture}
    (hio : { io with bytes := [] } = ({ io' with bytes := [] } : Capture)) (save : Bool) :
    (c.writeframe io save).1 = (d.writeframe io' save).1 ∧
      SameStore (c.writeframe io save).2 (d.writeframe io' save).2 := by
  obtain ⟨hselect, hdqbuf, -, hqbuf⟩ := Capture.mk.inj hio
  have hsaves : Saves io save c.ring ↔ Saves io' save d.ring := by
    simp only [Saves, hselect, hdqbuf, h.ring.isFull]
  constructor
  · simp only [CaptureStore.writeframe, framebufferWriteframe, hselect, hdqbuf, hqbuf]
    split
    · rfl
    · split
      · rfl
      · split
        · rfl
        · cases save <;> rfl
  · simp only [CaptureStore.writeframe, framebufferWriteframe_ring, hsaves]
    split
    · exact ⟨(h.ring.setData _ _).incWriteptr, by simp [h.stored]⟩
    · exact ⟨h.ring, h.stored⟩

theorem cameraIteration_same {ε β : Type*} {writeframe : ε → Bool → β → SysResult × β} {io io' : ε}
    {buf buf' : β} (h : ∀ save, (writeframe io save buf).1 = (writeframe io' save buf').1)
    (task : Camera.CameraTask) (q : Mqueue Event) :
    (Camera.cameraIteration writeframe io task q buf).1 =
        (Camera.cameraIteration writeframe io' task q buf').1 ∧
      (Camera.cameraIteration writeframe io task q buf).2.1 =
        (Camera.cameraIteration writeframe io' task q buf').2.1 := by
  unfold Camera.cameraIteration
  split
  · exact ⟨rfl, rfl⟩
  · refine ⟨?_, rfl⟩
    simp only [Camera.stateSwitch]
    cases Camera.eventSwitch (Camera.processEventQueue q).1 task.state with
    | idle => rfl
    | capturing =>
      have hsave := h true
      rcases hw : writeframe io true buf with ⟨result, b⟩
      rcases hw' : writeframe io' true buf' with ⟨result', b'⟩
      rw [hw, hw'] at hsave
      obtain rfl : result = result' := hsave
      cases result <;> rfl
    | exiting => rfl
    | exit => rfl

/- While the camera does not capture, it leaves the store as it is. -/
theorem cameraIteration_sameStore {c d : CaptureStore n} (h : SameStore c d) {io io' : Capture}
    (hio : { io with bytes := [] } = ({ io' with bytes := [] } : Capture))
    (task : Camera.CameraTask) (q : Mqueue Event) :
    SameStore (Camera.cameraIteration CaptureStore.writeframe io task q c).2.2
      (Camera.cameraIteration CaptureStore.writeframe io' task q d).2.2 := by
  have hidle (io : Capture) (c : CaptureStore n) (hno : ¬ Camera.Capturing task q) :
      (Camera.cameraIteration CaptureStore.writeframe io task q c).2.2 = c := by
    rcases Camera.cameraIteration_buffer CaptureStore.writeframe io task q c with
      ⟨hcapturing, -⟩ | ⟨-, hsame | hfalse⟩
    · exact absurd hcapturing hno
    · exact hsame
    · exact hfalse.trans (writeframe_false io c)
  have hbusy (io : Capture) (c : CaptureStore n) (hcapturing : Camera.Capturing task q) :
      (Camera.cameraIteration CaptureStore.writeframe io task q c).2.2 =
        (c.writeframe io true).2 := by
    rcases Camera.cameraIteration_buffer CaptureStore.writeframe io task q c with
      ⟨-, hstore⟩ | ⟨hno, -⟩
    · exact hstore
    · exact absurd hcapturing hno
  by_cases hcapturing : Camera.Capturing task q
  · rw [hbusy io c hcapturing, hbusy io' d hcapturing]
    exact (writeframe_sameStore h hio true).2
  · rw [hidle io c hcapturing, hidle io' d hcapturing]
    exact h

theorem camera_alike {io io' : Capture} (h : Alike s t)
    (hio : { io with bytes := [] } = ({ io' with bytes := [] } : Capture))
    (hs : step lut s (.events (.camera io)) = some s')
    (ht : step lut t (.events (.camera io')) = some t') : Alike s' t' := by
  have hstore : SameStore s.capture t.capture := by
    refine ⟨h.incoming, ?_⟩
    have := h.stored
    simpa only [System.frames, List.length_map] using this
  have hresult (save : Bool) := (writeframe_sameStore hstore hio save).1
  have hsame := cameraIteration_same hresult s.events.camera s.events.queue
  have hbuffer := cameraIteration_sameStore hstore hio s.events.camera s.events.queue
  have hcamera := h.camera
  have hqueue := h.queue
  rcases hpass : Camera.cameraIteration CaptureStore.writeframe io s.events.camera
    s.events.queue s.capture with ⟨camera, queue, c⟩
  rcases hpass' : Camera.cameraIteration CaptureStore.writeframe io' s.events.camera
    s.events.queue t.capture with ⟨camera', queue', d⟩
  rw [hpass, hpass'] at hsame hbuffer
  obtain ⟨rfl, rfl⟩ : camera = camera' ∧ queue = queue' := hsame
  have hs' : s' = { s with events := { s.events with
      camera := camera, queue := queue, buffer := c, received := s'.events.received } } := by
    simp only [step, Events.step, Option.map_some, Option.some.injEq] at hs
    subst hs
    change (Camera.cameraIteration CaptureStore.writeframe io s.events.camera
      s.events.queue s.events.buffer) = _ at hpass
    simp only [hpass]
  have ht' : t' = { t with events := { t.events with
      camera := camera, queue := queue, buffer := d, received := t'.events.received } } := by
    simp only [step, Events.step, Option.map_some, Option.some.injEq] at ht
    subst ht
    rw [hcamera, hqueue] at hpass'
    change (Camera.cameraIteration CaptureStore.writeframe io' t.events.camera
      t.events.queue t.events.buffer) = _ at hpass'
    simp only [hpass']
  rw [hs', ht']
  constructor
  · exact h.detector
  · rfl
  · rfl
  · exact hbuffer.ring
  · show (c.stored.map Prod.fst).length = (d.stored.map Prod.fst).length
    rw [List.length_map, List.length_map]
    exact hbuffer.stored
  · exact h.image
  · exact h.nvm
  · exact h.sockfd
  · exact h.taken
  · exact h.handed

theorem detection_alike {r : Detection.Reading} (h : Alike s t)
    (hs : step lut s (.events (.detection r)) = some s')
    (ht : step lut t (.events (.detection r)) = some t') : Alike s' t' := by
  simp only [step, Events.step, Option.map_some, Option.some.injEq, h.detector] at hs ht
  subst hs ht
  have hbuffer (u : System n) (d : Detection.DetectionFsm) (events : List Event) :
      (events.foldl Events.System.send { u.events with detector := d }).buffer = u.capture :=
    Events.send_foldl_buffer events _
  constructor
  · simp only [Events.send_foldl_detector]
  · simp only [Events.send_foldl_queue, h.queue]
  · simp only [Events.send_foldl_camera, h.camera]
  · simp only [System.capture, hbuffer]
    exact h.incoming
  · simp only [System.frames, System.capture, hbuffer]
    exact h.stored
  · exact h.image
  · exact h.nvm
  · exact h.sockfd
  · exact h.taken
  · exact h.handed

theorem imagebufferWrite_samePlace {b c : RingBuffer (Frame n)} (h : SamePlace b c)
    (f g : Frame n) : SamePlace (imagebufferWrite f b).2 (imagebufferWrite g c).2 := by
  simp only [imagebufferWrite, h.isFull]
  split
  · exact h.write f g
  · exact h

theorem processFrames_alike {rgbFrame rgbFrame' : Frame n} (h : Alike s t)
    (hs : step lut s (.processFrames rgbFrame) = some s')
    (ht : step lut t (.processFrames rgbFrame') = some t') : Alike s' t' := by
  have hempty := h.incoming.isEmpty
  have hlen := h.image.getlen
  simp only [step, Option.some.injEq] at hs ht
  subst hs ht
  cases hcase : t.capture.ring.isEmpty with
  | true =>
    rw [hcase] at hempty
    simp only [processFrames, takenFrame, framebufferGetframePtr, hempty, hcase, if_true,
      Option.toList_none, List.map_nil, List.append_nil]
    exact h
  | false =>
    rw [hcase] at hempty
    simp only [processFrames, takenFrame, framebufferGetframePtr, framebufferFreeframe, hempty,
      hcase, if_false, Bool.false_eq_true]
    exact { h with
      incoming := h.incoming.incReadptr
      image := imagebufferWrite_samePlace h.image _ _
      taken := by simp [h.taken, hlen] }

theorem startread_alike (h : Alike s t) (hs : step lut s .startread = some s')
    (ht : step lut t .startread = some t') : Alike s' t' := by
  have hread : imagebufferStartread s.imageBuffer = imagebufferStartread t.imageBuffer := by
    simp only [imagebufferStartread, h.image.isEmpty, h.image.readZc]
  have hidle := (startread_step hs).1
  have hidle' := (startread_step ht).1
  simp only [step, hidle, hread] at hs
  simp only [step, hidle'] at ht
  rcases hres : imagebufferStartread t.imageBuffer with ⟨result, slot⟩
  rw [hres] at hs ht
  have hsame (hs : some s = some s') (ht : some t = some t') : Alike s' t' := by
    cases hs
    cases ht
    exact h
  cases result with
  | success =>
    cases slot with
    | none => exact hsame hs ht
    | some slot =>
      cases hs
      cases ht
      exact { h with nvm := rfl }
  | failure => exact hsame hs ht
  | ignore => exact hsame hs ht

theorem imageSave_alike {calls : SaveCalls} (h : Alike s t)
    (hs : step lut s (.imageSave calls) = some s')
    (ht : step lut t (.imageSave calls) = some t') : Alike s' t' := by
  obtain ⟨slot, result, fd, sends, hnvm, hsave, rfl⟩ := imageSave_step hs
  obtain ⟨slot', result', fd', sends', hnvm', hsave', rfl⟩ := imageSave_step ht
  rw [h.sockfd, hsave'] at hsave
  simp only [Prod.mk.injEq, Option.some.injEq] at hsave
  obtain ⟨rfl, rfl, rfl⟩ := hsave
  refine { h with
    nvm := rfl
    sockfd := rfl
    handed := ?_ }
  simp only [List.map_append, h.handed, List.map_cons, List.map_nil]

theorem endread_alike (h : Alike s t) (hs : step lut s .endread = some s')
    (ht : step lut t .endread = some t') : Alike s' t' := by
  obtain ⟨-, rfl⟩ := endread_step hs
  obtain ⟨-, rfl⟩ := endread_step ht
  refine { h with
    nvm := rfl
    image := ?_ }
  simp only [imagebufferEndread, h.image.isEmpty]
  split
  · exact h.image.incReadptr
  · exact h.image

theorem step_alike {a b : Act n} (h : Alike s t) (hab : a.schedule = b.schedule)
    (hs : step lut s a = some s') (ht : step lut t b = some t') : Alike s' t' := by
  cases a with
  | events a =>
    cases a with
    | detection r =>
      cases b with
      | events b =>
        cases b with
        | detection r' =>
          cases hab
          exact detection_alike h hs ht
        | camera io => cases hab
      | processFrames _ | startread | imageSave _ | endread => cases hab
    | camera io =>
      cases b with
      | events b =>
        cases b with
        | detection r => cases hab
        | camera io' =>
          exact camera_alike h (Events.Act.camera.inj (Act.events.inj hab)) hs ht
      | processFrames _ | startread | imageSave _ | endread => cases hab
  | processFrames rgbFrame =>
    cases b with
    | processFrames rgbFrame' => exact processFrames_alike h hs ht
    | events b => cases b <;> cases hab
    | startread | imageSave _ | endread => cases hab
  | startread =>
    cases b with
    | startread => exact startread_alike h hs ht
    | events b => cases b <;> cases hab
    | processFrames _ | imageSave _ | endread => cases hab
  | imageSave calls =>
    cases b with
    | imageSave calls' =>
      cases hab
      exact imageSave_alike h hs ht
    | events b => cases b <;> cases hab
    | processFrames _ | startread | endread => cases hab
  | endread =>
    cases b with
    | endread => exact endread_alike h hs ht
    | events b => cases b <;> cases hab
    | processFrames _ | startread | imageSave _ => cases hab

/- What the tasks do does not depend on the bytes. -/
theorem run_alike {acts acts' : List (Act n)} (h : Alike s t)
    (hacts : acts.map Act.schedule = acts'.map Act.schedule)
    (hs : run (step lut) s acts = some s') (ht : run (step lut) t acts' = some t') :
    Alike s' t' := by
  induction acts generalizing s t acts' with
  | nil =>
    obtain rfl : acts' = [] := List.map_eq_nil_iff.mp hacts.symm
    obtain rfl : s = s' := by simpa using hs
    obtain rfl : t = t' := by simpa using ht
    exact h
  | cons a acts ih =>
    cases acts' with
    | nil => cases hacts
    | cons b acts' =>
      obtain ⟨hab, hrest⟩ := List.cons.inj hacts
      obtain ⟨u, hu, hs⟩ := Option.bind_eq_some_iff.mp hs
      obtain ⟨v, hv, ht⟩ := Option.bind_eq_some_iff.mp ht
      exact ih (step_alike h hab hu hv) hrest hs ht

theorem Alike.sources (h : Alike s t) : s.sources = t.sources := by
  have hsources (u : System n) : u.sources =
      (((u.taken.map Prod.snd).zipIdx.filter fun p => p.1 ≠ u.imageBuffer.size.toNat - 1).map
        Prod.snd) := by
    rw [System.sources, List.zipIdx_map, List.filter_map, List.map_map]
    rfl
  rw [hsources, hsources, h.taken, h.image.size]

/-! ### The bytes sent -/

/-- The bytes that the frame streamed as number `i` was captured from. -/
def System.streamedFrame (s : System n) (i : ℕ) : List UInt8 :=
  (s.sources[i]?.bind fun m => s.frames[m]?).getD []

/-- The frames copied before it into the same slot, oldest first. -/
def System.earlier (s : System n) (i : ℕ) : List (List UInt8) :=
  match s.sources[i]? with
  | some m => inSlot s.capture.ring.size.toNat (s.frames.take m) (m % s.capture.ring.size.toNat)
  | none => []

theorem Carried.wire {k k' R W R' W' : ℕ} (h : Carried s k k' R W R' W') {i : ℕ} {x : Handed n}
    (hx : s.handed[i]? = some x) :
    x.image = (layered (s.earlier i)).overwrite (s.streamedFrame i) := by
  obtain ⟨m, hm, himage⟩ := h.handed i x hx
  have hlt : m < s.frames.length := by
    have := h.numbers m (List.mem_of_getElem? hm)
    have := h.incoming.le
    have := h.stored
    omega
  have hf : s.frames[m]? = some s.frames[m] := List.getElem?_eq_getElem hlt
  have hstreamed : s.streamedFrame i = s.frames[m] := by simp [System.streamedFrame, hm, hf]
  rw [himage, slotOf_eq hf, hstreamed]
  simp only [System.earlier, hm, h.incoming.size]

/- A place behind the frame shows the last frame in the slot that reached it. -/
theorem Carried.wire_getD {k k' R W R' W' : ℕ} (h : Carried s k k' R W R' W') {i : ℕ}
    {x : Handed n} (hx : s.handed[i]? = some x) {j : ℕ} (hj : j < n) :
    x.image.bytes.getD j 0 = (s.streamedFrame i).getD j (lastByte (s.earlier i) j) := by
  rw [h.wire hx, Frame.overwrite_getD _ _ hj, layered_getD _ hj]

theorem frame_ext {f g : Frame n} (h : ∀ j < n, f.bytes.getD j 0 = g.bytes.getD j 0) : f = g := by
  apply Frame.ext_bytes
  apply List.ext_getElem
  · rw [f.length_eq, g.length_eq]
  · intro j hf hg
    have hj := h j (by rwa [f.length_eq] at hf)
    rwa [List.getD_eq_getElem?_getD, List.getD_eq_getElem?_getD, List.getElem?_eq_getElem hf,
      List.getElem?_eq_getElem hg] at hj

/-- Behind the frame streamed as number `i` both runs have left the same bytes. -/
def SameBehind (s t : System n) (i : ℕ) : Prop :=
  ∀ j, (s.streamedFrame i).length ≤ j → j < n →
    lastByte (s.earlier i) j = lastByte (t.earlier i) j

theorem image_eq_iff {k k' R W R' W' K K' P Q P' Q' : ℕ} (hs : Carried s k k' R W R' W')
    (ht : Carried t K K' P Q P' Q') {i : ℕ} {x y : Handed n} (hx : s.handed[i]? = some x)
    (hy : t.handed[i]? = some y) (hframe : s.streamedFrame i = t.streamedFrame i) :
    x.image = y.image ↔ SameBehind s t i := by
  constructor
  · intro heq j hlen hj
    have hbyte := hs.wire_getD hx hj
    rw [heq, ht.wire_getD hy hj, ← hframe, List.getD_eq_default _ _ hlen,
      List.getD_eq_default _ _ hlen] at hbyte
    exact hbyte.symm
  · intro hbehind
    apply frame_ext
    intro j hj
    rw [hs.wire_getD hx hj, ht.wire_getD hy hj, ← hframe]
    rcases Nat.lt_or_ge j (s.streamedFrame i).length with hlt | hge
    · rw [List.getD_eq_getElem _ _ hlt, List.getD_eq_getElem _ _ hlt]
    · rw [List.getD_eq_default _ _ hge, List.getD_eq_default _ _ hge, hbehind j hge hj]

theorem Alike.calls (h : Alike s t) {i : ℕ} {x y : Handed n} (hx : s.handed[i]? = some x)
    (hy : t.handed[i]? = some y) : x.result = y.result ∧ x.sends = y.sends := by
  have hcalls := congrArg (fun l => l[i]?) h.handed
  simp only [List.getElem?_map, hx, hy, Option.map_some, Option.some.injEq, Prod.mk.injEq] at hcalls
  exact hcalls

theorem sized_saved {SIZE SIZE' : UInt32} {acts : List (Act n)}
    (hr : run (step lut) (.sized SIZE SIZE') acts = some s) : Saved s :=
  run_inv Saved (fun _ _ _ h ht => step_saved h ht) (fun h hh => by cases hh) hr

/- A slot that was sent in full can be read off the datagrams. -/
theorem image_of_datagrams {SIZE SIZE' : UInt32} {acts acts' : List (Act n)}
    (hn : n < 2147483648) (hpos : 0 < n) (hs : run (step lut) (.sized SIZE SIZE') acts = some s)
    (ht : run (step lut) (.sized SIZE SIZE') acts' = some t) {i : ℕ} {x y : Handed n}
    (hx : s.handed[i]? = some x) (hy : t.handed[i]? = some y) (hsent : x.Sent) (hsent' : y.Sent)
    (heq : x.datagrams = y.datagrams) : x.image = y.image := by
  apply Frame.ext_bytes
  rw [← (sized_saved hs).flatten hn hpos (List.mem_of_getElem? hx) hsent,
    ← (sized_saved ht).flatten hn hpos (List.mem_of_getElem? hy) hsent', heq]

/- What goes on the wire for a frame is a function of the frame and of those
copied before it into its slot, and it does depend on these. -/
theorem streamed_bytes_iff (lut : ColorLut) (hn : n < 2147483648) {SIZE SIZE' : UInt32} {k k' : ℕ}
    (hk : 1 ≤ k) (hk' : 1 ≤ k') (hsize : SIZE.toNat = 2 ^ k) (hsize' : SIZE'.toNat = 2 ^ k')
    {acts acts' : List (Act n)} (hacts : acts.map Act.schedule = acts'.map Act.schedule)
    (hs : run (step lut) (.sized SIZE SIZE') acts = some s)
    (ht : run (step lut) (.sized SIZE SIZE') acts' = some t) (hshort : Short s)
    (hshort' : Short t) {i : ℕ} {x y : Handed n} (hx : s.handed[i]? = some x)
    (hy : t.handed[i]? = some y) (hframe : s.streamedFrame i = t.streamedFrame i) :
    (SameBehind s t i → x.datagrams = y.datagrams) ∧
    (x.Sent → (x.datagrams = y.datagrams ↔ SameBehind s t i)) := by
  obtain ⟨_, _, _, _, hcarried⟩ := reachable_carried hk hk' hsize hsize' hs hshort
  obtain ⟨_, _, _, _, hcarried'⟩ := reachable_carried hk hk' hsize hsize' ht hshort'
  have himage := image_eq_iff hcarried hcarried' hx hy hframe
  obtain ⟨hresult, hsends⟩ := (run_alike (alike_refl _) hacts hs ht).calls hx hy
  have hsame (hbehind : SameBehind s t i) : x.datagrams = y.datagrams := by
    rw [Handed.datagrams, Handed.datagrams, hsends, himage.mpr hbehind]
  refine ⟨hsame, fun hsent => ⟨fun heq => ?_, hsame⟩⟩
  have hsent' : y.Sent := by
    rw [Handed.Sent, ← hresult, ← hsends]
    exact hsent
  rcases Nat.eq_zero_or_pos n with hzero | hpos
  · intro j _ hj
    omega
  · exact himage.mp (image_of_datagrams hn hpos hs ht hx hy hsent hsent' heq)

/-- One frame on its way from the camera to the stream. -/
def streamOne (bytes : List UInt8) : List (Act FRAME_SIZE) :=
  [dequeues _ bytes, .processFrames .zero, .startread, .imageSave ⟨3, List.replicate 75 1024⟩,
    .endread]

/-- With 128 slots the last frame comes into the slot of the first. -/
def lap (first : List UInt8) : List (Act FRAME_SIZE) :=
  motion _ :: (streamOne first ++ (List.replicate 128 (streamOne shortFrame)).flatten)

theorem lap_schedule (first first' : List UInt8) :
    (lap first).map Act.schedule = (lap first').map Act.schedule := by
  simp only [lap, List.map_cons, List.map_append]
  rfl

structure Lapped (first : List UInt8) (s : System FRAME_SIZE) (x : Handed FRAME_SIZE) : Prop where
  reached : run (step flatLut) (.sized 128 256) (lap first) = some s
  short : Short s
  handed : s.handed[128]? = some x
  sent : x.Sent
  frame : s.streamedFrame 128 = shortFrame
  earlier : s.earlier 128 = [first]

theorem lapped_of_run {first : List UInt8}
    (hfinal : (run (step flatLut) (.sized 128 256) (lap first)).map
      (fun s => ((s.streamedFrame 128, s.earlier 128), s.handed.length,
        decide (∀ f ∈ s.capture.stored, f.1.length ≤ 5),
        decide (∀ x ∈ s.handed, x.result = .success),
        decide (∀ x ∈ s.handed, ∀ send ∈ x.sends, send.Accepted))) =
      some ((shortFrame, [first]), 129, true, true, true)) :
    ∃ s x, Lapped first s x := by
  obtain ⟨s, hs, hvalues⟩ := Option.map_eq_some_iff.mp hfinal
  simp only [Prod.mk.injEq, decide_eq_true_eq] at hvalues
  obtain ⟨⟨hframe, hearlier⟩, hcount, hlen, hresult, hsends⟩ := hvalues
  have hlt : 128 < s.handed.length := by omega
  have hmem := List.getElem_mem hlt
  exact ⟨s, s.handed[128],
    { reached := hs
      short := fun f hf => (hlen f hf).trans (by decide)
      handed := List.getElem?_eq_getElem hlt
      sent := ⟨hresult _ hmem, hsends _ hmem⟩
      frame := hframe
      earlier := hearlier }⟩

theorem lapped_one : ∃ s x, Lapped [0xFF, 0xD8, 1, 1, 1] s x :=
  lapped_of_run (by decide +kernel)

/- The two first frames differ only where the last one covers them. -/
theorem streamed_bytes_covered :
    ∃ s x t y, Lapped [0xFF, 0xD8, 1, 1, 1] s x ∧ Lapped [0, 0, 0, 0, 1] t y ∧
      x.datagrams = y.datagrams := by
  obtain ⟨s, x, hx⟩ := lapped_one
  obtain ⟨t, y, hy⟩ : ∃ t y, Lapped [0, 0, 0, 0, 1] t y := lapped_of_run (by decide +kernel)
  refine ⟨s, x, t, y, hx, hy, ?_⟩
  apply (streamed_bytes_iff flatLut (by decide) (k := 7) (by decide) (by decide : 1 ≤ 8) rfl rfl
    (lap_schedule _ _) hx.reached hy.reached hx.short hy.short hx.handed hy.handed
    (hx.frame.trans hy.frame.symm)).1
  intro j hj _
  rw [hx.frame] at hj
  obtain ⟨d, rfl⟩ : ∃ d, j = d + 4 := ⟨j - 4, (Nat.sub_add_cancel hj).symm⟩
  rw [hx.earlier, hy.earlier]
  rfl

/- Behind the four bytes of the last frame the stream shows the fifth byte of the
first one. -/
theorem streamed_bytes_leak :
    ∃ s x t y, Lapped [0xFF, 0xD8, 1, 1, 1] s x ∧ Lapped [0xFF, 0xD8, 1, 1, 2] t y ∧
      (lap [0xFF, 0xD8, 1, 1, 1]).map Act.schedule =
        (lap [0xFF, 0xD8, 1, 1, 2]).map Act.schedule ∧
      s.streamedFrame 128 = t.streamedFrame 128 ∧ x.datagrams ≠ y.datagrams := by
  obtain ⟨s, x, hx⟩ := lapped_one
  obtain ⟨t, y, hy⟩ : ∃ t y, Lapped [0xFF, 0xD8, 1, 1, 2] t y := lapped_of_run (by decide +kernel)
  refine ⟨s, x, t, y, hx, hy, lap_schedule _ _, hx.frame.trans hy.frame.symm, fun heq => ?_⟩
  have himage := image_of_datagrams (by decide) (by decide) hx.reached hy.reached hx.handed
    hy.handed hx.sent hy.sent heq
  obtain ⟨_, _, _, _, hcarried⟩ :=
    reachable_carried (k := 7) (by decide) (by decide : 1 ≤ 8) rfl rfl hx.reached hx.short
  obtain ⟨_, _, _, _, hcarried'⟩ :=
    reachable_carried (k := 7) (by decide) (by decide : 1 ≤ 8) rfl rfl hy.reached hy.short
  have hbehind := (image_eq_iff hcarried hcarried' hx.handed hy.handed
    (hx.frame.trans hy.frame.symm)).mp himage
  have hbyte := hbehind 4 (by rw [hx.frame]; decide) (by decide)
  rw [hx.earlier, hy.earlier] at hbyte
  exact absurd hbyte (by decide)

end Pipeline

end MotionDetector
