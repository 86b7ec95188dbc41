import MotionDetector.Pipeline.Conservation
import MotionDetector.Pipeline.Footprint

/-!
# The result of `framebuffer_writeframe` and the counter `num_writes`

`camera.c` counts the calls that return `SYS_SUCCESS`. The result is decided
from `saveFrame` and the requeue of the buffer, after the ring was changed.
-/

namespace MotionDetector

open RingBuffer

variable {n : ℕ} {b : RingBuffer (Frame n)} {k R W : ℕ} {io : Capture} {save : Bool}

/-- `b'` holds what `b` holds and one frame more, and nothing outside the ring
was written to bring that about. -/
structure Appends (b b' : RingBuffer (Frame n)) (stores : List (ℕ × UInt8)) : Prop where
  frame : ∃ f, b'.contents = b.contents ++ [f]
  read : b'.readPtr = b.readPtr
  write : b'.writePtr.toNat = (b.writePtr.toNat + 1) % b.size.toNat
  storage : Stores.Within 0 (b.size.toNat * n) stores

structure Unchanged (b b' : RingBuffer (Frame n)) : Prop where
  contents : b'.contents = b.contents
  read : b'.readPtr = b.readPtr
  write : b'.writePtr = b.writePtr

structure Truthful (io : Capture) (save : Bool) (b : RingBuffer (Frame n)) : Prop where
  success : (framebufferWriteframe io save b).1 = .success ↔
    Appends b (framebufferWriteframe io save b).2 (framebufferWriteframeStores io save b)
  otherwise : (framebufferWriteframe io save b).1 ≠ .success →
    Unchanged b (framebufferWriteframe io save b).2

/-- The bytes that go on into slots of queued frames are those already there. -/
def Harmless (b : RingBuffer (Frame n)) (bytes : List UInt8) : Prop :=
  ∀ i j, b.Occupied i → b.writePtr.toNat ≤ i → j < n →
    ∀ x ∈ bytes[(i - b.writePtr.toNat) * n + j]?, (b.data i).bytes[j]? = some x

/-- A frame that is saved stays inside the ring, harms no queued frame and its
buffer is requeued; a frame that finds the ring full is not requeued. -/
structure Plain (io : Capture) (save : Bool) (b : RingBuffer (Frame n)) : Prop where
  saved : Saves io save b → framebufferQueueframe io.qbuf = .success ∧
    b.writePtr.toNat * n + io.bytes.length ≤ b.size.toNat * n ∧ Harmless b io.bytes
  full : Drops io save b → framebufferQueueframe io.qbuf ≠ .success

/-! ### One call -/

/- The flag and the requeue decide, not whether the frame was stored. -/
theorem writeframe_success_iff (io : Capture) (save : Bool) (b : RingBuffer (Frame n)) :
    (framebufferWriteframe io save b).1 = .success ↔
      (Saves io save b ∨ Drops io save b) ∧ framebufferQueueframe io.qbuf = .success := by
  unfold framebufferWriteframe Saves Drops
  by_cases hselect : io.select = -1
  · simp [hselect]
  · by_cases hdq : framebufferDequeueframe io.dqbuf = .success
    · by_cases hqueue : framebufferQueueframe io.qbuf = .success
      · cases save with
        | false => simp [hselect, hdq, hqueue]
        | true => cases hfull : b.isFull <;> simp [hselect, hdq, hqueue]
      · simp [hselect, hdq, hqueue]
    · simp [hselect, hdq]

theorem harmless_iff (b : RingBuffer (Frame n)) (bytes : List UInt8) :
    Harmless b bytes ↔
      ∀ i, b.Occupied i → memcpy b.data b.writePtr.toNat bytes i = b.data i := by
  have hcell (i j : ℕ) (hi : b.writePtr.toNat ≤ i) (hj : j < n) :
      (memcpy b.data b.writePtr.toNat bytes i).bytes[j]? =
        some (bytes[(i - b.writePtr.toNat) * n + j]?.getD ((b.data i).bytes[j]?.getD 0)) := by
    rw [memcpy, if_pos hi, flatten_overwrite _ _ hj, List.getElem?_drop]
  constructor
  · intro h i hocc
    by_cases hi : b.writePtr.toNat ≤ i
    · apply Frame.ext_bytes
      apply List.ext_getElem?
      intro j
      by_cases hj : j < n
      · have hsome : (b.data i).bytes[j]? = some ((b.data i).bytes[j]?.getD 0) := by
          rw [List.getElem?_eq_getElem (by rw [(b.data i).length_eq]; exact hj)]
          rfl
        rw [hcell i j hi hj]
        cases hx : bytes[(i - b.writePtr.toNat) * n + j]? with
        | none => exact hsome.symm
        | some x => exact (h i j hocc hi hj x hx).symm
      · rw [List.getElem?_eq_none (by rw [Frame.length_eq]; omega),
          List.getElem?_eq_none (by rw [Frame.length_eq]; omega)]
    · exact memcpy_beyond _ (.inl (Nat.lt_of_not_le hi))
  · intro h i j hocc hi hj x hx
    have := hcell i j hi hj
    rw [h i hocc, Option.mem_def.mp hx] at this
    exact this

/- What a save leaves in the queued slots decides what the ring holds. -/
theorem saveFrame_contents_eq (h : Tracks b k R W) (hroom : b.isFull = false)
    (bytes : List UInt8) :
    (saveFrame bytes b).contents =
      Circular.window (memcpy b.data b.writePtr.toNat bytes) (2 ^ k) R (W - R) ++
        [slotImage b bytes] := by
  have hnext : W + 1 < R + 2 ^ k := by
    have hfull := mt h.isFull.mpr (by simp [hroom])
    have := h.room
    omega
  have hdata := h.setData (memcpy b.data b.writePtr.toNat bytes)
  rw [saveFrame, hdata.contents_incWriteptr hnext, hdata.contents, ← h.write, slotImage,
    ← memcpy_self]

theorem saveFrame_contents_iff (h : Tracks b k R W) (hroom : b.isFull = false)
    (bytes : List UInt8) :
    (∃ f, (saveFrame bytes b).contents = b.contents ++ [f]) ↔ Harmless b bytes := by
  rw [saveFrame_contents_eq h hroom, harmless_iff, h.contents]
  constructor
  · rintro ⟨f, hf⟩ i hocc
    have hwindow := (List.append_inj' hf rfl).1
    obtain ⟨c, hR, hW, rfl⟩ := (h.occupied i).mp hocc
    have hget := congrArg (fun l : List (Frame n) => l[c - R]?) hwindow
    simp only [Circular.window, List.getElem?_map,
      List.getElem?_range (show c - R < W - R by omega), Option.map_some,
      Option.some.injEq, Nat.add_sub_cancel' hR] at hget
    exact hget
  · intro hsame
    refine ⟨slotImage b bytes, ?_⟩
    rw [Circular.window_congr fun i hi => hsame _ ((h.occupied _).mpr ⟨R + i, by omega⟩)]

theorem saveFrame_write (h : Tracks b k R W) (bytes : List UInt8) :
    (saveFrame bytes b).writePtr.toNat = (b.writePtr.toNat + 1) % b.size.toNat := by
  rw [h.size]
  exact Circular.succ_mask h.size b.writePtr

theorem writePtr_moves (h : Tracks b k R W) :
    (b.writePtr.toNat + 1) % b.size.toNat ≠ b.writePtr.toNat := by
  have hlt : b.writePtr.toNat < 2 ^ k := by
    rw [h.write]
    exact Nat.mod_lt _ (Nat.two_pow_pos k)
  have htwo : 2 ≤ 2 ^ k := Nat.le_self_pow (Nat.one_le_iff_ne_zero.mp h.pos) 2
  rw [h.size]
  intro heq
  rcases Nat.lt_or_ge (b.writePtr.toNat + 1) (2 ^ k) with hnext | hnext
  · rw [Nat.mod_eq_of_lt hnext] at heq
    omega
  · rw [show b.writePtr.toNat + 1 = 2 ^ k by omega, Nat.mod_self] at heq
    omega

theorem not_appends_self (stores : List (ℕ × UInt8)) : ¬ Appends b b stores := by
  rintro ⟨⟨f, hf⟩, -⟩
  have := congrArg List.length hf
  simp at this

theorem truthful_of_saves (h : Tracks b k R W) (hsaves : Saves io save b) :
    Truthful io save b ↔ framebufferQueueframe io.qbuf = .success ∧
      b.writePtr.toNat * n + io.bytes.length ≤ b.size.toNat * n ∧ Harmless b io.bytes := by
  have hring : (framebufferWriteframe io save b).2 = saveFrame io.bytes b := by
    rw [framebufferWriteframe_ring, if_pos hsaves]
  have hstorage : Stores.Within 0 (b.size.toNat * n) (framebufferWriteframeStores io save b) ↔
      b.writePtr.toNat * n + io.bytes.length ≤ b.size.toNat * n := by
    have hslot := slot_le_storage (n := n) h
    rw [writeframeStores_of_saves hsaves, Stores.copy_within, ← List.length_eq_zero_iff]
    rw [Nat.succ_mul] at hslot
    omega
  have hcontents := saveFrame_contents_iff h hsaves.2.2.2 io.bytes
  have hresult := writeframe_success_iff io save b
  constructor
  · intro ⟨hsuccess, hother⟩
    have hqueue : (framebufferWriteframe io save b).1 = .success := by
      by_contra hno
      have hwrite := congrArg UInt32.toNat (hother hno).write
      rw [hring, saveFrame_write h] at hwrite
      exact writePtr_moves h hwrite
    have happends := hsuccess.mp hqueue
    rw [hring] at happends
    exact ⟨(hresult.mp hqueue).2, hstorage.mp happends.storage, hcontents.mp happends.frame⟩
  · rintro ⟨hqueue, hfits, hharmless⟩
    have hok := hresult.mpr ⟨.inl hsaves, hqueue⟩
    refine ⟨iff_of_true hok ?_, fun hno => absurd hok hno⟩
    rw [hring]
    exact ⟨hcontents.mpr hharmless, rfl, saveFrame_write h io.bytes, hstorage.mpr hfits⟩

/- Where nothing is saved the ring is as it was, and only a dropped frame is
reported as a success. -/
theorem truthful_of_not_saves (hno : ¬ Saves io save b) :
    Truthful io save b ↔ (Drops io save b → framebufferQueueframe io.qbuf ≠ .success) := by
  have hring : (framebufferWriteframe io save b).2 = b := by
    rw [framebufferWriteframe_ring, if_neg hno]
  have hresult := writeframe_success_iff io save b
  constructor
  · intro h hdrops hqueue
    have happends := h.success.mp (hresult.mpr ⟨.inr hdrops, hqueue⟩)
    rw [hring] at happends
    exact not_appends_self _ happends
  · intro h
    have hfail : (framebufferWriteframe io save b).1 ≠ .success := by
      rw [Ne, hresult]
      rintro ⟨hsaves | hdrops, hqueue⟩
      · exact hno hsaves
      · exact h hdrops hqueue
    refine ⟨iff_of_false hfail ?_, fun _ => ?_⟩
    · rw [hring]
      exact not_appends_self _
    · rw [hring]
      exact ⟨rfl, rfl, rfl⟩

theorem truthful_iff_plain (h : Tracks b k R W) (io : Capture) (save : Bool) :
    Truthful io save b ↔ Plain io save b := by
  by_cases hsaves : Saves io save b
  · rw [truthful_of_saves h hsaves]
    constructor
    · intro hplain
      refine ⟨fun _ => hplain, fun hdrops => ?_⟩
      have := hdrops.2.2.2
      simp [hsaves.2.2.2] at this
    · intro hplain
      exact hplain.saved hsaves
  · rw [truthful_of_not_saves hsaves]
    constructor
    · intro hdrops
      exact ⟨fun hs => absurd hs hsaves, hdrops⟩
    · intro hplain
      exact hplain.full

/-! ### The counter over a run -/

namespace Pipeline

open Transition

variable {lut : ColorLut}

def Counts (s : System n) : Prop :=
  s.events.camera.numWrites.toNat = s.capture.stored.length

/-- While capturing, a stored frame is requeued and is not the `2 ^ 32`nd, and a
dropped one is not requeued. -/
def CountedPass (s : System n) : Act n → Prop
  | .events (.camera io) => Camera.Capturing s.events.camera s.events.queue →
      (Saves io true s.capture.ring →
        framebufferQueueframe io.qbuf = .success ∧ s.capture.stored.length + 1 < 2 ^ 32) ∧
      (Drops io true s.capture.ring → framebufferQueueframe io.qbuf ≠ .success)
  | _ => True

instance (s : System n) (a : Act n) : Decidable (CountedPass s a) :=
  match a with
  | .events (.camera _) => inferInstanceAs (Decidable (_ → (_ → _ ∧ _) ∧ (_ → _)))
  | .events (.detection _) => isTrue trivial
  | .processFrames _ => isTrue trivial
  | .startread => isTrue trivial
  | .imageSave _ => isTrue trivial
  | .endread => isTrue trivial

theorem counted (x : UInt32) (len : ℕ) (h : x.toNat = len) :
    ((x + 1).toNat = len + 1 ↔ len + 1 < 2 ^ 32) ∧ (x + 1).toNat ≠ len ∧ x.toNat ≠ len + 1 := by
  have hlt := x.toNat_lt
  rw [UInt32.toNat_add, UInt32.toNat_one, h]
  rw [h] at hlt
  rcases Nat.lt_or_ge (len + 1) (2 ^ 32) with hnext | hnext
  · rw [Nat.mod_eq_of_lt hnext]
    omega
  · rw [show len + 1 = 2 ^ 32 by omega, Nat.mod_self]
    omega

theorem camera_counts_iff {s t : System n} {io : Capture} (hs : Counts s)
    (ht : step lut s (.events (.camera io)) = some t) :
    Counts t ↔ CountedPass s (.events (.camera io)) := by
  have hnum : t.events.camera.numWrites =
      if Camera.Capturing s.events.camera s.events.queue ∧
          (s.capture.writeframe io true).1 = .success
        then s.events.camera.numWrites + 1 else s.events.camera.numWrites := by
    simp only [step, Events.step, Option.map_some, Option.some.injEq] at ht
    subst ht
    exact Camera.cameraIteration_numWrites CaptureStore.writeframe io _ _ _
  have hresult := writeframe_success_iff io true s.capture.ring
  obtain ⟨hboth, hcount, hstore⟩ := counted s.events.camera.numWrites _ hs
  by_cases hcap : Camera.Capturing s.events.camera s.events.queue
  · by_cases hsaves : Saves io true s.capture.ring
    · have hdrops : ¬ Drops io true s.capture.ring := by
        intro hdrops
        have := hdrops.2.2.2
        simp [hsaves.2.2.2] at this
      rcases step_stored ht with ⟨hno, -⟩ | ⟨io', hio, -, hstored, -⟩
      · exact absurd ⟨hcap, hsaves⟩ (hno io rfl)
      cases hio
      by_cases hqueue : framebufferQueueframe io.qbuf = .success
      · have hok : (s.capture.writeframe io true).1 = .success := hresult.mpr ⟨.inl hsaves, hqueue⟩
        rw [Counts, hnum, if_pos ⟨hcap, hok⟩, hstored, List.length_append, List.length_singleton,
          hboth]
        simp [CountedPass, hcap, hsaves, hdrops, hqueue]
      · have hfail : (s.capture.writeframe io true).1 ≠ .success :=
          fun h => hqueue (hresult.mp h).2
        rw [Counts, hnum, if_neg (fun h => hfail h.2), hstored, List.length_append,
          List.length_singleton]
        exact iff_of_false hstore fun h => hqueue ((h hcap).1 hsaves).1
    · rcases step_stored ht with ⟨-, hstored, -⟩ | ⟨io', hio, hstores, -, -⟩
      · by_cases hlost : Drops io true s.capture.ring ∧ framebufferQueueframe io.qbuf = .success
        · have hok : (s.capture.writeframe io true).1 = .success :=
            hresult.mpr ⟨.inr hlost.1, hlost.2⟩
          rw [Counts, hnum, if_pos ⟨hcap, hok⟩, hstored]
          exact iff_of_false hcount fun h => (h hcap).2 hlost.1 hlost.2
        · have hfail : (s.capture.writeframe io true).1 ≠ .success := by
            intro h
            obtain ⟨h | h, hqueue⟩ := hresult.mp h
            · exact hsaves h
            · exact hlost ⟨h, hqueue⟩
          rw [Counts, hnum, if_neg (fun h => hfail h.2), hstored]
          exact iff_of_true hs fun _ => ⟨fun h => absurd h hsaves, fun hd hq => hlost ⟨hd, hq⟩⟩
      · cases hio
        exact absurd hstores.2 hsaves
  · rcases step_stored ht with ⟨-, hstored, -⟩ | ⟨io', hio, hstores, -, -⟩
    · rw [Counts, hnum, if_neg (fun h => hcap h.1), hstored]
      exact iff_of_true hs fun h => absurd h hcap
    · cases hio
      exact absurd hstores.1 hcap

theorem step_counts_iff {s t : System n} {a : Act n} (hs : Counts s)
    (ht : step lut s a = some t) : Counts t ↔ CountedPass s a := by
  have hstill (hpass : CountedPass s a) (hcamera : t.events.camera = s.events.camera)
      (hstored : t.capture.stored = s.capture.stored) : Counts t ↔ CountedPass s a := by
    refine iff_of_true ?_ hpass
    rw [Counts, hcamera, hstored]
    exact hs
  have hstored (hno : ∀ io, a ≠ .events (.camera io)) : t.capture.stored = s.capture.stored := by
    rcases step_stored ht with ⟨-, h, -⟩ | ⟨io, hio, -⟩
    · exact h
    · exact absurd hio (hno io)
  cases a with
  | events a =>
    cases a with
    | camera io => exact camera_counts_iff hs ht
    | detection r =>
      refine hstill trivial ?_ (hstored fun io => by simp)
      simp only [step, Events.step, Option.map_some, Option.some.injEq] at ht
      subst ht
      exact Events.send_foldl_camera _ _
  | processFrames rgbFrame =>
    refine hstill trivial ?_ (hstored fun io => by simp)
    simp only [step, Option.some.injEq] at ht
    subst ht
    rfl
  | startread =>
    refine hstill trivial ?_ (hstored fun io => by simp)
    obtain ⟨-, rfl | ⟨slot, -, rfl⟩⟩ := startread_step ht
    · rfl
    · rfl
  | imageSave calls =>
    refine hstill trivial ?_ (hstored fun io => by simp)
    obtain ⟨slot, result, fd, sends, -, -, rfl⟩ := imageSave_step ht
    rfl
  | endread =>
    refine hstill trivial ?_ (hstored fun io => by simp)
    obtain ⟨-, rfl⟩ := endread_step ht
    rfl

/- The frames appended are the advances of the write index, also where a copy runs on
into queued slots. -/
theorem reachable_written {acts : List (Act n)} {s : System n} (hr : InsideRun lut acts s) :
    ∃ R, Tracks s.capture.ring 7 R s.capture.stored.length := by
  refine run_inv (fun s => ∃ R, Tracks s.capture.ring 7 R s.capture.stored.length) ?_
    ⟨0, init_flow.incoming⟩ hr.ran
  intro s a t ⟨R, h⟩ ht
  cases a with
  | events a =>
    cases (events_effect ht).2 with
    | same none store => exact ⟨R, by rw [store]; exact h⟩
    | saved io act stores store =>
      refine ⟨R, ?_⟩
      rw [store, List.length_append, List.length_singleton]
      exact saveFrame_tracks h stores.2.2.2.2 io.bytes
    | dropped full store => exact ⟨R, by rw [store]; exact h⟩
  | processFrames rgbFrame =>
    simp only [step, Option.some.injEq] at ht
    subst ht
    rcases Nat.lt_or_ge R s.capture.stored.length with hlt | hge
    · rw [processFrames_of_lt lut rgbFrame h hlt]
      exact ⟨R + 1, h.incReadptr hlt⟩
    · obtain rfl := Nat.le_antisymm h.le hge
      rw [processFrames_of_eq lut rgbFrame h]
      exact ⟨_, h⟩
  | startread =>
    obtain ⟨-, rfl | ⟨slot, -, rfl⟩⟩ := startread_step ht
    · exact ⟨R, h⟩
    · exact ⟨R, h⟩
  | imageSave calls =>
    obtain ⟨slot, result, fd, sends, -, -, rfl⟩ := imageSave_step ht
    exact ⟨R, h⟩
  | endread =>
    obtain ⟨-, rfl⟩ := endread_step ht
    exact ⟨R, h⟩

/-- A call tells the truth exactly when it is plain. As long as no copy leaves the
storage, `num_writes` is the number of frames appended throughout exactly those runs
whose passes of the camera all count what they store. -/
theorem writeframe_truthful_iff {b : RingBuffer (Frame n)} {k R W : ℕ} (hring : Tracks b k R W)
    (io : Capture) (save : Bool) (lut : ColorLut) (acts : List (Act n)) (s : System n)
    (hr : InsideRun lut acts s) :
    (Truthful io save b ↔ Plain io save b) ∧
      (Throughout (step lut) Counts .init acts ↔ Along (step lut) CountedPass .init acts) := by
  refine ⟨truthful_iff_plain hring io save, ?_⟩
  have hsome : (run (step lut) .init acts).isSome := by
    rw [hr.ran]
    rfl
  apply throughout_iff_along (fun _ => True) (fun _ _ _ _ _ _ _ => trivial)
    (fun s a t _ hs ht => step_counts_iff hs ht) trivial _ hsome
  rfl

def emptyRing : RingBuffer (Frame FRAME_SIZE) := .init (fun _ => .zero) 128

def fullRing : RingBuffer (Frame FRAME_SIZE) := ⟨fun _ => .zero, 128, 0, 127⟩

theorem emptyRing_tracks : Tracks emptyRing 7 0 0 := init_tracks _ (by decide) (by decide)

theorem fullRing_tracks : Tracks fullRing 7 0 127 :=
  ⟨by decide, rfl, rfl, rfl, by decide, by decide⟩

/-- 128 frames are dequeued while capturing and the ring takes 127 of them. -/
def fillsRing : List (Act FRAME_SIZE) :=
  motion _ :: List.replicate 128 (dequeues _ shortFrame)

theorem emptyRing_truthful :
    Truthful ⟨0, 0, shortFrame, 0⟩ true emptyRing ∧
      Throughout (step flatLut) Counts .init [motion _, dequeues FRAME_SIZE shortFrame] := by
  have hfinal : (run (step flatLut) .init [motion _, dequeues FRAME_SIZE shortFrame]).isSome := by
    decide +kernel
  obtain ⟨s, hs⟩ := Option.isSome_iff_exists.mp hfinal
  have h := writeframe_truthful_iff emptyRing_tracks ⟨0, 0, shortFrame, 0⟩ true flatLut
    [motion _, dequeues FRAME_SIZE shortFrame] s ⟨hs, by decide +kernel⟩
  have hharmless : Harmless emptyRing shortFrame := by
    rintro i j ⟨d, hd, -⟩
    exact absurd hd (Nat.not_lt_zero d)
  exact ⟨h.1.mpr
      ⟨fun _ => ⟨by decide, by decide, hharmless⟩, fun hdrops => absurd hdrops (by decide)⟩,
    h.2.mpr (by decide +kernel)⟩

/-- A full ring reports a success and stores nothing, a failed requeue reports a
failure after the frame was published, and the counter runs ahead of the ring. -/
theorem writeframe_untruthful :
    ¬ Truthful ⟨0, 0, shortFrame, 0⟩ true fullRing ∧
      ¬ Truthful ⟨0, 0, shortFrame, -1⟩ true emptyRing ∧
      (run (step flatLut) .init fillsRing).map
        (fun s => (s.events.camera.numWrites, s.capture.stored.length)) = some (128, 127) := by
  refine ⟨fun h => ?_, fun h => ?_, by decide +kernel⟩
  · exact ((truthful_iff_plain fullRing_tracks _ _).mp h).full (by decide) (by decide)
  · exact absurd (((truthful_iff_plain emptyRing_tracks _ _).mp h).saved (by decide)).1 (by decide)

end Pipeline

end MotionDetector
