import MotionDetector.Pipeline.Conservation

/-!
# What a slot holds

A slot of the incoming ring is used again after a lap, and a frame overwrites as
much of it as it is long. So a slot holds the frames that were ever copied into
it, one laid over the other, and this is what goes on to the stream. The sizes of
the two rings are any powers of two, as the masks of the ring macros need.
-/

namespace MotionDetector

/- A byte of the slot is that of the new frame as far as this goes. -/
theorem Frame.overwrite_getD {n : ℕ} (f : Frame n) (src : List UInt8) {j : ℕ} (hj : j < n) :
    (f.overwrite src).bytes.getD j 0 = src.getD j (f.bytes.getD j 0) := by
  simp only [List.getD_eq_getElem?_getD, Frame.overwrite]
  rcases Nat.lt_or_ge j src.length with hlt | hge
  · rw [List.getElem?_append_left (by simp; omega), List.getElem?_take_of_lt hj,
      List.getElem?_eq_getElem hlt, Option.getD_some, Option.getD_some]
  · rw [List.getElem?_append_right (by simp; omega), List.getElem?_drop,
      List.getElem?_eq_none hge, Option.getD_none]
    congr 2
    simp only [List.length_take]
    omega

namespace Pipeline

open Transition RingBuffer

variable {n : ℕ} {lut : ColorLut}

/-- The pipeline with rings of `SIZE` raw frames and `SIZE'` images. -/
def System.sized (SIZE SIZE' : UInt32) : System n :=
  { events := .init ⟨.init (fun _ => .zero) SIZE, [], []⟩
    imageBuffer := .init (fun _ => .zero) SIZE'
    nvm := .idle
    sockfd := -1
    taken := []
    handed := [] }

example : System.sized 128 256 = (System.init : System n) := rfl

/-- The frames appended to the incoming ring, in order. -/
def System.frames (s : System n) : List (List UInt8) := s.capture.stored.map Prod.fst

/-- The numbers of the frames that `process_frames` put into `imageBuffer`. -/
def System.sources (s : System n) : List ℕ :=
  (s.taken.zipIdx.filter fun p => p.1.2 ≠ s.imageBuffer.size.toNat - 1).map Prod.snd

/-- The frames that a ring of `size` cells has in its cell `i`, oldest first. -/
def inSlot (size : ℕ) (frames : List (List UInt8)) (i : ℕ) : List (List UInt8) :=
  (frames.zipIdx.filter fun p => p.2 % size = i).map Prod.fst

def layered (frames : List (List UInt8)) : Frame n := frames.foldl Frame.overwrite .zero

/-- The slot of frame number `m` right after it was copied there. -/
def slotOf (size : ℕ) (frames : List (List UInt8)) (m : ℕ) : Frame n :=
  layered (inSlot size (frames.take (m + 1)) (m % size))

/-! ### Layers -/

theorem inSlot_append (size : ℕ) (frames : List (List UInt8)) (f : List UInt8) (i : ℕ) :
    inSlot size (frames ++ [f]) i =
      inSlot size frames i ++ if frames.length % size = i then [f] else [] := by
  simp only [inSlot, List.zipIdx_append, List.filter_append, List.map_append, Nat.zero_add,
    List.zipIdx_singleton]
  by_cases h : frames.length % size = i
  · simp [h]
  · simp [h]

theorem layered_append (frames : List (List UInt8)) (f : List UInt8) :
    (layered (frames ++ [f]) : Frame n) = (layered frames).overwrite f := by
  simp [layered]

/- For a lap no other frame comes into the slot. -/
theorem inSlot_take {size m : ℕ} (frames : List (List UInt8)) (hm : m < frames.length)
    (hlap : frames.length ≤ m + size) :
    inSlot size frames (m % size) = inSlot size (frames.take (m + 1)) (m % size) := by
  induction hd : frames.length - (m + 1) generalizing frames with
  | zero => rw [List.take_of_length_le (by omega)]
  | succ d ih =>
    obtain ⟨frames, f, rfl⟩ : ∃ init f, frames = init ++ [f] :=
      ⟨_, _, (List.dropLast_append_getLast (List.ne_nil_of_length_pos (by omega))).symm⟩
    simp only [List.length_append, List.length_singleton] at hm hlap hd
    have hother : frames.length % size ≠ m % size := by
      intro heq
      have := Circular.mod_inj (R := m) (N := size) (by omega) (by omega) le_rfl (by omega) heq
      omega
    rw [inSlot_append, if_neg hother, List.append_nil, ih frames (by omega) (by omega) (by omega),
      List.take_append_of_le_length (by omega)]

theorem slotOf_append {size m : ℕ} {frames : List (List UInt8)} (hm : m < frames.length)
    (f : List UInt8) : (slotOf size (frames ++ [f]) m : Frame n) = slotOf size frames m := by
  rw [slotOf, slotOf, List.take_append_of_le_length hm]

/-- Frame number `m` over what earlier frames left in its slot. -/
theorem slotOf_eq {size m : ℕ} {frames : List (List UInt8)} {f : List UInt8}
    (hf : frames[m]? = some f) :
    (slotOf size frames m : Frame n) =
      (layered (inSlot size (frames.take m) (m % size))).overwrite f := by
  have hm : m < frames.length := (List.getElem?_eq_some_iff.mp hf).1
  have htake : frames.take (m + 1) = frames.take m ++ [f] := by
    rw [List.take_add_one, hf]
    rfl
  rw [slotOf, htake, inSlot_append, if_pos (by simp [Nat.min_eq_left hm.le]), layered_append]

/-- The byte at `j` of the last frame that is long enough, 0 if none is. -/
def lastByte (frames : List (List UInt8)) (j : ℕ) : UInt8 :=
  frames.foldl (fun x f => f.getD j x) 0

theorem layered_getD (frames : List (List UInt8)) {j : ℕ} (hj : j < n) :
    (layered frames : Frame n).bytes.getD j 0 = lastByte frames j := by
  have hzero : (Frame.zero : Frame n).bytes.getD j 0 = 0 := by simp [Frame.zero, hj]
  suffices h : ∀ g : Frame n, (frames.foldl Frame.overwrite g).bytes.getD j 0 =
      frames.foldl (fun x f => f.getD j x) (g.bytes.getD j 0) by
    rw [layered, lastByte, h, hzero]
  induction frames with
  | nil => exact fun _ => rfl
  | cons f frames ih =>
    intro g
    rw [List.foldl_cons, List.foldl_cons, ih, Frame.overwrite_getD g f hj]

/-! ### The invariant -/

/-- `R`, `W` and `R'`, `W'` count the frames read from and written to the rings,
of `2 ^ k` and `2 ^ k'` cells. -/
structure Carried (s : System n) (k k' R W R' W' : ℕ) : Prop where
  incoming : Tracks s.capture.ring k R W
  image : Tracks s.imageBuffer k' R' W'
  stored : s.frames.length = W
  slots : ∀ i, s.capture.ring.data i = layered (inSlot (2 ^ k) s.frames i)
  taken : s.taken.length = R
  sources : s.sources.length = W'
  numbers : ∀ m ∈ s.sources, m < R
  cells : ∀ c m : ℕ, R' ≤ c → s.sources[c]? = some m →
    s.imageBuffer.data (c % 2 ^ k') = slotOf (2 ^ k) s.frames m
  handed : ∀ (c : ℕ) (x : Handed n), s.handed[c]? = some x →
    ∃ m, s.sources[c]? = some m ∧ x.image = slotOf (2 ^ k) s.frames m
  count : s.handed.length = R' + if s.nvm = .saved then 1 else 0
  holding : ∀ slot, s.nvm = .holding slot → slot = R' % 2 ^ k' ∧ R' < W'
  saved : s.nvm = .saved → R' < W'

variable {s t : System n} {k k' R W R' W' : ℕ}

theorem sized_carried {SIZE SIZE' : UInt32} (hk : 1 ≤ k) (hk' : 1 ≤ k') (hs : SIZE.toNat = 2 ^ k)
    (hs' : SIZE'.toNat = 2 ^ k') : Carried (System.sized SIZE SIZE' : System n) k k' 0 0 0 0 where
  incoming := init_tracks _ hk hs
  image := init_tracks _ hk' hs'
  stored := rfl
  slots _ := rfl
  taken := rfl
  sources := rfl
  numbers _ h := nomatch h
  cells _ _ _ h := by simp [System.sources, System.sized] at h
  handed _ _ h := by simp [System.sized] at h
  count := rfl
  holding _ h := nomatch h
  saved h := nomatch h

/- A step of the detector or the camera that stores nothing. -/
theorem Carried.events_same (h : Carried s k k' R W R' W') (ht : t = { s with events := t.events })
    (hring : t.capture.ring = s.capture.ring) (hstored : t.capture.stored = s.capture.stored) :
    Carried t k k' R W R' W' := by
  have hframes : t.frames = s.frames := by rw [System.frames, hstored, System.frames]
  have hsources : t.sources = s.sources := by rw [ht]; rfl
  have himage : t.imageBuffer = s.imageBuffer := by rw [ht]
  have htaken : t.taken = s.taken := by rw [ht]
  have hhanded : t.handed = s.handed := by rw [ht]
  have hnvm : t.nvm = s.nvm := by rw [ht]
  constructor
  · exact hring ▸ h.incoming
  · exact himage ▸ h.image
  · exact hframes ▸ h.stored
  · rw [hring, hframes]
    exact h.slots
  · exact htaken ▸ h.taken
  · exact hsources ▸ h.sources
  · rw [hsources]
    exact h.numbers
  · rw [hsources, himage, hframes]
    exact h.cells
  · rw [hhanded, hsources, hframes]
    exact h.handed
  · rw [hhanded, hnvm]
    exact h.count
  · rw [hnvm]
    exact h.holding
  · rw [hnvm]
    exact h.saved

theorem Carried.save (h : Carried s k k' R W R' W') (ht : t = { s with events := t.events })
    {bytes : List UInt8} {image : Frame n} (hlen : bytes.length ≤ n)
    (hroom : s.capture.ring.isFull = false)
    (hring : t.capture.ring = saveFrame bytes s.capture.ring)
    (hstored : t.capture.stored = s.capture.stored ++ [(bytes, image)]) :
    Carried t k k' R (W + 1) R' W' := by
  have hframes : t.frames = s.frames ++ [bytes] := by simp [System.frames, hstored]
  have hsources : t.sources = s.sources := by rw [ht]; rfl
  have himage : t.imageBuffer = s.imageBuffer := by rw [ht]
  have htaken : t.taken = s.taken := by rw [ht]
  have hhanded : t.handed = s.handed := by rw [ht]
  have hnvm : t.nvm = s.nvm := by rw [ht]
  have hold (m : ℕ) (hm : m ∈ s.sources) :
      (slotOf (2 ^ k) t.frames m : Frame n) = slotOf (2 ^ k) s.frames m := by
    rw [hframes, slotOf_append]
    have := h.numbers m hm
    have := h.incoming.le
    have := h.stored
    omega
  constructor
  · rw [hring]
    exact saveFrame_tracks h.incoming hroom bytes
  · exact himage ▸ h.image
  · rw [hframes, List.length_append, h.stored]
    rfl
  · intro i
    have hdata : t.capture.ring.data =
        memcpy s.capture.ring.data s.capture.ring.writePtr.toNat bytes := by
      rw [hring]
      rfl
    rw [hdata, memcpy_of_fits _ _ hlen, hframes, inSlot_append, h.stored, h.incoming.write]
    by_cases hi : i = W % 2 ^ k
    · subst hi
      rw [Function.update_self, if_pos rfl, layered_append, h.slots]
    · rw [Function.update_of_ne hi, if_neg (Ne.symm hi), List.append_nil, h.slots]
  · exact htaken ▸ h.taken
  · exact hsources ▸ h.sources
  · rw [hsources]
    exact h.numbers
  · intro c m hc hm
    rw [hsources] at hm
    rw [himage, hold m (List.mem_of_getElem? hm)]
    exact h.cells c m hc hm
  · intro c x hx
    rw [hhanded] at hx
    obtain ⟨m, hm, heq⟩ := h.handed c x hx
    rw [hsources]
    exact ⟨m, hm, heq.trans (hold m (List.mem_of_getElem? hm)).symm⟩
  · rw [hhanded, hnvm]
    exact h.count
  · rw [hnvm]
    exact h.holding
  · rw [hnvm]
    exact h.saved

/- The slot of the oldest queued frame is not used again before it is freed. -/
theorem Carried.slot (h : Carried s k k' R W R' W') (hlt : R < W) :
    s.capture.ring.data (R % 2 ^ k) = slotOf (2 ^ k) s.frames R := by
  have hroom := h.incoming.room
  have hstored := h.stored
  rw [h.slots, slotOf, inSlot_take s.frames (by omega) (by omega)]

theorem sources_append {x : Frame n × ℕ} (htaken : t.taken = s.taken ++ [x])
    (hsize : t.imageBuffer.size = s.imageBuffer.size) :
    t.sources =
      s.sources ++ if x.2 ≠ s.imageBuffer.size.toNat - 1 then [s.taken.length] else [] := by
  simp only [System.sources, htaken, hsize, List.zipIdx_append, List.filter_append,
    List.map_append, Nat.zero_add, List.zipIdx_singleton]
  by_cases h : x.2 = s.imageBuffer.size.toNat - 1
  · simp [h]
  · simp [h]

/- A frame goes into the image buffer. -/
theorem Carried.take (h : Carried s k k' R W R' W') (hlt : R < W) (hroom : W' + 1 < R' + 2 ^ k')
    (hring : t.capture.ring = s.capture.ring.incReadptr)
    (hstored : t.capture.stored = s.capture.stored)
    (himage : t.imageBuffer = s.imageBuffer.write (s.capture.ring.data (R % 2 ^ k)))
    (htaken : t.taken =
      s.taken ++ [(s.capture.ring.data (R % 2 ^ k), s.imageBuffer.getlen.toNat)])
    (hnvm : t.nvm = s.nvm) (hhanded : t.handed = s.handed) :
    Carried t k k' (R + 1) W R' (W' + 1) := by
  have hle := h.image.le
  have hframes : t.frames = s.frames := by rw [System.frames, hstored, System.frames]
  have hlen : s.imageBuffer.getlen.toNat ≠ s.imageBuffer.size.toNat - 1 := by
    rw [h.image.getlen, h.image.size]
    omega
  have hsources : t.sources = s.sources ++ [R] := by
    have hsize : t.imageBuffer.size = s.imageBuffer.size := by
      rw [himage]
      rfl
    rw [sources_append htaken hsize, if_pos hlen, h.taken]
  have hbelow (c m : ℕ) (hm : s.sources[c]? = some m) : c < W' := by
    rw [← h.sources]
    exact (List.getElem?_eq_some_iff.mp hm).1
  constructor
  · rw [hring]
    exact h.incoming.incReadptr hlt
  · rw [himage]
    exact (imagebufferWrite_room h.image hroom _).2.1
  · rw [hframes]
    exact h.stored
  · rw [hring, hframes]
    exact h.slots
  · rw [htaken, List.length_append, h.taken]
    rfl
  · rw [hsources, List.length_append, h.sources]
    rfl
  · intro m hm
    rw [hsources] at hm
    rcases List.mem_append.mp hm with hm | hm
    · exact Nat.lt_succ_of_lt (h.numbers m hm)
    · rw [List.mem_singleton.mp hm]
      exact Nat.lt_succ_self R
  · intro c m hc hm
    have hdata : t.imageBuffer.data = Function.update s.imageBuffer.data (W' % 2 ^ k')
        (s.capture.ring.data (R % 2 ^ k)) := by
      rw [himage, ← h.image.write]
      rfl
    rw [hdata, hframes]
    rw [hsources] at hm
    rcases Nat.lt_or_ge c W' with hlt' | hge
    · rw [List.getElem?_append_left (by rw [h.sources]; exact hlt')] at hm
      rw [Function.update_of_ne, h.cells c m hc hm]
      intro heq
      have := Circular.mod_inj hc (by omega) hle h.image.room heq
      omega
    · rw [List.getElem?_append_right (by rw [h.sources]; exact hge), h.sources] at hm
      obtain ⟨hzero, hm⟩ := List.getElem?_eq_some_iff.mp hm
      simp only [List.length_singleton] at hzero
      obtain rfl : c = W' := by omega
      simp only [Nat.sub_self, List.getElem_cons_zero] at hm
      rw [Function.update_self, h.slot hlt, hm]
  · intro c x hx
    rw [hhanded] at hx
    obtain ⟨m, hm, heq⟩ := h.handed c x hx
    refine ⟨m, ?_, by rw [hframes]; exact heq⟩
    rw [hsources, List.getElem?_append_left (by rw [h.sources]; exact hbelow c m hm), hm]
  · rw [hhanded, hnvm]
    exact h.count
  · intro slot hslot
    obtain ⟨heq, hlt'⟩ := h.holding slot (hnvm.symm.trans hslot)
    exact ⟨heq, by omega⟩
  · intro hs
    have := h.saved (hnvm.symm.trans hs)
    omega

/- The image buffer is full, and the frame is lost. -/
theorem Carried.lose (h : Carried s k k' R W R' W') (hlt : R < W) (hfull : W' + 1 = R' + 2 ^ k')
    (ht : t = { s.setCapture { s.capture with ring := s.capture.ring.incReadptr } with
      taken := s.taken ++ [(s.capture.ring.data (R % 2 ^ k), s.imageBuffer.getlen.toNat)] }) :
    Carried t k k' (R + 1) W R' W' := by
  have hle := h.image.le
  have hlen : s.imageBuffer.getlen.toNat = s.imageBuffer.size.toNat - 1 := by
    rw [h.image.getlen, h.image.size]
    omega
  have htaken : t.taken =
      s.taken ++ [(s.capture.ring.data (R % 2 ^ k), s.imageBuffer.getlen.toNat)] := by rw [ht]
  have hsources : t.sources = s.sources := by
    rw [sources_append htaken (by rw [ht]; rfl), if_neg (not_not_intro hlen), List.append_nil]
  subst ht
  refine { h with
    incoming := h.incoming.incReadptr hlt
    taken := ?_
    sources := ?_
    numbers := ?_
    cells := ?_
    handed := ?_ }
  · rw [htaken, List.length_append, h.taken]
    rfl
  · rw [hsources]
    exact h.sources
  · rw [hsources]
    exact fun m hm => Nat.lt_succ_of_lt (h.numbers m hm)
  · rw [hsources]
    exact h.cells
  · rw [hsources]
    exact h.handed

theorem Carried.processFrames {rgbFrame : Frame n} (h : Carried s k k' R W R' W')
    (ht : step lut s (.processFrames rgbFrame) = some t) :
    ∃ R W', Carried t k k' R W R' W' := by
  simp only [step, takenFrame_eq h.incoming, Option.some.injEq] at ht
  subst ht
  by_cases hlt : R < W
  · rw [processFrames_of_lt lut rgbFrame h.incoming hlt, if_pos hlt]
    rcases Nat.lt_or_ge (W' + 1) (R' + 2 ^ k') with hroom | hfull
    · obtain ⟨hwrite, -, -⟩ :=
        imagebufferWrite_room h.image hroom (s.capture.ring.data (R % 2 ^ k))
      rw [hwrite]
      exact ⟨R + 1, W' + 1, h.take hlt hroom rfl rfl rfl rfl rfl rfl⟩
    · have hfull : W' + 1 = R' + 2 ^ k' := Nat.le_antisymm h.image.room hfull
      rw [imagebufferWrite_full h.image hfull]
      exact ⟨R + 1, W', h.lose hlt hfull rfl⟩
  · obtain rfl : R = W := Nat.le_antisymm h.incoming.le (Nat.le_of_not_lt hlt)
    rw [processFrames_of_eq lut rgbFrame h.incoming, if_neg hlt]
    simp only [Option.toList_none, List.map_nil, List.append_nil]
    exact ⟨R, W', h⟩

theorem Carried.startread (h : Carried s k k' R W R' W') (ht : step lut s .startread = some t) :
    Carried t k k' R W R' W' := by
  obtain ⟨hs, rfl | ⟨slot, hread, rfl⟩⟩ := startread_step ht
  · exact h
  · have hcount := h.count
    rw [hs, if_neg nofun] at hcount
    rw [imagebufferStartread_eq h.image] at hread
    split at hread
    · next hlt =>
      cases hread
      refine { h with
        count := ?_
        holding := ?_
        saved := nofun }
      · rw [hcount, if_neg nofun]
      · intro slot hslot
        cases hslot
        exact ⟨rfl, hlt⟩
    · cases hread

theorem Carried.imageSave {calls : SaveCalls} (h : Carried s k k' R W R' W')
    (ht : step lut s (.imageSave calls) = some t) : Carried t k k' R W R' W' := by
  obtain ⟨slot, result, fd, sends, hs, -, rfl⟩ := imageSave_step ht
  obtain ⟨rfl, hlt⟩ := h.holding slot hs
  have hcount := h.count
  rw [hs, if_neg nofun, Nat.add_zero] at hcount
  refine { h with
    handed := ?_
    count := ?_
    holding := nofun
    saved := fun _ => hlt }
  · intro c x hx
    rcases Nat.lt_trichotomy c s.handed.length with hc | hc | hc
    · rw [List.getElem?_append_left hc] at hx
      exact h.handed c x hx
    · subst hc
      simp only [List.getElem?_concat_length, Option.some.injEq] at hx
      subst hx
      have hsource : R' < s.sources.length := by
        rw [h.sources]
        exact hlt
      refine ⟨s.sources[R'], ?_, ?_⟩
      · show s.sources[s.handed.length]? = _
        rw [hcount]
        exact List.getElem?_eq_getElem hsource
      · exact h.cells R' _ le_rfl (List.getElem?_eq_getElem hsource)
    · rw [List.getElem?_eq_none (by simp; omega)] at hx
      cases hx
  · simp [hcount]

theorem Carried.endread (h : Carried s k k' R W R' W') (ht : step lut s .endread = some t) :
    ∃ R', Carried t k k' R W R' W' := by
  obtain ⟨hs, rfl⟩ := endread_step ht
  have hlt := h.saved hs
  have hcount := h.count
  rw [hs, if_pos rfl] at hcount
  rw [imagebufferEndread_of_lt h.image hlt]
  refine ⟨R' + 1, { h with
    image := h.image.incReadptr hlt
    cells := ?_
    count := ?_
    holding := nofun
    saved := nofun }⟩
  · intro c m hc hm
    exact h.cells c m (Nat.le_of_succ_le hc) hm
  · rw [if_neg nofun]
    exact hcount

theorem Carried.events {a : Events.Act Capture} (h : Carried s k k' R W R' W')
    (ht : step lut s (.events a) = some t) (hshort : Short t) : ∃ W, Carried t k k' R W R' W' := by
  obtain ⟨hsame, heffect⟩ := events_effect ht
  cases heffect with
  | same none store => exact ⟨W, h.events_same hsame (by rw [store]) (by rw [store])⟩
  | saved io act stores store =>
    have hlen : io.bytes.length ≤ n :=
      hshort (io.bytes, slotImage s.capture.ring io.bytes) (by simp [store])
    exact ⟨W + 1, h.save hsame hlen stores.2.2.2.2 (by rw [store]) (by rw [store])⟩
  | dropped full store => exact ⟨W, h.events_same hsame (by rw [store]) (by rw [store])⟩

theorem step_carried {a : Act n} (h : ∃ R W R' W', Carried s k k' R W R' W')
    (ht : step lut s a = some t) (hshort : Short t) : ∃ R W R' W', Carried t k k' R W R' W' := by
  obtain ⟨R, W, R', W', h⟩ := h
  cases a with
  | events a =>
    obtain ⟨W, h⟩ := h.events ht hshort
    exact ⟨R, W, R', W', h⟩
  | processFrames rgbFrame =>
    obtain ⟨R, W', h⟩ := h.processFrames ht
    exact ⟨R, W, R', W', h⟩
  | startread => exact ⟨R, W, R', W', h.startread ht⟩
  | imageSave calls => exact ⟨R, W, R', W', h.imageSave ht⟩
  | endread =>
    obtain ⟨R', h⟩ := h.endread ht
    exact ⟨R, W, R', W', h⟩

theorem Short.of_step {a : Act n} (ht : step lut s a = some t) (h : Short t) : Short s :=
  fun f hf => h f ((stored_extends ht).subset hf)

theorem reachable_carried {SIZE SIZE' : UInt32} (hk : 1 ≤ k) (hk' : 1 ≤ k')
    (hs : SIZE.toNat = 2 ^ k) (hs' : SIZE'.toNat = 2 ^ k') {acts : List (Act n)}
    (hr : run (step lut) (.sized SIZE SIZE') acts = some s) (hshort : Short s) :
    ∃ R W R' W', Carried s k k' R W R' W' := by
  have hinv := run_inv
    (fun s : System n => Short s → ∃ R W R' W', Carried s k k' R W R' W')
    (fun _ _ _ h ht hshort => step_carried (h (hshort.of_step ht)) ht hshort)
    (fun _ => ⟨0, 0, 0, 0, sized_carried hk hk' hs hs'⟩) hr
  exact hinv hshort

end Pipeline

end MotionDetector
