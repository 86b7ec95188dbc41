import MotionDetector.Pipeline.System

/-!
# Conservation of frames

What was appended to the incoming ring is what was taken from it and what it
still holds, and what was taken while the image buffer had room is what was
handed to `image_save` and what is still to be handed. The copy into a slot is
not bounded by the slot, so this rests on the copies fitting.
-/

namespace MotionDetector.Pipeline

open Transition RingBuffer

variable {n : ℕ} {lut : ColorLut}

/-- A frame that is saved stays clear of the queued frames and inside the ring. -/
def StoreFits (s : System n) : Act n → Prop
  | .events (.camera io) => Stores s io → CopyFits s.capture.ring io.bytes
  | _ => True

/-- A frame that is saved ends inside the ring's storage. Behind it lies other static
data of the program, such as the indices of the ring and the mapped buffers; the model
has cells there that no index reaches. -/
def StoreInside (s : System n) : Act n → Prop
  | .events (.camera io) => Stores s io →
      s.capture.ring.writePtr.toNat * n + io.bytes.length ≤ s.capture.ring.size.toNat * n
  | _ => True

instance (s : System n) (io : Capture) : Decidable (Stores s io) :=
  inferInstanceAs (Decidable (_ ∧ _))

instance (s : System n) (a : Act n) : Decidable (StoreInside s a) :=
  match a with
  | .events (.camera _) => inferInstanceAs (Decidable (_ → _))
  | .events (.detection _) => isTrue trivial
  | .processFrames _ => isTrue trivial
  | .startread => isTrue trivial
  | .imageSave _ => isTrue trivial
  | .endread => isTrue trivial

/-- A run whose copies all stay inside the storage. -/
structure InsideRun (lut : ColorLut) (acts : List (Act n)) (s : System n) : Prop where
  ran : run (step lut) .init acts = some s
  inside : Along (step lut) StoreInside .init acts

/- Where the nvm task is, against the image buffer. -/
def NvmOk (s : System n) (R W : ℕ) : Prop :=
  match s.nvm with
  | .idle => True
  | .holding save_frame => save_frame = R % 2 ^ 8 ∧ R < W
  | .saved => R < W ∧ s.handed.getLast?.map Handed.image = s.imageBuffer.contents.head?

/-- `R`, `W` count the frames taken from and appended to the incoming ring and
`R'`, `W'` those of the image buffer. -/
structure Flow (s : System n) (R W R' W' : ℕ) : Prop where
  incoming : Tracks s.capture.ring 7 R W
  image : Tracks s.imageBuffer 8 R' W'
  appended : s.appended = s.taken.map Prod.fst ++ s.capture.ring.contents
  kept : s.kept = s.handed.map Handed.image ++ s.pending
  nvm : NvmOk s R' W'
  dropped : ∀ len ∈ s.capture.dropped, len = 127
  takes : s.taken.length = R

theorem init_flow : Flow (System.init : System n) 0 0 0 0 := by
  have hin : Tracks (RingBuffer.init (fun _ => (Frame.zero : Frame n)) 128) 7 0 0 :=
    init_tracks _ (by decide) (by decide)
  have him : Tracks (RingBuffer.init (fun _ => (Frame.zero : Frame n)) 256) 8 0 0 :=
    init_tracks _ (by decide) (by decide)
  refine ⟨hin, him, ?_, ?_, trivial, ?_, rfl⟩
  · exact (init_contents _ _).symm
  · exact (init_contents _ _).symm
  · intro len hlen
    cases hlen

/- A step of the detector or the camera changes the capture store only. -/
theorem Flow.of_capture {s t : System n} {R W W₁ R' W' : ℕ} (h : Flow s R W R' W')
    (ht : t = { s with events := t.events }) (hin : Tracks t.capture.ring 7 R W₁)
    (happended : t.appended = s.taken.map Prod.fst ++ t.capture.ring.contents)
    (hdropped : ∀ len ∈ t.capture.dropped, len = 127) : Flow t R W₁ R' W' := by
  have htaken : t.taken = s.taken := by rw [ht]
  have himage : t.imageBuffer = s.imageBuffer := by rw [ht]
  have hkept : t.kept = s.kept := by rw [ht]; rfl
  have hpending : t.pending = s.pending := by rw [ht]; rfl
  have hhanded : t.handed = s.handed := by rw [ht]
  have hnvm : NvmOk t R' W' := by
    rw [ht]
    exact h.nvm
  refine ⟨hin, ?_, ?_, ?_, hnvm, hdropped, ?_⟩
  · rw [himage]
    exact h.image
  · rw [htaken]
    exact happended
  · rw [hkept, hhanded, hpending]
    exact h.kept
  · rw [htaken]
    exact h.takes

theorem Flow.events {s t : System n} {R W R' W' : ℕ} {a : Events.Act Capture}
    (h : Flow s R W R' W') (hfits : StoreFits s (.events a))
    (ht : step lut s (.events a) = some t) : ∃ W, Flow t R W R' W' := by
  obtain ⟨hsame, heffect⟩ := events_effect ht
  cases heffect with
  | same none store =>
    have happended : t.appended = s.appended := by rw [System.appended, store, System.appended]
    refine ⟨W, h.of_capture hsame ?_ ?_ ?_⟩
    · rw [store]
      exact h.incoming
    · rw [happended, store]
      exact h.appended
    · rw [store]
      exact h.dropped
  | saved io act stores store =>
    subst act
    have hroom := stores.2.2.2.2
    have happended : t.appended = s.appended ++ [slotImage s.capture.ring io.bytes] := by
      simp [System.appended, store]
    refine ⟨W + 1, h.of_capture hsame ?_ ?_ ?_⟩
    · rw [store]
      exact saveFrame_tracks h.incoming hroom io.bytes
    · rw [happended, store, saveFrame_contents h.incoming hroom (hfits stores),
        ← List.append_assoc, ← h.appended]
    · rw [store]
      exact h.dropped
  | dropped full store =>
    have hlen : s.capture.ring.getlen.toNat = 127 := by
      have hfull := h.incoming.isFull.mp full
      rw [h.incoming.getlen]
      omega
    have happended : t.appended = s.appended := by rw [System.appended, store, System.appended]
    refine ⟨W, h.of_capture hsame ?_ ?_ ?_⟩
    · rw [store]
      exact h.incoming
    · rw [happended, store]
      exact h.appended
    · rw [store]
      intro len hmem
      rcases List.mem_append.mp hmem with hmem | hmem
      · exact h.dropped len hmem
      · rw [List.mem_singleton.mp hmem, hlen]

theorem pending_append {s t : System n} {R W : ℕ} {frame : Frame n}
    (himage : Tracks s.imageBuffer 8 R W)
    (hnvm : NvmOk s R W) (hpc : t.nvm = s.nvm)
    (hcontents : t.imageBuffer.contents = s.imageBuffer.contents ++ [frame]) :
    t.pending = s.pending ++ [frame] := by
  unfold System.pending
  rw [hpc, hcontents]
  cases hs : s.nvm with
  | idle => rfl
  | holding slot => rfl
  | saved =>
    simp only [NvmOk, hs] at hnvm
    have hne : s.imageBuffer.contents ≠ [] := by
      apply List.ne_nil_of_length_pos
      rw [himage.contents_length]
      omega
    exact List.tail_append_of_ne_nil hne

theorem kept_append {s t : System n} {R W : ℕ} {frame : Frame n}
    (himage : Tracks s.imageBuffer 8 R W) (hnvm : NvmOk s R W)
    (hs : s.kept = s.handed.map Handed.image ++ s.pending) (hpc : t.nvm = s.nvm)
    (hhanded : t.handed = s.handed)
    (hcontents : t.imageBuffer.contents = s.imageBuffer.contents ++ [frame])
    (hkept : t.kept = s.kept ++ [frame]) :
    t.kept = t.handed.map Handed.image ++ t.pending := by
  rw [pending_append himage hnvm hpc hcontents, hkept, hs, hhanded, List.append_assoc]

theorem nvmOk_append {s t : System n} {R W : ℕ} {frame : Frame n}
    (himage : Tracks s.imageBuffer 8 R W)
    (hnvm : NvmOk s R W) (hpc : t.nvm = s.nvm) (hhanded : t.handed = s.handed)
    (hcontents : t.imageBuffer.contents = s.imageBuffer.contents ++ [frame]) :
    NvmOk t R (W + 1) := by
  unfold NvmOk at hnvm ⊢
  rw [hpc]
  cases hs : s.nvm with
  | idle => trivial
  | holding slot =>
    simp only [hs] at hnvm ⊢
    exact ⟨hnvm.1, by omega⟩
  | saved =>
    simp only [hs] at hnvm ⊢
    have hne : s.imageBuffer.contents ≠ [] := by
      apply List.ne_nil_of_length_pos
      rw [himage.contents_length]
      omega
    refine ⟨by omega, ?_⟩
    rw [hhanded, hcontents, hnvm.2, List.head?_append_of_ne_nil _ hne]

theorem Flow.processFrames {s t : System n} {R W R' W' : ℕ} {rgbFrame : Frame n}
    (h : Flow s R W R' W') (ht : step lut s (.processFrames rgbFrame) = some t) :
    ∃ R W', Flow t R W R' W' := by
  simp only [step, takenFrame_eq h.incoming, Option.some.injEq] at ht
  subst ht
  by_cases hlt : R < W
  · rw [processFrames_of_lt lut rgbFrame h.incoming hlt, if_pos hlt]
    have hcontents := h.incoming.contents_incReadptr hlt
    have happended : s.appended = (s.taken ++ [(s.capture.ring.data (R % 2 ^ 7),
        s.imageBuffer.getlen.toNat)]).map Prod.fst ++ s.capture.ring.incReadptr.contents := by
      rw [h.appended, hcontents, List.map_append, List.append_assoc]
      rfl
    have hlen := h.image.getlen
    rcases Nat.lt_or_ge (W' + 1) (R' + 2 ^ 8) with hroom | hfull
    · obtain ⟨hwrite, htracks, himage⟩ :=
        imagebufferWrite_room h.image hroom (s.capture.ring.data (R % 2 ^ 7))
      rw [hwrite]
      have hne : W' - R' ≠ 255 := by
        have := h.image.le
        omega
      refine ⟨R + 1, W' + 1, h.incoming.incReadptr hlt, htracks, happended,
        kept_append h.image h.nvm h.kept rfl rfl himage ?_,
        nvmOk_append h.image h.nvm rfl rfl himage, h.dropped, by simp [h.takes]⟩
      simp [System.kept, List.filter_append, hlen, hne]
    · have hfull : W' + 1 = R' + 2 ^ 8 := Nat.le_antisymm h.image.room hfull
      rw [imagebufferWrite_full h.image hfull]
      have heq : W' - R' = 255 := by
        have := h.image.le
        omega
      refine ⟨R + 1, W', h.incoming.incReadptr hlt, h.image, happended, ?_, h.nvm, h.dropped,
        by simp [h.takes]⟩
      show _ = s.handed.map Handed.image ++ s.pending
      rw [← h.kept]
      simp [System.kept, List.filter_append, hlen, heq]
  · obtain rfl : R = W := Nat.le_antisymm h.incoming.le (Nat.le_of_not_lt hlt)
    rw [processFrames_of_eq lut rgbFrame h.incoming, if_neg hlt]
    simp only [Option.toList_none, List.map_nil, List.append_nil]
    exact ⟨R, W', h⟩

theorem Flow.startread {s t : System n} {R W R' W' : ℕ} (h : Flow s R W R' W')
    (ht : step lut s .startread = some t) : Flow t R W R' W' := by
  obtain ⟨hs, rfl | ⟨slot, hread, rfl⟩⟩ := startread_step ht
  · exact h
  · have hkept := h.kept
    rw [System.pending, hs] at hkept
    rw [imagebufferStartread_eq h.image] at hread
    split at hread
    · next hlt =>
      cases hread
      exact ⟨h.incoming, h.image, h.appended, hkept, ⟨rfl, hlt⟩, h.dropped, h.takes⟩
    · cases hread

theorem Flow.imageSave {s t : System n} {R W R' W' : ℕ} {calls : SaveCalls}
    (h : Flow s R W R' W') (ht : step lut s (.imageSave calls) = some t) : Flow t R W R' W' := by
  obtain ⟨slot, result, fd, sends, hs, -, rfl⟩ := imageSave_step ht
  have hnvm := h.nvm
  simp only [NvmOk, hs] at hnvm
  obtain ⟨rfl, hlt⟩ := hnvm
  have hcontents := h.image.contents_incReadptr hlt
  have hkept := h.kept
  rw [System.pending, hs] at hkept
  refine ⟨h.incoming, h.image, h.appended, ?_, ⟨hlt, ?_⟩, h.dropped, h.takes⟩
  · show s.kept = (s.handed ++ [_]).map Handed.image ++ s.imageBuffer.contents.tail
    rw [hkept, hcontents, List.map_append, List.append_assoc]
    rfl
  · rw [hcontents]
    simp

theorem Flow.endread {s t : System n} {R W R' W' : ℕ} (h : Flow s R W R' W')
    (ht : step lut s .endread = some t) : ∃ R', Flow t R W R' W' := by
  obtain ⟨hs, rfl⟩ := endread_step ht
  have hnvm := h.nvm
  simp only [NvmOk, hs] at hnvm
  rw [imagebufferEndread_of_lt h.image hnvm.1]
  have hkept := h.kept
  rw [System.pending, hs, h.image.contents_incReadptr hnvm.1] at hkept
  exact ⟨R' + 1, h.incoming, h.image.incReadptr hnvm.1, h.appended, hkept, trivial,
    h.dropped, h.takes⟩

theorem step_flow {s t : System n} {a : Act n} (h : ∃ R W R' W', Flow s R W R' W')
    (hfits : StoreFits s a) (ht : step lut s a = some t) : ∃ R W R' W', Flow t R W R' W' := by
  obtain ⟨R, W, R', W', h⟩ := h
  cases a with
  | events a =>
    obtain ⟨W, h⟩ := h.events hfits ht
    exact ⟨R, W, R', W', h⟩
  | processFrames rgbFrame =>
    obtain ⟨R, W', h⟩ := h.processFrames ht
    exact ⟨R, W, R', W', h⟩
  | startread => exact ⟨R, W, R', W', h.startread ht⟩
  | imageSave calls => exact ⟨R, W, R', W', h.imageSave ht⟩
  | endread =>
    obtain ⟨R', h⟩ := h.endread ht
    exact ⟨R, W, R', W', h⟩

theorem reachable_flow {acts : List (Act n)} {s : System n}
    (hfits : Along (step lut) StoreFits .init acts) (hr : run (step lut) .init acts = some s) :
    ∃ R W R' W', Flow s R W R' W' :=
  run_inv_along (fun s => ∃ R W R' W', Flow s R W R' W') (fun _ _ _ h hf ht => step_flow h hf ht)
    ⟨0, 0, 0, 0, init_flow⟩ hfits hr

theorem Flow.handed_sublist {s : System n} {R W R' W' : ℕ} (h : Flow s R W R' W') :
    (s.handed.map Handed.image).Sublist s.appended := by
  have hkept : (s.handed.map Handed.image).Sublist s.kept := by
    rw [h.kept]
    exact List.sublist_append_left _ _
  have htaken : s.kept.Sublist (s.taken.map Prod.fst) := List.filter_sublist.map _
  rw [h.appended]
  exact (hkept.trans htaken).trans (List.sublist_append_left _ _)

/-! ### Frames that fit their slot -/

theorem stored_extends {s t : System n} {a : Act n} (ht : step lut s a = some t) :
    s.capture.stored <+: t.capture.stored := by
  rcases step_stored ht with ⟨-, h, -⟩ | ⟨io, -, -, h, -⟩
  · exact h ▸ List.prefix_rfl
  · rw [h]
    exact List.prefix_append _ _

theorem run_stored_extends {s t : System n} {acts : List (Act n)}
    (hr : run (step lut) s acts = some t) : s.capture.stored <+: t.capture.stored :=
  run_inv (fun t => s.capture.stored <+: t.capture.stored)
    (fun _ _ _ h ht => h.trans (stored_extends ht)) List.prefix_rfl hr

def Short (s : System n) : Prop := ∀ f ∈ s.capture.stored, f.1.length ≤ n

theorem short_of_acts {acts : List (Act n)} {s : System n}
    (hr : run (step lut) .init acts = some s)
    (hacts : ∀ io, .events (.camera io) ∈ acts → io.bytes.length ≤ n) : Short s := by
  have hgood : ∀ a ∈ acts, ∀ io, a = .events (.camera io) → io.bytes.length ≤ n :=
    fun a ha io heq => hacts io (heq ▸ ha)
  refine run_inv_along Short (fun s a t hs ha ht f hf => ?_) (fun f hf => by cases hf)
    (along_of_forall hgood .init) hr
  rcases step_stored ht with ⟨-, hstored, -⟩ | ⟨io, hio, -, hstored, -⟩
  · rw [hstored] at hf
    exact hs f hf
  · rw [hstored] at hf
    rcases List.mem_append.mp hf with hf | hf
    · exact hs f hf
    · rw [List.mem_singleton.mp hf]
      exact ha io hio

theorem storeFits_of_short {s t : System n} {a : Act n} (h : ∃ R W R' W', Flow s R W R' W')
    (ht : step lut s a = some t) (hshort : Short t) : StoreFits s a := by
  obtain ⟨R, W, R', W', h⟩ := h
  cases a with
  | events a =>
    cases a with
    | detection r => trivial
    | camera io =>
      intro stores
      apply copyFits_of_length h.incoming
      rcases step_stored ht with ⟨hno, -⟩ | ⟨io', hio, -, hstored, -⟩
      · exact absurd stores (hno io rfl)
      · cases hio
        exact hshort (io.bytes, slotImage s.capture.ring io.bytes) (by simp [hstored])
  | processFrames rgbFrame => trivial
  | startread => trivial
  | imageSave calls => trivial
  | endread => trivial

/- With short frames only, every step of a run copies inside its slot. -/
theorem along_storeFits {s t : System n} {acts : List (Act n)}
    (h : ∃ R W R' W', Flow s R W R' W') (hr : run (step lut) s acts = some t) (hshort : Short t) :
    Along (step lut) StoreFits s acts := by
  induction acts generalizing s with
  | nil => trivial
  | cons a acts ih =>
    obtain ⟨m, hm, hrest⟩ := Option.bind_eq_some_iff.mp hr
    have hshort' : Short m := fun f hf => hshort f ((run_stored_extends hrest).subset hf)
    have hfits := storeFits_of_short h hm hshort'
    refine ⟨hfits, fun u hu => ?_⟩
    obtain rfl : m = u := Option.some.inj (hm.symm.trans hu)
    exact ih (step_flow h hfits hm) hrest

theorem reachable_storeFits {acts : List (Act n)} {s : System n}
    (hr : run (step lut) .init acts = some s) (hshort : Short s) :
    Along (step lut) StoreFits .init acts :=
  along_storeFits ⟨0, 0, 0, 0, init_flow⟩ hr hshort

theorem stored_carries {acts : List (Act n)} {s : System n}
    (hr : run (step lut) .init acts = some s) :
    ∀ f ∈ s.capture.stored, f.1.length ≤ n → f.1 <+: f.2.bytes := by
  let Inv (s : System n) : Prop := ∀ f ∈ s.capture.stored, f.1.length ≤ n → f.1 <+: f.2.bytes
  refine run_inv Inv ?_ (fun f hf => by cases hf) hr
  intro s a t hs ht f hf hlen
  rcases step_stored ht with ⟨-, hstored, -⟩ | ⟨io, -, -, hstored, -⟩
  · rw [hstored] at hf
    exact hs f hf hlen
  · rw [hstored] at hf
    rcases List.mem_append.mp hf with hf | hf
    · exact hs f hf hlen
    · obtain rfl := List.mem_singleton.mp hf
      exact Frame.prefix_overwrite _ hlen

/-- As long as the copies fit, no frame is lost, repeated or reordered between
capture and stream, and frames are dropped at the two full rings only. -/
theorem pipeline_conserved (lut : ColorLut) (acts : List (Act n)) (s : System n)
    (hfits : Along (step lut) StoreFits .init acts) (hr : run (step lut) .init acts = some s) :
    s.appended = s.taken.map Prod.fst ++ s.capture.ring.contents ∧
    (s.taken.filter fun t => t.2 ≠ 255).map Prod.fst =
      s.handed.map Handed.image ++ s.pending ∧
    (s.nvm ≠ .saved → s.pending = s.imageBuffer.contents) ∧
    (s.nvm = .saved →
      s.handed.getLast?.map Handed.image = s.imageBuffer.contents.head? ∧
        s.pending = s.imageBuffer.contents.tail) ∧
    (s.handed.map Handed.image).Sublist s.appended ∧
    ∀ len ∈ s.capture.dropped, len = 127 := by
  obtain ⟨R, W, R', W', h⟩ := reachable_flow hfits hr
  refine ⟨h.appended, h.kept, fun hne => ?_, fun hs => ⟨?_, ?_⟩, h.handed_sublist, h.dropped⟩
  · unfold System.pending
    cases hs : s.nvm with
    | idle => rfl
    | holding slot => rfl
    | saved => exact absurd hs hne
  · have hnvm := h.nvm
    simp only [NvmOk, hs] at hnvm
    exact hnvm.2
  · rw [System.pending, hs]

def flatLut : ColorLut := ⟨32768, fun _ => 0, fun _ => 0, fun _ => 0, fun _ => 0, fun _ => 0⟩

def dequeues (n : ℕ) (bytes : List UInt8) : Act n := .events (.camera ⟨0, 0, bytes, 0⟩)

def motion (n : ℕ) : Act n := .events (.detection ⟨1, ⟨0, 0⟩⟩)

def shortFrame : List UInt8 := [0xFF, 0xD8, 0xFF, 0xD9]

theorem eq_shortFrame {s : System n} {k : ℕ} {f : List UInt8 × Frame n}
    (h : s.capture.stored.map Prod.fst = List.replicate k shortFrame)
    (hf : f ∈ s.capture.stored) : f.1 = shortFrame := by
  apply List.eq_of_mem_replicate
  rw [← h]
  exact List.mem_map_of_mem hf

theorem short_of_stored {s : System n} (hn : 4 ≤ n) {k : ℕ}
    (h : s.capture.stored.map Prod.fst = List.replicate k shortFrame) : Short s := by
  intro f hf
  rw [eq_shortFrame h hf]
  exact hn

def oneFrame : List (Act 5) :=
  [motion 5, dequeues 5 shortFrame, .processFrames .zero, .startread, .imageSave ⟨3, [5]⟩]

theorem pipeline_conserved_oneFrame :
    ∃ s, run (step flatLut) .init oneFrame = some s ∧ s.nvm = .saved ∧
      s.handed.map Handed.image ++ s.imageBuffer.contents.tail =
        [⟨[0xFF, 0xD8, 0xFF, 0xD9, 0], rfl⟩] := by
  have hfinal : (run (step flatLut) .init oneFrame).map
      (fun s => ((s.nvm, s.taken), s.capture.stored.map Prod.fst)) =
      some ((.saved, [(⟨[0xFF, 0xD8, 0xFF, 0xD9, 0], rfl⟩, 0)]), [shortFrame]) := by
    decide +kernel
  obtain ⟨s, hs, hvalues⟩ := Option.map_eq_some_iff.mp hfinal
  simp only [Prod.mk.injEq] at hvalues
  obtain ⟨⟨hnvm, htaken⟩, hstored⟩ := hvalues
  have hshort : Short s := short_of_stored (by decide) (k := 1) hstored
  have h := pipeline_conserved flatLut oneFrame s (reachable_storeFits hs hshort) hs
  refine ⟨s, hs, hnvm, ?_⟩
  rw [← (h.2.2.2.1 hnvm).2, ← h.2.1, htaken]
  rfl

/-- 126 frames are queued from slot 2 on and the next slot to write is slot 0. -/
def nearlyFull : List (Act FRAME_SIZE) :=
  motion _ :: List.replicate 127 (dequeues _ shortFrame) ++
    [.processFrames .zero, .processFrames .zero, dequeues _ shortFrame]

def longFrame : List UInt8 := [0xFF, 0xD8] ++ List.replicate (2 * FRAME_SIZE - 1) 0

theorem nearlyFull_state :
    ∃ s, run (step flatLut) .init nearlyFull = some s ∧ (∃ R' W', Flow s 2 128 R' W') ∧
      s.capture.stored.map Prod.fst = List.replicate 128 shortFrame ∧
      Stores s ⟨0, 0, longFrame, 0⟩ := by
  have hfinal : (run (step flatLut) .init nearlyFull).map
      (fun s => ((s.capture.ring.getlen, s.capture.ring.isFull, s.taken.length),
        s.capture.stored.map Prod.fst, s.events.queue.messages, s.events.camera.state)) =
      some ((126, false, 2), List.replicate 128 shortFrame, [], .capturing) := by
    decide +kernel
  obtain ⟨s, hs, hvalues⟩ := Option.map_eq_some_iff.mp hfinal
  simp only [Prod.mk.injEq] at hvalues
  obtain ⟨⟨hlen, hroom, htakes⟩, hstored, hqueue, hstate⟩ := hvalues
  have hshort : Short s := short_of_stored (by decide) hstored
  obtain ⟨R, W, R', W', h⟩ := reachable_flow (reachable_storeFits hs hshort) hs
  obtain rfl : R = 2 := by
    rw [← h.takes, htakes]
  obtain rfl : W = 128 := by
    have hW := h.incoming.getlen
    rw [hlen] at hW
    have := h.incoming.le
    simp at hW
    omega
  refine ⟨s, hs, ⟨R', W', h⟩, hstored, ?_, by decide, rfl, rfl, hroom⟩
  simp [Camera.Capturing, Camera.processEventQueue_nil hqueue, Camera.eventSwitch, hstate]

theorem longFrame_drop : longFrame.drop (2 * FRAME_SIZE) = [0] := by
  have hdrop (m : ℕ) (hm : 0 < m) :
      (([0xFF, 0xD8] : List UInt8) ++ List.replicate (2 * m - 1) 0).drop (2 * m) = [0] := by
    rw [List.drop_append, List.drop_eq_nil_of_le (by simp; omega), List.drop_replicate,
      show 2 * m - 1 - (2 * m - ([0xFF, 0xD8] : List UInt8).length) = 1 by simp; omega]
    rfl
  exact hdrop FRAME_SIZE (by decide)

/-- The last byte of the long frame lands in the queued slot 2, so the frames
appended are no longer those taken and those still in the ring. -/
theorem frame_overrun_longFrame :
    ∃ t, run (step flatLut) .init (nearlyFull ++ [dequeues _ longFrame]) = some t ∧
      t.appended ≠ t.taken.map Prod.fst ++ t.capture.ring.contents := by
  obtain ⟨s, hs, ⟨R', W', h⟩, hstored, hstores⟩ := nearlyFull_state
  obtain ⟨t, ht⟩ : ∃ t, step flatLut s (dequeues _ longFrame) = some t := ⟨_, rfl⟩
  refine ⟨t, ?_, fun heq => ?_⟩
  · rw [run_append_some _ hs, run_cons_some _ ht, run_nil]
  obtain ⟨hsame, heffect⟩ := events_effect ht
  have htaken : t.taken = s.taken := by rw [hsame]
  cases heffect with
  | same none store => exact none _ rfl hstores
  | dropped full store => simp [hstores.2.2.2.2] at full
  | saved io act stores store =>
    cases act
    have happended : t.appended = s.appended ++ [slotImage s.capture.ring longFrame] := by
      simp [System.appended, store]
    have hring : t.capture.ring = saveFrame longFrame s.capture.ring := by rw [store]
    have htracks : RingBuffer.Tracks t.capture.ring 7 2 129 := by
      rw [hring]
      exact saveFrame_tracks h.incoming stores.2.2.2.2 longFrame
    -- slot 2 holds the oldest queued frame before and after
    rw [happended, h.appended, htaken, List.append_assoc, List.append_cancel_left_eq,
      htracks.contents_incReadptr (by decide), h.incoming.contents_incReadptr (by decide)] at heq
    have hslot : s.capture.ring.data 2 = t.capture.ring.data 2 := (List.cons.inj heq).1
    have hover : t.capture.ring.data 2 = (s.capture.ring.data 2).overwrite [0] := by
      have hwrite : s.capture.ring.writePtr.toNat = 0 := h.incoming.write
      rw [hring]
      show memcpy s.capture.ring.data s.capture.ring.writePtr.toNat longFrame 2 = _
      rw [hwrite, memcpy, if_pos (by decide), Nat.sub_zero, longFrame_drop]
    have hqueued : s.capture.ring.data 2 ∈ s.capture.stored.map Prod.snd := by
      show _ ∈ s.appended
      rw [h.appended, h.incoming.contents_incReadptr (by decide)]
      simp
    obtain ⟨f, hf, hslotf⟩ := List.mem_map.mp hqueued
    have hshort : f.1 = shortFrame := eq_shortFrame hstored hf
    have hcarries := stored_carries hs f hf (by rw [hshort]; decide)
    rw [hshort, hslotf] at hcarries
    -- its first byte was `0xFF` and is `0` now
    obtain ⟨rest, hrest⟩ := hcarries
    rw [hover] at hslot
    have hbytes := congrArg Frame.bytes hslot
    rw [Frame.overwrite_bytes _ (by decide), ← hrest] at hbytes
    exact absurd (List.cons.inj hbytes).1 (by decide)

end MotionDetector.Pipeline
