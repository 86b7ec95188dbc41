import MotionDetector.Pipeline.Conservation
import MotionDetector.Stream.FrameTransform
import Mathlib.Tactic.IntervalCases

/-!
# Delivery of frames to the viewer

The length of a frame is not stored, so a slot is streamed with what older
frames left behind it. These remains hold no start marker, whatever was stored
before, and the viewer finds the frames again.
-/

namespace MotionDetector.Pipeline

open Transition Delimited MotionDetector.Stream

variable {n : ℕ} {lut : ColorLut}

structure JpegFrame (n : ℕ) (f : List UInt8) : Prop where
  min : 4 ≤ f.length
  max : f.length ≤ n
  opens : ∀ j, OccursAt startMarker f j ↔ j = 0
  closes : ∀ j, OccursAt endMarker f j ↔ j + 2 = f.length

theorem JpegFrame.isFrame {f : List UInt8} (h : JpegFrame n f) :
    IsFrame startMarker endMarker f :=
  ⟨Nat.le_trans (by decide) h.min, h.opens, h.closes⟩

def Jpeg (s : System n) : Prop := ∀ f ∈ s.capture.stored, JpegFrame n f.1

theorem Jpeg.short {s : System n} (h : Jpeg s) : Short s := fun f hf => (h f hf).max

theorem Jpeg.of_step {s t : System n} {a : Act n} (ht : step lut s a = some t) (h : Jpeg t) :
    Jpeg s :=
  fun f hf => h f ((stored_extends ht).subset hf)

/-! ### Slots -/

/-- The cells of `incomingBuffer` hold start markers at their start only, and
the slot images are their frames with the remains of older ones. -/
structure SlotsClean (s : System n) : Prop where
  cells : ∀ i, Clean startMarker (s.capture.ring.data i).bytes
  images : ∀ f ∈ s.capture.stored, Carries startMarker endMarker f.1 f.2.bytes

theorem zero_clean : Clean startMarker (Frame.zero : Frame n).bytes := by
  intro j _ hocc
  have hmem : (0xFF : UInt8) ∈ List.replicate n (0 : UInt8) :=
    List.mem_of_mem_drop (hocc.subset (by simp [startMarker]))
  exact absurd (List.eq_of_mem_replicate hmem) (by decide)

theorem init_slotsClean : SlotsClean (System.init : System n) := by
  refine ⟨fun _ => zero_clean, ?_⟩
  intro f hf
  cases hf

/- What a frame does not overwrite in a clean slot holds no start marker. -/
theorem overwrite_carries {image : Frame n} {f : List UInt8}
    (himage : Clean startMarker image.bytes) (hf : JpegFrame n f) :
    Carries startMarker endMarker f (image.overwrite f).bytes := by
  have hpos : 0 < f.length := Nat.lt_of_lt_of_le (by decide) hf.min
  exact ⟨hf.isFrame, image.bytes.drop f.length, Frame.overwrite_bytes image hf.max,
    himage.freeOf_drop hpos⟩

theorem step_slotsClean {s t : System n} {a : Act n} (h : SlotsClean s)
    (ht : step lut s a = some t) (hjpeg : Jpeg t) : SlotsClean t := by
  rcases step_stored ht with ⟨-, hstored, hdata⟩ | ⟨io, -, -, hstored, hdata⟩
  · constructor
    · rw [hdata]
      exact h.cells
    · rw [hstored]
      exact h.images
  · have hframe : JpegFrame n io.bytes :=
      hjpeg (io.bytes, slotImage s.capture.ring io.bytes) (by simp [hstored])
    have hcarries := overwrite_carries (h.cells s.capture.ring.writePtr.toNat) hframe
    constructor
    · rw [hdata, memcpy_of_fits _ _ hframe.max]
      intro i
      by_cases hi : i = s.capture.ring.writePtr.toNat
      · rw [hi, Function.update_self]
        exact hcarries.clean separated_markers
      · rw [Function.update_of_ne hi]
        exact h.cells i
    · rw [hstored]
      intro f hf
      rcases List.mem_append.mp hf with hf | hf
      · exact h.images f hf
      · obtain rfl := List.mem_singleton.mp hf
        exact hcarries

theorem reachable_slotsClean {acts : List (Act n)} {s : System n}
    (hr : run (step lut) .init acts = some s) (hjpeg : Jpeg s) : SlotsClean s := by
  have hinv := run_inv (fun s : System n => Jpeg s → SlotsClean s)
    (fun _ _ _ h ht hjpeg => step_slotsClean (h (hjpeg.of_step ht)) ht hjpeg)
    (fun _ => init_slotsClean) hr
  exact hinv hjpeg

/-! ### Frames streamed -/

/-- The frames behind the slot images handed to `image_save`. -/
def System.streamed (s : System n) : List (List UInt8 × Frame n) :=
  (((s.capture.stored.zip s.taken).filter fun p => p.2.2 ≠ 255).map Prod.fst).take
    s.handed.length

theorem zip_images {α β γ : Type} {stored : List (α × β)} {taken : List (β × γ)} {rest : List β}
    (h : stored.map Prod.snd = taken.map Prod.fst ++ rest) :
    (stored.zip taken).map Prod.snd = taken ∧ ∀ p ∈ stored.zip taken, p.1.2 = p.2.1 := by
  induction taken generalizing stored with
  | nil => simp
  | cons t taken ih =>
    cases stored with
    | nil => simp at h
    | cons f stored =>
      obtain ⟨hhead, htail⟩ := List.cons.inj h
      obtain ⟨hsnd, heq⟩ := ih htail
      refine ⟨by simp [hsnd], ?_⟩
      intro p hp
      rcases List.mem_cons.mp hp with rfl | hp
      · exact hhead
      · exact heq p hp

theorem Flow.streamed_images {s : System n} {R W R' W' : ℕ} (h : Flow s R W R' W') :
    s.streamed.map Prod.snd = s.handed.map Handed.image := by
  obtain ⟨hsnd, heq⟩ := zip_images h.appended
  let pairs := s.capture.stored.zip s.taken
  have hkept : ((pairs.filter fun p => p.2.2 ≠ 255).map Prod.fst).map Prod.snd = s.kept :=
    calc ((pairs.filter fun p => p.2.2 ≠ 255).map Prod.fst).map Prod.snd
      _ = (pairs.filter fun p => p.2.2 ≠ 255).map fun p => p.2.1 := by
        rw [List.map_map]
        exact List.map_congr_left fun p hp => heq p (List.mem_filter.mp hp).1
      _ = ((pairs.map Prod.snd).filter fun t => t.2 ≠ 255).map Prod.fst := by
        rw [List.filter_map, List.map_map]
        rfl
      _ = s.kept := by rw [hsnd, System.kept]
  rw [System.streamed, List.map_take, hkept, h.kept, List.take_left' (List.length_map _)]

theorem streamed_stored {s : System n} : ∀ f ∈ s.streamed, f ∈ s.capture.stored := by
  intro f hf
  obtain ⟨p, hp, rfl⟩ := List.mem_map.mp (List.mem_of_mem_take hf)
  exact (List.of_mem_zip (List.mem_filter.mp hp).1).1

/-! ### Datagrams -/

/-- `image_save` succeeds, and every call of `sendto` accepts some of the bytes. -/
def Handed.Sent (h : Handed n) : Prop := h.result = .success ∧ ∀ send ∈ h.sends, send.Accepted

def Saved (s : System n) : Prop :=
  ∀ h ∈ s.handed, ∃ sockfd fd calls,
    MotionDetector.imageSave sockfd n calls = (some h.result, fd, h.sends)

theorem step_saved {s t : System n} {a : Act n} (h : Saved s) (ht : step lut s a = some t) :
    Saved t := by
  cases a with
  | events a =>
    rw [(events_effect ht).1]
    exact h
  | processFrames rgbFrame =>
    simp only [step, Option.some.injEq] at ht
    subst ht
    exact h
  | startread =>
    obtain ⟨-, rfl | ⟨slot, -, rfl⟩⟩ := startread_step ht
    · exact h
    · exact h
  | imageSave calls =>
    obtain ⟨slot, result, fd, sends, -, hsave, rfl⟩ := imageSave_step ht
    intro x hx
    rcases List.mem_append.mp hx with hx | hx
    · exact h x hx
    · obtain rfl := List.mem_singleton.mp hx
      exact ⟨s.sockfd, fd, calls, hsave⟩
  | endread =>
    obtain ⟨-, rfl⟩ := endread_step ht
    exact h

theorem reachable_saved {acts : List (Act n)} {s : System n}
    (hr : run (step lut) .init acts = some s) : Saved s :=
  run_inv Saved (fun _ _ _ h ht => step_saved h ht) (fun h hh => by cases hh) hr

theorem Handed.Sent.datagrams_eq {h : Handed n} (hsent : h.Sent) :
    h.datagrams = h.sends.map fun s => s.datagram h.image.bytes := by
  unfold Handed.datagrams
  rw [List.filter_eq_self.mpr]
  intro send hsend
  have := (hsent.2 send hsend).1
  simp only [decide_eq_true_eq]
  omega

theorem Saved.flatten {s : System n} {h : Handed n} (hsaved : Saved s) (hn : n < 2147483648)
    (hpos : 0 < n) (hh : h ∈ s.handed) (hsent : h.Sent) : h.datagrams.flatten = h.image.bytes := by
  obtain ⟨sockfd, fd, calls, hsave⟩ := hsaved h hh
  rw [hsent.1] at hsave
  rw [hsent.datagrams_eq]
  exact imageSave_datagrams hpos hn h.image.length_eq hsave hsent.2

theorem Saved.length_le {s : System n} {h : Handed n} (hsaved : Saved s) (hh : h ∈ s.handed)
    (hsent : h.Sent) : ∀ d ∈ h.datagrams, d.length ≤ 1024 := by
  obtain ⟨sockfd, fd, calls, hsave⟩ := hsaved h hh
  have hrequest := imageSave_request sockfd n calls
  rw [hsave] at hrequest
  rw [hsent.datagrams_eq]
  intro d hd
  obtain ⟨send, hsend, rfl⟩ := List.mem_map.mp hd
  have hle : (send.datagram h.image.bytes).length ≤ send.sizeSent.toNat :=
    List.length_take_le _ _
  have hsize := hsent.2 send hsend
  have hreq := hrequest send hsend
  simp only [Send.Accepted] at hsize
  omega

/-! ### What the viewer emits -/

theorem streamed_carries {acts : List (Act n)} {s : System n}
    (hr : run (step lut) .init acts = some s) (hjpeg : Jpeg s) :
    ∀ f ∈ s.streamed, Carries startMarker endMarker f.1 f.2.bytes :=
  fun f hf => (reachable_slotsClean hr hjpeg).images f (streamed_stored f hf)

theorem slot_flatten {acts : List (Act n)} {s : System n} (hn : n < 2147483648)
    (hr : run (step lut) .init acts = some s) (hjpeg : Jpeg s) {h : Handed n} (hh : h ∈ s.handed)
    (hsent : h.Sent) : h.datagrams.flatten = h.image.bytes := by
  obtain ⟨R, W, R', W', hflow⟩ := reachable_flow (reachable_storeFits hr hjpeg.short) hr
  have hmem : h.image ∈ s.streamed.map Prod.snd := by
    rw [hflow.streamed_images]
    exact List.mem_map_of_mem hh
  obtain ⟨f, hf, -⟩ := List.mem_map.mp hmem
  have hframe := hjpeg f (streamed_stored f hf)
  have hpos : 0 < n := by
    have := hframe.min
    have := hframe.max
    omega
  exact (reachable_saved hr).flatten hn hpos hh hsent

/-- Without loss, the viewer emits the frames streamed. -/
theorem delivered_lossless (lut : ColorLut) (hn : n < 2147483648) (acts : List (Act n))
    (s : System n) (hr : run (step lut) .init acts = some s) (hjpeg : Jpeg s)
    (hsent : ∀ h ∈ s.handed, h.Sent) :
    s.streamed.map Prod.snd = s.handed.map Handed.image ∧
    (∀ h ∈ s.handed, ∀ d ∈ h.datagrams, d.length ≤ 1024) ∧
    (feed .init (s.handed.map Handed.datagrams).flatten).pushed = s.streamed.map Prod.fst := by
  obtain ⟨R, W, R', W', hflow⟩ := reachable_flow (reachable_storeFits hr hjpeg.short) hr
  refine ⟨hflow.streamed_images, ?_, ?_⟩
  · intro h hh
    exact (reachable_saved hr).length_le hh (hsent h hh)
  let slots := s.streamed.map fun f => (f.1, f.2.bytes)
  have hbytes : (s.handed.map Handed.datagrams).flatten.flatten =
      (slots.map Prod.snd).flatten :=
    calc (s.handed.map Handed.datagrams).flatten.flatten
      _ = (s.handed.map fun h => h.datagrams.flatten).flatten := by
        rw [List.flatten_flatten, List.map_map]
        rfl
      _ = (s.handed.map fun h => h.image.bytes).flatten := by
        congr 1
        exact List.map_congr_left fun h hh => slot_flatten hn hr hjpeg hh (hsent h hh)
      _ = ((s.handed.map Handed.image).map Frame.bytes).flatten := by
        rw [List.map_map]
        rfl
      _ = (slots.map Prod.snd).flatten := by
        rw [← hflow.streamed_images, List.map_map, List.map_map]
        rfl
  have hcarries : ∀ slot ∈ slots, Carries startMarker endMarker slot.1 slot.2 := by
    intro slot hslot
    obtain ⟨f, hf, rfl⟩ := List.mem_map.mp hslot
    exact streamed_carries hr hjpeg f hf
  obtain ⟨rest, hscan⟩ :=
    scan_slots separated_markers (freeOf_nil startMarker_ne_nil) hcarries
  rw [← hbytes] at hscan
  rw [feed_of_scan scanned_init hscan, List.map_map]
  rfl

theorem jpegFrame_shortFrame (hn : 4 ≤ n) : JpegFrame n shortFrame := by
  have hlast (pat : List UInt8) (hpat : pat.length = 2) (j : ℕ) (h : OccursAt pat shortFrame j) :
      j ≤ 2 := by
    have hfit := h.fits (List.ne_nil_of_length_pos (by omega))
    have hlen : shortFrame.length = 4 := rfl
    omega
  refine ⟨le_rfl, hn, fun j => ⟨fun h => ?_, ?_⟩, fun j => ⟨fun h => ?_, ?_⟩⟩
  · have hj := hlast _ rfl j h
    interval_cases j
    · rfl
    · exact absurd h (by decide)
    · exact absurd h (by decide)
  · rintro rfl
    decide
  · have hj := hlast _ rfl j h
    interval_cases j
    · exact absurd h (by decide)
    · exact absurd h (by decide)
    · rfl
  · intro hj
    obtain rfl : j = 2 := by
      have hlen : shortFrame.length = 4 := rfl
      omega
    decide

theorem jpeg_of_stored {s : System n} (hn : 4 ≤ n) {k : ℕ}
    (h : s.capture.stored.map Prod.fst = List.replicate k shortFrame) : Jpeg s := by
  intro f hf
  rw [eq_shortFrame h hf]
  exact jpegFrame_shortFrame hn

theorem sent_of_forall {s : System n}
    (hresults : ∀ r ∈ s.handed.map Handed.result, r = .success)
    (hsends : ∀ sends ∈ s.handed.map Handed.sends, ∀ send ∈ sends, send.Accepted) :
    ∀ h ∈ s.handed, h.Sent := by
  intro h hh
  exact ⟨hresults h.result (List.mem_map_of_mem hh), hsends h.sends (List.mem_map_of_mem hh)⟩

def oneSlot : List (Act FRAME_SIZE) :=
  [motion _, dequeues _ shortFrame, .processFrames .zero, .startread,
    .imageSave ⟨3, List.replicate 75 1024⟩]

theorem delivered_lossless_oneSlot :
    ∃ s, run (step flatLut) .init oneSlot = some s ∧
      (feed .init (s.handed.map Handed.datagrams).flatten).pushed = s.streamed.map Prod.fst ∧
      s.streamed.map Prod.fst = [shortFrame] := by
  have hfinal : (run (step flatLut) .init oneSlot).map
      (fun s => ((s.capture.stored.map Prod.fst, s.streamed.map Prod.fst),
        decide (∀ r ∈ s.handed.map Handed.result, r = .success),
        decide (∀ sends ∈ s.handed.map Handed.sends, ∀ send ∈ sends, send.Accepted))) =
      some (([shortFrame], [shortFrame]), true, true) := by
    decide +kernel
  obtain ⟨s, hs, hvalues⟩ := Option.map_eq_some_iff.mp hfinal
  simp only [Prod.mk.injEq, decide_eq_true_eq] at hvalues
  obtain ⟨⟨hstored, hstreamed⟩, hresults, hsends⟩ := hvalues
  have hjpeg : Jpeg s := jpeg_of_stored (by decide) (k := 1) hstored
  have hsent : ∀ h ∈ s.handed, h.Sent := sent_of_forall hresults hsends
  have h := delivered_lossless flatLut (by decide) oneSlot s hs hjpeg hsent
  exact ⟨s, hs, h.2.2, hstreamed⟩

end MotionDetector.Pipeline
