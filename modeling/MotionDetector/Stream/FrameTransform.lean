import MotionDetector.Lib.Resync
import Mathlib.Tactic.Linarith

/-!
# The frame extractor of the stream viewer (`utils/stream-viewer/stream-viewer.js`)

`FrameTransform` is fed one datagram per `message` event. It keeps the bytes it
could not use yet in `frameBuffer` and pushes every complete JPEG frame.
-/

namespace MotionDetector.Stream

open Delimited

def startMarker : List UInt8 := [0xFF, 0xD8]

def endMarker : List UInt8 := [0xFF, 0xD9]

def slice (buf : List UInt8) (start stop : ℕ) : List UInt8 := (buf.take stop).drop start

structure FrameTransform where
  frameBuffer : List UInt8
  pushed : List (List UInt8)
  deriving DecidableEq

def FrameTransform.init : FrameTransform := ⟨[], []⟩

/-- One test of the `while` condition: the indices it assigns, if it holds. -/
def markerIndices (frameBuffer : List UInt8) : Option (ℕ × ℕ) :=
  match findFrom startMarker frameBuffer 0 with
  | none => none
  | some startMarkerIndex =>
    match findFrom endMarker frameBuffer startMarkerIndex with
    | none => none
    | some endMarkerIndex => some (startMarkerIndex, endMarkerIndex)

theorem startMarker_ne_nil : startMarker ≠ [] := by simp [startMarker]

theorem endMarker_ne_nil : endMarker ≠ [] := by simp [endMarker]

theorem endMarker_length : endMarker.length = 2 := rfl

theorem markerIndices_eq_some {buf : List UInt8} {s e : ℕ}
    (h : markerIndices buf = some (s, e)) : Span startMarker endMarker buf s e := by
  unfold markerIndices at h
  split at h
  · cases h
  · next s' hs =>
    split at h
    · cases h
    · next e' he =>
      cases h
      exact ⟨findFrom_eq_some hs, findFrom_eq_some he⟩

theorem markerIndices_eq_none {buf : List UInt8} (h : markerIndices buf = none) (s e : ℕ) :
    ¬ Span startMarker endMarker buf s e := by
  intro hspan
  unfold markerIndices at h
  split at h
  · next hs => exact findFrom_eq_none startMarker_ne_nil hs s (Nat.zero_le s) hspan.opens.1.2
  · next s' hs =>
    obtain rfl := (findFrom_eq_some hs).unique hspan.opens
    split at h
    · next he => exact findFrom_eq_none endMarker_ne_nil he e hspan.le hspan.closes.1.2
    · cases h

/- The body of the loop takes the frame and everything before it away. -/
theorem markerIndices_shrinks {buf : List UInt8} {s e : ℕ}
    (h : markerIndices buf = some (s, e)) :
    (slice buf (e + endMarker.length) buf.length).length < buf.length := by
  have hfit := (markerIndices_eq_some h).fits endMarker_ne_nil
  have := endMarker_length
  simp only [slice, List.length_drop, List.length_take]
  omega

/-- The `while` loop of `_transform`: the frames pushed and the buffer kept.
Every pass shortens the buffer, so the loop ends. -/
def transformLoop (frameBuffer : List UInt8) : List (List UInt8) × List UInt8 :=
  match _h : markerIndices frameBuffer with
  | none => ([], frameBuffer)
  | some (startMarkerIndex, endMarkerIndex) =>
    let completeFrame := slice frameBuffer startMarkerIndex (endMarkerIndex + endMarker.length)
    let out := transformLoop
      (slice frameBuffer (endMarkerIndex + endMarker.length) frameBuffer.length)
    (completeFrame :: out.1, out.2)
termination_by frameBuffer.length
decreasing_by exact markerIndices_shrinks _h

def transform (self : FrameTransform) (chunk : List UInt8) : FrameTransform :=
  let out := transformLoop (self.frameBuffer ++ chunk)
  ⟨out.2, self.pushed ++ out.1⟩

def feed (self : FrameTransform) (chunks : List (List UInt8)) : FrameTransform :=
  chunks.foldl transform self

/-! ### The loop is the leftmost scan -/

theorem transformLoop_scan (buf : List UInt8) :
    LeftmostScan startMarker endMarker buf (transformLoop buf).1 (transformLoop buf).2 := by
  fun_induction transformLoop buf with
  | case1 buf h => exact .stop (markerIndices_eq_none h)
  | case2 buf s e h frame out ih =>
    have hdrop : slice buf (e + endMarker.length) buf.length =
        buf.drop (e + endMarker.length) := by
      rw [slice, List.take_length]
    rw [hdrop] at ih
    exact .span (markerIndices_eq_some h) (by simpa only [out, hdrop] using ih)

/-- Between two calls the buffer holds the rest of the scan of all chunks so
far, and the pushed frames are the spans of that scan. -/
def Scanned (self : FrameTransform) (bytes : List UInt8) : Prop :=
  LeftmostScan startMarker endMarker bytes self.pushed self.frameBuffer

theorem scanned_init : Scanned .init [] := by
  refine .stop fun s e h => ?_
  have := h.fits endMarker_ne_nil
  have := endMarker_length
  simp only [List.length_nil] at *
  omega

theorem transform_scanned {self : FrameTransform} {bytes : List UInt8} (h : Scanned self bytes)
    (chunk : List UInt8) : Scanned (transform self chunk) (bytes ++ chunk) :=
  LeftmostScan.append startMarker_ne_nil endMarker_ne_nil h
    (transformLoop_scan (self.frameBuffer ++ chunk))

theorem feed_scanned {self : FrameTransform} {bytes : List UInt8} (h : Scanned self bytes)
    (chunks : List (List UInt8)) : Scanned (feed self chunks) (bytes ++ chunks.flatten) := by
  induction chunks generalizing self bytes with
  | nil => simpa [feed] using h
  | cons c cs ih =>
    have hnext := ih (transform_scanned h c)
    rwa [List.append_assoc] at hnext

theorem feed_append (self : FrameTransform) (cs ds : List (List UInt8)) :
    feed self (cs ++ ds) = feed (feed self cs) ds :=
  List.foldl_append

theorem Scanned.unique {st st' : FrameTransform} {bytes : List UInt8} (h : Scanned st bytes)
    (h' : Scanned st' bytes) : st = st' := by
  obtain ⟨h1, h2⟩ := LeftmostScan.unique h h'
  cases st
  cases st'
  simp_all

/- A call sequence pushes what the scan of the kept bytes and the chunks finds. -/
theorem feed_of_scan {self : FrameTransform} {bytes rest : List UInt8}
    {chunks frames : List (List UInt8)} (h : Scanned self bytes)
    (hscan : LeftmostScan startMarker endMarker (self.frameBuffer ++ chunks.flatten) frames rest) :
    feed self chunks = ⟨rest, self.pushed ++ frames⟩ := by
  have happend : Scanned ⟨rest, self.pushed ++ frames⟩ (bytes ++ chunks.flatten) :=
    LeftmostScan.append startMarker_ne_nil endMarker_ne_nil h hscan
  exact (feed_scanned h chunks).unique happend

theorem feed_pushed_extends (self : FrameTransform) (chunks : List (List UInt8)) :
    self.pushed <+: (feed self chunks).pushed := by
  induction chunks generalizing self with
  | nil => exact List.prefix_rfl
  | cons c cs ih => exact (List.prefix_append _ _).trans (ih (transform self c))

theorem separated_markers : Separated startMarker endMarker := by
  refine ⟨by decide, rfl, ?_, ?_, ?_⟩
  · decide
  · decide
  · decide

theorem span_length {buf : List UInt8} {s e : ℕ} (h : Span startMarker endMarker buf s e) :
    s + 2 ≤ e := by
  have hs := occursAt_iff_take.mp h.opens.1.2
  have he := occursAt_iff_take.mp h.closes.1.2
  have hle := h.le
  by_contra hlt
  obtain rfl | rfl : e = s ∨ e = s + 1 := by omega
  · rw [show endMarker.length = startMarker.length from rfl, hs] at he
    exact absurd he (by decide)
  · -- the second byte of the opening marker would be the first of the closing one
    have h1 : (buf.drop s)[1]? = some 0xD8 := by
      have := congrArg (·[1]?) hs
      simpa [startMarker, List.getElem?_take] using this
    have h2 : (buf.drop (s + 1))[0]? = some 0xFF := by
      have := congrArg (·[0]?) he
      simpa [endMarker, List.getElem?_take] using this
    rw [List.getElem?_drop] at h1 h2
    rw [h2] at h1
    exact absurd h1 (by decide)

theorem transformLoop_bound (buf : List UInt8) :
    4 * (transformLoop buf).1.length + (transformLoop buf).2.length ≤ buf.length := by
  have h := transformLoop_scan buf
  generalize (transformLoop buf).1 = frames at h
  generalize (transformLoop buf).2 = rest at h
  induction h with
  | stop _ => simp
  | span first _ ih =>
    have h1 := span_length first
    have h2 := first.fits endMarker_ne_nil
    have h3 := endMarker_length
    simp only [List.length_drop, List.length_cons] at ih ⊢
    omega

/-- The extractor against the leftmost scan of everything it was fed. -/
theorem feed_leftmost (chunks : List (List UInt8)) :
    LeftmostScan startMarker endMarker chunks.flatten
      (feed .init chunks).pushed (feed .init chunks).frameBuffer ∧
    (∀ frames rest, LeftmostScan startMarker endMarker chunks.flatten frames rest →
      feed .init chunks = ⟨rest, frames⟩) ∧
    (∀ chunks' : List (List UInt8), chunks'.flatten = chunks.flatten →
      feed .init chunks' = feed .init chunks) ∧
    (∀ frame ∈ (feed .init chunks).pushed, ∀ j,
      OccursAt endMarker frame j ↔ j + endMarker.length = frame.length) ∧
    (∃ gaps : List (List UInt8), gaps.length = (feed .init chunks).pushed.length ∧
      (List.zipWith (· ++ ·) gaps (feed .init chunks).pushed).flatten ++
        (feed .init chunks).frameBuffer = chunks.flatten ∧
      ∀ g ∈ gaps, ∀ j, ¬ OccursAt startMarker g j) ∧
    (∀ (self : FrameTransform) (chunk : List UInt8),
      4 * (transform self chunk).pushed.length ≤
        4 * self.pushed.length + (self.frameBuffer.length + chunk.length)) := by
  have hscan : Scanned (feed .init chunks) chunks.flatten := by
    simpa using feed_scanned scanned_init chunks
  refine ⟨hscan, fun frames rest h => hscan.unique h, fun chunks' he => ?_,
    hscan.closing_only_at_end endMarker_ne_nil, hscan.gaps startMarker_ne_nil, fun self chunk => ?_⟩
  · have hscan' : Scanned (feed .init chunks') chunks'.flatten := by
      simpa using feed_scanned scanned_init chunks'
    rw [he] at hscan'
    exact hscan'.unique hscan
  · have hb := transformLoop_bound (self.frameBuffer ++ chunk)
    simp only [transform, List.length_append] at hb ⊢
    omega

end MotionDetector.Stream
