import MotionDetector.Lib.SelfDelimiting
import MotionDetector.Lib.Transition
import MotionDetector.Stream.FrameTransform

/-!
# The HTTP side of the stream viewer (`utils/stream-viewer/stream-viewer.js`)

Every request registers a listener for the frames of `frameTransform` and writes
each as one part of a `multipart/x-mixed-replace` body. Messages, requests, their
closing and the `data` events come in any order. The transform is a Node stream:
until the first listener comes it keeps the frames pushed, from then on it flows.
-/

namespace MotionDetector.Stream

open Transition SelfDelimiting

/-! ### A part of the body -/

def boundaryLine : List UInt8 := ascii "--myboundary\r\n".toList

def contentType : List UInt8 := ascii "Content-Type: image/jpeg\r\n".toList

def contentLength (n : ℕ) : List UInt8 :=
  ascii "Content-Length: ".toList ++ digits n ++ ascii "\r\n\r\n".toList

/-- What `onData` pushes for a frame, piece by piece. -/
def onData (frame : List UInt8) : List (List UInt8) :=
  [boundaryLine, contentType, contentLength frame.length, frame, ascii "\r\n".toList]

/-- A part as a client reads it. -/
def part : Code UInt8 (List UInt8) :=
  .enclosed (boundaryLine ++ contentType ++ ascii "Content-Length: ".toList)
    (.counted (.enclosed [] (decimal 13 rfl) (ascii "\n\r\n".toList))) (ascii "\r\n".toList)

theorem onData_flatten (frame : List UInt8) : (onData frame).flatten = part.encode frame := by
  have hend : ascii "\r\n\r\n".toList = [13] ++ ascii "\n\r\n".toList := by decide
  simp only [onData, contentLength, part, Code.enclosed, Code.counted, decimal, hend,
    List.flatten_cons, List.flatten_nil, List.nil_append, List.append_nil, List.append_assoc]

theorem part_ne_nil (frame : List UInt8) : part.encode frame ≠ [] := by
  rw [← onData_flatten]
  intro h
  have := congrArg List.length h
  simp [onData, boundaryLine, ascii] at this

/-! ### The server -/

/-- A request that was accepted: whether its listener is registered, what has been
pushed to its `frameStream`, and the frames emitted before it came and since. -/
structure Connection where
  listening : Bool
  frameStream : List UInt8
  since : ℕ
  heard : ℕ
  deriving DecidableEq

structure HttpServer where
  frameTransform : FrameTransform
  flowing : Bool
  emitted : ℕ
  connections : List Connection
  deriving DecidableEq

def HttpServer.init : HttpServer := ⟨.init, false, 0, []⟩

inductive HttpAct where
  | message (msg : List UInt8)
  | request
  | close (id : ℕ)
  | data
  deriving DecidableEq

def Connection.accepted (emitted : ℕ) : Connection := ⟨true, [], emitted, 0⟩

def Connection.data (frame : List UInt8) (c : Connection) : Connection :=
  if c.listening then
    { c with frameStream := c.frameStream ++ (onData frame).flatten, heard := c.heard + 1 }
  else c

/-- `data` is one `data` event of `frameTransform`, `close` the `close` event of a
request. -/
def httpStep (s : HttpServer) : HttpAct → Option HttpServer
  | .message msg => some { s with frameTransform := transform s.frameTransform msg }
  | .request =>
    some { s with flowing := true, connections := s.connections ++ [.accepted s.emitted] }
  | .close id =>
    match s.connections[id]? with
    | some c =>
      if c.listening then
        some { s with connections := s.connections.set id { c with listening := false } }
      else none
    | none => none
  | .data =>
    if s.flowing then
      match s.frameTransform.pushed[s.emitted]? with
      | some frame =>
        some { s with
          emitted := s.emitted + 1
          connections := s.connections.map (Connection.data frame) }
      | none => none
    else none

/-! ### What a connection is sent -/

def messages (acts : List HttpAct) : List (List UInt8) :=
  acts.filterMap fun a =>
    match a with
    | .message msg => some msg
    | _ => none

/-- The body is that of the frames emitted while the listener was registered. -/
structure Connection.Ok (pushed : List (List UInt8)) (emitted : ℕ) (c : Connection) : Prop where
  body : c.frameStream = ((pushed.drop c.since).take c.heard).flatMap part.encode
  le : c.since + c.heard ≤ emitted
  live : c.listening = true → c.since + c.heard = emitted

structure HttpServer.Inv (s : HttpServer) : Prop where
  emitted : s.emitted ≤ s.frameTransform.pushed.length
  ok : ∀ c ∈ s.connections, c.Ok s.frameTransform.pushed s.emitted
  paused : s.connections = [] → s.emitted = 0 ∧ s.flowing = false
  first : ∀ c, s.connections[0]? = some c → c.since = 0

theorem init_inv : HttpServer.init.Inv where
  emitted := Nat.le_refl _
  ok c h := by cases h
  paused _ := ⟨rfl, rfl⟩
  first c h := by cases h

/- More frames behind those emitted change no body. -/
theorem Connection.Ok.extend {pushed pushed' : List (List UInt8)} {emitted : ℕ} {c : Connection}
    (h : c.Ok pushed emitted) (hlen : emitted ≤ pushed.length) (hext : pushed <+: pushed') :
    c.Ok pushed' emitted := by
  obtain ⟨more, rfl⟩ := hext
  have hle := h.le
  refine ⟨?_, h.le, h.live⟩
  rw [h.body, List.drop_append_of_le_length (by omega), List.take_append_of_le_length]
  rw [List.length_drop]
  omega

theorem Connection.Ok.data {pushed : List (List UInt8)} {emitted : ℕ} {c : Connection}
    {frame : List UInt8} (h : c.Ok pushed emitted) (hframe : pushed[emitted]? = some frame) :
    (c.data frame).Ok pushed (emitted + 1) := by
  have hle := h.le
  unfold Connection.data
  split
  · next hlive =>
    have heq := h.live hlive
    refine ⟨?_, ?_, fun _ => ?_⟩
    · have hnext : (pushed.drop c.since)[c.heard]? = some frame := by
        rw [List.getElem?_drop, heq]
        exact hframe
      rw [h.body, onData_flatten, List.take_add_one, hnext, List.flatMap_append]
      simp
    · simp only
      omega
    · simp only
      omega
  · next hclosed => exact ⟨h.body, by omega, fun hlive => absurd hlive hclosed⟩

theorem httpStep_inv {s t : HttpServer} {a : HttpAct} (h : s.Inv) (ht : httpStep s a = some t) :
    t.Inv := by
  cases a with
  | message msg =>
    simp only [httpStep, Option.some.injEq] at ht
    subst ht
    have hext : s.frameTransform.pushed <+: (transform s.frameTransform msg).pushed :=
      List.prefix_append _ _
    exact ⟨h.emitted.trans hext.length_le, fun c hc => (h.ok c hc).extend h.emitted hext,
      h.paused, h.first⟩
  | request =>
    simp only [httpStep, Option.some.injEq] at ht
    subst ht
    refine ⟨h.emitted, fun c hc => ?_, fun hnil => ?_, fun c hc => ?_⟩
    · rcases List.mem_append.mp hc with hc | hc
      · exact h.ok c hc
      · rw [List.mem_singleton.mp hc]
        exact ⟨by simp [Connection.accepted], Nat.le_refl _, fun _ => rfl⟩
    · simp at hnil
    · cases hconnections : s.connections with
      | nil =>
        simp only [hconnections, List.nil_append, List.getElem?_cons_zero, Option.some.injEq] at hc
        rw [← hc]
        exact (h.paused hconnections).1
      | cons d rest =>
        simp only [hconnections, List.cons_append, List.getElem?_cons_zero] at hc
        exact h.first c (by rw [hconnections]; exact hc)
  | close id =>
    simp only [httpStep] at ht
    split at ht
    · next d hd =>
      split at ht
      · next hlive =>
        cases ht
        refine ⟨h.emitted, fun c hc => ?_, fun hnil => ?_, fun c hc => ?_⟩
        · rcases List.mem_or_eq_of_mem_set hc with hc | rfl
          · exact h.ok c hc
          · have hok := h.ok d (List.mem_of_getElem? hd)
            exact ⟨hok.body, hok.le, fun hl => by cases hl⟩
        · exact h.paused (by simpa using hnil)
        · simp only [List.getElem?_set] at hc
          split at hc
          · next hid =>
            subst hid
            split at hc
            · cases hc
              exact h.first d hd
            · cases hc
          · exact h.first c hc
      · cases ht
    · cases ht
  | data =>
    simp only [httpStep] at ht
    split at ht
    · next hflowing =>
      split at ht
      · next frame hframe =>
        cases ht
        have hlt := (List.getElem?_eq_some_iff.mp hframe).1
        refine ⟨hlt, fun c hc => ?_, fun hnil => ?_, fun c hc => ?_⟩
        · obtain ⟨d, hd, rfl⟩ := List.mem_map.mp hc
          exact (h.ok d hd).data hframe
        · have hpaused := (h.paused (List.map_eq_nil_iff.mp hnil)).2
          rw [hflowing] at hpaused
          cases hpaused
        · simp only [List.getElem?_map] at hc
          obtain ⟨d, hd, rfl⟩ := Option.map_eq_some_iff.mp hc
          have hsince := h.first d hd
          unfold Connection.data
          split
          · exact hsince
          · exact hsince
      · cases ht
    · cases ht

theorem run_frameTransform {acts : List HttpAct} {s t : HttpServer}
    (hr : run httpStep s acts = some t) :
    t.frameTransform = feed s.frameTransform (messages acts) := by
  induction acts generalizing s with
  | nil =>
    obtain rfl : s = t := by simpa using hr
    rfl
  | cons a acts ih =>
    obtain ⟨u, hu, hrest⟩ := Option.bind_eq_some_iff.mp hr
    rw [ih hrest]
    cases a with
    | message msg =>
      simp only [httpStep, Option.some.injEq] at hu
      subst hu
      rfl
    | request =>
      simp only [httpStep, Option.some.injEq] at hu
      subst hu
      rfl
    | close id =>
      simp only [httpStep] at hu
      split at hu
      · split at hu
        · cases hu
          rfl
        · cases hu
      · cases hu
    | data =>
      simp only [httpStep] at hu
      split at hu
      · split at hu
        · cases hu
          rfl
        · cases hu
      · cases hu

/-- Whatever the order of messages, requests, closings and `data` events, each
connection has been sent the frames emitted while its listener was registered, the
first one from the first frame on: its body reads as these frames, and any part of
it that has arrived as the first of them. -/
theorem http_body_decodes (acts : List HttpAct) (s : HttpServer)
    (hr : run httpStep .init acts = some s) :
    s.frameTransform = feed .init (messages acts) ∧
    (∀ c, s.connections[0]? = some c → c.since = 0) ∧
    ∀ c ∈ s.connections, c.since + c.heard ≤ s.emitted ∧
      (c.listening = true → c.since + c.heard = s.emitted) ∧
      part.decodeAll c.frameStream.length c.frameStream =
        ((s.frameTransform.pushed.drop c.since).take c.heard, []) ∧
      ∀ received, received <+: c.frameStream → ∃ k tail,
        part.decodeAll received.length received =
          (((s.frameTransform.pushed.drop c.since).take c.heard).take k, tail) := by
  have h : s.Inv := run_inv HttpServer.Inv (fun _ _ _ h ht => httpStep_inv h ht) init_inv hr
  refine ⟨run_frameTransform hr, h.first, fun c hc => ?_⟩
  have hok := h.ok c hc
  refine ⟨hok.le, hok.live, ?_, fun received hreceived => ?_⟩
  · rw [hok.body]
    exact part.decodeAll_flatMap part_ne_nil _ (Nat.le_refl _)
  · rw [hok.body] at hreceived
    obtain ⟨k, -, tail, hdecode, -⟩ :=
      part.decodeAll_prefix part_ne_nil hreceived (Nat.le_refl received.length)
    exact ⟨k, tail, hdecode⟩

/-- A frame comes in two messages before the first request, which is then closed. -/
def earlyFrame : List HttpAct :=
  [.message [0xFF, 0xD8], .message [0xFF, 0xD9], .request, .data, .close 0]

theorem transform_earlyFrame :
    transform (transform .init [0xFF, 0xD8]) [0xFF, 0xD9] = ⟨[], [[0xFF, 0xD8, 0xFF, 0xD9]]⟩ := by
  have hfirst : transformLoop [0xFF, 0xD8] = ([], [0xFF, 0xD8]) := by
    rw [transformLoop]
    rfl
  have hrest : transformLoop [] = ([], []) := by
    rw [transformLoop]
    rfl
  have hsecond : transformLoop [0xFF, 0xD8, 0xFF, 0xD9] = ([[0xFF, 0xD8, 0xFF, 0xD9]], []) := by
    have hmarkers : markerIndices [0xFF, 0xD8, 0xFF, 0xD9] = some (0, 2) := by decide
    rw [transformLoop]
    split
    · next h =>
      rw [hmarkers] at h
      cases h
    · next startMarkerIndex endMarkerIndex h =>
      rw [hmarkers] at h
      cases h
      have hslice : slice [0xFF, 0xD8, 0xFF, 0xD9] 4 4 = [] := rfl
      simp [endMarker_length, hslice, hrest]
      rfl
  simp [transform, FrameTransform.init, hfirst, hsecond]

theorem http_body_decodes_earlyFrame :
    ∃ s c, run httpStep .init earlyFrame = some s ∧ s.connections[0]? = some c ∧
      part.decodeAll c.frameStream.length c.frameStream = ([[0xFF, 0xD8, 0xFF, 0xD9]], []) := by
  have hfinal : (run httpStep .init earlyFrame).map (fun s =>
      (s.frameTransform.pushed, s.connections.map fun c => (c.since, c.heard))) =
      some ([[0xFF, 0xD8, 0xFF, 0xD9]], [(0, 1)]) := by
    simp [run, earlyFrame, httpStep, HttpServer.init, transform_earlyFrame, Connection.accepted,
      Connection.data]
  obtain ⟨s, hs, hvalues⟩ := Option.map_eq_some_iff.mp hfinal
  simp only [Prod.mk.injEq] at hvalues
  obtain ⟨hpushed, hconnections⟩ := hvalues
  obtain ⟨c, hc, hspan⟩ := List.map_eq_singleton_iff.mp hconnections
  simp only [Prod.mk.injEq] at hspan
  have h := (http_body_decodes earlyFrame s hs).2.2 c (by simp [hc])
  refine ⟨s, c, hs, by simp [hc], ?_⟩
  rw [h.2.2.1, hpushed, hspan.1, hspan.2]
  rfl

end MotionDetector.Stream
