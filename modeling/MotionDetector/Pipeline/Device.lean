import Mathlib.Data.List.Perm.Basic
import MotionDetector.Pipeline.Backlog

/-!
# The buffers of the video device (`middleware/frameBuffer/framebuffer.c`)

`framebuffer_init` asks the device for buffers, maps them and queues them, and
every `framebuffer_writeframe` takes one out of its queue and gives it back. The
device is the other party here: what it answers is input, and `Documented` says
which answers its interface allows.
-/

namespace MotionDetector.Pipeline

open Transition

variable {n : ℕ} {lut : ColorLut}

def NUM_FRAME_BUFS : ℕ := 32

/-- An entry of `buffers`. No address is a failed `mmap`, which is not looked at,
or an entry that was never set. -/
structure Mapping where
  start : Option ℕ
  size : ℕ
  deriving DecidableEq, Repr

/-- The results of the calls of `framebuffer_init`: `count` and `length` are what
`VIDIOC_REQBUFS` and `VIDIOC_QUERYBUF` leave in their argument. -/
structure InitCalls where
  reqbufs : ℤ
  count : ℕ
  querybuf : ℕ → ℤ
  length : ℕ → ℕ
  mmap : ℕ → Option ℕ
  qbuf : ℕ → ℤ

/-- `none` is a call of `exit`. -/
def framebufferRequestbuffers (calls : InitCalls) (count : ℕ) : Option ℕ :=
  if framebufferIoctl calls.reqbufs = .failure then none
  else if count < calls.count then none
  else some calls.count

def framebufferMapbuffers (calls : InitCalls) (idx : ℕ) : Option Mapping :=
  if framebufferIoctl (calls.querybuf idx) = .failure then none
  else some ⟨calls.mmap idx, calls.length idx⟩

/-- The buffers that the device took. The results are not looked at. -/
def framebufferInitframebuffers (calls : InitCalls) : List ℕ :=
  (List.range NUM_FRAME_BUFS).filter fun i => framebufferQueueframe (calls.qbuf i) = .success

/-- `buffers` at the return of `framebuffer_init`. -/
def framebufferInit (calls : InitCalls) : Option (List Mapping) := do
  let bufCount ← framebufferRequestbuffers calls NUM_FRAME_BUFS
  let mapped ← (List.range bufCount).mapM (framebufferMapbuffers calls)
  some (mapped ++ List.replicate (NUM_FRAME_BUFS - bufCount) ⟨none, 0⟩)

/-- The device: the buffers that are its own at the moment, and those that are not
queued: the device never took them at `framebuffer_init`, or their requeue failed. -/
structure Device where
  granted : ℕ
  length : ℕ → ℕ
  queued : List ℕ
  lost : List ℕ

def Device.start (calls : InitCalls) : Device :=
  { granted := calls.count
    length := calls.length
    queued := framebufferInitframebuffers calls
    lost := (List.range calls.count).filter fun i =>
      framebufferQueueframe (calls.qbuf i) ≠ .success }

/-- The results of the calls of one `framebuffer_writeframe`: `buf.index` and the
first `buf.bytesused` bytes of that buffer. -/
structure Answer where
  select : ℤ
  dqbuf : ℤ
  index : ℕ
  bytes : List UInt8
  qbuf : ℤ
  deriving DecidableEq, Repr

def Answer.capture (a : Answer) : Capture := ⟨a.select, a.dqbuf, a.bytes, a.qbuf⟩

def Answer.Dequeues (a : Answer) : Prop :=
  a.select ≠ -1 ∧ framebufferDequeueframe a.dqbuf = .success

instance (a : Answer) : Decidable a.Dequeues := inferInstanceAs (Decidable (_ ∧ _))

def Device.writeframe (a : Answer) (d : Device) : Device :=
  if a.Dequeues then
    if framebufferQueueframe a.qbuf = .success then
      { d with queued := d.queued.erase a.index ++ [a.index] }
    else { d with queued := d.queued.erase a.index, lost := d.lost ++ [a.index] }
  else d

/-- A buffer that is dequeued is one of the device's, filled within its length. -/
def Documented (d : Device) (a : Answer) : Prop :=
  a.Dequeues → a.index ∈ d.queued ∧ a.bytes.length ≤ d.length a.index

instance (d : Device) (a : Answer) : Decidable (Documented d a) :=
  inferInstanceAs (Decidable (_ → _))

/-- The device takes no buffer that it did not grant. -/
def DocumentedInit (calls : InitCalls) : Prop :=
  ∀ i < NUM_FRAME_BUFS, framebufferQueueframe (calls.qbuf i) = .success → i < calls.count

instance (calls : InitCalls) : Decidable (DocumentedInit calls) :=
  inferInstanceAs (Decidable (∀ i < NUM_FRAME_BUFS, _))

/-! ### `framebuffer_init` and `framebuffer_deinit` -/

theorem map_of_mapM {α β : Type} {f : α → Option β} {l : List α} {r : List β}
    (h : l.mapM f = some r) : r.map some = l.map f := by
  induction l generalizing r with
  | nil =>
    rw [List.mapM_nil] at h
    cases h
    rfl
  | cons a l ih =>
    rw [List.mapM_cons] at h
    obtain ⟨b, hb, h⟩ := Option.bind_eq_some_iff.mp h
    obtain ⟨rest, hrest, h⟩ := Option.bind_eq_some_iff.mp h
    cases h
    rw [List.map_cons, List.map_cons, hb, ih hrest]

theorem framebufferInit_some {calls : InitCalls} {buffers : List Mapping}
    (h : framebufferInit calls = some buffers) :
    calls.count ≤ NUM_FRAME_BUFS ∧ buffers.length = NUM_FRAME_BUFS ∧
      ∀ i < calls.count, buffers[i]? = some ⟨calls.mmap i, calls.length i⟩ := by
  obtain ⟨bufCount, hcount, h⟩ := Option.bind_eq_some_iff.mp h
  obtain ⟨mapped, hmapped, h⟩ := Option.bind_eq_some_iff.mp h
  have hle : bufCount = calls.count ∧ calls.count ≤ NUM_FRAME_BUFS := by
    unfold framebufferRequestbuffers at hcount
    split at hcount
    · cases hcount
    · split at hcount
      · cases hcount
      · next hlt => exact ⟨(Option.some.inj hcount).symm, Nat.le_of_not_lt hlt⟩
  obtain ⟨rfl, hle⟩ := hle
  have hmap := map_of_mapM hmapped
  have hlen : mapped.length = calls.count := by
    simpa using congrArg List.length hmap
  cases h
  refine ⟨hle, ?_, fun i hi => ?_⟩
  · rw [List.length_append, List.length_replicate, hlen]
    omega
  · have hget := congrArg (fun l => l[i]?) hmap
    simp only [List.getElem?_map, List.getElem?_range hi, Option.map_some,
      framebufferMapbuffers] at hget
    rw [List.getElem?_append_left (by omega)]
    split at hget
    · cases hm : mapped[i]? with
      | none => simp [hm] at hget
      | some m => simp [hm] at hget
    · cases hm : mapped[i]? with
      | none => simp [hm] at hget
      | some m => simpa [hm] using hget

/-- Every granted buffer is the device's or is lost, and no buffer is both or
twice the device's. -/
structure Owned (calls : InitCalls) (d : Device) : Prop where
  granted : d.granted = calls.count
  length : d.length = calls.length
  perm : (d.queued ++ d.lost).Perm (List.range d.granted)

theorem start_owned {calls : InitCalls} (hcount : calls.count ≤ NUM_FRAME_BUFS)
    (hdoc : DocumentedInit calls) : Owned calls (Device.start calls) := by
  refine ⟨rfl, rfl, ?_⟩
  have hqueued : framebufferInitframebuffers calls =
      (List.range calls.count).filter fun i => framebufferQueueframe (calls.qbuf i) = .success := by
    obtain ⟨k, hk⟩ := Nat.exists_eq_add_of_le hcount
    have hrest : ((List.range k).map (calls.count + ·)).filter
        (fun i => framebufferQueueframe (calls.qbuf i) = .success) = [] := by
      rw [List.filter_eq_nil_iff]
      intro i hi hq
      obtain ⟨j, hj, rfl⟩ := List.mem_map.mp hi
      have hlt := List.mem_range.mp hj
      have := hdoc (calls.count + j) (by omega) (of_decide_eq_true hq)
      omega
    rw [framebufferInitframebuffers, hk, List.range_add, List.filter_append, hrest,
      List.append_nil]
  rw [Device.start, hqueued]
  simpa using List.filter_append_perm
    (fun i => decide (framebufferQueueframe (calls.qbuf i) = .success)) (List.range calls.count)

theorem writeframe_owned {calls : InitCalls} {d : Device} {a : Answer} (h : Owned calls d)
    (hdoc : Documented d a) : Owned calls (d.writeframe a) := by
  unfold Device.writeframe
  split
  · next hdq =>
    obtain ⟨hmem, -⟩ := hdoc hdq
    have hback := (List.perm_cons_erase hmem).symm
    split
    · refine ⟨h.granted, h.length, List.Perm.trans ?_ h.perm⟩
      exact (List.perm_append_singleton _ _ |>.trans hback).append_right _
    · refine ⟨h.granted, h.length, List.Perm.trans ?_ h.perm⟩
      rw [← List.append_assoc]
      exact (List.perm_append_singleton _ _).trans (hback.append_right _)
  · exact h

/-! ### The pipeline with its device -/

structure Driven (n : ℕ) where
  system : System n
  device : Device

inductive DrivenAct (n : ℕ) where
  | camera (answer : Answer)
  | other (a : Act n)

/-- The pass of the camera that comes next calls `framebuffer_writeframe`. -/
def Writes (s : System n) : Prop :=
  s.events.camera.state ≠ .exit ∧
    Camera.Serving (Camera.eventSwitch (Camera.processEventQueue s.events.queue).1
      s.events.camera.state)

instance (s : System n) : Decidable (Writes s) :=
  inferInstanceAs (Decidable (_ ∧ (_ ∨ _)))

/-- The camera's calls of the device are made through `camera`. -/
def drivenStep (lut : ColorLut) (s : Driven n) : DrivenAct n → Option (Driven n)
  | .camera answer =>
    (step lut s.system (.events (.camera answer.capture))).map fun t =>
      ⟨t, if Writes s.system then s.device.writeframe answer else s.device⟩
  | .other a =>
    if isCamera a then none else (step lut s.system a).map fun t => ⟨t, s.device⟩

def DrivenAct.forget : DrivenAct n → Act n
  | .camera answer => .events (.camera answer.capture)
  | .other a => a

def Driven.start (calls : InitCalls) : Driven n := ⟨.init, .start calls⟩

def DocumentedStep (s : Driven n) : DrivenAct n → Prop
  | .camera answer => Writes s.system → Documented s.device answer
  | .other _ => True

instance (s : Driven n) (a : DrivenAct n) : Decidable (DocumentedStep s a) :=
  match a with
  | .camera _ => inferInstanceAs (Decidable (_ → _))
  | .other _ => isTrue trivial

variable {calls : InitCalls} {s t : Driven n}

theorem writes_of_stores {s : System n} {io : Capture} (h : Stores s io) : Writes s := by
  have hcap := h.1
  refine ⟨fun hexit => ?_, .inr hcap⟩
  rw [Camera.Capturing, hexit, Camera.eventSwitch_exit] at hcap
  cases hcap

/- The device changes in the passes of the camera that call it. -/
theorem drivenStep_spec {a : DrivenAct n} (ht : drivenStep lut s a = some t) :
    step lut s.system a.forget = some t.system ∧
      (t.device = s.device ∨ ∃ answer, a = .camera answer ∧ Writes s.system ∧
        t.device = s.device.writeframe answer) := by
  cases a with
  | camera answer =>
    simp only [drivenStep] at ht
    obtain ⟨u, hu, rfl⟩ := Option.map_eq_some_iff.mp ht
    refine ⟨hu, ?_⟩
    by_cases hwrites : Writes s.system
    · exact .inr ⟨answer, rfl, hwrites, if_pos hwrites⟩
    · exact .inl (if_neg hwrites)
  | other a =>
    simp only [drivenStep] at ht
    split at ht
    · cases ht
    · obtain ⟨u, hu, rfl⟩ := Option.map_eq_some_iff.mp ht
      exact ⟨hu, .inl rfl⟩

theorem drivenRun_system {acts : List (DrivenAct n)}
    (hr : run (drivenStep lut) s acts = some t) :
    run (step lut) s.system (acts.map DrivenAct.forget) = some t.system := by
  induction acts generalizing s with
  | nil =>
    obtain rfl : s = t := by simpa using hr
    rfl
  | cons a acts ih =>
    obtain ⟨u, hu, hrest⟩ := Option.bind_eq_some_iff.mp hr
    rw [List.map_cons, run_cons_some _ (drivenStep_spec hu).1]
    exact ih hrest

theorem drivenStep_owned {a : DrivenAct n} (h : Owned calls s.device)
    (hdoc : DocumentedStep s a) (ht : drivenStep lut s a = some t) : Owned calls t.device := by
  rcases (drivenStep_spec ht).2 with hsame | ⟨answer, rfl, hwrites, hdevice⟩
  · rw [hsame]
    exact h
  · rw [hdevice]
    exact writeframe_owned h (hdoc hwrites)

/- What is stored came out of a buffer that the device held until then. -/
theorem drivenStep_stored {a : DrivenAct n} (hdoc : DocumentedStep s a)
    (ht : drivenStep lut s a = some t) :
    t.system.capture.stored = s.system.capture.stored ∨
      ∃ (answer : Answer) (image : Frame n), answer.index ∈ s.device.queued ∧
        answer.bytes.length ≤ s.device.length answer.index ∧
        t.system.capture.stored = s.system.capture.stored ++ [(answer.bytes, image)] := by
  rcases step_stored (drivenStep_spec ht).1 with ⟨-, hstored, -⟩ | ⟨io, hio, hstores, hstored, -⟩
  · exact .inl hstored
  · cases a with
    | camera answer =>
      cases hio
      obtain ⟨hmem, hlen⟩ := hdoc (writes_of_stores hstores) ⟨hstores.2.1, hstores.2.2.1⟩
      exact .inr ⟨answer, _, hmem, hlen, hstored⟩
    | other a =>
      obtain rfl : a = .events (.camera io) := hio
      simp [drivenStep, isCamera] at ht

theorem Owned.mem {d : Device} (h : Owned calls d) {i : ℕ} (hi : i ∈ d.queued) :
    i < calls.count := by
  have hrange := h.perm.subset (List.mem_append_left _ hi)
  rw [h.granted] at hrange
  exact List.mem_range.mp hrange

/-- A device that grants two buffers of five bytes. -/
def twoBuffers : InitCalls where
  reqbufs := 0
  count := 2
  querybuf _ := 0
  length _ := 5
  mmap i := some i
  qbuf i := if i < 2 then 0 else -1

def twoMapped : List Mapping :=
  [⟨some 0, 5⟩, ⟨some 1, 5⟩] ++ List.replicate 30 ⟨none, 0⟩

/-- Neither of the buffers is taken back. -/
def bothLost : List (DrivenAct 5) :=
  [.other (motion 5), .camera ⟨0, 0, 1, shortFrame, -1⟩, .camera ⟨0, 0, 0, shortFrame, -1⟩]

/-- With a device whose buffers are no longer than a slot every copy ends inside the
slot that it begins, so that it fits and the frames of all runs are conserved. -/
theorem device_copies_fit (lut : ColorLut) (calls : InitCalls) (buffers : List Mapping)
    (hinit : framebufferInit calls = some buffers) (hdoc : DocumentedInit calls)
    (hlength : ∀ i < calls.count, calls.length i ≤ n) (acts : List (DrivenAct n)) (s : Driven n)
    (hacts : Along (drivenStep lut) DocumentedStep (.start calls) acts)
    (hr : run (drivenStep lut) (.start calls) acts = some s) :
    Short s.system ∧ Along (step lut) StoreFits .init (acts.map DrivenAct.forget) ∧
      s.system.appended = s.system.taken.map Prod.fst ++ s.system.capture.ring.contents := by
  have hshort : Owned calls s.device ∧ Short s.system := by
    refine run_inv_along (fun s : Driven n => Owned calls s.device ∧ Short s.system)
      (fun u a v hu hd hv => ⟨drivenStep_owned hu.1 hd hv, ?_⟩)
      ⟨start_owned (framebufferInit_some hinit).1 hdoc, fun f hf => by cases hf⟩ hacts hr
    rcases drivenStep_stored hd hv with hstored | ⟨answer, image, hmem, hlen, hstored⟩
    · rw [Short, hstored]
      exact hu.2
    · intro f hf
      rw [hstored] at hf
      rcases List.mem_append.mp hf with hf | hf
      · exact hu.2 f hf
      · rw [List.mem_singleton.mp hf]
        rw [hu.1.length] at hlen
        exact hlen.trans (hlength _ (hu.1.mem hmem))
  have hsystem := drivenRun_system hr
  have hfits := reachable_storeFits hsystem hshort.2
  obtain ⟨R, W, R', W', hflow⟩ := reachable_flow hfits hsystem
  exact ⟨hshort.2, hfits, hflow.appended⟩

theorem device_copies_fit_bothLost :
    ∃ s, run (drivenStep flatLut) (.start twoBuffers) bothLost = some s ∧
      s.system.capture.stored.length = 2 ∧ Short s.system ∧
      Along (step flatLut) StoreFits .init (bothLost.map DrivenAct.forget) := by
  have hfinal : (run (drivenStep flatLut) (.start twoBuffers) bothLost).map
      (fun s => s.system.capture.stored.length) = some 2 := by
    decide +kernel
  obtain ⟨s, hs, hvalue⟩ := Option.map_eq_some_iff.mp hfinal
  have h := device_copies_fit flatLut twoBuffers twoMapped (by decide +kernel) (by decide +kernel)
    (by decide) bothLost s (by decide +kernel) hs
  exact ⟨s, hs, hvalue, h.1, h.2.1⟩

end MotionDetector.Pipeline
