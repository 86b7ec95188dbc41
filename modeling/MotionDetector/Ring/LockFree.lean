import MotionDetector.Lib.Transition
import MotionDetector.Ring.Frame
import Mathlib.Data.Finset.Insert

/-!
# The raw frame ring without a lock (`middleware/frameBuffer/framebuffer.c`)

One producer in `framebuffer_writeframe`, one consumer in
`framebuffer_getframe_ptr`, use of the slot and `framebuffer_freeframe`. Every
load and store of an index and of a slot byte is a step of its own; the two
loads of a full or empty test come in either order, and `memcpy` may store the
bytes in any order and more than once. A call of `framebuffer_writeframe` is
followed from the full test on, with the dequeued frame it is to save.
-/

namespace MotionDetector.LockFree

open Transition

variable {n : ℕ}

structure RawFrame (n : ℕ) where
  bytes : List UInt8
  fits : bytes.length ≤ n

inductive ProducerPc (n : ℕ) where
  | idle
  | fullTest (frame : RawFrame n) (writePtr readPtr : Option UInt32)
  | slotAddress (frame : RawFrame n)
  | copying (frame : RawFrame n) (slot : ℕ) (copied : Finset ℕ)
  | incLoad (frame : RawFrame n)
  | incStore (frame : RawFrame n) (writePtr : UInt32)

/- `slot` is the pointer that `framebuffer_getframe_ptr` returned and `copy`
what `framebuffer_getframe` would have copied out at that moment. -/
inductive ConsumerPc (n : ℕ) where
  | idle
  | emptyTest (readPtr writePtr : Option UInt32)
  | slotAddress
  | holding (slot : ℕ) (copy : Frame n) (seen : List (ℕ × UInt8))
  | freeTest (slot : ℕ) (copy : Frame n) (readPtr writePtr : Option UInt32)
  | incLoad (slot : ℕ) (copy : Frame n)
  | incStore (slot : ℕ) (copy : Frame n) (readPtr : UInt32)

inductive ProducerAct (n : ℕ) where
  | writeframe (frame : RawFrame n)
  | loadWritePtr
  | loadReadPtr
  | storeByte (j : ℕ)
  | advance

inductive ConsumerAct where
  | getframePtr
  | loadReadPtr
  | loadWritePtr
  | readByte (j : ℕ)
  | freeframe
  | advance

inductive Act (n : ℕ) where
  | producer (a : ProducerAct n)
  | consumer (a : ConsumerAct)

/-- The shared ring, both program counters, the frames whose full test let
them through and what the consumer held when it freed a slot. -/
structure System (n : ℕ) where
  ring : RingBuffer (Frame n)
  producer : ProducerPc n
  consumer : ConsumerPc n
  accepted : List (RawFrame n)
  consumed : List (Frame n)

def System.init (SIZE : UInt32) : System n :=
  ⟨.init (fun _ => .zero) SIZE, .idle, .idle, [], []⟩

def producerStep (s : System n) (a : ProducerAct n) : Option (System n) :=
  match s.producer, a with
  | .idle, .writeframe frame => some { s with producer := .fullTest frame none none }
  | .fullTest frame none readPtr, .loadWritePtr =>
    some { s with producer := .fullTest frame (some s.ring.writePtr) readPtr }
  | .fullTest frame writePtr none, .loadReadPtr =>
    some { s with producer := .fullTest frame writePtr (some s.ring.readPtr) }
  | .fullTest frame (some writePtr) (some readPtr), .advance =>
    if ({ s.ring with writePtr := writePtr, readPtr := readPtr } : RingBuffer _).isFull then
      some { s with producer := .idle }
    else some { s with producer := .slotAddress frame, accepted := s.accepted ++ [frame] }
  | .slotAddress frame, .advance =>
    some { s with producer := .copying frame s.ring.writePtr.toNat ∅ }
  | .copying frame slot copied, .storeByte j =>
    match frame.bytes[j]? with
    | none => none
    | some x =>
      some { s with
        ring := { s.ring with
          data := Function.update s.ring.data slot ((s.ring.data slot).setByte j x) }
        producer := .copying frame slot (insert j copied) }
  | .copying frame _ copied, .advance =>
    if ∀ j < frame.bytes.length, j ∈ copied then some { s with producer := .incLoad frame }
    else none
  | .incLoad frame, .advance => some { s with producer := .incStore frame s.ring.writePtr }
  | .incStore _ writePtr, .advance =>
    some { s with
      ring := { s.ring with writePtr := (writePtr + 1) &&& (s.ring.size - 1) }
      producer := .idle }
  | _, _ => none

def consumerStep (s : System n) (a : ConsumerAct) : Option (System n) :=
  match s.consumer, a with
  | .idle, .getframePtr => some { s with consumer := .emptyTest none none }
  | .emptyTest none writePtr, .loadReadPtr =>
    some { s with consumer := .emptyTest (some s.ring.readPtr) writePtr }
  | .emptyTest readPtr none, .loadWritePtr =>
    some { s with consumer := .emptyTest readPtr (some s.ring.writePtr) }
  | .emptyTest (some readPtr) (some writePtr), .advance =>
    if ({ s.ring with writePtr := writePtr, readPtr := readPtr } : RingBuffer _).isEmpty then
      some { s with consumer := .idle }
    else some { s with consumer := .slotAddress }
  | .slotAddress, .advance =>
    some { s with consumer := .holding s.ring.readZc s.ring.read.1 [] }
  | .holding slot copy seen, .readByte j =>
    match (s.ring.data slot).bytes[j]? with
    | none => none
    | some x => some { s with consumer := .holding slot copy (seen ++ [(j, x)]) }
  | .holding slot copy _, .freeframe => some { s with consumer := .freeTest slot copy none none }
  | .freeTest slot copy none writePtr, .loadReadPtr =>
    some { s with consumer := .freeTest slot copy (some s.ring.readPtr) writePtr }
  | .freeTest slot copy readPtr none, .loadWritePtr =>
    some { s with consumer := .freeTest slot copy readPtr (some s.ring.writePtr) }
  | .freeTest slot copy (some readPtr) (some writePtr), .advance =>
    -- the failing branch of `framebuffer_freeframe` keeps the slot in the ring
    if ({ s.ring with writePtr := writePtr, readPtr := readPtr } : RingBuffer _).isEmpty then
      some { s with consumer := .idle }
    else some { s with consumer := .incLoad slot copy }
  | .incLoad slot copy, .advance => some { s with consumer := .incStore slot copy s.ring.readPtr }
  | .incStore _ copy readPtr, .advance =>
    some { s with
      ring := { s.ring with readPtr := (readPtr + 1) &&& (s.ring.size - 1) }
      consumer := .idle
      consumed := s.consumed ++ [copy] }
  | _, _ => none

def step (s : System n) : Act n → Option (System n)
  | .producer a => producerStep s a
  | .consumer a => consumerStep s a

def Writes (s : System n) (a : Act n) (slot : ℕ) : Prop :=
  ∃ frame copied j, s.producer = .copying frame slot copied ∧ a = .producer (.storeByte j)

/-- The slot the consumer has a pointer to, with the copy made for comparison. -/
def ConsumerPc.held : ConsumerPc n → Option (ℕ × Frame n)
  | .holding slot copy _ => some (slot, copy)
  | .freeTest slot copy _ _ => some (slot, copy)
  | .incLoad slot copy => some (slot, copy)
  | .incStore slot copy _ => some (slot, copy)
  | _ => none

def ProducerPc.inflight : ProducerPc n → List (RawFrame n)
  | .slotAddress frame => [frame]
  | .copying frame _ _ => [frame]
  | .incLoad frame => [frame]
  | .incStore frame _ => [frame]
  | _ => []

/-! ### The invariant -/

/-- A value of `readPtr` loaded earlier: the ring was not fuller then. -/
def StaleRead (k R W : ℕ) (r : UInt32) : Prop :=
  ∃ R₀ ≤ R, W < R₀ + 2 ^ k ∧ r.toNat = R₀ % 2 ^ k

def StaleWrite (k low W : ℕ) (w : UInt32) : Prop :=
  ∃ W₀, low ≤ W₀ ∧ W₀ ≤ W ∧ w.toNat = W₀ % 2 ^ k

def ProducerOk (k R W : ℕ) (ring : RingBuffer (Frame n)) : ProducerPc n → Prop
  | .idle => True
  | .fullTest _ writePtr readPtr =>
    (∀ w ∈ writePtr, w = ring.writePtr) ∧ ∀ r ∈ readPtr, StaleRead k R W r
  | .slotAddress _ => W + 1 < R + 2 ^ k
  | .copying frame slot copied =>
    W + 1 < R + 2 ^ k ∧ slot = W % 2 ^ k ∧
      ∀ j ∈ copied, (ring.data slot).bytes[j]? = frame.bytes[j]?
  | .incLoad frame => W + 1 < R + 2 ^ k ∧ frame.bytes <+: (ring.data (W % 2 ^ k)).bytes
  | .incStore frame writePtr =>
    W + 1 < R + 2 ^ k ∧ frame.bytes <+: (ring.data (W % 2 ^ k)).bytes ∧ writePtr = ring.writePtr

def Holds (k R W : ℕ) (ring : RingBuffer (Frame n)) (slot : ℕ) (copy : Frame n) : Prop :=
  R < W ∧ slot = R % 2 ^ k ∧ ring.data slot = copy

def ConsumerOk (k R W : ℕ) (ring : RingBuffer (Frame n)) : ConsumerPc n → Prop
  | .idle => True
  | .emptyTest readPtr writePtr =>
    (∀ r ∈ readPtr, r = ring.readPtr) ∧ ∀ w ∈ writePtr, StaleWrite k R W w
  | .slotAddress => R < W
  | .holding slot copy seen =>
    Holds k R W ring slot copy ∧ ∀ p ∈ seen, copy.bytes[p.1]? = some p.2
  | .freeTest slot copy readPtr writePtr =>
    Holds k R W ring slot copy ∧ (∀ r ∈ readPtr, r = ring.readPtr) ∧
      ∀ w ∈ writePtr, StaleWrite k (R + 1) W w
  | .incLoad slot copy => Holds k R W ring slot copy
  | .incStore slot copy readPtr => Holds k R W ring slot copy ∧ readPtr = ring.readPtr

def Carries (frame : RawFrame n) (image : Frame n) : Prop := frame.bytes <+: image.bytes

structure Inv (k R W : ℕ) (published : List (RawFrame n)) (s : System n) : Prop where
  tracks : s.ring.Tracks k R W
  accepted : s.accepted = published ++ s.producer.inflight
  images : List.Forall₂ Carries published (s.consumed ++ s.ring.contents)
  producer : ProducerOk k R W s.ring s.producer
  consumer : ConsumerOk k R W s.ring s.consumer

theorem init_inv {k : ℕ} {SIZE : UInt32} (hk : 1 ≤ k) (hs : SIZE.toNat = 2 ^ k) :
    Inv k 0 0 [] (System.init SIZE : System n) := by
  have ht := RingBuffer.init_tracks (fun _ => (Frame.zero : Frame n)) hk hs
  refine ⟨ht, rfl, ?_, trivial, trivial⟩
  simp [System.init, RingBuffer.init_contents]

/-! ### What the other side's steps leave alone -/

theorem StaleRead.mono {k R R' W : ℕ} {r : UInt32} (h : StaleRead k R W r) (hR : R ≤ R') :
    StaleRead k R' W r := by
  obtain ⟨R₀, h1, h2, h3⟩ := h
  exact ⟨R₀, h1.trans hR, h2, h3⟩

theorem StaleWrite.mono {k low W W' : ℕ} {w : UInt32} (h : StaleWrite k low W w) (hW : W ≤ W') :
    StaleWrite k low W' w := by
  obtain ⟨W₀, h1, h2, h3⟩ := h
  exact ⟨W₀, h1, h2.trans hW, h3⟩

/- Freeing slots keeps what the producer knows. -/
theorem ProducerOk.mono {k R R' W : ℕ} {ring ring' : RingBuffer (Frame n)} {pc : ProducerPc n}
    (h : ProducerOk k R W ring pc) (hR : R ≤ R') (hw : ring'.writePtr = ring.writePtr)
    (hd : ring'.data = ring.data) : ProducerOk k R' W ring' pc := by
  cases pc with
  | idle => trivial
  | fullTest frame writePtr readPtr =>
    exact ⟨fun w hm => (h.1 w hm).trans hw.symm, fun r hm => (h.2 r hm).mono hR⟩
  | slotAddress frame =>
    have h1 : W + 1 < R + 2 ^ k := h
    show W + 1 < R' + 2 ^ k
    omega
  | copying frame slot copied =>
    have h1 := h.1
    exact ⟨by omega, h.2.1, by rw [hd]; exact h.2.2⟩
  | incLoad frame =>
    have h1 := h.1
    exact ⟨by omega, by rw [hd]; exact h.2⟩
  | incStore frame writePtr =>
    have h1 := h.1
    exact ⟨by omega, by rw [hd]; exact h.2.1, h.2.2.trans hw.symm⟩

theorem Holds.mono {k R W W' : ℕ} {ring ring' : RingBuffer (Frame n)} {slot : ℕ} {copy : Frame n}
    (h : Holds k R W ring slot copy) (hW : W ≤ W')
    (hd : R < W → ring'.data (R % 2 ^ k) = ring.data (R % 2 ^ k)) :
    Holds k R W' ring' slot copy := by
  obtain ⟨h1, rfl, h3⟩ := h
  exact ⟨by omega, rfl, (hd h1).trans h3⟩

/- Publishing and storing outside the oldest slot keep what the consumer knows. -/
theorem ConsumerOk.mono {k R W W' : ℕ} {ring ring' : RingBuffer (Frame n)} {pc : ConsumerPc n}
    (h : ConsumerOk k R W ring pc) (hW : W ≤ W') (hr : ring'.readPtr = ring.readPtr)
    (hd : R < W → ring'.data (R % 2 ^ k) = ring.data (R % 2 ^ k)) :
    ConsumerOk k R W' ring' pc := by
  cases pc with
  | idle => trivial
  | emptyTest readPtr writePtr =>
    exact ⟨fun r hm => (h.1 r hm).trans hr.symm, fun w hm => (h.2 w hm).mono hW⟩
  | slotAddress =>
    have h1 : R < W := h
    show R < W'
    omega
  | holding slot copy seen => exact ⟨h.1.mono hW hd, h.2⟩
  | freeTest slot copy readPtr writePtr =>
    exact ⟨h.1.mono hW hd, fun r hm => (h.2.1 r hm).trans hr.symm,
      fun w hm => (h.2.2 w hm).mono hW⟩
  | incLoad slot copy => exact Holds.mono h hW hd
  | incStore slot copy readPtr => exact ⟨h.1.mono hW hd, h.2.trans hr.symm⟩

/-! ### The producer's steps -/

/- A full test on a stale read index errs on the safe side. -/
theorem full_test {k R W : ℕ} {ring : RingBuffer (Frame n)} {r : UInt32}
    (ht : ring.Tracks k R W) (hr : StaleRead k R W r)
    (h : ¬ ({ ring with readPtr := r } : RingBuffer _).isFull = true) : W + 1 < R + 2 ^ k := by
  obtain ⟨R₀, h1, h2, h3⟩ := hr
  have ht' : RingBuffer.Tracks { ring with readPtr := r } k R₀ W :=
    ⟨ht.pos, ht.size, h3, ht.write, h1.trans ht.le, h2⟩
  rw [ht'.isFull] at h
  omega

/- The byte is stored in the free cell at the write index. -/
theorem Inv.storeByte {k R W : ℕ} {published : List (RawFrame n)} {s : System n}
    (hi : Inv k R W published s) {frame : RawFrame n} {slot : ℕ} {copied : Finset ℕ} {j : ℕ}
    {x : UInt8} (hpc : s.producer = .copying frame slot copied) (hx : frame.bytes[j]? = some x) :
    Inv k R W published { s with
      ring := { s.ring with
        data := Function.update s.ring.data slot ((s.ring.data slot).setByte j x) }
      producer := .copying frame slot (insert j copied) } := by
  obtain ⟨ht, hacc, himg, hp, hc⟩ := hi
  rw [hpc] at hacc hp
  obtain ⟨hroom, rfl, hcopied⟩ := hp
  have hother : ∀ i, i ≠ W % 2 ^ k → Function.update s.ring.data (W % 2 ^ k)
      ((s.ring.data (W % 2 ^ k)).setByte j x) i = s.ring.data i :=
    fun i hne => Function.update_of_ne hne _ _
  have hcont := ht.contents_congr (Function.update s.ring.data (W % 2 ^ k)
    ((s.ring.data (W % 2 ^ k)).setByte j x)) fun i ho => hother i fun he =>
      ht.not_occupied (he ▸ ho)
  refine ⟨ht.setData _, hacc, by rw [hcont]; exact himg,
    ⟨hroom, rfl, fun i hmem => ?_⟩, hc.mono le_rfl rfl fun hlt => hother _ fun he => ?_⟩
  · have hj : j < n := by
      have := (List.getElem?_eq_some_iff.mp hx).1
      have := frame.fits
      omega
    simp only [Function.update_self, Frame.setByte_getElem]
    by_cases hij : i = j
    · subst hij
      rw [if_pos ⟨rfl, hj⟩, hx]
    · rw [if_neg (by simp [hij])]
      exact hcopied i (by simpa [hij] using hmem)
  · have := Circular.mod_inj le_rfl (by omega) ht.le ht.room he
    omega

theorem Inv.publish {k R W : ℕ} {published : List (RawFrame n)} {s : System n}
    (hi : Inv k R W published s) {frame : RawFrame n} {writePtr : UInt32}
    (hpc : s.producer = .incStore frame writePtr) :
    Inv k R (W + 1) (published ++ [frame]) { s with
      ring := { s.ring with writePtr := (writePtr + 1) &&& (s.ring.size - 1) }
      producer := .idle } := by
  obtain ⟨ht, hacc, himg, hp, hc⟩ := hi
  rw [hpc] at hacc hp
  obtain ⟨hroom, hpre, rfl⟩ := hp
  have himg' : List.Forall₂ Carries (published ++ [frame])
      (s.consumed ++ s.ring.incWriteptr.contents) := by
    rw [ht.contents_incWriteptr hroom, ← List.append_assoc]
    exact List.rel_append himg (.cons hpre .nil)
  exact ⟨ht.incWriteptr hroom, by simpa [ProducerPc.inflight] using hacc, himg', trivial,
    hc.mono (Nat.le_succ W) rfl fun _ => rfl⟩

theorem producerStep_inv {k R W : ℕ} {published : List (RawFrame n)} {s t : System n}
    {a : ProducerAct n} (hi : Inv k R W published s) (h : producerStep s a = some t) :
    ∃ W' published', Inv k R W' published' t := by
  have ⟨ht, hacc, himg, hp, hc⟩ := hi
  unfold producerStep at h
  split at h
  · next frame hpc =>
    cases h
    rw [hpc] at hacc
    exact ⟨W, published, ht, hacc, himg, ⟨by simp, by simp⟩, hc⟩
  · next frame readPtr hpc =>
    cases h
    rw [hpc] at hacc hp
    exact ⟨W, published, ht, hacc, himg, ⟨by simp, hp.2⟩, hc⟩
  · next frame writePtr hpc =>
    cases h
    rw [hpc] at hacc hp
    refine ⟨W, published, ht, hacc, himg, ⟨hp.1, fun r hr => ?_⟩, hc⟩
    obtain rfl : s.ring.readPtr = r := by simpa using hr
    exact ⟨R, le_rfl, ht.room, ht.read⟩
  · next frame writePtr readPtr hpc =>
    rw [hpc] at hacc hp
    obtain rfl : writePtr = s.ring.writePtr := hp.1 writePtr rfl
    split at h
    · cases h
      exact ⟨W, published, ht, hacc, himg, trivial, hc⟩
    · next hfull =>
      cases h
      have hroom : W + 1 < R + 2 ^ k := full_test ht (hp.2 readPtr rfl) hfull
      have hacc' : s.accepted = published := by simpa [ProducerPc.inflight] using hacc
      exact ⟨W, published, ht, by simp [ProducerPc.inflight, hacc'], himg, hroom, hc⟩
  · next frame hpc =>
    cases h
    rw [hpc] at hacc hp
    exact ⟨W, published, ht, hacc, himg, ⟨hp, ht.write, by simp⟩, hc⟩
  · next frame slot copied j hpc =>
    split at h
    · cases h
    · next x hx =>
      cases h
      exact ⟨W, published, hi.storeByte hpc hx⟩
  · next frame slot copied hpc =>
    rw [hpc] at hacc hp
    obtain ⟨hroom, rfl, hcopied⟩ := hp
    split at h
    · next hall =>
      cases h
      have hpre : frame.bytes <+: (s.ring.data (W % 2 ^ k)).bytes := by
        rw [List.prefix_iff_getElem?]
        intro i hi
        rw [hcopied i (hall i hi), List.getElem?_eq_getElem hi]
      exact ⟨W, published, ht, hacc, himg, ⟨hroom, hpre⟩, hc⟩
    · cases h
  · next frame hpc =>
    cases h
    rw [hpc] at hacc hp
    exact ⟨W, published, ht, hacc, himg, ⟨hp.1, hp.2, rfl⟩, hc⟩
  · next frame writePtr hpc =>
    cases h
    exact ⟨W + 1, published ++ [frame], hi.publish hpc⟩
  · cases h

/-! ### The consumer's steps -/

/- An empty test on a stale write index: a ring seen non-empty still is. -/
theorem empty_test {k low R W : ℕ} {ring : RingBuffer (Frame n)} {w : UInt32}
    (ht : ring.Tracks k R W) (hw : StaleWrite k low W w) (hlow : R ≤ low) :
    ∃ W₀, low ≤ W₀ ∧ W₀ ≤ W ∧
      (({ ring with writePtr := w } : RingBuffer _).isEmpty = true ↔ R = W₀) := by
  obtain ⟨W₀, h1, h2, h3⟩ := hw
  have hroom := ht.room
  have ht' : RingBuffer.Tracks { ring with writePtr := w } k R W₀ :=
    ⟨ht.pos, ht.size, ht.read, h3, by omega, by omega⟩
  exact ⟨W₀, h1, h2, ht'.isEmpty⟩

theorem Inv.free {k R W : ℕ} {published : List (RawFrame n)} {s : System n}
    (hi : Inv k R W published s) {slot : ℕ} {copy : Frame n} {readPtr : UInt32}
    (hpc : s.consumer = .incStore slot copy readPtr) :
    Inv k (R + 1) W published { s with
      ring := { s.ring with readPtr := (readPtr + 1) &&& (s.ring.size - 1) }
      consumer := .idle
      consumed := s.consumed ++ [copy] } := by
  obtain ⟨ht, hacc, himg, hp, hc⟩ := hi
  rw [hpc] at hc
  obtain ⟨⟨hlt, rfl, hcopy⟩, rfl⟩ := hc
  have himg' : List.Forall₂ Carries published
      (s.consumed ++ [copy] ++ s.ring.incReadptr.contents) := by
    rw [List.append_assoc, List.singleton_append, ← hcopy, ← ht.contents_incReadptr hlt]
    exact himg
  exact ⟨ht.incReadptr hlt, hacc, himg', hp.mono (Nat.le_succ R) rfl rfl, trivial⟩

theorem consumerStep_inv {k R W : ℕ} {published : List (RawFrame n)} {s t : System n}
    {a : ConsumerAct} (hi : Inv k R W published s) (h : consumerStep s a = some t) :
    ∃ R', Inv k R' W published t := by
  have ⟨ht, hacc, himg, hp, hc⟩ := hi
  unfold consumerStep at h
  split at h
  · next hpc =>
    cases h
    exact ⟨R, ht, hacc, himg, hp, by simp, by simp⟩
  · next writePtr hpc =>
    cases h
    rw [hpc] at hc
    exact ⟨R, ht, hacc, himg, hp, by simp, hc.2⟩
  · next readPtr hpc =>
    cases h
    rw [hpc] at hc
    refine ⟨R, ht, hacc, himg, hp, hc.1, fun w hw => ?_⟩
    obtain rfl : s.ring.writePtr = w := by simpa using hw
    exact ⟨W, ht.le, le_rfl, ht.write⟩
  · next readPtr writePtr hpc =>
    rw [hpc] at hc
    obtain rfl : readPtr = s.ring.readPtr := hc.1 readPtr rfl
    obtain ⟨W₀, h1, h2, hiff⟩ := empty_test ht (hc.2 writePtr rfl) le_rfl
    split at h
    · cases h
      exact ⟨R, ht, hacc, himg, hp, trivial⟩
    · next hempty =>
      cases h
      have hne : R ≠ W₀ := fun he => hempty (hiff.mpr he)
      have hlt : R < W := by omega
      exact ⟨R, ht, hacc, himg, hp, hlt⟩
  · next hpc =>
    cases h
    rw [hpc] at hc
    exact ⟨R, ht, hacc, himg, hp, ⟨hc, ht.read, rfl⟩, by simp⟩
  · next slot copy seen j hpc =>
    rw [hpc] at hc
    obtain ⟨hholds, hseen⟩ := hc
    split at h
    · cases h
    · next x hx =>
      cases h
      refine ⟨R, ht, hacc, himg, hp, hholds, fun p hmem => ?_⟩
      rcases List.mem_append.mp hmem with hmem | hmem
      · exact hseen p hmem
      · obtain rfl : p = (j, x) := by simpa using hmem
        rw [← hholds.2.2]
        exact hx
  · next slot copy seen hpc =>
    cases h
    rw [hpc] at hc
    exact ⟨R, ht, hacc, himg, hp, hc.1, by simp, by simp⟩
  · next slot copy writePtr hpc =>
    cases h
    rw [hpc] at hc
    exact ⟨R, ht, hacc, himg, hp, hc.1, by simp, hc.2.2⟩
  · next slot copy readPtr hpc =>
    cases h
    rw [hpc] at hc
    refine ⟨R, ht, hacc, himg, hp, hc.1, hc.2.1, fun w hw => ?_⟩
    obtain rfl : s.ring.writePtr = w := by simpa using hw
    exact ⟨W, hc.1.1, le_rfl, ht.write⟩
  · next slot copy readPtr writePtr hpc =>
    rw [hpc] at hc
    obtain ⟨hholds, hread, hwrite⟩ := hc
    obtain rfl : readPtr = s.ring.readPtr := hread readPtr rfl
    obtain ⟨W₀, h1, h2, hiff⟩ := empty_test ht (hwrite writePtr rfl) (Nat.le_succ R)
    split at h
    · next hempty =>
      have := hiff.mp hempty
      omega
    · cases h
      exact ⟨R, ht, hacc, himg, hp, hholds⟩
  · next slot copy hpc =>
    cases h
    rw [hpc] at hc
    exact ⟨R, ht, hacc, himg, hp, hc, rfl⟩
  · next slot copy readPtr hpc =>
    cases h
    exact ⟨R + 1, hi.free hpc⟩
  · cases h

theorem step_inv {k : ℕ} {s t : System n} {a : Act n}
    (hi : ∃ R W published, Inv k R W published s) (h : step s a = some t) :
    ∃ R W published, Inv k R W published t := by
  obtain ⟨R, W, published, hi⟩ := hi
  cases a with
  | producer a =>
    obtain ⟨W', published', hi'⟩ := producerStep_inv hi h
    exact ⟨R, W', published', hi'⟩
  | consumer a =>
    obtain ⟨R', hi'⟩ := consumerStep_inv hi h
    exact ⟨R', W, published, hi'⟩

theorem reachable_inv {k : ℕ} {SIZE : UInt32} (hk : 1 ≤ k) (hs : SIZE.toNat = 2 ^ k)
    {acts : List (Act n)} {s : System n} (hr : run step (.init SIZE) acts = some s) :
    ∃ R W published, Inv k R W published s :=
  run_inv (fun s => ∃ R W published, Inv k R W published s) (fun _ _ _ => step_inv)
    ⟨0, 0, [], init_inv hk hs⟩ hr

/-! ### Safety -/

theorem Inv.holds {k R W : ℕ} {published : List (RawFrame n)} {s : System n}
    (hi : Inv k R W published s) {slot : ℕ} {copy : Frame n}
    (h : s.consumer.held = some (slot, copy)) : Holds k R W s.ring slot copy := by
  have hc := hi.consumer
  cases hpc : s.consumer with
  | idle => simp [hpc, ConsumerPc.held] at h
  | emptyTest readPtr writePtr => simp [hpc, ConsumerPc.held] at h
  | slotAddress => simp [hpc, ConsumerPc.held] at h
  | holding slot' copy' seen =>
    rw [hpc] at h hc
    cases h
    exact hc.1
  | freeTest slot' copy' readPtr writePtr =>
    rw [hpc] at h hc
    cases h
    exact hc.1
  | incLoad slot' copy' =>
    rw [hpc] at h hc
    cases h
    exact hc
  | incStore slot' copy' readPtr =>
    rw [hpc] at h hc
    cases h
    exact hc.1

/-- In every state of every interleaving: a byte is stored only into a free
slot, the consumer sees what it would have copied out, and what it consumed
followed by the ring is what was accepted, in order. -/
theorem lock_free_safety {k : ℕ} {SIZE : UInt32} (hk : 1 ≤ k) (hs : SIZE.toNat = 2 ^ k)
    (acts : List (Act n)) (s : System n) (hr : run step (.init SIZE) acts = some s) :
    (∀ a slot, Writes s a slot →
      ¬ s.ring.Occupied slot ∧ ∀ copy, s.consumer.held ≠ some (slot, copy)) ∧
    (∀ slot copy, s.consumer.held = some (slot, copy) → s.ring.data slot = copy) ∧
    (∀ slot copy seen, s.consumer = .holding slot copy seen →
      ∀ p ∈ seen, copy.bytes[p.1]? = some p.2) ∧
    (∃ published, s.accepted = published ++ s.producer.inflight ∧
      List.Forall₂ Carries published (s.consumed ++ s.ring.contents)) := by
  obtain ⟨R, W, published, hi⟩ := reachable_inv hk hs hr
  refine ⟨?_, fun slot copy hheld => (hi.holds hheld).2.2, ?_, published, hi.accepted, hi.images⟩
  · rintro a slot ⟨frame, copied, j, hpc, -⟩
    have hp := hi.producer
    rw [hpc] at hp
    obtain ⟨hroom, rfl, -⟩ := hp
    refine ⟨hi.tracks.not_occupied, fun copy hheld => ?_⟩
    obtain ⟨hlt, heq, -⟩ := hi.holds hheld
    have := Circular.mod_inj hi.tracks.le hi.tracks.room le_rfl (by omega) heq
    omega
  · intro slot copy seen hpc
    have hc := hi.consumer
    rw [hpc] at hc
    exact hc.2

def handover : List (Act 1) :=
  [.producer (.writeframe ⟨[7], le_rfl⟩), .producer .loadReadPtr, .producer .loadWritePtr,
    .producer .advance, .producer .advance, .producer (.storeByte 0), .producer .advance,
    .consumer .getframePtr, .consumer .loadReadPtr, .producer .advance, .producer .advance,
    .consumer .loadWritePtr, .consumer .advance, .consumer .advance]

theorem lock_free_safety_handover :
    ∃ s, run step (.init 2) handover = some s ∧ s.consumer.held = some (0, ⟨[7], rfl⟩) ∧
      s.ring.data 0 = ⟨[7], rfl⟩ := by
  have hsome : (run step (System.init (n := 1) 2) handover).isSome := by decide
  obtain ⟨s, hs⟩ := Option.isSome_iff_exists.1 hsome
  have hheld : (run step (System.init (n := 1) 2) handover).map (·.consumer.held) =
      some (some (0, ⟨[7], rfl⟩)) := by decide
  rw [hs] at hheld
  have hholds : s.consumer.held = some (0, ⟨[7], rfl⟩) := Option.some.inj hheld
  exact ⟨s, hs, hholds,
    (lock_free_safety (k := 1) le_rfl rfl handover s hs).2.1 0 ⟨[7], rfl⟩ hholds⟩

end MotionDetector.LockFree
