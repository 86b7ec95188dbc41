import MotionDetector.Lib.Linearization
import MotionDetector.Pipeline.Framebuffer
import MotionDetector.Ring.LockFree

/-!
# The raw frame ring as an atomic object

The interleavings of `Ring/LockFree` against the functions of
`Pipeline/Framebuffer`, each taken as one step. A call that drops its frame takes
effect at the load of the read index, one that saves it at the store of the write
index; the empty test takes effect at the load of the write index, and freeing at
the store of the read index.
-/

namespace MotionDetector.LockFree

open Transition Linearization

variable {n : ℕ}

inductive Thread where
  | producer
  | consumer
  deriving DecidableEq

/-- The calls, and the reads through the pointer between two of them. -/
inductive Operation (n : ℕ) where
  | writeframe (frame : RawFrame n)
  | getframePtr
  | readByte (slot j : ℕ)
  | freeframe

inductive Result where
  | status (r : SysResult)
  | pointer (r : SysResult × Option ℕ)
  | byte (x : Option UInt8)
  deriving DecidableEq

abbrev AtomicRing (n : ℕ) := Atomic Thread (Operation n) Result (RingBuffer (Frame n))

/-- The system calls around the copy succeed. -/
def atomically (b : RingBuffer (Frame n)) : Operation n → Result × RingBuffer (Frame n)
  | .writeframe frame =>
    (.status (framebufferWriteframe ⟨1, 0, frame.bytes, 0⟩ true b).1,
      (framebufferWriteframe ⟨1, 0, frame.bytes, 0⟩ true b).2)
  | .getframePtr => (.pointer (framebufferGetframePtr b), b)
  | .readByte slot j => (.byte (b.data slot).bytes[j]?, b)
  | .freeframe => (.status (framebufferFreeframe b).1, (framebufferFreeframe b).2)

theorem atomically_writeframe (b : RingBuffer (Frame n)) (frame : RawFrame n) :
    atomically b (.writeframe frame) =
      (.status .success, if b.isFull then b else saveFrame frame.bytes b) := by
  cases hfull : b.isFull with
  | true => simp [atomically, framebufferWriteframe, framebufferDequeueframe,
      framebufferQueueframe, framebufferIoctl, EAGAIN, EPIPE, hfull]
  | false => simp [atomically, framebufferWriteframe, framebufferDequeueframe,
      framebufferQueueframe, framebufferIoctl, EAGAIN, EPIPE, hfull]

/-! ### Calls, effects and returns of the steps -/

def producerMoves (s : System n) : ProducerAct n → List (Move Thread (Operation n) Result)
  | .writeframe frame => [.call .producer (.writeframe frame)]
  | .loadReadPtr => if s.ring.isFull then [.effect .producer] else []
  | .advance =>
    match s.producer with
    | .fullTest _ (some writePtr) (some readPtr) =>
      if ({ s.ring with writePtr := writePtr, readPtr := readPtr } : RingBuffer _).isFull then
        [.ret .producer (.status .success)]
      else []
    | .incStore _ _ => [.effect .producer, .ret .producer (.status .success)]
    | _ => []
  | _ => []

def consumerMoves (s : System n) : ConsumerAct → List (Move Thread (Operation n) Result)
  | .getframePtr => [.call .consumer .getframePtr]
  | .loadWritePtr =>
    match s.consumer with
    | .emptyTest _ _ => [.effect .consumer]
    | _ => []
  | .readByte j =>
    match s.consumer with
    | .holding slot _ _ =>
      [.call .consumer (.readByte slot j), .effect .consumer,
        .ret .consumer (.byte (s.ring.data slot).bytes[j]?)]
    | _ => []
  | .freeframe => [.call .consumer .freeframe]
  | .advance =>
    match s.consumer with
    | .emptyTest (some readPtr) (some writePtr) =>
      if ({ s.ring with writePtr := writePtr, readPtr := readPtr } : RingBuffer _).isEmpty then
        [.ret .consumer (.pointer (.ignore, none))]
      else []
    | .slotAddress => [.ret .consumer (.pointer (.success, some s.ring.readZc))]
    | .freeTest _ _ (some readPtr) (some writePtr) =>
      if ({ s.ring with writePtr := writePtr, readPtr := readPtr } : RingBuffer _).isEmpty then
        [.ret .consumer (.status .failure)]
      else []
    | .incStore _ _ _ => [.effect .consumer, .ret .consumer (.status .success)]
    | _ => []
  | _ => []

def moves (s : System n) : Act n → List (Move Thread (Operation n) Result)
  | .producer a => producerMoves s a
  | .consumer a => consumerMoves s a

/-! ### The simulation -/

def producerPhase (s : System n) : Phase (Operation n) Result :=
  match s.producer with
  | .idle => .outside
  | .fullTest frame _ none => .called (.writeframe frame)
  | .fullTest frame _ (some readPtr) =>
    if ({ s.ring with readPtr := readPtr } : RingBuffer _).isFull then .done (.status .success)
    else .called (.writeframe frame)
  | .slotAddress frame => .called (.writeframe frame)
  | .copying frame _ _ => .called (.writeframe frame)
  | .incLoad frame => .called (.writeframe frame)
  | .incStore frame _ => .called (.writeframe frame)

def consumerPhase (s : System n) : Phase (Operation n) Result :=
  match s.consumer with
  | .idle => .outside
  | .emptyTest _ none => .called .getframePtr
  | .emptyTest _ (some writePtr) =>
    .done (.pointer (framebufferGetframePtr { s.ring with writePtr := writePtr }))
  | .slotAddress => .done (.pointer (.success, some s.ring.readZc))
  | .holding _ _ _ => .outside
  | .freeTest _ _ _ _ => .called .freeframe
  | .incLoad _ _ => .called .freeframe
  | .incStore _ _ _ => .called .freeframe

/-- The slot that is being written is ahead of the atomic ring. -/
def DataOk (object ring : RingBuffer (Frame n)) : ProducerPc n → Prop
  | .copying frame slot copied =>
    (∀ i, i ≠ slot → ring.data i = object.data i) ∧
      (∀ j ∈ copied, j < frame.bytes.length) ∧
      ∀ j, j ∉ copied → (ring.data slot).bytes[j]? = (object.data slot).bytes[j]?
  | .incLoad frame => ring.data = memcpy object.data object.writePtr.toNat frame.bytes
  | .incStore frame _ => ring.data = memcpy object.data object.writePtr.toNat frame.bytes
  | _ => ring.data = object.data

structure Simulates (k : ℕ) (s : System n) (t : AtomicRing n) : Prop where
  inv : ∃ R W published, Inv k R W published s
  size : t.object.size = s.ring.size
  readPtr : t.object.readPtr = s.ring.readPtr
  writePtr : t.object.writePtr = s.ring.writePtr
  data : DataOk t.object s.ring s.producer
  producer : t.phase .producer = producerPhase s
  consumer : t.phase .consumer = consumerPhase s

/- All but the slot at the write index is as in the atomic ring. -/
theorem Simulates.slots {k : ℕ} {s : System n}
    {t : AtomicRing n} (h : Simulates k s t) {i : ℕ}
    (hi : i ≠ s.ring.writePtr.toNat) : s.ring.data i = t.object.data i := by
  have hdata := h.data
  obtain ⟨R, W, published, hinv⟩ := h.inv
  have hp := hinv.producer
  have hcopied {frame : RawFrame n}
      (hd : s.ring.data = memcpy t.object.data t.object.writePtr.toNat frame.bytes) :
      s.ring.data i = t.object.data i := by
    rw [hd, memcpy_of_fits _ _ frame.fits, h.writePtr, Function.update_of_ne hi]
  cases hpc : s.producer with
  | copying frame slot copied =>
    rw [hpc] at hdata hp
    refine hdata.1 i fun heq => hi ?_
    rw [hinv.tracks.write, heq, hp.2.1]
  | incLoad frame =>
    rw [hpc] at hdata
    exact hcopied hdata
  | incStore frame writePtr =>
    rw [hpc] at hdata
    exact hcopied hdata
  | idle =>
    rw [hpc] at hdata
    exact congrFun hdata i
  | fullTest frame writePtr readPtr =>
    rw [hpc] at hdata
    exact congrFun hdata i
  | slotAddress frame =>
    rw [hpc] at hdata
    exact congrFun hdata i

theorem Simulates.isFull {k : ℕ} {s : System n}
    {t : AtomicRing n} (h : Simulates k s t) :
    t.object.isFull = s.ring.isFull := by
  simp only [RingBuffer.isFull, RingBuffer.getlen, h.size, h.readPtr, h.writePtr]

theorem Simulates.isEmpty {k : ℕ} {s : System n}
    {t : AtomicRing n} (h : Simulates k s t) :
    t.object.isEmpty = s.ring.isEmpty := by
  simp only [RingBuffer.isEmpty, h.readPtr, h.writePtr]

/- With every byte stored the slot is what the copy at once makes of it. -/
theorem copied_eq {object ring : RingBuffer (Frame n)} {frame : RawFrame n} {slot : ℕ}
    {copied : Finset ℕ} (h : DataOk object ring (.copying frame slot copied))
    (hcopied : ∀ j ∈ copied, (ring.data slot).bytes[j]? = frame.bytes[j]?)
    (hall : ∀ j < frame.bytes.length, j ∈ copied) :
    ring.data = memcpy object.data slot frame.bytes := by
  obtain ⟨hother, hinside, hrest⟩ := h
  rw [memcpy_of_fits _ _ frame.fits]
  funext i
  by_cases hi : i = slot
  · subst hi
    rw [Function.update_self]
    apply Frame.ext_bytes
    rw [Frame.overwrite_bytes _ frame.fits]
    apply List.ext_getElem?
    intro j
    by_cases hj : j < frame.bytes.length
    · rw [List.getElem?_append_left hj]
      exact hcopied j (hall j hj)
    · rw [List.getElem?_append_right (by omega), List.getElem?_drop,
        Nat.add_sub_cancel' (Nat.le_of_not_lt hj)]
      exact hrest j fun hmem => hj (hinside j hmem)
  · rw [Function.update_of_ne hi]
    exact hother i hi

theorem storeByte_dataOk {object ring : RingBuffer (Frame n)} {frame : RawFrame n} {slot : ℕ}
    {copied : Finset ℕ} (h : DataOk object ring (.copying frame slot copied)) {j : ℕ} {x : UInt8}
    (hx : frame.bytes[j]? = some x) :
    DataOk object
      { ring with data := Function.update ring.data slot ((ring.data slot).setByte j x) }
      (.copying frame slot (insert j copied)) := by
  obtain ⟨hother, hinside, hrest⟩ := h
  refine ⟨fun i hi => ?_, fun i hi => ?_, fun i hi => ?_⟩
  · rw [← hother i hi]
    exact Function.update_of_ne hi _ _
  · rcases Finset.mem_insert.mp hi with rfl | hi
    · exact (List.getElem?_eq_some_iff.mp hx).1
    · exact hinside i hi
  · rw [Finset.mem_insert, not_or] at hi
    rw [← hrest i hi.2]
    simp only [Function.update_self, Frame.setByte_getElem, hi.1, false_and, if_false]

/-- The moves `ms` of the atomic ring lead to a state that simulates `u`. -/
def Matched (k : ℕ) (u : System n) (t : AtomicRing n)
    (ms : List (Move Thread (Operation n) Result)) : Prop :=
  ∃ v, run (atomicStep atomically) t ms = some v ∧ Simulates k u v

/-! ### The statements of the producer -/

section Producer

variable {k : ℕ} {s u : System n} {t : AtomicRing n} {a : ProducerAct n}

theorem Simulates.consumer_update (h : Simulates k s t) (p : Phase (Operation n) Result) :
    Function.update t.phase .producer p .consumer = consumerPhase s := by
  rw [Function.update_of_ne (by decide)]
  exact h.consumer

theorem Simulates.writeframe {frame : RawFrame n} (h : Simulates k s t)
    (hpc : s.producer = .idle) (hu : u = { s with producer := .fullTest frame none none })
    (hinv : ∃ R W published, Inv k R W published u) :
    Matched k u t (producerMoves s (.writeframe frame)) := by
  subst hu
  have hphase := h.producer
  have hdata := h.data
  rw [producerPhase, hpc] at hphase
  rw [hpc] at hdata
  refine ⟨_, run_cons_some [] (step_call _ hphase), hinv, h.size, h.readPtr, h.writePtr, hdata,
    ?_, h.consumer_update (.called (.writeframe frame))⟩
  simp [producerPhase]

theorem Simulates.fullTest_loadWritePtr {frame : RawFrame n} {readPtr : Option UInt32}
    (h : Simulates k s t) (hpc : s.producer = .fullTest frame none readPtr)
    (hu : u = { s with producer := .fullTest frame (some s.ring.writePtr) readPtr })
    (hinv : ∃ R W published, Inv k R W published u) :
    Matched k u t (producerMoves s .loadWritePtr) := by
  subst hu
  have hphase := h.producer
  have hdata := h.data
  rw [hpc] at hdata
  refine ⟨t, rfl, hinv, h.size, h.readPtr, h.writePtr, hdata, ?_, h.consumer⟩
  rw [hphase, producerPhase, producerPhase, hpc]
  cases readPtr with
  | none => rfl
  | some r => rfl

/- The call takes effect at the load of the read index if it is going to find the
ring full. -/
theorem Simulates.fullTest_loadReadPtr {frame : RawFrame n} {writePtr : Option UInt32}
    (h : Simulates k s t) (hpc : s.producer = .fullTest frame writePtr none)
    (hu : u = { s with producer := .fullTest frame writePtr (some s.ring.readPtr) })
    (hinv : ∃ R W published, Inv k R W published u) :
    Matched k u t (producerMoves s .loadReadPtr) := by
  subst hu
  have hphase := h.producer
  have hdata := h.data
  rw [producerPhase, hpc] at hphase
  rw [hpc] at hdata
  by_cases hfull : s.ring.isFull = true
  · have hfull' : t.object.isFull = true := h.isFull.trans hfull
    refine ⟨_, (congrArg _ (if_pos hfull)).trans (run_cons_some [] (step_effect hphase)), ?_⟩
    rw [atomically_writeframe, if_pos hfull']
    refine ⟨hinv, h.size, h.readPtr, h.writePtr, hdata, ?_,
      h.consumer_update (.done (.status .success))⟩
    simp [producerPhase, hfull]
  · refine ⟨t, congrArg _ (if_neg hfull), hinv, h.size, h.readPtr, h.writePtr, hdata, ?_,
      h.consumer⟩
    rw [hphase, producerPhase]
    simp [hfull]

theorem Simulates.fullTest {frame : RawFrame n} {writePtr readPtr : UInt32}
    (h : Simulates k s t)
    (hpc : s.producer = .fullTest frame (some writePtr) (some readPtr))
    (hu : (if ({ s.ring with writePtr := writePtr, readPtr := readPtr } : RingBuffer _).isFull then
        some { s with producer := .idle }
      else some { s with producer := .slotAddress frame, accepted := s.accepted ++ [frame] }) =
        some u)
    (hinv : ∃ R W published, Inv k R W published u) :
    Matched k u t (producerMoves s .advance) := by
  obtain ⟨R, W, published, hi⟩ := h.inv
  have hok := hi.producer
  have hphase := h.producer
  have hdata := h.data
  rw [producerPhase, hpc] at hphase
  rw [hpc] at hdata hok
  obtain rfl : writePtr = s.ring.writePtr := hok.1 writePtr rfl
  split at hu
  · next hfull =>
    cases hu
    have hmoves : producerMoves s .advance = [.ret .producer (.status .success)] := by
      simp [producerMoves, hpc, hfull]
    rw [hmoves]
    refine ⟨_, run_cons_some [] (step_ret (hphase.trans (if_pos hfull))), hinv, h.size,
      h.readPtr, h.writePtr, hdata, ?_, h.consumer_update .outside⟩
    simp [producerPhase]
  · next hfull =>
    cases hu
    have hmoves : producerMoves s .advance = [] := by
      simp [producerMoves, hpc, hfull]
    rw [hmoves]
    exact ⟨t, rfl, hinv, h.size, h.readPtr, h.writePtr, hdata, hphase.trans (if_neg hfull),
      h.consumer⟩

theorem Simulates.slotAddress {frame : RawFrame n} (h : Simulates k s t)
    (hpc : s.producer = .slotAddress frame)
    (hu : u = { s with producer := .copying frame s.ring.writePtr.toNat ∅ })
    (hinv : ∃ R W published, Inv k R W published u) :
    Matched k u t (producerMoves s .advance) := by
  subst hu
  have hphase := h.producer
  have hdata := h.data
  rw [producerPhase, hpc] at hphase
  rw [hpc] at hdata
  have hmoves : producerMoves s .advance = [] := by simp [producerMoves, hpc]
  rw [hmoves]
  refine ⟨t, rfl, hinv, h.size, h.readPtr, h.writePtr, ?_, hphase, h.consumer⟩
  exact ⟨fun i _ => congrFun hdata i, by simp, fun j _ => by rw [hdata]⟩

theorem Simulates.storeByte {frame : RawFrame n} {slot j : ℕ} {copied : Finset ℕ} {x : UInt8}
    (h : Simulates k s t) (hpc : s.producer = .copying frame slot copied)
    (hx : frame.bytes[j]? = some x)
    (hu : u = { s with
      ring := { s.ring with
        data := Function.update s.ring.data slot ((s.ring.data slot).setByte j x) }
      producer := .copying frame slot (insert j copied) })
    (hinv : ∃ R W published, Inv k R W published u) :
    Matched k u t (producerMoves s (.storeByte j)) := by
  subst hu
  have hphase := h.producer
  have hdata := h.data
  rw [producerPhase, hpc] at hphase
  rw [hpc] at hdata
  exact ⟨t, rfl, hinv, h.size, h.readPtr, h.writePtr, storeByte_dataOk hdata hx, hphase,
    h.consumer⟩

theorem Simulates.copied {frame : RawFrame n} {slot : ℕ} {copied : Finset ℕ}
    (h : Simulates k s t) (hpc : s.producer = .copying frame slot copied)
    (hall : ∀ j < frame.bytes.length, j ∈ copied)
    (hu : u = { s with producer := .incLoad frame })
    (hinv : ∃ R W published, Inv k R W published u) :
    Matched k u t (producerMoves s .advance) := by
  subst hu
  obtain ⟨R, W, published, hi⟩ := h.inv
  have hok := hi.producer
  have hphase := h.producer
  have hdata := h.data
  rw [producerPhase, hpc] at hphase
  rw [hpc] at hdata hok
  have hmoves : producerMoves s .advance = [] := by simp [producerMoves, hpc]
  have hslot : slot = t.object.writePtr.toNat := by
    rw [h.writePtr, hi.tracks.write]
    exact hok.2.1
  rw [hmoves]
  refine ⟨t, rfl, hinv, h.size, h.readPtr, h.writePtr, ?_, hphase, h.consumer⟩
  have heq := copied_eq hdata hok.2.2 hall
  rw [hslot] at heq
  exact heq

theorem Simulates.incLoad {frame : RawFrame n} (h : Simulates k s t)
    (hpc : s.producer = .incLoad frame)
    (hu : u = { s with producer := .incStore frame s.ring.writePtr })
    (hinv : ∃ R W published, Inv k R W published u) :
    Matched k u t (producerMoves s .advance) := by
  subst hu
  have hphase := h.producer
  have hdata := h.data
  rw [producerPhase, hpc] at hphase
  rw [hpc] at hdata
  have hmoves : producerMoves s .advance = [] := by simp [producerMoves, hpc]
  rw [hmoves]
  exact ⟨t, rfl, hinv, h.size, h.readPtr, h.writePtr, hdata, hphase, h.consumer⟩

/- The store of the write index makes the frame saved at once. -/
theorem Simulates.incStore {frame : RawFrame n} {writePtr : UInt32} (h : Simulates k s t)
    (hpc : s.producer = .incStore frame writePtr)
    (hu : u = { s with
      ring := { s.ring with writePtr := (writePtr + 1) &&& (s.ring.size - 1) }
      producer := .idle })
    (hinv : ∃ R W published, Inv k R W published u) :
    Matched k u t (producerMoves s .advance) := by
  subst hu
  obtain ⟨R, W, published, hi⟩ := h.inv
  have hok := hi.producer
  have hphase := h.producer
  have hdata := h.data
  rw [producerPhase, hpc] at hphase
  rw [hpc] at hdata hok
  obtain ⟨hroom, -, rfl⟩ := hok
  have hmoves : producerMoves s .advance =
      [.effect .producer, .ret .producer (.status .success)] := by
    simp [producerMoves, hpc]
  have hfull : ¬ t.object.isFull = true := by
    rw [h.isFull, hi.tracks.isFull]
    omega
  have hret := run_effect_ret (f := atomically) hphase
  rw [atomically_writeframe, if_neg hfull] at hret
  rw [hmoves]
  refine ⟨_, hret, hinv, h.size, h.readPtr, ?_, hdata, ?_, h.consumer_update .outside⟩
  · simp only [saveFrame, RingBuffer.incWriteptr, h.size, h.writePtr]
  · simp [producerPhase]

theorem producer_simulates (h : Simulates k s t) (hu : producerStep s a = some u) :
    Matched k u t (producerMoves s a) := by
  have hinv : ∃ R W published, Inv k R W published u := step_inv (a := .producer a) h.inv hu
  unfold producerStep at hu
  split at hu
  · next hpc => exact h.writeframe hpc (Option.some.inj hu).symm hinv
  · next hpc => exact h.fullTest_loadWritePtr hpc (Option.some.inj hu).symm hinv
  · next hpc => exact h.fullTest_loadReadPtr hpc (Option.some.inj hu).symm hinv
  · next hpc => exact h.fullTest hpc hu hinv
  · next hpc => exact h.slotAddress hpc (Option.some.inj hu).symm hinv
  · next hpc =>
    split at hu
    · cases hu
    · next hx => exact h.storeByte hpc hx (Option.some.inj hu).symm hinv
  · next hpc =>
    rw [Option.ite_none_right_eq_some] at hu
    exact h.copied hpc hu.1 (Option.some.inj hu.2).symm hinv
  · next hpc => exact h.incLoad hpc (Option.some.inj hu).symm hinv
  · next hpc => exact h.incStore hpc (Option.some.inj hu).symm hinv
  · cases hu

end Producer

theorem DataOk.pointers {object object' ring ring' : RingBuffer (Frame n)} {pc : ProducerPc n}
    (h : DataOk object ring pc) (hobject : object'.data = object.data)
    (hwrite : object'.writePtr = object.writePtr) (hring : ring'.data = ring.data) :
    DataOk object' ring' pc := by
  cases pc with
  | copying frame slot copied =>
    refine ⟨fun i hi => ?_, h.2.1, fun j hj => ?_⟩
    · rw [hring, hobject]
      exact h.1 i hi
    · rw [hring, hobject]
      exact h.2.2 j hj
  | incLoad frame =>
    simp only [DataOk, hring, hobject, hwrite]
    exact h
  | incStore frame writePtr =>
    simp only [DataOk, hring, hobject, hwrite]
    exact h
  | idle => exact hring.trans (h.trans hobject.symm)
  | fullTest frame writePtr readPtr => exact hring.trans (h.trans hobject.symm)
  | slotAddress frame => exact hring.trans (h.trans hobject.symm)

theorem Simulates.getframePtr {k : ℕ} {s : System n} {t : AtomicRing n} (h : Simulates k s t) :
    framebufferGetframePtr t.object = framebufferGetframePtr s.ring := by
  simp only [framebufferGetframePtr, h.isEmpty, RingBuffer.readZc, h.readPtr]

/-! ### The statements of the consumer -/

section Consumer

variable {k : ℕ} {s u : System n} {t : AtomicRing n} {a : ConsumerAct}

theorem Simulates.producer_update (h : Simulates k s t) (p : Phase (Operation n) Result) :
    Function.update t.phase .consumer p .producer = producerPhase s := by
  rw [Function.update_of_ne (by decide)]
  exact h.producer

theorem Simulates.callGetframePtr (h : Simulates k s t) (hpc : s.consumer = .idle)
    (hu : u = { s with consumer := .emptyTest none none })
    (hinv : ∃ R W published, Inv k R W published u) :
    Matched k u t (consumerMoves s .getframePtr) := by
  subst hu
  have hphase := h.consumer
  rw [consumerPhase, hpc] at hphase
  refine ⟨_, run_cons_some [] (step_call _ hphase), hinv, h.size, h.readPtr, h.writePtr, h.data,
    h.producer_update (.called .getframePtr), ?_⟩
  simp [consumerPhase]

theorem Simulates.emptyTest_loadReadPtr {writePtr : Option UInt32} (h : Simulates k s t)
    (hpc : s.consumer = .emptyTest none writePtr)
    (hu : u = { s with consumer := .emptyTest (some s.ring.readPtr) writePtr })
    (hinv : ∃ R W published, Inv k R W published u) :
    Matched k u t (consumerMoves s .loadReadPtr) := by
  subst hu
  have hphase := h.consumer
  refine ⟨t, rfl, hinv, h.size, h.readPtr, h.writePtr, h.data, h.producer, ?_⟩
  rw [hphase, consumerPhase, consumerPhase, hpc]
  cases writePtr with
  | none => rfl
  | some w => rfl

/- The call takes effect at the load of the write index. -/
theorem Simulates.emptyTest_loadWritePtr {readPtr : Option UInt32} (h : Simulates k s t)
    (hpc : s.consumer = .emptyTest readPtr none)
    (hu : u = { s with consumer := .emptyTest readPtr (some s.ring.writePtr) })
    (hinv : ∃ R W published, Inv k R W published u) :
    Matched k u t (consumerMoves s .loadWritePtr) := by
  subst hu
  have hphase := h.consumer
  rw [consumerPhase, hpc] at hphase
  have hmoves : consumerMoves s .loadWritePtr = [.effect .consumer] := by
    simp [consumerMoves, hpc]
  rw [hmoves]
  refine ⟨_, run_cons_some [] (step_effect hphase), hinv, h.size, h.readPtr, h.writePtr, h.data,
    h.producer_update (.done (.pointer (framebufferGetframePtr t.object))), ?_⟩
  simp [consumerPhase, atomically, h.getframePtr]

theorem Simulates.emptyTest {readPtr writePtr : UInt32} (h : Simulates k s t)
    (hpc : s.consumer = .emptyTest (some readPtr) (some writePtr))
    (hu : (if ({ s.ring with writePtr := writePtr, readPtr := readPtr } : RingBuffer _).isEmpty
        then some { s with consumer := .idle }
      else some { s with consumer := .slotAddress }) = some u)
    (hinv : ∃ R W published, Inv k R W published u) :
    Matched k u t (consumerMoves s .advance) := by
  obtain ⟨R, W, published, hi⟩ := h.inv
  have hok := hi.consumer
  have hphase := h.consumer
  rw [consumerPhase, hpc] at hphase
  rw [hpc] at hok
  obtain rfl : readPtr = s.ring.readPtr := hok.1 readPtr rfl
  split at hu
  · next hempty =>
    cases hu
    have hmoves : consumerMoves s .advance = [.ret .consumer (.pointer (.ignore, none))] := by
      simp [consumerMoves, hpc, hempty]
    have hdone : t.phase .consumer = .done (.pointer (.ignore, none)) := by
      rw [hphase]
      simp [framebufferGetframePtr, hempty]
    rw [hmoves]
    refine ⟨_, run_cons_some [] (step_ret hdone), hinv, h.size, h.readPtr, h.writePtr, h.data,
      h.producer_update .outside, ?_⟩
    simp [consumerPhase]
  · next hempty =>
    cases hu
    have hmoves : consumerMoves s .advance = [] := by
      simp [consumerMoves, hpc, hempty]
    rw [hmoves]
    refine ⟨t, rfl, hinv, h.size, h.readPtr, h.writePtr, h.data, h.producer, ?_⟩
    rw [hphase]
    simp [framebufferGetframePtr, hempty, consumerPhase, RingBuffer.readZc]

theorem Simulates.pointer (h : Simulates k s t) (hpc : s.consumer = .slotAddress)
    (hu : u = { s with consumer := .holding s.ring.readZc s.ring.read.1 [] })
    (hinv : ∃ R W published, Inv k R W published u) :
    Matched k u t (consumerMoves s .advance) := by
  subst hu
  have hphase := h.consumer
  rw [consumerPhase, hpc] at hphase
  have hmoves : consumerMoves s .advance =
      [.ret .consumer (.pointer (.success, some s.ring.readZc))] := by
    simp [consumerMoves, hpc]
  rw [hmoves]
  refine ⟨_, run_cons_some [] (step_ret hphase), hinv, h.size, h.readPtr, h.writePtr, h.data,
    h.producer_update .outside, ?_⟩
  simp [consumerPhase]

/- The slot of the pointer is not the one that is being written, so a read through
it sees the atomic ring. -/
theorem Simulates.readByte {slot j : ℕ} {copy : Frame n} {seen seen' : List (ℕ × UInt8)}
    (h : Simulates k s t) (hpc : s.consumer = .holding slot copy seen)
    (hu : u = { s with consumer := .holding slot copy seen' })
    (hinv : ∃ R W published, Inv k R W published u) :
    Matched k u t (consumerMoves s (.readByte j)) := by
  subst hu
  obtain ⟨R, W, published, hi⟩ := h.inv
  have hok := hi.consumer
  have hphase := h.consumer
  rw [consumerPhase, hpc] at hphase
  rw [hpc] at hok
  obtain ⟨⟨hlt, rfl, -⟩, -⟩ := hok
  have hne : R % 2 ^ k ≠ s.ring.writePtr.toNat := by
    rw [hi.tracks.write]
    intro heq
    have := Circular.mod_inj le_rfl (hlt.trans hi.tracks.room) hi.tracks.le hi.tracks.room heq
    omega
  have hmoves : consumerMoves s (.readByte j) = [.call .consumer (.readByte (R % 2 ^ k) j),
      .effect .consumer,
      .ret .consumer (atomically t.object (.readByte (R % 2 ^ k) j)).1] := by
    simp only [consumerMoves, hpc, atomically, h.slots hne]
  rw [hmoves]
  refine ⟨_, run_whole _ hphase, hinv, h.size, h.readPtr, h.writePtr, h.data, h.producer, ?_⟩
  exact hphase

theorem Simulates.callFreeframe {slot : ℕ} {copy : Frame n} {seen : List (ℕ × UInt8)}
    (h : Simulates k s t) (hpc : s.consumer = .holding slot copy seen)
    (hu : u = { s with consumer := .freeTest slot copy none none })
    (hinv : ∃ R W published, Inv k R W published u) :
    Matched k u t (consumerMoves s .freeframe) := by
  subst hu
  have hphase := h.consumer
  rw [consumerPhase, hpc] at hphase
  refine ⟨_, run_cons_some [] (step_call _ hphase), hinv, h.size, h.readPtr, h.writePtr, h.data,
    h.producer_update (.called .freeframe), ?_⟩
  simp [consumerPhase]

/- The loads of `framebuffer_freeframe`, and the empty test that lets it through. -/
theorem Simulates.freeing (h : Simulates k s t) {a : ConsumerAct}
    (hmoves : consumerMoves s a = []) (hring : u.ring = s.ring)
    (hproducer : u.producer = s.producer) (hphase : consumerPhase u = consumerPhase s)
    (hinv : ∃ R W published, Inv k R W published u) : Matched k u t (consumerMoves s a) := by
  rw [hmoves]
  refine ⟨t, rfl, hinv, ?_, ?_, ?_, ?_, ?_, h.consumer.trans hphase.symm⟩
  · rw [hring, h.size]
  · rw [hring, h.readPtr]
  · rw [hring, h.writePtr]
  · rw [hring, hproducer]
    exact h.data
  · rw [h.producer, producerPhase, producerPhase, hring, hproducer]

/- The frame held keeps the ring from being empty. -/
theorem Simulates.notEmpty {slot : ℕ} {copy : Frame n} {readPtr writePtr : UInt32}
    (h : Simulates k s t) (hpc : s.consumer = .freeTest slot copy (some readPtr) (some writePtr)) :
    ¬ ({ s.ring with writePtr := writePtr, readPtr := readPtr } : RingBuffer _).isEmpty = true := by
  obtain ⟨R, W, published, hi⟩ := h.inv
  have hok := hi.consumer
  rw [hpc] at hok
  obtain ⟨⟨hlt, -, -⟩, hread, hwrite⟩ := hok
  obtain rfl : readPtr = s.ring.readPtr := hread readPtr rfl
  obtain ⟨W₀, hle, -, hiff⟩ := empty_test hi.tracks (hwrite writePtr rfl) (Nat.le_succ R)
  rw [hiff]
  omega

/- The store of the read index frees the frame at once. -/
theorem Simulates.freeStore {slot : ℕ} {copy : Frame n} {readPtr : UInt32}
    (h : Simulates k s t) (hpc : s.consumer = .incStore slot copy readPtr)
    (hu : u = { s with
      ring := { s.ring with readPtr := (readPtr + 1) &&& (s.ring.size - 1) }
      consumer := .idle
      consumed := s.consumed ++ [copy] })
    (hinv : ∃ R W published, Inv k R W published u) :
    Matched k u t (consumerMoves s .advance) := by
  subst hu
  obtain ⟨R, W, published, hi⟩ := h.inv
  have hok := hi.consumer
  have hphase := h.consumer
  rw [consumerPhase, hpc] at hphase
  rw [hpc] at hok
  obtain ⟨⟨hlt, -, -⟩, rfl⟩ := hok
  have hempty : t.object.isEmpty = false := by
    rw [h.isEmpty, hi.tracks.isEmpty_eq]
    simp [hlt.ne]
  have hfree : framebufferFreeframe t.object = (.success, t.object.incReadptr) := by
    simp [framebufferFreeframe, hempty]
  have hmoves : consumerMoves s .advance =
      [.effect .consumer, .ret .consumer (atomically t.object .freeframe).1] := by
    simp [consumerMoves, hpc, atomically, hfree]
  rw [hmoves]
  refine ⟨_, run_effect_ret hphase, hinv, ?_, ?_, ?_, ?_, h.producer_update .outside, ?_⟩
  · simp only [atomically, hfree, RingBuffer.incReadptr, h.size]
  · simp only [atomically, hfree, RingBuffer.incReadptr, h.size, h.readPtr]
  · simp only [atomically, hfree, RingBuffer.incReadptr, h.writePtr]
  · apply h.data.pointers
    · simp only [atomically, hfree, RingBuffer.incReadptr]
    · simp only [atomically, hfree, RingBuffer.incReadptr]
    · rfl
  · simp [consumerPhase]

theorem consumer_simulates (h : Simulates k s t) (hu : consumerStep s a = some u) :
    Matched k u t (consumerMoves s a) := by
  have hinv : ∃ R W published, Inv k R W published u := step_inv (a := .consumer a) h.inv hu
  unfold consumerStep at hu
  split at hu
  · next hpc => exact h.callGetframePtr hpc (Option.some.inj hu).symm hinv
  · next hpc => exact h.emptyTest_loadReadPtr hpc (Option.some.inj hu).symm hinv
  · next hpc => exact h.emptyTest_loadWritePtr hpc (Option.some.inj hu).symm hinv
  · next hpc => exact h.emptyTest hpc hu hinv
  · next hpc => exact h.pointer hpc (Option.some.inj hu).symm hinv
  · next hpc =>
    split at hu
    · cases hu
    · exact h.readByte hpc (Option.some.inj hu).symm hinv
  · next hpc => exact h.callFreeframe hpc (Option.some.inj hu).symm hinv
  · next hpc =>
    cases hu
    exact h.freeing rfl rfl rfl (by simp [consumerPhase, hpc]) hinv
  · next hpc =>
    cases hu
    exact h.freeing (by simp [consumerMoves, hpc]) rfl rfl (by simp [consumerPhase, hpc]) hinv
  · next hpc =>
    have hempty := h.notEmpty hpc
    rw [if_neg hempty] at hu
    cases hu
    exact h.freeing (by simp [consumerMoves, hpc, hempty]) rfl rfl
      (by simp [consumerPhase, hpc]) hinv
  · next hpc =>
    cases hu
    exact h.freeing (by simp [consumerMoves, hpc]) rfl rfl (by simp [consumerPhase, hpc]) hinv
  · next hpc => exact h.freeStore hpc (Option.some.inj hu).symm hinv
  · cases hu

end Consumer

theorem step_simulates {k : ℕ} {s u : System n} {t : AtomicRing n} {a : Act n}
    (h : Simulates k s t) (hu : step s a = some u) : Matched k u t (moves s a) := by
  cases a with
  | producer a => exact producer_simulates h hu
  | consumer a => exact consumer_simulates h hu

theorem init_simulates {k : ℕ} {SIZE : UInt32} (hk : 1 ≤ k) (hs : SIZE.toNat = 2 ^ k) :
    Simulates k (System.init SIZE : System n) (.init (.init (fun _ => .zero) SIZE)) :=
  ⟨⟨0, 0, [], init_inv hk hs⟩, rfl, rfl, rfl, rfl, rfl, rfl⟩

/-- Every interleaving of the loads and stores of `framebuffer_writeframe`,
`framebuffer_getframe_ptr` and `framebuffer_freeframe` has the calls and returns of
an interleaving in which each of them, between its call and its return, is one step
on the ring: the calls, in the order of their effects, are a sequential run with the
results that were returned, and it leaves the indices and every slot as they are, but
for the slot that is being written. -/
theorem framebuffer_linearizable {k : ℕ} {SIZE : UInt32} (hk : 1 ≤ k) (hs : SIZE.toNat = 2 ^ k)
    (acts : List (Act n)) (s : System n) (hr : run step (.init SIZE) acts = some s) :
    ∃ t : AtomicRing n,
      run (atomicStep atomically) (.init (.init (fun _ => .zero) SIZE))
        (trace step moves (.init SIZE) acts) = some t ∧
      run (replayStep atomically) (.init (fun _ => .zero) SIZE) t.performed = some t.object ∧
      (∀ i, results i t.performed =
        returned i (trace step moves (.init SIZE) acts) ++ (t.phase i).pending) ∧
      t.object.readPtr = s.ring.readPtr ∧ t.object.writePtr = s.ring.writePtr ∧
      ∀ i, i ≠ s.ring.writePtr.toNat → t.object.data i = s.ring.data i := by
  obtain ⟨t, ht, h⟩ := run_trace (R := Simulates k)
    (fun _ _ _ _ h hu => step_simulates h hu) (init_simulates hk hs) hr
  have hseq := run_sequential ht
  exact ⟨t, ht, hseq.replay, hseq.results, h.readPtr, h.writePtr, fun i hi => (h.slots hi).symm⟩

/-- The second frame comes while the first is in the ring of two slots, and its call
ends when the first has been freed. -/
def lateDrop : List (Act 1) :=
  [.producer (.writeframe ⟨[7], Nat.le_refl 1⟩), .producer .loadReadPtr, .producer .loadWritePtr,
    .producer .advance, .producer .advance, .producer (.storeByte 0), .producer .advance,
    .producer .advance, .producer .advance, .consumer .getframePtr, .consumer .loadWritePtr,
    .consumer .loadReadPtr, .producer (.writeframe ⟨[8], Nat.le_refl 1⟩), .consumer .advance,
    .consumer .advance, .consumer (.readByte 0), .producer .loadReadPtr, .consumer .freeframe,
    .consumer .loadReadPtr, .consumer .loadWritePtr, .consumer .advance, .consumer .advance,
    .consumer .advance, .producer .loadWritePtr, .producer .advance]

theorem framebuffer_linearizable_lateDrop :
    ∃ s, run step (.init 2) lateDrop = some s ∧
      ∃ t : AtomicRing 1,
        run (replayStep atomically) (.init (fun _ => .zero) 2) t.performed = some t.object ∧
        results .producer t.performed = [.status .success, .status .success] ∧
        results .consumer t.performed =
          [.pointer (.success, some 0), .byte (some 7), .status .success] ∧
        t.object.readPtr = 1 ∧ t.object.writePtr = 1 := by
  have hfinal : (run step (.init 2) lateDrop).map (fun s => (s.ring.readPtr, s.ring.writePtr)) =
      some (1, 1) := by
    decide
  obtain ⟨s, hs, hvalues⟩ := Option.map_eq_some_iff.mp hfinal
  simp only [Prod.mk.injEq] at hvalues
  obtain ⟨t, ht, hreplay, hresults, hread, hwrite, -⟩ :=
    framebuffer_linearizable (k := 1) le_rfl rfl lateDrop s hs
  have hpending : (run (atomicStep atomically) (.init (.init (fun _ => .zero) 2))
      (trace step moves (.init 2) lateDrop)).map (fun t : AtomicRing 1 =>
        ((t.phase .producer).pending, (t.phase .consumer).pending)) = some ([], []) := by
    decide
  rw [ht] at hpending
  simp only [Option.map_some, Option.some.injEq, Prod.mk.injEq] at hpending
  refine ⟨s, hs, t, hreplay, ?_, ?_, hread.trans hvalues.1, hwrite.trans hvalues.2⟩
  · rw [hresults, hpending.1]
    decide
  · rw [hresults, hpending.2]
    decide

end MotionDetector.LockFree
