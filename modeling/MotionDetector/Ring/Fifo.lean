import MotionDetector.Lib.BoundedQueue
import MotionDetector.Ring.LockFree

/-!
# The ring buffer as a bounded queue

Any sequence of guarded uses of the macros, for cells of `n` bytes, does what
the same sequence does to a queue of at most `size - 1` values.
-/

namespace MotionDetector

open Transition BoundedQueue LockFree

variable {n : ℕ}

/-- Both ends of a ring. `pointer` is what `ringbuffer_read_zc` gave, `got` are
the values read, and `looks` those seen through the pointer, each with the
number of values read before. -/
structure RingUser (n : ℕ) where
  ring : RingBuffer (Frame n)
  pointer : Option ℕ
  got : List (Frame n)
  looks : List (ℕ × Frame n)

inductive RingOp (n : ℕ) where
  | write (x : Frame n)
  | writeMemcpy (src : RawFrame n)
  | read
  | readZc
  | access
  | incReadptr

def RingUser.init (buffer : ℕ → Frame n) (SIZE : UInt32) : RingUser n :=
  ⟨.init buffer SIZE, none, [], []⟩

def ringStep (s : RingUser n) : RingOp n → Option (RingUser n)
  | .write x => if ¬ s.ring.isFull then some { s with ring := s.ring.write x } else none
  | .writeMemcpy src =>
    if ¬ s.ring.isFull then some { s with ring := s.ring.writeMemcpy src.bytes } else none
  | .read =>
    if ¬ s.ring.isEmpty then
      some { s with ring := s.ring.read.2, pointer := none, got := s.got ++ [s.ring.read.1] }
    else none
  | .readZc => if ¬ s.ring.isEmpty then some { s with pointer := some s.ring.readZc } else none
  | .access =>
    s.pointer.map fun p => { s with looks := s.looks ++ [(s.got.length, s.ring.data p)] }
  | .incReadptr =>
    if ¬ s.ring.isEmpty then
      s.pointer.map fun p => { s with
        ring := s.ring.incReadptr
        pointer := none
        got := s.got ++ [s.ring.data p] }
    else none

/-- A value put in: a whole object, or the bytes of it that `memcpy` stores. -/
inductive Written (n : ℕ) where
  | value (x : Frame n)
  | bytes (src : RawFrame n)

def Matches : Written n → Frame n → Prop
  | .value x, y => y = x
  | .bytes src, y => src.bytes <+: y.bytes

def RingOp.queueOp : RingOp n → QueueOp (Written n)
  | .write x => .put (.value x)
  | .writeMemcpy src => .put (.bytes src)
  | .read => .take
  | .readZc => .hold
  | .access => .look
  | .incReadptr => .release

def writes (ops : List (RingOp n)) : List (Written n) := puts (ops.map RingOp.queueOp)

/-! ### The simulation -/

structure Simulates (k : ℕ) (s : RingUser n) (q : Queue (Written n)) : Prop where
  tracks : ∃ W, s.ring.Tracks k s.got.length W
  items : List.Forall₂ Matches q.items s.ring.contents
  taken : List.Forall₂ Matches q.taken s.got
  looks : ∀ b ∈ s.looks, ∃ a ∈ q.looks, a.1 = b.1 ∧ Matches a.2 b.2
  held : q.held = s.pointer.isSome
  pointer : ∀ p ∈ s.pointer, p = s.ring.readPtr.toNat ∧ q.items ≠ []

variable {k : ℕ} {s : RingUser n} {q : Queue (Written n)}

theorem init_simulates (buffer : ℕ → Frame n) {SIZE : UInt32} (hk : 1 ≤ k)
    (hs : SIZE.toNat = 2 ^ k) : Simulates k (.init buffer SIZE) (.empty : Queue (Written n)) where
  tracks := ⟨0, RingBuffer.init_tracks buffer hk hs⟩
  items := by
    rw [RingUser.init, RingBuffer.init_contents]
    exact .nil
  taken := .nil
  looks := nofun
  held := rfl
  pointer := nofun

theorem Simulates.length (h : Simulates k s q) {W : ℕ} (ht : s.ring.Tracks k s.got.length W) :
    q.items.length = W - s.got.length := by
  rw [h.items.length_eq, ht.contents_length]

theorem Simulates.isEmpty (h : Simulates k s q) : s.ring.isEmpty = true ↔ q.items = [] := by
  obtain ⟨W, ht⟩ := h.tracks
  have hlength := h.length ht
  have hle := ht.le
  rw [ht.isEmpty, ← List.length_eq_zero_iff]
  omega

theorem Simulates.isFull (h : Simulates k s q) :
    s.ring.isFull = true ↔ q.items.length = 2 ^ k - 1 := by
  obtain ⟨W, ht⟩ := h.tracks
  have hlength := h.length ht
  have hle := ht.le
  have hpow := Nat.two_pow_pos k
  rw [ht.isFull]
  omega

theorem Simulates.room (h : Simulates k s q) :
    (¬ s.ring.isFull = true) ↔ q.items.length < 2 ^ k - 1 := by
  obtain ⟨W, ht⟩ := h.tracks
  have hlength := h.length ht
  have hroom := ht.room
  rw [h.isFull]
  omega

/- The head of the queue is in the cell at the read index. -/
theorem Simulates.head (h : Simulates k s q) {x : Written n} {rest : List (Written n)}
    (hitems : q.items = x :: rest) :
    (∃ W, s.ring.incReadptr.Tracks k (s.got.length + 1) W) ∧
      Matches x (s.ring.data s.ring.readPtr.toNat) ∧
      List.Forall₂ Matches rest s.ring.incReadptr.contents := by
  obtain ⟨W, ht⟩ := h.tracks
  have hlength := h.length ht
  rw [hitems, List.length_cons] at hlength
  have hlt : s.got.length < W := by omega
  have hcontents := h.items
  rw [hitems, ht.contents_incReadptr hlt, ← ht.read] at hcontents
  obtain ⟨hhead, hrest⟩ := List.forall₂_cons.mp hcontents
  exact ⟨⟨W, ht.incReadptr hlt⟩, hhead, hrest⟩

theorem Simulates.put (h : Simulates k s q) (hroom : ¬ s.ring.isFull = true) {x : Written n}
    {data : ℕ → Frame n}
    (hd : ∀ i, i ≠ s.ring.writePtr.toNat → data i = s.ring.data i)
    (hx : Matches x (data s.ring.writePtr.toNat)) :
    Simulates k { s with ring := RingBuffer.incWriteptr { s.ring with data := data } }
      { q with items := q.items ++ [x] } := by
  obtain ⟨W, ht⟩ := h.tracks
  have hfull := mt ht.isFull.mpr hroom
  have hnext : W + 1 < s.got.length + 2 ^ k := by
    have := ht.room
    omega
  obtain ⟨htracks, hcontents⟩ := ht.store hnext hd
  refine ⟨⟨W + 1, htracks⟩, ?_, h.taken, h.looks, h.held, fun p hp => ?_⟩
  · rw [hcontents]
    exact List.rel_append h.items (.cons hx .nil)
  · exact ⟨(h.pointer p hp).1, by simp⟩

theorem Simulates.take (h : Simulates k s q) {x : Written n} {rest : List (Written n)}
    (hitems : q.items = x :: rest) {y : Frame n} (hy : y = s.ring.data s.ring.readPtr.toNat) :
    Simulates k { s with ring := s.ring.incReadptr, pointer := none, got := s.got ++ [y] }
      { q with items := rest, held := false, taken := q.taken ++ [x] } := by
  obtain ⟨htracks, hhead, hrest⟩ := h.head hitems
  rw [← hy] at hhead
  refine ⟨?_, hrest, List.rel_append h.taken (.cons hhead .nil), h.looks, rfl, nofun⟩
  rw [List.length_append, List.length_singleton]
  exact htracks

theorem step_simulates (h : Simulates k s q) (op : RingOp n) :
    Option.Rel (Simulates k) (ringStep s op) (queueStep (2 ^ k - 1) q op.queueOp) := by
  have hempty := h.isEmpty
  cases op with
  | write x =>
    simp only [ringStep, RingOp.queueOp, queueStep, ← h.room]
    split
    · next hroom =>
      refine .some (h.put hroom (fun i hi => Function.update_of_ne hi ..) ?_)
      exact Function.update_self ..
    · exact .none
  | writeMemcpy src =>
    simp only [ringStep, RingOp.queueOp, queueStep, ← h.room]
    split
    · next hroom =>
      refine .some (h.put hroom (fun i hi => ?_) ?_)
      · rw [memcpy_of_fits _ _ src.fits, Function.update_of_ne hi]
      · rw [memcpy_self]
        exact Frame.prefix_overwrite _ src.fits
    · exact .none
  | read =>
    simp only [ringStep, RingOp.queueOp, queueStep, hempty]
    split
    · next hne =>
      split
      · next hitems => exact absurd hitems hne
      · next x rest hitems => exact .some (h.take hitems rfl)
    · next hnil =>
      rw [not_not.mp hnil]
      exact .none
  | readZc =>
    simp only [ringStep, RingOp.queueOp, queueStep, hempty]
    split
    · next hne =>
      split
      · next hitems => exact absurd hitems hne
      · refine .some ⟨h.tracks, h.items, h.taken, h.looks, rfl, fun p hp => ?_⟩
        obtain rfl := Option.some.inj hp
        exact ⟨rfl, hne⟩
    · next hnil =>
      rw [not_not.mp hnil]
      exact .none
  | access =>
    simp only [ringStep, RingOp.queueOp, queueStep]
    cases hp : s.pointer with
    | none =>
      have hheld : ¬ q.held = true := by simp [h.held, hp]
      split
      · exact .none
      · rw [if_neg hheld]
        exact .none
    | some p =>
      have hheld : q.held = true := by simp [h.held, hp]
      obtain ⟨rfl, hne⟩ := h.pointer p hp
      split
      · next hitems => exact absurd hitems hne
      · next x rest hitems =>
        rw [if_pos hheld]
        obtain ⟨-, hhead, -⟩ := h.head hitems
        refine .some ⟨h.tracks, h.items, h.taken, fun b hb => ?_, hheld, fun p hp' => ?_⟩
        · rcases List.mem_append.mp hb with hb | hb
          · obtain ⟨a, ha, hab⟩ := h.looks b hb
            exact ⟨a, List.mem_append_left _ ha, hab⟩
          · obtain rfl := List.mem_singleton.mp hb
            exact ⟨_, List.mem_append_right _ (List.mem_singleton_self _), h.taken.length_eq, hhead⟩
        · exact ⟨(Option.some.inj hp').symm, hne⟩
  | incReadptr =>
    simp only [ringStep, RingOp.queueOp, queueStep, hempty]
    split
    · next hne =>
      split
      · next hitems => exact absurd hitems hne
      · next x rest hitems =>
        cases hp : s.pointer with
        | none =>
          rw [if_neg (by simp [h.held, hp])]
          exact .none
        | some p =>
          rw [if_pos (by simp [h.held, hp])]
          exact .some (h.take hitems (by rw [(h.pointer p hp).1]))
    · next hnil =>
      rw [not_not.mp hnil]
      exact .none

theorem Simulates.below (h : Simulates k s q) {SIZE : UInt32} (hs : SIZE.toNat = 2 ^ k) :
    s.ring.readPtr < SIZE ∧ s.ring.writePtr < SIZE := by
  obtain ⟨W, ht⟩ := h.tracks
  rw [UInt32.lt_iff_toNat_lt, UInt32.lt_iff_toNat_lt, hs, ht.read, ht.write]
  exact ⟨Nat.mod_lt _ (Nat.two_pow_pos k), Nat.mod_lt _ (Nat.two_pow_pos k)⟩

/-- For every ring of `2 ^ k` cells and every sequence of operations: the guards
let it through exactly if a queue of `2 ^ k - 1` values does, and the ring is then
in the state of the queue. -/
theorem ring_refines_queue {SIZE : UInt32} (hk : 1 ≤ k) (hs : SIZE.toNat = 2 ^ k)
    (buffer : ℕ → Frame n) (ops : List (RingOp n)) :
    (run ringStep (.init buffer SIZE) ops).isSome =
        (run (queueStep (2 ^ k - 1)) .empty (ops.map RingOp.queueOp)).isSome ∧
      ∀ s q, run ringStep (.init buffer SIZE) ops = some s →
        run (queueStep (2 ^ k - 1)) .empty (ops.map RingOp.queueOp) = some q →
        s.ring.readPtr < SIZE ∧ s.ring.writePtr < SIZE ∧
        s.ring.getlen.toNat = q.items.length ∧ q.items.length ≤ 2 ^ k - 1 ∧
        (s.ring.isEmpty = true ↔ q.items.length = 0) ∧
        (s.ring.isFull = true ↔ q.items.length = 2 ^ k - 1) ∧
        writes ops = q.taken ++ q.items ∧
        List.Forall₂ Matches q.taken s.got ∧
        List.Forall₂ Matches q.items s.ring.contents ∧
        ∀ look ∈ s.looks, ∃ x, (writes ops)[look.1]? = some x ∧ Matches x look.2 := by
  have hrel := run_rel (fun _ _ a h => step_simulates h a) (init_simulates buffer hk hs) ops
  refine ⟨?_, fun s q hring hqueue => ?_⟩
  · generalize run ringStep (.init buffer SIZE) ops = u at hrel ⊢
    generalize run (queueStep (2 ^ k - 1)) .empty (ops.map RingOp.queueOp) = v at hrel ⊢
    cases hrel with
    | none => rfl
    | some _ => rfl
  · rw [hring, hqueue] at hrel
    obtain ⟨h⟩ := hrel
    have hfifo := run_fifo fifo_empty hqueue
    rw [List.nil_append] at hfifo
    obtain ⟨hread, hwrite⟩ := h.below hs
    obtain ⟨W, ht⟩ := h.tracks
    refine ⟨hread, hwrite, ?_, hfifo.room, ?_, h.isFull, hfifo.order.symm, h.taken, h.items,
      fun look hlook => ?_⟩
    · rw [ht.getlen, h.length ht]
    · rw [h.isEmpty, List.length_eq_zero_iff]
    · obtain ⟨a, ha, hindex, hmatch⟩ := h.looks look hlook
      exact ⟨a.2, hindex ▸ hfifo.looks a ha, hmatch⟩

def oneByte (x : UInt8) : Frame 1 := ⟨[x], rfl⟩

/-- Five writes into four cells, two of them behind the last cell. -/
def wrapAround : List (RingOp 1) :=
  [.write (oneByte 1), .write (oneByte 2), .read, .writeMemcpy ⟨[3], le_rfl⟩, .readZc,
    .write (oneByte 4), .access, .incReadptr, .write (oneByte 5)]

theorem ring_refines_queue_wrapAround :
    ∃ s, run ringStep (.init (fun _ => oneByte 0) 4) wrapAround = some s ∧
      s.ring.isFull = true := by
  have hsize : (4 : UInt32).toNat = 2 ^ 2 := rfl
  have h := ring_refines_queue (by decide) hsize (fun _ => oneByte 0) wrapAround
  obtain ⟨s, hs⟩ := Option.isSome_iff_exists.mp (h.1.trans rfl)
  exact ⟨s, hs, (h.2 s _ hs rfl).2.2.2.2.2.1.mpr rfl⟩

end MotionDetector
