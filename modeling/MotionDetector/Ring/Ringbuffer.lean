import MotionDetector.Lib.Circular

/-!
# The ring buffer macros (`utils/ringbuffer/ringbuffer.h`)

The indices are 32-bit and wrap by masking with `size - 1`. `Tracks` relates
them to the numbers `R` and `W` of elements ever read and written, from which
length, emptiness and fullness follow at any number of wrap-arounds.
-/

namespace MotionDetector

/-- `ringbuffer_typedef(TYPE, NAME)`; `data i` is the cell of index `i`. -/
structure RingBuffer (α : Type) where
  data : ℕ → α
  size : UInt32
  readPtr : UInt32
  writePtr : UInt32

namespace RingBuffer

variable {α : Type}

def init (buffer : ℕ → α) (SIZE : UInt32) : RingBuffer α := ⟨buffer, SIZE, 0, 0⟩

def incWriteptr (b : RingBuffer α) : RingBuffer α :=
  { b with writePtr := (b.writePtr + 1) &&& (b.size - 1) }

def write (b : RingBuffer α) (x : α) : RingBuffer α :=
  incWriteptr { b with data := Function.update b.data b.writePtr.toNat x }

def incReadptr (b : RingBuffer α) : RingBuffer α :=
  { b with readPtr := (b.readPtr + 1) &&& (b.size - 1) }

def read (b : RingBuffer α) : α × RingBuffer α := (b.data b.readPtr.toNat, b.incReadptr)

/-- `ringbuffer_read_zc(BUF, DATA)`: the index of the cell pointed to. -/
def readZc (b : RingBuffer α) : ℕ := b.readPtr.toNat

def getlen (b : RingBuffer α) : UInt32 := (b.writePtr - b.readPtr) &&& (b.size - 1)

def isEmpty (b : RingBuffer α) : Bool := b.readPtr == b.writePtr

def isFull (b : RingBuffer α) : Bool := b.getlen == b.size - 1

def contents (b : RingBuffer α) : List α :=
  Circular.window b.data b.size.toNat b.readPtr.toNat b.getlen.toNat

def Occupied (b : RingBuffer α) (i : ℕ) : Prop :=
  ∃ d < b.getlen.toNat, i = (b.readPtr.toNat + d) % b.size.toNat

/-- `R` elements have been read from and `W` written to a ring of size `2 ^ k`. -/
structure Tracks (b : RingBuffer α) (k R W : ℕ) : Prop where
  pos : 1 ≤ k
  size : b.size.toNat = 2 ^ k
  read : b.readPtr.toNat = R % 2 ^ k
  write : b.writePtr.toNat = W % 2 ^ k
  le : R ≤ W
  room : W < R + 2 ^ k

variable {b : RingBuffer α} {k R W : ℕ}

theorem init_tracks (buffer : ℕ → α) {SIZE : UInt32} (hk : 1 ≤ k) (hs : SIZE.toNat = 2 ^ k) :
    Tracks (init buffer SIZE) k 0 0 :=
  ⟨hk, hs, by simp [init], by simp [init], le_rfl,
    by have := Nat.two_pow_pos k; omega⟩

theorem init_contents (buffer : ℕ → α) (SIZE : UInt32) : (init buffer SIZE).contents = [] := by
  simp [RingBuffer.contents, RingBuffer.getlen, init]

theorem Tracks.getlen (h : Tracks b k R W) : b.getlen.toNat = W - R := by
  have hr : b.readPtr.toNat < 2 ^ k := by
    rw [h.read]
    exact Nat.mod_lt _ (Nat.two_pow_pos k)
  rw [RingBuffer.getlen, Circular.sub_mask h.size hr, h.read, h.write]
  exact Circular.sub_mod h.le h.room

theorem Tracks.isEmpty (h : Tracks b k R W) : b.isEmpty = true ↔ R = W := by
  rw [RingBuffer.isEmpty, beq_iff_eq, ← UInt32.toNat_inj, h.read, h.write]
  constructor
  · intro he
    exact Circular.mod_inj le_rfl (by have := Nat.two_pow_pos k; omega) h.le h.room he
  · rintro rfl
    rfl

theorem Tracks.isFull (h : Tracks b k R W) : b.isFull = true ↔ W + 1 = R + 2 ^ k := by
  have hpos : 1 ≤ b.size := by
    rw [UInt32.le_iff_toNat_le, h.size]
    exact Nat.two_pow_pos k
  rw [RingBuffer.isFull, beq_iff_eq, ← UInt32.toNat_inj, h.getlen,
    UInt32.toNat_sub_of_le _ _ hpos, h.size]
  have hle := h.le
  have hpow := Nat.two_pow_pos k
  simp only [UInt32.toNat_one]
  omega

theorem Tracks.isEmpty_eq (h : Tracks b k R W) : b.isEmpty = decide (R = W) := by
  rw [Bool.eq_iff_iff, h.isEmpty, decide_eq_true_iff]

theorem Tracks.isFull_eq (h : Tracks b k R W) : b.isFull = decide (W + 1 = R + 2 ^ k) := by
  rw [Bool.eq_iff_iff, h.isFull, decide_eq_true_iff]

theorem Tracks.incWriteptr (h : Tracks b k R W) (hroom : W + 1 < R + 2 ^ k) :
    Tracks b.incWriteptr k R (W + 1) := by
  refine ⟨h.pos, h.size, h.read, ?_, by have := h.le; omega, hroom⟩
  rw [RingBuffer.incWriteptr, Circular.succ_mask h.size, h.write, Nat.mod_add_mod]

theorem Tracks.incReadptr (h : Tracks b k R W) (hne : R < W) :
    Tracks b.incReadptr k (R + 1) W := by
  refine ⟨h.pos, h.size, ?_, h.write, hne, by have := h.room; omega⟩
  rw [RingBuffer.incReadptr, Circular.succ_mask h.size, h.read, Nat.mod_add_mod]

theorem Tracks.setData (h : Tracks b k R W) (data : ℕ → α) :
    Tracks { b with data := data } k R W :=
  ⟨h.pos, h.size, h.read, h.write, h.le, h.room⟩

theorem Tracks.contents (h : Tracks b k R W) :
    b.contents = Circular.window b.data (2 ^ k) R (W - R) := by
  rw [RingBuffer.contents, h.getlen, h.size, h.read, Circular.window_mod]

theorem Tracks.contents_length (h : Tracks b k R W) : b.contents.length = W - R := by
  rw [h.contents, Circular.window_length]

theorem Tracks.occupied (h : Tracks b k R W) (i : ℕ) :
    b.Occupied i ↔ ∃ c, R ≤ c ∧ c < W ∧ i = c % 2 ^ k := by
  simp only [Occupied, h.getlen, h.size, h.read, Nat.mod_add_mod]
  constructor
  · rintro ⟨d, hd, rfl⟩
    exact ⟨R + d, by omega, by omega, rfl⟩
  · rintro ⟨c, h1, h2, rfl⟩
    exact ⟨c - R, by omega, by rw [Nat.add_sub_cancel' h1]⟩

theorem Tracks.not_occupied (h : Tracks b k R W) : ¬ b.Occupied (W % 2 ^ k) := by
  rw [h.occupied]
  rintro ⟨c, h1, h2, heq⟩
  have hle := h.le
  have := Circular.mod_inj hle h.room h1 (by have := h.room; omega) heq
  omega

/- Publishing the cell at the write index appends what it holds. -/
theorem Tracks.contents_incWriteptr (h : Tracks b k R W) (hroom : W + 1 < R + 2 ^ k) :
    b.incWriteptr.contents = b.contents ++ [b.data (W % 2 ^ k)] := by
  have hle := h.le
  rw [(h.incWriteptr hroom).contents, h.contents,
    show W + 1 - R = W - R + 1 by omega, Circular.window_succ_back, Nat.add_sub_cancel' hle]
  rfl

theorem Tracks.contents_incReadptr (h : Tracks b k R W) (hne : R < W) :
    b.contents = b.data (R % 2 ^ k) :: b.incReadptr.contents := by
  rw [(h.incReadptr hne).contents, h.contents, show W - R = W - (R + 1) + 1 by omega,
    Circular.window_succ_front]
  rfl

theorem Tracks.contents_congr (h : Tracks b k R W) (data : ℕ → α)
    (hd : ∀ i, b.Occupied i → data i = b.data i) :
    RingBuffer.contents { b with data := data } = b.contents := by
  rw [(h.setData data).contents, h.contents]
  apply Circular.window_congr
  intro i hi
  apply hd
  rw [h.occupied]
  exact ⟨R + i, by omega, by omega, rfl⟩

/- A store into the cell at the write index, and its publication. -/
theorem Tracks.store (h : Tracks b k R W) (hroom : W + 1 < R + 2 ^ k) {data : ℕ → α}
    (hd : ∀ i, i ≠ b.writePtr.toNat → data i = b.data i) :
    Tracks (RingBuffer.incWriteptr { b with data := data }) k R (W + 1) ∧
      (RingBuffer.incWriteptr { b with data := data }).contents =
        b.contents ++ [data b.writePtr.toNat] := by
  have hdata := h.setData data
  have hkeep := h.contents_congr data fun i hi => by
    apply hd
    rintro rfl
    rw [h.write] at hi
    exact h.not_occupied hi
  refine ⟨hdata.incWriteptr hroom, ?_⟩
  rw [hdata.contents_incWriteptr hroom, hkeep, h.write]

end RingBuffer

end MotionDetector
