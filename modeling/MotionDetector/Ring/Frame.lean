import MotionDetector.Ring.Ringbuffer

/-!
# Frames and their store (`src/camera/camera_cfg.h`, `framebuffer.c`)

The cells of the frame rings are arrays of exactly `n` bytes. The copy into a
cell does not look at that bound: what exceeds it goes on into the next cells
of the static array. The data behind that array is left out: cells past the size of
the ring stand for it, which no index reaches.
-/

namespace MotionDetector

structure Frame (n : ℕ) where
  bytes : List UInt8
  length_eq : bytes.length = n

namespace Frame

variable {n : ℕ}

theorem ext_bytes {f g : Frame n} (h : f.bytes = g.bytes) : f = g := by
  cases f
  cases g
  simp_all

instance : DecidableEq (Frame n) := fun f g =>
  decidable_of_iff (f.bytes = g.bytes) ⟨ext_bytes, congrArg bytes⟩

def zero : Frame n := ⟨List.replicate n 0, List.length_replicate⟩

/-- The frame after its first bytes are overwritten with `src`; bytes of `src`
past the end are not stored here. -/
def overwrite (f : Frame n) (src : List UInt8) : Frame n :=
  ⟨src.take n ++ f.bytes.drop src.length, by
    rw [List.length_append, List.length_take, List.length_drop, f.length_eq]
    omega⟩

def setByte (f : Frame n) (j : ℕ) (x : UInt8) : Frame n :=
  ⟨f.bytes.set j x, by rw [List.length_set, f.length_eq]⟩

theorem overwrite_bytes (f : Frame n) {src : List UInt8} (h : src.length ≤ n) :
    (f.overwrite src).bytes = src ++ f.bytes.drop src.length := by
  simp only [overwrite, List.take_of_length_le h]

@[simp] theorem overwrite_nil (f : Frame n) : f.overwrite [] = f := by
  apply ext_bytes
  simp [overwrite]

theorem prefix_overwrite (f : Frame n) {src : List UInt8} (h : src.length ≤ n) :
    src <+: (f.overwrite src).bytes := by
  rw [overwrite_bytes f h]
  exact List.prefix_append _ _

theorem setByte_getElem (f : Frame n) (j i : ℕ) (x : UInt8) :
    (f.setByte j x).bytes[i]? = if i = j ∧ i < n then some x else f.bytes[i]? := by
  simp only [setByte, List.getElem?_set, f.length_eq]
  by_cases hij : j = i
  · subst hij
    by_cases hj : j < n
    · simp [hj]
    · have hnone : f.bytes[j]? = none := List.getElem?_eq_none (by rw [f.length_eq]; omega)
      simp [hj, hnone]
  · simp [hij, Ne.symm hij]

end Frame

variable {n : ℕ}

/-- `memcpy(data[w].bytes, src, length)` over cells laid out one after another. -/
def memcpy (data : ℕ → Frame n) (w : ℕ) (src : List UInt8) : ℕ → Frame n := fun i =>
  if w ≤ i then (data i).overwrite (src.drop ((i - w) * n)) else data i

/-- `ringbuffer_write_memcpy(BUF, DATA, SIZE)` for the `SIZE` bytes `src`. -/
def RingBuffer.writeMemcpy (src : List UInt8) (b : RingBuffer (Frame n)) : RingBuffer (Frame n) :=
  RingBuffer.incWriteptr { b with data := memcpy b.data b.writePtr.toNat src }

theorem memcpy_self (data : ℕ → Frame n) (w : ℕ) (src : List UInt8) :
    memcpy data w src w = (data w).overwrite src := by
  simp [memcpy]

/- The copy reaches cell `w + d` only with more than `d * n` bytes. -/
theorem memcpy_beyond (data : ℕ → Frame n) {w i : ℕ} {src : List UInt8}
    (h : i < w ∨ src.length ≤ (i - w) * n) : memcpy data w src i = data i := by
  unfold memcpy
  split
  · rw [List.drop_eq_nil_of_le (by omega), Frame.overwrite_nil]
  · rfl

theorem memcpy_of_fits (data : ℕ → Frame n) (w : ℕ) {src : List UInt8} (h : src.length ≤ n) :
    memcpy data w src = Function.update data w ((data w).overwrite src) := by
  funext i
  by_cases hi : i = w
  · rw [hi, Function.update_self, memcpy_self]
  · rw [Function.update_of_ne hi]
    apply memcpy_beyond
    rcases Nat.lt_or_gt_of_ne hi with hlt | hgt
    · exact .inl hlt
    · right
      calc src.length ≤ 1 * n := by omega
        _ ≤ (i - w) * n := Nat.mul_le_mul_right n (by omega)

end MotionDetector
