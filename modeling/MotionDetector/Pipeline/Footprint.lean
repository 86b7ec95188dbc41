import MotionDetector.Lib.Stores
import MotionDetector.Pipeline.Framebuffer
import MotionDetector.Pipeline.Image

/-!
# Where a captured frame is written

The storage of the incoming ring as the static array it is, one byte after
another, and the stores that `framebuffer_writeframe` makes into it.
-/

namespace MotionDetector

open RingBuffer

variable {n : ℕ}

/-- The bytes of the cells, laid out as `frame_t buffer[SIZE]`; the addresses
from `SIZE * n` on belong to whatever follows the array. -/
def flatten (data : ℕ → Frame n) (i : ℕ) : UInt8 := (data (i / n)).bytes[i % n]?.getD 0

/-- One of the mapped V4L2 buffers, of the length the driver reported. -/
structure MappedBuffer where
  start : List UInt8

def MappedBuffer.size (buf : MappedBuffer) : ℕ := buf.start.length

/-- The capture in which `VIDIOC_DQBUF` hands out `buf` with `bytesused`. -/
def Capture.dequeued (io : Capture) (buf : MappedBuffer) (bytesused : ℕ) : Capture :=
  { io with bytes := buf.start.take bytesused }

/-- The stores of one `framebuffer_writeframe` into the storage of the ring. -/
def framebufferWriteframeStores (io : Capture) (save : Bool) (b : RingBuffer (Frame n)) :
    List (ℕ × UInt8) :=
  if io.select = -1 then []
  else if framebufferDequeueframe io.dqbuf ≠ .success then []
  else if save ∧ ¬ b.isFull then Stores.copy (b.writePtr.toNat * n) io.bytes
  else []

theorem writeframeStores_of_saves {io : Capture} {save : Bool} {b : RingBuffer (Frame n)}
    (h : Saves io save b) :
    framebufferWriteframeStores io save b = Stores.copy (b.writePtr.toNat * n) io.bytes := by
  obtain ⟨hselect, hdq, hsave, hroom⟩ := h
  simp [framebufferWriteframeStores, hselect, hdq, hsave, hroom]

theorem writeframeStores_of_not_saves {io : Capture} {save : Bool} {b : RingBuffer (Frame n)}
    (h : ¬ Saves io save b) : framebufferWriteframeStores io save b = [] := by
  unfold framebufferWriteframeStores
  split
  · rfl
  · next hselect =>
    split
    · rfl
    · next hdq =>
      rw [if_neg]
      rintro ⟨hsave, hroom⟩
      exact h ⟨hselect, by simpa using hdq, hsave, by simpa using hroom⟩

/-! ### The stores are the effect -/

theorem flatten_overwrite (f : Frame n) (src : List UInt8) {j : ℕ} (hj : j < n) :
    (f.overwrite src).bytes[j]? = some (src[j]?.getD (f.bytes[j]?.getD 0)) := by
  have hf : j < f.bytes.length := by rw [f.length_eq]; exact hj
  simp only [Frame.overwrite]
  by_cases hs : j < src.length
  · rw [List.getElem?_append_left (by rw [List.length_take]; omega), List.getElem?_take_of_lt hj,
      List.getElem?_eq_getElem hs]
    rfl
  · rw [List.getElem?_append_right (by rw [List.length_take]; omega), List.length_take,
      Nat.min_eq_right (by omega), List.getElem?_drop, Nat.add_sub_cancel' (by omega),
      List.getElem?_eq_getElem hf, List.getElem?_eq_none (Nat.le_of_not_lt hs)]
    rfl

/- Byte `j` of cell `w + d` is byte `d * n + j` of what is copied to cell `w`. -/
theorem flatten_memcpy (hn : 0 < n) (data : ℕ → Frame n) (w : ℕ) (src : List UInt8) :
    flatten (memcpy data w src) = Stores.apply (flatten data) (Stores.copy (w * n) src) := by
  funext i
  have hi := Nat.div_add_mod i n
  have hj := Nat.mod_lt i hn
  by_cases hw : w ≤ i / n
  · obtain ⟨d, hd⟩ := Nat.exists_eq_add_of_le hw
    have hsplit : i = w * n + (d * n + i % n) := by
      rw [← Nat.add_assoc, ← Nat.add_mul, ← hd, Nat.mul_comm, hi]
    have hstore := Stores.apply_copy_add (flatten data) src (w * n) (d * n + i % n)
    rw [← hsplit] at hstore
    rw [hstore, flatten, memcpy, if_pos hw, flatten_overwrite _ _ hj, List.getElem?_drop,
      show i / n - w = d by omega]
    rfl
  · have hlt : i < w * n := (Nat.div_lt_iff_lt_mul hn).mp (Nat.lt_of_not_le hw)
    rw [Stores.apply_copy_lt _ _ hlt, flatten, memcpy, if_neg hw, flatten]

theorem writeframe_stores (hn : 0 < n) (io : Capture) (save : Bool) (b : RingBuffer (Frame n)) :
    flatten (framebufferWriteframe io save b).2.data =
      Stores.apply (flatten b.data) (framebufferWriteframeStores io save b) := by
  rw [framebufferWriteframe_ring]
  by_cases h : Saves io save b
  · rw [if_pos h, writeframeStores_of_saves h]
    exact flatten_memcpy hn b.data _ io.bytes
  · rw [if_neg h, writeframeStores_of_not_saves h]
    rfl

/-! ### The slot -/

/-- All stores go to the slot at `writePtr` of the ring's own storage. -/
def InSlot (b : RingBuffer (Frame n)) (stores : List (ℕ × UInt8)) : Prop :=
  Stores.Within (b.writePtr.toNat * n) ((b.writePtr.toNat + 1) * n) stores ∧
    Stores.Within 0 (b.size.toNat * n) stores

theorem slot_le_storage {b : RingBuffer (Frame n)} {k R W : ℕ} (h : Tracks b k R W) :
    (b.writePtr.toNat + 1) * n ≤ b.size.toNat * n := by
  apply Nat.mul_le_mul_right
  rw [h.write, h.size]
  exact Nat.mod_lt _ (Nat.two_pow_pos k)

theorem inSlot_copy {b : RingBuffer (Frame n)} {k R W : ℕ} (h : Tracks b k R W)
    (src : List UInt8) :
    InSlot b (Stores.copy (b.writePtr.toNat * n) src) ↔ src.length ≤ n := by
  have hstorage := slot_le_storage h
  rw [InSlot, Stores.copy_within, Stores.copy_within, ← List.length_eq_zero_iff]
  rw [Nat.succ_mul] at hstorage ⊢
  omega

/- A call that keeps to the slot leaves every other byte of the ring. -/
theorem writeframe_frame (hn : 0 < n) (io : Capture) (save : Bool) (b : RingBuffer (Frame n))
    (hslot : InSlot b (framebufferWriteframeStores io save b)) {i : ℕ}
    (hi : i < b.writePtr.toNat * n ∨ (b.writePtr.toNat + 1) * n ≤ i) :
    flatten (framebufferWriteframe io save b).2.data i = flatten b.data i := by
  rw [writeframe_stores hn]
  exact hslot.1.frame hi

/-- A frame is written inside its slot exactly when no more bytes were dequeued
than the slot has, wherever in the ring the slot is. -/
theorem writeframe_inSlot_iff {b : RingBuffer (Frame n)} {k R W : ℕ} (hring : Tracks b k R W)
    (hroom : b.isFull = false) (io : Capture) (hselect : io.select ≠ -1)
    (hdqbuf : framebufferDequeueframe io.dqbuf = .success) (buf : MappedBuffer) (bytesused : ℕ)
    (hused : bytesused ≤ buf.size) :
    InSlot b (framebufferWriteframeStores (io.dequeued buf bytesused) true b) ↔
      bytesused ≤ n := by
  have hsaves : Saves (io.dequeued buf bytesused) true b := ⟨hselect, hdqbuf, rfl, hroom⟩
  have hlen : (buf.start.take bytesused).length = bytesused :=
    List.length_take_of_le hused
  rw [writeframeStores_of_saves hsaves, inSlot_copy hring]
  simp only [Capture.dequeued, hlen]

/-- The empty ring, about to write its last slot. -/
def lastSlot : RingBuffer (Frame FRAME_SIZE) := ⟨fun _ => .zero, 128, 127, 127⟩

theorem lastSlot_tracks : Tracks lastSlot 7 127 127 :=
  ⟨by decide, rfl, rfl, rfl, le_rfl, by decide⟩

def mapped (size : ℕ) : MappedBuffer := ⟨List.replicate size 0xFF⟩

theorem mapped_size (size : ℕ) : (mapped size).size = size := List.length_replicate

theorem writeframe_inSlot_iff_lastSlot :
    InSlot lastSlot (framebufferWriteframeStores
      (Capture.dequeued ⟨1, 0, [], 0⟩ (mapped (2 * FRAME_SIZE)) FRAME_SIZE) true lastSlot) :=
  (writeframe_inSlot_iff lastSlot_tracks (by decide) ⟨1, 0, [], 0⟩ (by decide) (by decide) _ _
    (by rw [mapped_size]; decide)).mpr le_rfl

/-- One byte more than the slot has, and it is written past the end of the ring. -/
theorem writeframe_spill_lastSlot :
    Tracks lastSlot 7 127 127 ∧ lastSlot.isFull = false ∧
    FRAME_SIZE + 1 ≤ (mapped (2 * FRAME_SIZE)).size ∧
    ∃ s ∈ framebufferWriteframeStores
        (Capture.dequeued ⟨1, 0, [], 0⟩ (mapped (2 * FRAME_SIZE)) (FRAME_SIZE + 1)) true lastSlot,
      lastSlot.size.toNat * FRAME_SIZE ≤ s.1 := by
  refine ⟨lastSlot_tracks, by decide, by rw [mapped_size]; decide, ?_⟩
  have hsaves : Saves (Capture.dequeued ⟨1, 0, [], 0⟩ (mapped (2 * FRAME_SIZE)) (FRAME_SIZE + 1))
      true lastSlot := by
    refine ⟨?_, ?_, rfl, ?_⟩ <;> decide
  have hbytes : (mapped (2 * FRAME_SIZE)).start.take (FRAME_SIZE + 1) =
      List.replicate (FRAME_SIZE + 1) 0xFF := by
    rw [mapped, List.take_replicate, Nat.min_eq_left (by decide)]
  rw [writeframeStores_of_saves hsaves, Capture.dequeued, hbytes]
  by_contra hno
  have hwithin : Stores.Within 0 (lastSlot.size.toNat * FRAME_SIZE)
      (Stores.copy (lastSlot.writePtr.toNat * FRAME_SIZE)
        (List.replicate (FRAME_SIZE + 1) (0xFF : UInt8))) := by
    intro s hs
    refine ⟨Nat.zero_le _, ?_⟩
    by_contra hlt
    exact hno ⟨s, hs, Nat.le_of_not_lt hlt⟩
  rcases Stores.copy_within.mp hwithin with hnil | ⟨-, hend⟩
  · simp at hnil
  · rw [List.length_replicate] at hend
    exact absurd hend (by decide)

end MotionDetector
