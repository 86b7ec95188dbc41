import MotionDetector.Types
import MotionDetector.Ring.Frame

/-!
# The raw frame buffer (`middleware/frameBuffer/framebuffer.c`)
-/

namespace MotionDetector

variable {n : ℕ}

/-- The results of the system calls of one `framebuffer_writeframe`, and the
`bytesused` bytes of the buffer that was dequeued. -/
structure Capture where
  select : ℤ
  dqbuf : ℤ
  bytes : List UInt8
  qbuf : ℤ
  deriving DecidableEq, Repr

def EAGAIN : ℤ := 11

def EPIPE : ℤ := 32

def framebufferIoctl (ret : ℤ) : SysResult :=
  if EAGAIN = ret ∨ EPIPE = ret then .ignore
  else if 0 = ret then .success
  else .failure

def framebufferDequeueframe (ret : ℤ) : SysResult := framebufferIoctl ret

def framebufferQueueframe (ret : ℤ) : SysResult :=
  if framebufferIoctl ret ≠ .success then .failure else .success

def saveFrame (bytes : List UInt8) (b : RingBuffer (Frame n)) : RingBuffer (Frame n) :=
  RingBuffer.incWriteptr { b with data := memcpy b.data b.writePtr.toNat bytes }

def framebufferWriteframe (io : Capture) (save : Bool) (b : RingBuffer (Frame n)) :
    SysResult × RingBuffer (Frame n) :=
  if io.select = -1 then (.ignore, b)
  else if framebufferDequeueframe io.dqbuf ≠ .success then (.failure, b)
  else
    let b := if save ∧ ¬ b.isFull then saveFrame io.bytes b else b
    if framebufferQueueframe io.qbuf ≠ .success then (.failure, b)
    else if save then (.success, b)
    else (.ignore, b)

/-- The pointer is the index of the slot. -/
def framebufferGetframePtr (b : RingBuffer (Frame n)) : SysResult × Option ℕ :=
  if b.isEmpty then (.ignore, none) else (.success, some b.readZc)

def framebufferGetframe (b : RingBuffer (Frame n)) :
    SysResult × Option (Frame n) × RingBuffer (Frame n) :=
  if b.isEmpty then (.ignore, none, b) else (.success, some b.read.1, b.read.2)

def framebufferFreeframe (b : RingBuffer (Frame n)) : SysResult × RingBuffer (Frame n) :=
  if b.isEmpty then (.failure, b) else (.success, b.incReadptr)

/- Copying a frame out is taking its pointer, reading the slot and freeing it. -/
theorem framebufferGetframe_eq (b : RingBuffer (Frame n)) :
    framebufferGetframe b =
      ((framebufferGetframePtr b).1, (framebufferGetframePtr b).2.map b.data,
        (framebufferFreeframe b).2) := by
  unfold framebufferGetframe framebufferGetframePtr framebufferFreeframe
  cases b.isEmpty with
  | true => rfl
  | false => rfl

/-! ### Saving a frame -/

def Saves (io : Capture) (save : Bool) (b : RingBuffer (Frame n)) : Prop :=
  io.select ≠ -1 ∧ framebufferDequeueframe io.dqbuf = .success ∧ save = true ∧ b.isFull = false

def Drops (io : Capture) (save : Bool) (b : RingBuffer (Frame n)) : Prop :=
  io.select ≠ -1 ∧ framebufferDequeueframe io.dqbuf = .success ∧ save = true ∧ b.isFull = true

instance (io : Capture) (save : Bool) (b : RingBuffer (Frame n)) : Decidable (Saves io save b) :=
  inferInstanceAs (Decidable (_ ∧ _))

instance (io : Capture) (save : Bool) (b : RingBuffer (Frame n)) : Decidable (Drops io save b) :=
  inferInstanceAs (Decidable (_ ∧ _))

theorem framebufferWriteframe_ring (io : Capture) (save : Bool) (b : RingBuffer (Frame n)) :
    (framebufferWriteframe io save b).2 =
      if Saves io save b then saveFrame io.bytes b else b := by
  unfold framebufferWriteframe Saves
  by_cases hselect : io.select = -1
  · simp [hselect]
  · by_cases hdq : framebufferDequeueframe io.dqbuf = .success
    · by_cases hqueue : framebufferQueueframe io.qbuf = .success
      · cases save with
        | false => simp [hselect, hdq, hqueue]
        | true => simp [hselect, hdq, hqueue]
      · cases save with
        | false => simp [hselect, hdq, hqueue]
        | true => simp [hselect, hdq, hqueue]
    · simp [hselect, hdq]

/-- The copy from the slot `writePtr` on ends inside the storage and before any
slot that holds a queued frame. -/
structure CopyFits (b : RingBuffer (Frame n)) (bytes : List UInt8) : Prop where
  storage : b.writePtr.toNat * n + bytes.length ≤ b.size.toNat * n
  queued : ∀ i, b.Occupied i → b.writePtr.toNat < i → b.writePtr.toNat * n + bytes.length ≤ i * n

section Tracks

open RingBuffer

variable {b : RingBuffer (Frame n)} {k R W : ℕ}

theorem copyFits_of_length (h : Tracks b k R W) {bytes : List UInt8} (hlen : bytes.length ≤ n) :
    CopyFits b bytes := by
  have hlt : b.writePtr.toNat < b.size.toNat := by
    rw [h.write, h.size]
    exact Nat.mod_lt _ (Nat.two_pow_pos k)
  have hnext (i : ℕ) (hi : b.writePtr.toNat < i) :
      b.writePtr.toNat * n + bytes.length ≤ i * n :=
    calc b.writePtr.toNat * n + bytes.length ≤ b.writePtr.toNat * n + n := by omega
      _ = (b.writePtr.toNat + 1) * n := (Nat.succ_mul _ _).symm
      _ ≤ i * n := Nat.mul_le_mul_right n hi
  exact ⟨hnext _ hlt, fun i _ hi => hnext i hi⟩

theorem CopyFits.occupied (h : Tracks b k R W) {bytes : List UInt8} (hfits : CopyFits b bytes)
    {i : ℕ} (hi : b.Occupied i) : memcpy b.data b.writePtr.toNat bytes i = b.data i := by
  apply memcpy_beyond
  rcases Nat.lt_trichotomy i b.writePtr.toNat with hlt | heq | hgt
  · exact .inl hlt
  · rw [heq, h.write] at hi
    exact absurd hi h.not_occupied
  · right
    have hle := hfits.queued i hi hgt
    rw [Nat.sub_mul]
    omega

def slotImage (b : RingBuffer (Frame n)) (bytes : List UInt8) : Frame n :=
  (b.data b.writePtr.toNat).overwrite bytes

theorem saveFrame_tracks (h : Tracks b k R W) (hroom : b.isFull = false) (bytes : List UInt8) :
    Tracks (saveFrame bytes b) k R (W + 1) := by
  apply Tracks.incWriteptr (h.setData _)
  have hfull := mt h.isFull.mpr (by simp [hroom])
  have := h.room
  omega

theorem saveFrame_contents (h : Tracks b k R W) (hroom : b.isFull = false) {bytes : List UInt8}
    (hfits : CopyFits b bytes) :
    (saveFrame bytes b).contents = b.contents ++ [slotImage b bytes] := by
  have hnext : W + 1 < R + 2 ^ k := by
    have hfull := mt h.isFull.mpr (by simp [hroom])
    have := h.room
    omega
  have hkeep := h.contents_congr (memcpy b.data b.writePtr.toNat bytes)
    fun i hi => hfits.occupied h hi
  rw [saveFrame, (h.setData _).contents_incWriteptr hnext, hkeep, ← h.write, slotImage,
    ← memcpy_self]

theorem getframePtr_of_lt (h : Tracks b k R W) (hlt : R < W) :
    framebufferGetframePtr b = (.success, some (R % 2 ^ k)) := by
  simp [framebufferGetframePtr, h.isEmpty_eq, hlt.ne, readZc, h.read]

theorem getframePtr_of_eq (h : Tracks b k R R) : framebufferGetframePtr b = (.ignore, none) := by
  simp [framebufferGetframePtr, h.isEmpty_eq]

theorem freeframe_of_lt (h : Tracks b k R W) (hlt : R < W) :
    framebufferFreeframe b = (.success, b.incReadptr) := by
  simp [framebufferFreeframe, h.isEmpty_eq, hlt.ne]

end Tracks

end MotionDetector
