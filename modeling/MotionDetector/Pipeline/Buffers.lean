import MotionDetector.Ring.Fifo
import MotionDetector.Pipeline.Framebuffer
import MotionDetector.Pipeline.Image

/-!
# The two frame buffers as bounded queues

The functions of `framebuffer.c` and `image.c` use the ring macros behind their
guards: each call that succeeds is an operation of a ring user, and a call that
is refused leaves the ring as it is.
-/

namespace MotionDetector

variable {n : ℕ}

/-- The ring user after a call with a result and the ring it left. -/
def RingUser.afterCall (s : RingUser n) (call : SysResult × RingBuffer (Frame n)) :
    Option (RingUser n) :=
  if call.1 = .success then some { s with ring := call.2 } else none

theorem imagebufferWrite_ringStep (s : RingUser n) (frame : Frame n) :
    ringStep s (.write frame) = s.afterCall (imagebufferWrite frame s.ring) ∧
      ((imagebufferWrite frame s.ring).1 ≠ .success →
        (imagebufferWrite frame s.ring).2 = s.ring) := by
  unfold ringStep imagebufferWrite RingUser.afterCall
  by_cases hfull : s.ring.isFull = true
  · simp [hfull]
  · simp [hfull]

/- `framebuffer_writeframe` saves a frame only into a ring that is not full. -/
theorem framebufferWriteframe_ringStep (s : RingUser n) (src : LockFree.RawFrame n) (io : Capture)
    (hio : io.bytes = src.bytes) (save : Bool) (hsaves : Saves io save s.ring) :
    ringStep s (.writeMemcpy src) =
      some { s with ring := (framebufferWriteframe io save s.ring).2 } := by
  rw [framebufferWriteframe_ring, if_pos hsaves, hio]
  simp only [ringStep, hsaves.2.2.2]
  rfl

theorem framebufferGetframe_ringStep (s : RingUser n) :
    ringStep s .read =
      (framebufferGetframe s.ring).2.1.map fun x =>
        { s with
          ring := (framebufferGetframe s.ring).2.2
          pointer := none
          got := s.got ++ [x] } := by
  unfold ringStep framebufferGetframe
  by_cases hempty : s.ring.isEmpty = true
  · simp [hempty]
  · simp [hempty]

theorem startread_ringStep (s : RingUser n) :
    ringStep s .readZc =
        (imagebufferStartread s.ring).2.map (fun p => { s with pointer := some p }) ∧
      (framebufferGetframePtr s.ring).2 = (imagebufferStartread s.ring).2 := by
  unfold ringStep imagebufferStartread framebufferGetframePtr
  by_cases hempty : s.ring.isEmpty = true
  · simp [hempty]
  · simp [hempty]

theorem endread_ringStep (s : RingUser n) {p : ℕ} (hp : s.pointer = some p) :
    ringStep s .incReadptr =
        ({ s with pointer := none, got := s.got ++ [s.ring.data p] } : RingUser n).afterCall
          (imagebufferEndread s.ring) ∧
      ringStep s .incReadptr =
        ({ s with pointer := none, got := s.got ++ [s.ring.data p] } : RingUser n).afterCall
          (framebufferFreeframe s.ring) := by
  unfold ringStep imagebufferEndread framebufferFreeframe RingUser.afterCall
  by_cases hempty : s.ring.isEmpty = true
  · simp [hempty]
  · simp [hempty, hp]

end MotionDetector
