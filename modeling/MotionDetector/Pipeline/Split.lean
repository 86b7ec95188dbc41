import MotionDetector.Pipeline.Image

/-!
# How `image_save` splits a buffer
-/

namespace MotionDetector

open Pieces

theorem datagrams_flatten {start stop : ℕ} {sends : List Send}
    (h : Chain start (sends.map Send.piece) stop) (buf : List UInt8) :
    (sends.map fun s => s.datagram buf).flatten = (buf.drop start).take (stop - start) := by
  have hflat := h.flatten buf
  rw [List.map_map] at hflat
  exact hflat

/-- Whatever part of each request `sendto` accepts, and wherever it fails. -/
theorem image_save_splits {size : ℕ} (hpos : 1 ≤ size) (hsize : size < 2147483648)
    {buf : List UInt8} (hbuf : buf.length = size) (sockfd : ℤ) (calls : SaveCalls)
    (hans : ∀ s ∈ (imageSave sockfd size calls).2.2, s.Answered) :
    (size ≤ calls.sendto.length → (imageSave sockfd size calls).1 ≠ none) ∧
      (∀ s ∈ (imageSave sockfd size calls).2.2, 0 ≤ s.offset ∧ 1 ≤ s.request ∧
        s.request ≤ 1024 ∧ s.offset + s.request ≤ size) ∧
      ((imageSave sockfd size calls).1 = some .success →
        ((imageSave sockfd size calls).2.2.map fun s => s.datagram buf).flatten = buf) ∧
      ((imageSave sockfd size calls).1 = some .failure →
        ((imageSave sockfd size calls).2.2.map fun s => s.datagram buf).flatten <+: buf ∧
        ((imageSave sockfd size calls).2.2.map fun s => s.datagram buf).flatten ≠ buf) := by
  rcases imageSave_splits hpos hsize hans with ⟨hfail, hnil⟩ | ⟨stop, hsplit⟩
  · have hne : buf ≠ [] := by
      rintro rfl
      exact absurd hbuf (Nat.ne_of_lt hpos)
    rw [hfail, hnil]
    exact ⟨fun _ => nofun, nofun, nofun, fun _ => ⟨List.nil_prefix, hne.symm⟩⟩
  · have hflat := datagrams_flatten hsplit.chain buf
    rw [List.drop_zero, Nat.sub_zero] at hflat
    refine ⟨fun hlen hnone => ?_, fun s hs => ?_, fun hok => ?_, fun hfail => ?_⟩
    · obtain ⟨hstop, hsent⟩ := hsplit.unfinished hnone
      omega
    · have hinside := hsplit.inside s hs
      exact ⟨hinside.offset, hinside.pos, hinside.small, hinside.fits⟩
    · rw [hflat, hsplit.success hok, ← hbuf, List.take_length]
    · rw [hflat]
      have hstop := hsplit.failure hfail
      refine ⟨List.take_prefix _ _, fun heq => ?_⟩
      have hlen := congrArg List.length heq
      rw [List.length_take, hbuf] at hlen
      omega

/-- Two full requests, half of the last one, and the rest. -/
theorem image_save_splits_shortSend :
    (imageSave (-1) 2060 ⟨3, [1024, 1024, 6, 6]⟩).1 = some .success ∧
      ((imageSave (-1) 2060 ⟨3, [1024, 1024, 6, 6]⟩).2.2.map fun s =>
        s.datagram (List.replicate 2060 7)).flatten = List.replicate 2060 7 := by
  have hret : (imageSave (-1) 2060 ⟨3, [1024, 1024, 6, 6]⟩).1 = some .success := by decide
  exact ⟨hret, (image_save_splits (by decide) (by decide) List.length_replicate (-1)
    ⟨3, [1024, 1024, 6, 6]⟩ (by decide)).2.2.1 hret⟩

end MotionDetector
