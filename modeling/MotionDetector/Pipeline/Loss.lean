import MotionDetector.Pipeline.Delivery

/-!
# Loss of datagrams

The viewer reads whatever arrives. After any loss, the next slot that arrives
whole leaves no start marker behind, and the frame of the slot after it is
emitted as it was captured.
-/

namespace MotionDetector

namespace Stream

open Delimited

theorem feed_slot {self : FrameTransform} {bytes f : List UInt8} {chunks : List (List UInt8)}
    (hs : Scanned self bytes) (hfree : FreeOf startMarker self.frameBuffer)
    (h : Carries startMarker endMarker f chunks.flatten) :
    feed self chunks = ⟨(feed self chunks).frameBuffer, self.pushed ++ [f]⟩ := by
  obtain ⟨rest, -, hscan⟩ := scan_slot separated_markers hfree h
  rw [feed_of_scan hs hscan]

/- Whatever was kept, after the datagrams of a slot no start marker is. -/
theorem feed_resync {self : FrameTransform} {bytes f : List UInt8} {chunks : List (List UInt8)}
    (hs : Scanned self bytes) (h : Carries startMarker endMarker f chunks.flatten) :
    FreeOf startMarker (feed self chunks).frameBuffer := by
  obtain ⟨frame, rest, hfree, hscan⟩ :=
    scan_resync separated_markers (LeftmostScan.settled hs) h
  rw [feed_of_scan hs hscan]
  exact hfree

end Stream

namespace Pipeline

open Transition Delimited MotionDetector.Stream

variable {n : ℕ} {lut : ColorLut}

/-- What arrives of the datagrams of every slot; `lost i j` tells of datagram `j`
of slot `i`. -/
def System.arrived (s : System n) (lost : ℕ → ℕ → Bool) : List (List (List UInt8)) :=
  s.handed.mapIdx fun i h => (h.datagrams.zipIdx.filter fun d => !lost i d.2).map Prod.fst

def Whole (s : System n) (lost : ℕ → ℕ → Bool) (i : ℕ) : Prop :=
  ∀ h, s.handed[i]? = some h → ∀ j < h.datagrams.length, lost i j = false

theorem arrived_whole {s : System n} {lost : ℕ → ℕ → Bool} {i : ℕ} {h : Handed n}
    (hi : s.handed[i]? = some h) (hwhole : Whole s lost i) :
    (s.arrived lost)[i]? = some h.datagrams := by
  rw [System.arrived, List.getElem?_mapIdx, hi, Option.map_some]
  congr 1
  have hall : (h.datagrams.zipIdx.filter fun d => !lost i d.2) = h.datagrams.zipIdx := by
    apply List.filter_eq_self.mpr
    intro d hd
    have hlt : d.2 < h.datagrams.length := by simpa using (List.mem_zipIdx hd).2.1
    simp [hwhole h hi d.2 hlt]
  rw [hall, List.zipIdx_map_fst]

theorem arrived_slot {acts : List (Act n)} {s : System n} {lost : ℕ → ℕ → Bool} {i : ℕ}
    {f : List UInt8 × Frame n} (hn : n < 2147483648) (hr : run (step lut) .init acts = some s)
    (hjpeg : Jpeg s) (hsent : ∀ h ∈ s.handed, h.Sent) (hf : s.streamed[i]? = some f)
    (hwhole : Whole s lost i) :
    ∃ chunks, (s.arrived lost)[i]? = some chunks ∧
      Carries startMarker endMarker f.1 chunks.flatten := by
  obtain ⟨R, W, R', W', hflow⟩ := reachable_flow (reachable_storeFits hr hjpeg.short) hr
  have himage : (s.handed.map Handed.image)[i]? = some f.2 := by
    rw [← hflow.streamed_images, List.getElem?_map, hf]
    rfl
  rw [List.getElem?_map] at himage
  obtain ⟨h, hi, himage⟩ := Option.map_eq_some_iff.mp himage
  have hh : h ∈ s.handed := List.mem_of_getElem? hi
  refine ⟨h.datagrams, arrived_whole hi hwhole, ?_⟩
  rw [slot_flatten hn hr hjpeg hh (hsent h hh), himage]
  exact streamed_carries hr hjpeg f (List.mem_of_getElem? hf)

theorem feed_take_succ {arrived : List (List (List UInt8))} {chunks : List (List UInt8)} {i : ℕ}
    (hi : arrived[i]? = some chunks) :
    feed .init (arrived.take (i + 1)).flatten =
      feed (feed .init (arrived.take i).flatten) chunks := by
  rw [List.take_add_one, hi, Option.toList_some, List.flatten_append, feed_append]
  simp

theorem scanned_take (arrived : List (List (List UInt8))) (i : ℕ) :
    Scanned (feed .init (arrived.take i).flatten) ([] ++ (arrived.take i).flatten.flatten) :=
  feed_scanned scanned_init _

/-- A frame is emitted as it was captured if its slot and the one before it
arrive whole, whatever else is lost. -/
theorem loss_bounded (lut : ColorLut) (hn : n < 2147483648) (acts : List (Act n)) (s : System n)
    (hr : run (step lut) .init acts = some s) (hjpeg : Jpeg s)
    (hsent : ∀ h ∈ s.handed, h.Sent) (lost : ℕ → ℕ → Bool) (i : ℕ) (f : List UInt8 × Frame n)
    (hf : s.streamed[i]? = some f) (hown : Whole s lost i)
    (hprev : ∀ k, k + 1 = i → Whole s lost k) :
    (feed .init ((s.arrived lost).take (i + 1)).flatten).pushed =
      (feed .init ((s.arrived lost).take i).flatten).pushed ++ [f.1] ∧
    (feed .init ((s.arrived lost).take (i + 1)).flatten).pushed <+:
      (feed .init (s.arrived lost).flatten).pushed := by
  obtain ⟨chunks, hchunks, hcarries⟩ := arrived_slot hn hr hjpeg hsent hf hown
  have hfree : FreeOf startMarker
      (feed .init ((s.arrived lost).take i).flatten).frameBuffer := by
    cases i with
    | zero => exact freeOf_nil startMarker_ne_nil
    | succ k =>
      have hk : k < s.streamed.length := by
        have := (List.getElem?_eq_some_iff.mp hf).1
        omega
      obtain ⟨before, hbefore, hslot⟩ := arrived_slot hn hr hjpeg hsent
        (List.getElem?_eq_getElem hk) (hprev k rfl)
      rw [feed_take_succ hbefore]
      exact feed_resync (scanned_take _ k) hslot
  constructor
  · rw [feed_take_succ hchunks, feed_slot (scanned_take _ i) hfree hcarries]
  · have hsplit : (s.arrived lost).flatten =
        ((s.arrived lost).take (i + 1)).flatten ++ ((s.arrived lost).drop (i + 1)).flatten := by
      rw [← List.flatten_append, List.take_append_drop]
    rw [hsplit, feed_append]
    exact feed_pushed_extends _ _

def frameThrough : List (Act 5) :=
  [dequeues 5 shortFrame, .processFrames .zero, .startread, .imageSave ⟨3, [5]⟩, .endread]

def threeFrames : List (Act 5) := motion 5 :: (frameThrough ++ frameThrough ++ frameThrough)

/- Slot 0 is lost, and the frame of slot 2 is emitted. -/
theorem loss_bounded_threeFrames :
    ∃ s, run (step flatLut) .init threeFrames = some s ∧
      (feed .init ((s.arrived fun i _ => i == 0).take 3).flatten).pushed =
        (feed .init ((s.arrived fun i _ => i == 0).take 2).flatten).pushed ++ [shortFrame] := by
  have hfinal : (run (step flatLut) .init threeFrames).map
      (fun s => ((s.capture.stored.map Prod.fst, s.streamed.map Prod.fst),
        decide (∀ r ∈ s.handed.map Handed.result, r = .success),
        decide (∀ sends ∈ s.handed.map Handed.sends, ∀ send ∈ sends, send.Accepted))) =
      some ((List.replicate 3 shortFrame, List.replicate 3 shortFrame), true, true) := by
    decide +kernel
  obtain ⟨s, hs, hvalues⟩ := Option.map_eq_some_iff.mp hfinal
  simp only [Prod.mk.injEq, decide_eq_true_eq] at hvalues
  obtain ⟨⟨hstored, hstreamed⟩, hresults, hsends⟩ := hvalues
  have hjpeg : Jpeg s := jpeg_of_stored (by decide) hstored
  have hsent : ∀ h ∈ s.handed, h.Sent := sent_of_forall hresults hsends
  have hthird : (s.streamed.map Prod.fst)[2]? = some shortFrame := by
    rw [hstreamed]
    rfl
  rw [List.getElem?_map] at hthird
  obtain ⟨f, hf, hbytes⟩ := Option.map_eq_some_iff.mp hthird
  have hprev : ∀ k, k + 1 = 2 → Whole s (fun i _ => i == 0) k := by
    intro k hk h _ j _
    obtain rfl : k = 1 := by omega
    rfl
  have h := loss_bounded flatLut (by decide) threeFrames s hs hjpeg hsent (fun i _ => i == 0) 2 f
    hf (fun _ _ _ _ => rfl) hprev
  rw [hbytes] at h
  exact ⟨s, hs, h.1⟩

end Pipeline

end MotionDetector
