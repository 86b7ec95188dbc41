import MotionDetector.Pipeline.Loss
import MotionDetector.Stream.HttpServer

/-!
# From the camera to the browser

The pipeline, the datagrams that arrive and the HTTP server of the viewer, put
together: which frames a browser finds in the body of its response.
-/

namespace MotionDetector.Pipeline

open Transition Delimited MotionDetector.Stream

variable {n : ℕ} {lut : ColorLut}

def System.wholeSlot (s : System n) (lost : ℕ → ℕ → Bool) (i : ℕ) : Bool :=
  match s.handed[i]? with
  | none => true
  | some h => (List.range h.datagrams.length).all fun j => !lost i j

/-- The slot and the one before it arrive whole. -/
def System.safe (s : System n) (lost : ℕ → ℕ → Bool) (i : ℕ) : Bool :=
  s.wholeSlot lost i && (i == 0 || s.wholeSlot lost (i - 1))

theorem System.safe_of_none {s : System n} {lost : ℕ → ℕ → Bool}
    (hnone : ∀ i j, lost i j = false) (i : ℕ) : s.safe lost i = true := by
  have hwhole (k : ℕ) : s.wholeSlot lost k = true := by
    unfold System.wholeSlot
    split
    · rfl
    · exact List.all_eq_true.mpr fun j _ => by simp [hnone]
  rw [System.safe, hwhole, hwhole]
  simp

/-- The frames streamed in safe slots, as they were captured. -/
def System.safeFrames (s : System n) (lost : ℕ → ℕ → Bool) (i : ℕ) : List (List UInt8) :=
  ((s.streamed.take i).zipIdx.filter fun p => s.safe lost p.2).map fun p => p.1.1

theorem whole_of_wholeSlot {s : System n} {lost : ℕ → ℕ → Bool} {i : ℕ}
    (h : s.wholeSlot lost i = true) : Whole s lost i := by
  intro x hx j hj
  rw [System.wholeSlot, hx] at h
  simpa using List.all_eq_true.mp h j (List.mem_range.mpr hj)

theorem safeFrames_succ {s : System n} {lost : ℕ → ℕ → Bool} {i : ℕ} {f : List UInt8 × Frame n}
    (hf : s.streamed[i]? = some f) :
    s.safeFrames lost (i + 1) =
      s.safeFrames lost i ++ if s.safe lost i = true then [f.1] else [] := by
  have hi : i < s.streamed.length := (List.getElem?_eq_some_iff.mp hf).1
  rw [System.safeFrames, List.take_add_one, hf, Option.toList_some, List.zipIdx_append,
    List.filter_append, List.map_append]
  congr 1
  simp only [List.zipIdx_singleton, Nat.zero_add, List.length_take, Nat.min_eq_left hi.le]
  by_cases hsafe : s.safe lost i = true
  · simp [hsafe]
  · simp [hsafe]

theorem streamed_length {acts : List (Act n)} {s : System n}
    (hr : run (step lut) .init acts = some s) (hjpeg : Jpeg s) (lost : ℕ → ℕ → Bool) :
    s.streamed.length = (s.arrived lost).length := by
  obtain ⟨R, W, R', W', hflow⟩ := reachable_flow (reachable_storeFits hr hjpeg.short) hr
  have h := congrArg List.length hflow.streamed_images
  rw [List.length_map, List.length_map] at h
  rw [h, System.arrived, List.length_mapIdx]

/- No start marker is left behind a slot that arrived whole. -/
theorem free_after_whole {acts : List (Act n)} {s : System n} {lost : ℕ → ℕ → Bool} {i : ℕ}
    (hn : n < 2147483648) (hr : run (step lut) .init acts = some s) (hjpeg : Jpeg s)
    (hsent : ∀ h ∈ s.handed, h.Sent) (hi : i ≤ s.streamed.length)
    (hprev : i ≠ 0 → Whole s lost (i - 1)) :
    FreeOf startMarker (feed .init ((s.arrived lost).take i).flatten).frameBuffer := by
  cases i with
  | zero => exact freeOf_nil startMarker_ne_nil
  | succ k =>
    obtain ⟨chunks, hchunks, hslot⟩ := arrived_slot hn hr hjpeg hsent
      (List.getElem?_eq_getElem (by omega : k < s.streamed.length)) (hprev (Nat.succ_ne_zero k))
    rw [feed_take_succ hchunks]
    exact feed_resync (scanned_take _ k) hslot

/- One more slot brings its frame if it is safe, and takes back none. -/
theorem pushed_take_succ {acts : List (Act n)} {s : System n} (lost : ℕ → ℕ → Bool) {i : ℕ}
    {f : List UInt8 × Frame n} (hn : n < 2147483648) (hr : run (step lut) .init acts = some s)
    (hjpeg : Jpeg s) (hsent : ∀ h ∈ s.handed, h.Sent) (hf : s.streamed[i]? = some f) :
    (feed .init ((s.arrived lost).take i).flatten).pushed <+:
        (feed .init ((s.arrived lost).take (i + 1)).flatten).pushed ∧
      (s.safe lost i = true → (feed .init ((s.arrived lost).take (i + 1)).flatten).pushed =
        (feed .init ((s.arrived lost).take i).flatten).pushed ++ [f.1]) := by
  have hi : i < s.streamed.length := (List.getElem?_eq_some_iff.mp hf).1
  constructor
  · have harrived := List.getElem?_eq_getElem (streamed_length hr hjpeg lost ▸ hi)
    rw [feed_take_succ harrived]
    exact feed_pushed_extends _ _
  · intro hsafe
    obtain ⟨hown, hprev⟩ := Bool.and_eq_true_iff.mp hsafe
    obtain ⟨chunks, hchunks, hcarries⟩ :=
      arrived_slot hn hr hjpeg hsent hf (whole_of_wholeSlot hown)
    have hbefore : i ≠ 0 → Whole s lost (i - 1) := by
      intro hne
      rcases Bool.or_eq_true_iff.mp hprev with hzero | hwhole
      · exact absurd (by simpa using hzero) hne
      · exact whole_of_wholeSlot hwhole
    have hfree := free_after_whole hn hr hjpeg hsent hi.le hbefore
    rw [feed_take_succ hchunks, feed_slot (scanned_take _ i) hfree hcarries]

theorem pushed_of_safe {acts : List (Act n)} {s : System n} (lost : ℕ → ℕ → Bool)
    (hn : n < 2147483648) (hr : run (step lut) .init acts = some s) (hjpeg : Jpeg s)
    (hsent : ∀ h ∈ s.handed, h.Sent) (i : ℕ) (hi : i ≤ s.streamed.length) :
    (s.safeFrames lost i).Sublist (feed .init ((s.arrived lost).take i).flatten).pushed ∧
      ((∀ k < i, s.safe lost k = true) →
        (feed .init ((s.arrived lost).take i).flatten).pushed =
          (s.streamed.take i).map Prod.fst) := by
  induction i with
  | zero => exact ⟨List.Sublist.refl _, fun _ => rfl⟩
  | succ i ih =>
    have hlt : i < s.streamed.length := hi
    have hf := List.getElem?_eq_getElem hlt
    obtain ⟨hsub, hall⟩ := ih hlt.le
    obtain ⟨hext, hsafe⟩ := pushed_take_succ lost hn hr hjpeg hsent hf
    refine ⟨?_, fun hk => ?_⟩
    · rw [safeFrames_succ hf]
      split
      · next h =>
        rw [hsafe h]
        exact hsub.append_right _
      · rw [List.append_nil]
        exact hsub.trans hext.sublist
    · rw [hsafe (hk i (Nat.lt_succ_self i)), hall fun k h => hk k (h.trans (Nat.lt_succ_self i)),
        List.take_add_one, hf, List.map_append]
      rfl

theorem run_messages (v : HttpServer) (msgs : List (List UInt8)) :
    run httpStep v (msgs.map .message) =
      some { v with frameTransform := feed v.frameTransform msgs } := by
  induction msgs generalizing v with
  | nil => rfl
  | cons msg msgs ih => exact ih { v with frameTransform := transform v.frameTransform msg }

/-- A browser that was the first to connect, and stays connected until every frame
pushed has been emitted, finds in its response the frames of the safe slots in the
order in which the camera captured them, and with nothing lost exactly the frames
streamed. -/
theorem viewed_frames (lut : ColorLut) (hn : n < 2147483648) (acts : List (Act n))
    (s : System n) (hr : run (step lut) .init acts = some s) (hjpeg : Jpeg s)
    (hsent : ∀ h ∈ s.handed, h.Sent) (lost : ℕ → ℕ → Bool) (httpActs : List HttpAct)
    (v : HttpServer) (hv : run httpStep .init httpActs = some v)
    (hmessages : messages httpActs = (s.arrived lost).flatten) (c : Connection)
    (hc : v.connections[0]? = some c) (hlistening : c.listening = true)
    (hemitted : v.emitted = v.frameTransform.pushed.length) :
    ∃ frames, part.decodeAll c.frameStream.length c.frameStream = (frames, []) ∧
      (s.safeFrames lost s.streamed.length).Sublist frames ∧
      ((∀ i j, lost i j = false) → frames = s.streamed.map Prod.fst) := by
  have hinv := run_inv HttpServer.Inv (fun _ _ _ h ht => httpStep_inv h ht) init_inv hv
  have hok := hinv.ok c (List.mem_of_getElem? hc)
  have hheard := hok.live hlistening
  have hsince := hinv.first c hc
  have hpushed := run_frameTransform hv
  rw [hmessages, ← List.take_length (l := s.arrived lost),
    ← streamed_length hr hjpeg lost] at hpushed
  obtain ⟨hsub, hall⟩ := pushed_of_safe lost hn hr hjpeg hsent _ (Nat.le_refl _)
  refine ⟨v.frameTransform.pushed, ?_, ?_, fun hnone => ?_⟩
  · have hbody := hok.body
    rw [hsince, List.drop_zero, List.take_of_length_le (by omega)] at hbody
    rw [hbody]
    exact part.decodeAll_flatMap part_ne_nil _ (Nat.le_refl _)
  · rw [hpushed]
    exact hsub
  · rw [hpushed]
    exact (hall fun k _ => System.safe_of_none hnone k).trans (by rw [List.take_length])

/-- Three frames arrive without loss, and a browser connects then. -/
theorem viewed_frames_threeFrames :
    ∃ s v c, run (step flatLut) .init threeFrames = some s ∧
      run httpStep .init (((s.arrived fun _ _ => false).flatten.map .message) ++
        [.request, .data, .data, .data]) = some v ∧ v.connections[0]? = some c ∧
      part.decodeAll c.frameStream.length c.frameStream =
        (List.replicate 3 shortFrame, []) := by
  have hfinal : (run (step flatLut) .init threeFrames).map
      (fun s => ((s.capture.stored.map Prod.fst, s.streamed.map Prod.fst),
        decide (∀ r ∈ s.handed.map Handed.result, r = .success),
        decide (∀ sends ∈ s.handed.map Handed.sends, ∀ send ∈ sends, send.Accepted))) =
      some ((List.replicate 3 shortFrame, List.replicate 3 shortFrame), true, true) := by
    decide +kernel
  obtain ⟨s, hs, hvalues⟩ := Option.map_eq_some_iff.mp hfinal
  simp only [Prod.mk.injEq, decide_eq_true_eq] at hvalues
  obtain ⟨⟨hstored, hstreamed⟩, hresults, hsends⟩ := hvalues
  have hjpeg : Jpeg s := jpeg_of_stored (by decide) hstored
  have hsent := sent_of_forall hresults hsends
  have hfed : (feed .init ((s.arrived fun _ _ => false).flatten)).pushed =
      List.replicate 3 shortFrame := by
    have h := (pushed_of_safe (fun _ _ => false) (by decide) hs hjpeg hsent _
      (Nat.le_refl _)).2 fun k _ => System.safe_of_none (fun _ _ => rfl) k
    rw [List.take_length, streamed_length hs hjpeg fun _ _ => false, List.take_length] at h
    rw [h, hstreamed]
  generalize hmsgs : (s.arrived fun _ _ => false).flatten = msgs at hfed
  obtain ⟨v, hv, hconnections, hemitted⟩ :
      ∃ v, run httpStep .init (msgs.map .message ++ [.request, .data, .data, .data]) = some v ∧
        v.connections.map Connection.listening = [true] ∧
        v.emitted = v.frameTransform.pushed.length := by
    rw [run_append_some _ (run_messages .init msgs)]
    generalize hT : feed HttpServer.init.frameTransform msgs = T
    have hT : T.pushed = List.replicate 3 shortFrame := by
      rw [← hT]
      exact hfed
    simp [run, httpStep, HttpServer.init, Connection.accepted, Connection.data, hT]
  obtain ⟨c, hc, hlistening⟩ := List.map_eq_singleton_iff.mp hconnections
  have hmessages : messages (msgs.map .message ++ [.request, .data, .data, .data]) = msgs := by
    simp [messages]
  obtain ⟨frames, hdecode, -, hall⟩ := viewed_frames flatLut (by decide) threeFrames s hs hjpeg
    hsent (fun _ _ => false) _ v hv (hmessages.trans hmsgs.symm) c (by simp [hc]) hlistening
    hemitted
  refine ⟨s, v, c, hs, hmsgs ▸ hv, by simp [hc], ?_⟩
  rw [hdecode, hall fun _ _ => rfl, hstreamed]

end MotionDetector.Pipeline
