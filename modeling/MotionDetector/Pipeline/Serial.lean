import MotionDetector.Pipeline.EventStatements
import MotionDetector.Pipeline.FrameStatements

/-!
# Every interleaving of the statements is a run of whole passes
-/

namespace MotionDetector.Pipeline

open Transition RingBuffer Detection Camera Transcoder Nvm

variable {n : ℕ} {lut : ColorLut} {inp : Inputs n}

theorem init_serial : Serial lut inp (Tasks.init : Tasks n) :=
  ⟨[], [], [], .init, .init, .init, 0, 0, 0,
    { ran := rfl
      capture := rfl
      detection := .of_not rfl rfl rfl rfl
      detector := .before rfl fun _ => rfl
      camera := .before rfl (fun _ => rfl) fun h => by cases h
      transcoder := ⟨rfl, fun h => (by cases h), fun h => (by cases h)⟩
      nvm := .of_ne (fun h => by cases h) rfl rfl rfl rfl rfl
      counted := ⟨rfl, rfl, rfl, rfl, rfl⟩ }⟩

theorem step_serial (hshort : ∀ k, (inp.io k).bytes.length ≤ n) {s t : Tasks n} {task : Task}
    (h : Serial lut inp s) (ht : s.step lut inp task = some t) : Serial lut inp t := by
  cases task with
  | detection =>
    obtain rfl := Option.some.inj ht
    exact h.detection
  | camera =>
    obtain rfl := Option.some.inj ht
    exact h.camera hshort
  | transcoder =>
    obtain rfl := Option.some.inj ht
    exact h.transcoder
  | nvm => exact h.nvm ht

/-- `acts` are the passes that the tasks of `s` have ended. -/
def Schedule (inp : Inputs n) (s : Tasks n) (acts : List (Act n)) : Prop :=
  Counted inp s.nvm acts s.detection.pass s.camera.pass s.transcoder.calls

/-- However the statements of the four tasks are interleaved, where no task is inside
a pass the program is in the state that whole passes lead to, each task making the
same ones. -/
theorem statements_serialize (lut : ColorLut) (inp : Inputs n)
    (hshort : ∀ k, (inp.io k).bytes.length ≤ n) (tasks : List Task) (s : Tasks n)
    (hr : run (Tasks.step lut inp) .init tasks = some s) (hquiet : s.Quiet) :
    ∃ acts, run (step lut) .init acts = some s.system ∧ Schedule inp s acts := by
  obtain ⟨l, late, late', a, e, v, i, j, k, h⟩ :=
    run_inv (Serial lut inp) (fun _ _ _ h ht => step_serial hshort h ht) init_serial hr
  obtain ⟨hdetection, hcamera, htranscoder⟩ := hquiet
  have hnot : inPass s.camera.pc = false := by
    rw [hcamera]
    rfl
  have hne : s.transcoder.pc ≠ .freeframe := fun hpc => by simp [hpc, Tasks.holds] at htranscoder
  obtain ⟨rfl, rfl⟩ := h.detection.eq_of_not hnot
  obtain ⟨rfl, rfl⟩ := h.nvm.eq_of_ne hne
  obtain ⟨hfsm, hi⟩ : s.detection.fsm = a.events.detector ∧ i = s.detection.pass := by
    have hview := h.detector
    generalize hi : i = m at hview
    cases hview with
    | before rest start => exact ⟨start hdetection, rfl⟩
    | after rest inside => exact absurd hdetection inside
  obtain ⟨htask, hj⟩ : s.camera.task = a.events.camera ∧ j = s.camera.pass := by
    have hview := h.camera
    generalize hj : j = m at hview
    cases hview with
    | before pc task alive =>
      refine ⟨?_, rfl⟩
      have := task a.capture
      rwa [cameraRest, hcamera] at this
    | inside pc rest => simp [hcamera, inPass] at pc
    | after pc task => simp [hcamera, afterPass] at pc
  have hsystem : s.system = a := by
    rw [Tasks.system, hfsm, htask, h.capture, h.detection.queue, h.detection.sends,
      h.detection.received, h.nvm.imageBuffer, h.nvm.nvm, h.nvm.sockfd, h.nvm.taken,
      h.nvm.handed]
    rfl
  have hk : k = s.transcoder.calls := by
    have hcalls := h.transcoder.calls
    rwa [htranscoder] at hcalls
  have hcounted := h.counted
  rw [List.append_nil, List.append_nil, hi, hj, hk] at hcounted
  exact ⟨l, hsystem ▸ h.ran, hcounted⟩

/-! ### What the frames hold -/

/- Where the transcoder is not about to free a frame, whole passes lead to the same
frames in the same places. -/
theorem Serial.passes (hshort : ∀ k, (inp.io k).bytes.length ≤ n) {s : Tasks n}
    (h : Serial lut inp s) (hpc : s.transcoder.pc ≠ .freeframe) :
    ∃ (l : List (Act n)) (a : System n), run (step lut) .init l = some a ∧ Short a ∧
      a.capture = s.capture ∧ a.taken = s.taken ∧ a.handed = s.handed := by
  obtain ⟨l, late, late', a, e, v, i, j, k, h⟩ := h
  obtain ⟨rfl, rfl⟩ := h.nvm.eq_of_ne hpc
  refine ⟨l, a, h.ran, short_of_acts h.ran fun io hio => ?_, h.capture.symm, h.nvm.taken.symm,
    h.nvm.handed.symm⟩
  have hmem : Act.events (.camera io) ∈ actsOf .camera (l ++ late ++ []) := by
    refine List.mem_filter.mpr ⟨?_, by simp [taskOf]⟩
    simp [hio]
  rw [h.counted.camera] at hmem
  obtain ⟨k, -, hk⟩ := List.mem_map.mp hmem
  cases hk
  exact hshort k

/-- In any order of the statements the frames taken are the first ones stored, and
those handed to `image_save` the first of the frames taken with room for them. -/
theorem Serial.conserved (hshort : ∀ k, (inp.io k).bytes.length ≤ n) {s : Tasks n}
    (h : Serial lut inp s) :
    s.taken.map Prod.fst <+: s.capture.stored.map Prod.snd ∧
      s.handed.map Handed.image <+: (s.taken.filter fun t => t.2 ≠ 255).map Prod.fst := by
  have hplain {s : Tasks n} (h : Serial lut inp s) (hpc : s.transcoder.pc ≠ .freeframe) :
      s.taken.map Prod.fst <+: s.capture.stored.map Prod.snd ∧
        s.handed.map Handed.image <+: (s.taken.filter fun t => t.2 ≠ 255).map Prod.fst := by
    obtain ⟨l, a, ha, hshort', hcapture, htaken, hhanded⟩ := h.passes hshort hpc
    obtain ⟨R, W, R', W', hflow⟩ := reachable_flow (reachable_storeFits ha hshort') ha
    have happended := hflow.appended
    have hkept := hflow.kept
    rw [System.appended, hcapture, htaken] at happended
    rw [System.kept, htaken, hhanded] at hkept
    rw [happended, hkept]
    exact ⟨List.prefix_append _ _, List.prefix_append _ _⟩
  by_cases hpc : s.transcoder.pc = .freeframe
  · -- the statement that frees the frame moves no other one
    have hnext : (s.transcoderStep lut inp).transcoder.pc ≠ .freeframe ∧
        (s.transcoderStep lut inp).capture.stored = s.capture.stored ∧
        (s.transcoderStep lut inp).taken = s.taken ∧
        (s.transcoderStep lut inp).handed = s.handed := by
      unfold Tasks.transcoderStep
      rw [hpc]
      refine ⟨?_, rfl, rfl, rfl⟩
      simp [TranscoderThread.taskStep, TranscoderThread.goto, hpc]
    obtain ⟨hne, hstored, htaken, hhanded⟩ := hnext
    have hafter := hplain h.transcoder hne
    rwa [hstored, htaken, hhanded] at hafter
  · exact hplain h hpc

/-- A sensor that stays high, frames of five bytes and a socket that takes them. -/
def highInputs : Inputs 5 where
  rd k := ⟨1, ⟨k, 0⟩⟩
  io _ := ⟨1, 0, shortFrame, 0⟩
  calls _ := ⟨3, [5]⟩
  rgbFrame _ := .zero

/-- The detector begins and ends passes inside the first one of the camera, and the nvm
task streams the frame that `process_frames` has not freed. -/
def overlapping : List Task :=
  List.replicate 7 .detection ++ List.replicate 2 .camera ++ [.detection, .camera] ++
    List.replicate 8 .detection ++ List.replicate 7 .camera ++ List.replicate 5 .transcoder ++
    List.replicate 4 .nvm ++ [.transcoder]

theorem statements_serialize_overlapping :
    ∃ s acts, run (Tasks.step flatLut highInputs) .init overlapping = some s ∧
      s.handed.length = 1 ∧ run (step flatLut) .init acts = some s.system ∧
      Schedule highInputs s acts := by
  have hfinal : (run (Tasks.step flatLut highInputs) .init overlapping).map
      (fun s => (decide s.Quiet, s.handed.length)) = some (true, 1) := by
    decide +kernel
  obtain ⟨s, hs, hvalues⟩ := Option.map_eq_some_iff.mp hfinal
  simp only [Prod.mk.injEq, decide_eq_true_eq] at hvalues
  obtain ⟨acts, hacts, hschedule⟩ := statements_serialize flatLut highInputs
    (fun _ => show shortFrame.length ≤ 5 by decide) overlapping s hs hvalues.1
  exact ⟨s, acts, hs, hvalues.2, hacts, hschedule⟩

end MotionDetector.Pipeline
