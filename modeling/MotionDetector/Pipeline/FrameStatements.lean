import MotionDetector.Pipeline.Chain

/-!
# Statements of the transcoder and the nvm task
-/

namespace MotionDetector.Pipeline

open Transition RingBuffer Detection Camera Transcoder Nvm

variable {n : ℕ} {lut : ColorLut} {inp : Inputs n}

/-! ### Statements of the transcoder -/

section Transcoder

variable {s : Tasks n} {l late late' : List (Act n)} {a e v : System n} {i j k : ℕ}

/- A statement of the transcoder that has no effect on the rings. -/
theorem Matched.transcoder_moves (h : Matched lut inp s l late late' a e v i j k)
    (hpc : s.transcoder.pc ≠ .freeframe) {t : TranscoderThread} {raw : ℕ} {rgb : Frame n}
    (htpc : t.pc ≠ .freeframe)
    (hview : TranscoderView { s with transcoder := t, rawFrame := raw, rgbFrame := rgb } k) :
    Serial lut inp { s with transcoder := t, rawFrame := raw, rgbFrame := rgb } := by
  have hran : run (step lut) (written t.pc raw a) late' = some v := by
    rw [written_of_ne htpc, ← written_of_ne hpc s.rawFrame a]
    exact h.nvm.ran
  exact ⟨l, late, late', a, e, v, i, j, k,
    { h with
      detection := { h.detection with }
      transcoder := hview
      nvm :=
        { h.nvm with
          none := fun _ => h.nvm.none hpc
          ran := hran } }⟩

/- Outside `process_frames` the transcoder holds no frame. -/
theorem Matched.transcoder_idles (h : Matched lut inp s l late late' a e v i j k)
    (hpc : s.transcoder.pc ≠ .freeframe) {t : TranscoderThread} {raw : ℕ} {rgb : Frame n}
    (htpc : t.pc ≠ .freeframe) (hholds : Tasks.holds t.pc = false) (hwrite : t.pc ≠ .write)
    (hcalls : k = t.calls) :
    Serial lut inp { s with transcoder := t, rawFrame := raw, rgbFrame := rgb } :=
  h.transcoder_moves hpc htpc
    { calls := by
        show k + (if Tasks.holds t.pc then 1 else 0) = t.calls
        rw [hholds]
        exact hcalls
      frame := fun hyes => by
        cases hholds.symm.trans hyes
      converted := fun hyes => absurd hyes hwrite }

/- A call of `process_frames` that finds no frame. -/
theorem Matched.transcoder_finds_none (h : Matched lut inp s l late late' a e v i j k)
    (hpc : s.transcoder.pc = .getframe) {R W : ℕ} (hring : Tracks a.capture.ring 7 R W)
    (hempty : R = W) {t : TranscoderThread}
    (ht : t = { s.transcoder with calls := s.transcoder.calls + 1, pc := .increment })
    {rgb : Frame n} : Serial lut inp { s with transcoder := t, rgbFrame := rgb } := by
  subst hempty
  have hk : k = s.transcoder.calls := by
    have hcalls := h.transcoder.calls
    rwa [hpc] at hcalls
  have hstep : step lut a (.processFrames (inp.rgbFrame k)) = some a := by
    simp only [step, processFrames_of_eq lut _ hring, takenFrame_eq hring, Nat.lt_irrefl,
      if_false, Option.toList_none, List.map_nil, List.append_nil]
    rfl
  have htpc : t.pc = .increment := by rw [ht]
  have hran : run (step lut) (written t.pc s.rawFrame a) late' = some v := by
    have hran := h.nvm.ran
    rw [written_of_ne (by simp [hpc])] at hran
    rw [written_of_ne (by simp [htpc])]
    exact hran
  have hcounted := (List.append_assoc l late late' ▸ h.counted).processes
    (h.not_held (by decide) (by decide))
  exact ⟨l ++ [.processFrames (inp.rgbFrame k)], late, late', a, e, v, i, j, k + 1,
    { h with
      ran := by
        rw [run_append_some _ h.ran, run_cons, hstep]
        rfl
      detection := { h.detection with }
      transcoder :=
        { calls := by
            rw [ht, hk]
            rfl
          frame := fun hholds => by simp [htpc, Tasks.holds] at hholds
          converted := fun hwrite => by simp [htpc] at hwrite }
      nvm :=
        { h.nvm with
          none := fun _ => h.nvm.none (by simp [hpc])
          ran := hran }
      counted := by simpa using hcounted }⟩

/- From here on the nvm task is held back. -/
theorem Matched.transcoder_writes (h : Matched lut inp s l late late' a e v i j k)
    (hpc : s.transcoder.pc = .write) {t : TranscoderThread}
    (ht : t = { s.transcoder with pc := .freeframe }) :
    Serial lut inp { s with
      transcoder := t
      imageBuffer := (imagebufferWrite s.rgbFrame s.imageBuffer).2
      taken := s.taken ++ [(s.capture.ring.data s.rawFrame, s.imageBuffer.getlen.toNat)] } := by
  have hne : s.transcoder.pc ≠ .freeframe := by simp [hpc]
  obtain ⟨rfl, rfl⟩ := h.nvm.eq_of_ne hne
  have htpc : t.pc = .freeframe := by rw [ht]
  have hframe := h.transcoder.frame (by rw [hpc]; rfl)
  have hconverted := h.transcoder.converted hpc
  have himage := h.nvm.imageBuffer
  have hcapture := h.capture
  exact ⟨l, late, [], a, e, written t.pc s.rawFrame a, i, j, k,
    { h with
      detection := { h.detection with }
      transcoder :=
        { calls := by
            have hcalls := h.transcoder.calls
            rw [hpc] at hcalls
            rw [ht]
            exact hcalls
          frame := fun _ => hframe
          converted := fun hwrite => by simp [htpc] at hwrite }
      nvm :=
        { none := fun _ => rfl
          only := fun x hx => by cases hx
          ran := rfl
          imageBuffer := by
            rw [htpc, written, if_pos rfl, hconverted, himage, hcapture]
          nvm := by
            rw [htpc, written, if_pos rfl]
            exact h.nvm.nvm
          sockfd := by
            rw [htpc, written, if_pos rfl]
            exact h.nvm.sockfd
          taken := by
            rw [htpc, written, if_pos rfl, h.nvm.taken, himage, hcapture]
          handed := by
            rw [htpc, written, if_pos rfl]
            exact h.nvm.handed } }⟩

/- The call takes its place, and the steps of the nvm task that were held back
follow it. -/
theorem Matched.transcoder_frees (h : Matched lut inp s l late late' a e v i j k)
    (hpc : s.transcoder.pc = .freeframe) {t : TranscoderThread}
    (ht : t = { s.transcoder with pc := .increment }) :
    Serial lut inp { s with
      transcoder := t
      capture := { s.capture with ring := (framebufferFreeframe s.capture.ring).2 } } := by
  obtain ⟨R, W, R', W', hlevels⟩ := reachable_levelled h.ran
  have hring := hlevels.incoming
  have hframe := h.transcoder.frame (by rw [hpc]; rfl)
  have hcapture := h.capture
  rw [hcapture] at hframe
  have hlt : R < W := by
    by_contra hnot
    obtain rfl : R = W := Nat.le_antisymm hring.le (Nat.le_of_not_lt hnot)
    rw [getframePtr_of_eq hring] at hframe
    cases hframe
  have hslot : R % 2 ^ 7 = s.rawFrame := by
    rw [getframePtr_of_lt hring hlt] at hframe
    simpa using hframe
  have hfree : (framebufferFreeframe a.capture.ring).2 = a.capture.ring.incReadptr := by
    rw [freeframe_of_lt hring hlt]
  have hcalls : k + 1 = s.transcoder.calls := by
    have hcalls := h.transcoder.calls
    rwa [hpc] at hcalls
  have htpc : t.pc = .increment := by rw [ht]
  let ev : Events.System (CaptureStore n) :=
    { a.events with buffer := { a.capture with ring := a.capture.ring.incReadptr } }
  have hstep : step lut a (.processFrames (inp.rgbFrame k)) =
      some (withEvents ev (written s.transcoder.pc s.rawFrame a)) := by
    rw [written, if_pos hpc]
    simp only [step, processFrames_of_lt lut _ hring hlt, takenFrame_eq hring, if_pos hlt,
      Option.toList_some, List.map_cons, List.map_nil, hslot]
    rfl
  have hlate : run (step lut) (withEvents ev (written s.transcoder.pc s.rawFrame a)) late' =
      some (withEvents ev v) := by
    rw [run_frame (fun u x hx => nvm_frame lut ev u hx) h.nvm.only, h.nvm.ran]
    rfl
  have hdetection := h.detection.frame (b := withEvents ev v) (t := { s with
    transcoder := t
    capture := { s.capture with ring := (framebufferFreeframe s.capture.ring).2 } })
    rfl rfl rfl rfl rfl
  have hcounted := (h.counted.of_acts fun task =>
    actsOf_swap h.nvm.only h.detection.only (by decide))
  rw [List.append_assoc] at hcounted
  have hcounted := hcounted.processes fun y hy =>
    h.not_held (by decide) (by decide) y (List.mem_append.mpr (List.mem_append.mp hy).symm)
  exact ⟨l ++ (.processFrames (inp.rgbFrame k) :: late'), late, [], withEvents ev v,
    withQueue (withEvents ev v) e, withEvents ev v, i, j, k + 1,
    { ran := by
        rw [run_append_some _ h.ran, run_cons, hstep]
        exact hlate
      capture := by
        rw [hcapture, hfree]
        rfl
      detection := hdetection
      detector := h.detector
      camera := h.camera.frame rfl fun _ => rfl
      transcoder :=
        { calls := by
            rw [ht]
            exact hcalls
          frame := fun hholds => by simp [htpc, Tasks.holds] at hholds
          converted := fun hwrite => by simp [htpc] at hwrite }
      nvm := .of_ne (by simp [htpc]) h.nvm.imageBuffer h.nvm.nvm h.nvm.sockfd h.nvm.taken
        h.nvm.handed
      counted := by simpa using hcounted }⟩

theorem Serial.transcoder (h : Serial lut inp s) :
    Serial lut inp (s.transcoderStep lut inp) := by
  obtain ⟨l, late, late', a, e, v, i, j, k, h⟩ := h
  obtain ⟨R, W, R', W', hlevels⟩ := reachable_levelled h.ran
  have hring := hlevels.incoming
  have hcalls := h.transcoder.calls
  unfold Tasks.transcoderStep
  cases hpc : s.transcoder.pc with
  | getframe =>
    rcases Nat.lt_or_ge R W with hlt | hge
    · have hget : framebufferGetframePtr s.capture.ring = (.success, some (R % 2 ^ 7)) := by
        rw [h.capture]
        exact getframePtr_of_lt hring hlt
      rw [hpc] at hcalls
      simp only [hget, TranscoderThread.taskStep, hpc]
      exact h.transcoder_moves (by simp [hpc]) (by simp)
        ⟨congrArg (· + 1) hcalls, fun _ => hget, fun hwrite => by cases hwrite⟩
    · have hempty : R = W := Nat.le_antisymm hring.le hge
      have hget : framebufferGetframePtr s.capture.ring = (.ignore, none) := by
        rw [h.capture]
        exact getframePtr_of_eq (hempty ▸ hring)
      simp only [hget, TranscoderThread.taskStep, hpc]
      exact h.transcoder_finds_none hpc hring hempty (by simp)
  | convert =>
    have hframe := h.transcoder.frame (by rw [hpc]; rfl)
    rw [hpc] at hcalls
    simp only [TranscoderThread.taskStep, hpc, TranscoderThread.goto]
    exact h.transcoder_moves (by simp [hpc]) (by simp) ⟨hcalls, fun _ => hframe, fun _ =>
      imageConvert_camera lut (s.capture.ring.data s.rawFrame) s.rgbFrame⟩
  | write => exact h.transcoder_writes hpc (by rw [TranscoderThread.taskStep, hpc]; rfl)
  | freeframe => exact h.transcoder_frees hpc (by rw [TranscoderThread.taskStep, hpc]; rfl)
  | forTest =>
    rw [hpc] at hcalls
    simp only [TranscoderThread.taskStep, hpc, TranscoderThread.goto]
    split
    · exact h.transcoder_idles (by simp [hpc]) (by simp) rfl (by simp) hcalls
    · exact h.transcoder_idles (by simp [hpc]) (by simp) rfl (by simp) hcalls
  | exitTest =>
    rw [hpc] at hcalls
    simp only [TranscoderThread.taskStep, hpc, TranscoderThread.goto]
    split
    · exact h.transcoder_idles (by simp [hpc]) (by simp) rfl (by simp) hcalls
    · exact h.transcoder_idles (by simp [hpc]) (by simp) rfl (by simp) hcalls
  | increment =>
    rw [hpc] at hcalls
    simp only [TranscoderThread.taskStep, hpc]
    exact h.transcoder_idles (by simp [hpc]) (by simp) rfl (by simp) hcalls
  | delay =>
    rw [hpc] at hcalls
    simp only [TranscoderThread.taskStep, hpc, TranscoderThread.goto]
    exact h.transcoder_idles (by simp [hpc]) (by simp) rfl (by simp) hcalls
  | ended =>
    rw [hpc] at hcalls
    simp only [TranscoderThread.taskStep, hpc]
    exact h.transcoder_idles (by simp [hpc]) (by simp [hpc]) (by rw [hpc]; rfl) (by simp [hpc])
      hcalls

end Transcoder

/-! ### Statements of the nvm task -/

section Nvm

variable {s : Tasks n} {l late late' : List (Act n)} {a e v : System n} {i j k : ℕ}

/- A statement of the nvm task that has no effect on the image buffer. -/
theorem Matched.nvm_moves (h : Matched lut inp s l late late' a e v i j k) {t : NvmThread}
    (hpc : ({ s with nvm := t } : Tasks n).nvmPc = s.nvmPc) (hsaves : t.saves = s.nvm.saves)
    (hreads : t.reads = s.nvm.reads) : Serial lut inp { s with nvm := t } :=
  ⟨l, late, late', a, e, v, i, j, k,
    { h with
      detection := { h.detection with }
      transcoder := { h.transcoder with }
      nvm := { h.nvm with nvm := hpc.trans h.nvm.nvm }
      counted :=
        { h.counted with
          saves := h.counted.saves.trans (by rw [hsaves])
          reads := h.counted.reads.trans hreads.symm } }⟩

/- The step comes behind the call of `process_frames` that the transcoder is in. -/
theorem Matched.nvm_acts (h : Matched lut inp s l late late' a e v i j k) {x : Act n}
    {v' : System n} (hx : taskOf x = .nvm) (hstep : step lut v x = some v') {t : Tasks n}
    (ht : t = { s with
      nvm := t.nvm, saveFrame := t.saveFrame, imageBuffer := v'.imageBuffer
      sockfd := v'.sockfd, handed := v'.handed })
    (hv' : v' = { v with
      imageBuffer := v'.imageBuffer, nvm := t.nvmPc, sockfd := v'.sockfd, handed := v'.handed })
    (hsaves : (List.range s.nvm.saves).map inp.calls ++ [x].filterMap saveCallsOf =
      (List.range t.nvm.saves).map inp.calls)
    (hreads : s.nvm.reads + [x].countP isStartread = t.nvm.reads) : Serial lut inp t := by
  have hevents : v'.events = v.events := by rw [hv']
  have htaken : t.taken = v'.taken := by
    rw [ht, hv']
    exact h.nvm.taken
  have hnvm : t.nvmPc = v'.nvm := by rw [hv']
  have hview (b u : System n) (hb : DetectorView lut s b u late) :
      DetectorView lut t b u late := by
    rw [ht]
    exact { hb with }
  have htranscoder : t.transcoder = s.transcoder ∧ t.rawFrame = s.rawFrame := by
    rw [ht]
    exact ⟨rfl, rfl⟩
  have hcamera : t.camera = s.camera ∧ t.capture = s.capture ∧ t.detection = s.detection := by
    rw [ht]
    exact ⟨rfl, rfl, rfl⟩
  have hkeep : TranscoderView t k := by
    rw [ht]
    exact { h.transcoder with }
  by_cases hpc : s.transcoder.pc = .freeframe
  · have hcounted := (List.append_nil (l ++ late ++ late') ▸ h.counted).saves_one hx
      (fun y hy => by cases hy) hsaves hreads
    refine ⟨l, late, late' ++ [x], a, e, v', i, j, k, ?_⟩
    exact
      { ran := h.ran
        capture := hcamera.2.1.trans h.capture
        detection := hview a e h.detection
        detector := by
          rw [hcamera.2.2]
          exact h.detector
        camera := by
          rw [hcamera.1]
          exact h.camera
        transcoder := hkeep
        nvm :=
          { none := fun hne => absurd (htranscoder.1 ▸ hpc) hne
            only := only_concat h.nvm.only hx
            ran := by
              rw [htranscoder.1, htranscoder.2, run_append_some _ h.nvm.ran, run_cons, hstep]
              rfl
            imageBuffer := by rw [ht]
            nvm := hnvm
            sockfd := by rw [ht]
            taken := htaken
            handed := by rw [ht] }
        counted := by simpa using hcounted }
  · obtain ⟨rfl, rfl⟩ := h.nvm.eq_of_ne hpc
    have hqueue : withQueue v' a = v' := by
      rw [hv']
      rfl
    have hdetection := h.detection.frame (t := s) hqueue rfl rfl rfl rfl
    have hcounted := (List.append_nil (l ++ late) ▸ h.counted).saves_one hx
      (other_of_only h.detection.only (by decide)) hsaves hreads
    refine ⟨l ++ [x], late, [], v', withQueue v' e, v', i, j, k, ?_⟩
    exact
      { ran := by
          rw [run_append_some _ h.ran, run_cons, hstep]
          rfl
        capture := by
          rw [hcamera.2.1, System.capture, hevents]
          exact h.capture
        detection := hview v' _ hdetection
        detector := by
          rw [hcamera.2.2]
          exact h.detector
        camera := by
          rw [hcamera.1, hevents]
          exact h.camera
        transcoder := hkeep
        nvm := .of_ne (by rw [htranscoder.1]; exact hpc) (by rw [ht]) hnvm (by rw [ht]) htaken
          (by rw [ht])
        counted := by simpa using hcounted }

theorem startread_cases (b : RingBuffer (Frame n)) :
    imagebufferStartread b = (.ignore, none) ∨
      ∃ slot, imagebufferStartread b = (.success, some slot) := by
  unfold imagebufferStartread
  cases b.isEmpty with
  | true => exact .inl rfl
  | false => exact .inr ⟨b.readZc, rfl⟩

theorem Matched.nvm_startread (h : Matched lut inp s l late late' a e v i j k)
    (hpc : s.nvm.pc = .startread) {t : Tasks n} (ht : s.nvmStep inp = some t) :
    Serial lut inp t := by
  have himage := h.nvm.imageBuffer
  have hidle : v.nvm = .idle := by
    rw [← h.nvm.nvm, Tasks.nvmPc, hpc]
  simp only [Tasks.nvmStep, hpc, Option.some.injEq, NvmThread.taskStep] at ht
  rcases startread_cases s.imageBuffer with hread | ⟨slot, hread⟩
  · have hstep : step lut v .startread = some v := by
      rw [himage] at hread
      simp [step, hidle, hread]
    refine h.nvm_acts rfl hstep ?_ ?_ ?_ ?_
    · rw [← ht]
      simp [himage, h.nvm.sockfd, h.nvm.handed]
    · rw [← ht]
      simp [Tasks.nvmPc, hread, ← hidle]
    · rw [← ht]
      simp [saveCallsOf]
    · rw [← ht]
      simp [isStartread]
  · have hstep : step lut v .startread = some { v with nvm := .holding slot } := by
      rw [himage] at hread
      simp [step, hidle, hread]
    refine h.nvm_acts rfl hstep ?_ ?_ ?_ ?_
    · rw [← ht]
      simp [himage, h.nvm.sockfd, h.nvm.handed]
    · rw [← ht]
      simp [Tasks.nvmPc, hread]
    · rw [← ht]
      simp [saveCallsOf]
    · rw [← ht]
      simp [isStartread]

theorem Matched.nvm_saves (h : Matched lut inp s l late late' a e v i j k)
    (hpc : s.nvm.pc = .save) {t : Tasks n} (ht : s.nvmStep inp = some t) :
    Serial lut inp t := by
  have hholding : v.nvm = .holding s.saveFrame := by
    rw [← h.nvm.nvm, Tasks.nvmPc, hpc]
  simp only [Tasks.nvmStep, hpc] at ht
  split at ht
  · next result sockfd sends hsave =>
    simp only [Option.some.injEq, NvmThread.taskStep, hpc] at ht
    have hstep : step lut v (.imageSave (inp.calls s.nvm.saves)) = some { v with
        nvm := .saved
        sockfd := sockfd
        handed := v.handed ++ [⟨v.imageBuffer.data s.saveFrame, result, sends⟩] } := by
      rw [h.nvm.sockfd] at hsave
      simp [step, hholding, hsave]
    refine h.nvm_acts rfl hstep ?_ ?_ ?_ ?_
    · rw [← ht]
      simp [h.nvm.imageBuffer, h.nvm.handed]
    · rw [← ht]
      by_cases hresult : result = .success
      · simp [Tasks.nvmPc, hresult]
      · simp [Tasks.nvmPc, hresult]
    · rw [← ht]
      simp [saveCallsOf, List.range_succ]
    · rw [← ht]
      simp [isStartread]
  · cases ht

theorem Matched.nvm_endread (h : Matched lut inp s l late late' a e v i j k)
    (hpc : s.nvm.pc = .endread) {t : Tasks n} (ht : s.nvmStep inp = some t) :
    Serial lut inp t := by
  have hsaved : v.nvm = .saved := by
    rw [← h.nvm.nvm, Tasks.nvmPc, hpc]
  simp only [Tasks.nvmStep, hpc, Option.some.injEq, NvmThread.taskStep, NvmThread.goto] at ht
  have hstep : step lut v .endread = some { v with
      nvm := .idle, imageBuffer := (imagebufferEndread v.imageBuffer).2 } := by
    simp [step, hsaved]
  refine h.nvm_acts rfl hstep ?_ ?_ ?_ ?_
  · rw [← ht]
    simp [h.nvm.imageBuffer, h.nvm.sockfd, h.nvm.handed]
  · rw [← ht]
    simp [Tasks.nvmPc]
  · rw [← ht]
    simp [saveCallsOf]
  · rw [← ht]
    simp [isStartread]

theorem Serial.nvm {t : Tasks n} (h : Serial lut inp s) (ht : s.nvmStep inp = some t) :
    Serial lut inp t := by
  obtain ⟨l, late, late', a, e, v, i, j, k, h⟩ := h
  cases hpc : s.nvm.pc with
  | startread => exact h.nvm_startread hpc ht
  | save => exact h.nvm_saves hpc ht
  | endread => exact h.nvm_endread hpc ht
  | forTest =>
    simp only [Tasks.nvmStep, hpc, Option.some.injEq, NvmThread.taskStep, NvmThread.goto] at ht
    subst ht
    refine h.nvm_moves ?_ rfl rfl
    by_cases hi : s.nvm.i < 2
    · simp [Tasks.nvmPc, hpc, hi]
    · simp [Tasks.nvmPc, hpc, hi]
  | exitTest =>
    simp only [Tasks.nvmStep, hpc, Option.some.injEq, NvmThread.taskStep, NvmThread.goto] at ht
    subst ht
    refine h.nvm_moves ?_ rfl rfl
    by_cases hexit : s.nvm.exitTask = true
    · simp [Tasks.nvmPc, hpc, hexit]
    · simp [Tasks.nvmPc, hpc, hexit]
  | traceError =>
    simp only [Tasks.nvmStep, hpc, Option.some.injEq, NvmThread.taskStep, NvmThread.goto] at ht
    subst ht
    exact h.nvm_moves (by simp [Tasks.nvmPc, hpc]) rfl rfl
  | increment =>
    simp only [Tasks.nvmStep, hpc, Option.some.injEq, NvmThread.taskStep] at ht
    subst ht
    exact h.nvm_moves (by simp [Tasks.nvmPc, hpc]) rfl rfl
  | delay =>
    simp only [Tasks.nvmStep, hpc, Option.some.injEq, NvmThread.taskStep] at ht
    subst ht
    exact h.nvm_moves (by simp [Tasks.nvmPc, hpc]) rfl rfl
  | close =>
    simp only [Tasks.nvmStep, hpc, Option.some.injEq, NvmThread.taskStep] at ht
    subst ht
    exact h.nvm_moves (by simp [Tasks.nvmPc, hpc]) rfl rfl
  | ended =>
    simp only [Tasks.nvmStep, hpc, Option.some.injEq, NvmThread.taskStep] at ht
    subst ht
    exact h.nvm_moves rfl rfl rfl

end Nvm

end MotionDetector.Pipeline
