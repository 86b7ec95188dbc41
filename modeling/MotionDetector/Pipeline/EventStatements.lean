import MotionDetector.Pipeline.Chain

/-!
# Statements of the detector and the camera
-/

namespace MotionDetector.Pipeline

open Transition RingBuffer Detection Camera Transcoder Nvm

variable {n : ℕ} {lut : ColorLut} {inp : Inputs n}

/-! ### Statements of the detector -/

theorem send_foldl_received {β : Type*} (events : List Event) (e : Events.System β) :
    (events.foldl Events.System.send e).received = e.received := by
  induction events generalizing e with
  | nil => rfl
  | cons event events ih => exact ih (e.send event)

section Detection

variable {s : Tasks n} {l late late' : List (Act n)} {a e v : System n} {i j k : ℕ}

/- The pass of the detector comes behind the pass that the camera is in. -/
theorem Matched.detects (h : Matched lut inp s l late late' a e v i j k) {e' : System n}
    (hstep : step lut e (.events (.detection (inp.rd i))) = some e') {d : DetectionThread}
    (hd : DetectorAt inp.rd d e'.events.detector (i + 1)) :
    Serial lut inp { s with
      detection := d, queue := e'.events.queue, sends := e'.events.sends } := by
  have he' : e' = { e with events := e'.events } ∧ e'.events.camera = e.events.camera ∧
      e'.events.buffer = e.events.buffer ∧ e'.events.received = e.events.received := by
    simp only [step, Events.step, Option.map_some, Option.some.injEq] at hstep
    rw [← hstep]
    exact ⟨rfl, Events.send_foldl_camera _ _, Events.send_foldl_buffer _ _,
      send_foldl_received _ _⟩
  obtain ⟨hsame, hcamera, hbuffer, hreceived⟩ := he'
  have hcounted := h.counted.detects (other_of_only h.nvm.only (by decide))
  cases hpc : inPass s.camera.pc with
  | true =>
    refine ⟨l, late ++ [.events (.detection (inp.rd i))], late', a, e', v, i + 1, j, k, ?_⟩
    exact
      { h with
        detection :=
          { h.detection with
            none := fun hnot => by simp [hpc] at hnot
            only := only_concat h.detection.only rfl
            ran := by
              rw [run_append_some _ h.detection.ran, run_cons, hstep]
              rfl
            queue := rfl
            sends := rfl
            received := h.detection.received.trans hreceived.symm }
        detector := hd
        transcoder := { h.transcoder with }
        nvm := { h.nvm with }
        counted := by simpa using hcounted }
  | false =>
    obtain ⟨rfl, rfl⟩ := h.detection.eq_of_not hpc
    have hnvm := h.nvm.frame (t := { s with
      detection := d, queue := e'.events.queue, sends := e'.events.sends }) e'.events
      (fun _ => by rw [hbuffer]; rfl) rfl rfl rfl rfl rfl rfl rfl
    refine ⟨l ++ [.events (.detection (inp.rd i))], [], late', e', e', withEvents e'.events v,
      i + 1, j, k, ?_⟩
    exact
      { ran := by
          rw [run_append_some _ h.ran, run_cons, hstep]
          rfl
        capture := h.capture.trans hbuffer.symm
        detection := .of_not hpc rfl rfl (h.detection.received.trans hreceived.symm)
        detector := hd
        camera := h.camera.frame hcamera fun hin => by simp [hpc] at hin
        transcoder := { h.transcoder with }
        nvm := by
          rw [hsame]
          exact hnvm
        counted := by simpa using hcounted }

/- A statement of the detector that has no effect on the queue. -/
theorem Matched.detector_moves (h : Matched lut inp s l late late' a e v i j k)
    {d : DetectionThread} (hd : DetectorAt inp.rd d e.events.detector i) :
    Serial lut inp { s with detection := d } :=
  ⟨l, late, late', a, e, v, i, j, k,
    { h with
      detection := { h.detection with }
      detector := hd
      transcoder := { h.transcoder with }
      nvm := { h.nvm with } }⟩

theorem step_detection (lut : ColorLut) (rd : ℕ → Reading) (m : ℕ) {d : DetectionFsm}
    {events : List Event} (hrest : (d, events) = detectionIteration (rd m) e.events.detector) :
    step lut e (.events (.detection (rd m))) =
      some { e with events :=
        events.foldl Events.System.send { e.events with detector := d } } := by
  simp only [step, Events.step, Option.map_some, ← hrest]

theorem taskStep_loopTest {rd : ℕ → Reading} {t : DetectionThread}
    (h : (t.taskStep rd).pc = .loopTest) : t.pc = .delay := by
  obtain ⟨pc, ⟨flag, state, substate, timeoutStart⟩, curStatus, current, pass, sends⟩ := t
  cases pc with
  | delay => rfl
  | loopTest =>
    simp only [DetectionThread.taskStep, DetectionThread.goto] at h
    split at h <;> cases h
  | risingTest =>
    simp only [DetectionThread.taskStep, DetectionThread.goto] at h
    split at h <;> cases h
  | fallingTest =>
    simp only [DetectionThread.taskStep, DetectionThread.goto] at h
    split at h <;> cases h
  | timeoutTest =>
    simp only [DetectionThread.taskStep, DetectionThread.goto] at h
    split at h <;> cases h
  | runTest =>
    simp only [DetectionThread.taskStep, DetectionThread.goto] at h
    split at h <;> cases h
  | stateSwitch => cases state <;> cases h
  | substateSwitch => cases substate <;> cases h
  | _ => cases h

theorem taskStep_pass (rd : ℕ → Reading) {t : DetectionThread} (h : t.pc ≠ .delay) :
    (t.taskStep rd).pass = t.pass := by
  obtain ⟨pc, ⟨flag, state, substate, timeoutStart⟩, curStatus, current, pass, sends⟩ := t
  cases pc with
  | stateSwitch => cases state <;> rfl
  | substateSwitch => cases substate <;> rfl
  | delay => exact absurd rfl h
  | _ => rfl

theorem taskStep_delay {rd : ℕ → Reading} {t : DetectionThread} (h : t.pc = .delay) :
    t.taskStep rd = { t with pass := t.pass + 1, pc := .loopTest } := by
  rw [DetectionThread.taskStep, h]

theorem Serial.detection (h : Serial lut inp s) : Serial lut inp (s.detectionStep inp) := by
  obtain ⟨l, late, late', a, e, v, i, j, k, h⟩ := h
  have hview := h.detector
  have hqueue := h.detection.queue
  have hsends := h.detection.sends
  unfold Tasks.detectionStep
  cases hsent : sentBy s.detection.pc with
  | none =>
    by_cases hdelay : s.detection.pc = .delay
    · have hend : detectionRest inp.rd s.detection = (s.detection.fsm, []) := by
        rw [detectionRest, hdelay]
      simp only [taskStep_delay hdelay]
      generalize hi : i = m at hview
      cases hview with
      | before rest start =>
        -- a pass without event counts where it ends
        have hstep := step_detection lut inp.rd s.detection.pass (hend.symm.trans rest)
        rw [← hi] at hstep
        have hdone := h.detects hstep (d := { s.detection with
          pass := s.detection.pass + 1, pc := .loopTest })
          (hi ▸ .before rfl fun _ => rfl)
        simpa [hqueue, hsends] using hdone
      | after rest inside =>
        refine h.detector_moves (d := { s.detection with
          pass := s.detection.pass + 1, pc := .loopTest }) ?_
        have hsame : s.detection.fsm = e.events.detector :=
          congrArg Prod.fst (hend.symm.trans rest)
        rw [hi]
        exact .before (by rw [← hsame]; rfl) fun _ => hsame
    · have hrest := detectionRest_step inp.rd hdelay hsent
      have hpass := taskStep_pass inp.rd hdelay
      have hloop : (s.detection.taskStep inp.rd).pc ≠ .loopTest :=
        fun h => hdelay (taskStep_loopTest h)
      apply h.detector_moves
      generalize hi : i = m at hview
      cases hview with
      | before rest start =>
        rw [← hpass]
        refine .before ?_ fun h => absurd h hloop
        rw [hrest, rest, hpass]
      | after rest inside =>
        rw [← hpass]
        exact .after (hrest.trans rest) hloop
  | some event =>
    obtain ⟨fsm, hbefore, hafter⟩ := detectionRest_sent inp.rd hsent
    have hdelay : s.detection.pc ≠ .delay := fun h => by simp [h, sentBy] at hsent
    have hpass := taskStep_pass inp.rd hdelay
    have hloop : (s.detection.taskStep inp.rd).pc ≠ .loopTest :=
      fun h => hdelay (taskStep_loopTest h)
    generalize hi : i = m at hview
    cases hview with
    | before rest start =>
      have hstep := step_detection lut inp.rd s.detection.pass (hbefore.symm.trans rest)
      rw [← hi] at hstep
      have hdone := h.detects hstep (d := s.detection.taskStep inp.rd)
        (by rw [hi, ← hpass]; exact .after hafter hloop)
      simpa [hqueue, hsends, Events.System.send] using hdone
    | after rest inside =>
      have := congrArg Prod.snd (hbefore.symm.trans rest)
      cases this

end Detection

/-! ### Statements of the camera -/

section Camera

variable {s : Tasks n} {l late late' : List (Act n)} {a e v : System n} {i j k : ℕ}

/- A statement of the camera that has no effect on the queue and the ring. -/
theorem Matched.camera_moves (h : Matched lut inp s l late late' a e v i j k) {t : CameraThread}
    (hpc : inPass t.pc = inPass s.camera.pc) (ht : CameraAt inp.io t a.events j) :
    Serial lut inp { s with camera := t } := by
  have hran : run (step lut) (opened t.pc a) late = some e := by
    rw [opened, hpc]
    exact h.detection.ran
  exact ⟨l, late, late', a, e, v, i, j, k,
    { h with
      detection :=
        { h.detection with
          none := fun hnot => h.detection.none (hpc.symm.trans hnot)
          ran := hran }
      camera := ht
      transcoder := { h.transcoder with }
      nvm := { h.nvm with } }⟩

/- From here on the detector is held back. -/
theorem Matched.camera_receives (h : Matched lut inp s l late late' a e v i j k)
    (hpc : s.camera.pc = .receive) {t : CameraThread}
    (ht : t = { s.camera with pc := .eventSwitch, event := (processEventQueue s.queue).1 }) :
    Serial lut inp { s with
      camera := t
      queue := (processEventQueue s.queue).2
      received := s.received ++ (s.queue.osalQueueReceive sizeofEvent).2.1.toList } := by
  have hnot : inPass s.camera.pc = false := by rw [hpc]; rfl
  obtain ⟨rfl, rfl⟩ := h.detection.eq_of_not hnot
  have hqueue := h.detection.queue
  have htpc : t.pc = .eventSwitch := by rw [ht]
  have hopened : opened t.pc a = { a with events :=
      { a.events with
        queue := (processEventQueue a.events.queue).2
        received := a.events.received ++
          (a.events.queue.osalQueueReceive sizeofEvent).2.1.toList } } := by
    rw [htpc]
    rfl
  have hinside : CameraAt inp.io t a.events j := by
    have hcamera := h.camera
    generalize hj : j = m at hcamera
    cases hcamera with
    | before pc task alive =>
      have htask : s.camera.task = a.events.camera := by
        have := task a.capture
        rwa [cameraRest, hpc] at this
      have halive : a.events.camera.state ≠ .exit := htask ▸ alive hpc
      have hpass : t.pass = s.camera.pass := by rw [ht]
      rw [← hpass]
      refine .inside (by rw [htpc]; rfl) fun buf => ?_
      have hrest : cameraRest CaptureStore.writeframe (inp.io t.pass) t buf =
          stateSwitch CaptureStore.writeframe (inp.io t.pass)
            { a.events.camera with
              state := eventSwitch (processEventQueue a.events.queue).1 a.events.camera.state }
            buf := by
        rw [cameraRest, htpc, ht, hqueue, htask]
      rw [hrest, cameraIteration, if_neg halive]
    | inside pc rest => simp [hpc, inPass] at pc
    | after pc task => simp [hpc, afterPass] at pc
  exact ⟨l, [], late', a, _, v, i, j, k,
    { h with
      detection :=
        { none := fun _ => rfl
          only := fun x hx => by cases hx
          ran := congrArg some hopened
          queue := congrArg (fun q => (processEventQueue q).2) hqueue
          sends := h.detection.sends
          received := by
            show s.received ++ _ = a.events.received ++ _
            rw [h.detection.received, hqueue] }
      camera := hinside
      transcoder := { h.transcoder with }
      nvm := { h.nvm with } }⟩

/- The frame that the transcoder holds is not written over. -/
theorem writes_keeps {c : CaptureStore n} {R W slot : ℕ} (h : Tracks c.ring 7 R W)
    {io : Capture} (hshort : io.bytes.length ≤ n) (pc : CameraPc)
    (hget : framebufferGetframePtr c.ring = (.success, some slot)) :
    framebufferGetframePtr (writes CaptureStore.writeframe io pc c).ring =
        (.success, some slot) ∧
      (writes CaptureStore.writeframe io pc c).ring.data slot = c.ring.data slot := by
  have hlt : R < W := by
    by_contra hnot
    obtain rfl : R = W := Nat.le_antisymm h.le (Nat.le_of_not_lt hnot)
    rw [getframePtr_of_eq h] at hget
    cases hget
  have hslot : slot = R % 2 ^ 7 := by
    rw [getframePtr_of_lt h hlt] at hget
    simpa using hget.symm
  have hwriteframe (save : Bool) :
      framebufferGetframePtr (CaptureStore.writeframe io save c).2.ring = (.success, some slot) ∧
        (CaptureStore.writeframe io save c).2.ring.data slot = c.ring.data slot := by
    rw [CaptureStore.writeframe, framebufferWriteframe_ring]
    by_cases hsaves : Saves io save c.ring
    · rw [if_pos hsaves]
      have hnext := saveFrame_tracks h hsaves.2.2.2 io.bytes
      have hoccupied : c.ring.Occupied slot := (h.occupied slot).mpr ⟨R, Nat.le_refl R, hlt, hslot⟩
      refine ⟨?_, (copyFits_of_length h hshort).occupied h hoccupied⟩
      rw [getframePtr_of_lt hnext (hlt.trans (Nat.lt_succ_self W)), hslot]
    · rw [if_neg hsaves]
      exact ⟨hget, rfl⟩
  cases pc with
  | writeIdle => exact hwriteframe false
  | writeCapturing => exact hwriteframe true
  | _ => exact ⟨hget, rfl⟩

/- The pass of the camera takes its place, and the passes of the detector that were
held back follow it. -/
theorem Matched.camera_writes (h : Matched lut inp s l late late' a e v i j k)
    (hshort : ∀ k, (inp.io k).bytes.length ≤ n) (hin : inPass s.camera.pc = true)
    {t : CameraThread} {c : CaptureStore n} (hafter : afterPass t.pc = true)
    (hpass : t.pass = s.camera.pass)
    (hc : c = writes CaptureStore.writeframe (inp.io s.camera.pass) s.camera.pc s.capture)
    (hrest : cameraRest CaptureStore.writeframe (inp.io s.camera.pass) t c =
      cameraRest CaptureStore.writeframe (inp.io s.camera.pass) s.camera s.capture) :
    Serial lut inp { s with camera := t, capture := c } := by
  obtain ⟨R, W, R', W', hlevels⟩ := reachable_levelled h.ran
  have hnot := not_inPass_of_after hafter
  have hcamera := h.camera
  generalize hj : j = m at hcamera
  cases hcamera with
  | before pc task alive => simp [not_inPass_of_before pc] at hin
  | after pc task => simp [not_inPass_of_after pc] at hin
  | inside pc rest =>
    obtain ⟨hbuffer, -⟩ : (cameraRest CaptureStore.writeframe (inp.io s.camera.pass) t c).2 = c ∧
        _ := cameraRest_after hafter c c
    generalize hC : (cameraRest CaptureStore.writeframe (inp.io s.camera.pass) t c).1 = C
    have hiteration : cameraIteration CaptureStore.writeframe (inp.io s.camera.pass)
        a.events.camera a.events.queue a.events.buffer =
        (C, (processEventQueue a.events.queue).2, c) := by
      have hbuf : a.events.buffer = s.capture := h.capture.symm
      rw [rest, hbuf, ← hrest, hC, hbuffer]
    let a₁ : System n := { a with events :=
      { a.events with
        camera := C
        queue := (processEventQueue a.events.queue).2
        buffer := c
        received := a.events.received ++
          (a.events.queue.osalQueueReceive sizeofEvent).2.1.toList } }
    have hstep : step lut a (.events (.camera (inp.io j))) = some a₁ := by
      rw [hj]
      simp only [step, Events.step, Option.map_some, hiteration]
      rfl
    have hopened : withQueue a₁ (opened s.camera.pc a) = a₁ := by
      rw [opened, hin]
      rfl
    have hlate : run (step lut) a₁ late = some (withQueue a₁ e) := by
      have hframe := run_frame (fun u x hx => detector_frame lut a₁ u hx)
        h.detection.only (opened s.camera.pc a)
      rw [hopened, h.detection.ran] at hframe
      exact hframe
    have hkeeps (hholds : Tasks.holds s.transcoder.pc = true) :=
      writes_keeps (c := s.capture) (h.capture ▸ hlevels.incoming) (hshort s.camera.pass)
        s.camera.pc (h.transcoder.frame hholds)
    rw [← hc] at hkeeps
    have hnvm := h.nvm.frame (t := { s with camera := t, capture := c }) (withQueue a₁ e).events
      (fun hfree => by
        have hdata := (hkeeps (by rw [hfree]; rfl)).2
        rw [h.capture] at hdata
        exact hdata) rfl rfl rfl rfl rfl rfl rfl
    have hcounted := (List.append_assoc l late late' ▸ h.counted).captures
      (h.not_held (by decide) (by decide))
    refine ⟨l ++ (.events (.camera (inp.io j)) :: late), [], late', withQueue a₁ e,
      withQueue a₁ e, withEvents (withQueue a₁ e).events v, i, j + 1, k, ?_⟩
    exact
      { ran := by
          rw [run_append_some _ h.ran, run_cons, hstep]
          exact hlate
        capture := rfl
        detection := .of_not hnot h.detection.queue h.detection.sends h.detection.received
        detector := h.detector
        camera := by
          rw [hj, ← hpass]
          refine .after hafter fun buf => ?_
          rw [hpass, (cameraRest_after hafter buf c).2, hC]
          rfl
        transcoder :=
          { h.transcoder with
            frame := fun hholds => (hkeeps hholds).1
            converted := fun hwrite => by
              have hdata := (hkeeps (by rw [hwrite]; rfl)).2
              exact (h.transcoder.converted hwrite).trans hdata.symm }
        nvm := hnvm
        counted := by simpa using hcounted }

theorem cameraStep_of_ne (h : s.camera.pc ≠ .receive) :
    s.cameraStep inp = { s with
      camera := s.camera.taskStep fun _ => ⟨(processEventQueue s.queue).1,
        (CaptureStore.writeframe (inp.io s.camera.pass) true s.capture).1⟩
      capture := writes CaptureStore.writeframe (inp.io s.camera.pass) s.camera.pc
        s.capture } := by
  unfold Tasks.cameraStep
  split
  · next hpc => exact absurd hpc h
  · rfl

theorem Serial.camera (hshort : ∀ k, (inp.io k).bytes.length ≤ n) (h : Serial lut inp s) :
    Serial lut inp (s.cameraStep inp) := by
  obtain ⟨l, late, late', a, e, v, i, j, k, h⟩ := h
  by_cases hreceive : s.camera.pc = .receive
  · have hdone := h.camera_receives hreceive rfl
    simpa [Tasks.cameraStep, hreceive, CameraThread.taskStep, writes] using hdone
  · rw [cameraStep_of_ne hreceive]
    generalize hx : PassInput.mk (processEventQueue s.queue).1
      (CaptureStore.writeframe (inp.io s.camera.pass) true s.capture).1 = x
    have hwritten : x.written =
        (CaptureStore.writeframe (inp.io s.camera.pass) true s.capture).1 := by
      rw [← hx]
    -- a statement with no effect on the ring leaves the rest of the pass the same
    have hrest (hquiet : isWrite s.camera.pc = false) (buf : CaptureStore n) :
        cameraRest CaptureStore.writeframe (inp.io s.camera.pass)
          (s.camera.taskStep fun _ => x) buf =
        cameraRest CaptureStore.writeframe (inp.io s.camera.pass) s.camera buf := by
      have h := cameraRest_step CaptureStore.writeframe (inp.io s.camera.pass) (x := x) buf
        hreceive fun hpc => by simp [hpc, isWrite] at hquiet
      rwa [writes_of_not hquiet] at h
    have hcamera := h.camera
    generalize hj : j = m at hcamera
    cases hcamera with
    | before pc task alive =>
      rcases beforePass_step pc x with hpc | ⟨hpc, hpass, halive⟩
      · exact absurd hpc hreceive
      · have hquiet := not_isWrite_of_before pc
        rw [writes_of_not hquiet]
        apply h.camera_moves
        · rw [not_inPass_of_before hpc, not_inPass_of_before pc]
        · rw [hj, ← hpass]
          refine .before hpc (fun buf => ?_) halive
          rw [hpass, hrest hquiet]
          exact task buf
    | inside pc rest =>
      obtain ⟨hpass, ⟨hin, hquiet⟩ | hafter⟩ := inPass_step pc x
      · rw [writes_of_not hquiet]
        apply h.camera_moves
        · rw [hin, pc]
        · rw [hj, ← hpass]
          refine .inside hin fun buf => ?_
          rw [hpass, hrest hquiet]
          exact rest buf
      · exact h.camera_writes hshort pc hafter hpass rfl
          (cameraRest_step _ _ _ hreceive fun _ => hwritten)
    | after pc task =>
      have hquiet := not_isWrite_of_after pc
      rw [writes_of_not hquiet]
      rcases afterPass_step pc x with hdelay | ⟨hpc, hpass⟩
      · have ht : s.camera.taskStep (fun _ => x) =
            { s.camera with pass := s.camera.pass + 1, pc := .loopTest } := by
          rw [CameraThread.taskStep, hdelay]
        rw [ht]
        apply h.camera_moves
        · rw [not_inPass_of_after pc]
          rfl
        · rw [hj]
          refine .before rfl (fun buf => ?_) fun h => by cases h
          have := task buf
          rw [cameraRest, hdelay] at this
          exact this
      · apply h.camera_moves
        · rw [not_inPass_of_after hpc, not_inPass_of_after pc]
        · rw [hj, ← hpass]
          refine .after hpc fun buf => ?_
          rw [hpass, hrest hquiet]
          exact task buf

end Camera

end MotionDetector.Pipeline
