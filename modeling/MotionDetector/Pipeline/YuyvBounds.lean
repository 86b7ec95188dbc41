import MotionDetector.Pipeline.Yuyv

/-!
# What the YUYV conversion touches (`src/camera/camera_cfg.h`)
-/

namespace MotionDetector

/-! ### The accesses of the loop -/

/-- The passes of the loop with their `i` and `j`. -/
def yuyvPasses (size i j : ℕ) : List (ℕ × ℕ) :=
  if i < size then (i, j) :: yuyvPasses size (i + 4) (j + 6) else []
termination_by size - i

/-- The indices of `src_frame` that a pass reads. -/
def passReads (p : ℕ × ℕ) : List ℕ := [p.1, p.1 + 1, p.1 + 2, p.1 + 3]

/-- The indices of `dest_frame` that it writes. -/
def passWrites (p : ℕ × ℕ) : List ℕ := [p.2, p.2 + 1, p.2 + 2, p.2 + 3, p.2 + 4, p.2 + 5]

def yuyvReads (size : ℕ) : List ℕ := (yuyvPasses size 0 0).flatMap passReads

def yuyvWrites (size : ℕ) : List ℕ := (yuyvPasses size 0 0).flatMap passWrites

section Accesses

variable {lut : ColorLut} {src src' dest : Memory} {size i j l : ℕ}

theorem yuyvLoop_foldl :
    yuyvLoop lut size src i j dest =
      (yuyvPasses size i j).foldl (fun dest p => yuyvPass lut src p.1 p.2 dest) dest := by
  fun_induction yuyvPasses size i j generalizing dest with
  | case1 i j h ih =>
    rw [yuyvLoop_pass h, ih, List.foldl_cons]
  | case2 i j h =>
    rw [yuyvLoop_done (by omega), List.foldl_nil]

theorem yuyvPass_frame {p : ℕ × ℕ} (h : l ∉ passWrites p) :
    yuyvPass lut src p.1 p.2 dest l = dest l := by
  simp only [passWrites, List.mem_cons, List.not_mem_nil, or_false, not_or] at h
  obtain ⟨h0, h1, h2, h3, h4, h5⟩ := h
  simp [yuyvPass, storePixel, h0, h1, h2, h3, h4, h5]

theorem yuyvPass_congr {p : ℕ × ℕ} (h : ∀ r ∈ passReads p, src r = src' r) :
    yuyvPass lut src p.1 p.2 dest = yuyvPass lut src' p.1 p.2 dest := by
  simp only [passReads, List.forall_mem_cons] at h
  obtain ⟨h0, h1, h2, h3, -⟩ := h
  rw [yuyvPass, yuyvPass, h0, h1, h2, h3]

/- The lists are complete: nothing else is changed, nothing else has an effect. -/
theorem yuyvLoop_frame (h : l ∉ yuyvWrites size) :
    yuyvLoop lut size src 0 0 dest l = dest l := by
  rw [yuyvLoop_foldl]
  unfold yuyvWrites at h
  generalize yuyvPasses size 0 0 = passes at h ⊢
  induction passes generalizing dest with
  | nil => rfl
  | cons p passes ih =>
    rw [List.flatMap_cons, List.mem_append, not_or] at h
    rw [List.foldl_cons, ih h.2, yuyvPass_frame h.1]

theorem yuyvLoop_congr (h : ∀ r ∈ yuyvReads size, src r = src' r) :
    yuyvLoop lut size src 0 0 dest = yuyvLoop lut size src' 0 0 dest := by
  rw [yuyvLoop_foldl, yuyvLoop_foldl]
  unfold yuyvReads at h
  generalize yuyvPasses size 0 0 = passes at h ⊢
  induction passes generalizing dest with
  | nil => rfl
  | cons p passes ih =>
    rw [List.flatMap_cons] at h
    have hpass : yuyvPass lut src p.1 p.2 dest = yuyvPass lut src' p.1 p.2 dest :=
      yuyvPass_congr fun r hr => h r (List.mem_append_left _ hr)
    rw [List.foldl_cons, List.foldl_cons, hpass]
    exact ih fun r hr => h r (List.mem_append_right _ hr)

end Accesses

theorem mem_yuyvPasses (d m : ℕ) (p : ℕ × ℕ) :
    p ∈ yuyvPasses (4 * (m + d)) (4 * m) (6 * m) ↔
      ∃ k, m ≤ k ∧ k < m + d ∧ p = (4 * k, 6 * k) := by
  induction d generalizing m with
  | zero =>
    rw [yuyvPasses, if_neg (by omega)]
    refine ⟨nofun, fun ⟨k, hk, hk', _⟩ => ?_⟩
    omega
  | succ d ih =>
    have hrest := ih (m + 1)
    rw [show m + 1 + d = m + (d + 1) by omega] at hrest
    have hstart : 4 * m + 4 = 4 * (m + 1) ∧ 6 * m + 6 = 6 * (m + 1) := by omega
    rw [yuyvPasses, if_pos (by omega), hstart.1, hstart.2, List.mem_cons, hrest]
    constructor
    · rintro (rfl | ⟨k, hk, hk', rfl⟩)
      · exact ⟨m, le_rfl, by omega, rfl⟩
      · exact ⟨k, by omega, hk', rfl⟩
    · rintro ⟨k, hk, hk', rfl⟩
      rcases hk.eq_or_lt with rfl | hlt
      · exact .inl rfl
      · exact .inr ⟨k, hlt, hk', rfl⟩

theorem mem_yuyvPasses_zero (q : ℕ) (p : ℕ × ℕ) :
    p ∈ yuyvPasses (4 * q) 0 0 ↔ ∃ k < q, p = (4 * k, 6 * k) := by
  have h := mem_yuyvPasses q 0 p
  simpa using h

theorem mem_yuyvReads (q r : ℕ) : r ∈ yuyvReads (4 * q) ↔ r < 4 * q := by
  simp only [yuyvReads, List.mem_flatMap, mem_yuyvPasses_zero]
  constructor
  · rintro ⟨_, ⟨k, hk, rfl⟩, hr⟩
    simp only [passReads, List.mem_cons, List.not_mem_nil, or_false] at hr
    omega
  · intro hr
    refine ⟨_, ⟨r / 4, by omega, rfl⟩, ?_⟩
    simp only [passReads, List.mem_cons, List.not_mem_nil, or_false]
    omega

theorem mem_yuyvWrites (q l : ℕ) : l ∈ yuyvWrites (4 * q) ↔ l < 6 * q := by
  simp only [yuyvWrites, List.mem_flatMap, mem_yuyvPasses_zero]
  constructor
  · rintro ⟨_, ⟨k, hk, rfl⟩, hl⟩
    simp only [passWrites, List.mem_cons, List.not_mem_nil, or_false] at hl
    omega
  · intro hl
    refine ⟨_, ⟨l / 6, by omega, rfl⟩, ?_⟩
    simp only [passWrites, List.mem_cons, List.not_mem_nil, or_false]
    omega

/- A buffer of `r` bytes takes the picture exactly when it is one half larger than the frame. -/
theorem forall_writes_lt_iff (q r : ℕ) : (∀ l ∈ yuyvWrites (4 * q), l < r) ↔ 6 * q ≤ r := by
  constructor
  · intro h
    by_contra hlt
    have hlast := h r ((mem_yuyvWrites q r).mpr (by omega))
    omega
  · intro hle l hl
    have := (mem_yuyvWrites q l).mp hl
    omega

theorem forall_lt_mem_writes_iff (q n : ℕ) :
    (∀ l < n, l ∈ yuyvWrites (4 * q)) ↔ n ≤ 6 * q := by
  constructor
  · intro h
    by_contra hlt
    have hlast := (mem_yuyvWrites q (6 * q)).mp (h (6 * q) (by omega))
    omega
  · intro hle l hl
    exact (mem_yuyvWrites q l).mpr (by omega)

/-! ### The configurations -/

/-- The configurations whose `PIXEL_FORMAT_CAMERA` is `V4L2_PIX_FMT_YUYV`. -/
inductive YuyvConfig where
  | cameraUseYuv
  | cameraUsePpm
  deriving DecidableEq, Repr

namespace YuyvConfig

/-- `FRAME_SIZE`, the size of `frame_t`. -/
def frameSize (c : YuyvConfig) (pixelWidth pixelHeight : ℕ) : ℕ :=
  match c with
  | cameraUseYuv => pixelWidth * pixelHeight
  | cameraUsePpm => pixelWidth * pixelHeight * 2

/-- `RGB_FRAME_SIZE_BYTES`, the size of `rgb_frame_t`. -/
def rgbFrameSizeBytes (c : YuyvConfig) (pixelWidth pixelHeight : ℕ) : ℕ :=
  c.frameSize pixelWidth pixelHeight

def ReadsInside (c : YuyvConfig) (pixelWidth pixelHeight : ℕ) : Prop :=
  ∀ r ∈ yuyvReads (c.frameSize pixelWidth pixelHeight), r < c.frameSize pixelWidth pixelHeight

def WritesInside (c : YuyvConfig) (pixelWidth pixelHeight : ℕ) : Prop :=
  ∀ l ∈ yuyvWrites (c.frameSize pixelWidth pixelHeight),
    l < c.rgbFrameSizeBytes pixelWidth pixelHeight

/-- Three bytes for each pixel are written. -/
def Covers (c : YuyvConfig) (pixelWidth pixelHeight : ℕ) : Prop :=
  ∀ l < 3 * pixelWidth * pixelHeight, l ∈ yuyvWrites (c.frameSize pixelWidth pixelHeight)

variable (c : YuyvConfig) {pixelWidth pixelHeight : ℕ}

theorem four_dvd_frameSize (h4 : 4 ∣ pixelWidth * pixelHeight) :
    4 ∣ c.frameSize pixelWidth pixelHeight := by
  cases c with
  | cameraUseYuv => exact h4
  | cameraUsePpm => exact h4.mul_right 2

theorem readsInside (h4 : 4 ∣ pixelWidth * pixelHeight) :
    c.ReadsInside pixelWidth pixelHeight := by
  obtain ⟨q, hq⟩ := c.four_dvd_frameSize h4
  rw [ReadsInside, hq]
  exact fun r hr => (mem_yuyvReads q r).mp hr

theorem frameSize_eq_zero_iff :
    c.frameSize pixelWidth pixelHeight = 0 ↔ pixelWidth * pixelHeight = 0 := by
  cases c with
  | cameraUseYuv => exact Iff.rfl
  | cameraUsePpm => simp [frameSize]

/- The picture is larger by one half than the frame that is to hold it. -/
theorem writesInside_iff (h4 : 4 ∣ pixelWidth * pixelHeight) :
    c.WritesInside pixelWidth pixelHeight ↔ pixelWidth * pixelHeight = 0 := by
  obtain ⟨q, hq⟩ := c.four_dvd_frameSize h4
  rw [← c.frameSize_eq_zero_iff, WritesInside, rgbFrameSizeBytes, hq, forall_writes_lt_iff]
  omega

/- With `CAMERA_USE_YUV` the frame has room for every other pixel only. -/
theorem covers_iff (h4 : 4 ∣ pixelWidth * pixelHeight) :
    c.Covers pixelWidth pixelHeight ↔ c = cameraUsePpm ∨ pixelWidth * pixelHeight = 0 := by
  obtain ⟨q, hq⟩ := c.four_dvd_frameSize h4
  rw [Covers, hq, forall_lt_mem_writes_iff, Nat.mul_assoc]
  cases c with
  | cameraUseYuv =>
    simp only [frameSize] at hq
    simp only [reduceCtorEq, false_or]
    omega
  | cameraUsePpm =>
    simp only [frameSize] at hq
    simp only [true_or, iff_true]
    omega

end YuyvConfig

open YuyvConfig

/-- Only a picture without pixels is converted inside its buffers. -/
theorem rgb888_convert_inside_iff (c : YuyvConfig) {pixelWidth pixelHeight : ℕ}
    (h4 : 4 ∣ pixelWidth * pixelHeight) :
    (c.ReadsInside pixelWidth pixelHeight ∧ c.WritesInside pixelWidth pixelHeight ∧
        c.Covers pixelWidth pixelHeight ↔ pixelWidth * pixelHeight = 0) ∧
      c.ReadsInside pixelWidth pixelHeight ∧
      (c.WritesInside pixelWidth pixelHeight ↔ pixelWidth * pixelHeight = 0) ∧
      (c.Covers pixelWidth pixelHeight ↔ c = cameraUsePpm ∨ pixelWidth * pixelHeight = 0) := by
  have hreads := c.readsInside h4
  have hwrites := c.writesInside_iff h4
  have hcovers := c.covers_iff h4
  refine ⟨⟨fun h => hwrites.mp h.2.1, fun h => ?_⟩, hreads, hwrites, hcovers⟩
  exact ⟨hreads, hwrites.mpr h, hcovers.mpr (.inr h)⟩

theorem rgb888_convert_inside_iff_vga :
    4 ∣ 640 * 480 ∧ ¬ cameraUseYuv.Covers 640 480 ∧ ¬ cameraUsePpm.WritesInside 640 480 := by
  have h4 : 4 ∣ 640 * 480 := by decide
  have hyuv := (rgb888_convert_inside_iff cameraUseYuv h4).2.2.2
  have hppm := (rgb888_convert_inside_iff cameraUsePpm h4).2.2.1
  refine ⟨h4, fun h => ?_, fun h => ?_⟩
  · exact absurd (hyuv.mp h) (by decide)
  · exact absurd (hppm.mp h) (by decide)

/-- At the resolution of `CAMERA_USE_PPM` the loop writes behind `rgbFrame`. -/
theorem rgb888_convert_outside :
    ¬ ∀ (c : YuyvConfig) (pixelWidth pixelHeight : ℕ), 4 ∣ pixelWidth * pixelHeight →
      c.ReadsInside pixelWidth pixelHeight ∧ c.WritesInside pixelWidth pixelHeight ∧
        c.Covers pixelWidth pixelHeight := by
  intro h
  obtain ⟨-, hwrites, -⟩ := h cameraUsePpm 320 240 (by decide)
  have hlast : 230399 ∈ yuyvWrites (4 * 38400) := (mem_yuyvWrites 38400 230399).mpr (by decide)
  exact absurd (hwrites 230399 hlast) (by decide)

end MotionDetector
