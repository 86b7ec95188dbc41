import MotionDetector.Pipeline.ColorLut

/-!
# The YUYV conversion, pixel by pixel
-/

namespace MotionDetector

open FixedPoint

/-! ### The reference -/

/-- The byte nearest to `x / 32768`. -/
def nearestByte (x : ℤ) : ℤ := max 0 (min 255 ⌊(x : ℚ) / 32768 + 1 / 2⌋)

structure Yuv where
  y : ℕ
  u : ℕ
  v : ℕ
  deriving DecidableEq, Repr

/-- Pixel `k` of a frame: two neighbours share `u` and `v`. -/
def yuyvPixel (src : Memory) (k : ℕ) : Yuv :=
  ⟨(src (2 * k)).toNat, (src (4 * (k / 2) + 1)).toNat, (src (4 * (k / 2) + 3)).toNat⟩

def Yuv.red (p : Yuv) : ℤ := 38142 * (p.y - 16) + 52298 * (p.v - 128)

def Yuv.green (p : Yuv) : ℤ := 38142 * (p.y - 16) - 12812 * (p.u - 128) - 26640 * (p.v - 128)

def Yuv.blue (p : Yuv) : ℤ := 38142 * (p.y - 16) + 66126 * (p.u - 128)

/-- Red, green and blue of the pixel. -/
def Yuv.Converted (p : Yuv) (rgb : UInt8 × UInt8 × UInt8) : Prop :=
  (rgb.1.toNat : ℤ) = nearestByte p.red ∧ (rgb.2.1.toNat : ℤ) = nearestByte p.green ∧
    (rgb.2.2.toNat : ℤ) = nearestByte p.blue

/-! ### One pixel -/

theorem clamp_eq (x : ℤ) : clampLower (clampUpper x 255) 0 = max 0 (min 255 x) := by
  unfold clampLower clampUpper
  omega

/- Half of `PRECISION` is in the sum already. -/
theorem clampByte_nearest (x : ℤ) :
    ((clampByte ((x + 16384).tdiv PRECISION)).toNat : ℤ) = nearestByte x := by
  have hround : ⌊(x : ℚ) / 32768 + 1 / 2⌋ = (x + 16384) / 32768 := by
    exact_mod_cast floor_add_half x (h := 16384) (by decide)
  have hclamp : max 0 (min 255 ((x + 16384).tdiv PRECISION)) = nearestByte x := by
    rw [clamp_tdiv 255 (x + 16384) (by decide), nearestByte, hround, PRECISION]
  have hrange : 0 ≤ nearestByte x ∧ nearestByte x ≤ 255 :=
    ⟨le_max_left _ _, max_le (by decide) (min_le_left _ _)⟩
  have hbyte : (nearestByte x).toNat < UInt8.size := by
    rw [UInt8.size]
    omega
  rw [clampByte, clamp_eq, hclamp, Nat.toUInt8_eq, UInt8.toNat_ofNat_of_lt' hbyte]
  omega

theorem yuv2rgb_converted (p : Yuv) : p.Converted (yuv2rgb colorLut p.y p.u p.v) := by
  have hhalf : PRECISION.tdiv 2 = 16384 := by decide
  have hred : colorLut.coefficientsY p.y + colorLut.coeffecientsRV p.v = p.red + 16384 := by
    simp only [colorLut, hhalf, COEFFICIENT_Y_eq, COEFFICIENT_RV_eq, Yuv.red]
    omega
  have hgreen : colorLut.coefficientsY p.y + colorLut.coeffecientsGU p.u +
      colorLut.coeffecientsGV p.v = p.green + 16384 := by
    simp only [colorLut, hhalf, COEFFICIENT_Y_eq, COEFFICIENT_GU_eq, COEFFICIENT_GV_eq,
      Yuv.green]
    omega
  have hblue : colorLut.coefficientsY p.y + colorLut.coeffecientsBU p.u = p.blue + 16384 := by
    simp only [colorLut, hhalf, COEFFICIENT_Y_eq, COEFFICIENT_BU_eq, Yuv.blue]
    omega
  rw [Yuv.Converted, ← clampByte_nearest, ← clampByte_nearest, ← clampByte_nearest, ← hred, ← hgreen,
    ← hblue]
  exact ⟨rfl, rfl, rfl⟩

/-! ### The loop -/

/-- One pass of the loop: two pixels. -/
def yuyvPass (lut : ColorLut) (src : Memory) (i j : ℕ) (dest : Memory) : Memory :=
  storePixel
    (storePixel dest j (yuv2rgb lut (src i).toNat (src (i + 1)).toNat (src (i + 3)).toNat)) (j + 3)
    (yuv2rgb lut (src (i + 2)).toNat (src (i + 1)).toNat (src (i + 3)).toNat)

section Loop

variable {lut : ColorLut} {src dest : Memory} {size i j : ℕ}

theorem yuyvLoop_pass (h : i < size) :
    yuyvLoop lut size src i j dest =
      yuyvLoop lut size src (i + 4) (j + 6) (yuyvPass lut src i j dest) := by
  rw [yuyvLoop, if_pos h]
  rfl

theorem yuyvLoop_done (h : size ≤ i) : yuyvLoop lut size src i j dest = dest := by
  rw [yuyvLoop, if_neg (by omega)]

/-- The colors of pixel `k`. -/
def rgbPixel (lut : ColorLut) (src : Memory) (k : ℕ) : UInt8 × UInt8 × UInt8 :=
  let p := yuyvPixel src k
  yuv2rgb lut p.y p.u p.v

/-- Byte `l` of the converted picture. -/
def rgbByte (lut : ColorLut) (src : Memory) (l : ℕ) : UInt8 :=
  if l % 3 = 0 then (rgbPixel lut src (l / 3)).1
  else if l % 3 = 1 then (rgbPixel lut src (l / 3)).2.1
  else (rgbPixel lut src (l / 3)).2.2

theorem rgbByte_pixel (k : ℕ) :
    (rgbByte lut src (3 * k), rgbByte lut src (3 * k + 1), rgbByte lut src (3 * k + 2)) =
      rgbPixel lut src k := by
  have h0 : 3 * k % 3 = 0 ∧ 3 * k / 3 = k := by omega
  have h1 : (3 * k + 1) % 3 = 1 ∧ (3 * k + 1) / 3 = k := by omega
  have h2 : (3 * k + 2) % 3 = 2 ∧ (3 * k + 2) / 3 = k := by omega
  simp [rgbByte, h0, h1, h2]

theorem storePixel_rgb (k l : ℕ) :
    storePixel dest (3 * k) (rgbPixel lut src k) l =
      if 3 * k ≤ l ∧ l < 3 * k + 3 then rgbByte lut src l else dest l := by
  rw [← rgbByte_pixel]
  by_cases hin : 3 * k ≤ l ∧ l < 3 * k + 3
  · obtain rfl | rfl | rfl : l = 3 * k ∨ l = 3 * k + 1 ∨ l = 3 * k + 2 := by omega
    · simp [storePixel]
    · simp [storePixel]
    · simp [storePixel]
  · have hne : l ≠ 3 * k ∧ l ≠ 3 * k + 1 ∧ l ≠ 3 * k + 2 := by omega
    simp [storePixel, hin, hne]

/- A pass stores the pixels `2 * m` and `2 * m + 1`. -/
theorem yuyvPass_apply (m l : ℕ) :
    yuyvPass lut src (4 * m) (6 * m) dest l =
      if 6 * m ≤ l ∧ l < 6 * m + 6 then rgbByte lut src l else dest l := by
  have heven : rgbPixel lut src (2 * m) = yuv2rgb lut (src (4 * m)).toNat
      (src (4 * m + 1)).toNat (src (4 * m + 3)).toNat := by
    have hy : 2 * (2 * m) = 4 * m := by omega
    have huv : 2 * m / 2 = m := by omega
    simp only [rgbPixel, yuyvPixel, hy, huv]
  have hodd : rgbPixel lut src (2 * m + 1) = yuv2rgb lut (src (4 * m + 2)).toNat
      (src (4 * m + 1)).toNat (src (4 * m + 3)).toNat := by
    have hy : 2 * (2 * m + 1) = 4 * m + 2 := by omega
    have huv : (2 * m + 1) / 2 = m := by omega
    simp only [rgbPixel, yuyvPixel, hy, huv]
  have hj : 6 * m = 3 * (2 * m) := by omega
  have hj' : 3 * (2 * m) + 3 = 3 * (2 * m + 1) := by omega
  rw [yuyvPass, ← heven, ← hodd, hj, hj', storePixel_rgb, storePixel_rgb]
  split_ifs <;> first | rfl | omega

theorem yuyvLoop_apply (lut : ColorLut) (src dest : Memory) (d m l : ℕ) :
    yuyvLoop lut (4 * (m + d)) src (4 * m) (6 * m) dest l =
      if 6 * m ≤ l ∧ l < 6 * (m + d) then rgbByte lut src l else dest l := by
  induction d generalizing m dest with
  | zero =>
    rw [yuyvLoop_done (by omega), if_neg (by omega)]
  | succ d ih =>
    have hrest := ih (yuyvPass lut src (4 * m) (6 * m) dest) (m + 1)
    have hsize : 4 * (m + 1 + d) = 4 * (m + (d + 1)) := by omega
    rw [hsize] at hrest
    rw [yuyvLoop_pass (by omega)]
    refine hrest.trans ?_
    rw [yuyvPass_apply]
    split_ifs <;> first | rfl | omega

/- The whole loop stores the picture and leaves what lies behind it. -/
theorem yuyvLoop_picture (lut : ColorLut) (src dest : Memory) (q l : ℕ) :
    yuyvLoop lut (4 * q) src 0 0 dest l = if l < 6 * q then rgbByte lut src l else dest l := by
  have hloop := yuyvLoop_apply lut src dest q 0 l
  simpa using hloop

theorem yuyvLoop_pixel (lut : ColorLut) (src dest : Memory) {q k : ℕ} (hk : k < 2 * q) :
    (yuyvLoop lut (4 * q) src 0 0 dest (3 * k), yuyvLoop lut (4 * q) src 0 0 dest (3 * k + 1),
      yuyvLoop lut (4 * q) src 0 0 dest (3 * k + 2)) = rgbPixel lut src k := by
  rw [yuyvLoop_picture, yuyvLoop_picture, yuyvLoop_picture, if_pos (by omega), if_pos (by omega),
    if_pos (by omega), rgbByte_pixel]

end Loop

/-! ### The loop on the target -/

def storePixelInt (dest : Memory) (j : UInt32) (p : UInt8 × UInt8 × UInt8) : Memory :=
  Function.update (Function.update (Function.update dest j.toNat p.1) (j + 1).toNat p.2.1)
    (j + 2).toNat p.2.2

/-- The loop with its counters as `uint32_t` and its sums as `int`, as far as
`passes` lead: no memory when that is too few or a sum leaves the range. -/
def yuyvLoopInt (size : ℕ) (src : Memory) : ℕ → UInt32 → UInt32 → Memory → Option Memory
  | 0, _, _, _ => none
  | passes + 1, i, j, dest =>
    if i.toNat < size then do
      let y_temp := (src i.toNat).toNat
      let u_temp := (src (i + 1).toNat).toNat
      let y2_temp := (src (i + 2).toNat).toNat
      let v_temp := (src (i + 3).toNat).toNat
      let p ← yuv2rgbInt y_temp u_temp v_temp
      let q ← yuv2rgbInt y2_temp u_temp v_temp
      yuyvLoopInt size src passes (i + 4) (j + 6) (storePixelInt (storePixelInt dest j p) (j + 3) q)
    else some dest

theorem toNat_add_ofNat {x : UInt32} {n : ℕ} (h : x.toNat + n < 4294967296) :
    (x + UInt32.ofNat n).toNat = x.toNat + n := by
  rw [UInt32.toNat_add, UInt32.toNat_ofNat', Nat.add_mod_mod]
  exact Nat.mod_eq_of_lt h

section Target

variable {src dest : Memory} {i j : UInt32}

theorem storePixelInt_eq (h : j.toNat + 2 < 4294967296) (p : UInt8 × UInt8 × UInt8) :
    storePixelInt dest j p = storePixel dest j.toNat p := by
  have h1 : (j + 1).toNat = j.toNat + 1 := toNat_add_ofNat (n := 1) (by omega)
  have h2 : (j + 2).toNat = j.toNat + 2 := toNat_add_ofNat h
  rw [storePixelInt, storePixel, h1, h2]

theorem yuyvLoopInt_pass {size passes m : ℕ} (h : 4 * m < size) (hi : i.toNat = 4 * m)
    (hj : j.toNat = 6 * m) (hi3 : 4 * m + 3 < 4294967296) (hj5 : 6 * m + 5 < 4294967296) :
    yuyvLoopInt size src (passes + 1) i j dest =
      yuyvLoopInt size src passes (i + 4) (j + 6) (yuyvPass colorLut src (4 * m) (6 * m) dest) := by
  have hi1 : (i + 1).toNat = 4 * m + 1 := hi ▸ toNat_add_ofNat (n := 1) (by omega)
  have hi2 : (i + 2).toNat = 4 * m + 2 := hi ▸ toNat_add_ofNat (n := 2) (by omega)
  have hi3 : (i + 3).toNat = 4 * m + 3 := hi ▸ toNat_add_ofNat (n := 3) (by omega)
  have hj3 : (j + 3).toNat = 6 * m + 3 := hj ▸ toNat_add_ofNat (n := 3) (by omega)
  have hpixel (a b c : UInt8) :
      yuv2rgbInt a.toNat b.toNat c.toNat = some (yuv2rgb colorLut a.toNat b.toNat c.toNat) :=
    yuv2rgbInt_eq a.toNat_lt b.toNat_lt c.toNat_lt
  rw [yuyvLoopInt, if_pos (by omega)]
  simp only [hi, hi1, hi2, hi3, hpixel, Option.bind_eq_bind, Option.bind_some, yuyvPass]
  rw [storePixelInt_eq (by omega), storePixelInt_eq (by omega), hj, hj3]

/- Neither counter comes round while the destination has an index for each of its bytes. -/
theorem yuyvLoopInt_eq (src dest : Memory) (d : ℕ) {m : ℕ} (hsize : 6 * (m + d) < 4294967296)
    (hi : i.toNat = 4 * m) (hj : j.toNat = 6 * m) :
    yuyvLoopInt (4 * (m + d)) src (d + 1) i j dest =
      some (yuyvLoop colorLut (4 * (m + d)) src (4 * m) (6 * m) dest) := by
  induction d generalizing m i j dest with
  | zero =>
    rw [yuyvLoopInt, if_neg (by omega), yuyvLoop_done (by omega)]
  | succ d ih =>
    have hi4 : (i + 4).toNat = 4 * (m + 1) := by
      have h : (i + 4).toNat = i.toNat + 4 := toNat_add_ofNat (n := 4) (by omega)
      omega
    have hj6 : (j + 6).toNat = 6 * (m + 1) := by
      have h : (j + 6).toNat = j.toNat + 6 := toNat_add_ofNat (n := 6) (by omega)
      omega
    have hrest := ih (yuyvPass colorLut src (4 * m) (6 * m) dest) (m := m + 1) (by omega) hi4 hj6
    have hq : 4 * (m + 1 + d) = 4 * (m + (d + 1)) := by omega
    rw [hq] at hrest
    rw [yuyvLoopInt_pass (by omega) hi hj (by omega) (by omega), yuyvLoop_pass (by omega)]
    exact hrest

end Target

/-! ### The frame -/

/-- For a frame of any size, and on the target as long as the index of the last
byte of the destination is a `uint32_t`. -/
theorem rgb888_convert_reference {size : ℕ} (h4 : 4 ∣ size) (src dest : Memory) :
    ∃ out, rgb888Convert colorLut size V4L2_PIX_FMT_YUYV src dest = (.success, out) ∧
      (∀ k < size / 2,
        (yuyvPixel src k).Converted (out (3 * k), out (3 * k + 1), out (3 * k + 2)) ∧
        yuv2rgbInt (yuyvPixel src k).y (yuyvPixel src k).u (yuyvPixel src k).v =
          some (out (3 * k), out (3 * k + 1), out (3 * k + 2))) ∧
      (3 * size < 8589934592 → yuyvLoopInt size src (size / 4 + 1) 0 0 dest = some out) := by
  obtain ⟨q, rfl⟩ := h4
  refine ⟨yuyvLoop colorLut (4 * q) src 0 0 dest, if_pos rfl, fun k hk => ?_, fun hsize => ?_⟩
  · have hpixel := yuyvLoop_pixel colorLut src dest (show k < 2 * q by omega)
    rw [hpixel]
    exact ⟨yuv2rgb_converted _,
      yuv2rgbInt_eq (UInt8.toNat_lt _) (UInt8.toNat_lt _) (UInt8.toNat_lt _)⟩
  · have hpasses : 4 * q / 4 = q := by omega
    have hloop := yuyvLoopInt_eq src dest q (m := 0) (i := 0) (j := 0)
      (by omega) rfl rfl
    rw [Nat.zero_add] at hloop
    rw [hpasses]
    exact hloop

/-- A white pixel and a black one. -/
theorem rgb888_convert_reference_whiteBlack :
    ∃ out, rgb888Convert colorLut 4 V4L2_PIX_FMT_YUYV
        (fun i => if i = 0 then 235 else if i = 2 then 16 else 128) (fun _ => 7) = (.success, out) ∧
      (out 0, out 1, out 2) = (255, 255, 255) ∧ (out 3, out 4, out 5) = (0, 0, 0) := by
  obtain ⟨out, hout, hpixels, -⟩ := rgb888_convert_reference (show 4 ∣ 4 by decide)
    (fun i => if i = 0 then 235 else if i = 2 then 16 else 128) (fun _ => 7)
  have hwhite : yuv2rgbInt 235 128 128 = some (255, 255, 255) := by decide +kernel
  have hblack : yuv2rgbInt 16 128 128 = some (0, 0, 0) := by decide +kernel
  refine ⟨out, hout, ?_, ?_⟩
  · exact Option.some.inj ((hpixels 0 (by decide)).2.symm.trans hwhite)
  · exact Option.some.inj ((hpixels 1 (by decide)).2.symm.trans hblack)

end MotionDetector
