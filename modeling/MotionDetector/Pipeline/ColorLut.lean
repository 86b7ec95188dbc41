import Mathlib.Data.Int.Log
import MotionDetector.Lib.FixedPoint
import MotionDetector.Pipeline.Image

/-!
# The color tables (`middleware/image/color_lut.c`)

The coefficients are computed in `float`, the tables and the conversion of a
pixel in `int`.
-/

namespace MotionDetector

open FixedPoint FixedPoint.Checked

/-! ### Coefficients -/

def roundEven (x : ℚ) : ℤ :=
  if x - ⌊x⌋ < 1 / 2 then ⌊x⌋
  else if 1 / 2 < x - ⌊x⌋ then ⌊x⌋ + 1
  else ⌊x⌋ + ⌊x⌋ % 2

/-- The value of a `float`, with 24 digits; nothing here is near the ends of its range. -/
def toFloat (x : ℚ) : ℚ :=
  let ulp : ℚ := 2 ^ (Int.log 2 |x| - 23)
  roundEven (x / ulp) * ulp

/-- `(int)`, which truncates. -/
def floatToInt (x : ℚ) : ℤ := x.num.tdiv x.den

def PRECISION : ℤ := 32768

def coefficient (c : ℚ) : ℤ :=
  floatToInt (toFloat (toFloat (toFloat c * toFloat PRECISION) + toFloat 0.5))

def COEFFICIENT_Y : ℤ := coefficient 1.164

def COEFFICIENT_RV : ℤ := coefficient 1.596

def COEFFICIENT_GU : ℤ := coefficient 0.391

def COEFFICIENT_GV : ℤ := coefficient 0.813

def COEFFICIENT_BU : ℤ := coefficient 2.018

theorem coefficients_eq :
    (COEFFICIENT_Y, COEFFICIENT_RV, COEFFICIENT_GU, COEFFICIENT_GV, COEFFICIENT_BU) =
      (38142, 52298, 12812, 26640, 66126) := by
  decide +kernel

@[simp] theorem COEFFICIENT_Y_eq : COEFFICIENT_Y = 38142 :=
  congrArg Prod.fst coefficients_eq

@[simp] theorem COEFFICIENT_RV_eq : COEFFICIENT_RV = 52298 :=
  congrArg (fun c => c.2.1) coefficients_eq

@[simp] theorem COEFFICIENT_GU_eq : COEFFICIENT_GU = 12812 :=
  congrArg (fun c => c.2.2.1) coefficients_eq

@[simp] theorem COEFFICIENT_GV_eq : COEFFICIENT_GV = 26640 :=
  congrArg (fun c => c.2.2.2.1) coefficients_eq

@[simp] theorem COEFFICIENT_BU_eq : COEFFICIENT_BU = 66126 :=
  congrArg (fun c => c.2.2.2.2) coefficients_eq

/-! ### Tables -/

/-- The entries of the five tables; an index is a byte. -/
def colorLut : ColorLut where
  precision := PRECISION
  coefficientsY i := COEFFICIENT_Y * (i - 16) + PRECISION.tdiv 2
  coeffecientsRV i := COEFFICIENT_RV * (i - 128)
  coeffecientsGU i := -COEFFICIENT_GU * (i - 128)
  coeffecientsGV i := -COEFFICIENT_GV * (i - 128)
  coeffecientsBU i := COEFFICIENT_BU * (i - 128)

/-! ### The arithmetic of the target -/

/-- An `int` of the target, which has 32 bits. -/
abbrev CInt := Checked 32

abbrev int (x : ℤ) : CInt := ofInt 32 x

def coefficientsYInt (i : ℕ) : CInt :=
  int COEFFICIENT_Y * (int i - int 16) + int PRECISION / int 2

def coeffecientsRVInt (i : ℕ) : CInt := int COEFFICIENT_RV * (int i - int 128)

def coeffecientsGUInt (i : ℕ) : CInt := -int COEFFICIENT_GU * (int i - int 128)

def coeffecientsGVInt (i : ℕ) : CInt := -int COEFFICIENT_GV * (int i - int 128)

def coeffecientsBUInt (i : ℕ) : CInt := int COEFFICIENT_BU * (int i - int 128)

/-- `CLAMP_UPPER(x, 255)`, `CLAMP_LOWER(x, 0)` and the conversion to a byte. -/
def clampByte (x : ℤ) : UInt8 := (clampLower (clampUpper x 255) 0).toNat.toUInt8

/-- `yuv2rgb` with every `int` of it in range, tables included. -/
def yuv2rgbInt (y u v : ℕ) : Option (UInt8 × UInt8 × UInt8) := do
  let RR := coefficientsYInt y + coeffecientsRVInt v
  let GG := coefficientsYInt y + coeffecientsGUInt u + coeffecientsGVInt v
  let BB := coefficientsYInt y + coeffecientsBUInt u
  let RR ← (RR / int PRECISION).value
  let GG ← (GG / int PRECISION).value
  let BB ← (BB / int PRECISION).value
  pure (clampByte RR, clampByte GG, clampByte BB)

theorem fits_int {x : ℤ} : Fits 32 x ↔ -2147483648 ≤ x ∧ x < 2147483648 := by
  norm_num [Fits]

section Bytes

variable {y u v : ℕ}

theorem coefficientsYInt_eq (hy : y < 256) :
    coefficientsYInt y = int (colorLut.coefficientsY y) := by
  have hround : Fits 32 PRECISION ∧ Fits 32 2 := by decide
  have hdiff : Fits 32 ((y : ℤ) - 16) := fits_int.mpr (by omega)
  have hprod : Fits 32 (38142 * ((y : ℤ) - 16)) := fits_int.mpr (by omega)
  rw [coefficientsYInt, COEFFICIENT_Y_eq, ofInt_sub (fits_int.mpr (by omega)) (by decide),
    ofInt_mul (by decide) hdiff, ofInt_tdiv hround.1 hround.2 (by decide),
    ofInt_add hprod (by decide)]
  simp [colorLut]

/- An entry of the four other tables. -/
theorem entryInt_eq {i : ℕ} (hi : i < 256) {c : ℤ} (hc : Fits 32 c) :
    int c * (int i - int 128) = int (c * (i - 128)) := by
  rw [ofInt_sub (fits_int.mpr (by omega)) (by decide),
    ofInt_mul hc (fits_int.mpr (by omega))]

theorem coeffecientsRVInt_eq (hv : v < 256) :
    coeffecientsRVInt v = int (colorLut.coeffecientsRV v) :=
  entryInt_eq hv (by rw [COEFFICIENT_RV_eq]; decide)

theorem coeffecientsBUInt_eq (hu : u < 256) :
    coeffecientsBUInt u = int (colorLut.coeffecientsBU u) :=
  entryInt_eq hu (by rw [COEFFICIENT_BU_eq]; decide)

theorem coeffecientsGUInt_eq (hu : u < 256) :
    coeffecientsGUInt u = int (colorLut.coeffecientsGU u) := by
  rw [coeffecientsGUInt, ofInt_neg (by rw [COEFFICIENT_GU_eq]; decide)]
  exact entryInt_eq hu (by rw [COEFFICIENT_GU_eq]; decide)

theorem coeffecientsGVInt_eq (hv : v < 256) :
    coeffecientsGVInt v = int (colorLut.coeffecientsGV v) := by
  rw [coeffecientsGVInt, ofInt_neg (by rw [COEFFICIENT_GV_eq]; decide)]
  exact entryInt_eq hv (by rw [COEFFICIENT_GV_eq]; decide)

/-- Three of these add up in an `int`. -/
def Small (x : ℤ) : Prop := -10000000 ≤ x ∧ x ≤ 10000000

theorem colorLut_small {i : ℕ} (hi : i < 256) :
    Small (colorLut.coefficientsY i) ∧ Small (colorLut.coeffecientsRV i) ∧
      Small (colorLut.coeffecientsGU i) ∧ Small (colorLut.coeffecientsGV i) ∧
      Small (colorLut.coeffecientsBU i) := by
  have hhalf : PRECISION.tdiv 2 = 16384 := by decide
  simp only [Small, colorLut, COEFFICIENT_Y_eq, COEFFICIENT_RV_eq, COEFFICIENT_GU_eq,
    COEFFICIENT_GV_eq, COEFFICIENT_BU_eq, hhalf]
  omega

theorem value_div_precision {x : ℤ} (hx : Fits 32 x) :
    (int x / int PRECISION).value = some (x.tdiv PRECISION) := by
  rw [ofInt_tdiv hx (by decide) (by decide), value_ofInt (hx.tdiv (by decide))]

theorem yuv2rgbInt_eq (hy : y < 256) (hu : u < 256) (hv : v < 256) :
    yuv2rgbInt y u v = some (yuv2rgb colorLut y u v) := by
  obtain ⟨hY, -⟩ := colorLut_small hy
  obtain ⟨-, -, hGU, -, hBU⟩ := colorLut_small hu
  obtain ⟨-, hRV, -, hGV, -⟩ := colorLut_small hv
  unfold Small at hY hGU hBU hRV hGV
  have hadd {a b : ℤ} (ha : -20000000 ≤ a ∧ a ≤ 20000000) (hb : -10000000 ≤ b ∧ b ≤ 10000000) :
      int a + int b = int (a + b) :=
    ofInt_add (fits_int.mpr (by omega)) (fits_int.mpr (by omega))
  simp only [yuv2rgbInt]
  rw [coefficientsYInt_eq hy, coeffecientsRVInt_eq hv, coeffecientsGUInt_eq hu,
    coeffecientsGVInt_eq hv, coeffecientsBUInt_eq hu, hadd (by omega) hRV, hadd (by omega) hGU,
    hadd (by omega) hGV, hadd (by omega) hBU, value_div_precision (fits_int.mpr (by omega)),
    value_div_precision (fits_int.mpr (by omega)), value_div_precision (fits_int.mpr (by omega))]
  rfl

end Bytes

end MotionDetector
