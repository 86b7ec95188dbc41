import Mathlib.Data.Rat.Floor
import Mathlib.Tactic.FieldSimp

/-!
# Fixed-point arithmetic on signed integers

Integers of `w` bits whose operations have no result outside the range, and
rounding by half a unit before a division that truncates.
-/

namespace FixedPoint

/-! ### Checked integers -/

/-- The range of a signed integer of `w` bits. -/
def Fits (w : ℕ) (x : ℤ) : Prop := -2 ^ (w - 1) ≤ x ∧ x < 2 ^ (w - 1)

instance (w : ℕ) (x : ℤ) : Decidable (Fits w x) := inferInstanceAs (Decidable (_ ∧ _))

/-- A signed integer of `w` bits, or nothing once an operation has left the range. -/
def Checked (w : ℕ) : Type := Option {x : ℤ // Fits w x}

namespace Checked

variable {w : ℕ} {x y : ℤ}

def ofInt (w : ℕ) (x : ℤ) : Checked w := if h : Fits w x then some ⟨x, h⟩ else none

def value (a : Checked w) : Option ℤ := Option.map Subtype.val a

def lift (f : ℤ → ℤ → ℤ) (a b : Checked w) : Checked w :=
  Option.bind a fun x => Option.bind b fun y => ofInt w (f x y)

instance : Add (Checked w) := ⟨lift fun a b => a + b⟩

instance : Sub (Checked w) := ⟨lift fun a b => a - b⟩

instance : Mul (Checked w) := ⟨lift fun a b => a * b⟩

instance : Neg (Checked w) := ⟨fun a => Option.bind a fun x => ofInt w (-x)⟩

/- There is no division by zero, and the quotient is truncated. -/
instance : Div (Checked w) where
  div a b := if b.value = some 0 then none else lift Int.tdiv a b

theorem ofInt_of_fits (hx : Fits w x) : ofInt w x = some ⟨x, hx⟩ := dif_pos hx

theorem value_ofInt (hx : Fits w x) : (ofInt w x).value = some x := by
  rw [ofInt_of_fits hx]
  rfl

theorem lift_ofInt (f : ℤ → ℤ → ℤ) (hx : Fits w x) (hy : Fits w y) :
    lift f (ofInt w x) (ofInt w y) = ofInt w (f x y) := by
  rw [ofInt_of_fits hx, ofInt_of_fits hy]
  rfl

theorem ofInt_add (hx : Fits w x) (hy : Fits w y) : ofInt w x + ofInt w y = ofInt w (x + y) :=
  lift_ofInt _ hx hy

theorem ofInt_sub (hx : Fits w x) (hy : Fits w y) : ofInt w x - ofInt w y = ofInt w (x - y) :=
  lift_ofInt _ hx hy

theorem ofInt_mul (hx : Fits w x) (hy : Fits w y) : ofInt w x * ofInt w y = ofInt w (x * y) :=
  lift_ofInt _ hx hy

theorem ofInt_neg (hx : Fits w x) : -ofInt w x = ofInt w (-x) := by
  rw [ofInt_of_fits hx]
  rfl

theorem ofInt_tdiv (hx : Fits w x) (hy : Fits w y) (hne : y ≠ 0) :
    ofInt w x / ofInt w y = ofInt w (x.tdiv y) := by
  have hvalue : (ofInt w y).value ≠ some 0 := by
    rw [value_ofInt hy]
    exact fun h => hne (Option.some.inj h)
  exact (if_neg hvalue).trans (lift_ofInt _ hx hy)

end Checked

theorem Fits.tdiv {w : ℕ} {x d : ℤ} (hx : Fits w x) (hd : 0 < d) : Fits w (x.tdiv d) := by
  have hpow : (0 : ℤ) < 2 ^ (w - 1) := by positivity
  obtain ⟨hlow, hhigh⟩ := hx
  rcases le_or_gt 0 x with h | h
  · have hle := Int.ediv_le_self d h
    have hnonneg := Int.ediv_nonneg h hd.le
    rw [Int.tdiv_eq_ediv_of_nonneg h]
    exact ⟨by omega, by omega⟩
  · have hle := Int.ediv_le_self d (show 0 ≤ -x by omega)
    have hnonneg := Int.ediv_nonneg (show 0 ≤ -x by omega) hd.le
    rw [← Int.tdiv_eq_ediv_of_nonneg (by omega), Int.neg_tdiv] at hle hnonneg
    exact ⟨by omega, by omega⟩

/-! ### Rounding -/

/- Half a unit added before a division that rounds down. -/
theorem floor_add_half (x : ℤ) {h : ℕ} (hpos : 0 < h) :
    ⌊(x : ℚ) / (2 * h : ℕ) + 1 / 2⌋ = (x + h) / (2 * h : ℕ) := by
  have hh : (h : ℚ) ≠ 0 := by exact_mod_cast hpos.ne'
  have hsum : (x : ℚ) / (2 * h : ℕ) + 1 / 2 = ((x + h : ℤ) : ℚ) / (2 * h : ℕ) := by
    push_cast
    field_simp
  rw [hsum, Rat.floor_intCast_div_natCast]

/- Truncation differs from rounding down below zero only, where both are cut off. -/
theorem clamp_tdiv (top x : ℤ) {d : ℤ} (hd : 0 < d) :
    max 0 (min top (x.tdiv d)) = max 0 (min top (x / d)) := by
  rcases le_or_gt 0 x with hx | hx
  · rw [Int.tdiv_eq_ediv_of_nonneg hx]
  · have hneg : 0 ≤ (-x).tdiv d := Int.tdiv_nonneg (by omega) hd.le
    have hdown : x / d ≤ 0 := Int.ediv_nonpos_of_nonpos_of_neg hx.le hd
    rw [Int.neg_tdiv] at hneg
    rw [max_eq_left (min_le_of_right_le hdown), max_eq_left (min_le_of_right_le (by omega))]

end FixedPoint
