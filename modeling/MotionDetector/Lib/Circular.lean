import Mathlib.Data.List.Range
import Mathlib.Data.Nat.ModEq
import Mathlib.Logic.Function.Basic

/-!
# Circular windows over an indexed store

A window of `len` cells that starts at the counter `R` of a store of `N` cells
is read modulo `N`. Counters are unbounded; a 32-bit index masked with
`2 ^ k - 1` is a counter modulo `2 ^ k`.
-/

namespace Circular

/-! ### Counters modulo the size -/

theorem mod_inj {N R i j : ℕ} (hi : R ≤ i) (hi' : i < R + N) (hj : R ≤ j) (hj' : j < R + N)
    (h : i % N = j % N) : i = j := by
  have hmod : i ≡ j [MOD N] := h
  rcases Nat.le_total i j with hle | hle
  · have hd : N ∣ j - i := (Nat.modEq_iff_dvd' hle).mp hmod
    have hz := Nat.eq_zero_of_dvd_of_lt hd (by omega)
    omega
  · have hd : N ∣ i - j := (Nat.modEq_iff_dvd' hle).mp hmod.symm
    have hz := Nat.eq_zero_of_dvd_of_lt hd (by omega)
    omega

/-- The distance of two counters, from their residues. -/
theorem sub_mod {N R W : ℕ} (hle : R ≤ W) (hlt : W < R + N) :
    (W % N + N - R % N) % N = W - R := by
  have hN : 0 < N := by omega
  have hR := Nat.mod_lt R hN
  have hsum : (W % N + N - R % N) + R ≡ W [MOD N] := by
    have h1 : (W % N + N - R % N) + R % N = W % N + N := by omega
    have h2 : (W % N + N - R % N) + R ≡ (W % N + N - R % N) + R % N [MOD N] :=
      Nat.ModEq.add_left _ (Nat.mod_modEq R N).symm
    rw [h1] at h2
    refine h2.trans ?_
    have h3 : W % N + N ≡ W % N [MOD N] := by simp [Nat.ModEq]
    exact h3.trans (Nat.mod_modEq W N)
  have hdist : W - R + R ≡ (W % N + N - R % N) + R [MOD N] := by
    rw [Nat.sub_add_cancel hle]
    exact hsum.symm
  have hcancel : W - R ≡ W % N + N - R % N [MOD N] := Nat.ModEq.add_right_cancel' R hdist
  rw [← Nat.mod_eq_of_lt (show W - R < N by omega)]
  exact hcancel.symm

/-! ### Masked 32-bit indices -/

section Mask

variable {size : UInt32} {k : ℕ}

theorem mask_toNat (hs : size.toNat = 2 ^ k) (x : UInt32) :
    (x &&& (size - 1)).toNat = x.toNat % 2 ^ k := by
  have hpos : 0 < 2 ^ k := Nat.two_pow_pos k
  have hle : (1 : UInt32) ≤ size := by
    rw [UInt32.le_iff_toNat_le, hs]
    exact hpos
  rw [UInt32.toNat_and, UInt32.toNat_sub_of_le _ _ hle, hs]
  exact Nat.and_two_pow_sub_one_eq_mod _ _

theorem two_pow_dvd (hs : size.toNat = 2 ^ k) : 2 ^ k ∣ 2 ^ 32 := by
  have hlt : 2 ^ k < 2 ^ 32 := hs ▸ size.toNat_lt
  exact Nat.pow_dvd_pow 2 (Nat.pow_lt_pow_iff_right (by omega) |>.mp hlt).le

theorem succ_mask (hs : size.toNat = 2 ^ k) (x : UInt32) :
    ((x + 1) &&& (size - 1)).toNat = (x.toNat + 1) % 2 ^ k := by
  rw [mask_toNat hs, UInt32.toNat_add]
  exact Nat.mod_mod_of_dvd _ (two_pow_dvd hs)

theorem sub_mask (hs : size.toNat = 2 ^ k) {w r : UInt32} (hr : r.toNat < 2 ^ k) :
    ((w - r) &&& (size - 1)).toNat = (w.toNat + 2 ^ k - r.toNat) % 2 ^ k := by
  have hlt : 2 ^ k < 2 ^ 32 := hs ▸ size.toNat_lt
  obtain ⟨c, hc⟩ := two_pow_dvd hs
  have hc0 : c ≠ 0 := by
    rintro rfl
    omega
  rw [mask_toNat hs, UInt32.toNat_sub, Nat.mod_mod_of_dvd _ (two_pow_dvd hs)]
  -- `2 ^ 32` and `2 ^ k` differ by a multiple of `2 ^ k`
  have hsplit : 2 ^ 32 - r.toNat + w.toNat = w.toNat + 2 ^ k - r.toNat + 2 ^ k * (c - 1) := by
    rw [Nat.mul_sub, ← hc]
    omega
  rw [hsplit, Nat.add_mul_mod_self_left]

end Mask

/-! ### Windows -/

variable {α : Type*} {data data' : ℕ → α} {N : ℕ}

def window (data : ℕ → α) (N R len : ℕ) : List α :=
  (List.range len).map fun i => data ((R + i) % N)

@[simp] theorem window_length (R len : ℕ) : (window data N R len).length = len := by
  simp [window]

@[simp] theorem window_zero (R : ℕ) : window data N R 0 = [] := rfl

theorem window_mod (R len : ℕ) : window data N (R % N) len = window data N R len := by
  simp [window]

theorem window_succ_back (R len : ℕ) :
    window data N R (len + 1) = window data N R len ++ [data ((R + len) % N)] := by
  simp [window, List.range_succ]

theorem window_succ_front (R len : ℕ) :
    window data N R (len + 1) = data (R % N) :: window data N (R + 1) len := by
  simp only [window, List.range_succ_eq_map, List.map_cons, List.map_map, Nat.add_zero]
  congr 1
  apply List.map_congr_left
  intro i _
  simp only [Function.comp, Nat.succ_eq_add_one]
  rw [Nat.add_assoc, Nat.add_comm 1 i]

theorem window_congr {R len : ℕ} (h : ∀ i < len, data ((R + i) % N) = data' ((R + i) % N)) :
    window data N R len = window data' N R len := by
  apply List.map_congr_left
  intro i hi
  exact h i (List.mem_range.mp hi)

end Circular
