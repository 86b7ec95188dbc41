import Mathlib.Data.List.Basic
import Mathlib.Logic.Function.Basic

/-!
# Stores to a flat memory

What a piece of code writes, as the list of its stores in the order they are
made. Two pieces can leave the same memory behind and differ in the addresses
they touch; the list keeps the addresses.
-/

namespace Stores

variable {β : Type*}

/-- The memory after the stores. -/
def apply (mem : ℕ → β) : List (ℕ × β) → ℕ → β
  | [] => mem
  | (a, x) :: l => apply (Function.update mem a x) l

/-- The stores of a copy of `src` to the addresses from `a` on. -/
def copy (a : ℕ) : List β → List (ℕ × β)
  | [] => []
  | x :: src => (a, x) :: copy (a + 1) src

/-- All stores go to addresses from `lo` on and below `hi`. -/
def Within (lo hi : ℕ) (l : List (ℕ × β)) : Prop := ∀ s ∈ l, lo ≤ s.1 ∧ s.1 < hi

theorem apply_frame {mem : ℕ → β} {l : List (ℕ × β)} {i : ℕ} (h : ∀ s ∈ l, s.1 ≠ i) :
    apply mem l i = mem i := by
  induction l generalizing mem with
  | nil => rfl
  | cons s l ih =>
    rw [apply, ih fun s' hs' => h s' (List.mem_cons_of_mem _ hs'),
      Function.update_of_ne (h s List.mem_cons_self).symm]

theorem Within.frame {mem : ℕ → β} {l : List (ℕ × β)} {lo hi i : ℕ} (h : Within lo hi l)
    (hi' : i < lo ∨ hi ≤ i) : apply mem l i = mem i := by
  apply apply_frame
  intro s hs
  have := h s hs
  omega

theorem apply_copy_lt (mem : ℕ → β) (src : List β) {a i : ℕ} (h : i < a) :
    apply mem (copy a src) i = mem i := by
  induction src generalizing a mem with
  | nil => rfl
  | cons x src ih =>
    rw [copy, apply, ih _ (Nat.lt_succ_of_lt h), Function.update_of_ne (Nat.ne_of_lt h)]

theorem apply_copy_add (mem : ℕ → β) (src : List β) (a d : ℕ) :
    apply mem (copy a src) (a + d) = src[d]?.getD (mem (a + d)) := by
  induction src generalizing a d mem with
  | nil => rfl
  | cons x src ih =>
    rw [copy, apply]
    cases d with
    | zero =>
      show apply (Function.update mem a x) (copy (a + 1) src) a = x
      rw [apply_copy_lt _ _ (Nat.lt_add_one a), Function.update_self]
    | succ d =>
      have hstep := ih (Function.update mem a x) (a + 1) d
      rw [show a + 1 + d = a + (d + 1) by omega] at hstep
      rw [hstep, Function.update_of_ne (by omega), List.getElem?_cons_succ]

/- Only the two ends of a copy decide where it stays. -/
theorem copy_within {src : List β} {a lo hi : ℕ} :
    Within lo hi (copy a src) ↔ src = [] ∨ lo ≤ a ∧ a + src.length ≤ hi := by
  induction src generalizing a with
  | nil => simp [Within, copy]
  | cons x src ih =>
    have hcons : Within lo hi (copy a (x :: src)) ↔
        (lo ≤ a ∧ a < hi) ∧ Within lo hi (copy (a + 1) src) := by
      simp only [Within, copy, List.forall_mem_cons]
    rw [hcons, ih]
    simp only [List.length_cons, reduceCtorEq, false_or]
    constructor
    · rintro ⟨⟨hlo, hhi⟩, rfl | ⟨-, hend⟩⟩
      · exact ⟨hlo, by simp only [List.length_nil]; omega⟩
      · exact ⟨hlo, by omega⟩
    · rintro ⟨hlo, hend⟩
      exact ⟨⟨hlo, by omega⟩, .inr ⟨by omega, by omega⟩⟩

end Stores
