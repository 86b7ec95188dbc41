import Mathlib.Data.List.Infix
import Mathlib.Order.Bounds.Basic

/-!
# Spans between two markers

Occurrences of a pattern in a list, and the leftmost scan of a list into spans
from an opening marker to the next closing one. The scan of a list extended on
the right continues the scan of the list, which is what an incremental reader
relies on.
-/

namespace Delimited

variable {α : Type*}

def OccursAt (pat xs : List α) (i : ℕ) : Prop := pat <+: xs.drop i

instance [DecidableEq α] (pat xs : List α) (i : ℕ) : Decidable (OccursAt pat xs i) :=
  inferInstanceAs (Decidable (_ <+: _))

theorem OccursAt.fits {pat xs : List α} {i : ℕ} (h : OccursAt pat xs i) (hp : pat ≠ []) :
    i + pat.length ≤ xs.length := by
  have hl := h.length_le
  have hpos := List.length_pos_iff.mpr hp
  rw [List.length_drop] at hl
  omega

theorem occursAt_iff_take {pat xs : List α} {i : ℕ} :
    OccursAt pat xs i ↔ (xs.drop i).take pat.length = pat := by
  unfold OccursAt
  rw [List.prefix_iff_eq_take]
  exact eq_comm

theorem occursAt_drop {pat xs : List α} (n i : ℕ) :
    OccursAt pat (xs.drop n) i ↔ OccursAt pat xs (n + i) := by
  unfold OccursAt
  rw [List.drop_drop]

/- An occurrence that ends inside the left part is one of the left part. -/
theorem occursAt_append_left {pat xs : List α} (ys : List α) {i : ℕ}
    (h : i + pat.length ≤ xs.length) : OccursAt pat (xs ++ ys) i ↔ OccursAt pat xs i := by
  simp only [occursAt_iff_take]
  rw [List.drop_append_of_le_length (by omega), List.take_append_of_le_length]
  rw [List.length_drop]
  omega

theorem occursAt_append_right {pat : List α} (xs ys : List α) (i : ℕ) :
    OccursAt pat (xs ++ ys) (xs.length + i) ↔ OccursAt pat ys i := by
  unfold OccursAt
  rw [List.drop_append, List.drop_eq_nil_of_le (Nat.le_add_right _ _), Nat.add_sub_cancel_left,
    List.nil_append]

theorem occursAt_take {pat xs : List α} {n i : ℕ} (h : i + pat.length ≤ n) :
    OccursAt pat (xs.take n) i ↔ OccursAt pat xs i := by
  simp only [occursAt_iff_take]
  rw [List.drop_take, List.take_take, Nat.min_eq_left (by omega)]

/- What is appended cannot move the first occurrence. -/
theorem isLeast_append {pat xs : List α} (hp : pat ≠ []) {b i : ℕ}
    (h : IsLeast {j | b ≤ j ∧ OccursAt pat xs j} i) (ys : List α) :
    IsLeast {j | b ≤ j ∧ OccursAt pat (xs ++ ys) j} i := by
  have hfit := h.1.2.fits hp
  refine ⟨⟨h.1.1, (occursAt_append_left ys hfit).mpr h.1.2⟩, fun j hj => ?_⟩
  by_contra hlt
  exact hlt (h.2 ⟨hj.1, (occursAt_append_left ys (by omega)).mp hj.2⟩)

/-! ### First occurrence -/

section Find

variable [DecidableEq α]

def find (pat : List α) : List α → Option ℕ
  | [] => if pat = [] then some 0 else none
  | x :: xs => if pat <+: x :: xs then some 0 else (find pat xs).map (· + 1)

def findFrom (pat xs : List α) (start : ℕ) : Option ℕ :=
  (find pat (xs.drop start)).map (start + ·)

theorem find_eq_some {pat xs : List α} {i : ℕ} (h : find pat xs = some i) :
    OccursAt pat xs i ∧ ∀ j < i, ¬ OccursAt pat xs j := by
  induction xs generalizing i with
  | nil =>
    unfold find at h
    split at h
    · next hp =>
      obtain rfl : 0 = i := by simpa using h
      exact ⟨by simp [OccursAt, hp], by simp⟩
    · simp at h
  | cons x xs ih =>
    unfold find at h
    split at h
    · next hp =>
      obtain rfl : 0 = i := by simpa using h
      exact ⟨hp, by simp⟩
    · next hp =>
      obtain ⟨k, hk, rfl⟩ := Option.map_eq_some_iff.mp h
      obtain ⟨hocc, hfirst⟩ := ih hk
      refine ⟨hocc, fun j hj => ?_⟩
      cases j with
      | zero => exact hp
      | succ j => exact hfirst j (by omega)

theorem find_eq_none {pat xs : List α} (hp : pat ≠ []) (h : find pat xs = none) (i : ℕ) :
    ¬ OccursAt pat xs i := by
  induction xs generalizing i with
  | nil =>
    intro hocc
    exact hp (by simpa [OccursAt] using hocc)
  | cons x xs ih =>
    unfold find at h
    split at h
    · simp at h
    · next hx =>
      cases i with
      | zero => exact hx
      | succ i => exact ih (by simpa using h) i

theorem findFrom_eq_some {pat xs : List α} {start i : ℕ} (h : findFrom pat xs start = some i) :
    IsLeast {j | start ≤ j ∧ OccursAt pat xs j} i := by
  obtain ⟨k, hk, rfl⟩ := Option.map_eq_some_iff.mp h
  obtain ⟨hocc, hfirst⟩ := find_eq_some hk
  refine ⟨⟨by omega, (occursAt_drop start k).mp hocc⟩, fun j hj => ?_⟩
  by_contra hlt
  refine hfirst (j - start) (by have := hj.1; omega) ((occursAt_drop start _).mpr ?_)
  rw [Nat.add_sub_cancel' hj.1]
  exact hj.2

theorem findFrom_eq_none {pat xs : List α} (hp : pat ≠ []) {start : ℕ}
    (h : findFrom pat xs start = none) (i : ℕ) (hi : start ≤ i) : ¬ OccursAt pat xs i := by
  have hnone : find pat (xs.drop start) = none := by simpa [findFrom] using h
  intro hocc
  refine find_eq_none hp hnone (i - start) ((occursAt_drop start _).mpr ?_)
  rwa [Nat.add_sub_cancel' hi]

end Find

/-! ### Leftmost spans -/

/-- The first opening marker of `xs` is at `s`, the first closing marker at or
after it at `e`. -/
structure Span (op cl xs : List α) (s e : ℕ) : Prop where
  opens : IsLeast {j | 0 ≤ j ∧ OccursAt op xs j} s
  closes : IsLeast {j | s ≤ j ∧ OccursAt cl xs j} e

/-- `frames` are the spans of the leftmost scan of a list and `rest` is what
follows the last one. -/
inductive LeftmostScan (op cl : List α) : List α → List (List α) → List α → Prop
  | stop {xs : List α} (none : ∀ s e, ¬ Span op cl xs s e) : LeftmostScan op cl xs [] xs
  | span {xs rest : List α} {frames : List (List α)} {s e : ℕ} (first : Span op cl xs s e)
      (next : LeftmostScan op cl (xs.drop (e + cl.length)) frames rest) :
      LeftmostScan op cl xs ((xs.take (e + cl.length)).drop s :: frames) rest

variable {op cl : List α}

theorem Span.le {xs : List α} {s e : ℕ} (h : Span op cl xs s e) : s ≤ e := h.closes.1.1

theorem Span.fits {xs : List α} {s e : ℕ} (h : Span op cl xs s e) (hc : cl ≠ []) :
    e + cl.length ≤ xs.length :=
  h.closes.1.2.fits hc

theorem Span.unique {xs : List α} {s e s' e' : ℕ} (h : Span op cl xs s e)
    (h' : Span op cl xs s' e') : s = s' ∧ e = e' := by
  obtain rfl := h.opens.unique h'.opens
  exact ⟨rfl, h.closes.unique h'.closes⟩

theorem Span.append {xs : List α} {s e : ℕ} (h : Span op cl xs s e) (ho : op ≠ []) (hc : cl ≠ [])
    (ys : List α) : Span op cl (xs ++ ys) s e :=
  ⟨isLeast_append ho h.opens ys, isLeast_append hc h.closes ys⟩

theorem LeftmostScan.unique {xs rest rest' : List α} {frames frames' : List (List α)}
    (h : LeftmostScan op cl xs frames rest) (h' : LeftmostScan op cl xs frames' rest') :
    frames = frames' ∧ rest = rest' := by
  induction h generalizing frames' rest' with
  | stop none =>
    cases h' with
    | stop _ => exact ⟨rfl, rfl⟩
    | span first' _ => exact absurd first' (none _ _)
  | span first _ ih =>
    cases h' with
    | stop none' => exact absurd first (none' _ _)
    | span first' next' =>
      obtain ⟨rfl, rfl⟩ := first.unique first'
      obtain ⟨rfl, rfl⟩ := ih next'
      exact ⟨rfl, rfl⟩

/-- The scan of an extended list goes on from what the scan left over. -/
theorem LeftmostScan.append (ho : op ≠ []) (hc : cl ≠ []) {xs ys rest rest' : List α}
    {frames frames' : List (List α)} (h : LeftmostScan op cl xs frames rest)
    (h' : LeftmostScan op cl (rest ++ ys) frames' rest') :
    LeftmostScan op cl (xs ++ ys) (frames ++ frames') rest' := by
  induction h with
  | stop _ => exact h'
  | @span xs rest frames s e first _ ih =>
    have hfit := first.fits hc
    have hdrop : (xs ++ ys).drop (e + cl.length) = xs.drop (e + cl.length) ++ ys :=
      List.drop_append_of_le_length hfit
    have htake : (xs ++ ys).take (e + cl.length) = xs.take (e + cl.length) :=
      List.take_append_of_le_length hfit
    have hnext := ih h'
    rw [← hdrop] at hnext
    have hspan := LeftmostScan.span (first.append ho hc ys) hnext
    rwa [htake] at hspan

theorem LeftmostScan.settled {xs rest : List α} {frames : List (List α)}
    (h : LeftmostScan op cl xs frames rest) (s e : ℕ) : ¬ Span op cl rest s e := by
  induction h with
  | stop none => exact none s e
  | span _ _ ih => exact ih

theorem Span.frame_length {xs : List α} {s e : ℕ} (h : Span op cl xs s e) (hc : cl ≠ []) :
    ((xs.take (e + cl.length)).drop s).length = e - s + cl.length := by
  have hfit := h.fits hc
  have hle := h.le
  rw [List.length_drop, List.length_take, Nat.min_eq_left hfit]
  omega

theorem Span.closing_only_at_end {xs : List α} {s e : ℕ} (h : Span op cl xs s e) (hc : cl ≠ [])
    (j : ℕ) :
    OccursAt cl ((xs.take (e + cl.length)).drop s) j ↔
      j + cl.length = ((xs.take (e + cl.length)).drop s).length := by
  have hle := h.le
  rw [occursAt_drop, h.frame_length hc]
  constructor
  · intro hocc
    have hfit := hocc.fits hc
    rw [List.length_take] at hfit
    have hmin := h.closes.2 ⟨Nat.le_add_right s j, (occursAt_take (by omega)).mp hocc⟩
    omega
  · intro hj
    obtain rfl : j = e - s := by omega
    rw [Nat.add_sub_cancel' hle]
    exact (occursAt_take le_rfl).mpr h.closes.1.2

theorem LeftmostScan.closing_only_at_end (hc : cl ≠ []) {xs rest : List α}
    {frames : List (List α)} (h : LeftmostScan op cl xs frames rest) :
    ∀ f ∈ frames, ∀ j, OccursAt cl f j ↔ j + cl.length = f.length := by
  induction h with
  | stop _ => simp
  | span first _ ih =>
    intro f hf
    rcases List.mem_cons.mp hf with rfl | hf
    · exact first.closing_only_at_end hc
    · exact ih f hf

theorem LeftmostScan.gaps (ho : op ≠ []) {xs rest : List α}
    {frames : List (List α)} (h : LeftmostScan op cl xs frames rest) :
    ∃ gaps : List (List α), gaps.length = frames.length ∧
      (List.zipWith (· ++ ·) gaps frames).flatten ++ rest = xs ∧
      ∀ g ∈ gaps, ∀ j, ¬ OccursAt op g j := by
  induction h with
  | stop _ => exact ⟨[], rfl, rfl, by simp⟩
  | @span xs rest frames s e first _ ih =>
    obtain ⟨gaps, hlen, hflat, hno⟩ := ih
    have hle := first.le
    refine ⟨xs.take s :: gaps, by simp [hlen], ?_, ?_⟩
    · have hgap : xs.take s ++ (xs.take (e + cl.length)).drop s = xs.take (e + cl.length) := by
        rw [← Nat.min_eq_left (show s ≤ e + cl.length by omega), ← List.take_take,
          Nat.min_eq_left (show s ≤ e + cl.length by omega)]
        exact List.take_append_drop s _
      simp only [List.zipWith_cons_cons, List.flatten_cons, List.append_assoc, hflat]
      rw [← List.append_assoc, hgap]
      exact List.take_append_drop _ _
    · intro g hg j hocc
      rcases List.mem_cons.mp hg with rfl | hg
      · have hfit := hocc.fits ho
        have hpos := List.length_pos_iff.mpr ho
        rw [List.length_take] at hfit
        have hmin := first.opens.2 ⟨Nat.zero_le j, (occursAt_take (by omega)).mp hocc⟩
        omega
      · exact hno g hg j hocc

end Delimited
