import Mathlib.Order.Bounds.Defs
import MotionDetector.Lib.Backlog

/-!
# Losses of a bounded buffer

How many items a run of a bounded buffer loses, read off its windows: the
greatest sum, over windows that lie apart, of what the arrivals of each exceed its
services and the capacity by.
-/

namespace Backlog

variable {cap q : ℕ} {l l' w : List Move} {ws ws' : List (List Move)} {m : Move}

/-- The windows occur in this order and do not overlap. -/
def Apart : List (List Move) → List Move → Prop
  | [], _ => True
  | w :: ws, l => ∃ x rest, x ++ (w ++ rest) = l ∧ Apart ws rest

/-- The arrivals of a window that its services and an empty buffer cannot take. -/
def excess (cap : ℕ) (w : List Move) : ℕ := w.count .arrive - (cap + w.count .serve)

def total (cap : ℕ) : List (List Move) → ℕ
  | [] => 0
  | w :: ws => excess cap w + total cap ws

/-- What windows that lie apart have over the capacity. -/
def Excesses (cap : ℕ) (l : List Move) : Set ℕ :=
  {k | ∃ ws, Apart ws l ∧ total cap ws = k}

theorem total_append : total cap (ws ++ ws') = total cap ws + total cap ws' := by
  induction ws with
  | nil => exact (Nat.zero_add _).symm
  | cons w ws ih => rw [List.cons_append, total, total, ih, Nat.add_assoc]

theorem Apart.append_right (h : Apart ws l) (l' : List Move) : Apart ws (l ++ l') := by
  induction ws generalizing l with
  | nil => trivial
  | cons w ws ih =>
    obtain ⟨x, rest, rfl, hrest⟩ := h
    exact ⟨x, rest ++ l', by simp only [List.append_assoc], ih hrest⟩

theorem Apart.append_left (h : Apart ws l') (l : List Move) : Apart ws (l ++ l') := by
  cases ws with
  | nil => trivial
  | cons w ws =>
    obtain ⟨x, rest, rfl, hrest⟩ := h
    exact ⟨l ++ x, rest, List.append_assoc _ _ _, hrest⟩

theorem apart_singleton (l : List Move) : Apart [l] l := ⟨[], [], List.append_nil l, trivial⟩

theorem Apart.append (h : Apart ws l) (h' : Apart ws' l') : Apart (ws ++ ws') (l ++ l') := by
  induction ws generalizing l with
  | nil => exact h'.append_left l
  | cons w ws ih =>
    obtain ⟨x, rest, rfl, hrest⟩ := h
    exact ⟨x, rest ++ l', by simp only [List.append_assoc], ih hrest⟩

theorem level_append : level cap q (l ++ l') = level cap (level cap q l) l' := by
  induction l generalizing q with
  | nil => rfl
  | cons m l ih => exact ih

theorem refused_append :
    refused cap q (l ++ l') = refused cap q l + refused cap (level cap q l) l' := by
  induction l generalizing q with
  | nil => exact (Nat.zero_add _).symm
  | cons m l ih => rw [List.cons_append, refused, refused, level, ih, Nat.add_assoc]

theorem next_le (hq : q ≤ cap) : next cap q m ≤ cap := by
  cases m with
  | arrive =>
    simp only [next]
    split <;> omega
  | serve => exact (Nat.sub_le _ _).trans hq
  | other => exact hq

theorem level_le_cap (hq : q ≤ cap) : level cap q l ≤ cap := by
  induction l generalizing q with
  | nil => exact hq
  | cons m l ih => exact ih (next_le hq)

/- An arrival is kept, served or refused. -/
theorem arrivals_le (cap q : ℕ) (l : List Move) :
    q + l.count .arrive ≤ level cap q l + l.count .serve + refused cap q l := by
  induction l generalizing q with
  | nil => exact Nat.le_refl _
  | cons m l ih =>
    have htail := ih (next cap q m)
    rw [level, refused]
    cases m with
    | arrive =>
      simp only [next, refuses, true_and, List.count_cons_self, List.count_cons_of_ne, ne_eq,
        reduceCtorEq, not_false_eq_true] at htail ⊢
      split at htail <;> split <;> split <;> omega
    | serve =>
      simp only [next, refuses, false_and, if_false, List.count_cons_self,
        List.count_cons_of_ne, ne_eq, reduceCtorEq, not_false_eq_true] at htail ⊢
      omega
    | other =>
      simp only [next, refuses, false_and, if_false, List.count_cons_of_ne, ne_eq,
        reduceCtorEq, not_false_eq_true] at htail ⊢
      omega

theorem excess_le_refused (hq : q ≤ cap) : excess cap l ≤ refused cap q l := by
  have hcount := arrivals_le cap q l
  have hlevel := level_le_cap (l := l) hq
  unfold excess
  omega

/- Windows that lie apart lose apart. -/
theorem total_le_refused (h : Apart ws l) (hq : q ≤ cap) :
    total cap ws ≤ refused cap q l := by
  induction ws generalizing l q with
  | nil => exact Nat.zero_le _
  | cons w ws ih =>
    obtain ⟨x, rest, rfl, hrest⟩ := h
    have hx := level_le_cap (l := x) hq
    have hw := excess_le_refused (l := w) hx
    have htail := ih hrest (level_le_cap (l := w) hx)
    rw [total, refused_append, refused_append]
    omega

/-- A run up to now: windows that lie apart account for every loss, and others for
every loss and the items in the buffer, together with the stretch since the buffer
was last empty. -/
structure Accounted (cap : ℕ) (l : List Move) : Prop where
  losses : ∃ ws, Apart ws l ∧ total cap ws = refused cap 0 l
  busy : ∃ start w ws, start ++ w = l ∧ Apart ws start ∧
    total cap ws + w.count .arrive =
      refused cap 0 l + level cap 0 l + w.count .serve

theorem accounted_nil : Accounted cap [] where
  losses := ⟨[], trivial, rfl⟩
  busy := ⟨[], [], [], rfl, trivial, rfl⟩

theorem refused_snoc : refused cap q (l ++ [m]) =
    refused cap q l + refuses cap (level cap q l) m := by
  rw [refused_append]
  rfl

theorem level_snoc : level cap q (l ++ [m]) = next cap (level cap q l) m := by
  rw [level_append]
  rfl

theorem Accounted.arrive (h : Accounted cap l) : Accounted cap (l ++ [.arrive]) := by
  obtain ⟨fs, hfs, hsum⟩ := h.losses
  obtain ⟨start, w, ws, rfl, hws, hbusy⟩ := h.busy
  have hle : level cap 0 (start ++ w) ≤ cap := level_le_cap (Nat.zero_le cap)
  rcases hle.lt_or_eq with hlt | heq
  · have hnext : next cap (level cap 0 (start ++ w)) .arrive =
        level cap 0 (start ++ w) + 1 := if_pos hlt
    have hrefuses : refuses cap (level cap 0 (start ++ w)) .arrive = 0 := if_neg (by omega)
    refine ⟨⟨fs, hfs.append_right _, ?_⟩,
      ⟨start, w ++ [.arrive], ws, (List.append_assoc _ _ _).symm, hws, ?_⟩⟩
    · rw [refused_snoc, hrefuses, hsum, Nat.add_zero]
    · rw [refused_snoc, level_snoc, hrefuses, hnext, List.count_append, List.count_append]
      simp only [List.count_singleton_self, List.count_singleton, beq_iff_eq, reduceCtorEq,
        if_false]
      omega
  · -- the arrival is refused: the busy stretch becomes a window of its own
    have hnext : next cap (level cap 0 (start ++ w)) .arrive =
        level cap 0 (start ++ w) := if_neg (by omega)
    have hrefuses : refuses cap (level cap 0 (start ++ w)) .arrive = 1 :=
      if_pos ⟨rfl, heq.ge⟩
    have hle : total cap ws ≤ refused cap 0 (start ++ w) :=
      total_le_refused (hws.append_right w) (Nat.zero_le cap)
    refine ⟨⟨ws ++ [w ++ [.arrive]], ?_, ?_⟩,
      ⟨start, w ++ [.arrive], ws, (List.append_assoc _ _ _).symm, hws, ?_⟩⟩
    · rw [List.append_assoc]
      exact hws.append (apart_singleton _)
    · rw [refused_snoc, hrefuses, total_append, total, total, excess, List.count_append,
        List.count_append]
      simp only [List.count_singleton_self, List.count_singleton, beq_iff_eq, reduceCtorEq,
        if_false]
      omega
    · rw [refused_snoc, level_snoc, hrefuses, hnext, List.count_append, List.count_append]
      simp only [List.count_singleton_self, List.count_singleton, beq_iff_eq, reduceCtorEq,
        if_false]
      omega

theorem Accounted.serve (h : Accounted cap l) : Accounted cap (l ++ [.serve]) := by
  obtain ⟨fs, hfs, hsum⟩ := h.losses
  have hrefuses : refuses cap (level cap 0 l) .serve = 0 := if_neg (by simp)
  have hnext : next cap (level cap 0 l) .serve = level cap 0 l - 1 := rfl
  have hlosses : total cap fs = refused cap 0 (l ++ [.serve]) := by
    rw [refused_snoc, hrefuses, hsum, Nat.add_zero]
  refine ⟨⟨fs, hfs.append_right _, hlosses⟩, ?_⟩
  rcases Nat.eq_zero_or_pos (level cap 0 l) with hzero | hpos
  · -- a service of an empty buffer ends the busy stretch
    refine ⟨l ++ [.serve], [], fs, List.append_nil _, hfs.append_right _, ?_⟩
    rw [hlosses, level_snoc, hnext, hzero]
    rfl
  · obtain ⟨start, w, ws, rfl, hws, hbusy⟩ := h.busy
    refine ⟨start, w ++ [.serve], ws, (List.append_assoc _ _ _).symm, hws, ?_⟩
    rw [refused_snoc, level_snoc, hrefuses, hnext, List.count_append, List.count_append]
    simp only [List.count_singleton_self, List.count_singleton, beq_iff_eq, reduceCtorEq,
      if_false]
    omega

theorem Accounted.other (h : Accounted cap l) : Accounted cap (l ++ [.other]) := by
  obtain ⟨fs, hfs, hsum⟩ := h.losses
  obtain ⟨start, w, ws, rfl, hws, hbusy⟩ := h.busy
  have hrefuses : refuses cap (level cap 0 (start ++ w)) .other = 0 := if_neg (by simp)
  refine ⟨⟨fs, hfs.append_right _, ?_⟩,
    ⟨start, w ++ [.other], ws, (List.append_assoc _ _ _).symm, hws, ?_⟩⟩
  · rw [refused_snoc, hrefuses, hsum, Nat.add_zero]
  · rw [refused_snoc, level_snoc, hrefuses, next, List.count_append, List.count_append]
    simpa using hbusy

theorem accounted (cap : ℕ) (l : List Move) : Accounted cap l := by
  induction l using List.reverseRecOn with
  | nil => exact accounted_nil
  | append_singleton l m ih =>
    cases m with
    | arrive => exact ih.arrive
    | serve => exact ih.serve
    | other => exact ih.other

/-- A buffer that starts empty loses the greatest sum there is. -/
theorem refused_isGreatest (cap : ℕ) (l : List Move) :
    IsGreatest (Excesses cap l) (refused cap 0 l) := by
  refine ⟨(accounted cap l).losses, ?_⟩
  rintro k ⟨ws, hws, rfl⟩
  exact total_le_refused hws (Nat.zero_le cap)

end Backlog
