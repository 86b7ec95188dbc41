import MotionDetector.Lib.Backlog

/-!
# Arrival and service curves

How many items come to a bounded buffer, and how many services, in any stretch of
a run, by the time that the stretch takes on a clock of the machine. What the
arrivals can be ahead of the services bounds the backlog.
-/

namespace Backlog

open Transition

variable {σ ι : Type*} {step : σ → ι → Option σ} {kind : σ → ι → Move} {clock : σ → ℕ}
  {α β : ℕ → ℕ} {s t : σ} {acts : List ι} {c : ℕ}

/-- `P` holds of the states before and after every stretch of the run. -/
def Stretches (step : σ → ι → Option σ) (P : σ → List ι → σ → Prop) (s : σ) (acts : List ι) :
    Prop :=
  ∀ before mid after t u, before ++ (mid ++ after) = acts → run step s before = some t →
    run step t mid = some u → P t mid u

/-- At most `α k` items arrive while the clock advances by `k`. -/
def ArrivalCurve (step : σ → ι → Option σ) (kind : σ → ι → Move) (clock : σ → ℕ) (α : ℕ → ℕ) :
    σ → List ι → Prop :=
  Stretches step fun t mid u => (moves step kind t mid).count .arrive ≤ α (clock u - clock t)

/-- At least `β k` services come while the clock advances by `k`. -/
def ServiceCurve (step : σ → ι → Option σ) (kind : σ → ι → Move) (clock : σ → ℕ) (β : ℕ → ℕ) :
    σ → List ι → Prop :=
  Stretches step fun t mid u => β (clock u - clock t) ≤ (moves step kind t mid).count .serve

variable (kind) in
theorem moves_take (hr : run step s acts = some t) (k : ℕ) :
    ∃ u, run step s (acts.take k) = some u ∧ run step u (acts.drop k) = some t ∧
      moves step kind s (acts.take k) = (moves step kind s acts).take k ∧
      moves step kind u (acts.drop k) = (moves step kind s acts).drop k := by
  induction acts generalizing s k with
  | nil =>
    refine ⟨s, ?_⟩
    simpa [moves] using hr
  | cons a acts ih =>
    cases k with
    | zero => exact ⟨s, rfl, hr, rfl, rfl⟩
    | succ k =>
      obtain ⟨v, hv, hrest⟩ := Option.bind_eq_some_iff.mp hr
      obtain ⟨u, hu, ht, htake, hdrop⟩ := ih hrest k
      refine ⟨u, ?_, ht, ?_, ?_⟩
      · rw [List.take_succ_cons, run_cons_some _ hv]
        exact hu
      · rw [List.take_succ_cons, moves_cons hv, moves_cons hv, List.take_succ_cons, htake]
      · rw [List.drop_succ_cons, moves_cons hv, List.drop_succ_cons, hdrop]

/-- Every window of the moves is that of a stretch of the run. -/
theorem moves_infix (hr : run step s acts = some t) {w : List Move}
    (hw : w <:+: moves step kind s acts) :
    ∃ before mid after u v, before ++ (mid ++ after) = acts ∧ run step s before = some u ∧
      run step u mid = some v ∧ moves step kind u mid = w := by
  obtain ⟨x, y, hxy⟩ := hw
  obtain ⟨u, hu, hrest, -, hdrop⟩ := moves_take kind hr x.length
  obtain ⟨v, hv, -, htake, -⟩ := moves_take kind hrest w.length
  refine ⟨acts.take x.length, (acts.drop x.length).take w.length,
    (acts.drop x.length).drop w.length, u, v, ?_, hu, hv, ?_⟩
  · rw [List.take_append_drop, List.take_append_drop]
  · rw [htake, hdrop, ← hxy, List.append_assoc, List.drop_left, List.take_left]

/-- Where the arrivals are never more than `c` ahead of the services, the run keeps
within `c`. -/
theorem steady_of_curves (hr : run step s acts = some t)
    (harrive : ArrivalCurve step kind clock α s acts)
    (hserve : ServiceCurve step kind clock β s acts) (hc : ∀ k, α k ≤ c + β k) :
    Steady c (moves step kind s acts) := by
  intro w hw
  obtain ⟨before, mid, after, u, v, hacts, hu, hv, rfl⟩ := moves_infix hr hw
  calc (moves step kind u mid).count .arrive
      ≤ α (clock v - clock u) := harrive before mid after u v hacts hu hv
    _ ≤ c + β (clock v - clock u) := hc _
    _ ≤ c + (moves step kind u mid).count .serve :=
      Nat.add_le_add_left (hserve before mid after u v hacts hu hv) c

/- A run with few arrivals in all. -/
theorem arrivalCurve_of_count
    (hcount : (moves step kind s acts).count .arrive ≤ c) (hc : ∀ k, c ≤ α k) :
    ArrivalCurve step kind clock α s acts := by
  intro before mid after u v hacts hu hv
  have hsplit : moves step kind s acts =
      moves step kind s before ++ (moves step kind u mid ++ moves step kind v after) := by
    rw [← hacts, moves_append hu, moves_append hv]
  rw [hsplit, List.count_append, List.count_append] at hcount
  have := hc (clock v - clock u)
  omega

theorem steady_before {after : List ι} (hr : run step s acts = some t)
    (h : Steady c (moves step kind s (acts ++ after))) : Steady c (moves step kind s acts) := by
  rw [moves_append hr] at h
  exact h.mono (List.prefix_append _ _).isInfix

/-! ### Latency -/

variable (clock) in
/- A run in which the clock goes on by single ticks comes to every reading on its way. -/
theorem exists_at_clock (hclock : ∀ s a t, step s a = some t → clock t ≤ clock s + 1)
    (hr : run step s acts = some t) {k : ℕ} (hk : k ≤ clock t) (hs : clock s ≤ k) :
    ∃ before after u, before ++ after = acts ∧ run step s before = some u ∧
      run step u after = some t ∧ clock u = k := by
  induction acts generalizing s with
  | nil =>
    obtain rfl : s = t := by simpa using hr
    exact ⟨[], [], s, rfl, rfl, rfl, Nat.le_antisymm hs hk⟩
  | cons a acts ih =>
    rcases Nat.lt_or_eq_of_le hs with hlt | heq
    · obtain ⟨v, hv, hrest⟩ := Option.bind_eq_some_iff.mp hr
      have hnext : clock v ≤ k := (hclock s a v hv).trans hlt
      obtain ⟨before, after, u, hacts, hbefore, hafter, hu⟩ := ih hrest hnext
      refine ⟨a :: before, after, u, ?_, ?_, hafter, hu⟩
      · rw [List.cons_append, hacts]
      · rw [run_cons_some _ hv]
        exact hbefore
    · exact ⟨[], a :: acts, s, rfl, rfl, hr, heq⟩

/-- A move that takes the level from `q` to `q'` and what has come from `came` to
`came'`. -/
structure Fills (cap q q' came came' : ℕ) (m : Move) : Prop where
  level : q' = next cap q m
  came : came' + refuses cap q m = came + if m = .arrive then 1 else 0

theorem Fills.le {cap q q' came came' : ℕ} {m : Move} (h : Fills cap q q' came came' m) :
    came ≤ came' := by
  have hcame := h.came
  cases m with
  | arrive =>
    simp only [refuses, true_and, if_true] at hcame
    split at hcame <;> omega
  | serve =>
    simp only [refuses, reduceCtorEq, false_and, if_false] at hcame
    omega
  | other =>
    simp only [refuses, reduceCtorEq, false_and, if_false] at hcame
    omega

theorem Fills.served {cap q q' came came' : ℕ} {m : Move} (h : Fills cap q q' came came' m)
    (hle : q ≤ came) : came' - q' = came - q + if m = .serve ∧ 0 < q then 1 else 0 := by
  have hcame := h.came
  rw [h.level]
  cases m with
  | arrive =>
    simp only [refuses, true_and, if_true] at hcame
    simp only [next, reduceCtorEq, false_and, if_false]
    rcases Nat.lt_or_ge q cap with hlt | hge
    · rw [if_neg (by omega)] at hcame
      rw [if_pos hlt]
      omega
    · rw [if_pos hge] at hcame
      rw [if_neg (by omega)]
      omega
  | serve =>
    simp only [refuses, reduceCtorEq, false_and, if_false] at hcame
    simp only [next, true_and]
    split <;> omega
  | other =>
    simp only [refuses, reduceCtorEq, false_and, if_false] at hcame
    simp only [next, reduceCtorEq, false_and, if_false]
    omega

/-- As many services as items were in the buffer serve all that had come to it. -/
theorem run_serves_all {cap : ℕ} (len came : σ → ℕ) (Inv : σ → Prop)
    (hinv : ∀ s a t, Inv s → step s a = some t → Inv t) (hle : ∀ s, Inv s → len s ≤ came s)
    (hfills : ∀ s a t, Inv s → step s a = some t →
      Fills cap (len s) (len t) (came s) (came t) (kind s a)) (hs : Inv s)
    (hr : run step s acts = some t)
    (hmany : len s ≤ (moves step kind s acts).count .serve) : came s + len t ≤ came t := by
  have ht : Inv t := run_inv Inv hinv hs hr
  have hcatch : min (came s) (came s - len s + (moves step kind s acts).count .serve) ≤
      came t - len t := by
    refine run_catches_up (fun u => came u - len u) (fun u => Inv u ∧ came s ≤ came u)
      (fun u a v hu hv => ?_) (fun u a v hu hv => ?_) (fun u a v hu hv hkind => ?_)
      ⟨hs, Nat.le_refl _⟩ hr
    · exact ⟨hinv u a v hu.1 hv, hu.2.trans (hfills u a v hu.1 hv).le⟩
    · have hserved := (hfills u a v hu.1 hv).served (hle u hu.1)
      omega
    · -- a service of the empty buffer finds everything served
      have hserved := (hfills u a v hu.1 hv).served (hle u hu.1)
      have hgoal := hu.2
      simp only [hkind, true_and] at hserved
      split at hserved
      · right
        omega
      · left
        omega
  have hles := hle s hs
  have hlet := hle t ht
  omega

end Backlog
