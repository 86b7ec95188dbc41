import Mathlib.Data.List.Forall2
import Mathlib.Data.List.Count
import Mathlib.Data.List.Infix
import MotionDetector.Lib.Transition

/-!
# Backlog of a bounded buffer

A buffer with room for `cap` items seen from outside: items arrive, and a full
buffer refuses them; a service takes one item away, or nothing from an empty
buffer. Whether a run refuses an item can be read off its windows alone, the
stretches of consecutive moves: each may have `cap` more arrivals than services.
-/

namespace Backlog

open Transition

inductive Move where
  | arrive
  | serve
  | other
  deriving DecidableEq, Repr

/-- Items in the buffer after a move. -/
def next (cap q : ℕ) : Move → ℕ
  | .arrive => if q < cap then q + 1 else q
  | .serve => q - 1
  | .other => q

def level (cap : ℕ) : ℕ → List Move → ℕ
  | q, [] => q
  | q, m :: l => level cap (next cap q m) l

def refuses (cap q : ℕ) (m : Move) : ℕ := if m = .arrive ∧ cap ≤ q then 1 else 0

def refused (cap : ℕ) : ℕ → List Move → ℕ
  | _, [] => 0
  | q, m :: l => refuses cap q m + refused cap (next cap q m) l

/-- At most `c` more arrivals than services. -/
def Within (c : ℕ) (w : List Move) : Prop := w.count .arrive ≤ c + w.count .serve

instance (c : ℕ) (w : List Move) : Decidable (Within c w) := inferInstanceAs (Decidable (_ ≤ _))

/-- Every window keeps within `c`. -/
def Steady (c : ℕ) (l : List Move) : Prop := ∀ w, w <:+: l → Within c w

variable {cap c q : ℕ} {l : List Move} {m : Move}

theorem Steady.mono {l' : List Move} (h : Steady c l) (hl : l' <:+: l) : Steady c l' :=
  fun w hw => h w (hw.trans hl)

theorem forall_prefix_cons {P : List Move → Prop} :
    (∀ p, p <+: m :: l → P p) ↔ P [] ∧ ∀ p, p <+: l → P (m :: p) := by
  constructor
  · intro h
    exact ⟨h [] List.nil_prefix, fun p hp => h _ (List.prefix_cons_inj m |>.mpr hp)⟩
  · rintro ⟨hnil, hcons⟩ p hp
    rcases List.prefix_cons_iff.mp hp with rfl | ⟨t, rfl, ht⟩
    · exact hnil
    · exact hcons t ht

theorem Steady.of_le {c' : ℕ} (h : Steady c l) (hc : c ≤ c') : Steady c' l :=
  fun w hw => (h w hw).trans (Nat.add_le_add_right hc _)

/- The windows of `m :: l` are its prefixes and the windows of `l`. -/
theorem steady_cons :
    Steady c (m :: l) ↔ (∀ p, p <+: l → Within c (m :: p)) ∧ Steady c l := by
  constructor
  · intro h
    refine ⟨fun p hp => h _ (List.prefix_cons_inj m |>.mpr hp).isInfix, ?_⟩
    exact h.mono (List.suffix_cons m l).isInfix
  · rintro ⟨hpre, hl⟩ w hw
    rcases List.infix_cons_iff.mp hw with hw | hw
    · rcases List.prefix_cons_iff.mp hw with rfl | ⟨p, rfl, hp⟩
      · exact Nat.zero_le _
      · exact hpre p hp
    · exact hl w hw

theorem within_arrive_cons {p : List Move} :
    Within c (.arrive :: p) ↔ p.count .arrive + 1 ≤ c + p.count .serve := by
  simp [Within]

theorem within_serve_cons {p : List Move} :
    Within c (.serve :: p) ↔ p.count .arrive ≤ c + p.count .serve + 1 := by
  simp [Within, Nat.add_assoc]

theorem within_other_cons {p : List Move} : Within c (.other :: p) ↔ Within c p := by
  simp [Within]

/- With `q` items at the start a prefix has `q` places less. -/
theorem refused_eq_zero_from (hq : q ≤ cap) :
    refused cap q l = 0 ↔
      (∀ p, p <+: l → q + p.count .arrive ≤ cap + p.count .serve) ∧ Steady cap l := by
  induction l generalizing q with
  | nil =>
    refine iff_of_true rfl ⟨fun p hp => ?_, fun w hw => ?_⟩
    · obtain rfl := List.prefix_nil.mp hp
      simpa using hq
    · obtain rfl := List.infix_nil.mp hw
      exact Nat.zero_le _
  | cons m l ih =>
    rw [forall_prefix_cons, steady_cons, refused]
    cases m with
    | arrive =>
      rcases Nat.lt_or_ge q cap with hlt | hge
      · have hnext : next cap q .arrive = q + 1 := if_pos hlt
        have hrefuses : refuses cap q .arrive = 0 := if_neg (by omega)
        rw [hnext, hrefuses, Nat.zero_add, ih hlt]
        constructor
        · rintro ⟨hp, hs⟩
          refine ⟨⟨by simpa using hq, fun p h => ?_⟩, fun p h => ?_, hs⟩
          · have := hp p h
            simp only [List.count_cons_self, List.count_cons_of_ne, ne_eq, reduceCtorEq,
              not_false_eq_true]
            omega
          · have := hp p h
            rw [within_arrive_cons]
            omega
        · rintro ⟨⟨-, hp⟩, -, hs⟩
          refine ⟨fun p h => ?_, hs⟩
          have := hp p h
          simp only [List.count_cons_self, List.count_cons_of_ne, ne_eq, reduceCtorEq,
            not_false_eq_true] at this
          omega
      · -- the first arrival is refused, and the prefix of that move alone shows it
        have hrefuses : refuses cap q .arrive = 1 := if_pos ⟨rfl, hge⟩
        refine iff_of_false (by omega) ?_
        rintro ⟨⟨-, hp⟩, -⟩
        have := hp [] List.nil_prefix
        simp at this
        omega
    | serve =>
      have hrefuses : refuses cap q .serve = 0 := if_neg (by simp)
      rw [hrefuses, Nat.zero_add, show next cap q .serve = q - 1 from rfl, ih (by omega)]
      constructor
      · rintro ⟨hp, hs⟩
        refine ⟨⟨by simpa using hq, fun p h => ?_⟩, fun p h => ?_, hs⟩
        · have := hp p h
          simp only [List.count_cons_self, List.count_cons_of_ne, ne_eq, reduceCtorEq,
            not_false_eq_true]
          omega
        · have := hp p h
          rw [within_serve_cons]
          omega
      · rintro ⟨⟨-, hp⟩, -, hs⟩
        refine ⟨fun p h => ?_, hs⟩
        have hpre := hp p h
        have hwindow : Within cap p := hs p h.isInfix
        unfold Within at hwindow
        simp only [List.count_cons_self, List.count_cons_of_ne, ne_eq, reduceCtorEq,
          not_false_eq_true] at hpre
        omega
    | other =>
      have hrefuses : refuses cap q .other = 0 := if_neg (by simp)
      rw [hrefuses, Nat.zero_add, show next cap q .other = q from rfl, ih hq]
      simp only [within_other_cons, List.count_cons_of_ne, ne_eq, reduceCtorEq,
        not_false_eq_true, List.count_nil, Nat.add_zero]
      constructor
      · rintro ⟨hp, hs⟩
        exact ⟨⟨hq, hp⟩, fun p h => hs p h.isInfix, hs⟩
      · rintro ⟨⟨-, hp⟩, -, hs⟩
        exact ⟨hp, hs⟩

/-- A buffer that starts empty refuses nothing exactly when every window keeps
within its capacity. -/
theorem refused_eq_zero_iff : refused cap 0 l = 0 ↔ Steady cap l := by
  rw [refused_eq_zero_from (Nat.zero_le cap)]
  constructor
  · rintro ⟨-, h⟩
    exact h
  · intro h
    exact ⟨fun p hp => (Nat.zero_add _).trans_le (h p hp.isInfix), h⟩

theorem next_mono {q' : ℕ} (h : q ≤ q') : next cap q m ≤ next cap q' m := by
  cases m with
  | arrive =>
    simp only [next]
    split <;> split <;> omega
  | serve => exact Nat.sub_le_sub_right h 1
  | other => exact h

theorem level_mono {q' : ℕ} (h : q ≤ q') : level cap q l ≤ level cap q' l := by
  induction l generalizing q q' with
  | nil => exact h
  | cons m l ih => exact ih (next_mono h)

theorem level_le_of (hl : q + l.count .arrive ≤ c + l.count .serve) (hs : Steady c l) :
    level cap q l ≤ c := by
  induction l generalizing q with
  | nil => simpa [level] using hl
  | cons m l ih =>
    have htail : Steady c l := (steady_cons.mp hs).2
    have hwhole : Within c l := htail l (List.infix_refl l)
    unfold Within at hwhole
    refine ih ?_ htail
    cases m with
    | arrive =>
      have : next cap q .arrive ≤ q + 1 := by
        simp only [next]
        split <;> omega
      simp only [List.count_cons_self, List.count_cons_of_ne, ne_eq, reduceCtorEq,
        not_false_eq_true] at hl
      omega
    | serve =>
      simp only [List.count_cons_self, List.count_cons_of_ne, ne_eq, reduceCtorEq,
        not_false_eq_true] at hl
      simp only [next]
      omega
    | other => simpa [next] using hl

theorem level_le (hs : Steady c l) : level cap 0 l ≤ c :=
  level_le_of ((Nat.zero_add _).trans_le (hs l (List.infix_refl l))) hs

/-! ### Rounds -/

/- At most `c` arrivals a round, with services enough for them in that round. -/
theorem within_prefix_of_rounds {rounds : List (List Move)}
    (h : ∀ r ∈ rounds, r.count .arrive ≤ c ∧ c ≤ r.count .serve) {p : List Move}
    (hp : p <+: rounds.flatten) : Within c p := by
  induction rounds generalizing p with
  | nil =>
    obtain rfl := List.prefix_nil.mp hp
    exact Nat.zero_le _
  | cons r rounds ih =>
    obtain ⟨hr, hrounds⟩ := List.forall_mem_cons.mp h
    rw [List.flatten_cons] at hp
    rcases List.prefix_or_prefix_of_prefix hp (List.prefix_append r _) with hp | ⟨p', rfl⟩
    · exact (hp.sublist.count_le _).trans (hr.1.trans (Nat.le_add_right _ _))
    · have := ih hrounds ((List.prefix_append_right_inj r).mp hp)
      unfold Within at this ⊢
      rw [List.count_append, List.count_append]
      omega

/- A window starts inside one round and ends inside another. -/
theorem steady_of_rounds {rounds : List (List Move)}
    (h : ∀ r ∈ rounds, r.count .arrive ≤ c ∧ c ≤ r.count .serve) :
    Steady (2 * c) rounds.flatten := by
  induction rounds with
  | nil =>
    intro w hw
    obtain rfl := List.infix_nil.mp hw
    exact Nat.zero_le _
  | cons r rounds ih =>
    obtain ⟨hr, hrounds⟩ := List.forall_mem_cons.mp h
    rintro w ⟨x, z, hw⟩
    rw [List.flatten_cons, List.append_assoc] at hw
    rcases List.append_eq_append_iff.mp hw with ⟨y, rfl, heq⟩ | ⟨y, rfl, heq⟩
    · -- the window starts in the first round
      have hy : y.count .arrive ≤ c := by
        have := hr.1
        rw [List.count_append] at this
        exact (Nat.le_add_left _ _).trans this
      rcases List.prefix_or_prefix_of_prefix ⟨z, heq⟩ (List.prefix_append y _) with hp | ⟨p, rfl⟩
      · have := hp.sublist.count_le Move.arrive
        unfold Within
        omega
      · have hp := within_prefix_of_rounds hrounds
          ((List.prefix_append_right_inj y).mp ⟨z, heq⟩)
        unfold Within at hp ⊢
        rw [List.count_append, List.count_append]
        omega
    · exact ih hrounds w ⟨y, z, by rw [List.append_assoc, heq]⟩

/- The last round may be under way. -/
theorem steady_of_rounds_append {rounds : List (List Move)} {last : List Move}
    (h : ∀ r ∈ rounds, r.count .arrive ≤ c ∧ c ≤ r.count .serve)
    (hlast : last.count .arrive ≤ c) : Steady (2 * c) (rounds.flatten ++ last) := by
  have hfull : Steady (2 * c) (rounds ++ [last ++ List.replicate c Move.serve]).flatten := by
    apply steady_of_rounds
    intro r hr
    rcases List.mem_append.mp hr with hr | hr
    · exact h r hr
    · obtain rfl := List.mem_singleton.mp hr
      have harrive : (List.replicate c Move.serve).count Move.arrive = 0 :=
        List.count_eq_zero.mpr (by simp)
      rw [List.count_append, List.count_append, harrive, List.count_replicate_self]
      omega
  refine hfull.mono (List.IsPrefix.isInfix ⟨List.replicate c .serve, ?_⟩)
  simp

/-! ### Runs of a machine -/

section Machine

variable {σ ι : Type*} {step : σ → ι → Option σ} {kind : σ → ι → Move}

/-- What the steps of a run are to the buffer. -/
def moves (step : σ → ι → Option σ) (kind : σ → ι → Move) : σ → List ι → List Move
  | _, [] => []
  | s, a :: l =>
    kind s a ::
      match step s a with
      | none => []
      | some t => moves step kind t l

theorem moves_cons {s t : σ} {a : ι} {l : List ι} (h : step s a = some t) :
    moves step kind s (a :: l) = kind s a :: moves step kind t l := by
  simp [moves, h]

theorem moves_append {s t : σ} {l l' : List ι} (hr : run step s l = some t) :
    moves step kind s (l ++ l') = moves step kind s l ++ moves step kind t l' := by
  induction l generalizing s with
  | nil =>
    obtain rfl : s = t := by simpa using hr
    rfl
  | cons a l ih =>
    obtain ⟨u, hu, hrest⟩ := Option.bind_eq_some_iff.mp hr
    rw [List.cons_append, moves_cons hu, moves_cons hu, ih hrest, List.cons_append]

/-- The number of items and of refusals follow the moves of the run. -/
theorem run_level (len lost : σ → ℕ) (Inv : σ → Prop)
    (hinv : ∀ s a t, Inv s → step s a = some t → Inv t)
    (hlen : ∀ s a t, Inv s → step s a = some t → len t = next cap (len s) (kind s a))
    (hlost : ∀ s a t, Inv s → step s a = some t →
      lost t = lost s + refuses cap (len s) (kind s a)) {s t : σ} {acts : List ι} (hs : Inv s)
    (hr : run step s acts = some t) :
    len t = level cap (len s) (moves step kind s acts) ∧
      lost t = lost s + refused cap (len s) (moves step kind s acts) := by
  induction acts generalizing s with
  | nil =>
    obtain rfl : s = t := by simpa using hr
    exact ⟨rfl, rfl⟩
  | cons a acts ih =>
    obtain ⟨u, hu, hrest⟩ := Option.bind_eq_some_iff.mp hr
    obtain ⟨hl, hd⟩ := ih (hinv s a u hs hu) hrest
    rw [moves_cons hu, level, refused, ← hlen s a u hs hu, ← Nat.add_assoc, ← hlost s a u hs hu]
    exact ⟨hl, hd⟩

/-- A count that may stay behind the level of the moves. -/
theorem run_level_le (len : σ → ℕ) (Inv : σ → Prop)
    (hinv : ∀ s a t, Inv s → step s a = some t → Inv t)
    (hlen : ∀ s a t, Inv s → step s a = some t → len t ≤ next cap (len s) (kind s a)) {s t : σ}
    {acts : List ι} (hs : Inv s) (hr : run step s acts = some t) :
    len t ≤ level cap (len s) (moves step kind s acts) := by
  induction acts generalizing s with
  | nil =>
    obtain rfl : s = t := by simpa using hr
    exact Nat.le_refl _
  | cons a acts ih =>
    obtain ⟨u, hu, hrest⟩ := Option.bind_eq_some_iff.mp hr
    rw [moves_cons hu, level]
    exact (ih (hinv s a u hs hu) hrest).trans (level_mono (hlen s a u hs hu))

/-- A count that goes up with the moves of one kind. -/
theorem run_count (count : σ → ℕ) (Inv : σ → Prop)
    (hinv : ∀ s a t, Inv s → step s a = some t → Inv t)
    (hcount : ∀ s a t, Inv s → step s a = some t →
      count t = count s + if kind s a = m then 1 else 0) {s t : σ} {acts : List ι} (hs : Inv s)
    (hr : run step s acts = some t) :
    count t = count s + (moves step kind s acts).count m := by
  induction acts generalizing s with
  | nil =>
    obtain rfl : s = t := by simpa using hr
    rfl
  | cons a acts ih =>
    obtain ⟨u, hu, hrest⟩ := Option.bind_eq_some_iff.mp hr
    have hstep := hcount s a u hs hu
    rw [ih (hinv s a u hs hu) hrest, hstep, moves_cons hu, List.count_cons]
    simp only [beq_iff_eq]
    omega

/-! Where the inputs alone bound the moves -/

theorem moves_count_le {p : ι → Bool} (h : ∀ s a, kind s a = m → p a) (s : σ) (acts : List ι) :
    (moves step kind s acts).count m ≤ acts.countP p := by
  induction acts generalizing s with
  | nil => exact Nat.le_refl _
  | cons a acts ih =>
    have htail : (match step s a with
        | none => []
        | some t => moves step kind t acts).count m ≤ acts.countP p := by
      cases step s a with
      | none => exact Nat.zero_le _
      | some t => exact ih t
    rw [moves, List.count_cons, List.countP_cons]
    by_cases hm : kind s a = m
    · simp only [hm, h s a hm, beq_self_eq_true, if_true]
      omega
    · simp only [beq_iff_eq, hm, if_false]
      omega

theorem le_moves_count {p : ι → Bool} (h : ∀ s a, p a → kind s a = m) {s t : σ} {acts : List ι}
    (hr : run step s acts = some t) : acts.countP p ≤ (moves step kind s acts).count m := by
  induction acts generalizing s with
  | nil => exact Nat.le_refl _
  | cons a acts ih =>
    obtain ⟨u, hu, hrest⟩ := Option.bind_eq_some_iff.mp hr
    have := ih hrest
    rw [moves_cons hu, List.count_cons, List.countP_cons]
    by_cases hp : p a = true
    · simp only [hp, h s a hp, beq_self_eq_true, if_true]
      omega
    · simp only [hp, if_false, Bool.false_eq_true]
      omega

/-- The inputs come in rounds with at most `c` that may be arrivals and at least
`c` that are services, the last round perhaps under way. -/
def Paced (arrives served : ι → Bool) (c : ℕ) (acts : List ι) : Prop :=
  ∃ (rounds : List (List ι)) (last : List ι), rounds.flatten ++ last = acts ∧
    (∀ r ∈ rounds, r.countP arrives ≤ c ∧ c ≤ r.countP served) ∧ last.countP arrives ≤ c

/- A round of inputs is a round of moves. -/
theorem moves_rounds {arrives served : ι → Bool}
    (harrive : ∀ s a, kind s a = .arrive → arrives a)
    (hserve : ∀ s a, served a → kind s a = .serve) {rounds : List (List ι)} {last : List ι}
    (h : ∀ r ∈ rounds, r.countP arrives ≤ c ∧ c ≤ r.countP served)
    (hlast : last.countP arrives ≤ c) {s t : σ}
    (hr : run step s (rounds.flatten ++ last) = some t) :
    ∃ (ms : List (List Move)) (rest : List Move),
      moves step kind s (rounds.flatten ++ last) = ms.flatten ++ rest ∧
      (∀ r ∈ ms, r.count .arrive ≤ c ∧ c ≤ r.count .serve) ∧ rest.count .arrive ≤ c := by
  induction rounds generalizing s with
  | nil => exact ⟨[], _, rfl, by simp, (moves_count_le harrive s last).trans hlast⟩
  | cons r rounds ih =>
    obtain ⟨hround, hrounds⟩ := List.forall_mem_cons.mp h
    rw [List.flatten_cons, List.append_assoc] at hr ⊢
    rw [run_append] at hr
    obtain ⟨u, hu, hrest⟩ := Option.bind_eq_some_iff.mp hr
    obtain ⟨ms, rest, heq, hms, hcount⟩ := ih hrounds hrest
    refine ⟨moves step kind s r :: ms, rest, ?_, ?_, hcount⟩
    · rw [moves_append hu, heq, List.flatten_cons, List.append_assoc]
    · exact List.forall_mem_cons.mpr ⟨⟨(moves_count_le harrive s r).trans hround.1,
        hround.2.trans (le_moves_count hserve hu)⟩, hms⟩

theorem Paced.steady {arrives served : ι → Bool} {acts : List ι}
    (h : Paced arrives served c acts) (harrive : ∀ s a, kind s a = .arrive → arrives a)
    (hserve : ∀ s a, served a → kind s a = .serve) {s t : σ} (hr : run step s acts = some t) :
    Steady (2 * c) (moves step kind s acts) := by
  obtain ⟨rounds, last, rfl, hrounds, hlast⟩ := h
  obtain ⟨ms, rest, heq, hms, hrest⟩ := moves_rounds harrive hserve hrounds hlast hr
  rw [heq]
  exact steady_of_rounds_append hms hrest

/-- A service that does not fall behind: where each service brings `done` one
further until it has reached `goal`, so do the services of a run. -/
theorem run_catches_up (done : σ → ℕ) {goal : ℕ} (Inv : σ → Prop)
    (hinv : ∀ s a t, Inv s → step s a = some t → Inv t)
    (hkeep : ∀ s a t, Inv s → step s a = some t → done s ≤ done t)
    (hserve : ∀ s a t, Inv s → step s a = some t → kind s a = .serve →
      goal ≤ done t ∨ done s + 1 ≤ done t) {s t : σ} {acts : List ι} (hs : Inv s)
    (hr : run step s acts = some t) :
    min goal (done s + (moves step kind s acts).count .serve) ≤ done t := by
  induction acts generalizing s with
  | nil =>
    obtain rfl : s = t := by simpa using hr
    exact Nat.min_le_right _ _
  | cons a acts ih =>
    obtain ⟨u, hu, hrest⟩ := Option.bind_eq_some_iff.mp hr
    have hnext := ih (hinv s a u hs hu) hrest
    have hle := hkeep s a u hs hu
    rw [moves_cons hu, List.count_cons]
    by_cases hm : kind s a = .serve
    · have := hserve s a u hs hu hm
      simp only [hm, beq_self_eq_true, if_true]
      omega
    · simp only [beq_iff_eq, hm, if_false]
      omega

end Machine

end Backlog
