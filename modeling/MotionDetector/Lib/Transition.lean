import Mathlib.Data.List.Basic
import Mathlib.Logic.Function.Iterate

/-!
# Runs of a partial step function

A machine is a step function that may refuse an input. A run feeds it a list
of inputs; `Along` states a condition on every step that a run takes, at the
state it is taken from. The induction over runs is done once here.
-/

namespace Transition

variable {σ ι : Type*} {step : σ → ι → Option σ}

/-- State after the inputs, `none` as soon as one of them is not enabled. -/
def run (step : σ → ι → Option σ) : σ → List ι → Option σ
  | s, [] => some s
  | s, a :: l => (step s a).bind fun t => run step t l

/-- Every step of the run from `s` meets `G` at the state it is taken from. -/
def Along (step : σ → ι → Option σ) (G : σ → ι → Prop) : σ → List ι → Prop
  | _, [] => True
  | s, a :: l => G s a ∧ ∀ t, step s a = some t → Along step G t l

instance decidableAlong (step : σ → ι → Option σ) (G : σ → ι → Prop)
    [∀ s a, Decidable (G s a)] : ∀ s l, Decidable (Along step G s l)
  | _, [] => inferInstanceAs (Decidable True)
  | s, a :: l =>
    match h : step s a with
    | none => decidable_of_iff (G s a) (by simp [Along, h])
    | some t =>
      have := decidableAlong step G t l
      decidable_of_iff (G s a ∧ Along step G t l) (by simp [Along, h])

/-- As `Along`, with a look at the inputs that are still to come. -/
def Onward (step : σ → ι → Option σ) (G : σ → ι → List ι → Prop) : σ → List ι → Prop
  | _, [] => True
  | s, a :: l => G s a l ∧ ∀ t, step s a = some t → Onward step G t l

instance decidableOnward (step : σ → ι → Option σ) (G : σ → ι → List ι → Prop)
    [∀ s a l, Decidable (G s a l)] : ∀ s l, Decidable (Onward step G s l)
  | _, [] => inferInstanceAs (Decidable True)
  | s, a :: l =>
    match h : step s a with
    | none => decidable_of_iff (G s a l) (by simp [Onward, h])
    | some t =>
      have := decidableOnward step G t l
      decidable_of_iff (G s a l ∧ Onward step G t l) (by simp [Onward, h])

@[simp] theorem run_nil (s : σ) : run step s [] = some s := rfl

theorem run_cons (s : σ) (a : ι) (l : List ι) :
    run step s (a :: l) = (step s a).bind fun t => run step t l := rfl

theorem run_cons_some {s t : σ} {a : ι} (l : List ι) (h : step s a = some t) :
    run step s (a :: l) = run step t l := by
  simp [run_cons, h]

theorem run_append (s : σ) (l m : List ι) :
    run step s (l ++ m) = (run step s l).bind fun t => run step t m := by
  induction l generalizing s with
  | nil => rfl
  | cons a l ih =>
    simp only [List.cons_append, run_cons]
    cases step s a with
    | none => rfl
    | some t => exact ih t

theorem run_append_some {s t : σ} {l : List ι} (m : List ι) (h : run step s l = some t) :
    run step s (l ++ m) = run step t m := by
  simp [run_append, h]

/-- The frame rule: a change of the state that the steps of a class do not see can be
made after a run of such steps as well as before it. -/
theorem run_frame {g : σ → σ} {P : ι → Prop}
    (hstep : ∀ s a, P a → step (g s) a = (step s a).map g) {l : List ι} (hl : ∀ a ∈ l, P a)
    (s : σ) : run step (g s) l = (run step s l).map g := by
  induction l generalizing s with
  | nil => rfl
  | cons a l ih =>
    rw [run_cons, run_cons, hstep s a (hl a List.mem_cons_self)]
    cases step s a with
    | none => rfl
    | some t => exact ih (fun b hb => hl b (List.mem_cons_of_mem a hb)) t

/-- The invariant rule: what every admitted step keeps holds after the run. -/
theorem run_inv_along {G : σ → ι → Prop} (Inv : σ → Prop)
    (hstep : ∀ s a t, Inv s → G s a → step s a = some t → Inv t)
    {s t : σ} {l : List ι} (hs : Inv s) (hl : Along step G s l) (hr : run step s l = some t) :
    Inv t := by
  induction l generalizing s with
  | nil =>
    obtain rfl : s = t := by simpa using hr
    exact hs
  | cons a l ih =>
    obtain ⟨m, hm, hrest⟩ := Option.bind_eq_some_iff.mp hr
    exact ih (hstep s a m hs hl.1 hm) (hl.2 m hm) hrest

theorem Along.after {G : σ → ι → Prop} {s t : σ} {l m : List ι}
    (h : Along step G s (l ++ m)) (hr : run step s l = some t) : Along step G t m := by
  induction l generalizing s with
  | nil =>
    obtain rfl : s = t := by simpa using hr
    exact h
  | cons a l ih =>
    obtain ⟨u, hu, hrest⟩ := Option.bind_eq_some_iff.mp hr
    exact ih (h.2 u hu) hrest

theorem Along.before {G : σ → ι → Prop} {s : σ} {l m : List ι}
    (h : Along step G s (l ++ m)) : Along step G s l := by
  induction l generalizing s with
  | nil => trivial
  | cons a l ih => exact ⟨h.1, fun t ht => ih (h.2 t ht)⟩

theorem along_of_forall {P : ι → Prop} {l : List ι} (h : ∀ a ∈ l, P a) (s : σ) :
    Along step (fun _ => P) s l := by
  induction l generalizing s with
  | nil => trivial
  | cons a l ih =>
    exact ⟨h a List.mem_cons_self, fun t _ => ih (fun b hb => h b (List.mem_cons_of_mem _ hb)) t⟩

/-- What every reachable step meets holds along the run. -/
theorem along_of_inv {G : σ → ι → Prop} (Inv : σ → Prop)
    (hstep : ∀ s a t, Inv s → step s a = some t → Inv t) (hG : ∀ s a, Inv s → G s a) {s : σ}
    (hs : Inv s) (l : List ι) : Along step G s l := by
  induction l generalizing s with
  | nil => trivial
  | cons a l ih => exact ⟨hG s a hs, fun t ht => ih (hstep s a t hs ht)⟩

theorem along_true (s : σ) (l : List ι) : Along step (fun _ _ => True) s l := by
  induction l generalizing s with
  | nil => trivial
  | cons a l ih => exact ⟨trivial, fun t _ => ih t⟩

theorem along_of_before {G : σ → ι → Prop} {s : σ} {l : List ι}
    (h : ∀ p a t, p ++ [a] <+: l → run step s p = some t → G t a) : Along step G s l := by
  induction l generalizing s with
  | nil => trivial
  | cons a l ih =>
    refine ⟨h [] a s (List.prefix_append [a] l) rfl, fun t ht => ih fun p b u hp hu => ?_⟩
    refine h (a :: p) b u ?_ ((run_cons_some p ht).trans hu)
    exact (List.prefix_cons_inj a).mpr hp

theorem run_inv (Inv : σ → Prop) (hstep : ∀ s a t, Inv s → step s a = some t → Inv t)
    {s t : σ} {l : List ι} (hs : Inv s) (hr : run step s l = some t) : Inv t :=
  run_inv_along Inv (fun s a t h _ => hstep s a t h) hs (along_true s l) hr

def Throughout (step : σ → ι → Option σ) (P : σ → Prop) : σ → List ι → Prop
  | s, [] => P s
  | s, a :: l => P s ∧ ∀ t, step s a = some t → Throughout step P t l

theorem Throughout.last {P : σ → Prop} {s t : σ} {l : List ι} (h : Throughout step P s l)
    (hr : run step s l = some t) : P t := by
  induction l generalizing s with
  | nil =>
    obtain rfl : s = t := by simpa using hr
    exact h
  | cons a l ih =>
    obtain ⟨m, hm, hrest⟩ := Option.bind_eq_some_iff.mp hr
    exact ih (h.2 m hm) hrest

/-- Where one step keeps `P` exactly when it meets `G`, a run keeps `P`
throughout exactly when all its steps meet `G`. `E` is what all steps of the run
meet, and `Inv` what the steps that meet `G` keep besides. -/
theorem throughout_iff_along_within {P : σ → Prop} {E G : σ → ι → Prop} (Inv : σ → Prop)
    (hkeep : ∀ s a t, Inv s → P s → E s a → G s a → step s a = some t → Inv t)
    (hiff : ∀ s a t, Inv s → P s → E s a → step s a = some t → (P t ↔ G s a))
    {s : σ} {l : List ι} (hs : Inv s) (hp : P s) (hr : (run step s l).isSome)
    (hl : Along step E s l) : Throughout step P s l ↔ Along step G s l := by
  induction l generalizing s with
  | nil => simp [Throughout, Along, hp]
  | cons a l ih =>
    obtain ⟨u, hu⟩ := Option.isSome_iff_exists.mp hr
    obtain ⟨t, ht, hrest⟩ := Option.bind_eq_some_iff.mp hu
    obtain ⟨he, hl⟩ := hl
    have hstep := hiff s a t hs hp he ht
    constructor
    · rintro ⟨-, h⟩
      have hpt : P t := by
        have := h t ht
        cases l with
        | nil => exact this
        | cons b l => exact this.1
      have hg := hstep.mp hpt
      refine ⟨hg, fun m hm => ?_⟩
      obtain rfl : t = m := by rw [ht] at hm; exact Option.some.inj hm
      exact (ih (hkeep s a t hs hp he hg ht) hpt (by simp [hrest]) (hl t ht)).mp (h t ht)
    · rintro ⟨hg, h⟩
      refine ⟨hp, fun m hm => ?_⟩
      obtain rfl : t = m := by rw [ht] at hm; exact Option.some.inj hm
      exact (ih (hkeep s a t hs hp he hg ht) (hstep.mpr hg) (by simp [hrest]) (hl t ht)).mpr
        (h t ht)

theorem throughout_iff_along {P : σ → Prop} {G : σ → ι → Prop} (Inv : σ → Prop)
    (hkeep : ∀ s a t, Inv s → P s → G s a → step s a = some t → Inv t)
    (hiff : ∀ s a t, Inv s → P s → step s a = some t → (P t ↔ G s a))
    {s : σ} {l : List ι} (hs : Inv s) (hp : P s) (hr : (run step s l).isSome) :
    Throughout step P s l ↔ Along step G s l :=
  throughout_iff_along_within Inv (fun s a t hi hp _ => hkeep s a t hi hp)
    (fun s a t hi hp _ => hiff s a t hi hp) hs hp hr (along_true s l)

/-- The same where a run has to end well besides. `F` is what is still asked of a
state with the inputs to come, which a step passes on to the next state but for its
own part in it. -/
theorem throughout_and_iff_onward {P Q : σ → Prop} {G : σ → ι → List ι → Prop} (Inv : σ → Prop)
    (E : σ → ι → Prop) (D : σ → ι → List ι → Prop) (F : σ → List ι → Prop)
    (hkeep : ∀ s a t, Inv s → P s → step s a = some t → Inv t)
    (hiff : ∀ s a t, Inv s → P s → step s a = some t → (P t ↔ E s a))
    (hnext : ∀ s a t l, Inv s → P s → step s a = some t →
      (F t l ↔ D s a l ∧ F s (a :: l)))
    (hlast : ∀ s, Q s ↔ F s []) (hG : ∀ s a l, G s a l ↔ E s a ∧ D s a l)
    {s t : σ} {l : List ι} (hs : Inv s) (hp : P s) (hr : run step s l = some t) :
    Throughout step P s l ∧ Q t ↔ Onward step G s l ∧ F s l := by
  induction l generalizing s with
  | nil =>
    obtain rfl : s = t := by simpa using hr
    simp [Throughout, Onward, hp, hlast]
  | cons a l ih =>
    obtain ⟨u, hu, hrest⟩ := Option.bind_eq_some_iff.mp hr
    have hone {R : σ → Prop} : (∀ m, step s a = some m → R m) ↔ R u := by
      simp [hu]
    rw [Throughout, Onward, hone, hone, hG]
    have hstep := hiff s a u hs hp hu
    have hpass := hnext s a u l hs hp hu
    constructor
    · rintro ⟨⟨-, h⟩, hq⟩
      have hpu : P u := by
        cases l with
        | nil => exact h
        | cons b l => exact h.1
      obtain ⟨honward, hf⟩ := (ih (hkeep s a u hs hp hu) hpu hrest).mp ⟨h, hq⟩
      obtain ⟨hd, hf⟩ := hpass.mp hf
      exact ⟨⟨⟨hstep.mp hpu, hd⟩, honward⟩, hf⟩
    · rintro ⟨⟨⟨he, hd⟩, honward⟩, hf⟩
      obtain ⟨h, hq⟩ := (ih (hkeep s a u hs hp hu) (hstep.mpr he) hrest).mpr
        ⟨honward, hpass.mpr ⟨hd, hf⟩⟩
      exact ⟨⟨hp, h⟩, hq⟩

theorem along_and {E G : σ → ι → Prop} {s : σ} {l : List ι} :
    Along step (fun s a => E s a ∧ G s a) s l ↔ Along step E s l ∧ Along step G s l := by
  induction l generalizing s with
  | nil => simp [Along]
  | cons a l ih =>
    constructor
    · rintro ⟨⟨he, hg⟩, h⟩
      exact ⟨⟨he, fun t ht => (ih.mp (h t ht)).1⟩, ⟨hg, fun t ht => (ih.mp (h t ht)).2⟩⟩
    · rintro ⟨⟨he, hel⟩, ⟨hg, hgl⟩⟩
      exact ⟨⟨he, hg⟩, fun t ht => ih.mpr ⟨hel t ht, hgl t ht⟩⟩

/-! ### Two machines -/

section Related

variable {τ κ : Type*} {spec : τ → κ → Option τ} {f : ι → κ} {R : σ → τ → Prop}

/-- The simulation rule: machines that enable the same inputs and stay related
have related runs. -/
theorem run_rel (hstep : ∀ s t a, R s t → Option.Rel R (step s a) (spec t (f a))) {s : σ} {t : τ}
    (h : R s t) (l : List ι) : Option.Rel R (run step s l) (run spec t (l.map f)) := by
  induction l generalizing s t with
  | nil => exact .some h
  | cons a l ih =>
    have hnext := hstep s t a h
    simp only [List.map_cons, run_cons]
    generalize step s a = u at hnext ⊢
    generalize spec t (f a) = v at hnext ⊢
    cases hnext with
    | none => exact .none
    | some huv => exact ih huv

/-- What the steps of a run are matched by, one after the other. -/
def trace (step : σ → ι → Option σ) (label : σ → ι → List κ) : σ → List ι → List κ
  | _, [] => []
  | s, a :: l =>
    match step s a with
    | none => []
    | some t => label s a ++ trace step label t l

/-- The simulation rule where a step is matched by any number of steps. -/
theorem run_trace {label : σ → ι → List κ}
    (hstep : ∀ s t a u, R s t → step s a = some u →
      ∃ v, run spec t (label s a) = some v ∧ R u v)
    {s u : σ} {t : τ} {l : List ι} (h : R s t) (hr : run step s l = some u) :
    ∃ v, run spec t (trace step label s l) = some v ∧ R u v := by
  induction l generalizing s t with
  | nil =>
    obtain rfl : s = u := by simpa using hr
    exact ⟨t, rfl, h⟩
  | cons a l ih =>
    obtain ⟨w, hw, hrest⟩ := Option.bind_eq_some_iff.mp hr
    obtain ⟨v, hv, hwv⟩ := hstep s t a w h hw
    obtain ⟨v', hv', huv⟩ := ih hwv hrest
    refine ⟨v', ?_, huv⟩
    rw [trace, hw]
    exact (run_append_some _ hv).trans hv'

end Related

/-! ### Machines without input -/

section Reaches

variable {next : σ → σ} {s t u : σ}

def Reaches (next : σ → σ) (s t : σ) : Prop := ∃ k, next^[k] s = t

theorem Reaches.refl (s : σ) : Reaches next s s := ⟨0, rfl⟩

theorem Reaches.head (h : Reaches next (next s) t) : Reaches next s t := by
  obtain ⟨k, rfl⟩ := h
  exact ⟨k + 1, rfl⟩

theorem Reaches.trans (h : Reaches next s t) (h' : Reaches next t u) : Reaches next s u := by
  obtain ⟨k, rfl⟩ := h
  obtain ⟨l, rfl⟩ := h'
  exact ⟨l + k, Function.iterate_add_apply _ l k s⟩

theorem Reaches.inv {P : σ → Prop} (hstep : ∀ s, P s → P (next s)) (hs : P s)
    (h : Reaches next s t) : P t := by
  obtain ⟨k, rfl⟩ := h
  induction k generalizing s with
  | zero => exact hs
  | succ k ih => exact ih (hstep s hs)

/-- What holds until `Q` does and gets closer to it in every step leads to `Q`. -/
theorem reaches_eventually {P Q : σ → Prop} (rank : σ → ℕ)
    (hstep : ∀ s, P s → Q (next s) ∨ P (next s) ∧ rank (next s) < rank s) (hs : P s) :
    ∃ t, Reaches next s t ∧ Q t := by
  induction hd : rank s using Nat.strongRecOn generalizing s with
  | ind d ih =>
    rcases hstep s hs with hq | ⟨hp, hlt⟩
    · exact ⟨next s, Reaches.head (Reaches.refl _), hq⟩
    · obtain ⟨t, ht, hq⟩ := ih _ (hd ▸ hlt) hp rfl
      exact ⟨t, Reaches.head ht, hq⟩

end Reaches

end Transition
