import MotionDetector.Lib.Transition
import Mathlib.Logic.Function.Basic

/-!
# Critical sections

Threads run bodies of code in which sections are entered by locking a mutex and
left by unlocking it. Some pairs of a thread and a mutex are bypassed: the lock
returns without the mutex being taken, and the thread goes on. Exclusion is then
a matter of who is inside when a lock returns, and this is all there is to it; over
all interleavings it is a matter of who locks what.
-/

namespace Sections

open Transition

variable {θ μ κ : Type*} [DecidableEq θ] [DecidableEq μ]

inductive Instr (μ : Type*) where
  | lock (m : μ)
  | work
  | unlock (m : μ)
  deriving DecidableEq

/-- `prog t` is what is left of the body that `t` runs, `inside (t, m)` tells
that `t` is between a lock of `m` and the unlock. -/
structure State (θ μ : Type*) where
  owner : μ → Option θ
  prog : θ → List (Instr μ)
  inside : θ × μ → Bool

def State.init : State θ μ := ⟨fun _ => none, fun _ => [], fun _ => false⟩

/-- What the calls do to the owner; a lock without a result blocks. The flag of
an unlock is for what happens where the caller is not the owner. -/
structure Ops (θ μ : Type*) where
  lock : θ → μ → Option θ → Option (Option θ)
  unlock : θ → μ → Bool → Option θ → Option θ

structure Ops.Lawful (ops : Ops θ μ) (bypass : θ → μ → Prop) : Prop where
  bypassed : ∀ t m o, bypass t m → ops.lock t m o = some o
  free : ∀ t m, ¬ bypass t m → ops.lock t m none = some (some t)
  taken : ∀ t m u, ¬ bypass t m → ops.lock t m (some u) = none
  own : ∀ t m released, ops.unlock t m released (some t) = none
  open_ : ∀ t m released, ops.unlock t m released none = none

inductive Act (θ κ : Type*) where
  | call (t : θ) (c : κ)
  | next (t : θ) (released : Bool)

def step (ops : Ops θ μ) (body : κ → List (Instr μ)) (s : State θ μ) :
    Act θ κ → Option (State θ μ)
  | .call t c =>
    if s.prog t = [] then some { s with prog := Function.update s.prog t (body c) } else none
  | .next t released =>
    match s.prog t with
    | [] => none
    | .work :: rest => some { s with prog := Function.update s.prog t rest }
    | .lock m :: rest =>
      (ops.lock t m (s.owner m)).map fun owner =>
        { owner := Function.update s.owner m owner
          prog := Function.update s.prog t rest
          inside := Function.update s.inside (t, m) true }
    | .unlock m :: rest =>
      some
        { owner := Function.update s.owner m (ops.unlock t m released (s.owner m))
          prog := Function.update s.prog t rest
          inside := Function.update s.inside (t, m) false }

/-- At most one thread is inside the sections of each mutex. -/
def Exclusive (s : State θ μ) : Prop :=
  ∀ m t u, s.inside (t, m) = true → s.inside (u, m) = true → t = u

/-- Where a lock returns while another thread is inside, neither of the two
bypasses the mutex. -/
def Guarded (bypass : θ → μ → Prop) (s : State θ μ) : Act θ κ → Prop
  | .next t _ =>
    match s.prog t with
    | .lock m :: _ => ∀ u, u ≠ t → s.inside (u, m) = true → ¬ bypass t m ∧ ¬ bypass u m
    | _ => True
  | .call _ _ => True

/-- From the sections in `ins` on, every lock is unlocked once and in turn. -/
def Balanced (ins : μ → Bool) : List (Instr μ) → Prop
  | [] => ins = fun _ => false
  | .work :: rest => Balanced ins rest
  | .lock m :: rest => ins m = false ∧ Balanced (Function.update ins m true) rest
  | .unlock m :: rest => ins m = true ∧ Balanced (Function.update ins m false) rest

/-! ### The invariant -/

structure Inv (bypass : θ → μ → Prop) (s : State θ μ) : Prop where
  balanced : ∀ t, Balanced (fun m => s.inside (t, m)) (s.prog t)
  owns : ∀ t m, s.inside (t, m) = true → ¬ bypass t m → s.owner m = some t
  owner : ∀ t m, s.owner m = some t → s.inside (t, m) = true ∧ ¬ bypass t m

variable {bypass : θ → μ → Prop} {ops : Ops θ μ} {body : κ → List (Instr μ)} {s s' : State θ μ}

theorem update_own (inside : θ × μ → Bool) (t : θ) (m : μ) (b : Bool) :
    (fun m' => Function.update inside (t, m) b (t, m')) =
      Function.update (fun m' => inside (t, m')) m b := by
  funext m'
  by_cases hm : m' = m
  · subst hm
    simp
  · simp [hm]

theorem update_other (inside : θ × μ → Bool) {t u : θ} (m m' : μ) (b : Bool) (h : u ≠ t) :
    Function.update inside (t, m) b (u, m') = inside (u, m') := by
  apply Function.update_of_ne
  intro heq
  exact h (Prod.mk.inj heq).1

omit [DecidableEq θ] in
theorem init_inv : Inv bypass (State.init : State θ μ) where
  balanced _ := rfl
  owns _ _ h := absurd h Bool.false_ne_true
  owner _ _ h := nomatch h

/- After its own step a thread is balanced, and so are the others. -/
theorem balanced_update {t : θ} {rest : List (Instr μ)} {ins : μ → Bool}
    {inside : θ × μ → Bool}
    (h : ∀ u, Balanced (fun m => s.inside (u, m)) (s.prog u)) (ht : Balanced ins rest)
    (hown : (fun m => inside (t, m)) = ins)
    (hother : ∀ u m, u ≠ t → inside (u, m) = s.inside (u, m)) (u : θ) :
    Balanced (fun m => inside (u, m)) (Function.update s.prog t rest u) := by
  by_cases hu : u = t
  · subst hu
    rw [Function.update_self, hown]
    exact ht
  · rw [Function.update_of_ne hu]
    simp only [hother u _ hu]
    exact h u

theorem lock_inv {t : θ} {m : μ} {rest : List (Instr μ)} {owner : Option θ} (h : Inv bypass s)
    (hops : ops.Lawful bypass) (hprog : s.prog t = .lock m :: rest)
    (hlock : ops.lock t m (s.owner m) = some owner) :
    Inv bypass ⟨Function.update s.owner m owner, Function.update s.prog t rest,
      Function.update s.inside (t, m) true⟩ := by
  have hbal := h.balanced t
  rw [hprog] at hbal
  have hbalanced := balanced_update h.balanced hbal.2 (update_own s.inside t m true)
    fun u m' hu => update_other s.inside m m' true hu
  by_cases hby : bypass t m
  · obtain rfl : s.owner m = owner := Option.some.inj ((hops.bypassed t m _ hby).symm.trans hlock)
    refine ⟨hbalanced, fun u m' hin hno => ?_, fun u m' howner => ?_⟩
    · have hne : (u, m') ≠ (t, m) := by
        rintro heq
        obtain ⟨rfl, rfl⟩ := Prod.mk.inj heq
        exact hno hby
      dsimp only at hin ⊢
      rw [Function.update_of_ne hne] at hin
      rw [Function.update_eq_self]
      exact h.owns u m' hin hno
    · dsimp only at howner ⊢
      rw [Function.update_eq_self] at howner
      obtain ⟨hin, hno⟩ := h.owner u m' howner
      refine ⟨?_, hno⟩
      by_cases heq : (u, m') = (t, m)
      · simp [heq]
      · simp [Function.update_of_ne heq, hin]
  · have hnone : s.owner m = none := by
      cases howner : s.owner m with
      | none => rfl
      | some u =>
        rw [howner, hops.taken t m u hby] at hlock
        cases hlock
    rw [hnone, hops.free t m hby] at hlock
    obtain rfl := Option.some.inj hlock
    refine ⟨hbalanced, fun u m' hin hno => ?_, fun u m' howner => ?_⟩
    · dsimp only at hin ⊢
      by_cases hm : m' = m
      · subst hm
        by_cases hu : u = t
        · rw [hu, Function.update_self]
        · rw [update_other _ _ _ _ hu] at hin
          have := h.owns u m' hin hno
          rw [hnone] at this
          cases this
      · rw [Function.update_of_ne (by simp [hm])] at hin
        rw [Function.update_of_ne hm]
        exact h.owns u m' hin hno
    · dsimp only at howner ⊢
      by_cases hm : m' = m
      · subst hm
        rw [Function.update_self] at howner
        obtain rfl := Option.some.inj howner
        exact ⟨Function.update_self .., hby⟩
      · rw [Function.update_of_ne hm] at howner
        obtain ⟨hin, hno⟩ := h.owner u m' howner
        exact ⟨by rw [Function.update_of_ne (by simp [hm])]; exact hin, hno⟩

/- Alone inside, a thread that unlocks leaves the mutex without an owner. -/
theorem unlock_inv {t : θ} {m : μ} {rest : List (Instr μ)} (released : Bool) (h : Inv bypass s)
    (hops : ops.Lawful bypass) (hex : Exclusive s) (hprog : s.prog t = .unlock m :: rest) :
    Inv bypass ⟨Function.update s.owner m (ops.unlock t m released (s.owner m)),
      Function.update s.prog t rest, Function.update s.inside (t, m) false⟩ := by
  have hbal := h.balanced t
  rw [hprog] at hbal
  have hbalanced := balanced_update h.balanced hbal.2 (update_own s.inside t m false)
    fun u m' hu => update_other s.inside m m' false hu
  have hnone : ops.unlock t m released (s.owner m) = none := by
    cases howner : s.owner m with
    | none => exact hops.open_ t m released
    | some u =>
      obtain rfl := hex m t u hbal.1 (h.owner u m howner).1
      exact hops.own t m released
  rw [hnone]
  refine ⟨hbalanced, fun u m' hin hno => ?_, fun u m' howner => ?_⟩
  · dsimp only at hin ⊢
    by_cases hu : (u, m') = (t, m)
    · simp [hu] at hin
    · rw [Function.update_of_ne hu] at hin
      have hm : m' ≠ m := by
        rintro rfl
        exact hu (by rw [hex m' u t hin hbal.1])
      rw [Function.update_of_ne hm]
      exact h.owns u m' hin hno
  · dsimp only at howner ⊢
    by_cases hm : m' = m
    · subst hm
      rw [Function.update_self] at howner
      cases howner
    · rw [Function.update_of_ne hm] at howner
      obtain ⟨hin, hno⟩ := h.owner u m' howner
      exact ⟨by rw [Function.update_of_ne (by simp [hm])]; exact hin, hno⟩

theorem step_inv (hops : ops.Lawful bypass) (hbody : ∀ c, Balanced (fun _ => false) (body c))
    {a : Act θ κ} (h : Inv bypass s) (hex : Exclusive s) (ht : step ops body s a = some s') :
    Inv bypass s' := by
  cases a with
  | call t c =>
    simp only [step] at ht
    split at ht
    · next hidle =>
      obtain rfl := Option.some.inj ht
      have hbal := h.balanced t
      rw [hidle] at hbal
      exact ⟨balanced_update h.balanced (hbody c) hbal fun _ _ _ => rfl, h.owns, h.owner⟩
    · cases ht
  | next t released =>
    cases hprog : s.prog t with
    | nil => simp [step, hprog] at ht
    | cons instr rest =>
      cases instr with
      | work =>
        simp only [step, hprog, Option.some.injEq] at ht
        subst ht
        have hbal := h.balanced t
        rw [hprog] at hbal
        exact ⟨balanced_update h.balanced hbal rfl fun _ _ _ => rfl, h.owns, h.owner⟩
      | lock m =>
        simp only [step, hprog] at ht
        obtain ⟨owner, hlock, rfl⟩ := Option.map_eq_some_iff.mp ht
        exact lock_inv h hops hprog hlock
      | unlock m =>
        simp only [step, hprog, Option.some.injEq] at ht
        subst ht
        exact unlock_inv released h hops hex hprog

/-! ### Exclusion -/

/- A lock keeps exclusion exactly if nobody else is inside; whoever is inside and
does not bypass the mutex owns it, and a lock that does not bypass it would block. -/
theorem lock_exclusive_iff {t : θ} {m : μ} {prog : θ → List (Instr μ)} {owner : Option θ}
    {owners : μ → Option θ} (h : Inv bypass s) (hex : Exclusive s) (hops : ops.Lawful bypass)
    (hlock : ops.lock t m (s.owner m) = some owner) :
    Exclusive ⟨owners, prog, Function.update s.inside (t, m) true⟩ ↔
      ∀ u, u ≠ t → s.inside (u, m) = true → ¬ bypass t m ∧ ¬ bypass u m := by
  constructor
  · intro hafter u hu hin
    refine absurd (hafter m u t ?_ ?_) hu
    · dsimp only
      rw [update_other _ _ _ _ hu]
      exact hin
    · exact Function.update_self ..
  · intro hguard
    have halone : ∀ u, u ≠ t → s.inside (u, m) = false := by
      intro u hu
      by_contra hin
      simp only [Bool.not_eq_false] at hin
      obtain ⟨ht, hu'⟩ := hguard u hu hin
      rw [h.owns u m hin hu', hops.taken t m u ht] at hlock
      cases hlock
    intro m' v w hv hw
    dsimp only at hv hw
    by_cases hm : m' = m
    · subst hm
      have hown (u : θ) (hu : Function.update s.inside (t, m') true (u, m') = true) : u = t := by
        by_contra hne
        rw [update_other _ _ _ _ hne, halone u hne] at hu
        cases hu
      rw [hown v hv, hown w hw]
    · have hne (u : θ) : (u, m') ≠ (t, m) := by simp [hm]
      rw [Function.update_of_ne (hne v)] at hv
      rw [Function.update_of_ne (hne w)] at hw
      exact hex m' v w hv hw

theorem step_exclusive_iff (hops : ops.Lawful bypass) {a : Act θ κ} (h : Inv bypass s)
    (hex : Exclusive s) (ht : step ops body s a = some s') :
    Exclusive s' ↔ Guarded bypass s a := by
  cases a with
  | call t c =>
    simp only [step] at ht
    split at ht
    · obtain rfl := Option.some.inj ht
      exact iff_of_true hex trivial
    · cases ht
  | next t released =>
    cases hprog : s.prog t with
    | nil => simp [step, hprog] at ht
    | cons instr rest =>
      cases instr with
      | work =>
        simp only [step, hprog, Option.some.injEq] at ht
        subst ht
        exact iff_of_true hex (by simp [Guarded, hprog])
      | lock m =>
        simp only [step, hprog] at ht
        obtain ⟨owner, hlock, rfl⟩ := Option.map_eq_some_iff.mp ht
        rw [lock_exclusive_iff h hex hops hlock]
        simp only [Guarded, hprog]
      | unlock m =>
        simp only [step, hprog, Option.some.injEq] at ht
        subst ht
        refine iff_of_true (fun m' v w hv hw => ?_) (by simp [Guarded, hprog])
        have hin (u : θ) (hu : Function.update s.inside (t, m) false (u, m') = true) :
            s.inside (u, m') = true := by
          by_cases heq : (u, m') = (t, m)
          · simp [heq] at hu
          · rwa [Function.update_of_ne heq] at hu
        exact hex m' v w (hin v hv) (hin w hw)

theorem exclusive_iff_guarded (hops : ops.Lawful bypass)
    (hbody : ∀ c, Balanced (fun _ => false) (body c)) {acts : List (Act θ κ)}
    (hr : (run (step ops body) .init acts).isSome) :
    Throughout (step ops body) Exclusive .init acts ↔
      Along (step ops body) (Guarded bypass) .init acts := by
  apply throughout_iff_along (Inv bypass)
  · intro s a s' hs hex _ ht
    exact step_inv hops hbody hs hex ht
  · intro s a s' hs hex ht
    exact step_exclusive_iff hops hs hex ht
  · exact init_inv
  · intro m t u ht
    cases ht
  · exact hr

/- Where nobody bypasses a mutex the sections exclude each other. -/
theorem exclusive_of_no_bypass (hops : ops.Lawful fun _ _ => False)
    (hbody : ∀ c, Balanced (fun _ => false) (body c)) {acts : List (Act θ κ)}
    (hr : (run (step ops body) .init acts).isSome) :
    Throughout (step ops body) Exclusive .init acts := by
  rw [exclusive_iff_guarded hops hbody hr]
  apply along_of_inv (fun _ => True) (fun _ _ _ _ _ => trivial) _ trivial
  intro s a _
  cases a with
  | call t c => trivial
  | next t released =>
    simp only [Guarded]
    split
    · exact fun _ _ _ => ⟨id, id⟩
    · trivial

/-! ### All interleavings of given calls -/

/-- The threads make no other calls than those of `calls`. -/
def Makes (calls : θ → κ → Prop) : Act θ κ → Prop
  | .call t c => calls t c
  | .next _ _ => True

/-- `t` makes a call that locks `m`. -/
def Locks (body : κ → List (Instr μ)) (calls : θ → κ → Prop) (t : θ) (m : μ) : Prop :=
  ∃ c, calls t c ∧ .lock m ∈ body c

/-- The sections that `t` is in, and those before it, are of its calls. -/
structure Within (locks : θ → μ → Prop) (s : State θ μ) : Prop where
  inside : ∀ t m, s.inside (t, m) = true → locks t m
  prog : ∀ t m, .lock m ∈ s.prog t → locks t m

omit [DecidableEq θ] [DecidableEq μ] in
theorem init_within (locks : θ → μ → Prop) : Within locks (State.init : State θ μ) where
  inside _ _ h := absurd h Bool.false_ne_true
  prog _ _ h := absurd h List.not_mem_nil

/- What a step of a thread with a next instruction is. -/
theorem next_cases {t : θ} {released : Bool}
    (ht : step ops body s (.next t released) = some s') :
    ∃ i rest, s.prog t = i :: rest ∧ s'.prog = Function.update s.prog t rest ∧
      (∀ u m, u ≠ t → s'.inside (u, m) = s.inside (u, m)) ∧
      (∀ m, s'.inside (t, m) = true → s.inside (t, m) = true ∨ i = .lock m) ∧
      ∀ m, i = .lock m → s'.inside (t, m) = true := by
  cases hprog : s.prog t with
  | nil => simp [step, hprog] at ht
  | cons i rest =>
    refine ⟨i, rest, rfl, ?_⟩
    cases i with
    | work =>
      simp only [step, hprog, Option.some.injEq] at ht
      subst ht
      exact ⟨rfl, fun _ _ _ => rfl, fun _ h => .inl h, fun _ h => by cases h⟩
    | lock m =>
      simp only [step, hprog] at ht
      obtain ⟨owner, -, rfl⟩ := Option.map_eq_some_iff.mp ht
      refine ⟨rfl, fun u m' hu => update_other _ m m' true hu, fun m' h => ?_, fun m' h => ?_⟩
      · by_cases hm : m' = m
        · exact .inr (by rw [hm])
        · dsimp only at h
          rw [Function.update_of_ne (by simp [hm])] at h
          exact .inl h
      · obtain rfl := Instr.lock.inj h
        exact Function.update_self ..
    | unlock m =>
      simp only [step, hprog, Option.some.injEq] at ht
      subst ht
      refine ⟨rfl, fun u m' hu => update_other _ m m' false hu, fun m' h => .inl ?_,
        fun _ h => by cases h⟩
      by_cases hm : m' = m
      · simp [hm] at h
      · dsimp only at h
        rwa [Function.update_of_ne (by simp [hm])] at h

theorem step_within {calls : θ → κ → Prop} {a : Act θ κ} (h : Within (Locks body calls) s)
    (hmakes : Makes calls a) (ht : step ops body s a = some s') :
    Within (Locks body calls) s' := by
  cases a with
  | call t c =>
    simp only [step, Option.ite_none_right_eq_some, Option.some.injEq] at ht
    obtain ⟨-, rfl⟩ := ht
    refine ⟨h.inside, fun u m hm => ?_⟩
    dsimp only at hm
    by_cases hu : u = t
    · rw [hu, Function.update_self] at hm
      exact hu ▸ ⟨c, hmakes, hm⟩
    · rw [Function.update_of_ne hu] at hm
      exact h.prog u m hm
  | next t released =>
    obtain ⟨i, rest, hprog, hrest, hother, hinside, -⟩ := next_cases ht
    refine ⟨fun u m hm => ?_, fun u m hm => ?_⟩
    · by_cases hu : u = t
      · subst hu
        rcases hinside m hm with hm | rfl
        · exact h.inside u m hm
        · exact h.prog u m (hprog ▸ List.mem_cons_self)
      · exact h.inside u m (hother u m hu ▸ hm)
    · rw [hrest] at hm
      by_cases hu : u = t
      · subst hu
        rw [Function.update_self] at hm
        exact h.prog u m (hprog ▸ List.mem_cons_of_mem i hm)
      · rw [Function.update_of_ne hu] at hm
        exact h.prog u m hm

omit [DecidableEq θ] [DecidableEq μ] in
/- Where no thread locks what another one bypasses, every step is guarded. -/
theorem guarded_of_apart {locks : θ → μ → Prop}
    (hapart : ∀ t u m, bypass t m → t ≠ u → locks t m → ¬ locks u m) (h : Within locks s)
    (a : Act θ κ) : Guarded bypass s a := by
  cases a with
  | call t c => trivial
  | next t released =>
    cases hprog : s.prog t with
    | nil => simp [Guarded, hprog]
    | cons i rest =>
      cases i with
      | lock m =>
        simp only [Guarded, hprog]
        intro u hu hin
        have hlocks := h.prog t m (hprog ▸ List.mem_cons_self)
        have hlocks' := h.inside u m hin
        exact ⟨fun hby => hapart t u m hby hu.symm hlocks hlocks',
          fun hby => hapart u t m hby hu hlocks' hlocks⟩
      | work => simp [Guarded, hprog]
      | unlock m => simp [Guarded, hprog]

theorem along_guarded {calls : θ → κ → Prop}
    (hapart : ∀ t u m, bypass t m → t ≠ u → Locks body calls t m → ¬ Locks body calls u m)
    {acts : List (Act θ κ)} (hmakes : ∀ a ∈ acts, Makes calls a)
    (h : Within (Locks body calls) s) : Along (step ops body) (Guarded bypass) s acts := by
  induction acts generalizing s with
  | nil => trivial
  | cons a acts ih =>
    refine ⟨guarded_of_apart hapart h a, fun t ht => ?_⟩
    exact ih (fun b hb => hmakes b (List.mem_cons_of_mem a hb))
      (step_within h (hmakes a List.mem_cons_self) ht)

/- A thread that no lock blocks comes into each section of its body by itself. The
induction is on what is left of the body, `J` says why no lock blocks. -/
theorem run_into_section {t : θ} {m : μ} (J : State θ μ → Prop)
    (hfree : ∀ s m rest, J s → s.prog t = .lock m :: rest →
      (ops.lock t m (s.owner m)).isSome)
    (hkeep : ∀ s s', J s → step ops body s (.next t false : Act θ κ) = some s' → J s')
    (hs : J s) {prog : List (Instr μ)} (hprog : s.prog t = prog) (hm : .lock m ∈ prog) :
    ∃ k s', run (step ops body) s (List.replicate k (.next t false)) = some s' ∧
      s'.inside (t, m) = true ∧ ∀ u, u ≠ t →
        (∀ m, s'.inside (u, m) = s.inside (u, m)) ∧ s'.prog u = s.prog u := by
  induction prog generalizing s with
  | nil => cases hm
  | cons i rest ih =>
    have hnext : (step ops body s (.next t false : Act θ κ)).isSome := by
      cases i with
      | work => simp only [step, hprog, Option.isSome_some]
      | lock m => simpa only [step, hprog, Option.isSome_map] using hfree s m rest hs hprog
      | unlock m => simp only [step, hprog, Option.isSome_some]
    obtain ⟨s', hs'⟩ := Option.isSome_iff_exists.mp hnext
    obtain ⟨j, rest', hprog', hrest, hother, -, hlock⟩ := next_cases hs'
    obtain ⟨rfl, rfl⟩ := List.cons.inj (hprog.symm.trans hprog')
    have hframe (u : θ) (hu : u ≠ t) :
        (∀ m, s'.inside (u, m) = s.inside (u, m)) ∧ s'.prog u = s.prog u :=
      ⟨fun m => hother u m hu, by rw [hrest, Function.update_of_ne hu]⟩
    rcases List.mem_cons.mp hm with heq | hm
    · exact ⟨1, s', run_cons_some [] hs', hlock m heq.symm, hframe⟩
    · have hrest' : s'.prog t = rest := by rw [hrest, Function.update_self]
      obtain ⟨k, s'', hrun, hin, hframe'⟩ := ih (hkeep s s' hs hs') hrest' hm
      refine ⟨k + 1, s'', ?_, hin, fun u hu => ⟨fun m => ?_, ?_⟩⟩
      · rw [List.replicate_succ]
        exact (run_cons_some _ hs').trans hrun
      · exact ((hframe' u hu).1 m).trans ((hframe u hu).1 m)
      · exact (hframe' u hu).2.trans (hframe u hu).2

/-- No other thread than `u` is in a section. -/
structure Alone (bypass : θ → μ → Prop) (u : θ) (s : State θ μ) : Prop extends Inv bypass s where
  only : ∀ v m, s.inside (v, m) = true → v = u

omit [DecidableEq θ] in
theorem init_alone (u : θ) : Alone bypass u (State.init : State θ μ) where
  toInv := init_inv
  only _ _ h := absurd h Bool.false_ne_true

omit [DecidableEq θ] in
theorem Alone.exclusive {u : θ} (h : Alone bypass u s) : Exclusive s :=
  fun m v w hv hw => (h.only v m hv).trans (h.only w m hw).symm

omit [DecidableEq θ] in
/- It finds the mutex free that it locks next. -/
theorem Alone.lock_isSome {u : θ} {m : μ} {rest : List (Instr μ)} (h : Alone bypass u s)
    (hops : ops.Lawful bypass) (hprog : s.prog u = .lock m :: rest) :
    (ops.lock u m (s.owner m)).isSome := by
  have houtside : s.inside (u, m) = false := by
    have hbal := h.balanced u
    rw [hprog] at hbal
    exact hbal.1
  have hnone : s.owner m = none := by
    cases howner : s.owner m with
    | none => rfl
    | some v =>
      have hin := (h.owner v m howner).1
      rw [h.only v m hin, houtside] at hin
      cases hin
  by_cases hby : bypass u m
  · rw [hops.bypassed u m _ hby]
    rfl
  · rw [hnone, hops.free u m hby]
    rfl

theorem Alone.step {u : θ} {a : Act θ κ} (h : Alone bypass u s) (hops : ops.Lawful bypass)
    (hbody : ∀ c, Balanced (fun _ => false) (body c))
    (hin : ∀ v m, s'.inside (v, m) = true → v ≠ u → s.inside (v, m) = true)
    (ht : step ops body s a = some s') : Alone bypass u s' where
  toInv := step_inv hops hbody h.toInv h.exclusive ht
  only v m hv := by
    by_contra hne
    exact hne (h.only v m (hin v m hv hne))

theorem first_into_section (hops : ops.Lawful bypass)
    (hbody : ∀ c, Balanced (fun _ => false) (body c)) {u : θ} {m : μ} {c : κ}
    (hm : .lock m ∈ body c) :
    ∃ k s, run (step ops body) .init (.call u c :: List.replicate k (.next u false)) = some s ∧
      s.inside (u, m) = true ∧ ∀ t, t ≠ u → s.prog t = [] := by
  have hcall : step ops body .init (.call u c) =
      some { State.init with prog := Function.update (fun _ => []) u (body c) } := rfl
  have hcalled : Alone bypass u
      { State.init with prog := Function.update (fun _ => []) u (body c) } :=
    (init_alone u).step hops hbody (fun _ _ hin _ => hin) hcall
  obtain ⟨k, s, hrun, hin, hframe⟩ := run_into_section (m := m) (Alone bypass u)
    (fun _ _ _ h => h.lock_isSome hops)
    (fun _ _ h ht => by
      obtain ⟨-, -, -, -, hother, -⟩ := next_cases ht
      exact h.step hops hbody (fun v m hv hne => hother v m hne ▸ hv) ht)
    hcalled (by simp) hm
  refine ⟨k, s, (run_cons_some _ hcall).trans hrun, hin, fun t ht => ?_⟩
  rw [(hframe t ht).2]
  simp [ht]

/-- The sections exclude each other in every interleaving of the calls exactly if a
mutex that a thread bypasses is locked by that thread alone. -/
theorem always_exclusive_iff (hops : ops.Lawful bypass)
    (hbody : ∀ c, Balanced (fun _ => false) (body c))
    (hall : ∀ t m m', bypass t m → bypass t m') (calls : θ → κ → Prop) :
    (∀ acts, (∀ a ∈ acts, Makes calls a) → (run (step ops body) .init acts).isSome →
      Throughout (step ops body) Exclusive .init acts) ↔
    ∀ t u m, bypass t m → t ≠ u → Locks body calls t m → ¬ Locks body calls u m := by
  constructor
  · rintro hexclusive t u m hby hne ⟨c, hc, hm⟩ ⟨d, hd, hm'⟩
    obtain ⟨k, s, hs, hin, hidle⟩ := first_into_section hops hbody hm'
    have hcall : step ops body s (.call t c) =
        some { s with prog := Function.update s.prog t (body c) } := by
      rw [step, if_pos (hidle t hne)]
    have hprog : ({ s with prog := Function.update s.prog t (body c) } : State θ μ).prog t =
        body c := Function.update_self ..
    -- `t` passes by every owner
    obtain ⟨l, s', hs', hin', hframe⟩ := run_into_section (t := t) (m := m)
      (fun _ => True) (fun s m' _ _ _ => by rw [hops.bypassed t m' _ (hall t m m' hby)]; rfl)
      (fun _ _ _ _ => trivial) trivial hprog hm
    have hrun : run (step ops body) .init ((.call u d :: List.replicate k (.next u false)) ++
        .call t c :: List.replicate l (.next t false)) = some s' := by
      rw [run_append_some _ hs]
      exact (run_cons_some _ hcall).trans hs'
    refine hne ((hexclusive _ ?_ (Option.isSome_of_eq_some hrun)).last hrun m t u hin' ?_)
    · intro a ha
      simp only [List.cons_append, List.mem_cons, List.mem_append, List.mem_replicate] at ha
      rcases ha with rfl | ⟨-, rfl⟩ | rfl | ⟨-, rfl⟩
      · exact hd
      · trivial
      · exact hc
      · trivial
    · exact ((hframe u hne.symm).1 m).trans hin
  · intro hapart acts hmakes hr
    rw [exclusive_iff_guarded hops hbody hr]
    exact along_guarded hapart hmakes (init_within _)

end Sections
