import MotionDetector.Lib.Transition
import Mathlib.Data.List.Induction
import Mathlib.Logic.Function.Basic

/-!
# Atomic objects

Threads call the operations of a shared object. Between the call and its return
the operation takes effect once, at a moment that is not visible, as a function `f` has it.
A machine whose calls and returns are those of a run of the atomic object, with the
effects put in, is linearizable: the operations performed, in the order of their
effects, are a sequential run of the object with the same results.
-/

namespace Linearization

open Transition

variable {θ α β τ : Type*}

/-- Where a thread is: outside, in a call, in a call that has taken effect. -/
inductive Phase (α β : Type*) where
  | outside
  | called (x : α)
  | done (r : β)

def Phase.pending : Phase α β → List β
  | .done r => [r]
  | _ => []

inductive Move (θ α β : Type*) where
  | call (i : θ) (x : α)
  | effect (i : θ)
  | ret (i : θ) (r : β)

/-- The object, the phases of the threads and the operations performed. -/
structure Atomic (θ α β τ : Type*) where
  object : τ
  phase : θ → Phase α β
  performed : List (θ × α × β)

def Atomic.init (b : τ) : Atomic θ α β τ := ⟨b, fun _ => .outside, []⟩

section Results

variable [DecidableEq θ]

def results (i : θ) (performed : List (θ × α × β)) : List β :=
  (performed.filter fun p => p.1 = i).map fun p => p.2.2

def returned (i : θ) (moves : List (Move θ α β)) : List β :=
  moves.filterMap fun m =>
    match m with
    | .ret j r => if j = i then some r else none
    | _ => none

theorem returned_append (i : θ) (moves more : List (Move θ α β)) :
    returned i (moves ++ more) = returned i moves ++ returned i more :=
  List.filterMap_append

theorem results_append (i : θ) (performed : List (θ × α × β)) (p : θ × α × β) :
    results i (performed ++ [p]) = results i performed ++ if p.1 = i then [p.2.2] else [] := by
  by_cases h : p.1 = i
  · simp [results, h]
  · simp [results, h]

end Results

variable [DecidableEq θ] [DecidableEq β] {f : τ → α → β × τ}

def atomicStep (f : τ → α → β × τ) (s : Atomic θ α β τ) : Move θ α β → Option (Atomic θ α β τ)
  | .call i x =>
    match s.phase i with
    | .outside => some { s with phase := Function.update s.phase i (.called x) }
    | _ => none
  | .effect i =>
    match s.phase i with
    | .called x =>
      some {
        object := (f s.object x).2
        phase := Function.update s.phase i (.done (f s.object x).1)
        performed := s.performed ++ [(i, x, (f s.object x).1)] }
    | _ => none
  | .ret i r =>
    match s.phase i with
    | .done r' =>
      if r' = r then some { s with phase := Function.update s.phase i .outside } else none
    | _ => none

/-- One operation of a sequential run, with the result it has to have. -/
def replayStep (f : τ → α → β × τ) (b : τ) (p : θ × α × β) : Option τ :=
  if (f b p.2.1).1 = p.2.2 then some (f b p.2.1).2 else none

theorem step_call {s : Atomic θ α β τ} {i : θ} (x : α) (h : s.phase i = .outside) :
    atomicStep f s (.call i x) =
      some { s with phase := Function.update s.phase i (.called x) } := by
  simp [atomicStep, h]

theorem step_effect {s : Atomic θ α β τ} {i : θ} {x : α} (h : s.phase i = .called x) :
    atomicStep f s (.effect i) = some {
      object := (f s.object x).2
      phase := Function.update s.phase i (.done (f s.object x).1)
      performed := s.performed ++ [(i, x, (f s.object x).1)] } := by
  simp [atomicStep, h]

theorem step_ret {s : Atomic θ α β τ} {i : θ} {r : β} (h : s.phase i = .done r) :
    atomicStep f s (.ret i r) =
      some { s with phase := Function.update s.phase i .outside } := by
  simp [atomicStep, h]

theorem run_effect_ret {s : Atomic θ α β τ} {i : θ} {x : α} (h : s.phase i = .called x) :
    run (atomicStep f) s [.effect i, .ret i (f s.object x).1] = some {
      object := (f s.object x).2
      phase := Function.update s.phase i .outside
      performed := s.performed ++ [(i, x, (f s.object x).1)] } := by
  rw [run_cons_some _ (step_effect h), run_cons_some _ (step_ret (by simp)), run_nil]
  simp

/-- A call that is all one step. -/
theorem run_whole {s : Atomic θ α β τ} {i : θ} (x : α) (h : s.phase i = .outside) :
    run (atomicStep f) s [.call i x, .effect i, .ret i (f s.object x).1] = some {
      object := (f s.object x).2
      phase := s.phase
      performed := s.performed ++ [(i, x, (f s.object x).1)] } := by
  have hcalled : (Function.update s.phase i (.called x)) i = .called x := by simp
  rw [run_cons_some _ (step_call x h), run_effect_ret hcalled]
  simp [← h]

/-! ### The sequential run -/

structure Atomic.Sequential (f : τ → α → β × τ) (b : τ) (moves : List (Move θ α β))
    (s : Atomic θ α β τ) : Prop where
  replay : run (replayStep f) b s.performed = some s.object
  results : ∀ i, results i s.performed = returned i moves ++ (s.phase i).pending

theorem init_sequential (b : τ) :
    Atomic.Sequential f b [] (.init b : Atomic θ α β τ) := ⟨rfl, fun _ => rfl⟩

theorem step_sequential {b : τ} {moves : List (Move θ α β)} {s t : Atomic θ α β τ}
    {m : Move θ α β} (h : s.Sequential f b moves) (ht : atomicStep f s m = some t) :
    t.Sequential f b (moves ++ [m]) := by
  cases m with
  | call i x =>
    simp only [atomicStep] at ht
    split at ht
    · next hphase =>
      cases ht
      refine ⟨h.replay, fun j => ?_⟩
      rw [h.results j, returned_append]
      by_cases hj : j = i
      · subst hj
        simp [returned, hphase, Phase.pending]
      · simp [returned, Function.update_of_ne hj]
    · cases ht
  | effect i =>
    simp only [atomicStep] at ht
    split at ht
    · next x hphase =>
      cases ht
      refine ⟨?_, fun j => ?_⟩
      · rw [run_append_some _ h.replay]
        simp [run_cons, replayStep]
      · rw [results_append, h.results j, returned_append]
        by_cases hj : j = i
        · subst hj
          simp [returned, hphase, Phase.pending]
        · simp [returned, Function.update_of_ne hj, Ne.symm hj]
    · cases ht
  | ret i r =>
    simp only [atomicStep] at ht
    split at ht
    · next r' hphase =>
      split at ht
      · next hr =>
        cases ht
        subst hr
        refine ⟨h.replay, fun j => ?_⟩
        rw [h.results j, returned_append]
        by_cases hj : j = i
        · subst hj
          simp [returned, hphase, Phase.pending]
        · simp [returned, Function.update_of_ne hj, Ne.symm hj]
      · cases ht
    · cases ht

/-- The operations performed are a sequential run of the object, and those of each
thread have the results that its calls returned, in order. -/
theorem run_sequential {b : τ} {moves : List (Move θ α β)} {t : Atomic θ α β τ}
    (hr : run (atomicStep f) (.init b) moves = some t) : t.Sequential f b moves := by
  induction moves using List.reverseRecOn generalizing t with
  | nil =>
    obtain rfl : Atomic.init b = t := by simpa using hr
    exact init_sequential b
  | append_singleton moves m ih =>
    rw [run_append] at hr
    obtain ⟨u, hu, hlast⟩ := Option.bind_eq_some_iff.mp hr
    obtain ⟨v, hv, hrest⟩ := Option.bind_eq_some_iff.mp hlast
    obtain rfl : v = t := by simpa using hrest
    exact step_sequential (ih hu) hv

end Linearization
