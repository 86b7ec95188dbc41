import Mathlib.Data.Nat.Notation
import Mathlib.Tactic.TypeStar

/-!
# Machines that sleep

A machine without input sleeps before some of its steps, and each of these takes
a wake-up. `Ends` tells with how many wake-ups it comes to its end.
-/

namespace Wakeups

variable {σ τ : Type*}

structure Sleeper (σ : Type*) where
  next : σ → σ
  sleeps : σ → Prop
  ended : σ → Prop

/-- From `s` the machine comes to its end with `n` wake-ups or fewer. -/
inductive Ends (m : Sleeper σ) : σ → ℕ → Prop where
  | ended {s : σ} (n : ℕ) (h : m.ended s) : Ends m s n
  | go {s : σ} {n : ℕ} (h : ¬ m.sleeps s) (hnext : Ends m (m.next s) n) : Ends m s n
  | wake {s : σ} {n : ℕ} (h : m.sleeps s) (hnext : Ends m (m.next s) n) : Ends m s (n + 1)

variable {m : Sleeper σ} {s : σ} {n : ℕ}

theorem ends_go_iff (hended : ¬ m.ended s) (hsleeps : ¬ m.sleeps s) :
    Ends m s n ↔ Ends m (m.next s) n := by
  constructor
  · intro h
    cases h with
    | ended _ h => exact absurd h hended
    | go _ hnext => exact hnext
    | wake h _ => exact absurd h hsleeps
  · exact .go hsleeps

theorem ends_wake_iff (hended : ¬ m.ended s) (hsleeps : m.sleeps s) :
    Ends m s (n + 1) ↔ Ends m (m.next s) n := by
  constructor
  · intro h
    cases h with
    | ended _ h => exact absurd h hended
    | go h _ => exact absurd hsleeps h
    | wake _ hnext => exact hnext
  · exact .wake hsleeps

/- Without a wake-up a machine asleep stays where it is. -/
theorem not_ends_asleep (hended : ¬ m.ended s) (hsleeps : m.sleeps s) : ¬ Ends m s 0 := by
  intro h
  cases h with
  | ended _ h => exact hended h
  | go h _ => exact h hsleeps

/-- A machine that is never at an end has none, with any number of wake-ups. -/
theorem not_ends {P : σ → Prop} (hP : ∀ s, P s → ¬ m.ended s ∧ P (m.next s)) (hs : P s) :
    ¬ Ends m s n := by
  intro h
  induction h with
  | ended _ h => exact (hP _ hs).1 h
  | go _ _ ih => exact ih (hP _ hs).2
  | wake _ _ ih => exact ih (hP _ hs).2

/-- The rule for a machine on its way to the end: `need` counts the sleeps before
it, and every step comes closer. -/
theorem ends_iff_need {P : σ → Prop} (rank need : σ → ℕ)
    (hended : ∀ s, P s → m.ended s → need s = 0)
    (hgo : ∀ s, P s → ¬ m.ended s → ¬ m.sleeps s → need (m.next s) = need s)
    (hwake : ∀ s, P s → ¬ m.ended s → m.sleeps s → need s = need (m.next s) + 1)
    (hstep : ∀ s, P s → ¬ m.ended s → P (m.next s) ∧ rank (m.next s) < rank s) (hs : P s) :
    Ends m s n ↔ need s ≤ n := by
  induction hd : rank s using Nat.strongRecOn generalizing s n with
  | ind d ih =>
    by_cases hend : m.ended s
    · rw [hended s hs hend]
      exact ⟨fun _ => Nat.zero_le n, fun _ => .ended n hend⟩
    · obtain ⟨hnext, hlt⟩ := hstep s hs hend
      by_cases hsleeps : m.sleeps s
      · rw [hwake s hs hend hsleeps]
        cases n with
        | zero => exact ⟨fun h => absurd h (not_ends_asleep hend hsleeps), nofun⟩
        | succ n =>
          rw [ends_wake_iff hend hsleeps, ih _ (hd ▸ hlt) hnext rfl]
          exact Nat.succ_le_succ_iff.symm
      · rw [ends_go_iff hend hsleeps, ih _ (hd ▸ hlt) hnext rfl, hgo s hs hend hsleeps]

/-- A machine runs inside another one as it does alone. -/
theorem ends_embed {k : Sleeper τ} (f : σ → τ) (hnext : ∀ s, k.next (f s) = f (m.next s))
    (hsleeps : ∀ s, k.sleeps (f s) ↔ m.sleeps s) (hended : ∀ s, k.ended (f s) ↔ m.ended s) :
    Ends k (f s) n ↔ Ends m s n := by
  constructor
  · intro h
    generalize ht : f s = t at h
    induction h generalizing s with
    | ended n h => exact .ended n ((hended s).mp (ht ▸ h))
    | go h _ ih =>
      subst ht
      exact .go (fun hs => h ((hsleeps s).mpr hs)) (ih (hnext s).symm)
    | wake h _ ih =>
      subst ht
      exact .wake ((hsleeps s).mp h) (ih (hnext s).symm)
  · intro h
    induction h with
    | ended n h => exact .ended n ((hended _).mpr h)
    | go h _ ih => exact .go (fun hs => h ((hsleeps _).mp hs)) (hnext _ ▸ ih)
    | wake h _ ih => exact .wake ((hsleeps _).mpr h) (hnext _ ▸ ih)

end Wakeups
