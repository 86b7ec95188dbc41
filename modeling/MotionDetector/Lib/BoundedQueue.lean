import MotionDetector.Lib.Transition

/-!
# Bounded queues

At most `cap` items in the order in which they were put in. The reader takes the
head, or it holds the head, looks at it as often as it likes and releases it.
-/

namespace BoundedQueue

open Transition

variable {α : Type*}

/-- `looks` has, with each value looked at, how many had been taken before. -/
structure Queue (α : Type*) where
  items : List α
  held : Bool
  taken : List α
  looks : List (ℕ × α)

inductive QueueOp (α : Type*) where
  | put (x : α)
  | take
  | hold
  | look
  | release

def Queue.empty : Queue α := ⟨[], false, [], []⟩

/-- Refused when there is no room, nothing to read or nothing held. -/
def queueStep (cap : ℕ) (q : Queue α) : QueueOp α → Option (Queue α)
  | .put x => if q.items.length < cap then some { q with items := q.items ++ [x] } else none
  | .take =>
    match q.items with
    | [] => none
    | x :: rest => some { q with items := rest, held := false, taken := q.taken ++ [x] }
  | .hold =>
    match q.items with
    | [] => none
    | _ :: _ => some { q with held := true }
  | .look =>
    match q.items with
    | [] => none
    | x :: _ => if q.held then some { q with looks := q.looks ++ [(q.taken.length, x)] } else none
  | .release =>
    match q.items with
    | [] => none
    | x :: rest =>
      if q.held then some { q with items := rest, held := false, taken := q.taken ++ [x] } else none

def QueueOp.value : QueueOp α → Option α
  | .put x => some x
  | _ => none

def puts (ops : List (QueueOp α)) : List α := ops.filterMap QueueOp.value

/-- The values in the queue and taken from it, `l` being those put in. -/
structure Fifo (cap : ℕ) (l : List α) (q : Queue α) : Prop where
  order : q.taken ++ q.items = l
  room : q.items.length ≤ cap
  looks : ∀ p ∈ q.looks, l[p.1]? = some p.2

variable {cap : ℕ} {q q' : Queue α} {l : List α}

theorem fifo_empty : Fifo cap ([] : List α) .empty := ⟨rfl, Nat.zero_le _, nofun⟩

theorem Fifo.takes (h : Fifo cap l q) {x : α} {rest : List α} (hitems : q.items = x :: rest) :
    Fifo cap l { q with items := rest, held := false, taken := q.taken ++ [x] } where
  order := by
    rw [← h.order, hitems, List.append_assoc, List.singleton_append]
  room := by
    have hroom := h.room
    rw [hitems, List.length_cons] at hroom
    exact Nat.le_of_succ_le hroom
  looks := h.looks

theorem step_fifo (h : Fifo cap l q) {op : QueueOp α} (hstep : queueStep cap q op = some q') :
    Fifo cap (l ++ op.value.toList) q' := by
  have hsame {u : Queue α} (hu : Fifo cap l u) : Fifo cap (l ++ []) u := by
    rw [List.append_nil]
    exact hu
  cases op with
  | put x =>
    simp only [queueStep, Option.ite_none_right_eq_some, Option.some.injEq] at hstep
    obtain ⟨hroom, rfl⟩ := hstep
    refine ⟨?_, ?_, fun p hp => ?_⟩
    · rw [← List.append_assoc, h.order]
      rfl
    · rw [List.length_append, List.length_singleton]
      exact hroom
    · have hlook := h.looks p hp
      rw [List.getElem?_append_left (List.getElem?_eq_some_iff.mp hlook).1]
      exact hlook
  | take =>
    simp only [queueStep] at hstep
    split at hstep
    · cases hstep
    · next x rest hitems =>
      obtain rfl := Option.some.inj hstep
      exact hsame (h.takes hitems)
  | hold =>
    simp only [queueStep] at hstep
    split at hstep
    · cases hstep
    · obtain rfl := Option.some.inj hstep
      exact hsame ⟨h.order, h.room, h.looks⟩
  | look =>
    simp only [queueStep] at hstep
    split at hstep
    · cases hstep
    · next x rest hitems =>
      simp only [Option.ite_none_right_eq_some, Option.some.injEq] at hstep
      obtain ⟨-, rfl⟩ := hstep
      refine hsame ⟨h.order, h.room, fun p hp => ?_⟩
      rcases List.mem_append.mp hp with hp | hp
      · exact h.looks p hp
      · rw [List.mem_singleton.mp hp, ← h.order, hitems]
        simp
  | release =>
    simp only [queueStep] at hstep
    split at hstep
    · cases hstep
    · next x rest hitems =>
      simp only [Option.ite_none_right_eq_some, Option.some.injEq] at hstep
      obtain ⟨-, rfl⟩ := hstep
      exact hsame (h.takes hitems)

/-- First in, first out: the values taken and those left are the values put in,
in their order, and a look sees the next one to be taken. -/
theorem run_fifo {ops : List (QueueOp α)} (h : Fifo cap l q)
    (hrun : run (queueStep cap) q ops = some q') : Fifo cap (l ++ puts ops) q' := by
  induction ops generalizing q l with
  | nil =>
    obtain rfl : q = q' := by simpa using hrun
    simpa [puts] using h
  | cons op ops ih =>
    obtain ⟨u, hu, hrest⟩ := Option.bind_eq_some_iff.mp hrun
    have htail := ih (step_fifo h hu) hrest
    cases hv : op.value with
    | none => simpa [puts, List.filterMap_cons, hv] using htail
    | some x => simpa [puts, List.filterMap_cons, hv] using htail

end BoundedQueue
