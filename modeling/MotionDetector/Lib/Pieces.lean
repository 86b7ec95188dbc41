import Mathlib.Data.List.Basic
import Mathlib.Data.Nat.Notation

/-!
# Buffers handed on in pieces

A writer hands a buffer on piece by piece, each beginning where the one before
it ended. What it hands on is then one piece of the buffer.
-/

namespace Pieces

structure Piece where
  offset : ℕ
  length : ℕ
  deriving DecidableEq, Repr

variable {α : Type*}

def Piece.of (buf : List α) (p : Piece) : List α := (buf.drop p.offset).take p.length

/-- The pieces lead from `start` to `stop` without a gap or an overlap. -/
inductive Chain : ℕ → List Piece → ℕ → Prop where
  | nil (start : ℕ) : Chain start [] start
  | cons {start stop : ℕ} {p : Piece} {l : List Piece} (offset : p.offset = start)
      (rest : Chain (start + p.length) l stop) : Chain start (p :: l) stop

variable {start stop : ℕ} {l : List Piece}

theorem Chain.le (h : Chain start l stop) : start ≤ stop := by
  induction h with
  | nil start => exact Nat.le_refl _
  | cons offset rest ih => exact Nat.le_of_add_right_le ih

theorem Chain.flatten (h : Chain start l stop) (buf : List α) :
    (l.map (Piece.of buf)).flatten = (buf.drop start).take (stop - start) := by
  induction h with
  | nil start => simp
  | @cons start stop p l offset rest ih =>
    have hle := rest.le
    have hsplit : stop - start = p.length + (stop - (start + p.length)) := by omega
    rw [List.map_cons, List.flatten_cons, ih, Piece.of, offset, hsplit, List.take_add,
      List.drop_drop]

/- A chain from the beginning of the buffer. -/
theorem Chain.flatten_zero (h : Chain 0 l stop) (buf : List α) :
    (l.map (Piece.of buf)).flatten = buf.take stop := by
  rw [h.flatten buf, List.drop_zero, Nat.sub_zero]

end Pieces
