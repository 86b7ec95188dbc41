import Mathlib.Data.Int.Notation
import Mathlib.Data.List.Basic
import Mathlib.Data.Nat.Notation

/-!
# Formatted output into a buffer

A format is ordinary characters and conversions. What a conversion puts out and
which arguments it takes is left to a formatter, but for `%s` and `%i`.
-/

namespace Printf

/-- An argument; `other` stands for those that are neither a string nor an integer. -/
inductive Arg (α : Type*) where
  | str (s : List Char)
  | int (x : ℤ)
  | other (a : α)

def decimal (x : ℤ) : List Char :=
  if x < 0 then '-' :: Nat.toDigits 10 x.natAbs else Nat.toDigits 10 x.natAbs

theorem decimal_length_le {x : ℤ} (h : x.natAbs < 10000000000) : (decimal x).length ≤ 11 := by
  have hdigits : (Nat.toDigits 10 x.natAbs).length ≤ 10 :=
    (Nat.length_toDigits_le_iff (by decide) (by decide)).mpr h
  unfold decimal
  split
  · rw [List.length_cons]
    omega
  · omega

/-- The conversions, each given by what stands behind its `%`, with the text put
out and the arguments left. -/
structure Formatter (α : Type*) where
  convert : List Char → List (Arg α) → Option (List Char × List (Arg α))
  convert_str : ∀ s args, convert ['s'] (.str s :: args) = some (s, args)
  convert_int : ∀ x args, convert ['i'] (.int x :: args) = some (decimal x, args)

/-- A flag, or part of a width, a precision or a length. -/
def isModifier (c : Char) : Bool := "-+ #'I0123456789.*$hlLqjzt".toList.contains c

variable {α : Type*}

/-- A format as far as it has been read. -/
structure Scan (α : Type*) where
  text : List Char
  /-- What stands behind the `%` of an open conversion. -/
  pending : Option (List Char)
  args : List (Arg α)

def scanChar (F : Formatter α) (s : Scan α) (c : Char) : Option (Scan α) :=
  match s.pending with
  | none =>
    some (if c = '%' then { s with pending := some [] } else { s with text := s.text ++ [c] })
  | some spec =>
    if isModifier c then some { s with pending := some (spec ++ [c]) }
    else (F.convert (spec ++ [c]) s.args).map fun out => ⟨s.text ++ out.1, none, out.2⟩

/-- The rest of a format behind `text`: none when a conversion fails or is left open. -/
def expandFrom (F : Formatter α) (text format : List Char) (args : List (Arg α)) :
    Option (List Char) :=
  (format.foldlM (scanChar F) ⟨text, none, args⟩).bind fun s =>
    if s.pending.isSome then none else some s.text

/-- The text a format stands for. -/
def expand (F : Formatter α) (format : List Char) (args : List (Arg α)) : Option (List Char) :=
  expandFrom F [] format args

def INT_MAX : ℕ := 2147483647

/-- The result and what a buffer of `size` bytes holds in front of its NUL. -/
def vsnprintf (F : Formatter α) (size : ℕ) (format : List Char) (args : List (Arg α)) :
    ℤ × List Char :=
  match expand F format args with
  | none => (-1, [])
  | some text => if text.length ≤ INT_MAX then (text.length, text.take (size - 1)) else (-1, [])

section Expand

variable {F : Formatter α} {text format : List Char} {args : List (Arg α)}

@[simp] theorem expandFrom_nil : expandFrom F text [] args = some text := rfl

theorem expandFrom_ordinary {c : Char} (hc : c ≠ '%') :
    expandFrom F text (c :: format) args = expandFrom F (text ++ [c]) format args := by
  simp [expandFrom, scanChar, hc]

@[simp] theorem expandFrom_str (s : List Char) :
    expandFrom F text ('%' :: 's' :: format) (.str s :: args) =
      expandFrom F (text ++ s) format args := by
  have hs : isModifier 's' = false := by decide
  simp [expandFrom, scanChar, hs, F.convert_str]

@[simp] theorem expandFrom_int (x : ℤ) :
    expandFrom F text ('%' :: 'i' :: format) (.int x :: args) =
      expandFrom F (text ++ decimal x) format args := by
  have hi : isModifier 'i' = false := by decide
  simp [expandFrom, scanChar, hi, F.convert_int]

end Expand

theorem vsnprintf_eq {F : Formatter α} {size : ℕ} {format text : List Char} {args : List (Arg α)}
    (h : expand F format args = some text) (hlen : text.length ≤ INT_MAX) :
    vsnprintf F size format args = ((text.length : ℤ), text.take (size - 1)) := by
  simp only [vsnprintf, h, if_pos hlen]

/-! ### Formats without an open conversion -/

def opens (isOpen : Bool) (c : Char) : Bool := if isOpen then isModifier c else c == '%'

/-- No conversion is open at the end. -/
def Whole (format : List Char) : Prop := format.foldl opens false = false

instance (format : List Char) : Decidable (Whole format) := inferInstanceAs (Decidable (_ = _))

variable {F : Formatter α} {s s' : Scan α} {format : List Char} {args : List (Arg α)}

theorem scanChar_pending {c : Char} (h : scanChar F s c = some s') :
    s'.pending.isSome = opens s.pending.isSome c := by
  unfold scanChar at h
  split at h
  · rename_i hpending
    cases h
    by_cases hc : c = '%'
    · simp [opens, hpending, hc]
    · simp [opens, hpending, hc]
  · rename_i spec hpending
    split at h
    · rename_i hc
      cases h
      simp [opens, hpending, hc]
    · rename_i hc
      obtain ⟨out, -, rfl⟩ := Option.map_eq_some_iff.mp h
      simp [opens, hpending, hc]

theorem foldlM_pending (h : format.foldlM (scanChar F) s = some s') :
    s'.pending.isSome = format.foldl opens s.pending.isSome := by
  induction format generalizing s with
  | nil =>
    cases h
    rfl
  | cons c format ih =>
    obtain ⟨t, hc, hrest⟩ := Option.bind_eq_some_iff.mp h
    rw [ih hrest, scanChar_pending hc, List.foldl_cons]

/- An ordinary character is copied. -/
theorem expand_concat (hwhole : Whole format) {c : Char} (hc : c ≠ '%') :
    expand F (format ++ [c]) args = (expand F format args).map fun text => text ++ [c] := by
  unfold expand expandFrom
  rw [List.foldlM_append]
  cases hscan : format.foldlM (scanChar F) ⟨[], none, args⟩ with
  | none => rfl
  | some s =>
    have hpending : s.pending = none := by
      have h := foldlM_pending hscan
      rw [show List.foldl opens (Option.isSome none) format = false from hwhole] at h
      simpa using h
    simp [scanChar, hpending, hc]

/-- The plain conversions. -/
def plainFormatter : Formatter Empty where
  convert
    | ['s'], .str s :: args => some (s, args)
    | ['i'], .int x :: args => some (decimal x, args)
    | ['d'], .int x :: args => some (decimal x, args)
    | ['%'], args => some (['%'], args)
    | _, _ => none
  convert_str _ _ := rfl
  convert_int _ _ := rfl

end Printf
