import Mathlib.Data.List.Basic
import Mathlib.Data.List.Infix
import Mathlib.Data.Nat.Notation

/-!
# Self-delimiting codes

A code word tells where it ends: the decoder finds it in front of any
continuation, and it finds nothing else. So a concatenation of code words has one
reading, and what has arrived of it so far reads as its first words and the
beginning of the next.
-/

namespace SelfDelimiting

variable {α β : Type*}

structure Code (β α : Type*) where
  encode : α → List β
  decode : List β → Option (α × List β)
  decode_encode : ∀ a rest, decode (encode a ++ rest) = some (a, rest)
  decode_sound : ∀ xs a rest, decode xs = some (a, rest) → xs = encode a ++ rest

namespace Code

/-- No code word begins another one. -/
theorem encode_prefix_free (c : Code β α) {a b : α} (h : c.encode a <+: c.encode b) : a = b := by
  obtain ⟨rest, hrest⟩ := h
  have ha := c.decode_encode a rest
  have hb := c.decode_encode b []
  rw [List.append_nil, ← hrest, ha] at hb
  exact congrArg Prod.fst (Option.some.inj hb)

theorem decode_of_short (c : Code β α) {a : α} {p : List β} (hp : p <+: c.encode a)
    (hne : p ≠ c.encode a) : c.decode p = none := by
  cases hd : c.decode p with
  | none => rfl
  | some out =>
    obtain ⟨b, rest⟩ := out
    have hsound := c.decode_sound p b rest hd
    have hb : c.encode b <+: c.encode a := (hsound ▸ List.prefix_append _ _ : _ <+: p).trans hp
    obtain rfl := c.encode_prefix_free hb
    have hle := hp.length_le
    rw [hsound, List.length_append] at hle
    obtain rfl : rest = [] := List.eq_nil_of_length_eq_zero (by omega)
    rw [List.append_nil] at hsound
    exact absurd hsound hne

/-! ### Codes from codes -/

section Literal

variable [DecidableEq β]

/-- What follows `w`, if `xs` begins with it. -/
def strip (w xs : List β) : Option (List β) :=
  if xs.take w.length = w then some (xs.drop w.length) else none

theorem strip_append (w rest : List β) : strip w (w ++ rest) = some rest := by
  simp [strip]

theorem strip_sound {w xs rest : List β} (h : strip w xs = some rest) : xs = w ++ rest := by
  unfold strip at h
  split at h
  · next htake =>
    cases h
    calc xs = xs.take w.length ++ xs.drop w.length := (List.take_append_drop _ _).symm
      _ = w ++ xs.drop w.length := by rw [htake]
  · cases h

/-- The words of `c` between two fixed texts. -/
def enclosed (opening : List β) (c : Code β α) (closing : List β) : Code β α where
  encode a := opening ++ c.encode a ++ closing
  decode xs :=
    (strip opening xs).bind fun xs => (c.decode xs).bind fun out =>
      (strip closing out.2).map fun rest => (out.1, rest)
  decode_encode a rest := by
    rw [List.append_assoc, List.append_assoc, strip_append, Option.bind_some, c.decode_encode,
      Option.bind_some, strip_append, Option.map_some]
  decode_sound xs a rest h := by
    obtain ⟨ys, hys, h⟩ := Option.bind_eq_some_iff.mp h
    obtain ⟨⟨b, zs⟩, hzs, h⟩ := Option.bind_eq_some_iff.mp h
    obtain ⟨tail, htail, h⟩ := Option.map_eq_some_iff.mp h
    cases h
    have hzs := c.decode_sound _ _ _ hzs
    have htail := strip_sound htail
    simp only at htail
    rw [strip_sound hys, hzs, htail, List.append_assoc, List.append_assoc]

end Literal

/-- A list of any elements, behind its length. -/
def counted (c : Code β ℕ) : Code β (List β) where
  encode l := c.encode l.length ++ l
  decode xs :=
    (c.decode xs).bind fun out =>
      if out.1 ≤ out.2.length then some (out.2.take out.1, out.2.drop out.1) else none
  decode_encode l rest := by
    rw [List.append_assoc, c.decode_encode, Option.bind_some]
    simp
  decode_sound xs l rest h := by
    obtain ⟨⟨n, ys⟩, hys, h⟩ := Option.bind_eq_some_iff.mp h
    simp only at h
    split at h
    · next hn =>
      cases h
      have hlen : (ys.take n).length = n := List.length_take_of_le hn
      rw [c.decode_sound _ _ _ hys, hlen, List.append_assoc, List.take_append_drop]
    · cases h

/-! ### Sequences of words -/

/-- The words at the front of `xs` and what is left behind them. -/
def decodeAll (c : Code β α) : ℕ → List β → List α × List β
  | 0, xs => ([], xs)
  | fuel + 1, xs =>
    match c.decode xs with
    | none => ([], xs)
    | some (a, rest) => (a :: (decodeAll c fuel rest).1, (decodeAll c fuel rest).2)

theorem decodeAll_none (c : Code β α) (fuel : ℕ) {xs : List β} (h : c.decode xs = none) :
    c.decodeAll fuel xs = ([], xs) := by
  cases fuel with
  | zero => rfl
  | succ fuel => rw [decodeAll, h]

theorem decodeAll_encode (c : Code β α) (fuel : ℕ) (a : α) (rest : List β) :
    c.decodeAll (fuel + 1) (c.encode a ++ rest) =
      (a :: (c.decodeAll fuel rest).1, (c.decodeAll fuel rest).2) := by
  rw [decodeAll, c.decode_encode]

theorem decode_nil (c : Code β α) (hne : ∀ a, c.encode a ≠ []) : c.decode [] = none := by
  cases hd : c.decode [] with
  | none => rfl
  | some out =>
    have hsound := c.decode_sound [] out.1 out.2 hd
    exact absurd (List.append_eq_nil_iff.mp hsound.symm).1 (hne out.1)

/-- What has arrived of a sequence of words reads as the first of them, and what is
left over is the beginning of the next. -/
theorem decodeAll_prefix (c : Code β α) (hne : ∀ a, c.encode a ≠ []) {l : List α} {p : List β}
    (hp : p <+: l.flatMap c.encode) {fuel : ℕ} (hfuel : p.length ≤ fuel) :
    ∃ k ≤ l.length, ∃ tail, c.decodeAll fuel p = (l.take k, tail) ∧
      p = (l.take k).flatMap c.encode ++ tail ∧
      ∀ a ∈ l[k]?, tail <+: c.encode a ∧ tail ≠ c.encode a := by
  induction l generalizing p fuel with
  | nil =>
    obtain rfl := List.prefix_nil.mp hp
    refine ⟨0, Nat.le_refl _, [], c.decodeAll_none fuel (c.decode_nil hne), rfl, fun a ha => ?_⟩
    cases ha
  | cons a l ih =>
    rw [List.flatMap_cons] at hp
    by_cases hfirst : c.encode a <+: p
    · obtain ⟨p', rfl⟩ := hfirst
      have hrest := (List.prefix_append_right_inj _).mp hp
      have hpos := List.length_pos_iff.mpr (hne a)
      rw [List.length_append] at hfuel
      obtain ⟨fuel, rfl⟩ : ∃ f, fuel = f + 1 := ⟨fuel - 1, by omega⟩
      obtain ⟨k, hk, tail, hdecode, hsplit, hnext⟩ := ih hrest (by omega : p'.length ≤ fuel)
      refine ⟨k + 1, Nat.succ_le_succ hk, tail, ?_, ?_, hnext⟩
      · rw [decodeAll_encode, hdecode]
        rfl
      · rw [List.take_succ_cons, List.flatMap_cons, List.append_assoc, ← hsplit]
    · have hshort : p <+: c.encode a := by
        rcases List.prefix_or_prefix_of_prefix hp (List.prefix_append _ _) with h | h
        · exact h
        · exact absurd h hfirst
      have hne' : p ≠ c.encode a := fun h => hfirst (h ▸ List.prefix_rfl)
      have hnone := c.decodeAll_none fuel (c.decode_of_short hshort hne')
      refine ⟨0, Nat.zero_le _, p, hnone, rfl, fun b hb => ?_⟩
      cases hb
      exact ⟨hshort, hne'⟩

theorem decodeAll_flatMap (c : Code β α) (hne : ∀ a, c.encode a ≠ []) (l : List α) {fuel : ℕ}
    (hfuel : (l.flatMap c.encode).length ≤ fuel) :
    c.decodeAll fuel (l.flatMap c.encode) = (l, []) := by
  induction l generalizing fuel with
  | nil => exact c.decodeAll_none fuel (c.decode_nil hne)
  | cons a l ih =>
    have hpos := List.length_pos_iff.mpr (hne a)
    rw [List.flatMap_cons, List.length_append] at hfuel
    obtain ⟨fuel, rfl⟩ : ∃ f, fuel = f + 1 := ⟨fuel - 1, by omega⟩
    rw [List.flatMap_cons, decodeAll_encode, ih (by omega : (l.flatMap c.encode).length ≤ fuel)]

end Code

/-! ### Numbers -/

def ascii (s : List Char) : List UInt8 := s.map fun c => UInt8.ofNat c.toNat

def digits (n : ℕ) : List UInt8 := ascii (Nat.toDigits 10 n)

def isDigit (b : UInt8) : Bool := 48 ≤ b && b ≤ 57

def value (ds : List UInt8) : ℕ := Nat.ofDigitChars 10 (ds.map fun b => Char.ofNat b.toNat) 0

theorem toDigits_range {n : ℕ} {c : Char} (h : c ∈ Nat.toDigits 10 n) :
    48 ≤ c.toNat ∧ c.toNat ≤ 57 :=
  Char.isDigit_iff_toNat.mp (Nat.isDigit_of_mem_toDigits (by decide) (by decide) h)

theorem digits_isDigit {n : ℕ} {b : UInt8} (h : b ∈ digits n) : isDigit b = true := by
  obtain ⟨c, hc, rfl⟩ := List.mem_map.mp h
  obtain ⟨hlo, hhi⟩ := toDigits_range hc
  have hnat : (UInt8.ofNat c.toNat).toNat = c.toNat := by
    rw [UInt8.toNat_ofNat']
    omega
  simp only [isDigit, Bool.and_eq_true, decide_eq_true_eq, UInt8.le_iff_toNat_le, hnat]
  exact ⟨hlo, hhi⟩

theorem value_digits (n : ℕ) : value (digits n) = n := by
  have hchars : (digits n).map (fun b => Char.ofNat b.toNat) = Nat.toDigits 10 n := by
    rw [digits, ascii, List.map_map]
    refine (List.map_congr_left fun c hc => ?_).trans (List.map_id _)
    obtain ⟨-, hhi⟩ := toDigits_range hc
    have hnat : (UInt8.ofNat c.toNat).toNat = c.toNat := by
      rw [UInt8.toNat_ofNat']
      omega
    simp [hnat]
  rw [value, hchars]
  exact Nat.ofDigitChars_ten_toDigits

/-- A number in decimal and a byte that is no digit. -/
def decimal (stop : UInt8) (hstop : isDigit stop = false) : Code UInt8 ℕ where
  encode n := digits n ++ [stop]
  decode xs :=
    if digits (value (xs.takeWhile isDigit)) = xs.takeWhile isDigit then
      (Code.strip [stop] (xs.dropWhile isDigit)).map fun rest =>
        (value (xs.takeWhile isDigit), rest)
    else none
  decode_encode n rest := by
    have htake : (digits n ++ [stop] ++ rest).takeWhile isDigit = digits n := by
      rw [List.append_assoc, List.takeWhile_append_of_pos fun _ => digits_isDigit]
      simp [hstop]
    have hdrop : (digits n ++ [stop] ++ rest).dropWhile isDigit = [stop] ++ rest := by
      rw [List.append_assoc, List.dropWhile_append_of_pos fun _ => digits_isDigit]
      simp [hstop]
    rw [htake, hdrop, value_digits, if_pos rfl, Code.strip_append, Option.map_some]
  decode_sound xs n rest h := by
    split at h
    · next hdigits =>
      obtain ⟨tail, htail, h⟩ := Option.map_eq_some_iff.mp h
      cases h
      calc xs = xs.takeWhile isDigit ++ xs.dropWhile isDigit :=
            List.takeWhile_append_dropWhile.symm
        _ = digits (value (xs.takeWhile isDigit)) ++ [stop] ++ rest := by
            rw [hdigits, Code.strip_sound htail, List.append_assoc]
    · cases h

end SelfDelimiting
