import MotionDetector.Lib.Delimited
import Mathlib.Data.Nat.Find

/-!
# Frames in slots

A slot is a frame and what follows it, which may hold closing markers but no
opening one. The leftmost scan of slots is the list of their frames, and a whole
slot brings a scan back in step, whatever the scan had left over.
-/

namespace Delimited

variable {α : Type*} {op cl : List α}

def FreeOf (pat xs : List α) : Prop := ∀ i, ¬ OccursAt pat xs i

theorem freeOf_nil {pat : List α} (hp : pat ≠ []) : FreeOf pat [] := by
  intro i hocc
  have hfit := hocc.fits hp
  have hpos := List.length_pos_iff.mpr hp
  rw [List.length_nil] at hfit
  omega

theorem exists_first {pat xs : List α} {b i : ℕ} (hb : b ≤ i) (h : OccursAt pat xs i) :
    ∃ j, IsLeast {j | b ≤ j ∧ OccursAt pat xs j} j := by
  have hex : ∃ j, b ≤ j ∧ OccursAt pat xs j := ⟨i, hb, h⟩
  classical
  exact ⟨Nat.find hex, Nat.find_spec hex, fun j hj => Nat.find_min' hex hj⟩

/-- No marker reaches over the start of an opening one, no opening marker over
the end of a closing one. -/
structure Separated (op cl : List α) : Prop where
  nonempty : 0 < op.length
  length_eq : cl.length = op.length
  opens_opens : ∀ k < op.length, 0 < k → ¬ op.drop k <+: op
  closes_opens : ∀ k < cl.length, 0 < k → ¬ cl.drop k <+: op
  opens_closes : ∀ k < op.length, 0 < k → ¬ op.take k <:+ cl

theorem Separated.op_ne (h : Separated op cl) : op ≠ [] := List.ne_nil_of_length_pos h.nonempty

theorem Separated.cl_ne (h : Separated op cl) : cl ≠ [] :=
  List.ne_nil_of_length_pos (by rw [h.length_eq]; exact h.nonempty)

/- An occurrence reaches over a seam only with a tail that starts the right side. -/
theorem occursAt_seam_right {p q xs ys : List α} {i : ℕ} (hq : q <+: ys)
    (hlen : p.length ≤ q.length) (hno : ∀ k < p.length, 0 < k → ¬ p.drop k <+: q)
    (h : OccursAt p (xs ++ ys) i) : i + p.length ≤ xs.length ∨ xs.length ≤ i := by
  by_contra hcut
  have hdrop : (xs ++ ys).drop xs.length = ys := List.drop_left
  have htail : p.drop (xs.length - i) <+: ys := by
    have hpre := h.drop (xs.length - i)
    rwa [List.drop_drop, show i + (xs.length - i) = xs.length by omega, hdrop] at hpre
  apply hno (xs.length - i) (by omega) (by omega)
  exact List.prefix_of_prefix_length_le htail hq (by rw [List.length_drop]; omega)

/- An occurrence reaches over a seam only with a head that ends the left side. -/
theorem occursAt_seam_left {p q xs ys : List α} {i : ℕ} (hq : q <:+ xs)
    (hlen : p.length ≤ q.length) (hno : ∀ k < p.length, 0 < k → ¬ p.take k <:+ q)
    (h : OccursAt p (xs ++ ys) i) : i + p.length ≤ xs.length ∨ xs.length ≤ i := by
  by_contra hcut
  have hhead : p.take (xs.length - i) = xs.drop i := by
    have hpre := h.take (xs.length - i)
    rw [List.drop_append_of_le_length (by omega), List.take_left' List.length_drop] at hpre
    apply hpre.eq_of_length
    rw [List.length_take, List.length_drop]
    omega
  apply hno (xs.length - i) (by omega) (by omega)
  apply List.suffix_of_suffix_length_le _ hq
  · rw [List.length_take]
    omega
  · rw [hhead]
    exact List.drop_suffix i xs

structure IsFrame (op cl f : List α) : Prop where
  fits : cl.length ≤ f.length
  opens : ∀ j, OccursAt op f j ↔ j = 0
  closes : ∀ j, OccursAt cl f j ↔ j + cl.length = f.length

theorem IsFrame.starts {f : List α} (h : IsFrame op cl f) : op <+: f := (h.opens 0).mpr rfl

theorem IsFrame.ends {f : List α} (h : IsFrame op cl f) : cl <:+ f := by
  have hat : OccursAt cl f (f.length - cl.length) :=
    (h.closes _).mpr (Nat.sub_add_cancel h.fits)
  have heq : cl = f.drop (f.length - cl.length) := by
    apply hat.eq_of_length
    have := h.fits
    rw [List.length_drop]
    omega
  rw [heq]
  exact List.drop_suffix _ f

/-- A slot with the frame `f`. -/
def Carries (op cl f slot : List α) : Prop :=
  IsFrame op cl f ∧ ∃ tail, slot = f ++ tail ∧ FreeOf op tail

def Clean (op slot : List α) : Prop := ∀ j, 0 < j → ¬ OccursAt op slot j

theorem Clean.freeOf_drop {slot : List α} (h : Clean op slot) {k : ℕ} (hk : 0 < k) :
    FreeOf op (slot.drop k) :=
  fun j hocc => h (k + j) (by omega) ((occursAt_drop k j).mp hocc)

theorem Carries.clean {f slot : List α} (h : Carries op cl f slot) (hm : Separated op cl) :
    Clean op slot := by
  obtain ⟨hf, tail, rfl, ht⟩ := h
  intro j hj hocc
  rcases occursAt_seam_left hf.ends hm.length_eq.ge hm.opens_closes hocc with hin | hout
  · have hzero := (hf.opens j).mp ((occursAt_append_left tail hin).mp hocc)
    omega
  · obtain ⟨i, rfl⟩ := Nat.exists_eq_add_of_le hout
    exact ht i ((occursAt_append_right f tail i).mp hocc)

/-! ### Scanning slots -/

/- What is left over before a slot goes into its frame from the first opening
marker on. -/
theorem scan_slot_from (hm : Separated op cl) {r f tail : List α} {s : ℕ} (hs : s ≤ r.length)
    (hopen : IsLeast {j | 0 ≤ j ∧ OccursAt op (r ++ (f ++ tail)) j} s)
    (hclose : ∀ j, s ≤ j → ¬ OccursAt cl r j) (hf : IsFrame op cl f) (ht : FreeOf op tail) :
    LeftmostScan op cl (r ++ (f ++ tail)) [r.drop s ++ f] tail := by
  have hfits := hf.fits
  have hop : op <+: f ++ tail := hf.starts.trans (List.prefix_append f tail)
  have hspan : Span op cl (r ++ (f ++ tail)) s (r.length + (f.length - cl.length)) := by
    refine ⟨hopen, ⟨by omega, ?_⟩, ?_⟩
    · rw [occursAt_append_right, occursAt_append_left tail (by omega), hf.closes]
      omega
    · intro j hj
      rcases occursAt_seam_right hop hm.length_eq.le hm.closes_opens hj.2 with hin | hout
      · exact absurd ((occursAt_append_left _ hin).mp hj.2) (hclose j hj.1)
      · obtain ⟨i, rfl⟩ := Nat.exists_eq_add_of_le hout
        have hi := (occursAt_append_right r (f ++ tail) i).mp hj.2
        by_contra hlt
        have hend := (hf.closes i).mp ((occursAt_append_left tail (by omega)).mp hi)
        omega
  have hlen : r.length + (f.length - cl.length) + cl.length = (r ++ f).length := by
    rw [List.length_append]
    omega
  have hrest : LeftmostScan op cl tail [] tail := .stop fun s e h => ht s h.opens.1.2
  have htake : (r ++ (f ++ tail)).take (r ++ f).length = r ++ f := by
    rw [← List.append_assoc, List.take_left]
  have hdrop : (r ++ (f ++ tail)).drop (r ++ f).length = tail := by
    rw [← List.append_assoc, List.drop_left]
  rw [← hdrop, ← hlen] at hrest
  have hscan := LeftmostScan.span hspan hrest
  rwa [hlen, htake, hdrop, List.drop_append_of_le_length hs] at hscan

theorem scan_slot (hm : Separated op cl) {r f slot : List α} (hr : FreeOf op r)
    (h : Carries op cl f slot) :
    ∃ rest, FreeOf op rest ∧ LeftmostScan op cl (r ++ slot) [f] rest := by
  obtain ⟨hf, tail, rfl, ht⟩ := h
  have hop : op <+: f ++ tail := hf.starts.trans (List.prefix_append f tail)
  have hopen : IsLeast {j | 0 ≤ j ∧ OccursAt op (r ++ (f ++ tail)) j} r.length := by
    refine ⟨⟨Nat.zero_le _, (occursAt_append_right r _ 0).mpr hop⟩, fun j hj => ?_⟩
    rcases occursAt_seam_right hop le_rfl hm.opens_opens hj.2 with hin | hout
    · exact absurd ((occursAt_append_left _ hin).mp hj.2) (hr j)
    · exact hout
  have hclose (j : ℕ) (hj : r.length ≤ j) : ¬ OccursAt cl r j := by
    intro hocc
    have := hocc.fits hm.cl_ne
    have := hm.nonempty
    have := hm.length_eq
    omega
  have hscan := scan_slot_from hm le_rfl hopen hclose hf ht
  rw [List.drop_length, List.nil_append] at hscan
  exact ⟨tail, ht, hscan⟩

/-- Out of step, a slot gives one span and the scan is in step again. -/
theorem scan_resync (hm : Separated op cl) {r f slot : List α} (hr : ∀ s e, ¬ Span op cl r s e)
    (h : Carries op cl f slot) :
    ∃ frame rest, FreeOf op rest ∧ LeftmostScan op cl (r ++ slot) [frame] rest := by
  by_cases hfree : FreeOf op r
  · obtain ⟨rest, hrest, hscan⟩ := scan_slot hm hfree h
    exact ⟨f, rest, hrest, hscan⟩
  · obtain ⟨hf, tail, rfl, ht⟩ := h
    obtain ⟨i, hi⟩ := not_forall_not.mp hfree
    obtain ⟨s, hs⟩ := exists_first (Nat.zero_le i) hi
    have hin := hs.1.2.fits hm.op_ne
    -- a closing marker after it would have been the end of a span
    have hclose (j : ℕ) (hj : s ≤ j) : ¬ OccursAt cl r j := by
      intro hocc
      obtain ⟨e, he⟩ := exists_first hj hocc
      exact hr s e ⟨hs, he⟩
    exact ⟨_, tail, ht,
      scan_slot_from hm (by omega) (isLeast_append hm.op_ne hs _) hclose hf ht⟩

/-- The scan of slots, as pairs of the frame and the slot, is their frames. -/
theorem scan_slots (hm : Separated op cl) {slots : List (List α × List α)} {r : List α}
    (hr : FreeOf op r) (h : ∀ s ∈ slots, Carries op cl s.1 s.2) :
    ∃ rest, LeftmostScan op cl (r ++ (slots.map Prod.snd).flatten) (slots.map Prod.fst) rest := by
  induction slots generalizing r with
  | nil =>
    refine ⟨r, ?_⟩
    rw [List.map_nil, List.flatten_nil, List.append_nil]
    exact .stop fun s e hspan => hr s hspan.opens.1.2
  | cons slot slots ih =>
    obtain ⟨mid, hmid, hfirst⟩ := scan_slot hm hr (h slot List.mem_cons_self)
    obtain ⟨rest, hrest⟩ := ih hmid fun s hs => h s (List.mem_cons_of_mem _ hs)
    refine ⟨rest, ?_⟩
    rw [List.map_cons, List.flatten_cons, ← List.append_assoc, List.map_cons]
    exact LeftmostScan.append hm.op_ne hm.cl_ne hfirst hrest

end Delimited
