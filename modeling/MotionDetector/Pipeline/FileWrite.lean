import MotionDetector.Lib.Transition
import MotionDetector.Pipeline.Image

/-!
# Writing an image to a file (`middleware/image/image.c`)

`file_write_blocking` takes the running total off the size that is left, where it
should take off what the last `write` wrote, and it adds a failure to the total.
-/

namespace MotionDetector

open Transition Pieces

/-- A call of `write` for `request` bytes from `offset` on, with its result. -/
structure Write where
  offset : ℤ
  request : ℕ
  result : ℤ
  deriving DecidableEq, Repr

/-- The locals of `file_write_blocking` at a call of `write`, the calls made so
far and, at the end, the value returned. -/
structure FileWrite where
  wBytes : ℤ
  sizeBuf : ℕ
  writes : List Write
  ret : Option ℤ
  deriving DecidableEq, Repr

def FileWrite.start (size : ℕ) : FileWrite := ⟨0, size, [], none⟩

/-- One round of the loop, given the result of `write`; `int`, `ssize_t` and
`size_t` have 32 bits. -/
def fileWriteStep (size : ℕ) (s : FileWrite) (result : ℤ) : Option FileWrite :=
  if s.ret = none then
    let wBytes := toSsize (toUint32 (s.wBytes + result))
    let sizeBuf := toUint32 (s.sizeBuf - toUint32 wBytes)
    some
      { wBytes := wBytes
        sizeBuf := sizeBuf
        writes := s.writes ++ [⟨s.wBytes, s.sizeBuf, result⟩]
        ret := if toUint32 wBytes < size then none else some wBytes }
  else none

/-- No state if the function returns before it has made as many calls. -/
def fileWriteBlocking (size : ℕ) (results : List ℤ) : Option FileWrite :=
  run (fileWriteStep size) (.start size) results

def Write.Answered (w : Write) : Prop :=
  w.result = -1 ∨ 1 ≤ w.result ∧ w.result ≤ w.request ∧ w.result < 2147483648

instance (w : Write) : Decidable w.Answered := inferInstanceAs (Decidable (_ ∨ _))

def Write.Inside (size : ℕ) (w : Write) : Prop := 0 ≤ w.offset ∧ w.offset + w.request ≤ size

instance (size : ℕ) (w : Write) : Decidable (w.Inside size) := inferInstanceAs (Decidable (_ ∧ _))

def Write.piece (w : Write) : Piece := ⟨w.offset.toNat, w.result.toNat⟩

/-- The state after the first `k` of the results. -/
def after (size : ℕ) (results : ℕ → ℤ) (k : ℕ) : Option FileWrite :=
  fileWriteBlocking size ((List.range k).map results)

structure WritesAll (buf : List UInt8) (results : ℕ → ℤ) : Prop where
  inside : ∀ k s, after buf.length results k = some s → ∀ w ∈ s.writes, w.Inside buf.length
  complete : (∀ k s, after buf.length results k = some s → ∀ w ∈ s.writes, w.result ≠ -1) →
    ∃ k s, after buf.length results k = some s ∧ s.ret = some (buf.length : ℤ) ∧
      (s.writes.map fun w => w.piece.of buf).flatten = buf
  failed : (∃ k s, after buf.length results k = some s ∧ ∃ w ∈ s.writes, w.result = -1) →
    ∃ k s v, after buf.length results k = some s ∧ s.ret = some v ∧ v < 0

/-! ### Before anything wraps -/

/-- The sum of the first `k` results. -/
def total (results : ℕ → ℤ) : ℕ → ℤ
  | 0 => 0
  | k + 1 => total results k + results k

def sumTotals (results : ℕ → ℤ) : ℕ → ℤ
  | 0 => 0
  | k + 1 => sumTotals results k + total results (k + 1)

def writesTo (size : ℕ) (results : ℕ → ℤ) (k : ℕ) : List Write :=
  (List.range k).map fun j => ⟨total results j, (size - sumTotals results j).toNat, results j⟩

/-- The first `k` rounds go on, and what they compute is what it should be. -/
def Good (size : ℕ) (results : ℕ → ℤ) (k : ℕ) : Prop :=
  ∀ j ≤ k, 0 ≤ total results j ∧ total results j < size ∧ total results j < 2147483648 ∧
    sumTotals results j ≤ size

variable {size k m : ℕ} {f : ℕ → ℤ} {s : FileWrite}

theorem writesTo_succ (size : ℕ) (f : ℕ → ℤ) (k : ℕ) :
    writesTo size f (k + 1) =
      writesTo size f k ++ [⟨total f k, (size - sumTotals f k).toNat, f k⟩] := by
  simp [writesTo, List.range_succ]

theorem after_succ (size : ℕ) (f : ℕ → ℤ) (k : ℕ) :
    after size f (k + 1) = (after size f k).bind fun s => fileWriteStep size s (f k) := by
  simp only [after, fileWriteBlocking, List.range_succ, List.map_append, List.map_singleton,
    run_append]
  cases run (fileWriteStep size) (.start size) ((List.range k).map f) with
  | none => rfl
  | some s =>
    rw [Option.bind_some, Option.bind_some, run_cons]
    cases fileWriteStep size s (f k) with
    | none => rfl
    | some t => rfl

/- What the first round behind good ones computes. -/
def nextState (size : ℕ) (f : ℕ → ℤ) (k : ℕ) : FileWrite :=
  let wBytes := toSsize (toUint32 (total f (k + 1)))
  { wBytes := wBytes
    sizeBuf := toUint32 ((size - sumTotals f k).toNat - toUint32 wBytes)
    writes := writesTo size f (k + 1)
    ret := if toUint32 wBytes < size then none else some wBytes }

theorem step_next (size : ℕ) (f : ℕ → ℤ) (k : ℕ) :
    fileWriteStep size ⟨total f k, (size - sumTotals f k).toNat, writesTo size f k, none⟩ (f k) =
      some (nextState size f k) := by
  rw [nextState, writesTo_succ]
  rfl

theorem toUint32_toSsize (z : ℤ) : toUint32 (toSsize (toUint32 z)) = toUint32 z := by
  unfold toSsize toUint32
  split
  · omega
  · omega

theorem Good.mono (h : Good size f k) (hm : m ≤ k) : Good size f m := fun j hj => h j (hj.trans hm)

theorem Good.sum_nonneg (h : Good size f k) : 0 ≤ sumTotals f k := by
  induction k with
  | zero => exact le_rfl
  | succ k ih =>
    have hk := ih (h.mono (Nat.le_succ k))
    have htotal := (h (k + 1) le_rfl).1
    rw [sumTotals]
    omega

theorem Good.next_state (h : Good size f (k + 1)) (hsize : size < 4294967296) :
    nextState size f k =
      ⟨total f (k + 1), (size - sumTotals f (k + 1)).toNat, writesTo size f (k + 1), none⟩ := by
  obtain ⟨hpos, hlt, hint, hsum⟩ := h (k + 1) le_rfl
  have hbefore := (h k (Nat.le_succ k)).2.2.2
  have hnonneg := h.sum_nonneg
  have hnat := toUint32_of_nonneg hpos hint
  have hw : toSsize (toUint32 (total f (k + 1))) = total f (k + 1) := by
    rw [toSsize_of_lt (by omega), hnat]
  have hleft : toUint32 ((size - sumTotals f k).toNat - toUint32 (total f (k + 1))) =
      (size - sumTotals f (k + 1)).toNat := by
    have hsucc : sumTotals f (k + 1) = sumTotals f k + total f (k + 1) := rfl
    rw [hnat, Int.toNat_of_nonneg (by omega)]
    unfold toUint32
    omega
  simp only [nextState, hw, hleft]
  rw [if_pos (by omega)]

theorem after_good (h : Good size f k) (hsize : size < 4294967296) :
    after size f k =
      some ⟨total f k, (size - sumTotals f k).toNat, writesTo size f k, none⟩ := by
  induction k with
  | zero => simp [after, fileWriteBlocking, FileWrite.start, total, sumTotals, writesTo]
  | succ k ih =>
    rw [after_succ, ih (h.mono (Nat.le_succ k)), Option.bind_some, step_next, h.next_state hsize]

theorem after_next (h : Good size f k) (hsize : size < 4294967296) :
    after size f (k + 1) = some (nextState size f k) := by
  rw [after_succ, after_good h hsize, Option.bind_some, step_next]

/-! ### The last good round -/

def Answers (size : ℕ) (f : ℕ → ℤ) : Prop :=
  ∀ k s, after size f k = some s → ∀ w ∈ s.writes, w.Answered

theorem mem_writesTo {w : Write} :
    w ∈ writesTo size f k ↔ ∃ j < k, w = ⟨total f j, (size - sumTotals f j).toNat, f j⟩ := by
  simp only [writesTo, List.mem_map, List.mem_range]
  exact ⟨fun ⟨j, hj, hw⟩ => ⟨j, hj, hw.symm⟩, fun ⟨j, hj, hw⟩ => ⟨j, hj, hw.symm⟩⟩

theorem last_mem_writesTo (size : ℕ) (f : ℕ → ℤ) (k : ℕ) :
    ⟨total f k, (size - sumTotals f k).toNat, f k⟩ ∈ writesTo size f (k + 1) :=
  mem_writesTo.mpr ⟨k, Nat.lt_succ_self k, rfl⟩

theorem Good.answered (h : Good size f k) (hsize : size < 4294967296) (hans : Answers size f) :
    f k = -1 ∨ 1 ≤ f k ∧ f k ≤ size - sumTotals f k ∧ f k < 2147483648 := by
  have hw := hans (k + 1) _ (after_next h hsize)
    _ (last_mem_writesTo size f k)
  have hsum := (h k le_rfl).2.2.2
  simp only [Write.Answered] at hw
  omega

theorem Good.first (h : Good size f k) (hk : 1 ≤ k) (hsize : size < 4294967296)
    (hans : Answers size f) : 1 ≤ total f 1 := by
  have hone := (h 1 hk).1
  have hzero := (h.mono (Nat.zero_le k)).answered hsize hans
  have htotal : total f 1 = f 0 := by simp [total]
  omega

theorem Good.total_le (h : Good size f k) : total f k ≤ sumTotals f k := by
  cases k with
  | zero => exact le_rfl
  | succ k =>
    have hsum := (h.mono (Nat.le_succ k)).sum_nonneg
    rw [sumTotals]
    omega

theorem Good.inside (h : Good size f k) :
    Write.Inside size ⟨total f k, (size - sumTotals f k).toNat, f k⟩ := by
  obtain ⟨hpos, -, -, hsum⟩ := h k le_rfl
  have hle := h.total_le
  refine ⟨hpos, ?_⟩
  simp only
  omega

theorem Good.one_le_sum (h : Good size f k) (hk : 1 ≤ k) (hsize : size < 4294967296)
    (hans : Answers size f) : 1 ≤ sumTotals f k := by
  induction k, hk using Nat.le_induction with
  | base => simpa [sumTotals] using h.first le_rfl hsize hans
  | succ k hk ih =>
    have hbefore := ih (h.mono (Nat.le_succ k))
    have htotal := (h (k + 1) le_rfl).1
    rw [sumTotals]
    omega

/- From the third round on the buffer cannot be filled: a request is shorter than
what is left. -/
theorem Good.next_total (h : Good size f k) (hsize : size < 4294967296) (hans : Answers size f) :
    -1 ≤ total f (k + 1) ∧ total f (k + 1) ≤ size ∧ (2 ≤ k → total f (k + 1) < size) := by
  have hanswered := h.answered hsize hans
  have hpos := (h k le_rfl).1
  have hlt := (h k le_rfl).2.1
  have hsucc : total f (k + 1) = total f k + f k := rfl
  refine ⟨by omega, ?_, fun hk => ?_⟩
  · have hle := h.total_le
    omega
  · obtain ⟨j, rfl⟩ : ∃ j, k = j + 1 := ⟨k - 1, by omega⟩
    have hone := (h.mono (Nat.le_succ j)).one_le_sum (by omega) hsize hans
    have hsum : sumTotals f (j + 1) = sumTotals f j + total f (j + 1) := rfl
    omega

/- The sum of the totals grows every two rounds, and it is bounded. -/
theorem exists_last (hpos : 1 ≤ size) (hsize : size < 4294967296) (hans : Answers size f) :
    ∃ k, Good size f k ∧ ¬ Good size f (k + 1) := by
  by_contra hno
  have hgood (k : ℕ) : Good size f k := by
    induction k with
    | zero =>
      intro j hj
      obtain rfl := Nat.le_zero.mp hj
      simp only [total, sumTotals]
      omega
    | succ k ih =>
      by_contra hk
      exact hno ⟨k, ih, hk⟩
  have hgrow (m : ℕ) : (m : ℤ) ≤ sumTotals f (2 * m) := by
    induction m with
    | zero => exact le_rfl
    | succ m ih =>
      have hone := (hgood (2 * m + 1) _ le_rfl).1
      have htwo := (hgood (2 * m + 2) _ le_rfl).1
      have hanswered := (hgood (2 * m + 1)).answered hsize hans
      have hsucc : total f (2 * m + 2) = total f (2 * m + 1) + f (2 * m + 1) := rfl
      have hsum : sumTotals f (2 * (m + 1)) =
          sumTotals f (2 * m) + total f (2 * m + 1) + total f (2 * m + 2) := rfl
      omega
  have hbound := (hgood (2 * (size + 1)) _ le_rfl).2.2.2
  have hlarge := hgrow (size + 1)
  omega

theorem after_returned {v : ℤ} (h : after size f k = some s) (hret : s.ret = some v) (hm : k < m) :
    after size f m = none := by
  induction m with
  | zero => exact absurd hm (Nat.not_lt_zero k)
  | succ m ih =>
    rw [after_succ]
    rcases Nat.lt_or_eq_of_le (Nat.le_of_lt_succ hm) with hlt | rfl
    · rw [ih hlt]
      rfl
    · rw [h, Option.bind_some, fileWriteStep, if_neg (by rw [hret]; exact nofun)]

theorem ret_unique {t : FileWrite} {v v' : ℤ} (hs : after size f k = some s)
    (hret : s.ret = some v) (ht : after size f m = some t) (hret' : t.ret = some v') : s = t := by
  rcases Nat.lt_trichotomy k m with hlt | rfl | hgt
  · rw [after_returned hs hret hlt] at ht
    cases ht
  · rw [hs] at ht
    exact Option.some.inj ht
  · rw [after_returned ht hret' hgt] at hs
    cases hs

theorem writes_mono {t : FileWrite} (hs : after size f k = some s) (ht : after size f m = some t)
    (hm : m ≤ k) : t.writes <+: s.writes := by
  induction k generalizing s with
  | zero =>
    obtain rfl := Nat.le_zero.mp hm
    obtain rfl : t = s := Option.some.inj (ht.symm.trans hs)
    exact List.prefix_refl _
  | succ k ih =>
    rcases Nat.lt_or_eq_of_le hm with hlt | rfl
    · rw [after_succ] at hs
      obtain ⟨u, hu, hstep⟩ := Option.bind_eq_some_iff.mp hs
      refine (ih hu (Nat.le_of_lt_succ hlt)).trans ?_
      simp only [fileWriteStep, Option.ite_none_right_eq_some, Option.some.injEq] at hstep
      obtain ⟨-, rfl⟩ := hstep
      exact List.prefix_append _ _
    · obtain rfl : t = s := Option.some.inj (ht.symm.trans hs)
      exact List.prefix_refl _

/- The calls made at the return are all calls. -/
theorem writes_of_returned {t : FileWrite} {v : ℤ} (hs : after size f k = some s)
    (hret : s.ret = some v) (ht : after size f m = some t) : t.writes <+: s.writes := by
  rcases Nat.lt_or_ge k m with hlt | hge
  · rw [after_returned hs hret hlt] at ht
    cases ht
  · exact writes_mono hs ht hge

theorem answers_of_returned {v : ℤ} (hs : after size f k = some s) (hret : s.ret = some v)
    (hans : ∀ w ∈ s.writes, w.Answered) : Answers size f :=
  fun _ _ ht w hw => hans w ((writes_of_returned hs hret ht).subset hw)

theorem Good.mem_of_returned (h : Good size f k) (hsize : size < 4294967296) {v : ℤ}
    (hret : (nextState size f k).ret = some v) {t : FileWrite} (ht : after size f m = some t)
    {w : Write} (hw : w ∈ t.writes) :
    ∃ j ≤ k, w = ⟨total f j, (size - sumTotals f j).toNat, f j⟩ := by
  have hmem := (writes_of_returned (after_next h hsize) hret ht).subset hw
  obtain ⟨j, hj, hw⟩ := mem_writesTo.mp hmem
  exact ⟨j, Nat.le_of_lt_succ hj, hw⟩

theorem Good.inside_of_returned (h : Good size f k) (hsize : size < 4294967296) {v : ℤ}
    (hret : (nextState size f k).ret = some v) {t : FileWrite} (ht : after size f m = some t)
    {w : Write} (hw : w ∈ t.writes) : w.Inside size := by
  obtain ⟨j, hj, rfl⟩ := h.mem_of_returned hsize hret ht hw
  exact (h.mono hj).inside

/-! ### The three ways on from there -/

variable {buf : List UInt8}

theorem nextState_ret (size : ℕ) (f : ℕ → ℤ) (k : ℕ) :
    (nextState size f k).ret =
      if toUint32 (total f (k + 1)) < size then none
      else some (toSsize (toUint32 (total f (k + 1)))) := by
  simp only [nextState, toUint32_toSsize]

/- The total becomes negative, and is returned. -/
theorem writesAll_of_negative (hsize : buf.length < 4294967296) (hans : Answers buf.length f)
    (h : Good buf.length f k) (htotal : total f (k + 1) = -1) : WritesAll buf f := by
  have hunsigned : toUint32 (-1) = 4294967295 := by decide
  have hret : (nextState buf.length f k).ret = some (-1) := by
    rw [nextState_ret, htotal, hunsigned, if_neg (by omega)]
    rfl
  refine ⟨fun m t ht w hw => h.inside_of_returned hsize hret ht hw, fun hno => ?_,
    fun _ => ⟨k + 1, _, -1, after_next h hsize, hret, by decide⟩⟩
  -- the last result is a failure
  have hpos := (h k le_rfl).1
  have hsucc : total f (k + 1) = total f k + f k := rfl
  have hanswered := h.answered hsize hans
  refine absurd ?_ (hno (k + 1) _ (after_next h hsize) _ (last_mem_writesTo _ f k))
  simp only
  omega

/- The buffer is full after one or two rounds. -/
theorem Good.full (h : Good size f k) (hsize : size < 4294967296) (hans : Answers size f)
    (htotal : total f (k + 1) = size) :
    k = 0 ∧ f 0 = size ∨ k = 1 ∧ 1 ≤ f 0 ∧ 1 ≤ f 1 ∧ f 0 + f 1 = size := by
  have hlt := (h.next_total hsize hans).2.2
  have hk : k < 2 := by
    by_contra hge
    have := hlt (by omega)
    omega
  have hone : total f 1 = f 0 := by simp [total]
  have htwo : total f (1 + 1) = f 0 + f 1 := by simp [total]
  rcases (show k = 0 ∨ k = 1 by omega) with rfl | rfl
  · exact .inl ⟨rfl, hone.symm.trans htotal⟩
  · have hfirst := h.first le_rfl hsize hans
    have hless := (h 1 le_rfl).2.1
    exact .inr ⟨rfl, by omega, by omega, htwo.symm.trans htotal⟩

theorem Good.full_chain (h : Good size f k) (hsize : size < 4294967296) (hans : Answers size f)
    (htotal : total f (k + 1) = size) :
    Chain 0 ((writesTo size f (k + 1)).map Write.piece) size := by
  rcases h.full hsize hans htotal with ⟨rfl, hzero⟩ | ⟨rfl, hzero, hone, hsum⟩
  · have hend : 0 + (f 0).toNat = size := by omega
    exact .cons rfl (hend ▸ .nil _)
  · have hfirst : (total f 1).toNat = 0 + (f 0).toNat := by simp [total]
    have hend : 0 + (f 0).toNat + (f 1).toNat = size := by omega
    exact .cons rfl (.cons hfirst (hend ▸ .nil _))

theorem writesAll_of_full_iff (hsize : buf.length < 4294967296) (hans : Answers buf.length f)
    (h : Good buf.length f k) (htotal : total f (k + 1) = buf.length) :
    WritesAll buf f ↔ buf.length < 2147483648 := by
  have hfull := h.full hsize hans htotal
  have hunsigned : toUint32 (buf.length : ℤ) = buf.length := by
    unfold toUint32
    omega
  have hret : (nextState buf.length f k).ret = some (toSsize buf.length) := by
    rw [nextState_ret, htotal, hunsigned, if_neg (lt_irrefl _)]
  have hno (m : ℕ) (t : FileWrite) (ht : after buf.length f m = some t) (w : Write)
      (hw : w ∈ t.writes) : w.result ≠ -1 := by
    obtain ⟨j, hj, rfl⟩ := h.mem_of_returned hsize hret ht hw
    rcases hfull with ⟨rfl, hzero⟩ | ⟨rfl, hzero, hone, -⟩
    · obtain rfl := Nat.le_zero.mp hj
      simp only
      omega
    · rcases (show j = 0 ∨ j = 1 by omega) with rfl | rfl
      · simp only
        omega
      · simp only
        omega
  constructor
  · intro hall
    obtain ⟨m, t, ht, hvalue, -⟩ := hall.complete hno
    rw [← ret_unique (after_next h hsize) hret ht hvalue, hret, Option.some.injEq] at hvalue
    unfold toSsize at hvalue
    split at hvalue
    · assumption
    · omega
  · intro hint
    refine ⟨fun m t ht w hw => h.inside_of_returned hsize hret ht hw,
      fun _ => ⟨k + 1, _, after_next h hsize, ?_, ?_⟩, fun ⟨m, t, ht, w, hw, hfail⟩ => ?_⟩
    · rw [hret, toSsize_of_lt hint]
    · have hflat := (h.full_chain hsize hans htotal).flatten_zero buf
      rw [List.map_map, List.take_length] at hflat
      exact hflat
    · exact absurd hfail (hno m t ht w hw)

/- The round behind the good ones makes another call. -/
theorem Good.after_less (h : Good size f k) (hsize : size < 4294967296)
    (hpos : 0 ≤ total f (k + 1)) (hless : total f (k + 1) < size) :
    (toUint32 (total f (k + 1)) : ℤ) = total f (k + 1) ∧
      ∃ s, after size f (k + 2) = some s ∧
        ⟨(nextState size f k).wBytes, (nextState size f k).sizeBuf, f (k + 1)⟩ ∈ s.writes := by
  have hunsigned : (toUint32 (total f (k + 1)) : ℤ) = total f (k + 1) := by
    unfold toUint32
    omega
  have hret : (nextState size f k).ret = none := by
    rw [nextState_ret, if_pos (by omega)]
  have hafter : after size f (k + 2) = fileWriteStep size (nextState size f k) (f (k + 1)) := by
    rw [after_succ, after_next h hsize, Option.bind_some]
  rw [fileWriteStep, if_pos hret] at hafter
  exact ⟨hunsigned, _, hafter, List.mem_append_right _ (List.mem_singleton_self _)⟩

theorem Good.overflows (h : Good size f k) (hpos : 0 ≤ total f (k + 1))
    (hless : total f (k + 1) < size) (hbad : ¬ Good size f (k + 1)) :
    2147483648 ≤ total f (k + 1) ∨ size < sumTotals f (k + 1) := by
  by_contra hno
  refine hbad fun j hj => ?_
  rcases Nat.lt_or_eq_of_le hj with hlt | rfl
  · exact h j (Nat.le_of_lt_succ hlt)
  · exact ⟨hpos, hless, by omega, by omega⟩

/- The next request is not for the rest of the buffer, as a total is subtracted. -/
theorem not_writesAll_of_less (hsize : buf.length < 4294967296) (h : Good buf.length f k)
    (hpos : 0 ≤ total f (k + 1)) (hless : total f (k + 1) < buf.length)
    (hbad : ¬ Good buf.length f (k + 1)) : ¬ WritesAll buf f := by
  intro hall
  have hsum := (h k le_rfl).2.2.2
  have hsucc : sumTotals f (k + 1) = sumTotals f k + total f (k + 1) := rfl
  have hor := h.overflows hpos hless hbad
  obtain ⟨hunsigned, t, hafter, hmem⟩ := h.after_less hsize hpos hless
  have hinside := hall.inside _ _ hafter _ hmem
  simp only [Write.Inside, nextState, toUint32_toSsize] at hinside
  have hleft : ((buf.length - sumTotals f k).toNat : ℤ) = buf.length - sumTotals f k :=
    Int.toNat_of_nonneg (by omega)
  rw [hleft] at hinside
  have hnonneg := h.sum_nonneg
  have hwhole := hinside.2
  have hoffset := hinside.1
  unfold toSsize at hoffset hwhole
  split at hoffset
  · next hint =>
    rw [if_pos hint] at hwhole
    have hwrapped : (toUint32 (buf.length - sumTotals f k - toUint32 (total f (k + 1))) : ℤ) =
        4294967296 + (buf.length - sumTotals f (k + 1)) := by
      rw [hunsigned]
      unfold toUint32
      omega
    omega
  · omega

/-! ### When the function does its work -/

/-- The first write or the first two fill the buffer, or the failures outnumber
the bytes written before the totals add up to more than the size. -/
def FillsOrFails (size : ℕ) (results : ℕ → ℤ) : Prop :=
  size < 2147483648 ∧ (results 0 = size ∨ results 0 + results 1 = size) ∨
    ∃ n, total results n = -1 ∧ ∀ k < n, 0 ≤ total results k ∧ sumTotals results k ≤ size

/- The totals up to `k` are not negative, so a negative one comes later. -/
theorem Good.before_negative (h : Good size f k) {n : ℕ} (hn : total f n = -1) : k < n := by
  by_contra hge
  have hpos := (h n (Nat.le_of_not_lt hge)).1
  omega

theorem fillsOrFails_of_full (hsize : size < 4294967296) (hans : Answers size f)
    (h : Good size f k) (htotal : total f (k + 1) = size) :
    FillsOrFails size f ↔ size < 2147483648 := by
  have hfull := h.full hsize hans htotal
  constructor
  · rintro (⟨hint, -⟩ | ⟨n, hn, hbefore⟩)
    · exact hint
    · rcases hfull with ⟨rfl, hzero⟩ | ⟨rfl, hzero, hone, hsum⟩
      · have hanswered := h.answered hsize hans
        omega
      · have hone : total f 1 = f 0 := by simp [total]
        have hlt := h.before_negative hn
        have hn2 : n ≠ 1 + 1 := by
          rintro rfl
          omega
        have htwo := (hbefore 2 (by omega)).2
        have hsum2 : sumTotals f 2 = total f 1 + total f (1 + 1) := by simp [sumTotals]
        omega
  · intro hint
    refine .inl ⟨hint, ?_⟩
    rcases hfull with ⟨-, hzero⟩ | ⟨-, -, -, hsum⟩
    · exact .inl hzero
    · exact .inr hsum

theorem not_fillsOrFails_of_less (hsize : size < 4294967296) (hans : Answers size f)
    (h : Good size f k) (hpos : 0 ≤ total f (k + 1)) (hless : total f (k + 1) < size)
    (hbad : ¬ Good size f (k + 1)) : ¬ FillsOrFails size f := by
  have hone : total f (0 + 1) = f 0 := by simp [total]
  have htwo : total f (1 + 1) = f 0 + f 1 := by simp [total]
  have hor := h.overflows hpos hless hbad
  have hk : 1 ≤ k := by
    by_contra hzero
    obtain rfl : k = 0 := by omega
    have hanswered := h.answered hsize hans
    have hsum1 : sumTotals f (0 + 1) = total f (0 + 1) := by simp [sumTotals]
    omega
  have hfirst := h.first hk hsize hans
  rintro (⟨-, hzero | hsum⟩ | ⟨n, hn, hbefore⟩)
  · have hlt := (h (0 + 1) hk).2.1
    omega
  · rcases Nat.lt_or_eq_of_le hk with hlt | rfl
    · have hlt2 := (h (1 + 1) hlt).2.1
      omega
    · omega
  · have hafter : k + 1 < n := by
      have hlt := h.before_negative hn
      have hne : n ≠ k + 1 := by
        rintro rfl
        omega
      omega
    have hroom := (hbefore (k + 1) hafter).2
    -- a total that large comes a second time before the failures undo it
    have hlarge : 2147483648 ≤ total f (k + 1) := hor.resolve_right (by omega)
    obtain ⟨-, t, ht, hmem⟩ := h.after_less hsize hpos hless
    have hanswered := hans _ _ ht _ hmem
    simp only [Write.Answered] at hanswered
    have hsucc : total f (k + 1 + 1) = total f (k + 1) + f (k + 1) := rfl
    have hne : n ≠ k + 1 + 1 := by
      rintro rfl
      omega
    have hroom2 := (hbefore (k + 1 + 1) (by omega)).2
    have hsum1 : sumTotals f (k + 1) = sumTotals f k + total f (k + 1) := rfl
    have hsum2 : sumTotals f (k + 1 + 1) = sumTotals f (k + 1) + total f (k + 1 + 1) := rfl
    have hone' := h.one_le_sum hk hsize hans
    omega

/-- For every buffer and every sequence of answers of `write`. -/
theorem file_write_blocking_iff (hpos : 1 ≤ buf.length) (hsize : buf.length < 4294967296)
    (hans : Answers buf.length f) : WritesAll buf f ↔ FillsOrFails buf.length f := by
  obtain ⟨k, h, hbad⟩ := exists_last hpos hsize hans
  obtain ⟨hlow, hhigh, -⟩ := h.next_total hsize hans
  rcases lt_or_ge (total f (k + 1)) 0 with hneg | hnonneg
  · have htotal : total f (k + 1) = -1 := by omega
    refine iff_of_true (writesAll_of_negative hsize hans h htotal)
      (.inr ⟨k + 1, htotal, fun j hj => ?_⟩)
    obtain ⟨hj, -, -, hsum⟩ := h j (Nat.le_of_lt_succ hj)
    exact ⟨hj, hsum⟩
  · rcases lt_or_eq_of_le hhigh with hless | htotal
    · exact iff_of_false (not_writesAll_of_less hsize h hnonneg hless hbad)
        (not_fillsOrFails_of_less hsize hans h hnonneg hless hbad)
    · exact (writesAll_of_full_iff hsize hans h htotal).trans
        (fillsOrFails_of_full hsize hans h htotal).symm

def twoWrites (k : ℕ) : ℤ := if k = 0 then 4 else 6

theorem file_write_blocking_twoWrites : WritesAll (List.replicate 10 7) twoWrites := by
  have hafter : after 10 twoWrites 2 = some ⟨10, 4294967292, [⟨0, 10, 4⟩, ⟨4, 6, 6⟩], some 10⟩ := by
    decide
  have hans : Answers (List.replicate 10 (7 : UInt8)).length twoWrites :=
    answers_of_returned hafter rfl (by decide)
  exact (file_write_blocking_iff (by decide) (by decide) hans).mpr
    (.inl ⟨by decide, .inr (by decide)⟩)

def shortWrites (k : ℕ) : ℤ := if k = 0 then 4 else 3

def failingWrite (k : ℕ) : ℤ := if k = 0 then 4 else if k = 1 then -1 else if k = 2 then 3 else 4

/-- A buffer of 10 bytes: the third request wraps to 4294967295 bytes, and a failure
behind four bytes goes under in the total. -/
theorem file_write_blocking_wraps :
    (Answers 10 shortWrites ∧ ¬ WritesAll (List.replicate 10 7) shortWrites) ∧
      Answers 10 failingWrite ∧ ¬ WritesAll (List.replicate 10 7) failingWrite ∧
      after 10 shortWrites 3 = some ⟨10, 4294967285,
        [⟨0, 10, 4⟩, ⟨4, 6, 3⟩, ⟨7, 4294967295, 3⟩], some 10⟩ ∧
      after 10 failingWrite 4 = some ⟨10, 4294967283,
        [⟨0, 10, 4⟩, ⟨4, 6, -1⟩, ⟨3, 3, 3⟩, ⟨6, 4294967293, 4⟩], some 10⟩ := by
  have hshort : after 10 shortWrites 3 = some ⟨10, 4294967285,
      [⟨0, 10, 4⟩, ⟨4, 6, 3⟩, ⟨7, 4294967295, 3⟩], some 10⟩ := by
    decide
  have hfailing : after 10 failingWrite 4 = some ⟨10, 4294967283,
      [⟨0, 10, 4⟩, ⟨4, 6, -1⟩, ⟨3, 3, 3⟩, ⟨6, 4294967293, 4⟩], some 10⟩ := by
    decide
  refine ⟨⟨answers_of_returned hshort rfl (by decide), fun h => ?_⟩,
    answers_of_returned hfailing rfl (by decide), fun h => ?_, hshort, hfailing⟩
  · exact absurd (h.inside 3 _ hshort ⟨7, 4294967295, 3⟩ (by simp)) (by decide)
  · obtain ⟨k, s, v, hs, hret, hneg⟩ := h.failed ⟨4, _, hfailing, ⟨4, 6, -1⟩, by simp, rfl⟩
    rw [← ret_unique hfailing rfl hs hret] at hret
    rw [← Option.some.inj hret] at hneg
    exact absurd hneg (by decide)

end MotionDetector
