import Mathlib.Data.List.Infix
import UpaScripts.Verification.SplitYulCode

/-!
# `UpaScripts.Proofs.FindMatchingBrace`: what the brace scan returns

`findMatchingBrace` counts braces from its start position and stops at the `}` that
brings the count back to zero. The count at each step is the start value plus the
`depth` of the characters scanned so far, so the loop is described by the prefix
depths of the text it scans:

* `findMatchingBrace.go_eq_iff`, `findMatchingBrace.go_eq_neg_one_iff`: the loop
  returns the first index at which `ClosesAt` holds, or `-1` when there is none. This
  is the loop invariant, stated once for every start value of the counter.
* `findMatchingBrace.go_append_of_depthAtLeast`: a stretch of text whose depth stays
  positive is passed over; the extractor's proofs use it for balanced code bodies.
* `closesAt_first_iff`: when the scan starts at a `{`, the first `}` that closes is
  the first point where the brace counts are equal, and the depth is positive before
  it. `findMatchingBrace_first_balanced` states the whole result for a start position
  whose first brace is `{`.

`Balanced` is the notion of a balanced brace string in the form the statements use;
`balanced_iff` turns it into the depth form (`DepthAtLeast`) the proofs use.
-/

set_option autoImplicit false

namespace UpaScripts.Verification

open UpaScripts.Python

/-! ### Brace depth -/

/-- What one character adds to the brace count: `1` for `{`, `-1` for `}`. -/
def braceDelta (c : Char) : Int :=
  if c = '{' then 1 else if c = '}' then -1 else 0

/-- The brace depth of a text: how many more `{` than `}` it holds. -/
def depth (s : List Char) : Int :=
  (s.count '{' : Int) - s.count '}'

@[simp] theorem depth_nil : depth [] = 0 := rfl

@[simp] theorem depth_cons (c : Char) (s : List Char) :
    depth (c :: s) = braceDelta c + depth s := by
  by_cases h1 : c = '{'
  · subst h1; simp [depth, braceDelta, List.count_cons]; omega
  · by_cases h2 : c = '}'
    · subst h2; simp [depth, braceDelta, List.count_cons]; omega
    · simp [depth, braceDelta, List.count_cons, h1, h2, Ne.symm h1, Ne.symm h2]

@[simp] theorem depth_append (s t : List Char) : depth (s ++ t) = depth s + depth t := by
  simp only [depth, List.count_append]; omega

theorem braceDelta_eq_neg_one_iff (c : Char) : braceDelta c = -1 ↔ c = '}' := by
  unfold braceDelta; split_ifs <;> simp_all

theorem braceDelta_ge (c : Char) : -1 ≤ braceDelta c := by
  unfold braceDelta; split_ifs <;> omega

/-- A balanced brace string: as many `{` as `}`, and no prefix with more `}` than
`{`. -/
def Balanced (s : List Char) : Prop :=
  s.count '{' = s.count '}' ∧ ∀ p ∈ s.inits, p.count '}' ≤ p.count '{'

instance : DecidablePred Balanced :=
  fun _ => inferInstanceAs (Decidable (_ ∧ _))

/-- Counted from the depth `o`, every prefix of `s` has depth at least `m`. -/
def DepthAtLeast (m o : Int) (s : List Char) : Prop :=
  ∀ n ≤ s.length, m ≤ o + depth (s.take n)

instance (m o : Int) (s : List Char) : Decidable (DepthAtLeast m o s) :=
  inferInstanceAs (Decidable (∀ n ≤ s.length, _))

section DepthAtLeast

variable {m o : Int} {s : List Char}

@[simp] theorem depthAtLeast_nil : DepthAtLeast m o [] ↔ m ≤ o := by
  simp [DepthAtLeast]

@[simp] theorem depthAtLeast_cons (c : Char) :
    DepthAtLeast m o (c :: s) ↔ m ≤ o ∧ DepthAtLeast m (o + braceDelta c) s := by
  refine ⟨fun h => ⟨by simpa using h 0, fun n hn => ?_⟩, fun h n hn => ?_⟩
  · have := h (n + 1) (by simpa using hn)
    simp only [List.take_succ_cons, depth_cons] at this
    omega
  · cases n with
    | zero => simpa using h.1
    | succ n =>
      have := h.2 n (by simpa using hn)
      simp only [List.take_succ_cons, depth_cons]
      omega

theorem depthAtLeast_append (t : List Char) :
    DepthAtLeast m o (s ++ t) ↔ DepthAtLeast m o s ∧ DepthAtLeast m (o + depth s) t := by
  induction s generalizing o with
  | nil => simpa using fun h : DepthAtLeast m o t => by simpa using h 0 (Nat.zero_le _)
  | cons c s ih => simp [ih, Int.add_assoc, and_assoc]

theorem DepthAtLeast.le (h : DepthAtLeast m o s) : m ≤ o := by
  simpa using h 0 (Nat.zero_le _)

end DepthAtLeast

theorem balanced_iff (s : List Char) : Balanced s ↔ depth s = 0 ∧ DepthAtLeast 0 0 s := by
  simp only [Balanced, DepthAtLeast, List.mem_inits, depth, Int.zero_add]
  refine ⟨fun h => ⟨by omega, fun n _ => by have := h.2 _ (List.take_prefix n s); omega⟩,
    fun h => ⟨by omega, fun p hp => ?_⟩⟩
  have := h.2 p.length hp.length_le
  rw [← List.prefix_iff_eq_take.mp hp] at this
  omega

/-- A balanced text keeps every start depth at or above itself. -/
theorem depthAtLeast_of_balanced {s : List Char} (hs : Balanced s) {m o : Int}
    (h : m ≤ o) : DepthAtLeast m o s := by
  intro n hn
  have := ((balanced_iff s).mp hs).2 n hn
  omega

/-! ### The scan loop -/

/-- The scan of the rest `cs`, with the counter at `o`, stops at its `k`-th character:
that character is a `}` and brings the count to zero. -/
def ClosesAt (o : Int) (cs : List Char) (k : Nat) : Prop :=
  cs[k]? = some '}' ∧ o + depth (cs.take (k + 1)) = 0

theorem closesAt_cons_zero (o : Int) (c : Char) (cs : List Char) :
    ClosesAt o (c :: cs) 0 ↔ c = '}' ∧ o - 1 = 0 := by
  by_cases hc : c = '}'
  · subst hc; simp [ClosesAt, braceDelta]; omega
  · simp [ClosesAt, hc]

theorem closesAt_cons_succ (o : Int) (c : Char) (cs : List Char) (k : Nat) :
    ClosesAt o (c :: cs) (k + 1) ↔ ClosesAt (o + braceDelta c) cs k := by
  simp only [ClosesAt, List.getElem?_cons_succ, List.take_succ_cons, depth_cons,
    Int.add_assoc]

theorem closesAt_lt_length {o : Int} {cs : List Char} {k : Nat} (h : ClosesAt o cs k) :
    k < cs.length := by
  by_contra hk
  simp [ClosesAt, List.getElem?_eq_none (Nat.le_of_not_lt hk)] at h

namespace findMatchingBrace

/-- One step of the loop: return at a `}` that brings the count to zero, otherwise move
on with the count changed by the character. -/
theorem go_cons (c : Char) (cs : List Char) (pos : Nat) (o : Int) :
    go (c :: cs) pos o =
      if c = '}' ∧ o - 1 = 0 then (pos : Int) else go cs (pos + 1) (o + braceDelta c) := by
  by_cases h1 : c = '{'
  · subst h1; simp [go, braceDelta]
  · by_cases h2 : c = '}'
    · subst h2; simp [go, braceDelta, Int.sub_eq_add_neg]
    · simp [go, braceDelta, h1, h2]

theorem go_eq_neg_one_or_ge (cs : List Char) (pos : Nat) (o : Int) :
    go cs pos o = -1 ∨ (pos : Int) ≤ go cs pos o := by
  induction cs generalizing pos o with
  | nil => simp [go]
  | cons c cs ih =>
    rw [go_cons]
    split
    · exact .inr (Int.le_refl _)
    · rcases ih (pos + 1) (o + braceDelta c) with h | h <;> omega

theorem go_eq_neg_one_iff (cs : List Char) (pos : Nat) (o : Int) :
    go cs pos o = -1 ↔ ∀ k, ¬ ClosesAt o cs k := by
  induction cs generalizing pos o with
  | nil => simp [go, ClosesAt]
  | cons c cs ih =>
    rw [go_cons]
    split
    · rename_i h
      exact ⟨by omega, fun hk => (hk 0 ((closesAt_cons_zero o c cs).mpr h)).elim⟩
    · rename_i h
      rw [ih]
      refine ⟨fun hk k => ?_, fun hk k => ?_⟩
      · cases k with
        | zero => rwa [closesAt_cons_zero]
        | succ k => rw [closesAt_cons_succ]; exact hk k
      · rw [← closesAt_cons_succ]; exact hk (k + 1)

/-- The loop invariant: the scan of `cs` from `pos`, with the counter at `o`, returns
`pos + k` exactly when `k` is the first index at which the scan closes. -/
theorem go_eq_iff (cs : List Char) (pos : Nat) (o : Int) (k : Nat) :
    go cs pos o = ((pos + k : Nat) : Int) ↔
      ClosesAt o cs k ∧ ∀ j < k, ¬ ClosesAt o cs j := by
  induction cs generalizing pos o k with
  | nil => simp only [go, ClosesAt, List.getElem?_nil]; simp; omega
  | cons c cs ih =>
    rw [go_cons]
    split
    · rename_i h
      have h0 := (closesAt_cons_zero o c cs).mpr h
      cases k with
      | zero => simpa using h0
      | succ k => exact ⟨by omega, fun hk => absurd h0 (hk.2 0 (by omega))⟩
    · rename_i h
      have h0 : ¬ ClosesAt o (c :: cs) 0 := by rwa [closesAt_cons_zero]
      cases k with
      | zero =>
        refine ⟨fun hk => ?_, fun hk => absurd hk.1 h0⟩
        rcases go_eq_neg_one_or_ge cs (pos + 1) (o + braceDelta c) with h' | h' <;> omega
      | succ k =>
        rw [show ((pos + (k + 1) : Nat) : Int) = ((pos + 1 + k : Nat) : Int) by omega, ih,
          closesAt_cons_succ]
        refine ⟨fun hk => ⟨hk.1, fun j hj => ?_⟩,
          fun hk => ⟨hk.1, fun j hj => by rw [← closesAt_cons_succ]; exact hk.2 _ (by omega)⟩⟩
        cases j with
        | zero => exact h0
        | succ j => rw [closesAt_cons_succ]; exact hk.2 j (by omega)

/-- A stretch at which the scan does not close is passed over: the scan goes on after it
with the count changed by its depth. -/
theorem go_append_of_not_closesAt (s rest : List Char) (pos : Nat) (o : Int)
    (hs : ∀ k, ¬ ClosesAt o s k) :
    go (s ++ rest) pos o = go rest (pos + s.length) (o + depth s) := by
  induction s generalizing pos o with
  | nil => simp
  | cons c s ih =>
    have hc : ¬ (c = '}' ∧ o - 1 = 0) := by rw [← closesAt_cons_zero]; exact hs 0
    rw [List.cons_append, go_cons, if_neg hc,
      ih _ _ fun k => by rw [← closesAt_cons_succ]; exact hs (k + 1)]
    simp only [List.length_cons, depth_cons]
    congr 1 <;> omega

/-- A stretch whose depth stays positive is passed over. -/
theorem go_append_of_depthAtLeast (s rest : List Char) (pos : Nat) (o : Int)
    (hs : DepthAtLeast 1 o s) :
    go (s ++ rest) pos o = go rest (pos + s.length) (o + depth s) :=
  go_append_of_not_closesAt s rest pos o fun k hk => by
    have := hs (k + 1) (closesAt_lt_length hk)
    have := hk.2
    omega

end findMatchingBrace

/-! ### Scanning from a `{` -/

section FromOpen

variable {u : List Char}

/-- Before the first index at which the scan from a `{` closes, the depth is positive. The
depth starts at one and moves by at most one a character, and where it would reach zero
the scan closes. -/
theorem depth_take_pos (hu : u[0]? = some '{') {k : Nat} (hk : k < u.length)
    (h : ∀ j < k, ¬ ClosesAt 0 u j) : ∀ j < k, 0 < depth (u.take (j + 1)) := by
  intro j hj
  induction j with
  | zero =>
    rw [List.take_succ, List.take_zero, hu]
    simp [braceDelta]
  | succ j ih =>
    obtain ⟨c, hc⟩ : ∃ c, u[j + 1]? = some c :=
      Option.isSome_iff_exists.mp (by simp [List.getElem?_eq_getElem (show j + 1 < u.length by omega)])
    have hstep : depth (u.take (j + 1 + 1)) = depth (u.take (j + 1)) + braceDelta c := by
      rw [List.take_succ (n := j + 1), hc]; simp
    have hpos := ih (by omega)
    have hge := braceDelta_ge c
    have hne : depth (u.take (j + 1 + 1)) ≠ 0 := fun h0 => h (j + 1) hj
      ⟨by rw [hc, (braceDelta_eq_neg_one_iff c).mp (by omega)], by omega⟩
    omega

/-- From a `{`, the first index at which the scan closes is the first index at which the
brace counts are equal. -/
theorem closesAt_first_iff (hu : u[0]? = some '{') (k : Nat) :
    (ClosesAt 0 u k ∧ ∀ j < k, ¬ ClosesAt 0 u j) ↔
      k < u.length ∧ depth (u.take (k + 1)) = 0 ∧ ∀ j < k, depth (u.take (j + 1)) ≠ 0 := by
  constructor
  · rintro ⟨hk, hfirst⟩
    have hlt := closesAt_lt_length hk
    have hpos := depth_take_pos hu hlt hfirst
    exact ⟨hlt, by simpa using hk.2, fun j hj => by have := hpos j hj; omega⟩
  · rintro ⟨hlt, hzero, hne⟩
    have hnot : ∀ j < k, ¬ ClosesAt 0 u j := fun j hj hc => hne j hj (by simpa using hc.2)
    refine ⟨⟨?_, by simpa using hzero⟩, hnot⟩
    cases k with
    | zero => rw [List.take_succ, List.take_zero, hu] at hzero; simp [braceDelta] at hzero
    | succ k =>
      have hpos := depth_take_pos hu hlt hnot k (by omega)
      obtain ⟨c, hc⟩ : ∃ c, u[k + 1]? = some c :=
        Option.isSome_iff_exists.mp (by simp [List.getElem?_eq_getElem hlt])
      rw [List.take_succ (n := k + 1), hc] at hzero
      simp only [Option.toList_some, depth_append, depth_cons, depth_nil] at hzero
      rw [hc, (braceDelta_eq_neg_one_iff c).mp (by have := braceDelta_ge c; omega)]

/-- From a `{`, the scan never closes exactly when no prefix has equal brace counts. -/
theorem forall_not_closesAt_iff (hu : u[0]? = some '{') :
    (∀ k, ¬ ClosesAt 0 u k) ↔ ∀ k < u.length, depth (u.take (k + 1)) ≠ 0 := by
  refine ⟨fun h k hk hzero => ?_, fun h k hc => h k (closesAt_lt_length hc) (by simpa using hc.2)⟩
  have hpos := depth_take_pos hu hk fun j _ => h j
  exact h k ((closesAt_first_iff hu k).mpr ⟨hk, hzero, fun j hj => by have := hpos j hj; omega⟩).1

end FromOpen

/-! ### The scan from a start position -/

theorem depth_eq_zero_iff (s : List Char) : depth s = 0 ↔ s.count '{' = s.count '}' := by
  unfold depth; omega

theorem depth_pos_iff (s : List Char) : 0 < depth s ↔ s.count '}' < s.count '{' := by
  unfold depth; omega

/-- The text from `f` to `f + k` inclusive is the first `k + 1` characters from `f`. -/
theorem slice_succ_eq_take (t : List Char) (f k : Nat) :
    slice t f (f + k + 1) = (t.drop f).take (k + 1) := by
  simp only [Python.slice]; congr 1; omega

/-- The first brace of `t` at or after index `s` is a `{`, at index `f`. -/
def FirstBraceOpensAt (t : List Char) (s f : Nat) : Prop :=
  s ≤ f ∧ t[f]? = some '{' ∧ ∀ j, s ≤ j → j < f → t[j]? ≠ some '{' ∧ t[j]? ≠ some '}'

instance (t : List Char) (s f : Nat) : Decidable (FirstBraceOpensAt t s f) :=
  inferInstanceAs (Decidable (_ ∧ _ ∧ _))

/-- The scan from `s` passes the characters before the first brace with its count at
zero, and goes on from that brace. -/
theorem findMatchingBrace_eq_go {t : List Char} {s f : Nat} (hf : FirstBraceOpensAt t s f) :
    findMatchingBrace t s = findMatchingBrace.go (t.drop f) f 0 := by
  obtain ⟨hsf, hopen, hnone⟩ := hf
  have hft : f < t.length := by
    by_contra h; rw [List.getElem?_eq_none (by omega)] at hopen; cases hopen
  set w := (t.drop s).take (f - s) with hw
  have hget : ∀ k c, w[k]? = some c → s + k < f ∧ t[s + k]? = some c := by
    intro k c hk
    rw [hw, List.getElem?_take] at hk
    split at hk
    · rw [List.getElem?_drop] at hk; exact ⟨by omega, hk⟩
    · cases hk
  have hno : ∀ c ∈ w, c ≠ '{' ∧ c ≠ '}' := by
    intro c hc
    obtain ⟨k, hk⟩ := List.mem_iff_getElem?.mp hc
    obtain ⟨hlt, ht⟩ := hget k c hk
    exact ⟨fun h => (hnone _ (by omega) hlt).1 (h ▸ ht), fun h => (hnone _ (by omega) hlt).2 (h ▸ ht)⟩
  have hsplit : t.drop s = w ++ t.drop f := calc
    t.drop s = w ++ (t.drop s).drop (f - s) := (List.take_append_drop _ _).symm
    _ = w ++ t.drop f := by rw [List.drop_drop]; congr 2; omega
  have hdepth : depth w = 0 := by
    rw [depth_eq_zero_iff, List.count_eq_zero.mpr fun h => (hno _ h).1 rfl,
      List.count_eq_zero.mpr fun h => (hno _ h).2 rfl]
  have hlen : w.length = f - s := by simp [hw]; omega
  unfold findMatchingBrace
  rw [hsplit, findMatchingBrace.go_append_of_not_closesAt _ _ _ _
    fun k hk => (hno _ (List.mem_iff_getElem?.mpr ⟨k, hk.1⟩)).2 rfl, hlen, hdepth]
  congr 1; omega

/-- A stretch whose depth is zero at its end and positive before is balanced. -/
theorem balanced_take_of_pos {u : List Char} {k : Nat} (hz : depth (u.take (k + 1)) = 0)
    (hpos : ∀ j < k, 0 < depth (u.take (j + 1))) : Balanced (u.take (k + 1)) := by
  refine (balanced_iff _).mpr ⟨hz, fun n _ => ?_⟩
  rw [List.take_take, Int.zero_add]
  cases n with
  | zero => simp
  | succ j =>
    by_cases hj : j < k
    · rw [Nat.min_eq_left (by omega)]; exact Int.le_of_lt (hpos j hj)
    · rw [Nat.min_eq_right (by omega)]; omega

/-- The brace scan from a position whose first brace is a `{`, at `f`. It returns `-1`
exactly when no stretch from `f` has as many `}` as `{`, and otherwise the end of the
first such stretch. That end is a `}`, every shorter stretch from `f` has more `{` than
`}`, and the stretch is balanced: a `}` that closes a nested block never ends the scan. -/
theorem findMatchingBrace_first_balanced (t : List Char) (s f : Nat)
    (hf : FirstBraceOpensAt t s f) :
    (findMatchingBrace t s = -1 ↔
      ∀ p, f ≤ p → p < t.length →
        (slice t f (p + 1)).count '{' ≠ (slice t f (p + 1)).count '}') ∧
    (∀ p : Nat, findMatchingBrace t s = p ↔
      f ≤ p ∧ p < t.length ∧
        (slice t f (p + 1)).count '{' = (slice t f (p + 1)).count '}' ∧
        ∀ q, f ≤ q → q < p → (slice t f (q + 1)).count '{' ≠ (slice t f (q + 1)).count '}') ∧
    (∀ p : Nat, findMatchingBrace t s = p →
      t[p]? = some '}' ∧
      (∀ q, f ≤ q → q < p → (slice t f (q + 1)).count '}' < (slice t f (q + 1)).count '{') ∧
      Balanced (slice t f (p + 1))) := by
  have hu : (t.drop f)[0]? = some '{' := by rw [List.getElem?_drop]; exact hf.2.1
  rw [findMatchingBrace_eq_go hf]
  refine ⟨?_, fun p => ?_, fun p hp => ?_⟩
  · rw [findMatchingBrace.go_eq_neg_one_iff, forall_not_closesAt_iff hu]
    refine ⟨fun h p hfp hpt => ?_, fun h k hk => ?_⟩
    · obtain ⟨k, rfl⟩ := Nat.exists_eq_add_of_le hfp
      rw [slice_succ_eq_take, ne_eq, ← depth_eq_zero_iff]
      exact h k (by simp; omega)
    · have := h (f + k) (by omega) (by simp at hk; omega)
      rwa [slice_succ_eq_take, ne_eq, ← depth_eq_zero_iff] at this
  · by_cases hfp : f ≤ p
    · obtain ⟨k, rfl⟩ := Nat.exists_eq_add_of_le hfp
      rw [findMatchingBrace.go_eq_iff, closesAt_first_iff hu, slice_succ_eq_take,
        ← depth_eq_zero_iff]
      simp only [List.length_drop]
      refine ⟨fun ⟨hk, hz, hne⟩ => ⟨hfp, by omega, hz, fun q hq hqp => ?_⟩,
        fun ⟨_, hk, hz, hne⟩ => ⟨by omega, hz, fun j hj => ?_⟩⟩
      · obtain ⟨j, rfl⟩ := Nat.exists_eq_add_of_le hq
        rw [slice_succ_eq_take, ne_eq, ← depth_eq_zero_iff]
        exact hne j (by omega)
      · have := hne (f + j) (by omega) (by omega)
        rwa [slice_succ_eq_take, ne_eq, ← depth_eq_zero_iff] at this
    · refine ⟨fun h => ?_, fun h => absurd h.1 hfp⟩
      rcases findMatchingBrace.go_eq_neg_one_or_ge (t.drop f) f 0 with h' | h' <;> omega
  · have hfp : f ≤ p := by
      rcases findMatchingBrace.go_eq_neg_one_or_ge (t.drop f) f 0 with h' | h' <;> omega
    obtain ⟨k, rfl⟩ := Nat.exists_eq_add_of_le hfp
    obtain ⟨hc, hfirst⟩ := (findMatchingBrace.go_eq_iff _ _ _ _).mp hp
    have hpos := depth_take_pos hu (closesAt_lt_length hc) hfirst
    refine ⟨by rw [← List.getElem?_drop]; exact hc.1, fun q hq hqp => ?_, ?_⟩
    · obtain ⟨j, rfl⟩ := Nat.exists_eq_add_of_le hq
      rw [slice_succ_eq_take, ← depth_pos_iff]
      exact hpos j (by omega)
    · rw [slice_succ_eq_take]
      exact balanced_take_of_pos (by simpa using hc.2) hpos

/-- The nested block of the spec, scanned from the blank before its `{`: the scan ends at
the outer `}` (index 34), not at the inner one (index 32). -/
theorem findMatchingBrace_nested_block :
    FirstBraceOpensAt "code \x7b if eq(x,1) \x7b sstore(0,1) \x7d \x7d".toList 4 5 ∧
      findMatchingBrace "code \x7b if eq(x,1) \x7b sstore(0,1) \x7d \x7d".toList 4 = 34 ∧
      Balanced (slice "code \x7b if eq(x,1) \x7b sstore(0,1) \x7d \x7d".toList 5 35) :=
  ⟨by decide, by decide,
    ((findMatchingBrace_first_balanced _ 4 5 (by decide)).2.2 34 (by decide)).2.2⟩

end UpaScripts.Verification
