import Mathlib.Data.List.Infix

/-!
# `UpaScripts.Python.Str`: the `str` methods the scripts call

The scripts handle text with a few `str` methods: `find`, `strip` and slicing. A
Python string is a sequence of code points, so the model is `List Char`, and each
method is written from CPython's documented behaviour for the arguments the scripts
pass: start offsets and slice bounds are never negative.

* `isspace`: the characters `str.strip()` removes.
* `find`: `s.find(sub, start)`. `find_eq_iff` and `find_eq_neg_one_iff` say what it
  returns in terms of `OccursAt`: the least occurrence at or after `start`, or `-1`.
* `lstrip`, `rstrip`, `strip`: `rstrip_cons_of_not_isspace` lets a proof move a
  non-blank character out of `rstrip`.
* `slice`: `s[a:b]`.
-/

set_option autoImplicit false

namespace UpaScripts.Python

/-! ### Whitespace and `strip` -/

/-- `str.isspace` on one character, the test `str.strip()` uses: general category `Zs`,
or bidirectional class `WS`, `B` or `S`. -/
def isspace (c : Char) : Bool :=
  let n := c.toNat
  (0x09 ≤ n && n ≤ 0x0D) || (0x1C ≤ n && n ≤ 0x20) || n == 0x85 || n == 0xA0 ||
    n == 0x1680 || (0x2000 ≤ n && n ≤ 0x200A) || n == 0x2028 || n == 0x2029 ||
    n == 0x202F || n == 0x205F || n == 0x3000

/-- `s.lstrip()`: the text without its leading whitespace. -/
def lstrip (s : List Char) : List Char :=
  s.dropWhile isspace

/-- `s.rstrip()`: the text without its trailing whitespace. A character stays when
something after it stays, or when it is not whitespace. -/
def rstrip : List Char → List Char
  | [] => []
  | c :: s =>
    match rstrip s with
    | [] => if isspace c then [] else [c]
    | r => c :: r

/-- `s.strip()`: the text without its leading and trailing whitespace. -/
def strip (s : List Char) : List Char :=
  rstrip (lstrip s)

/-- `s[a:b]` for `0 ≤ a` and `0 ≤ b`: empty when `b ≤ a`, cut short at the end. -/
def slice (s : List Char) (a b : Nat) : List Char :=
  (s.drop a).take (b - a)

@[simp] theorem rstrip_nil : rstrip [] = [] := rfl

theorem rstrip_cons_of_not_isspace {c : Char} (s : List Char) (h : isspace c = false) :
    rstrip (c :: s) = c :: rstrip s := by
  simp only [rstrip]
  split <;> simp_all

/-- `rstrip` removes a blank tail: the text is what `rstrip` keeps followed by blanks. -/
theorem exists_eq_rstrip_append (s : List Char) :
    ∃ w, s = rstrip s ++ w ∧ ∀ c ∈ w, isspace c = true := by
  induction s with
  | nil => exact ⟨[], rfl, by simp⟩
  | cons c s ih =>
    obtain ⟨w, hw, hblank⟩ := ih
    simp only [rstrip]
    split
    · rename_i hnil
      rw [hnil, List.nil_append] at hw
      split
      · exact ⟨c :: s, by simp, by simp_all⟩
      · exact ⟨w, by simp [hw], hblank⟩
    · exact ⟨w, by rw [List.cons_append, ← hw], hblank⟩

theorem lstrip_cons_of_isspace {c : Char} (s : List Char) (h : isspace c = true) :
    lstrip (c :: s) = lstrip s := by
  simp [lstrip, List.dropWhile_cons, h]

theorem lstrip_cons_of_not_isspace {c : Char} (s : List Char) (h : isspace c = false) :
    lstrip (c :: s) = c :: s := by
  simp [lstrip, List.dropWhile_cons, h]

/-- A text without a line break. -/
def NoNewline (s : List Char) : Prop :=
  '\r' ∉ s ∧ '\n' ∉ s

instance (s : List Char) : Decidable (NoNewline s) :=
  inferInstanceAs (Decidable (_ ∧ _))

@[simp] theorem noNewline_append (s t : List Char) :
    NoNewline (s ++ t) ↔ NoNewline s ∧ NoNewline t := by
  simp only [NoNewline, List.mem_append, not_or]
  tauto

/-- A text made of characters of texts without line breaks has none. -/
theorem NoNewline.of_subset {s t : List Char} (ht : NoNewline t) (h : ∀ c ∈ s, c ∈ t) :
    NoNewline s :=
  ⟨fun hr => ht.1 (h _ hr), fun hn => ht.2 (h _ hn)⟩

/-- What `strip` keeps is part of the text. -/
theorem mem_of_mem_strip {c : Char} {s : List Char} (h : c ∈ strip s) : c ∈ s := by
  obtain ⟨w, hw, -⟩ := exists_eq_rstrip_append (lstrip s)
  have hl : c ∈ lstrip s := by rw [hw]; exact List.mem_append_left w h
  exact (List.dropWhile_suffix isspace).subset hl

theorem rstrip_append_of_isspace {c : Char} (s : List Char) (hc : isspace c = true) :
    rstrip (s ++ [c]) = rstrip s := by
  induction s with
  | nil => simp [rstrip, hc]
  | cons d s ih => rw [List.cons_append, rstrip, ih, rstrip]

theorem rstrip_append_of_not_isspace {c : Char} (s : List Char) (hc : isspace c = false) :
    rstrip (s ++ [c]) = s ++ [c] := by
  induction s with
  | nil => simp [rstrip, hc]
  | cons d s ih =>
    rw [List.cons_append, rstrip, ih]
    cases s <;> rfl

/-- A text that starts and ends with a character other than whitespace is its own `strip`. -/
theorem strip_eq_self {s : List Char} (hhead : ∀ c ∈ s.head?, isspace c = false)
    (hlast : ∀ c ∈ s.getLast?, isspace c = false) : strip s = s := by
  rcases s with _ | ⟨c, s⟩
  · rfl
  obtain ⟨d, hd⟩ := Option.ne_none_iff_exists'.mp (List.getLast?_eq_none_iff.not.mpr (List.cons_ne_nil c s))
  obtain ⟨ys, hys⟩ := List.getLast?_eq_some_iff.mp hd
  rw [strip, lstrip_cons_of_not_isspace _ (hhead c rfl), hys,
    rstrip_append_of_not_isspace _ (hlast d hd)]

/-- A blank at the end, such as the newline of a line, does not change what `strip`
keeps. -/
theorem strip_append_of_isspace {c : Char} (s : List Char) (hc : isspace c = true) :
    strip (s ++ [c]) = strip s := by
  unfold strip lstrip
  rw [List.dropWhile_append]
  split
  · rename_i hnil
    rw [List.isEmpty_iff.mp hnil]
    simp [List.dropWhile_cons, hc]
  · exact rstrip_append_of_isspace _ hc

/-! ### `find` -/

/-- `sub` occurs in `s` starting at index `i`. -/
def OccursAt (s sub : List Char) (i : Nat) : Prop :=
  sub <+: s.drop i

instance (s sub : List Char) (i : Nat) : Decidable (OccursAt s sub i) :=
  inferInstanceAs (Decidable (sub <+: s.drop i))

/-- A text that does not hold `sub` has no occurrence of it starting inside, even one that
runs on into what follows, when no proper suffix of `sub` starts what follows. -/
theorem not_prefix_drop_append {sub A B : List Char} {j : Nat} (hj : j < A.length)
    (hA : ¬ sub <:+: A) (hB : ∀ m < sub.length, 0 < m → ¬ sub.drop m <+: B) :
    ¬ sub <+: (A ++ B).drop j := by
  intro h
  rw [List.drop_append_of_le_length hj.le] at h
  by_cases hlen : sub.length ≤ (A.drop j).length
  · exact hA ((List.prefix_of_prefix_length_le h (List.prefix_append _ _) hlen).isInfix.trans
      (List.drop_suffix j A).isInfix)
  · obtain ⟨t, ht⟩ := List.prefix_of_prefix_length_le (List.prefix_append _ _) h (by omega)
    refine hB (A.drop j).length (by omega) (by simp; omega) ?_
    rw [← ht, List.drop_left]
    exact (List.prefix_append_right_inj _).mp (ht ▸ h)

/-- No occurrence of `sub` starts inside a text that lacks its first character. -/
theorem not_prefix_drop_append_of_head {sub A B : List Char} {j : Nat} (hj : j < A.length)
    {c : Char} (hsub : sub.head? = some c) (hc : c ∉ A) : ¬ sub <+: (A ++ B).drop j := by
  intro h
  rw [List.drop_append_of_le_length hj.le] at h
  obtain ⟨a, t, ha⟩ := List.exists_cons_of_ne_nil (by simp; omega : A.drop j ≠ [])
  cases sub with
  | nil => simp at hsub
  | cons d sub =>
    simp only [List.head?_cons, Option.some.injEq] at hsub
    rw [ha, List.cons_append, List.cons_prefix_cons] at h
    exact hc (hsub ▸ h.1 ▸ List.drop_subset j A (ha ▸ List.mem_cons_self a t))

/-- `s.find(sub, start)` for `start ≥ 0`: the least index `i ≥ start` at which `sub`
occurs, or `-1`. A start past the end finds nothing. -/
def find (s sub : List Char) (start : Nat) : Int :=
  if s.length < start then -1 else go (s.drop start) start
where
  /-- The scan from index `i`, over the text `t` that is left from `i` on. -/
  go : List Char → Nat → Int
    | [], i => if sub.isPrefixOf [] then i else -1
    | c :: t, i => if sub.isPrefixOf (c :: t) then i else go t (i + 1)

section Find

variable {sub : List Char}

theorem find.go_eq_neg_one_iff (hsub : sub ≠ []) (t : List Char) (i : Nat) :
    find.go sub t i = -1 ↔ ∀ n, ¬ sub <+: t.drop n := by
  induction t generalizing i with
  | nil => simp [find.go, hsub]
  | cons c t ih =>
    by_cases hp : sub <+: c :: t
    · simp only [find.go, List.isPrefixOf_iff_prefix, hp, if_true]
      exact ⟨by omega, fun h => absurd hp (h 0)⟩
    · simp only [find.go, List.isPrefixOf_iff_prefix, hp, if_false, ih]
      refine ⟨fun h n => ?_, fun h n => h (n + 1)⟩
      cases n with
      | zero => exact hp
      | succ n => exact h n

theorem find.go_eq_neg_one_or_ge (sub t : List Char) (i : Nat) :
    find.go sub t i = -1 ∨ (i : Int) ≤ find.go sub t i := by
  induction t generalizing i with
  | nil => simp only [find.go]; split <;> simp
  | cons c t ih =>
    simp only [find.go]
    split
    · exact .inr (Int.le_refl _)
    · rcases ih (i + 1) with h | h <;> omega

theorem find.go_eq_iff (hsub : sub ≠ []) (t : List Char) (i n : Nat) :
    find.go sub t i = ((i + n : Nat) : Int) ↔
      sub <+: t.drop n ∧ ∀ m < n, ¬ sub <+: t.drop m := by
  induction t generalizing i n with
  | nil =>
    simp only [find.go, List.isPrefixOf_iff_prefix, List.prefix_nil, hsub, if_false,
      List.drop_nil, false_and, iff_false]
    omega
  | cons c t ih =>
    by_cases hp : sub <+: c :: t
    · simp only [find.go, List.isPrefixOf_iff_prefix, hp, if_true]
      cases n with
      | zero => simpa using hp
      | succ n => exact ⟨by omega, fun h => absurd hp (h.2 0 (by omega))⟩
    · simp only [find.go, List.isPrefixOf_iff_prefix, hp, if_false]
      cases n with
      | zero =>
        refine ⟨fun h => ?_, fun h => absurd h.1 hp⟩
        rcases find.go_eq_neg_one_or_ge sub t (i + 1) with h' | h' <;> omega
      | succ n =>
        rw [show ((i + (n + 1) : Nat) : Int) = ((i + 1 + n : Nat) : Int) by omega, ih]
        refine ⟨fun h => ⟨h.1, fun m hm => ?_⟩,
          fun h => ⟨h.1, fun m hm => h.2 (m + 1) (by omega)⟩⟩
        cases m with
        | zero => exact hp
        | succ m => exact h.2 m (by omega)

theorem find_eq_iff (hsub : sub ≠ []) (s : List Char) (start i : Nat) :
    find s sub start = (i : Int) ↔
      start ≤ i ∧ OccursAt s sub i ∧ ∀ j, start ≤ j → j < i → ¬ OccursAt s sub j := by
  unfold find OccursAt
  split
  · refine ⟨fun h => absurd h (by omega), fun h => absurd ?_ hsub⟩
    have := h.2.1
    rwa [List.drop_eq_nil_of_le (by omega), List.prefix_nil] at this
  · by_cases hi : start ≤ i
    · obtain ⟨n, rfl⟩ := Nat.exists_eq_add_of_le hi
      simp only [find.go_eq_iff hsub, List.drop_drop, hi, true_and]
      refine ⟨fun h => ⟨by simpa [Nat.add_comm] using h.1, fun j hj hjn => ?_⟩,
        fun h => ⟨by simpa [Nat.add_comm] using h.1, fun m hm => ?_⟩⟩
      · obtain ⟨m, rfl⟩ := Nat.exists_eq_add_of_le hj
        simpa [Nat.add_comm] using h.2 m (by omega)
      · simpa [Nat.add_comm] using h.2 (start + m) (by omega) (by omega)
    · simp only [hi, false_and, iff_false]
      rcases find.go_eq_neg_one_or_ge sub (s.drop start) start with h | h <;> omega

theorem find_eq_neg_one_iff (hsub : sub ≠ []) (s : List Char) (start : Nat) :
    find s sub start = -1 ↔ ∀ j, start ≤ j → ¬ OccursAt s sub j := by
  unfold find OccursAt
  split
  · refine ⟨fun _ j hj h => hsub ?_, fun _ => rfl⟩
    rwa [List.drop_eq_nil_of_le (by omega), List.prefix_nil] at h
  · rw [find.go_eq_neg_one_iff hsub]
    refine ⟨fun h j hj => ?_, fun h n => ?_⟩
    · obtain ⟨n, rfl⟩ := Nat.exists_eq_add_of_le hj
      simpa [List.drop_drop, Nat.add_comm] using h n
    · simpa [List.drop_drop, Nat.add_comm] using h (start + n) (by omega)

/-- A `find` that does not fail returns an index at or after `start` at which `sub`
occurs. -/
theorem find_eq_neg_one_or_occursAt (hsub : sub ≠ []) (s : List Char) (start : Nat) :
    find s sub start = -1 ∨
      ∃ i : Nat, find s sub start = i ∧ start ≤ i ∧ OccursAt s sub i := by
  by_cases h : find s sub start = -1
  · exact .inl h
  · have hge : (start : Int) ≤ find s sub start := by
      unfold find at h ⊢
      split at h
      · exact absurd rfl h
      · rw [if_neg (by assumption)]
        exact (find.go_eq_neg_one_or_ge sub _ _).resolve_left h
    obtain ⟨i, hi⟩ := Int.eq_ofNat_of_zero_le (Int.le_trans (Int.ofNat_nonneg _) hge)
    obtain ⟨h1, h2, -⟩ := (find_eq_iff hsub s start i).mp hi
    exact .inr ⟨i, hi, h1, h2⟩

end Find

end UpaScripts.Python
