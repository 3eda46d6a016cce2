import Mathlib.Data.Nat.Digits
import Mathlib.Tactic.Ring
import UpaScripts.Python.Re

/-!
# `UpaScripts.Python.Builtins`: `int()`, `str()` on ints, and `sorted`

`sort_csv_by_columns` converts seven columns of a table with `int()`, sorts the rows with
`sorted(data, key=...)` on the tuple of those ints, and writes them back with `str()`.

* `intOfStr`: `int(s)` on a `str`, in base 10, as CPython's `PyLong_FromUnicodeObject` computes
  it. Unicode decimal digits and spaces first become ASCII; then come leading whitespace, a
  sign, digits with single underscores between them, and trailing whitespace. More than 4300
  digits raise the limit error of Python 3.12.
* `strOfInt`: `str(n)`. `intOfStr_strOfInt` is the round trip, and
  `length_str_natAbs_of_intOfStr` says that `str()` of what `int()` returns is within the
  4300 digits, so the round trip applies to it.
* `tupleLT`: `<` on tuples of ints, as CPython's `tuplerichcompare` decides it.
* `sorted`: `sorted(xs, key=key)`. Timsort is stable, and so is `List.mergeSort`. A stable
  sort has one result: the list sorted by key in which the elements of each key keep their
  order (`StableSortOf`). `stableSortOf_sorted` says `sorted` gives it, and
  `eq_sorted_of_stableSortOf` that nothing else does.

`mapM_map_except_ok` and `foldlM_except_ok` run a `for` loop in `Except` whose every step
succeeds; `mem_of_mapM_except_ok` and `foldlM_except_invariant` say what holds of what such a
loop returns, and `of_except_bind_ok` of what a `do` block returns, one `←` at a time.
-/

set_option autoImplicit false

namespace UpaScripts.Python

/-! ### Loops in `Except` whose every step succeeds -/

@[simp] theorem except_bind_ok {ε α β : Type} (a : α) (f : α → Except ε β) :
    (Except.ok a >>= f) = f a :=
  rfl

@[simp] theorem except_bind_error {ε α β : Type} (e : ε) (f : α → Except ε β) :
    (Except.error e >>= f) = Except.error e :=
  rfl

theorem mapM_map_except_ok {α β γ ε : Type} {f : β → Except ε γ} {φ : α → β} {g : α → γ}
    {xs : List α} (h : ∀ x ∈ xs, f (φ x) = .ok (g x)) : (xs.map φ).mapM f = .ok (xs.map g) := by
  induction xs with
  | nil => rfl
  | cons x xs ih =>
    simp only [List.map_cons, List.mapM_cons, h x (.head _), ih fun x' hx' => h x' (.tail _ hx')]
    rfl

theorem mapM_except_ok {α β ε : Type} {f : α → Except ε β} {g : α → β} {xs : List α}
    (h : ∀ x ∈ xs, f x = .ok (g x)) : xs.mapM f = .ok (xs.map g) := by
  have hmap := @mapM_map_except_ok α α β ε f id g xs h
  rwa [List.map_id] at hmap

/-- A loop in `Except` with a step that fails fails. -/
theorem mapM_except_error {α β ε : Type} {f : α → Except ε β} {xs : List α} {x : α}
    (hx : x ∈ xs) {e : ε} (h : f x = .error e) : ∃ e', xs.mapM f = .error e' := by
  induction xs with
  | nil => exact absurd hx (List.not_mem_nil x)
  | cons y xs ih =>
    rw [List.mapM_cons]
    cases hy : f y with
    | error e' => exact ⟨e', rfl⟩
    | ok b =>
      rcases List.mem_cons.mp hx with rfl | hx
      · rw [h] at hy
        cases hy
      · obtain ⟨e', he'⟩ := ih hx
        exact ⟨e', by rw [he']; rfl⟩

theorem foldlM_except_ok {α β ε : Type} {f : β → α → Except ε β} {g : β → α → β} {xs : List α}
    (h : ∀ b, ∀ x ∈ xs, f b x = .ok (g b x)) (b : β) : xs.foldlM f b = .ok (xs.foldl g b) := by
  induction xs generalizing b with
  | nil => rfl
  | cons x xs ih =>
    rw [List.foldlM_cons, h b x (.head _)]
    exact ih (fun b' x' hx' => h b' x' (.tail _ hx')) _

theorem mem_of_mapM_except_ok {α β ε : Type} {f : α → Except ε β} {xs : List α} {ys : List β}
    (h : xs.mapM f = .ok ys) {y : β} (hy : y ∈ ys) : ∃ x ∈ xs, f x = .ok y := by
  induction xs generalizing ys with
  | nil =>
    cases h
    cases hy
  | cons x xs ih =>
    rw [List.mapM_cons] at h
    cases hx : f x with
    | error e => rw [hx] at h; cases h
    | ok b =>
      cases hxs : xs.mapM f with
      | error e => rw [hx, hxs] at h; cases h
      | ok bs =>
        rw [hx, hxs] at h
        cases h
        rcases List.mem_cons.mp hy with rfl | hy
        · exact ⟨x, List.mem_cons_self x xs, hx⟩
        · obtain ⟨x', hx', hfx'⟩ := ih hxs hy
          exact ⟨x', List.mem_cons_of_mem x hx', hfx'⟩

/-- A property every successful step keeps holds of what a loop in `Except` returns. -/
theorem foldlM_except_invariant {α β ε : Type} {f : β → α → Except ε β} (P : β → Prop)
    {xs : List α} (hstep : ∀ b, ∀ x ∈ xs, ∀ b', P b → f b x = .ok b' → P b') {b r : β}
    (h0 : P b) (h : xs.foldlM f b = .ok r) : P r := by
  induction xs generalizing b with
  | nil =>
    cases h
    exact h0
  | cons x xs ih =>
    rw [List.foldlM_cons] at h
    cases hx : f b x with
    | error e => rw [hx] at h; cases h
    | ok b' =>
      rw [hx] at h
      exact ih (fun b x hx => hstep b x (List.mem_cons_of_mem _ hx))
        (hstep b x (List.mem_cons_self x xs) b' h0 hx) h

/-- What a `do` block returns after `x ← e`: a value of the block for a value of `e`. -/
theorem of_except_bind_ok {ε α β : Type} {x : Except ε α} {f : α → Except ε β} {P : β → Prop}
    (hf : ∀ a, x = .ok a → ∀ b, f a = .ok b → P b) : ∀ b, (x >>= f) = .ok b → P b := by
  intro b h
  cases x with
  | error e => cases h
  | ok a => exact hf a rfl b h

theorem of_except_pure_ok {ε α : Type} {P : α → Prop} {a : α} (h : P a) :
    ∀ b, (pure a : Except ε α) = .ok b → P b := by
  rintro b ⟨⟩
  exact h

/-! ### `int(s)` -/

/-- The whitespace `int()` skips around the number: ASCII `\t\n\v\f\r` and space, and the
characters from `\x7f` on that `str.isspace` accepts, which CPython turns into spaces before
it parses. `\x1c` to `\x1f` pass `isspace` but stay as they are, and are not skipped. -/
def intSpace (c : Char) : Bool :=
  if c.toNat < 0x7F then (0x09 ≤ c.toNat && c.toNat ≤ 0x0D) || c.toNat == 0x20 else isspace c

/-- The digits of an `int()` literal: decimal digits with at most one underscore between two
of them, none first and none last. -/
def underscoredDigits : List Char → Bool
  | [] => false
  | [c] => isDecimal c
  | c :: '_' :: s => isDecimal c && underscoredDigits s
  | c :: s => isDecimal c && underscoredDigits s

/-- The most digits `int()` converts in base 10: `sys.int_info.default_max_str_digits`. -/
def maxStrDigits : Nat := 4300

/-- The `ValueError`s of `int(s)` and `str(n)`. -/
inductive IntError
  /-- `invalid literal for int() with base 10: ` and `repr(s)`. -/
  | invalidLiteral (s : List Char)
  /-- `Exceeds the limit (4300 digits) for integer string conversion: value has ` and the
  number of digits, then `digits; use sys.set_int_max_str_digits() to increase the limit`. -/
  | exceedsLimit (digits : Nat)
  /-- `str(n)` on an int of more than 4300 digits: `Exceeds the limit (4300 digits) for
  integer string conversion; use sys.set_int_max_str_digits() to increase the limit`. -/
  | strExceedsLimit
deriving DecidableEq, Repr

/-- The sign of an `int()` literal, and the text after it. -/
def parseSign : List Char → Int × List Char
  | '+' :: t => (1, t)
  | '-' :: t => (-1, t)
  | t => (1, t)

/-- A character of the digits of an `int()` literal. -/
def isDigitOrUnderscore (c : Char) : Bool :=
  isDecimal c || c == '_'

/-- `int(s)` on a `str`. -/
def intOfStr (s : List Char) : Except IntError Int :=
  let (sign, t) := parseSign (s.dropWhile intSpace)
  let body := t.takeWhile isDigitOrUnderscore
  if underscoredDigits body && (t.dropWhile isDigitOrUnderscore).all intSpace then
    let digits := body.filter isDecimal
    if digits.length ≤ maxStrDigits then .ok (sign * int digits)
    else .error (.exceedsLimit digits.length)
  else .error (.invalidLiteral s)

/-- `str(n)` on an `int`. -/
def strOfInt (n : Int) : List Char :=
  if n < 0 then '-' :: str n.natAbs else str n.natAbs

/-- `str(n)` with its limit: more than 4300 digits raise `ValueError`. -/
def strOfIntChecked (n : Int) : Except IntError (List Char) :=
  if (str n.natAbs).length ≤ maxStrDigits then .ok (strOfInt n) else .error .strExceedsLimit

theorem int_append (s t : List Char) : int (s ++ t) = int s * 10 ^ t.length + int t := by
  have hfold : ∀ (a : Nat) (t : List Char),
      t.foldl (fun n c => 10 * n + decimalValue c) a = a * 10 ^ t.length + int t := by
    intro a t
    induction t generalizing a with
    | nil => simp [int]
    | cons c t ih =>
      have hc : int (c :: t) = decimalValue c * 10 ^ t.length + int t := by
        rw [int, List.foldl_cons, Nat.mul_zero, Nat.zero_add, ih]
      rw [List.foldl_cons, ih, hc, List.length_cons, pow_succ]
      ring
  rw [int, List.foldl_append, ← int, hfold]

theorem decimalValue_digitChar {k : Nat} (hk : k < 10) : decimalValue (Nat.digitChar k) = k := by
  have hdigits : ∀ k < 10, decimalValue (Nat.digitChar k) = k := by decide
  exact hdigits k hk

theorem int_toDigitsCore (fuel m : Nat) (l : List Char) (hfuel : m < fuel) :
    int (Nat.toDigitsCore 10 fuel m l) = m * 10 ^ l.length + int l := by
  induction fuel generalizing m l with
  | zero => omega
  | succ fuel ih =>
    have hd : int (Nat.digitChar (m % 10) :: l) = m % 10 * 10 ^ l.length + int l := by
      rw [← List.singleton_append, int_append, int, List.foldl_cons, List.foldl_nil,
        decimalValue_digitChar (Nat.mod_lt m (by decide)), Nat.mul_zero, Nat.zero_add]
    change int (if m / 10 = 0 then Nat.digitChar (m % 10) :: l
      else Nat.toDigitsCore 10 fuel (m / 10) (Nat.digitChar (m % 10) :: l)) = _
    split
    · rw [hd, Nat.mod_eq_of_lt (by omega)]
    · rw [ih _ _ (by omega), hd, List.length_cons, pow_succ]
      conv_rhs => rw [← Nat.div_add_mod m 10]
      ring

/-- `int(str(n)) == n` on the digits `str` writes. -/
theorem int_str (n : Nat) : int (str n) = n := by
  change int (Nat.toDigitsCore 10 (n + 1) n []) = n
  rw [int_toDigitsCore _ _ _ (Nat.lt_succ_self n)]
  simp [int]

theorem isDecimal_of_isDigit {c : Char} (h : c.isDigit = true) : isDecimal c = true := by
  have h09 : '0' ≤ c ∧ c ≤ '9' := by simpa [Char.isDigit] using h
  have hlt : c.toNat < 0x80 := Nat.lt_of_le_of_lt (show c.toNat ≤ 57 from h09.2) (by decide)
  rw [isDecimal, decimalZero, if_pos hlt, if_pos h09]
  rfl

theorem underscoredDigits_cons_cons {c d : Char} {s : List Char} (hd : d ≠ '_') :
    underscoredDigits (c :: d :: s) = (isDecimal c && underscoredDigits (d :: s)) := by
  simp [underscoredDigits, hd]

theorem underscoredDigits_of_isDecimal {s : List Char} (hne : s ≠ [])
    (h : ∀ c ∈ s, isDecimal c = true) : underscoredDigits s = true := by
  induction s with
  | nil => exact absurd rfl hne
  | cons c s ih =>
    have hc := h c (.head _)
    match s, ih with
    | [], _ => exact hc
    | '_' :: _, _ => exact absurd (h '_' (.tail _ (.head _))) (by decide)
    | d :: s, ih =>
      have hd : d ≠ '_' := fun hd => absurd (h d (.tail _ (.head _))) (by rw [hd]; decide)
      rw [underscoredDigits_cons_cons hd, hc, ih (List.cons_ne_nil _ _)
        fun c' hc' => h c' (.tail _ hc')]
      rfl

theorem str_ne_nil (n : Nat) : str n ≠ [] := by
  intro h
  have h0 : n = 0 := by rw [← int_str n, h]; rfl
  subst h0
  exact absurd h (by decide)

/-- Every block of decimal digits but the ASCII one lies clear of the whitespace code points
from `\x7f` on: between `\xa0` and `\u1680`, between `\u1680` and `\u2000`, or past
`\u3000`. -/
theorem decimalZeros_clear : ∀ z ∈ decimalZeros, z = 0x30 ∨ (0xA0 < z ∧ z + 10 ≤ 0x1680) ∨
    (0x1680 < z ∧ z + 10 ≤ 0x2000) ∨ 0x3000 < z := by
  decide

/-- No decimal digit is whitespace, so `int()` skips none of a digit run. -/
theorem intSpace_of_isDecimal {c : Char} (h : isDecimal c = true) : intSpace c = false := by
  obtain ⟨z, hz⟩ := Option.isSome_iff_exists.mp h
  unfold decimalZero at hz
  unfold intSpace
  split at hz
  · split at hz
    · rename_i hlt h09
      have h48 : 48 ≤ c.toNat := h09.1
      have h57 : c.toNat ≤ 57 := h09.2
      rw [if_pos (by omega)]
      simp only [Bool.or_eq_false_iff, Bool.and_eq_false_iff, decide_eq_false_iff_not,
        beq_eq_false_iff_ne]
      omega
    · cases hz
  · rename_i hge
    have hin := List.find?_some hz
    simp only [decide_eq_true_eq] at hin
    have hz' := decimalZeros_clear z (List.mem_of_find?_eq_some hz)
    rw [if_neg (by omega), isspace]
    simp only [Bool.or_eq_false_iff, Bool.and_eq_false_iff, decide_eq_false_iff_not,
      beq_eq_false_iff_ne]
    omega

/-- A text that starts with a decimal digit has no whitespace or sign in front. -/
theorem parseSign_dropWhile_of_isDecimal {c : Char} {t : List Char} (hc : isDecimal c = true) :
    parseSign ((c :: t).dropWhile intSpace) = (1, c :: t) := by
  have hplus : c ≠ '+' := by rintro rfl; exact absurd hc (by decide)
  have hminus : c ≠ '-' := by rintro rfl; exact absurd hc (by decide)
  rw [List.dropWhile_cons_of_neg (by simp [intSpace_of_isDecimal hc])]
  simp [parseSign, hplus, hminus]

/-- A literal whose sign is followed by nothing but decimal digits is their value with the
sign, unless it has more than 4300 digits. -/
theorem intOfStr_of_parseSign {s t : List Char} {sign : Int}
    (hsign : parseSign (s.dropWhile intSpace) = (sign, t)) (hne : t ≠ [])
    (hdigits : ∀ c ∈ t, isDecimal c = true) :
    intOfStr s =
      if t.length ≤ maxStrDigits then .ok (sign * int t) else .error (.exceedsLimit t.length) := by
  have hall : ∀ c ∈ t, isDigitOrUnderscore c = true := fun c hc => by
    simp [isDigitOrUnderscore, hdigits c hc]
  unfold intOfStr
  rw [hsign]
  dsimp only
  rw [List.takeWhile_eq_self_iff.mpr hall, List.dropWhile_eq_nil_iff.mpr hall,
    underscoredDigits_of_isDecimal hne hdigits, List.filter_eq_self.mpr hdigits, List.all_nil,
    Bool.and_self, if_pos rfl]

/-- `int()` on a run of decimal digits, as `\d+` matches it: their value, or `ValueError`
past 4300 digits. -/
theorem intOfStr_of_isDecimal {s : List Char} (hne : s ≠ []) (h : ∀ c ∈ s, isDecimal c = true) :
    intOfStr s =
      if s.length ≤ maxStrDigits then .ok (int s) else .error (.exceedsLimit s.length) := by
  obtain ⟨c, t, rfl⟩ := List.exists_cons_of_ne_nil hne
  rw [intOfStr_of_parseSign (parseSign_dropWhile_of_isDecimal (h c (.head _))) hne h, Int.one_mul]

/-- `int(str(n)) == n`, for an `n` of at most 4300 digits. -/
theorem intOfStr_strOfInt (n : Int) (hlen : (str n.natAbs).length ≤ maxStrDigits) :
    intOfStr (strOfInt n) = .ok n := by
  have hdigits : ∀ c ∈ str n.natAbs, isDecimal c = true := fun _ hc =>
    isDecimal_of_isDigit (isDigit_of_mem_str hc)
  unfold strOfInt
  split
  · rename_i hneg
    have hsign : parseSign (('-' :: str n.natAbs).dropWhile intSpace) = (-1, str n.natAbs) := by
      rw [List.dropWhile_cons_of_neg (by decide)]
      rfl
    rw [intOfStr_of_parseSign hsign (str_ne_nil _) hdigits, if_pos hlen, int_str,
      Int.ofNat_natAbs_of_nonpos (by omega), neg_one_mul, Int.neg_neg]
  · rw [intOfStr_of_isDecimal (str_ne_nil _) hdigits, if_pos hlen, int_str,
      Int.natAbs_of_nonneg (by omega)]

/-- A decimal digit's value is below ten, whatever block it is from. -/
theorem decimalValue_lt_ten (c : Char) : decimalValue c < 10 := by
  unfold decimalValue
  split
  · rename_i z hz
    unfold decimalZero at hz
    split at hz
    · split at hz
      · rename_i h09
        cases hz
        have h9 : c.toNat ≤ 57 := h09.2
        omega
      · cases hz
    · have hblock := List.find?_some hz
      simp only [decide_eq_true_eq] at hblock
      omega
  · decide

theorem int_lt_pow_length (s : List Char) : int s < 10 ^ s.length := by
  induction s using List.reverseRecOn with
  | nil => decide
  | append_singleton s c ih =>
    have hc : int [c] < 10 := by simpa [int] using decimalValue_lt_ten c
    rw [int_append, List.length_append, List.length_singleton, pow_one, pow_succ]
    omega

theorem length_str_le {m k : Nat} (hm : m < 10 ^ k) (hk : 0 < k) : (str m).length ≤ k :=
  Nat.toDigitsCore_length 10 (by decide) (m + 1) m k hm hk

theorem parseSign_fst (t : List Char) : (parseSign t).1 = 1 ∨ (parseSign t).1 = -1 := by
  unfold parseSign
  split <;> simp

/-- `int()` converts at most 4300 digits, so `str()` of what it returns has at most 4300
digits. -/
theorem length_str_natAbs_of_intOfStr {s : List Char} {n : Int} (h : intOfStr s = .ok n) :
    (str n.natAbs).length ≤ maxStrDigits := by
  unfold intOfStr at h
  rcases hp : parseSign (s.dropWhile intSpace) with ⟨sign, t⟩
  have hsign : sign = 1 ∨ sign = -1 := by
    simpa only [hp] using parseSign_fst (s.dropWhile intSpace)
  rw [hp] at h
  dsimp only at h
  split at h
  · split at h
    · rename_i hlen
      cases h
      have habs : (sign * ↑(int ((t.takeWhile isDigitOrUnderscore).filter isDecimal))).natAbs =
          int ((t.takeWhile isDigitOrUnderscore).filter isDecimal) := by
        rcases hsign with rfl | rfl <;> simp
      rw [habs]
      exact length_str_le ((int_lt_pow_length _).trans_le
        (Nat.pow_le_pow_right (by decide) hlen)) (by decide)
    · cases h
  · cases h

/-! ### `sorted` -/

/-- `a < b` on tuples of ints, as `tuplerichcompare` decides it: at the first position where
the items differ, their order; when one tuple is a prefix of the other, the shorter first. -/
def tupleLT : List Int → List Int → Bool
  | [], [] => false
  | [], _ :: _ => true
  | _ :: _, [] => false
  | a :: as, b :: bs => if a = b then tupleLT as bs else decide (a < b)

/-- `sorted(xs, key=key)` on keys that are tuples of ints. Timsort compares with `<` only and
is stable, as `List.mergeSort` is with `a ≤ b` read as `not (b < a)`. -/
def sorted {α : Type} (key : α → List Int) (xs : List α) : List α :=
  xs.mergeSort fun a b => !tupleLT (key b) (key a)

theorem tupleLT_irrefl (a : List Int) : tupleLT a a = false := by
  induction a with
  | nil => rfl
  | cons x a ih => simp [tupleLT, ih]

theorem tupleLT_trans {a b c : List Int} (hab : tupleLT a b = true) (hbc : tupleLT b c = true) :
    tupleLT a c = true := by
  induction a generalizing b c with
  | nil => cases b <;> cases c <;> simp_all [tupleLT]
  | cons x a ih =>
    rcases b with _ | ⟨y, b⟩
    · simp [tupleLT] at hab
    rcases c with _ | ⟨z, c⟩
    · simp [tupleLT] at hbc
    simp only [tupleLT] at hab hbc ⊢
    by_cases hxy : x = y <;> by_cases hyz : y = z
    · subst hxy hyz
      rw [if_pos rfl] at hab hbc ⊢
      exact ih hab hbc
    · subst hxy
      rwa [if_neg hyz] at hbc ⊢
    · subst hyz
      rwa [if_neg hxy] at hab ⊢
    · rw [if_neg hxy, decide_eq_true_eq] at hab
      rw [if_neg hyz, decide_eq_true_eq] at hbc
      rw [if_neg (by omega), decide_eq_true_eq]
      omega

theorem tupleLT_trichotomous (a b : List Int) :
    tupleLT a b = true ∨ a = b ∨ tupleLT b a = true := by
  induction a generalizing b with
  | nil => cases b <;> simp [tupleLT]
  | cons x a ih =>
    rcases b with _ | ⟨y, b⟩
    · simp [tupleLT]
    · simp only [tupleLT, List.cons.injEq]
      by_cases hxy : x = y
      · subst hxy
        simpa using ih b
      · simp only [if_neg hxy, if_neg (Ne.symm hxy), decide_eq_true_eq]
        omega

section Sorted

variable {α : Type} (key : α → List Int)

/-- `a` may stand before `b` in a list sorted by `key`: `key b < key a` is false. This is the
`le` that `sorted` hands to `List.mergeSort`. -/
def KeyLE (a b : α) : Prop :=
  (!tupleLT (key b) (key a)) = true

/-- `ys` is `xs` sorted by `key`, stably: keys never decrease along `ys`, and the elements of
each key are those of `xs`, in the same order. -/
def StableSortOf (xs ys : List α) : Prop :=
  ys.Pairwise (KeyLE key) ∧ ∀ k, ys.filter (fun y => key y = k) = xs.filter (fun x => key x = k)

theorem keyLE_refl (a : α) : KeyLE key a a := by
  simp [KeyLE, tupleLT_irrefl]

theorem keyLE_trans (a b c : α) (hab : KeyLE key a b) (hbc : KeyLE key b c) : KeyLE key a c := by
  simp only [KeyLE, Bool.not_eq_true', Bool.eq_false_iff] at *
  intro hca
  rcases tupleLT_trichotomous (key a) (key b) with h | h | h
  · exact hbc (tupleLT_trans hca h)
  · exact hbc (h ▸ hca)
  · exact hab h

theorem keyLE_total (a b : α) : (!tupleLT (key b) (key a) || !tupleLT (key a) (key b)) = true := by
  by_contra h
  simp only [Bool.or_eq_true, Bool.not_eq_true', not_or, Bool.not_eq_false] at h
  exact absurd (tupleLT_trans h.1 h.2) (by rw [tupleLT_irrefl]; decide)

/-- Keys that may each stand before the other are equal. -/
theorem key_eq_of_keyLE {a b : α} (hab : KeyLE key a b) (hba : KeyLE key b a) : key a = key b := by
  simp only [KeyLE, Bool.not_eq_true'] at hab hba
  rcases tupleLT_trichotomous (key a) (key b) with h | h | h
  · exact absurd h (by rw [hba]; decide)
  · exact h
  · exact absurd h (by rw [hab]; decide)

/-- `sorted` leaves the keys in order. -/
theorem pairwise_sorted (xs : List α) : (sorted key xs).Pairwise (KeyLE key) :=
  List.sorted_mergeSort (keyLE_trans key) (keyLE_total key) xs

/-- `sorted` keeps the elements of each key in their order. -/
theorem filter_sorted (xs : List α) (k : List Int) :
    (sorted key xs).filter (fun y => key y = k) = xs.filter (fun x => key x = k) := by
  have hclass : (xs.filter fun x => key x = k).Pairwise (KeyLE key) :=
    List.Pairwise.imp_of_mem (fun {a b} ha hb _ => by
      rw [List.mem_filter, decide_eq_true_eq] at ha hb
      simp [KeyLE, ha.2, hb.2, tupleLT_irrefl]) (List.pairwise_of_forall fun _ _ => trivial)
  have hsub : List.Sublist (xs.filter fun x => key x = k) (sorted key xs) :=
    List.sublist_mergeSort (keyLE_trans key) (keyLE_total key) hclass (List.filter_sublist xs)
  have hperm : List.Perm ((sorted key xs).filter fun y => key y = k) (xs.filter fun x => key x = k) :=
    (List.mergeSort_perm xs _).filter _
  have hself : ((xs.filter fun x => key x = k).filter fun y => key y = k) =
      xs.filter fun x => key x = k :=
    List.filter_eq_self.mpr fun _ ha => (List.mem_filter.mp ha).2
  exact ((hself ▸ hsub.filter _).eq_of_length hperm.length_eq.symm).symm

/-- Sorting the images of `xs` by a key that reads on them the key of `xs` is sorting `xs`. -/
theorem sorted_map {β : Type} {key' : β → List Int} {f : α → β} {xs : List α}
    (h : ∀ x ∈ xs, key' (f x) = key x) : sorted key' (xs.map f) = (sorted key xs).map f :=
  (List.map_mergeSort fun a ha b hb => by rw [h a ha, h b hb]).symm

/-- `sorted` on a list it has sorted leaves it as it is. -/
theorem sorted_sorted (xs : List α) : sorted key (sorted key xs) = sorted key xs :=
  List.mergeSort_of_sorted (pairwise_sorted key xs)

/-- `sorted` is a stable sort. -/
theorem stableSortOf_sorted (xs : List α) : StableSortOf key xs (sorted key xs) :=
  ⟨pairwise_sorted key xs, filter_sorted key xs⟩

/-- Two lists sorted by `key` that hold the same elements of each key, in the same order, are
equal: the key order fixes where each key's elements stand. -/
theorem eq_of_pairwise_of_filter_eq {ys zs : List α} (hys : ys.Pairwise (KeyLE key))
    (hzs : zs.Pairwise (KeyLE key))
    (h : ∀ k, ys.filter (fun y => key y = k) = zs.filter (fun z => key z = k)) : ys = zs := by
  induction ys generalizing zs with
  | nil =>
    cases zs with
    | nil => rfl
    | cons z zs => simpa using h (key z)
  | cons y ys ih =>
    cases zs with
    | nil => simpa using h (key y)
    | cons z zs =>
      have hmem : ∀ {a : α} {l l' : List α}, a ∈ l →
          l.filter (fun x => key x = key a) = l'.filter (fun x => key x = key a) → a ∈ l' :=
        fun ha hl => (List.mem_filter.mp (hl ▸ List.mem_filter.mpr ⟨ha, by simp⟩)).1
      have hle : ∀ {a b : α} {l : List α}, (a :: l).Pairwise (KeyLE key) → b ∈ a :: l →
          KeyLE key a b := fun hl hb => by
        rcases List.mem_cons.mp hb with rfl | hb
        exacts [keyLE_refl key _, List.rel_of_pairwise_cons hl hb]
      have hkey : key y = key z := key_eq_of_keyLE key
        (hle hys (hmem (List.mem_cons_self z zs) (h (key z)).symm))
        (hle hzs (hmem (List.mem_cons_self y ys) (h (key y))))
      have hhead := h (key y)
      rw [List.filter_cons_of_pos (by simp), List.filter_cons_of_pos (by simp [hkey]),
        List.cons.injEq] at hhead
      rw [hhead.1, ih hys.of_cons hzs.of_cons fun k => ?_]
      by_cases hk : key y = k
      · subst hk
        exact hhead.2
      · have := h k
        rwa [List.filter_cons_of_neg (by simpa using hk),
          List.filter_cons_of_neg (by simpa [← hkey] using hk)] at this

/-- A stable sort has one result. -/
theorem eq_of_stableSortOf {xs ys zs : List α} (hys : StableSortOf key xs ys)
    (hzs : StableSortOf key xs zs) : ys = zs :=
  eq_of_pairwise_of_filter_eq key hys.1 hzs.1 fun k => (hys.2 k).trans (hzs.2 k).symm

/-- `sorted` is the stable sort: whatever sorts `xs` stably by `key`, Timsort included, gives
the list `sorted` gives. -/
theorem eq_sorted_of_stableSortOf {xs ys : List α} (h : StableSortOf key xs ys) :
    ys = sorted key xs :=
  eq_of_stableSortOf key h (stableSortOf_sorted key xs)

/-- What `sorted` returns, said without the algorithm: the one list sorted by `key` in which
the elements of each key keep their order in `xs`. -/
theorem stableSortOf_iff_eq_sorted {xs ys : List α} :
    StableSortOf key xs ys ↔ ys = sorted key xs :=
  ⟨eq_sorted_of_stableSortOf key, fun h => h ▸ stableSortOf_sorted key xs⟩

/-- A stable sort of `xs` is a permutation of it. -/
theorem perm_of_stableSortOf [DecidableEq α] {xs ys : List α} (h : StableSortOf key xs ys) :
    List.Perm ys xs :=
  List.perm_iff_count.mpr fun a => by
    have hcount := congrArg (List.count a) (h.2 (key a))
    rwa [List.count_filter (by simp), List.count_filter (by simp)] at hcount

end Sorted

end UpaScripts.Python
