import UpaScripts.Python.Str

/-!
# `UpaScripts.Python.Re`: the regular expressions of the log parser

Every pattern `upa_log_parser.py` compiles is a concatenation of literal characters,
character classes repeated with a greedy `+` or `*` or a lazy `*?`, alternations of literal
texts, and the anchor `$`, with at most one capturing group, or two read one at a time.
`Piece` is that fragment of Python's `re`, and `matchPieces` is the engine's backtracking on
it: it lists every remainder of the text after a match of the pieces, in the order the
engine tries them (the longest run first for `+` and `*`, the shortest for `*?`). The first
entry is the match `re` reports.

* `Pattern.matchAt`: the group of the first match that starts at the front of the text,
  as `pattern.match(s).group(1)`;
* `Pattern.search`: the same at the first position that has a match, as
  `pattern.search(s).group(1)`;
* `sub`: `re.sub(pattern, repl, s)` for a pattern without groups that matches no empty
  text, with a replacement free of backslashes;
* `findall`: `re.findall(pattern, s)` for a pattern with one group that matches no empty
  text;
* `isDecimal`, `decimalValue`, `int`: the class `\d` on `str` patterns, and `int()` on the
  digit strings it matches.

`^` appears only at the front of patterns used with `.match`, where it always holds, so the
fragment has no piece for it.

The proofs run the engine on texts cut into known parts: `search_append_of_forall` and
`findall_append_of_forall` pass a part in which no match starts, and `firstMatch_plus_of_head`
reads the group of a match whose digits stop at a character outside the class;
`search_lit_eq_none` and `search_lit_after_eq_none` show that a pattern finds nothing in a
text its literal text is not part of.
-/

set_option autoImplicit false

namespace UpaScripts.Python

/-! ### Decimal digits -/

/-- The code point of the zero of each block of Unicode decimal digits (general category
`Nd`, Unicode 15.0, the database of Python 3.12). Each block is the ten digits zero to
nine. -/
def decimalZeros : List Nat :=
  [0x0030, 0x0660, 0x06F0, 0x07C0, 0x0966, 0x09E6, 0x0A66, 0x0AE6, 0x0B66, 0x0BE6,
    0x0C66, 0x0CE6, 0x0D66, 0x0DE6, 0x0E50, 0x0ED0, 0x0F20, 0x1040, 0x1090, 0x17E0,
    0x1810, 0x1946, 0x19D0, 0x1A80, 0x1A90, 0x1B50, 0x1BB0, 0x1C40, 0x1C50, 0xA620,
    0xA8D0, 0xA900, 0xA9D0, 0xA9F0, 0xAA50, 0xABF0, 0xFF10, 0x104A0, 0x10D30, 0x11066,
    0x110F0, 0x11136, 0x111D0, 0x112F0, 0x11450, 0x114D0, 0x11650, 0x116C0, 0x11730,
    0x118E0, 0x11950, 0x11C50, 0x11D50, 0x11DA0, 0x11F50, 0x16A60, 0x16AC0, 0x16B50,
    0x1D7CE, 0x1D7D8, 0x1D7E2, 0x1D7EC, 0x1D7F6, 0x1E140, 0x1E2F0, 0x1E4F0, 0x1E950,
    0x1FBF0]

/-- The zero of the digit block that holds `c`, if any. -/
def decimalZero (c : Char) : Option Nat :=
  if c.toNat < 0x80 then
    if '0' ≤ c ∧ c ≤ '9' then some 0x30 else none
  else decimalZeros.find? fun z => z ≤ c.toNat ∧ c.toNat < z + 10

/-- `\d` on a `str` pattern: a Unicode decimal digit. -/
def isDecimal (c : Char) : Bool :=
  (decimalZero c).isSome

/-- The value of a decimal digit. -/
def decimalValue (c : Char) : Nat :=
  match decimalZero c with
  | some z => c.toNat - z
  | none => 0

/-- `int(s)` on a string of decimal digits. -/
def int (s : List Char) : Nat :=
  s.foldl (fun n c => 10 * n + decimalValue c) 0

/-- `str(n)` for `n ≥ 0`. -/
def str (n : Nat) : List Char :=
  Nat.toDigits 10 n

/-! ### Patterns -/

/-- One piece of a pattern. -/
inductive Piece
  /-- A literal character. -/
  | char (c : Char)
  /-- A character class repeated once or more, greedily: `[...]+`. -/
  | plus (cls : Char → Bool)
  /-- A character class repeated any number of times, greedily: `[...]*`. -/
  | star (cls : Char → Bool)
  /-- `$`: the end of the text, or a newline that ends it. -/
  | eol
  /-- A character class repeated any number of times, lazily: `[...]*?`, and `.*?` for the
  class of every character but a newline. -/
  | lazyStar (cls : Char → Bool)
  /-- An alternation of literal texts, tried from the left: `(?:a|b|c)`. -/
  | alt (options : List (List Char))

/-- A literal text as pieces. -/
def lit (s : String) : List Piece :=
  s.toList.map .char

/-- Every way the pieces match at the front of the text, as what is left of the text, in
the order the engine tries them. -/
def matchPieces : List Piece → List Char → List (List Char)
  | [], s => [s]
  | .char c :: ps, s =>
    match s with
    | d :: s' => if d = c then matchPieces ps s' else []
    | [] => []
  | .plus cls :: ps, s =>
    ((List.range (s.takeWhile cls).length).reverse.map (· + 1)).flatMap
      fun k => matchPieces ps (s.drop k)
  | .star cls :: ps, s =>
    (List.range ((s.takeWhile cls).length + 1)).reverse.flatMap
      fun k => matchPieces ps (s.drop k)
  | .eol :: ps, s => if s = [] ∨ s = ['\n'] then matchPieces ps s else []
  | .lazyStar cls :: ps, s =>
    (List.range ((s.takeWhile cls).length + 1)).flatMap fun k => matchPieces ps (s.drop k)
  | .alt options :: ps, s =>
    options.flatMap fun o => if o <+: s then matchPieces ps (s.drop o.length) else []

@[simp] theorem matchPieces_nil (s : List Char) : matchPieces [] s = [s] := rfl

/-- What is left after a match is the end of the text. -/
theorem suffix_of_mem_matchPieces {ps : List Piece} {s r : List Char}
    (h : r ∈ matchPieces ps s) : r <:+ s := by
  induction ps generalizing s with
  | nil => simp only [matchPieces_nil, List.mem_singleton] at h; exact h ▸ List.suffix_refl s
  | cons p ps ih =>
    cases p with
    | char c =>
      match s with
      | d :: s' =>
        simp only [matchPieces] at h
        split at h
        · exact (ih h).trans (List.suffix_cons d s')
        · simp at h
      | [] => simp [matchPieces] at h
    | plus cls =>
      obtain ⟨k, -, hk⟩ := List.mem_flatMap.mp h
      exact (ih hk).trans (List.drop_suffix k s)
    | star cls =>
      obtain ⟨k, -, hk⟩ := List.mem_flatMap.mp h
      exact (ih hk).trans (List.drop_suffix k s)
    | eol =>
      simp only [matchPieces] at h
      split at h
      · exact ih h
      · simp at h
    | lazyStar cls =>
      obtain ⟨k, -, hk⟩ := List.mem_flatMap.mp h
      exact (ih hk).trans (List.drop_suffix k s)
    | alt options =>
      obtain ⟨o, -, ho⟩ := List.mem_flatMap.mp h
      split at ho
      · exact (ih ho).trans (List.drop_suffix _ s)
      · simp at ho

/-- Literal characters match exactly when they start the text. -/
theorem matchPieces_chars_append (cs : List Char) (ps : List Piece) (s : List Char) :
    matchPieces (cs.map .char ++ ps) s =
      if cs <+: s then matchPieces ps (s.drop cs.length) else [] := by
  induction cs generalizing s with
  | nil => simp
  | cons c cs ih =>
    cases s with
    | nil => simp [matchPieces]
    | cons d s =>
      simp only [List.map_cons, List.cons_append, matchPieces, ih]
      by_cases h : d = c
      · subst h; simp [List.cons_prefix_cons, ih]
      · simp [h, List.cons_prefix_cons, Ne.symm h]

theorem matchPieces_chars_append_self (cs : List Char) (ps : List Piece) (s : List Char) :
    matchPieces (cs.map .char ++ ps) (cs ++ s) = matchPieces ps s := by
  rw [matchPieces_chars_append, if_pos (List.prefix_append cs s), List.drop_left]

theorem matchPieces_chars_append_of_not_prefix {cs : List Char} (ps : List Piece)
    {s : List Char} (h : ¬ cs <+: s) : matchPieces (cs.map .char ++ ps) s = [] := by
  rw [matchPieces_chars_append, if_neg h]

/-- `+` is greedy: on a run `xs` of the class that the text does not continue, the first way
to go on is after the whole run. -/
theorem matchPieces_plus_append (cls : Char → Bool) (ps : List Piece) {xs ys : List Char}
    (hxs : xs ≠ []) (hcls : ∀ c ∈ xs, cls c = true) (hys : ∀ c ∈ ys.head?, cls c = false) :
    ∃ rest, matchPieces (.plus cls :: ps) (xs ++ ys) = matchPieces ps ys ++ rest := by
  have hrun : (xs ++ ys).takeWhile cls = xs := by
    rw [List.takeWhile_append_of_pos hcls]
    cases ys with
    | nil => simp
    | cons y ys => simp [List.takeWhile_cons, hys y rfl]
  obtain ⟨n, hn⟩ : ∃ n, xs.length = n + 1 :=
    ⟨xs.length - 1, by have := List.length_pos.mpr hxs; omega⟩
  rw [matchPieces, hrun, hn, List.range_succ, List.reverse_append, List.reverse_singleton,
    List.singleton_append, List.map_cons, List.flatMap_cons, ← hn, List.drop_left]
  exact ⟨_, rfl⟩

/-- `*?` is lazy: on a run `xs` of the class, where the rest of the pieces match at no
position inside the run, the first way to go on is after the whole run. -/
theorem matchPieces_lazyStar_append (cls : Char → Bool) (ps : List Piece) {xs ys : List Char}
    (hcls : ∀ c ∈ xs, cls c = true)
    (hfirst : ∀ k < xs.length, matchPieces ps ((xs ++ ys).drop k) = []) :
    ∃ rest, matchPieces (.lazyStar cls :: ps) (xs ++ ys) = matchPieces ps ys ++ rest := by
  have hlen : ((xs ++ ys).takeWhile cls).length + 1 =
      xs.length + ((ys.takeWhile cls).length + 1) := by
    rw [List.takeWhile_append_of_pos hcls, List.length_append]; omega
  rw [matchPieces, hlen, List.range_add, List.flatMap_append,
    List.flatMap_eq_nil_iff.mpr fun k hk => hfirst k (List.mem_range.mp hk), List.nil_append,
    List.range_succ_eq_map, List.map_cons, List.flatMap_cons, Nat.add_zero, List.drop_left]
  exact ⟨_, rfl⟩

/-- An alternation tries its options from the left. -/
theorem matchPieces_alt_cons (o : List Char) (os : List (List Char)) (ps : List Piece)
    (s : List Char) : matchPieces (.alt (o :: os) :: ps) s =
      (if o <+: s then matchPieces ps (s.drop o.length) else []) ++
        matchPieces (.alt os :: ps) s := by
  simp [matchPieces]

theorem matchPieces_alt_eq_nil {os : List (List Char)} (ps : List Piece)
    {s : List Char} (h : ∀ o ∈ os, ¬ o <+: s) : matchPieces (.alt os :: ps) s = [] := by
  simp only [matchPieces, List.flatMap_eq_nil_iff]
  exact fun o ho => if_neg (h o ho)

/-- A pattern with one capturing group: the pieces before the group, the group's pieces,
and the pieces after it. -/
structure Pattern where
  before : List Piece
  group : List Piece
  after : List Piece

namespace Pattern

/-- The group of the first match at the front of `s`: `pattern.match(s).group(1)`. -/
def matchAt (p : Pattern) (s : List Char) : Option (List Char) :=
  (matchPieces p.before s).findSome? fun r₁ =>
    (matchPieces p.group r₁).findSome? fun r₂ =>
      if (matchPieces p.after r₂).isEmpty then none else some (r₁.take (r₁.length - r₂.length))

/-- A pattern that starts with a literal text matches only a text that starts with it. -/
theorem matchAt_startsWith {L : String} {g a : List Piece} {s v : List Char}
    (h : (⟨lit L, g, a⟩ : Pattern).matchAt s = some v) : L.toList <+: s := by
  by_contra hL
  have : matchPieces (lit L) s = [] := by
    have := matchPieces_chars_append L.toList [] s
    rwa [List.append_nil, if_neg hL] at this
  simp [matchAt, this] at h

theorem matchAt_eq_none_of_not_prefix {L : String} {g a : List Piece} {s : List Char}
    (h : ¬ L.toList <+: s) : (⟨lit L, g, a⟩ : Pattern).matchAt s = none :=
  Option.eq_none_iff_forall_not_mem.mpr fun _ hv => h (matchAt_startsWith hv)

/-- A literal followed by a group `[...]+` captures the whole run of the class after the
literal. -/
theorem matchAt_lit_plus (L : String) (cls : Char → Bool) {xs ys : List Char}
    (hxs : xs ≠ []) (hcls : ∀ c ∈ xs, cls c = true) (hys : ∀ c ∈ ys.head?, cls c = false) :
    (⟨lit L, [.plus cls], []⟩ : Pattern).matchAt (L.toList ++ xs ++ ys) = some xs := by
  have hlit : matchPieces (lit L) (L.toList ++ xs ++ ys) = [xs ++ ys] := by
    have := matchPieces_chars_append L.toList [] (L.toList ++ xs ++ ys)
    rw [List.append_nil, if_pos (by simp [List.append_assoc]), List.append_assoc,
      List.drop_left] at this
    rw [List.append_assoc]
    exact this
  obtain ⟨rest, hrest⟩ := matchPieces_plus_append cls [] hxs hcls hys
  rw [matchAt, hlit]
  simp [hrest]

/-- The pattern matches only texts that start with `L`. -/
def StartsWith (p : Pattern) (L : List Char) : Prop :=
  ∀ s, ¬ L <+: s → matchPieces p.before s = []

theorem startsWith_lit (L : String) (g a : List Piece) :
    (⟨lit L, g, a⟩ : Pattern).StartsWith L.toList := fun _ h => by
  simpa using matchPieces_chars_append_of_not_prefix [] h

theorem startsWith_lit_append (L : String) (ps g a : List Piece) :
    (⟨lit L ++ ps, g, a⟩ : Pattern).StartsWith L.toList := fun _ h =>
  matchPieces_chars_append_of_not_prefix ps h

theorem matchAt_eq_none_of_before {p : Pattern} {s : List Char}
    (h : matchPieces p.before s = []) : p.matchAt s = none := by
  simp [matchAt, h]

/-- A group `[...]+`, after pieces whose first way to go on is `xs ++ ys`, captures the run
`xs` of its class when the pieces after it match `ys`. -/
theorem matchAt_plus_of_head {before after : List Piece} {cls : Char → Bool}
    {s xs ys : List Char} {rest : List (List Char)}
    (h : matchPieces before s = (xs ++ ys) :: rest) (hxs : xs ≠ [])
    (hcls : ∀ c ∈ xs, cls c = true) (hys : ∀ c ∈ ys.head?, cls c = false)
    (hafter : matchPieces after ys ≠ []) :
    (⟨before, [.plus cls], after⟩ : Pattern).matchAt s = some xs := by
  obtain ⟨r, hr⟩ := matchPieces_plus_append cls [] hxs hcls hys
  simp [matchAt, h, hr, hafter]

/-- A group `[...]+` followed by the characters `t b`, on a run `xs` of its class followed
by `t b`, where `t` is of the class and `b` is not: the greedy run takes `t` too, fails on
`b`, gives `t` back, and captures `xs`. -/
theorem matchAt_plus_chars_of_head {before : List Piece} {cls : Char → Bool}
    {s xs ys : List Char} {rest : List (List Char)} {t b : Char}
    (h : matchPieces before s = (xs ++ t :: b :: ys) :: rest) (hxs : xs ≠ [])
    (hcls : ∀ c ∈ xs, cls c = true) (ht : cls t = true) (hb : cls b = false) :
    (⟨before, [.plus cls], [.char t, .char b]⟩ : Pattern).matchAt s = some xs := by
  have hrun : (xs ++ t :: b :: ys).takeWhile cls = xs ++ [t] := by
    rw [List.takeWhile_append_of_pos hcls]; simp [List.takeWhile_cons, ht, hb]
  have hbt : b ≠ t := fun hbt => by simp [hbt, ht] at hb
  obtain ⟨n, hn⟩ : ∃ n, xs.length = n + 1 :=
    ⟨xs.length - 1, by have := List.length_pos.mpr hxs; omega⟩
  have hdrop₁ : (xs ++ t :: b :: ys).drop (n + 1 + 1) = b :: ys := by
    rw [← hn, List.drop_append, List.drop_one, List.tail_cons]
  have hdrop₀ : (xs ++ t :: b :: ys).drop (n + 1) = t :: b :: ys := by
    rw [← hn, List.drop_left]
  simp only [matchAt, h, List.findSome?_cons, matchPieces, hrun, List.length_append, hn,
    List.length_singleton, List.range_succ, List.reverse_append, List.reverse_singleton,
    List.singleton_append, List.map_cons, List.flatMap_cons, hdrop₁, hdrop₀, if_neg hbt]
  simp [hn]

/-- The group of the first match at the first position that has one:
`pattern.search(s).group(1)`. -/
def search (p : Pattern) (s : List Char) : Option (List Char) :=
  (List.range (s.length + 1)).findSome? fun i => p.matchAt (s.drop i)

/-- The group of a match is part of the text. -/
theorem mem_of_mem_matchAt {p : Pattern} {s v : List Char} (h : p.matchAt s = some v)
    {c : Char} (hc : c ∈ v) : c ∈ s := by
  obtain ⟨r₁, hr₁, h₁⟩ := List.exists_of_findSome?_eq_some h
  obtain ⟨r₂, -, h₂⟩ := List.exists_of_findSome?_eq_some h₁
  split at h₂
  · cases h₂
  · cases h₂
    exact (suffix_of_mem_matchPieces hr₁).subset (List.mem_of_mem_take hc)

/-- `search` reports the match at the first position that has one. -/
theorem search_eq_of_first (p : Pattern) {s v : List Char} (i : Nat) (hi : i ≤ s.length)
    (hbefore : ∀ j < i, p.matchAt (s.drop j) = none) (h : p.matchAt (s.drop i) = some v) :
    p.search s = some v := by
  have hlen : s.length + 1 = i + ((s.length - i) + 1) := by omega
  rw [search, hlen, List.range_add, List.findSome?_append,
    List.findSome?_eq_none_iff.mpr fun j hj => hbefore j (List.mem_range.mp hj)]
  simp [List.range_succ_eq_map, h]

/-- `search` passes over a stretch at no position of which a match starts. -/
theorem search_append_of_forall (p : Pattern) {A B : List Char}
    (h : ∀ j < A.length, p.matchAt ((A ++ B).drop j) = none) :
    p.search (A ++ B) = p.search B := by
  have hlen : (A ++ B).length + 1 = A.length + (B.length + 1) := by simp; omega
  rw [search, hlen, List.range_add, List.findSome?_append,
    List.findSome?_eq_none_iff.mpr fun j hj => h j (List.mem_range.mp hj), Option.none_or,
    List.findSome?_map, search]
  congr 1
  funext i
  simp only [Function.comp, List.drop_append]

theorem search_eq_of_matchAt (p : Pattern) {s v : List Char} (h : p.matchAt s = some v) :
    p.search s = some v :=
  search_eq_of_first p 0 (Nat.zero_le _) (fun _ h => absurd h (Nat.not_lt_zero _)) h

theorem mem_of_mem_search {p : Pattern} {s v : List Char} (h : p.search s = some v)
    {c : Char} (hc : c ∈ v) : c ∈ s := by
  obtain ⟨i, -, hi⟩ := List.exists_of_findSome?_eq_some h
  exact List.mem_of_mem_drop (mem_of_mem_matchAt hi hc)

/-- `search` finds nothing when the pattern matches at the front of no suffix of the text. -/
theorem search_eq_none_of_forall {p : Pattern} {s : List Char}
    (h : ∀ i, p.matchAt (s.drop i) = none) : p.search s = none :=
  List.findSome?_eq_none_iff.mpr fun i _ => h i

/-- A pattern that starts with a literal text finds nothing in a text it is not part of. -/
theorem search_lit_eq_none {L : String} {g a : List Piece} {s : List Char}
    (h : ¬ L.toList <:+: s) : (⟨lit L, g, a⟩ : Pattern).search s = none :=
  search_eq_none_of_forall fun i => matchAt_eq_none_of_not_prefix fun hp =>
    h (hp.isInfix.trans (List.drop_suffix i s).isInfix)

/-- A pattern that ends with a literal text matches only a text it is part of. -/
theorem isInfix_of_matchAt_lit_after {b g : List Piece} {L : String} {s v : List Char}
    (h : (⟨b, g, lit L⟩ : Pattern).matchAt s = some v) : L.toList <:+: s := by
  obtain ⟨r₁, hr₁, h₁⟩ := List.exists_of_findSome?_eq_some h
  obtain ⟨r₂, hr₂, h₂⟩ := List.exists_of_findSome?_eq_some h₁
  -- the literal matches at the front of what the group leaves
  have hL : L.toList <+: r₂ := by
    by_contra hL
    have h0 : matchPieces (lit L) r₂ = [] := by
      simpa using matchPieces_chars_append_of_not_prefix [] hL
    simp [h0] at h₂
  exact hL.isInfix.trans
    ((suffix_of_mem_matchPieces hr₂).trans (suffix_of_mem_matchPieces hr₁)).isInfix

/-- So such a pattern finds nothing in a text its literal is not part of. -/
theorem search_lit_after_eq_none {b g : List Piece} {L : String} {s : List Char}
    (h : ¬ L.toList <:+: s) : (⟨b, g, lit L⟩ : Pattern).search s = none :=
  search_eq_none_of_forall fun i => Option.eq_none_iff_forall_not_mem.mpr fun _ hv =>
    h ((isInfix_of_matchAt_lit_after hv).trans (List.drop_suffix i s).isInfix)

/-- A group `[...]+` captures a nonempty run of its class. -/
theorem matchAt_plus_group {before after : List Piece} {cls : Char → Bool} {s v : List Char}
    (h : (⟨before, [.plus cls], after⟩ : Pattern).matchAt s = some v) :
    v ≠ [] ∧ ∀ c ∈ v, cls c = true := by
  obtain ⟨r₁, -, h₁⟩ := List.exists_of_findSome?_eq_some h
  obtain ⟨r₂, hr₂, h₂⟩ := List.exists_of_findSome?_eq_some h₁
  split at h₂
  · cases h₂
  cases h₂
  simp only [matchPieces, matchPieces_nil, List.mem_flatMap, List.mem_map, List.mem_reverse,
    List.mem_range, List.mem_singleton] at hr₂
  obtain ⟨_, ⟨k, hk, rfl⟩, rfl⟩ := hr₂
  -- the group is the first `k + 1` characters of the run
  have hle := (List.takeWhile_prefix cls (l := r₁)).length_le
  have hgroup : r₁.take (r₁.length - (r₁.drop (k + 1)).length) = (r₁.takeWhile cls).take (k + 1) := by
    rw [List.length_drop, show r₁.length - (r₁.length - (k + 1)) = k + 1 by omega]
    conv_lhs => rw [← List.takeWhile_append_dropWhile cls r₁]
    exact List.take_append_of_le_length (by omega)
  rw [hgroup]
  refine ⟨fun hnil => ?_, fun c hc => List.mem_takeWhile_imp (List.mem_of_mem_take hc)⟩
  have := congrArg List.length hnil
  simp only [List.length_take, List.length_nil] at this
  omega

theorem search_plus_group {before after : List Piece} {cls : Char → Bool} {s v : List Char}
    (h : (⟨before, [.plus cls], after⟩ : Pattern).search s = some v) :
    v ≠ [] ∧ ∀ c ∈ v, cls c = true :=
  let ⟨_, _, hi⟩ := List.exists_of_findSome?_eq_some h
  matchAt_plus_group hi

/-- The group of the first match at the front of `s`, and what is left of `s` after the
whole match. -/
def firstMatch (p : Pattern) (s : List Char) : Option (List Char × List Char) :=
  (matchPieces p.before s).findSome? fun r₁ =>
    (matchPieces p.group r₁).findSome? fun r₂ =>
      (matchPieces p.after r₂).head?.map fun r₃ => (r₁.take (r₁.length - r₂.length), r₃)

/-- The scan of `re.findall`, with fuel for each character of the text: at each position,
the group of the first match is kept and the scan goes on after the match; a position
without a match is passed. -/
def findall.go (p : Pattern) : Nat → List Char → List (List Char)
  | 0, _ => []
  | _ + 1, [] => []
  | n + 1, c :: s =>
    match p.firstMatch (c :: s) with
    | some (g, r) => if r.length < s.length + 1 then g :: findall.go p n r else findall.go p n s
    | none => findall.go p n s

/-- `re.findall(pattern, s)`: the group of every match, leftmost first and without overlap. -/
def findall (p : Pattern) (s : List Char) : List (List Char) :=
  findall.go p s.length s

theorem firstMatch_eq_none_of_before {p : Pattern} {s : List Char}
    (h : matchPieces p.before s = []) : p.firstMatch s = none := by
  simp [firstMatch, h]

/-- The first match of a group `[...]+` after pieces whose first way to go on is
`xs ++ ys`: the run `xs`, and what the pieces after the group first leave of `ys`. -/
theorem firstMatch_plus_of_head {before after : List Piece} {cls : Char → Bool}
    {s xs ys r₃ : List Char} {rest : List (List Char)}
    (h : matchPieces before s = (xs ++ ys) :: rest) (hxs : xs ≠ [])
    (hcls : ∀ c ∈ xs, cls c = true) (hys : ∀ c ∈ ys.head?, cls c = false)
    (hafter : (matchPieces after ys).head? = some r₃) :
    (⟨before, [.plus cls], after⟩ : Pattern).firstMatch s = some (xs, r₃) := by
  obtain ⟨r, hr⟩ := matchPieces_plus_append cls [] hxs hcls hys
  simp [firstMatch, h, hr, hafter]

/-- The scan of `findall` does not depend on its fuel, once there is enough. -/
theorem findall.go_fuel (p : Pattern) {n m : Nat} {s : List Char} (hn : s.length ≤ n)
    (hm : s.length ≤ m) : findall.go p n s = findall.go p m s := by
  induction n generalizing s m with
  | zero => cases s with
    | nil => cases m <;> rfl
    | cons c s => simp at hn
  | succ n ih =>
    match s, m with
    | [], 0 => rfl
    | [], _ + 1 => rfl
    | _ :: _, 0 => simp at hm
    | c :: s, m + 1 =>
      simp only [List.length_cons] at hn hm
      simp only [findall.go]
      split
      · split
        · exact congrArg _ (ih (by omega) (by omega))
        · exact ih (by omega) (by omega)
      · exact ih (by omega) (by omega)

theorem findall_nil (p : Pattern) : p.findall [] = [] := rfl

/-- A match at the front is kept, and the scan goes on after it. -/
theorem findall_cons_of_firstMatch {p : Pattern} {c : Char} {s g r : List Char}
    (h : p.firstMatch (c :: s) = some (g, r)) (hr : r.length < s.length + 1) :
    p.findall (c :: s) = g :: p.findall r := by
  rw [findall, List.length_cons, findall.go, h]
  simp only [if_pos hr, findall]
  rw [findall.go_fuel p (by omega) le_rfl]

/-- A position without a match is passed. -/
theorem findall_cons_of_firstMatch_eq_none {p : Pattern} {c : Char} {s : List Char}
    (h : p.firstMatch (c :: s) = none) : p.findall (c :: s) = p.findall s := by
  rw [findall, List.length_cons, findall.go, h]
  rfl

theorem findall_append_of_forall (p : Pattern) {A B : List Char}
    (h : ∀ j < A.length, p.firstMatch ((A ++ B).drop j) = none) :
    p.findall (A ++ B) = p.findall B := by
  induction A with
  | nil => rfl
  | cons c A ih =>
    have h0 : p.firstMatch (c :: (A ++ B)) = none := h 0 (by simp)
    rw [List.cons_append, findall_cons_of_firstMatch_eq_none h0,
      ih fun j hj => h (j + 1) (by simp; omega)]

end Pattern

/-- The scan of `re.sub`, with fuel for each character of the text: at each position,
the first match of `ps` is replaced by `repl` and the scan goes on after it; a position
without a match keeps its character. -/
def sub.go (ps : List Piece) (repl : List Char) : Nat → List Char → List Char
  | 0, s => s
  | _ + 1, [] => []
  | n + 1, c :: s =>
    match (matchPieces ps (c :: s)).head? with
    | some r => if r.length < s.length + 1 then repl ++ sub.go ps repl n r
      else c :: sub.go ps repl n s
    | none => c :: sub.go ps repl n s

/-- `re.sub(pattern, repl, s)`: every match of `ps`, leftmost first and without overlap,
replaced by `repl`. -/
def sub (ps : List Piece) (repl s : List Char) : List Char :=
  sub.go ps repl s.length s

theorem sub.go_succ_cons_of_eq_nil {ps : List Piece} {c : Char} {s : List Char}
    (h : matchPieces ps (c :: s) = []) (repl : List Char) (n : Nat) :
    sub.go ps repl (n + 1) (c :: s) = c :: sub.go ps repl n s := by
  simp [sub.go, h]

theorem sub.go_succ_cons_of_head? {ps : List Piece} {c : Char} {s r : List Char}
    (h : (matchPieces ps (c :: s)).head? = some r) (hr : r.length < s.length + 1)
    (repl : List Char) (n : Nat) :
    sub.go ps repl (n + 1) (c :: s) = repl ++ sub.go ps repl n r := by
  simp [sub.go, h, hr]

/-- The scan keeps a stretch where no match starts. -/
theorem sub.go_append_of_forall_eq_nil (ps : List Piece) (repl : List Char) (n : Nat)
    (P R : List Char) (h : ∀ j < P.length, matchPieces ps ((P ++ R).drop j) = []) :
    sub.go ps repl n (P ++ R) = P ++ sub.go ps repl (n - P.length) R := by
  induction P generalizing n with
  | nil => simp
  | cons c P ih =>
    cases n with
    | zero => simp [sub.go]
    | succ n =>
      have h0 : matchPieces ps (c :: (P ++ R)) = [] := h 0 (by simp)
      rw [List.cons_append, sub.go_succ_cons_of_eq_nil h0,
        ih n fun j hj => h (j + 1) (by simp; omega)]
      simp

theorem sub.go_of_forall_eq_nil (ps : List Piece) (repl : List Char) (n : Nat)
    (s : List Char) (h : ∀ j < s.length, matchPieces ps (s.drop j) = []) :
    sub.go ps repl n s = s := by
  induction s generalizing n with
  | nil => cases n <;> rfl
  | cons c s ih =>
    cases n with
    | zero => rfl
    | succ n =>
      rw [sub.go_succ_cons_of_eq_nil (h 0 (by simp)), ih n fun j hj => h (j + 1) (by simp; omega)]

/-- Every character of the result of `re.sub` comes from the text or from the
replacement. -/
theorem sub.mem_go {ps : List Piece} {repl : List Char} (n : Nat) {s : List Char} {c : Char}
    (h : c ∈ sub.go ps repl n s) : c ∈ s ∨ c ∈ repl := by
  induction n generalizing s with
  | zero => exact .inl h
  | succ n ih =>
    match s with
    | [] => exact .inl h
    | d :: s =>
      -- a character kept, or the replacement and the scan after the match
      have hkeep (h : c ∈ d :: sub.go ps repl n s) : c ∈ d :: s ∨ c ∈ repl := by
        rcases List.mem_cons.mp h with rfl | h
        · exact .inl (List.mem_cons_self c s)
        · exact (ih h).imp_left (List.mem_cons_of_mem d)
      simp only [sub.go] at h
      split at h
      · rename_i r hr
        split at h
        · rcases List.mem_append.mp h with h | h
          · exact .inr h
          · exact (ih h).imp_left fun hc =>
              (suffix_of_mem_matchPieces (List.mem_of_mem_head? hr)).subset hc
        · exact hkeep h
      · exact hkeep h

/-- A group found in a text without line breaks has none. -/
theorem NoNewline.search {p : Pattern} {s v : List Char} (hs : NoNewline s)
    (h : p.search s = some v) : NoNewline v :=
  hs.of_subset fun _ hc => Pattern.mem_of_mem_search h hc

/-- `str(n)` is made of the digits `0` to `9`. -/
theorem isDigit_of_mem_str {n : Nat} {c : Char} (h : c ∈ str n) : c.isDigit = true := by
  have hcore : ∀ (fuel m : Nat) (l : List Char), c ∈ Nat.toDigitsCore 10 fuel m l →
      c ∈ l ∨ ∃ k < 10, c = Nat.digitChar k := by
    intro fuel
    induction fuel with
    | zero => exact fun _ _ h => .inl h
    | succ fuel ih =>
      intro m l h
      have hd : ∃ k < 10, Nat.digitChar (m % 10) = Nat.digitChar k :=
        ⟨m % 10, Nat.mod_lt m (by decide), rfl⟩
      change c ∈ (if m / 10 = 0 then Nat.digitChar (m % 10) :: l
        else Nat.toDigitsCore 10 fuel (m / 10) (Nat.digitChar (m % 10) :: l)) at h
      split at h
      · rcases List.mem_cons.mp h with rfl | h
        exacts [.inr hd, .inl h]
      · rcases ih _ _ h with h | h
        · rcases List.mem_cons.mp h with rfl | h
          exacts [.inr hd, .inl h]
        · exact .inr h
  have hdigits : ∀ k < 10, (Nat.digitChar k).isDigit = true := by decide
  rcases hcore _ _ [] h with h | ⟨k, hk, rfl⟩
  · simp at h
  · exact hdigits k hk

theorem noNewline_str (n : Nat) : NoNewline (str n) :=
  ⟨fun h => absurd (isDigit_of_mem_str h) (by decide),
    fun h => absurd (isDigit_of_mem_str h) (by decide)⟩

end UpaScripts.Python
