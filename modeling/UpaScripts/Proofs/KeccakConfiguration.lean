import UpaScripts.LogParsing.UpaLogParser

/-!
# `UpaScripts.Proofs.KeccakConfiguration`: the total batch size of a Keccak row

For a Keccak `Begin` line, `parse_logs` searches the configuration for the first
`inner_batch_size: I` and the first `outer_batch_size: O`, and when both are there it
rewrites every `inner_batch_size: \d+, outer_batch_size: \d+` with `re.sub` into
`total_batch_size: T`, where `T = int(I) * int(O)`. `int()` raises `ValueError` on more
than 4300 digits, and so does the f-string's `str()` on a product of more than 4300 digits.

`keccakConfiguration_eq` splits the rewrite in two: `batchSizesError`, the `ValueError` of the
first conversion past its limit, and `totalBatchSizeConfig`, the rewrite without limits,
which is what a row carries when no limit is hit. The group `\d+` captures is a nonempty
run of decimal digits (`Pattern.search_plus_group`), so `int()` on it is its value up to
the limit (`intOfStr_of_isDecimal`).

`keccakConfiguration_text` states the whole outcome on a configuration cut as a
`BatchSizesLayout`, `before + 'inner_batch_size: ' + inner + ', outer_batch_size: ' +
outer + after`, that is `WellFormed`: the sizes are runs of decimal digits, neither label
occurs in `before`, the inner one does not occur in `after`, and `after` does not go on
with a digit. The first limit hit raises; otherwise the pair becomes `total_batch_size: `
and the product, and the rest is kept.

The proof follows the engine, one lemma a step:

* `search_innerBatchSizePattern_text`, `search_outerBatchSizePattern_text`: both searches
  stop at the pair. No label starts in `before`, not even across its end, since no proper
  suffix of a label starts `inner_batch_size: `; and `inner_batch_size: I, ` has no `o`.
* `head_matchPieces_batchSizesPieces`: at the pair, the greedy `\d+` takes the whole of
  each size, so the first match ends where `after` starts.
* the scan of `re.sub` finds nothing in `before` or in `after`.
-/

set_option autoImplicit false

namespace UpaScripts.LogParsing

open UpaScripts.Python

/-! ### The rewrite and its limits -/

/-- The `ValueError` of the Keccak rewrite, if any: `int()` on a batch size of more than
4300 digits, the inner one first, then `str()` on a product of more than 4300 digits. -/
def batchSizesError (config : List Char) : Option IntError :=
  match innerBatchSizePattern.search config, outerBatchSizePattern.search config with
  | some inner, some outer =>
    if maxStrDigits < inner.length then some (.exceedsLimit inner.length)
    else if maxStrDigits < outer.length then some (.exceedsLimit outer.length)
    else if maxStrDigits < (str (int inner * int outer)).length then some .strExceedsLimit
    else none
  | _, _ => none

/-- The Keccak rewrite without its limits: every adjacent pair of batch sizes becomes the
total batch size, the product of the first inner and the first outer batch size. -/
def totalBatchSizeConfig (config : List Char) : List Char :=
  match innerBatchSizePattern.search config, outerBatchSizePattern.search config with
  | some inner, some outer =>
    sub batchSizesPieces ("total_batch_size: ".toList ++ str (int inner * int outer)) config
  | _, _ => config

theorem strOfIntChecked_natCast (n : Nat) :
    strOfIntChecked n =
      if (str n).length ≤ maxStrDigits then .ok (str n) else .error .strExceedsLimit := by
  simp [strOfIntChecked, strOfInt, show ¬ (n : Int) < 0 by omega]

/-- The Keccak rewrite raises the first limit it hits, and is otherwise the rewrite without
limits. -/
theorem keccakConfiguration_eq (config : List Char) :
    keccakConfiguration config =
      match batchSizesError config with
      | some e => .error e
      | none => .ok (totalBatchSizeConfig config) := by
  unfold keccakConfiguration batchSizesError totalBatchSizeConfig
  rcases hi : innerBatchSizePattern.search config with _ | inner <;>
  rcases ho : outerBatchSizePattern.search config with _ | outer
  any_goals rfl
  obtain ⟨hine, hidec⟩ := Pattern.search_plus_group hi
  obtain ⟨hone, hodec⟩ := Pattern.search_plus_group ho
  simp only [intOfStr_of_isDecimal hine hidec, intOfStr_of_isDecimal hone hodec]
  by_cases h₁ : maxStrDigits < inner.length
  · rw [if_neg (by omega), if_pos h₁]; rfl
  by_cases h₂ : maxStrDigits < outer.length
  · rw [if_pos (by omega), if_neg (by omega), if_neg h₁, if_pos h₂]; rfl
  rw [if_pos (by omega), if_pos (by omega), if_neg h₁, if_neg h₂]
  simp only [except_bind_ok, ← Nat.cast_mul, strOfIntChecked_natCast]
  by_cases h₃ : maxStrDigits < (str (int inner * int outer)).length
  · rw [if_neg (by omega), if_pos h₃]; rfl
  · rw [if_pos (by omega), if_neg h₃]; rfl

/-- No proper suffix of `inner_batch_size: ` starts it. -/
theorem not_innerBatchSize_drop_prefix : ∀ m < ("inner_batch_size: ".toList).length, 0 < m →
    ¬ ("inner_batch_size: ".toList).drop m <+: "inner_batch_size: ".toList := by
  decide

/-- No proper suffix of `outer_batch_size: ` starts `inner_batch_size: `. -/
theorem not_outerBatchSize_drop_prefix_inner :
    ∀ m < ("outer_batch_size: ".toList).length, 0 < m →
      ¬ ("outer_batch_size: ".toList).drop m <+: "inner_batch_size: ".toList := by
  decide

/-- A Keccak configuration cut around one adjacent pair of batch sizes. -/
structure BatchSizesLayout where
  before : List Char
  inner : List Char
  outer : List Char
  after : List Char
deriving DecidableEq, Repr

namespace BatchSizesLayout

/-- The configuration the pieces make. -/
def text (l : BatchSizesLayout) : List Char :=
  l.before ++ "inner_batch_size: ".toList ++ l.inner ++ ", outer_batch_size: ".toList ++
    l.outer ++ l.after

/-- What the rewrite asks of the pieces: decimal sizes that `after` does not continue, no
label in `before`, and no inner label in `after`. -/
structure WellFormed (l : BatchSizesLayout) : Prop where
  inner_ne_nil : l.inner ≠ []
  inner_decimal : ∀ c ∈ l.inner, isDecimal c = true
  outer_ne_nil : l.outer ≠ []
  outer_decimal : ∀ c ∈ l.outer, isDecimal c = true
  after_not_decimal : ∀ c ∈ l.after.head?, isDecimal c = false
  before_no_inner : ¬ "inner_batch_size: ".toList <:+: l.before
  before_no_outer : ¬ "outer_batch_size: ".toList <:+: l.before
  after_no_inner : ¬ "inner_batch_size: ".toList <:+: l.after

/-- The text after the inner label. -/
def rest (l : BatchSizesLayout) : List Char :=
  l.inner ++ (", outer_batch_size: ".toList ++ (l.outer ++ l.after))

theorem text_eq (l : BatchSizesLayout) :
    l.text = l.before ++ ("inner_batch_size: ".toList ++ l.rest) := by
  simp [text, rest]

theorem comma_not_decimal (l : BatchSizesLayout) :
    ∀ c ∈ (", outer_batch_size: ".toList ++ (l.outer ++ l.after)).head?, isDecimal c = false := by
  rintro c ⟨⟩
  decide

/-- No inner label starts in `before`. -/
theorem not_prefix_drop_text {l : BatchSizesLayout} (h : l.WellFormed) {j : Nat}
    (hj : j < l.before.length) : ¬ "inner_batch_size: ".toList <+: l.text.drop j := by
  rw [text_eq]
  exact not_prefix_drop_append hj h.before_no_inner fun m hm h0 hp =>
    not_innerBatchSize_drop_prefix m hm h0
      (List.prefix_of_prefix_length_le hp (List.prefix_append _ _) (by simp))

end BatchSizesLayout

open BatchSizesLayout

theorem search_innerBatchSizePattern_text {l : BatchSizesLayout} (h : l.WellFormed) :
    innerBatchSizePattern.search l.text = some l.inner := by
  refine Pattern.search_eq_of_first _ l.before.length (by simp [text])
    (fun j hj => Pattern.matchAt_eq_none_of_not_prefix (not_prefix_drop_text h hj)) ?_
  rw [text_eq, List.drop_left, rest, ← List.append_assoc]
  exact Pattern.matchAt_lit_plus "inner_batch_size: " isDecimal h.inner_ne_nil h.inner_decimal
    l.comma_not_decimal

theorem search_outerBatchSizePattern_text {l : BatchSizesLayout} (h : l.WellFormed) :
    outerBatchSizePattern.search l.text = some l.outer := by
  -- the text cut before the outer label
  have hsplit : l.text = l.before ++ ("inner_batch_size: ".toList ++ l.inner ++ ", ".toList) ++
      ("outer_batch_size: ".toList ++ l.outer ++ l.after) := by
    simp only [text, List.append_assoc]; rfl
  rw [hsplit]
  refine Pattern.search_eq_of_first _
    (l.before ++ ("inner_batch_size: ".toList ++ l.inner ++ ", ".toList)).length (by simp)
    (fun j hj => Pattern.matchAt_eq_none_of_not_prefix ?_) ?_
  · by_cases hjP : j < l.before.length
    · -- in `before`, or across its end
      rw [List.append_assoc]
      refine not_prefix_drop_append hjP h.before_no_outer fun m hm h0 hp =>
        not_outerBatchSize_drop_prefix_inner m hm h0
          (List.prefix_of_prefix_length_le hp ?_ (by simp))
      simp only [List.append_assoc]
      exact List.prefix_append _ _
    · -- in `inner_batch_size: I, `, which has no `o`
      obtain ⟨k, rfl⟩ := Nat.exists_eq_add_of_le (Nat.le_of_not_lt hjP)
      rw [List.append_assoc, ← List.drop_drop, List.drop_left]
      refine not_prefix_drop_append_of_head (by simpa using hj) rfl ?_
      simp only [List.mem_append, not_or]
      exact ⟨⟨by decide, fun ho => absurd (h.inner_decimal 'o' ho) (by decide)⟩, by decide⟩
  · rw [List.drop_left]
    exact Pattern.matchAt_lit_plus "outer_batch_size: " isDecimal h.outer_ne_nil
      h.outer_decimal h.after_not_decimal

theorem batchSizesPieces_eq : batchSizesPieces = "inner_batch_size: ".toList.map .char ++
    (.plus isDecimal :: (", outer_batch_size: ".toList.map .char ++ [.plus isDecimal])) := by
  simp [batchSizesPieces, lit]

/-- At the pair, the first match of the pattern `re.sub` replaces ends where `after`
starts. -/
theorem head_matchPieces_batchSizesPieces {l : BatchSizesLayout} (h : l.WellFormed) :
    (matchPieces batchSizesPieces ("inner_batch_size: ".toList ++ l.rest)).head? =
      some l.after := by
  obtain ⟨r₁, h₁⟩ := matchPieces_plus_append isDecimal
    (", outer_batch_size: ".toList.map .char ++ [.plus isDecimal]) h.inner_ne_nil
    h.inner_decimal l.comma_not_decimal
  obtain ⟨r₂, h₂⟩ := matchPieces_plus_append isDecimal [] h.outer_ne_nil h.outer_decimal
    h.after_not_decimal
  rw [batchSizesPieces_eq, matchPieces_chars_append_self, rest, h₁,
    matchPieces_chars_append_self, h₂]
  rfl

/-- The rewrite without limits on a configuration with one adjacent pair of batch sizes:
the pair becomes the total batch size, the product of the two, and the rest is kept. -/
theorem totalBatchSizeConfig_text {l : BatchSizesLayout} (h : l.WellFormed) :
    totalBatchSizeConfig l.text =
      l.before ++ "total_batch_size: ".toList ++ str (int l.inner * int l.outer) ++ l.after := by
  unfold totalBatchSizeConfig sub
  rw [search_innerBatchSizePattern_text h, search_outerBatchSizePattern_text h]
  -- the scan keeps `before`
  have hbefore := sub.go_append_of_forall_eq_nil batchSizesPieces
    ("total_batch_size: ".toList ++ str (int l.inner * int l.outer)) l.text.length l.before
    ("inner_batch_size: ".toList ++ l.rest) fun j hj => by
      rw [batchSizesPieces_eq, ← text_eq]
      exact matchPieces_chars_append_of_not_prefix _ (not_prefix_drop_text h hj)
  rw [← text_eq] at hbefore
  dsimp only
  rw [hbefore]
  -- then replaces the pair, and finds nothing in `after`
  obtain ⟨c, t, hct⟩ := List.exists_cons_of_ne_nil
    (by simp : "inner_batch_size: ".toList ++ l.rest ≠ [])
  have hpair := head_matchPieces_batchSizesPieces h
  have hlen : l.text.length - l.before.length = t.length + 1 := by
    rw [text_eq, List.length_append, ← List.length_cons, ← hct]; omega
  have hafter : l.after.length < t.length + 1 := by
    have := congrArg List.length hct
    simp only [rest, List.length_append, List.length_cons] at this
    have := List.length_pos.mpr h.inner_ne_nil
    omega
  rw [hct] at hpair
  rw [hlen, hct, sub.go_succ_cons_of_head? hpair hafter,
    sub.go_of_forall_eq_nil _ _ _ l.after fun j _ => by
      rw [batchSizesPieces_eq]
      exact matchPieces_chars_append_of_not_prefix _ fun hp =>
        h.after_no_inner (hp.isInfix.trans (List.drop_suffix j l.after).isInfix)]
  simp

theorem batchSizesError_text {l : BatchSizesLayout} (h : l.WellFormed) :
    batchSizesError l.text =
      if maxStrDigits < l.inner.length then some (.exceedsLimit l.inner.length)
      else if maxStrDigits < l.outer.length then some (.exceedsLimit l.outer.length)
      else if maxStrDigits < (str (int l.inner * int l.outer)).length then some .strExceedsLimit
      else none := by
  rw [batchSizesError, search_innerBatchSizePattern_text h, search_outerBatchSizePattern_text h]

/-- The Keccak rewrite on a configuration with one adjacent pair of batch sizes: `int()` on
a size of more than 4300 digits, the inner one first, or `str()` on a product of more than
4300 digits raises `ValueError`; otherwise the pair becomes the total batch size, the
product of the two, and the rest is kept. -/
theorem keccakConfiguration_text (l : BatchSizesLayout) (h : l.WellFormed) :
    keccakConfiguration l.text =
      if maxStrDigits < l.inner.length then .error (.exceedsLimit l.inner.length)
      else if maxStrDigits < l.outer.length then .error (.exceedsLimit l.outer.length)
      else if maxStrDigits < (str (int l.inner * int l.outer)).length then .error .strExceedsLimit
      else .ok (l.before ++ "total_batch_size: ".toList ++ str (int l.inner * int l.outer) ++
        l.after) := by
  rw [keccakConfiguration_eq, batchSizesError_text h, totalBatchSizeConfig_text h]
  split_ifs <;> rfl

/-- A Keccak configuration in the form the benchmarks print it. -/
theorem keccakConfiguration_benchmark_config :
    keccakConfiguration (BatchSizesLayout.text
        ⟨"KeccakConfig \x7b degree_bits: 18, num_app_public_inputs: 8, ".toList, "2".toList,
          "4".toList, ", lookup_bits: 17 \x7d".toList⟩) =
      .ok "KeccakConfig \x7b degree_bits: 18, num_app_public_inputs: 8, total_batch_size: 8, lookup_bits: 17 \x7d".toList :=
  (keccakConfiguration_text _
    ⟨by decide, by decide, by decide, by decide, by decide, by decide, by decide, by decide⟩).trans
    rfl

end UpaScripts.LogParsing
