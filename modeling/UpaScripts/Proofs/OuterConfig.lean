import UpaScripts.LogParsing.CompileOuterProvingTimes

/-!
# `UpaScripts.Proofs.OuterConfig`: reading an outer configuration

`parse_outer_config` and `extract_ubv_and_keccak_configs` read the configuration of a
`UniversalOuter` row with ten regular expressions. `OuterConfigLayout` is such a
configuration cut at the numbers they read: after a free `before`, the ten texts of
`outerConfigTexts`, each followed by a number as `str` prints it, then a free `after`. The
three sizes come first, then the four fields of `bv_config`, the two of `keccak_config`, and
the degree bits of `outer_config`. `WellFormed` asks that `before` has no colon, that
`after` does not go on with a digit, and that the batch sizes and their product have at most
4300 digits, the limit of `int()` and `str()`.

* `parseOuterConfig_text`: the seven values of the dict are the numbers of the layout,
  with the total batch size the product of the two sizes.
* `extractUbvAndKeccakConfigs_text`: the UBV configuration is rebuilt from the four fields
  of `bv_config`, the inner batch size and the number of public inputs; the Keccak one from
  the two fields of `keccak_config`, the number of public inputs and the product of the
  sizes.

The proof has one lemma for each thing the engine does:

* `NoStart`, `NoOverlap`: no occurrence of a label starts in a stretch of the text;
  `noStart_printed` for texts and printed numbers, `noStart_of_not_mem` for `before`.
* `search_text_of_field`: a search for a label finds it in the field that prints it.
* `matchAt_label`, `matchAt_degreeBitsPattern`, `matchAt_configPattern`: what each kind of
  pattern captures there. `[^}]+` first runs to the space before `}` and gives it back.
* `findall_bvFields`: the scan of `findall` over the fields of `bv_config`.
-/

set_option autoImplicit false

namespace UpaScripts.LogParsing

open UpaScripts.Python

/-! ### Where a label can start -/

/-- No occurrence of `L` starts inside `A`, when `B` follows `A`. -/
def NoStart (L A B : List Char) : Prop :=
  ∀ j < A.length, ¬ L <+: (A ++ B).drop j

/-- No occurrence of `L` starts in `S` or runs over its end, whatever follows `S`: `L` is not
in `S`, and `S` does not end with a start of `L`. -/
def NoOverlap (L S : List Char) : Prop :=
  ∀ m < S.length, ¬ L <+: S.drop m ∧ ¬ S.drop m <+: L

instance (L S : List Char) : Decidable (NoOverlap L S) :=
  inferInstanceAs (Decidable (∀ m < S.length, _))

theorem NoStart.append {L A₁ A₂ B : List Char} (h₁ : NoStart L A₁ (A₂ ++ B))
    (h₂ : NoStart L A₂ B) : NoStart L (A₁ ++ A₂) B := by
  intro j hj
  by_cases hj₁ : j < A₁.length
  · rw [List.append_assoc]; exact h₁ j hj₁
  · obtain ⟨k, rfl⟩ := Nat.exists_eq_add_of_le (Nat.le_of_not_lt hj₁)
    rw [List.append_assoc, List.drop_append]
    exact h₂ k (by simp at hj; omega)

theorem noStart_nil (L B : List Char) : NoStart L [] B :=
  fun _ h => absurd h (Nat.not_lt_zero _)

theorem noStart_of_noOverlap {L S : List Char} (h : NoOverlap L S) (B : List Char) :
    NoStart L S B := by
  intro j hj hp
  rw [List.drop_append_of_le_length hj.le] at hp
  rcases List.prefix_or_prefix_of_prefix hp (List.prefix_append _ _) with h' | h'
  exacts [(h j hj).1 h', (h j hj).2 h']

/-- A label that starts with no digit starts nowhere in a printed number. -/
theorem noStart_str {L : List Char} {c : Char} (hL : L.head? = some c) (hc : c.isDigit = false)
    (n : Nat) (B : List Char) : NoStart L (str n) B := fun _ hj =>
  not_prefix_drop_append_of_head hj hL fun h => absurd (isDigit_of_mem_str h) (by simp [hc])

/-- A label with a character `c` that `A` lacks starts in `A` only if a proper end of it
starts what follows; `K`, a start of what follows, rules that out. -/
theorem noStart_of_not_mem {L A K B : List Char} {c : Char} (hA : c ∉ A) (hL : c ∈ L)
    (hK : K <+: B) (hLK : ∀ m < L.length, 0 < m → ¬ L.drop m <+: K ∧ ¬ K <+: L.drop m) :
    NoStart L A B := fun _ hj =>
  not_prefix_drop_append hj (fun hi => hA (hi.subset hL)) fun m hm h0 hp => by
    rcases List.prefix_or_prefix_of_prefix hp hK with h | h
    exacts [(hLK m hm h0).1 h, (hLK m hm h0).2 h]

/-! ### Printed numbers -/

/-- Fixed texts, each followed by a number as `str` prints it. -/
def printed : List (List Char) → List Nat → List Char
  | s :: segs, n :: ns => s ++ str n ++ printed segs ns
  | _, _ => []

theorem noStart_printed {L : List Char} {c : Char} (hL : L.head? = some c)
    (hc : c.isDigit = false) {segs : List (List Char)} (hsegs : ∀ s ∈ segs, NoOverlap L s)
    (ns : List Nat) (B : List Char) : NoStart L (printed segs ns) B := by
  induction segs generalizing ns with
  | nil => exact noStart_nil L B
  | cons s segs ih =>
    cases ns with
    | nil => exact noStart_nil L B
    | cons n ns =>
      exact ((noStart_of_noOverlap (hsegs s (List.mem_cons_self _ _)) _).append
        (noStart_str hL hc n _)).append (ih (fun s hs => hsegs s (List.mem_cons_of_mem _ hs)) ns)

/-- The text printed around field `j`. -/
theorem printed_split {segs : List (List Char)} {ns : List Nat} {j : Nat}
    (hj : j < segs.length) (hjn : j < ns.length) :
    printed segs ns = printed (segs.take j) (ns.take j) ++
      (segs[j] ++ (str ns[j] ++ printed (segs.drop (j + 1)) (ns.drop (j + 1)))) := by
  induction j generalizing segs ns with
  | zero =>
    obtain ⟨s, segs, rfl⟩ := List.exists_cons_of_length_pos hj
    obtain ⟨n, ns, rfl⟩ := List.exists_cons_of_length_pos hjn
    simp [printed]
  | succ j ih =>
    obtain ⟨s, segs, rfl⟩ := List.exists_cons_of_length_pos (by omega : 0 < segs.length)
    obtain ⟨n, ns, rfl⟩ := List.exists_cons_of_length_pos (by omega : 0 < ns.length)
    simp only [List.length_cons, Nat.add_lt_add_iff_right] at hj hjn
    simp [printed, ih hj hjn]

/-- A character of a printed text comes from one of its texts or is a digit. -/
theorem mem_printed {segs : List (List Char)} {ns : List Nat} {c : Char}
    (h : c ∈ printed segs ns) : (∃ s ∈ segs, c ∈ s) ∨ c.isDigit = true := by
  induction segs generalizing ns with
  | nil => simp [printed] at h
  | cons s segs ih =>
    cases ns with
    | nil => simp [printed] at h
    | cons n ns =>
      simp only [printed, List.mem_append] at h
      rcases h with (h | h) | h
      · exact .inl ⟨s, List.mem_cons_self _ _, h⟩
      · exact .inr (isDigit_of_mem_str h)
      · exact (ih h).imp_left fun ⟨t, ht, hc⟩ => ⟨t, List.mem_cons_of_mem _ ht, hc⟩

theorem not_mem_printed {segs : List (List Char)} {c : Char} (hsegs : ∀ s ∈ segs, c ∉ s)
    (hc : c.isDigit = false) (ns : List Nat) : c ∉ printed segs ns := fun h => by
  rcases mem_printed h with ⟨s, hs, h⟩ | h
  exacts [hsegs s hs h, by simp [hc] at h]

theorem printed_ne_nil {s : List Char} {segs : List (List Char)} {n : Nat} {ns : List Nat} :
    printed (s :: segs) (n :: ns) ≠ [] := by
  simp [printed, str_ne_nil]

theorem decimal_str (n : Nat) : ∀ c ∈ str n, isDecimal c = true := fun _ h =>
  isDecimal_of_isDigit (isDigit_of_mem_str h)

theorem head?_append_not_decimal {s : List Char} (hne : s ≠ [])
    (hs : ∀ c ∈ s.head?, isDecimal c = false) (Y : List Char) :
    ∀ c ∈ (s ++ Y).head?, isDecimal c = false := by
  rwa [List.head?_append_of_ne_nil _ hne]

/-! ### The layout -/

/-- The texts an outer configuration prints before its numbers: the three sizes, the four
fields of `bv_config`, the two of `keccak_config`, and the degree bits of `outer_config`. -/
def outerConfigTexts : List (List Char) :=
  ["max_num_app_public_inputs: ", ", inner_batch_size: ", ", outer_batch_size: ",
    ", bv_config: CircuitWithLimbsConfig \x7b degree_bits: ", ", lookup_bits: ", ", limb_bits: ",
    ", num_limbs: ", " \x7d, keccak_config: CircuitConfig \x7b degree_bits: ", ", lookup_bits: ",
    " \x7d, outer_config: CircuitWithLimbsConfig \x7b degree_bits: "].map String.toList

/-- The texts of the fields of `bv_config`: what `[^}]+` captures of them. -/
def bvConfigTexts : List (List Char) :=
  ["degree_bits: ", ", lookup_bits: ", ", limb_bits: ", ", num_limbs: "].map String.toList

/-- The texts of the fields of `keccak_config`. -/
def keccakConfigTexts : List (List Char) :=
  ["degree_bits: ", ", lookup_bits: "].map String.toList

/-- An outer configuration cut at the numbers the two functions read. -/
structure OuterConfigLayout where
  before : List Char
  maxNumAppPublicInputs : Nat
  innerBatchSize : Nat
  outerBatchSize : Nat
  bvDegreeBits : Nat
  bvLookupBits : Nat
  bvLimbBits : Nat
  bvNumLimbs : Nat
  keccakDegreeBits : Nat
  keccakLookupBits : Nat
  outerDegreeBits : Nat
  after : List Char
deriving DecidableEq, Repr

namespace OuterConfigLayout

/-- The numbers, in the order the configuration prints them. -/
def numbers (l : OuterConfigLayout) : List Nat :=
  [l.maxNumAppPublicInputs, l.innerBatchSize, l.outerBatchSize, l.bvDegreeBits, l.bvLookupBits,
    l.bvLimbBits, l.bvNumLimbs, l.keccakDegreeBits, l.keccakLookupBits, l.outerDegreeBits]

/-- The configuration. -/
def text (l : OuterConfigLayout) : List Char :=
  l.before ++ (printed outerConfigTexts l.numbers ++ l.after)

/-- The text from field `j` on. -/
def rest (l : OuterConfigLayout) (j : Nat) : List Char :=
  printed (outerConfigTexts.drop j) (l.numbers.drop j) ++ l.after

/-- The fields of `bv_config`, as `bv_config: CircuitWithLimbsConfig { ([^}]+) }` captures
them. -/
def bvFields (l : OuterConfigLayout) : List Char :=
  printed bvConfigTexts [l.bvDegreeBits, l.bvLookupBits, l.bvLimbBits, l.bvNumLimbs]

/-- The fields of `keccak_config`. -/
def keccakFields (l : OuterConfigLayout) : List Char :=
  printed keccakConfigTexts [l.keccakDegreeBits, l.keccakLookupBits]

/-- What the two functions need of a layout. -/
structure WellFormed (l : OuterConfigLayout) : Prop where
  /-- No label starts in `before`, nor runs from it into the first label. -/
  before_no_colon : ':' ∉ l.before
  /-- The outer degree bits end where `after` starts. -/
  after_not_decimal : ∀ c ∈ l.after.head?, isDecimal c = false
  innerBatchSize_le : (str l.innerBatchSize).length ≤ maxStrDigits
  outerBatchSize_le : (str l.outerBatchSize).length ≤ maxStrDigits
  totalBatchSize_le : (str (l.innerBatchSize * l.outerBatchSize)).length ≤ maxStrDigits

theorem text_eq_field (l : OuterConfigLayout) {j : Nat} (hj : j < 10) :
    l.text = (l.before ++ printed (outerConfigTexts.take j) (l.numbers.take j)) ++
      (outerConfigTexts[j] ++ (str (l.numbers.get ⟨j, hj⟩) ++ l.rest (j + 1))) := by
  rw [text, @printed_split outerConfigTexts l.numbers j hj hj, rest]
  simp only [List.append_assoc, List.get_eq_getElem]

/-- What follows a number is a text that starts with a comma or a space, or `after`. -/
theorem head?_rest (l : OuterConfigLayout) (hafter : ∀ c ∈ l.after.head?, isDecimal c = false)
    {j : Nat} (hj : j ≤ 10) : ∀ c ∈ (l.rest j).head?, isDecimal c = false := by
  have htexts : ∀ s ∈ outerConfigTexts, s ≠ [] ∧ ∀ c ∈ s.head?, isDecimal c = false := by
    decide
  rcases Nat.lt_or_eq_of_le hj with hj | rfl
  · have h := htexts _ (List.getElem_mem (l := outerConfigTexts) hj)
    rw [rest, @List.drop_eq_getElem_cons _ _ outerConfigTexts hj,
      @List.drop_eq_getElem_cons _ _ l.numbers hj, printed, List.append_assoc,
      List.append_assoc]
    exact head?_append_not_decimal h.1 h.2 _
  · exact hafter

/-- The start of the first label, up to its colon. -/
def firstLabel : List Char := "max_num_app_public_inputs:".toList

theorem firstLabel_isPrefix_text (l : OuterConfigLayout) :
    firstLabel <+: printed outerConfigTexts l.numbers ++ l.after := by
  have h0 : outerConfigTexts[0] = "max_num_app_public_inputs: ".toList := rfl
  rw [@printed_split outerConfigTexts l.numbers 0 (by decide) (by simp [numbers]), h0]
  simp only [List.take_zero, printed, List.nil_append, List.append_assoc]
  exact (by decide : firstLabel <+: "max_num_app_public_inputs: ".toList).trans
    (List.prefix_append _ _)

/-- The fields of `bv_config` end with ` }`. -/
theorem bvFields_rest (l : OuterConfigLayout) :
    "degree_bits: ".toList ++ (str l.bvDegreeBits ++ l.rest 4) = l.bvFields ++ ' ' :: '\x7d' ::
      (", keccak_config: CircuitConfig \x7b degree_bits: ".toList ++
        (str l.keccakDegreeBits ++ l.rest 8)) := by
  simp only [rest, bvFields, outerConfigTexts, bvConfigTexts, numbers, List.map_cons,
    List.map_nil, List.drop_succ_cons, List.drop_zero, printed, List.append_assoc, List.nil_append]
  rfl

/-- The fields of `keccak_config` end with ` }`. -/
theorem keccakFields_rest (l : OuterConfigLayout) :
    "degree_bits: ".toList ++ (str l.keccakDegreeBits ++ l.rest 8) =
      l.keccakFields ++ ' ' :: '\x7d' ::
        (", outer_config: CircuitWithLimbsConfig \x7b degree_bits: ".toList ++
          (str l.outerDegreeBits ++ l.after)) := by
  simp only [rest, keccakFields, outerConfigTexts, keccakConfigTexts, numbers, List.map_cons,
    List.map_nil, List.drop_succ_cons, List.drop_zero, printed, List.append_assoc, List.nil_append]
  rfl

theorem keccakFields_eq (l : OuterConfigLayout) :
    l.keccakFields = "degree_bits: ".toList ++ (str l.keccakDegreeBits ++
      (", lookup_bits: ".toList ++ (str l.keccakLookupBits ++ []))) := by
  simp only [keccakFields, keccakConfigTexts, List.map_cons, List.map_nil, printed,
    List.append_assoc]

end OuterConfigLayout

open OuterConfigLayout

/-! ### Searching for a label -/

/-- What a search for the label `L` needs, when `L` is first printed after `P` in the text of
field `j`: `L` starts with no digit; it has a colon, and no proper end of it starts the
first label, so it does not start in `before`; and it starts in no earlier text, nor in
`P`. -/
def FieldLabel (L : List Char) (j : Nat) (P : List Char) : Prop :=
  (∀ c ∈ L.head?, c.isDigit = false) ∧ ':' ∈ L ∧
    (∀ m < L.length, 0 < m → ¬ L.drop m <+: firstLabel ∧ ¬ firstLabel <+: L.drop m) ∧
    (∀ s ∈ outerConfigTexts.take j, NoOverlap L s) ∧ NoOverlap L P

instance (L : List Char) (j : Nat) (P : List Char) : Decidable (FieldLabel L j P) :=
  inferInstanceAs (Decidable (_ ∧ _))

/-- A search for a label printed in field `j` gives what the pattern matches there. -/
theorem search_text_of_field {l : OuterConfigLayout} (hbefore : ':' ∉ l.before) {p : Pattern}
    {L : List Char} (hp : p.StartsWith L) {j : Nat} (hj : j < 10) {P Q : List Char}
    (hseg : outerConfigTexts[j] = P ++ (L ++ Q)) (hL : FieldLabel L j P) {v : List Char}
    (hmatch : p.matchAt (L ++ (Q ++ (str (l.numbers.get ⟨j, hj⟩) ++ l.rest (j + 1)))) = some v) :
    p.search l.text = some v := by
  obtain ⟨hhead, hcolon, hfirst, htexts, hP⟩ := hL
  obtain ⟨c, hc⟩ : ∃ c, L.head? = some c := Option.ne_none_iff_exists'.mp fun h => by
    simp [List.head?_eq_none_iff.mp h] at hcolon
  have htext : l.text = ((l.before ++ printed (outerConfigTexts.take j) (l.numbers.take j)) ++
      P) ++ (L ++ (Q ++ (str (l.numbers.get ⟨j, hj⟩) ++ l.rest (j + 1)))) := by
    rw [text_eq_field l hj, hseg]; simp only [List.append_assoc]
  -- what follows `before`
  have hafter : (printed (outerConfigTexts.take j) (l.numbers.take j) ++ P) ++
      (L ++ (Q ++ (str (l.numbers.get ⟨j, hj⟩) ++ l.rest (j + 1)))) =
        printed outerConfigTexts l.numbers ++ l.after := by
    have := htext.symm.trans
      (show l.text = l.before ++ (printed outerConfigTexts l.numbers ++ l.after) from rfl)
    simpa only [List.append_assoc, List.append_cancel_left_eq] using this
  rw [htext]
  refine (p.search_append_of_forall fun i hi =>
    Pattern.matchAt_eq_none_of_before (hp _ ?_)).trans (p.search_eq_of_matchAt hmatch)
  refine NoStart.append (NoStart.append ?_ (noStart_printed hc (hhead c hc) htexts _ _))
    (noStart_of_noOverlap hP _) i hi
  rw [← List.append_assoc, hafter]
  exact noStart_of_not_mem hbefore hcolon (firstLabel_isPrefix_text l) hfirst

/-! ### What the patterns capture -/

theorem matchPieces_lit_self (L : String) (s : List Char) :
    matchPieces (lit L) (L.toList ++ s) = [s] := by
  simpa using matchPieces_chars_append_self L.toList [] s

theorem matchPieces_lit_eq_nil (L : String) {s : List Char} (h : ¬ L.toList <+: s) :
    matchPieces (lit L) s = [] := by
  simpa using matchPieces_chars_append_of_not_prefix [] h

/-- A label followed by a printed number: `(\d+)` captures the number. -/
theorem matchAt_label (L : String) (n : Nat) {rest : List Char}
    (hrest : ∀ c ∈ rest.head?, isDecimal c = false) :
    (⟨lit L, [.plus isDecimal], []⟩ : Pattern).matchAt (L.toList ++ ([] ++ (str n ++ rest))) =
      some (str n) :=
  Pattern.matchAt_plus_of_head (matchPieces_lit_self L _) (str_ne_nil n) (decimal_str n) hrest
    (by simp)

theorem degreeBitsPattern_startsWith (sectionName : String) :
    (degreeBitsPattern sectionName).StartsWith (sectionName ++ ":").toList := fun _ h => by
  rw [degreeBitsPattern, List.append_assoc]
  exact matchPieces_chars_append_of_not_prefix _ h

/-- `section:.*?degree_bits: (\d+)` on a section whose text `X` up to its degree bits is on
one line: `.*?` stops at the first `degree_bits: `, and the group captures the number. -/
theorem matchAt_degreeBitsPattern (sectionName : String) {X : List Char}
    (hX : ∀ c ∈ X, c ≠ '\n') (hXD : NoOverlap "degree_bits: ".toList X) (n : Nat)
    {rest : List Char} (hrest : ∀ c ∈ rest.head?, isDecimal c = false) :
    (degreeBitsPattern sectionName).matchAt
      ((sectionName ++ ":").toList ++ ((X ++ "degree_bits: ".toList) ++ (str n ++ rest))) =
        some (str n) := by
  obtain ⟨r, hr⟩ := @matchPieces_lazyStar_append (· ≠ '\n') (lit "degree_bits: ") X
    ("degree_bits: ".toList ++ (str n ++ rest)) (by simpa using hX)
    fun k hk => matchPieces_lit_eq_nil _ (noStart_of_noOverlap hXD _ k hk)
  have hbefore : matchPieces (degreeBitsPattern sectionName).before
      ((sectionName ++ ":").toList ++ ((X ++ "degree_bits: ".toList) ++ (str n ++ rest))) =
        (str n ++ rest) :: r := by
    rw [degreeBitsPattern, List.append_assoc, List.singleton_append, lit,
      matchPieces_chars_append_self, List.append_assoc, hr, matchPieces_lit_self]
    rfl
  exact Pattern.matchAt_plus_of_head hbefore (str_ne_nil n) (decimal_str n) hrest (by simp)

/-- `label { ([^}]+) }` on fields `G` without a `}`, followed by ` }`. -/
theorem matchAt_configPattern (L : String) {G ys : List Char} (hG : G ≠ [])
    (hGc : ∀ c ∈ G, c ≠ '\x7d') :
    (⟨lit L, [.plus (· ≠ '\x7d')], lit " \x7d"⟩ : Pattern).matchAt
      (L.toList ++ (G ++ ' ' :: '\x7d' :: ys)) = some G :=
  Pattern.matchAt_plus_chars_of_head (matchPieces_lit_self L _) hG (by simpa using hGc)
    (by decide) (by decide)

/-! ### The searches on a configuration -/

section Searches

variable {l : OuterConfigLayout} (hw : l.WellFormed)
include hw

theorem search_maxNumAppPublicInputsPattern_text :
    maxNumAppPublicInputsPattern.search l.text = some (str l.maxNumAppPublicInputs) :=
  search_text_of_field hw.before_no_colon (Pattern.startsWith_lit _ _ _) (by decide : 0 < 10)
    (by decide : outerConfigTexts[0] = [] ++ ("max_num_app_public_inputs: ".toList ++ []))
    (by decide) (matchAt_label _ _ (l.head?_rest hw.after_not_decimal (by decide)))

theorem search_innerBatchSizePattern_outer_text :
    innerBatchSizePattern.search l.text = some (str l.innerBatchSize) :=
  search_text_of_field hw.before_no_colon (Pattern.startsWith_lit _ _ _) (by decide : 1 < 10)
    (by decide : outerConfigTexts[1] = ", ".toList ++ ("inner_batch_size: ".toList ++ []))
    (by decide) (matchAt_label _ _ (l.head?_rest hw.after_not_decimal (by decide)))

theorem search_outerBatchSizePattern_outer_text :
    outerBatchSizePattern.search l.text = some (str l.outerBatchSize) :=
  search_text_of_field hw.before_no_colon (Pattern.startsWith_lit _ _ _) (by decide : 2 < 10)
    (by decide : outerConfigTexts[2] = ", ".toList ++ ("outer_batch_size: ".toList ++ []))
    (by decide) (matchAt_label _ _ (l.head?_rest hw.after_not_decimal (by decide)))

theorem search_degreeBitsPattern_bv_text :
    (degreeBitsPattern "bv_config").search l.text = some (str l.bvDegreeBits) :=
  search_text_of_field hw.before_no_colon (degreeBitsPattern_startsWith _) (by decide : 3 < 10)
    (by decide : outerConfigTexts[3] = ", ".toList ++ (("bv_config" ++ ":").toList ++
      (" CircuitWithLimbsConfig \x7b ".toList ++ "degree_bits: ".toList)))
    (by decide) (matchAt_degreeBitsPattern _ (by decide) (by decide) _
      (l.head?_rest hw.after_not_decimal (by decide)))

theorem search_degreeBitsPattern_keccak_text :
    (degreeBitsPattern "keccak_config").search l.text = some (str l.keccakDegreeBits) :=
  search_text_of_field hw.before_no_colon (degreeBitsPattern_startsWith _) (by decide : 7 < 10)
    (by decide : outerConfigTexts[7] = " \x7d, ".toList ++ (("keccak_config" ++ ":").toList ++
      (" CircuitConfig \x7b ".toList ++ "degree_bits: ".toList)))
    (by decide) (matchAt_degreeBitsPattern _ (by decide) (by decide) _
      (l.head?_rest hw.after_not_decimal (by decide)))

theorem search_degreeBitsPattern_outer_text :
    (degreeBitsPattern "outer_config").search l.text = some (str l.outerDegreeBits) :=
  search_text_of_field hw.before_no_colon (degreeBitsPattern_startsWith _) (by decide : 9 < 10)
    (by decide : outerConfigTexts[9] = " \x7d, ".toList ++ (("outer_config" ++ ":").toList ++
      (" CircuitWithLimbsConfig \x7b ".toList ++ "degree_bits: ".toList)))
    (by decide) (matchAt_degreeBitsPattern _ (by decide) (by decide) _
      (l.head?_rest hw.after_not_decimal (by decide)))

theorem search_bvConfigPattern_text :
    bvConfigPattern.search l.text = some l.bvFields := by
  refine search_text_of_field hw.before_no_colon (Pattern.startsWith_lit _ _ _)
    (by decide : 3 < 10) (by decide : outerConfigTexts[3] = ", ".toList ++
      ("bv_config: CircuitWithLimbsConfig \x7b ".toList ++ "degree_bits: ".toList))
    (by decide) ?_
  show bvConfigPattern.matchAt (_ ++ ("degree_bits: ".toList ++
    (str l.bvDegreeBits ++ l.rest 4))) = _
  rw [l.bvFields_rest]
  exact matchAt_configPattern _ printed_ne_nil
    (fun c hc => by rintro rfl; exact not_mem_printed (by decide) (by decide) _ hc)

theorem search_keccakConfigPattern_text :
    keccakConfigPattern.search l.text = some l.keccakFields := by
  refine search_text_of_field hw.before_no_colon (Pattern.startsWith_lit _ _ _)
    (by decide : 7 < 10) (by decide : outerConfigTexts[7] = " \x7d, ".toList ++
      ("keccak_config: CircuitConfig \x7b ".toList ++ "degree_bits: ".toList))
    (by decide) ?_
  show keccakConfigPattern.matchAt (_ ++ ("degree_bits: ".toList ++
    (str l.keccakDegreeBits ++ l.rest 8))) = _
  rw [l.keccakFields_rest]
  exact matchAt_configPattern _ printed_ne_nil
    (fun c hc => by rintro rfl; exact not_mem_printed (by decide) (by decide) _ hc)

end Searches

/-! ### The fields of `bv_config` and `keccak_config` -/

theorem prefix_append_iff_of_length_le {o A Z : List Char} (h : o.length ≤ A.length) :
    o <+: A ++ Z ↔ o <+: A :=
  ⟨fun ho => List.prefix_of_prefix_length_le ho (List.prefix_append A Z) h,
    fun ho => ho.trans (List.prefix_append A Z)⟩

/-- The names `(?:degree_bits|lookup_bits|limb_bits|num_limbs)` tries, in order. -/
def bvFieldNames : List (List Char) :=
  ["degree_bits", "lookup_bits", "limb_bits", "num_limbs"].map String.toList

/-- At a name and its number, the alternation takes that name, and the match ends after the
number. -/
theorem firstMatch_bvFieldPattern {o : List Char} (ho : o ∈ bvFieldNames) (n : Nat)
    {Y : List Char} (hY : ∀ c ∈ Y.head?, isDecimal c = false) :
    bvFieldPattern.firstMatch ((o ++ ": ".toList) ++ (str n ++ Y)) = some (str n, Y) := by
  have hbefore : ∃ rest, matchPieces bvFieldPattern.before
      ((o ++ ": ".toList) ++ (str n ++ Y)) = (str n ++ Y) :: rest := by
    simp only [bvFieldNames, List.map_cons, List.map_nil, List.mem_cons, List.not_mem_nil,
      or_false] at ho
    rcases ho with rfl | rfl | rfl | rfl <;>
      simp [bvFieldPattern, matchPieces_alt_cons, prefix_append_iff_of_length_le, lit,
        matchPieces]
  obtain ⟨rest, hrest⟩ := hbefore
  exact Pattern.firstMatch_plus_of_head hrest (str_ne_nil n) (decimal_str n) hY rfl

/-- One field of `bv_config` in the scan of `findall`: after a text `P` where no name starts,
the number is found, and the scan goes on after it. -/
theorem findall_bvFieldPattern_field {P o : List Char}
    (hP : ∀ o' ∈ bvFieldNames, NoOverlap o' P) (ho : o ∈ bvFieldNames) (n : Nat)
    {Y : List Char} (hY : ∀ c ∈ Y.head?, isDecimal c = false) :
    bvFieldPattern.findall (P ++ (o ++ (": ".toList ++ (str n ++ Y)))) =
      str n :: bvFieldPattern.findall Y := by
  rw [Pattern.findall_append_of_forall _ fun j hj => Pattern.firstMatch_eq_none_of_before
    (matchPieces_alt_eq_nil _ fun o' ho' =>
      noStart_of_noOverlap (hP o' ho') _ j hj)]
  have hfirst := firstMatch_bvFieldPattern ho n hY
  obtain ⟨c, t, hct⟩ := List.exists_cons_of_ne_nil
    (by simp : (o ++ ": ".toList) ++ (str n ++ Y) ≠ [])
  rw [List.append_assoc] at hct hfirst
  rw [hct] at hfirst ⊢
  refine Pattern.findall_cons_of_firstMatch hfirst ?_
  have := congrArg List.length hct
  simp only [List.length_append, List.length_cons] at this
  have := List.length_pos.mpr (str_ne_nil n)
  omega

theorem findall_bvFields (l : OuterConfigLayout) :
    bvFieldPattern.findall l.bvFields =
      [str l.bvDegreeBits, str l.bvLookupBits, str l.bvLimbBits, str l.bvNumLimbs] := by
  have hsep : ∀ o ∈ bvFieldNames, NoOverlap o ", ".toList := by decide
  have hcomma : ∀ Y : List Char, ∀ c ∈ (", ".toList ++ Y).head?, isDecimal c = false :=
    head?_append_not_decimal (by decide) (by decide)
  have hsplit : l.bvFields = [] ++ "degree_bits".toList ++ ": ".toList ++ str l.bvDegreeBits ++
      ", ".toList ++ "lookup_bits".toList ++ ": ".toList ++ str l.bvLookupBits ++
      ", ".toList ++ "limb_bits".toList ++ ": ".toList ++ str l.bvLimbBits ++
      ", ".toList ++ "num_limbs".toList ++ ": ".toList ++ str l.bvNumLimbs ++ [] := by
    simp only [bvFields, bvConfigTexts, List.map_cons, List.map_nil, printed, List.append_nil,
      List.nil_append, List.append_assoc]
    rfl
  rw [hsplit]
  simp only [List.append_assoc]
  rw [findall_bvFieldPattern_field (by decide) (by decide) _ (hcomma _),
    findall_bvFieldPattern_field hsep (by decide) _ (hcomma _),
    findall_bvFieldPattern_field hsep (by decide) _ (hcomma _),
    findall_bvFieldPattern_field hsep (by decide) _ (by simp), Pattern.findall_nil]

theorem search_keccakDegreeBitsPattern_fields (l : OuterConfigLayout) :
    keccakDegreeBitsPattern.search l.keccakFields = some (str l.keccakDegreeBits) := by
  obtain ⟨r, hr⟩ := matchPieces_plus_append isDecimal [] (str_ne_nil l.keccakLookupBits)
    (decimal_str _) (by simp : ∀ c ∈ ([] : List Char).head?, isDecimal c = false)
  refine Pattern.search_eq_of_matchAt _ ?_
  rw [keccakFields_eq]
  refine Pattern.matchAt_plus_of_head (matchPieces_lit_self _ _) (str_ne_nil _) (decimal_str _)
    (head?_append_not_decimal (by decide) (by decide) _) ?_
  rw [lit, matchPieces_chars_append_self, hr]
  simp

theorem search_keccakLookupBitsPattern_fields (l : OuterConfigLayout) :
    keccakLookupBitsPattern.search l.keccakFields = some (str l.keccakLookupBits) := by
  obtain ⟨r, hr⟩ := matchPieces_plus_append isDecimal (lit ", lookup_bits: ")
    (str_ne_nil l.keccakDegreeBits) (decimal_str _)
    (@head?_append_not_decimal ", lookup_bits: ".toList (by decide) (by decide)
      (str l.keccakLookupBits ++ []))
  have hbefore : matchPieces keccakLookupBitsPattern.before l.keccakFields =
      (str l.keccakLookupBits ++ []) :: r := by
    show matchPieces (lit "degree_bits: " ++ [.plus isDecimal] ++ lit ", lookup_bits: ") _ = _
    rw [keccakFields_eq, List.append_assoc, lit, matchPieces_chars_append_self,
      List.singleton_append, hr, matchPieces_lit_self]
    rfl
  exact Pattern.search_eq_of_matchAt _
    (Pattern.matchAt_plus_of_head hbefore (str_ne_nil _) (decimal_str _) (by simp) (by simp))

/-! ### `parse_outer_config` and `extract_ubv_and_keccak_configs` -/

theorem pyInt_str {n : Nat} (h : (str n).length ≤ maxStrDigits) : pyInt (str n) = .ok n := by
  have hstr : strOfInt (n : Int) = str n := by simp [strOfInt, Int.ofNat_nonneg]
  rw [pyInt, ← hstr, intOfStr_strOfInt _ (by simpa using h)]

theorem pyStr_natCast {n : Nat} (h : (str n).length ≤ maxStrDigits) :
    pyStr (n : Int) = .ok (str n) := by
  simp [pyStr, strOfIntChecked, h, strOfInt, Int.ofNat_nonneg]

theorem totalBatchSize_natCast (l : OuterConfigLayout) :
    ((l.innerBatchSize : Int) * l.outerBatchSize) =
      ((l.innerBatchSize * l.outerBatchSize : Nat) : Int) := by
  push_cast; rfl

namespace OuterConfigLayout

/-- The dict `parse_outer_config` returns for the configuration. -/
def configDetails (l : OuterConfigLayout) : Dict (List Char) (List Char) :=
  Dict.ofList
    [("inner_batch_size".toList, str l.innerBatchSize),
      ("outer_batch_size".toList, str l.outerBatchSize),
      ("total_batch_size".toList, str (l.innerBatchSize * l.outerBatchSize)),
      ("max_num_public_inputs".toList, str l.maxNumAppPublicInputs),
      ("outer_degree_bits".toList, str l.outerDegreeBits),
      ("ubv_degree_bits".toList, str l.bvDegreeBits),
      ("keccak_degree_bits".toList, str l.keccakDegreeBits)]

/-- The configuration of the UBV circuit the outer circuit aggregates. -/
def ubvKey (l : OuterConfigLayout) : List Char :=
  ubvConfigString (str l.bvDegreeBits) (str l.bvLookupBits) (str l.bvLimbBits) (str l.bvNumLimbs)
    (str l.innerBatchSize) (str l.maxNumAppPublicInputs)

/-- The configuration of the Keccak circuit the outer circuit aggregates. -/
def keccakKey (l : OuterConfigLayout) : List Char :=
  keccakConfigString (str l.keccakDegreeBits) (str l.maxNumAppPublicInputs)
    (str (l.innerBatchSize * l.outerBatchSize)) (str l.keccakLookupBits)

end OuterConfigLayout

theorem parseOuterConfig_eq_configDetails {l : OuterConfigLayout} (hw : l.WellFormed) :
    parseOuterConfig (some l.text) = .ok l.configDetails := by
  simp only [parseOuterConfig, reSearch, search_innerBatchSizePattern_outer_text hw,
    search_outerBatchSizePattern_outer_text hw, search_maxNumAppPublicInputsPattern_text hw,
    search_degreeBitsPattern_outer_text hw, search_degreeBitsPattern_bv_text hw,
    search_degreeBitsPattern_keccak_text hw, group, pyInt_str hw.innerBatchSize_le,
    pyInt_str hw.outerBatchSize_le, totalBatchSize_natCast, pyStr_natCast hw.totalBatchSize_le,
    except_bind_ok]
  rfl

theorem extractUbvAndKeccakConfigs_eq_keys {l : OuterConfigLayout} (hw : l.WellFormed) :
    extractUbvAndKeccakConfigs (some l.text) = .ok (l.ubvKey, l.keccakKey) := by
  simp only [extractUbvAndKeccakConfigs, reSearch, search_innerBatchSizePattern_outer_text hw,
    search_outerBatchSizePattern_outer_text hw, search_maxNumAppPublicInputsPattern_text hw,
    search_bvConfigPattern_text hw, search_keccakConfigPattern_text hw, findall_bvFields,
    search_keccakDegreeBitsPattern_fields, search_keccakLookupBitsPattern_fields, group,
    pyInt_str hw.innerBatchSize_le, pyInt_str hw.outerBatchSize_le, totalBatchSize_natCast,
    pyStr_natCast hw.totalBatchSize_le, except_bind_ok]
  rfl

/-- A configuration in the form the benchmarks print, with the sizes of a small run. -/
def sampleOuterConfig : OuterConfigLayout :=
  ⟨[], 8, 2, 4, 21, 20, 88, 3, 18, 17, 23,
    ", lookup_bits: 22, limb_bits: 88, num_limbs: 3 \x7d".toList⟩

theorem sampleOuterConfig_wellFormed : sampleOuterConfig.WellFormed :=
  ⟨by decide, by decide, by decide, by decide, by decide⟩

/-- `parse_outer_config` on a configuration of the benchmarks' form: the dict of its
numbers, the total batch size the product of the two sizes. -/
theorem parseOuterConfig_text {l : OuterConfigLayout} (hw : l.WellFormed) :
    parseOuterConfig (some l.text) = .ok (Dict.ofList
      [("inner_batch_size".toList, str l.innerBatchSize),
        ("outer_batch_size".toList, str l.outerBatchSize),
        ("total_batch_size".toList, str (l.innerBatchSize * l.outerBatchSize)),
        ("max_num_public_inputs".toList, str l.maxNumAppPublicInputs),
        ("outer_degree_bits".toList, str l.outerDegreeBits),
        ("ubv_degree_bits".toList, str l.bvDegreeBits),
        ("keccak_degree_bits".toList, str l.keccakDegreeBits)]) :=
  parseOuterConfig_eq_configDetails hw

theorem parseOuterConfig_sample :
    sampleOuterConfig.WellFormed ∧ parseOuterConfig (some sampleOuterConfig.text) = .ok
      (Dict.ofList [("inner_batch_size".toList, "2".toList), ("outer_batch_size".toList, "4".toList),
        ("total_batch_size".toList, "8".toList), ("max_num_public_inputs".toList, "8".toList),
        ("outer_degree_bits".toList, "23".toList), ("ubv_degree_bits".toList, "21".toList),
        ("keccak_degree_bits".toList, "18".toList)]) :=
  ⟨sampleOuterConfig_wellFormed,
    (parseOuterConfig_text sampleOuterConfig_wellFormed).trans (congrArg _ (by decide))⟩

/-- `extract_ubv_and_keccak_configs` on a configuration of the benchmarks' form: the UBV
configuration of the four fields of `bv_config`, the inner batch size and the number of
public inputs, and the Keccak configuration of the two fields of `keccak_config`, the number
of public inputs and the product of the two batch sizes. -/
theorem extractUbvAndKeccakConfigs_text {l : OuterConfigLayout} (hw : l.WellFormed) :
    extractUbvAndKeccakConfigs (some l.text) = .ok
      (ubvConfigString (str l.bvDegreeBits) (str l.bvLookupBits) (str l.bvLimbBits)
          (str l.bvNumLimbs) (str l.innerBatchSize) (str l.maxNumAppPublicInputs),
        keccakConfigString (str l.keccakDegreeBits) (str l.maxNumAppPublicInputs)
          (str (l.innerBatchSize * l.outerBatchSize)) (str l.keccakLookupBits)) :=
  extractUbvAndKeccakConfigs_eq_keys hw

theorem extractUbvAndKeccakConfigs_sample :
    sampleOuterConfig.WellFormed ∧ extractUbvAndKeccakConfigs (some sampleOuterConfig.text) = .ok
      (("UniversalBatchVerifierConfig \x7b degree_bits: 21, lookup_bits: 20, limb_bits: 88, " ++
          "num_limbs: 3, inner_batch_size: 2, max_num_public_inputs: 8 \x7d").toList,
        ("KeccakConfig \x7b degree_bits: 18, num_app_public_inputs: 8, total_batch_size: 8, " ++
          "lookup_bits: 17 \x7d").toList) :=
  ⟨sampleOuterConfig_wellFormed,
    (extractUbvAndKeccakConfigs_text sampleOuterConfig_wellFormed).trans (congrArg _ (by decide))⟩

end UpaScripts.LogParsing
