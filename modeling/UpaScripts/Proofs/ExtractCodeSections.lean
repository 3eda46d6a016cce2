import UpaScripts.Proofs.FindMatchingBrace

/-!
# `UpaScripts.Proofs.ExtractCodeSections`: what the extractor returns and writes

`extractCodeSections` finds each object, then its `code {`, steps over the four letters
of `code` and scans for the matching brace from the blank in front of the `{`. The slice
it returns therefore starts at that blank: after `strip` it begins with the code block's
own `{`, and it ends just before the matching `}`.

* `locateCodeSection_layout`: one object's half of the extractor on a text laid out as
  object token, blank, `code {`, balanced body, `}`.
* `extractCodeSections_text`: on a `YulLayout` that is `WellFormed` (balanced bodies,
  blank gaps, each object token's first occurrence where the layout puts it), the two
  sections are the bodies with their opening brace in front and trailing whitespace
  removed. `extractCodeSections_spec_scenario` is the spec's own example: the sections
  are `{ MSTORE(0,1)` and `{ RETURN(0,0)`, not the stripped bodies.
* `extractCodeSections_shape`: on every input the extractor accepts, each section is a
  `{` followed by a balanced text.
* `splitYulCode_writes_balanced`: so both files `split_yul_code` writes, spelled as in the
  source's f-strings (`outputFile1_eq`, `outputFile2_eq`), are balanced, and the scan from
  their first `{` ends at their last character: the closing brace the source appends closes
  the object, and it matches the `{` the section kept.
-/

set_option autoImplicit false

namespace UpaScripts.Verification

open UpaScripts.Python

/-! ### Where `code {` cannot start -/

/-- `sub` does not start at the front of `l ++ z` when its first characters disagree with
those of `l`. -/
theorem not_prefix_append_of_take_ne {sub l z : List Char}
    (h : sub.take l.length ≠ l.take sub.length) : ¬ sub <+: l ++ z := by
  intro hp
  rcases List.prefix_or_prefix_of_prefix hp (List.prefix_append l z) with h' | h'
  · exact h (by rw [List.take_of_length_le h'.length_le, ← List.prefix_iff_eq_take.mp h'])
  · exact h (by rw [List.take_of_length_le h'.length_le, ← List.prefix_iff_eq_take.mp h'])

/-- `code {` starts at no position inside the token `tok`, whatever follows it. -/
def CodeTokenFree (tok : List Char) : Prop :=
  ∀ j < tok.length, codeToken.take (tok.drop j).length ≠ (tok.drop j).take codeToken.length

instance (tok : List Char) : Decidable (CodeTokenFree tok) :=
  inferInstanceAs (Decidable (∀ j < tok.length, _))

theorem creationObject_codeTokenFree : CodeTokenFree creationObject := by decide

theorem runtimeObject_codeTokenFree : CodeTokenFree runtimeObject := by decide

theorem not_codeToken_prefix_of_blank {gap z : List Char}
    (hgap : ∀ c ∈ gap, isspace c = true) {k : Nat} (hk : k < gap.length) :
    ¬ codeToken <+: gap.drop k ++ z := by
  obtain ⟨g, rest, hg⟩ : ∃ g rest, gap.drop k = g :: rest :=
    List.exists_cons_of_ne_nil (by simp; omega)
  have hsp := hgap g (List.mem_of_mem_drop (hg ▸ List.mem_cons_self g rest))
  rw [hg, List.cons_append]
  rintro ⟨w, hw⟩
  simp only [codeToken, String.toList, List.cons_append, List.cons.injEq] at hw
  rw [← hw.1] at hsp
  exact absurd hsp (by decide)

/-! ### One object -/

/-- From the blank of `code {` on, a laid-out text is the blank, the `{`, the body and the
rest. -/
theorem drop_layout (pre tok gap body post : List Char) :
    (pre ++ (tok ++ (gap ++ (codeToken ++ (body ++ '}' :: post))))).drop
        (pre.length + tok.length + gap.length + 4) =
      ' ' :: '{' :: (body ++ '}' :: post) := by
  simp only [Nat.add_assoc, List.drop_append]
  rw [List.drop_append_of_le_length (by decide)]
  rfl

/-- The slice the extractor takes of a laid-out text: the blank, the `{` and the body. -/
theorem slice_layout (pre tok gap body post : List Char) :
    slice (pre ++ (tok ++ (gap ++ (codeToken ++ (body ++ '}' :: post)))))
        (pre.length + tok.length + gap.length + 4)
        (pre.length + tok.length + gap.length + 6 + body.length) =
      ' ' :: '{' :: body := by
  rw [Python.slice, drop_layout, show pre.length + tok.length + gap.length + 6 + body.length -
    (pre.length + tok.length + gap.length + 4) = body.length + 1 + 1 by omega]
  simp

/-- Stripping the slice leaves the `{` and the body without its trailing whitespace. -/
theorem strip_blank_brace (body : List Char) : strip (' ' :: '{' :: body) = '{' :: rstrip body := by
  rw [strip, lstrip_cons_of_isspace _ (by decide), lstrip_cons_of_not_isspace _ (by decide),
    rstrip_cons_of_not_isspace _ (by decide)]

/-- One object's half of the extractor, on a text laid out as: text before, the object
token, a blank gap, `code {`, a balanced body, `}` and the rest. The code section starts
at the blank of `code {` and ends at the `}` after the body. -/
theorem locateCodeSection_layout (pre tok gap body post : List Char) (start : Nat)
    (hne : tok ≠ []) (htok : CodeTokenFree tok) (hgap : ∀ c ∈ gap, isspace c = true)
    (hbody : Balanced body) (hstart : start ≤ pre.length)
    (hfirst : ∀ i, start ≤ i → i < pre.length →
      ¬ OccursAt (pre ++ (tok ++ (gap ++ (codeToken ++ (body ++ '}' :: post))))) tok i) :
    locateCodeSection (pre ++ (tok ++ (gap ++ (codeToken ++ (body ++ '}' :: post))))) tok
        start =
      some (pre.length + tok.length + gap.length + 4,
        pre.length + tok.length + gap.length + 6 + body.length) := by
  set y := pre ++ (tok ++ (gap ++ (codeToken ++ (body ++ '}' :: post)))) with hy
  have hobj : find y tok start = pre.length :=
    (find_eq_iff hne _ _ _).mpr ⟨hstart, by simp [OccursAt, hy, List.drop_left], hfirst⟩
  have hcode : find y codeToken pre.length = pre.length + tok.length + gap.length := by
    refine (find_eq_iff (by decide) _ _ _).mpr ⟨by omega, ?_, fun j hj hjlt => ?_⟩
    · simp only [OccursAt, hy, Nat.add_assoc, List.drop_append, List.drop_left]
      exact List.prefix_append _ _
    · obtain ⟨i, rfl⟩ := Nat.exists_eq_add_of_le hj
      simp only [OccursAt, hy, List.drop_append]
      by_cases hi : i < tok.length
      · rw [List.drop_append_of_le_length (by omega)]
        exact not_prefix_append_of_take_ne (htok i hi)
      · obtain ⟨k, rfl⟩ := Nat.exists_eq_add_of_le (Nat.le_of_not_lt hi)
        rw [List.drop_append, List.drop_append_of_le_length (by omega)]
        exact not_codeToken_prefix_of_blank hgap (by omega)
  have hbrace : findMatchingBrace y (pre.length + tok.length + gap.length + 4) =
      ((pre.length + tok.length + gap.length + 4 + 2 + body.length : Nat) : Int) := by
    have hdrop := drop_layout pre tok gap body post
    have hpass := findMatchingBrace.go_append_of_depthAtLeast body ('}' :: post)
      (pre.length + tok.length + gap.length + 4 + 1 + 1) 1
      (depthAtLeast_of_balanced hbody (Int.le_refl 1))
    have hzero : depth body = 0 := ((balanced_iff body).mp hbody).1
    have hone : (0 : Int) + braceDelta ' ' + braceDelta '{' = 1 := by decide
    unfold findMatchingBrace
    rw [hy, hdrop, findMatchingBrace.go_cons, if_neg (by decide), findMatchingBrace.go_cons,
      if_neg (by decide), hone, hpass, findMatchingBrace.go_cons,
      if_pos (by simp [hzero])]
  have hnat : ((pre.length : Int) + tok.length + gap.length).toNat =
      pre.length + tok.length + gap.length := by omega
  unfold locateCodeSection
  simp only [hobj, Int.toNat_ofNat, hcode, hnat, show "code".length = 4 from rfl, hbrace]
  rw [if_neg (by omega), if_neg (by omega), if_neg (by omega)]

/-! ### Both objects -/

/-- A Yul text cut where the extractor looks: the text before the creation object, the
blank between its `{` and `code {`, the body of its code block, the text up to the
`Runtime` object, the blank before that object's `code {`, the body of its code block, and
the rest. -/
structure YulLayout where
  before : List Char
  gap₁ : List Char
  creationBody : List Char
  between : List Char
  gap₂ : List Char
  runtimeBody : List Char
  after : List Char
deriving DecidableEq, Repr

namespace YulLayout

/-- The text the pieces make. -/
def text (l : YulLayout) : List Char :=
  l.before ++ creationObject ++ l.gap₁ ++ codeToken ++ l.creationBody ++ ['}'] ++
    l.between ++ runtimeObject ++ l.gap₂ ++ codeToken ++ l.runtimeBody ++ ['}'] ++ l.after

/-- The index of the `}` that closes the creation code block. -/
def creationClose (l : YulLayout) : Nat :=
  l.before.length + creationObject.length + l.gap₁.length + codeToken.length +
    l.creationBody.length

/-- The index at which the `Runtime` object token of the layout starts. -/
def runtimeStart (l : YulLayout) : Nat :=
  l.creationClose + 1 + l.between.length

/-- What the layout asks of its pieces: balanced bodies, blank gaps, the creation token
nowhere before its place, and the `Runtime` token nowhere between the `}` that closes the
creation code and its place. -/
structure WellFormed (l : YulLayout) : Prop where
  creation_balanced : Balanced l.creationBody
  runtime_balanced : Balanced l.runtimeBody
  gap₁_blank : ∀ c ∈ l.gap₁, isspace c = true
  gap₂_blank : ∀ c ∈ l.gap₂, isspace c = true
  creation_first : ∀ i < l.before.length, ¬ OccursAt l.text creationObject i
  runtime_first : ∀ i, l.creationClose ≤ i → i < l.runtimeStart →
    ¬ OccursAt l.text runtimeObject i

/-- The text seen from the creation object. -/
theorem text_eq_creation (l : YulLayout) :
    l.text = l.before ++ (creationObject ++ (l.gap₁ ++ (codeToken ++ (l.creationBody ++
      '}' :: (l.between ++ runtimeObject ++ l.gap₂ ++ codeToken ++ l.runtimeBody ++ ['}'] ++
        l.after))))) := by
  simp [text]

/-- The text seen from the `Runtime` object. -/
theorem text_eq_runtime (l : YulLayout) :
    l.text = (l.before ++ creationObject ++ l.gap₁ ++ codeToken ++ l.creationBody ++ ['}'] ++
      l.between) ++ (runtimeObject ++ (l.gap₂ ++ (codeToken ++ (l.runtimeBody ++
        '}' :: l.after)))) := by
  simp [text]

end YulLayout

/-- On a well-formed layout the extractor returns, for each object, the body of its code
block with the block's opening brace in front and its trailing whitespace removed. -/
theorem extractCodeSections_text (l : YulLayout) (h : l.WellFormed) :
    extractCodeSections l.text =
      some ('{' :: rstrip l.creationBody, '{' :: rstrip l.runtimeBody) := by
  set rest := l.between ++ runtimeObject ++ l.gap₂ ++ codeToken ++ l.runtimeBody ++ ['}'] ++
    l.after
  set pre := l.before ++ creationObject ++ l.gap₁ ++ codeToken ++ l.creationBody ++ ['}'] ++
    l.between
  have hpre : pre.length = l.runtimeStart := by
    simp [pre, YulLayout.runtimeStart, YulLayout.creationClose]; omega
  have h1 := locateCodeSection_layout l.before creationObject l.gap₁ l.creationBody rest 0
    (by decide) creationObject_codeTokenFree h.gap₁_blank h.creation_balanced (Nat.zero_le _)
    fun i _ hi => l.text_eq_creation ▸ h.creation_first i hi
  have h2 := locateCodeSection_layout pre runtimeObject l.gap₂ l.runtimeBody l.after
    l.creationClose (by decide) runtimeObject_codeTokenFree h.gap₂_blank h.runtime_balanced
    (by rw [hpre, YulLayout.runtimeStart]; omega)
    fun i hi hi' => l.text_eq_runtime ▸ h.runtime_first i hi (hpre ▸ hi')
  have hclose : l.before.length + creationObject.length + l.gap₁.length + 6 +
      l.creationBody.length = l.creationClose := by
    simp only [YulLayout.creationClose, show codeToken.length = 6 from rfl]
  have hs1 := slice_layout l.before creationObject l.gap₁ l.creationBody rest
  have hs2 := slice_layout pre runtimeObject l.gap₂ l.runtimeBody l.after
  rw [← l.text_eq_creation, hclose] at h1 hs1
  rw [← l.text_eq_runtime] at h2 hs2
  simp only [extractCodeSections, h1, h2, Option.bind_eq_bind, Option.some_bind, hs1, hs2,
    strip_blank_brace]
  rfl

/-! ### What every accepted input gives -/

theorem braceDelta_of_isspace {c : Char} (h : isspace c = true) : braceDelta c = 0 := by
  unfold braceDelta
  split_ifs with h1 h2
  · subst h1; exact absurd h (by decide)
  · subst h2; exact absurd h (by decide)
  · rfl

/-- A text without braces has depth zero. -/
theorem depth_eq_zero_of_forall {w : List Char} (hw : ∀ c ∈ w, braceDelta c = 0) :
    depth w = 0 := by
  induction w with
  | nil => rfl
  | cons c w ih =>
    simp only [List.mem_cons, forall_eq_or_imp] at hw
    rw [depth_cons, hw.1, ih hw.2, Int.add_zero]

/-- A text without braces keeps every start depth. -/
theorem depthAtLeast_of_forall {w : List Char} (hw : ∀ c ∈ w, braceDelta c = 0) {m o : Int}
    (h : m ≤ o) : DepthAtLeast m o w := by
  induction w generalizing o with
  | nil => simpa using h
  | cons c w ih =>
    simp only [List.mem_cons, forall_eq_or_imp] at hw
    simp only [depthAtLeast_cons, hw.1, Int.add_zero]
    exact ⟨h, ih hw.2 h⟩

theorem depth_eq_zero_of_blank {w : List Char} (hw : ∀ c ∈ w, isspace c = true) :
    depth w = 0 :=
  depth_eq_zero_of_forall fun c hc => braceDelta_of_isspace (hw c hc)

/-- `rstrip` removes only blanks, so it keeps a text balanced. -/
theorem balanced_rstrip {s : List Char} (hs : Balanced s) : Balanced (rstrip s) := by
  obtain ⟨w, hw, hblank⟩ := exists_eq_rstrip_append s
  rw [balanced_iff] at hs ⊢
  rw [hw, depth_append, depth_eq_zero_of_blank hblank, Int.add_zero, depthAtLeast_append] at hs
  exact ⟨hs.1, hs.2.1⟩

/-- From a `{`, the text up to the first `}` that closes is that `{` and a balanced body. -/
theorem exists_balanced_of_first_close {w : List Char} {j : Nat}
    (hc : ClosesAt 0 ('{' :: w) j) (hfirst : ∀ i < j, ¬ ClosesAt 0 ('{' :: w) i) :
    ∃ body, ('{' :: w).take j = '{' :: body ∧ Balanced body := by
  cases j with
  | zero => exact absurd ((closesAt_cons_zero 0 '{' w).mp hc).1 (by decide)
  | succ j =>
    have hpos := depth_take_pos (show ('{' :: w)[0]? = some '{' by simp)
      (closesAt_lt_length hc) hfirst
    have hclose : w[j]? = some '}' := by simpa using hc.1
    have hzero : depth (w.take j) = 0 := by
      have h2 := hc.2
      rw [List.take_succ_cons, List.take_succ, hclose] at h2
      simp [braceDelta] at h2
      omega
    refine ⟨w.take j, rfl, (balanced_iff _).mpr ⟨hzero, fun n hn => ?_⟩⟩
    have := hpos n (by simp at hn; omega)
    rw [List.take_succ_cons, depth_cons] at this
    rw [List.take_take, Nat.min_eq_left (by simp at hn; omega)]
    simp [braceDelta] at this
    omega

/-- Whatever the text, a code section one object's half of the extractor finds is a blank,
a `{` and a balanced body. -/
theorem locateCodeSection_shape {y tok : List Char} {start cs ce : Nat}
    (h : locateCodeSection y tok start = some (cs, ce)) :
    ∃ body, slice y cs ce = ' ' :: '{' :: body ∧ Balanced body := by
  unfold locateCodeSection at h
  dsimp only at h
  split at h; · cases h
  split at h; · cases h
  rename_i hcode
  obtain ⟨k, hk, -, w, hw⟩ := (find_eq_neg_one_or_occursAt (by decide) y _).resolve_left hcode
  split at h; · cases h
  rename_i hne
  simp only [hk, Int.toNat_ofNat, show "code".length = 4 from rfl, Option.some.injEq,
    Prod.mk.injEq] at h hne
  obtain ⟨rfl, rfl⟩ := h
  have hdrop : y.drop (k + 4) = ' ' :: '{' :: w := by rw [← List.drop_drop, ← hw]; rfl
  have hf : FirstBraceOpensAt y (k + 4) (k + 5) := by
    refine ⟨by omega, ?_, fun j hj hj' => ?_⟩
    · rw [show k + 5 = k + 4 + 1 by omega, ← List.getElem?_drop, hdrop]; simp
    · rw [show j = k + 4 + 0 by omega, ← List.getElem?_drop, hdrop]; simp
  have hu : y.drop (k + 5) = '{' :: w := by
    rw [show k + 5 = k + 4 + 1 by omega, ← List.drop_drop, hdrop]; rfl
  rw [findMatchingBrace_eq_go hf, hu] at hne ⊢
  obtain ⟨j, hj⟩ : ∃ j : Nat, findMatchingBrace.go ('{' :: w) (k + 5) 0 = ((k + 5 + j : Nat) : Int) := by
    rcases findMatchingBrace.go_eq_neg_one_or_ge ('{' :: w) (k + 5) 0 with h' | h'
    · exact absurd h' hne
    · exact ⟨(findMatchingBrace.go ('{' :: w) (k + 5) 0).toNat - (k + 5), by omega⟩
  obtain ⟨body, hbody, hbal⟩ := exists_balanced_of_first_close
    ((findMatchingBrace.go_eq_iff _ _ _ _).mp hj).1 ((findMatchingBrace.go_eq_iff _ _ _ _).mp hj).2
  refine ⟨body, ?_, hbal⟩
  rw [hj, Int.toNat_ofNat, Python.slice, hdrop, show k + 5 + j - (k + 4) = j + 1 by omega,
    List.take_succ_cons, hbody]

/-- On every input it accepts, the extractor returns two sections that are each a `{`
followed by a balanced text. -/
theorem extractCodeSections_shape {yulCode creationCode runtimeCode : List Char}
    (h : extractCodeSections yulCode = some (creationCode, runtimeCode)) :
    (∃ a, creationCode = '{' :: a ∧ Balanced a) ∧ (∃ b, runtimeCode = '{' :: b ∧ Balanced b) := by
  simp only [extractCodeSections, Option.bind_eq_bind] at h
  obtain ⟨⟨cs, ce⟩, h1, h⟩ := Option.bind_eq_some.mp h
  obtain ⟨⟨rs, re⟩, h2, h⟩ := Option.bind_eq_some.mp h
  obtain ⟨a, ha, hba⟩ := locateCodeSection_shape h1
  obtain ⟨b, hb, hbb⟩ := locateCodeSection_shape h2
  simp only [pure, ha, hb, strip_blank_brace, Option.some.injEq, Prod.mk.injEq] at h
  exact ⟨⟨rstrip a, h.1.symm, balanced_rstrip hba⟩, ⟨rstrip b, h.2.symm, balanced_rstrip hbb⟩⟩

/-! ### The files `split_yul_code` writes -/

/-- A text made of brace-free text, a `{`, a stretch whose depth from one stays positive
and ends at zero, and a `}` is balanced, and the scan from its first `{` ends at its last
character. -/
theorem wrapped_balanced (P X : List Char) (hP : ∀ c ∈ P, braceDelta c = 0)
    (hX : DepthAtLeast 1 1 X) (hX0 : depth X = 0) :
    Balanced (P ++ '{' :: X ++ ['}']) ∧
      findMatchingBrace (P ++ '{' :: X ++ ['}']) ((P ++ '{' :: X ++ ['}']).indexOf '{') =
        (P ++ '{' :: X ++ ['}']).length - 1 := by
  have hP0 := depth_eq_zero_of_forall hP
  have hnot : '{' ∉ P := fun h => by have := hP _ h; simp [braceDelta] at this
  rw [List.append_assoc, List.cons_append]
  refine ⟨(balanced_iff _).mpr ⟨by simp [hP0, hX0, braceDelta], ?_⟩, ?_⟩
  · rw [depthAtLeast_append, hP0, depthAtLeast_cons, depthAtLeast_append, hX0]
    refine ⟨depthAtLeast_of_forall hP (Int.le_refl 0), Int.le_refl 0, fun n hn => ?_,
      by simp [braceDelta]⟩
    have := hX n hn
    have hopen : braceDelta '{' = 1 := by decide
    omega
  · have hdrop : (P ++ '{' :: (X ++ ['}'])).drop P.length = '{' :: (X ++ ['}']) :=
      List.drop_left _ _
    rw [List.indexOf_append_of_not_mem hnot, List.indexOf_cons_self, Nat.add_zero]
    unfold findMatchingBrace
    rw [hdrop, findMatchingBrace.go_cons, if_neg (by decide),
      findMatchingBrace.go_append_of_depthAtLeast _ _ _ _ (by simpa [braceDelta] using hX),
      findMatchingBrace.go_cons, if_pos (by simp [braceDelta, hX0])]
    simp
    omega

/-- What `split_yul_code` writes for an object: the object's opening text, its `{`, the
code block holding the section, and the `}` that closes the object. -/
theorem outputCode_append_eq (objectName code : List Char) :
    outputCode objectName code ++ "\n\x7d".toList =
      ("object \"".toList ++ objectName ++ "\" ".toList) ++
        '{' :: ("\n    code \x7b".toList ++ code ++ "\n    \x7d\n\x7d\n".toList) ++ ['}'] := by
  have h1 : "\" \x7b\n    code \x7b".toList = "\" ".toList ++ '{' :: "\n    code \x7b".toList :=
    rfl
  have h2 : "\n    \x7d\n\x7d".toList ++ "\n\x7d".toList = "\n    \x7d\n\x7d\n".toList ++ ['}'] :=
    rfl
  simp only [outputCode, List.append_assoc, h1, h2, List.cons_append]

/-- Put back into its object, a `{` followed by a balanced text is balanced, and the scan
from the object's `{` ends at the appended closing brace. -/
theorem outputCode_balanced (objectName a : List Char)
    (hname : ∀ c ∈ objectName, braceDelta c = 0) (ha : Balanced a) :
    Balanced (outputCode objectName ('{' :: a) ++ "\n\x7d".toList) ∧
      findMatchingBrace (outputCode objectName ('{' :: a) ++ "\n\x7d".toList)
          ((outputCode objectName ('{' :: a) ++ "\n\x7d".toList).indexOf '{') =
        (outputCode objectName ('{' :: a) ++ "\n\x7d".toList).length - 1 := by
  rw [outputCode_append_eq]
  have hprefix : ∀ c ∈ "object \"".toList ++ objectName ++ "\" ".toList, braceDelta c = 0 := by
    simp only [List.mem_append]
    rintro c ((hc | hc) | hc)
    · revert c; decide
    · exact hname c hc
    · revert c; decide
  refine wrapped_balanced _ _ hprefix ?_ ?_
  · have hza := ((balanced_iff a).mp ha).1
    rw [depthAtLeast_append, depthAtLeast_append, depthAtLeast_cons]
    refine ⟨⟨by decide, by decide, depthAtLeast_of_balanced ha (by decide)⟩, ?_⟩
    simp only [depth_append, depth_cons, hza]
    decide
  · simp [((balanced_iff a).mp ha).1]
    decide

/-- The text `split_yul_code` writes for the creation code, as the source spells it. -/
theorem outputFile1_eq (creationCode : List Char) :
    outputFile1 creationCode = "object \"plonk_verifier\" \x7b\n    code \x7b".toList ++
      creationCode ++ "\n    \x7d\n\x7d".toList ++ "\n\x7d".toList := by
  have hhead : "object \"".toList ++ "plonk_verifier".toList ++ "\" \x7b\n    code \x7b".toList =
      "object \"plonk_verifier\" \x7b\n    code \x7b".toList := rfl
  rw [outputFile1, outputCode, hhead]

/-- The text `split_yul_code` writes for the `Runtime` code, as the source spells it. -/
theorem outputFile2_eq (runtimeCode : List Char) :
    outputFile2 runtimeCode = "object \"Runtime\" \x7b\n    code \x7b".toList ++
      runtimeCode ++ "\n    \x7d\n\x7d".toList ++ "\n\x7d".toList := by
  have hhead : "object \"".toList ++ "Runtime".toList ++ "\" \x7b\n    code \x7b".toList =
      "object \"Runtime\" \x7b\n    code \x7b".toList := rfl
  rw [outputFile2, outputCode, hhead]

/-- For every text `y` that `file.read()` returns and on which the extractor succeeds with
sections `c` and `r`, `split_yul_code` writes `O1` and `O2`, the two reconstructed objects
with the closing brace the source appends, and prints its success line. Each written text
is a balanced brace string, and the scan from its first `{` returns its last index: the
appended `}` closes the object, and no brace is left unmatched. -/
theorem splitYulCode_writes_balanced (w : World)
    (inputFilename outputFilename1 outputFilename2 y c r : List Char)
    (hread : w.readText inputFilename = .ok y) (h : extractCodeSections y = some (c, r)) :
    let O1 := "object \"plonk_verifier\" \x7b\n    code \x7b".toList ++ c ++
      "\n    \x7d\n\x7d".toList ++ "\n\x7d".toList
    let O2 := "object \"Runtime\" \x7b\n    code \x7b".toList ++ r ++
      "\n    \x7d\n\x7d".toList ++ "\n\x7d".toList
    splitYulCode w inputFilename outputFilename1 outputFilename2 =
        .ok [.write outputFilename1 O1, .write outputFilename2 O2,
          .print (successMessage outputFilename1 outputFilename2)] ∧
      (Balanced O1 ∧ findMatchingBrace O1 (O1.indexOf '{') = O1.length - 1) ∧
      (Balanced O2 ∧ findMatchingBrace O2 (O2.indexOf '{') = O2.length - 1) := by
  intro O1 O2
  rw [show O1 = outputFile1 c from (outputFile1_eq c).symm,
    show O2 = outputFile2 r from (outputFile2_eq r).symm]
  obtain ⟨⟨a, rfl, ha⟩, ⟨b, rfl, hb⟩⟩ := extractCodeSections_shape h
  refine ⟨?_, outputCode_balanced _ a (by decide) ha, outputCode_balanced _ b (by decide) hb⟩
  simp only [splitYulCode, hread, bind, Except.bind, h]
  rfl

/-- The spec's example `object "plonk_verifier" { code { MSTORE(0,1) } } object "Runtime"
{ code { RETURN(0,0) } }`, cut as a layout. -/
def specScenario : YulLayout where
  before := []
  gap₁ := " ".toList
  creationBody := " MSTORE(0,1) ".toList
  between := " \x7d ".toList
  gap₂ := " ".toList
  runtimeBody := " RETURN(0,0) ".toList
  after := " \x7d".toList

theorem specScenario_text : specScenario.text =
    ("object \"plonk_verifier\" \x7b code \x7b MSTORE(0,1) \x7d \x7d " ++
      "object \"Runtime\" \x7b code \x7b RETURN(0,0) \x7d \x7d").toList := by
  decide

theorem specScenario_wellFormed : specScenario.WellFormed :=
  ⟨by decide, by decide, by decide, by decide, by decide, by decide⟩

/-- The spec's example through `extractCodeSections_text`. -/
theorem extractCodeSections_text_spec_scenario :
    specScenario.WellFormed ∧
      extractCodeSections specScenario.text =
        some ('{' :: rstrip specScenario.creationBody, '{' :: rstrip specScenario.runtimeBody) :=
  ⟨specScenario_wellFormed, extractCodeSections_text specScenario specScenario_wellFormed⟩

/-- On the spec's example the sections are not the stripped bodies `MSTORE(0,1)` and
`RETURN(0,0)`: each keeps the `{` of its code block. -/
theorem extractCodeSections_spec_scenario :
    specScenario.WellFormed ∧
      extractCodeSections specScenario.text =
        some ("\x7b MSTORE(0,1)".toList, "\x7b RETURN(0,0)".toList) ∧
      extractCodeSections specScenario.text ≠
        some (strip specScenario.creationBody, strip specScenario.runtimeBody) :=
  ⟨specScenario_wellFormed, by decide, by decide⟩

/-- A world whose `verifier.yul` holds the spec's example. -/
def specWorld : World :=
  ⟨fun p => if p = "verifier.yul".toList then some specScenario.text else none, []⟩

/-- The spec's example, through `splitYulCode_writes_balanced`: the two files written, each
object with the `{` its section kept and the closing brace the source appends, and both
balanced. -/
theorem splitYulCode_spec_scenario :
    let O1 := ("object \"plonk_verifier\" \x7b\n    code \x7b\x7b MSTORE(0,1)\n    \x7d\n\x7d" ++
      "\n\x7d").toList
    let O2 := ("object \"Runtime\" \x7b\n    code \x7b\x7b RETURN(0,0)\n    \x7d\n\x7d" ++
      "\n\x7d").toList
    splitYulCode specWorld "verifier.yul".toList "creation.yul".toList "runtime.yul".toList =
        .ok [.write "creation.yul".toList O1, .write "runtime.yul".toList O2,
          .print (successMessage "creation.yul".toList "runtime.yul".toList)] ∧
      (Balanced O1 ∧ findMatchingBrace O1 (O1.indexOf '{') = O1.length - 1) ∧
      (Balanced O2 ∧ findMatchingBrace O2 (O2.indexOf '{') = O2.length - 1) :=
  splitYulCode_writes_balanced specWorld "verifier.yul".toList "creation.yul".toList
    "runtime.yul".toList specScenario.text "\x7b MSTORE(0,1)".toList "\x7b RETURN(0,0)".toList
    ((World.readText_of_files rfl).trans (congrArg Except.ok
      (translateNewlines_of_not_mem (by decide)))) (by decide)

end UpaScripts.Verification
