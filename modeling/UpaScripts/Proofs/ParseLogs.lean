import UpaScripts.Proofs.KeccakConfiguration

/-!
# `UpaScripts.Proofs.ParseLogs`: the rows `parse_logs` writes, and what it raises

A log is read in sections: a `Begin` line and the lines after it up to the next `Begin`
line, after `strip`. `expectedRows` states what the rows are, section by section: one row
for each section that has a terminating line (a proving time for UBV and Keccak, a gas cost
for UniversalOuter), with the circuit and configuration of its `Begin` line and, for each
metric, the value of the last line that matches it up to the first terminating line.

A section raises at one of two lines (`Section.raises`). Its `Begin` line raises the
`ValueError` of the Keccak rewrite on batch sizes past 4300 digits (`beginError`), and its
first terminating line the `TypeError` of the gas-cost test, when a UBV or Keccak record
closes on a line that also has a gas cost (`Section.closeError`). `parseLogs_eq` is the
result on every log: the exception of the first section that raises, or else the rows.
`parseLogs_eq_expectedRows` is the case where no section raises (`GasFreeCloses` and
`BatchSizesFit`), and `parseLogs_error_iff` the other.

The loop of `parse_logs` is a left fold and `sections` a right one. The bridge is the loop
invariant `foldlM_parseStrippedLine`, stated for any open section the loop may hold when a
stretch of lines starts. Its pieces:

* `startCircuits_eq`: a line begins at most one circuit (`circuitStartPattern_unique`), so
  the loop over the start patterns is a lookup (`beginOf`), and only the Keccak rewrite can
  raise in it;
* `closeOnGasCost_closeOnProvingTime`: the metric tests on an open record record every
  metric and close the record on a terminating line; they raise `TypeError` when a UBV or
  Keccak record closes on a line that also has a gas cost (`safeClose`);
* `filledRecord_append_singleton`: the record of a section is filled by `lastMatch`, one
  line at a time;
* `openSection_cases`: what reading a line does to the section the loop is in;
* `parseStrippedLine_record`: one iteration, read on the section the line belongs to.

`parseLogs_raises_or_keeps_batch_sizes` runs three logs: one with a line that has a proving
time and a gas cost, one with a Keccak configuration whose batch sizes are not in the order
`inner_batch_size: I, outer_batch_size: O`, which the rewrite keeps as they are, and one
with an inner batch size of 4301 digits, on which `int()` raises.
-/

set_option autoImplicit false

namespace UpaScripts.LogParsing

open UpaScripts.Python

/-! ### The log read in sections -/

/-- The circuit and configuration of a `Begin` line. -/
def beginOf (line : List Char) : Option (CircuitName × List Char) :=
  [CircuitName.ubv, .keccak, .universalOuter].findSome? fun name =>
    ((circuitStartPattern name).matchAt line).map (name, ·)

/-- A line that closes a record of the circuit `name`: a proving time for UBV and Keccak,
a gas cost for UniversalOuter. -/
def terminates (name : CircuitName) (line : List Char) : Bool :=
  match name with
  | .universalOuter => (Metric.gasCost.pattern.search line).isSome
  | _ => (Metric.provingTime.pattern.search line).isSome

/-- The configuration a row carries: Keccak's with its batch sizes replaced by their
product, the others as on the `Begin` line. -/
def rowConfiguration (name : CircuitName) (config : List Char) : List Char :=
  if name = .keccak then totalBatchSizeConfig config else config

/-- The `ValueError` a `Begin` line raises: the Keccak rewrite's, on batch sizes past 4300
digits. -/
def beginError (name : CircuitName) (config : List Char) : Option ParseError :=
  if name = .keccak then (batchSizesError config).map .valueError else none

/-- A section of the log: the circuit and configuration of its `Begin` line, and its
lines, from that `Begin` line up to the next one. -/
structure Section where
  name : CircuitName
  config : List Char
  lines : List (List Char)

/-- The lines before the first `Begin` line, and the sections of the log in order. -/
def sections : List (List Char) → List (List Char) × List Section
  | [] => ([], [])
  | line :: lines =>
    let rest := sections lines
    match beginOf line with
    | some (name, config) => ([], ⟨name, config, line :: rest.1⟩ :: rest.2)
    | none => (line :: rest.1, rest.2)

theorem sections_cons (line : List Char) (lines : List (List Char)) :
    sections (line :: lines) =
      match beginOf line with
      | some (name, config) => ([], ⟨name, config, line :: (sections lines).1⟩ :: (sections lines).2)
      | none => (line :: (sections lines).1, (sections lines).2) := rfl

/-- The lines up to and including the first one that satisfies `p`. -/
def throughFirst {α : Type} (p : α → Bool) : List α → Option (List α)
  | [] => none
  | a :: as => if p a then some [a] else (throughFirst p as).map (a :: ·)

/-- The value of the last line among `lines` that matches the metric, or `''`. -/
def lastMatch (m : Metric) (lines : List (List Char)) : List Char :=
  (lines.reverse.findSome? m.pattern.search).getD []

/-- The record of a circuit filled from `lines`: each metric the value of its last match. -/
def filledRecord (name : CircuitName) (config : List Char) (lines : List (List Char)) :
    CircuitRecord :=
  ⟨name, rowConfiguration name config, lastMatch .numAdviceCells lines,
    lastMatch .numLookupCells lines, lastMatch .numAdviceColumns lines,
    lastMatch .numLookupAdviceColumns lines, lastMatch .numFixedColumns lines,
    lastMatch .provingTime lines, lastMatch .gasCost lines⟩

/-- The row of a section: its record filled from the lines up to and including the first
terminating line, or none when no line terminates it. -/
def Section.row (s : Section) : Option CircuitRecord :=
  (throughFirst (terminates s.name) s.lines).map (filledRecord s.name s.config)

/-- The rows of a log, one for each section that has a terminating line, in order. -/
def expectedRows (lines : List (List Char)) : List CircuitRecord :=
  (sections (lines.map strip)).2.filterMap Section.row

/-- A terminating line of the circuit `name` on which the gas-cost test does not raise: the
circuit is UniversalOuter, or the line has no gas cost. -/
def safeClose (name : CircuitName) (line : List Char) : Bool :=
  decide (name = .universalOuter) || (Metric.gasCost.pattern.search line).isNone

/-- The first terminating line of the section, if any, is a safe close. -/
def Section.gasFreeClose (s : Section) : Bool :=
  (s.lines.find? (terminates s.name)).all (safeClose s.name)

/-- No UBV or Keccak section of the log has a first terminating line that also matches the
gas-cost pattern. -/
def GasFreeCloses (lines : List (List Char)) : Prop :=
  ∀ s ∈ (sections (lines.map strip)).2, s.gasFreeClose = true

instance (lines : List (List Char)) : Decidable (GasFreeCloses lines) :=
  inferInstanceAs (Decidable (∀ s ∈ _, _))

/-- No Keccak section of the log has a batch size, or a product of the two, of more than
4300 digits. -/
def BatchSizesFit (lines : List (List Char)) : Prop :=
  ∀ s ∈ (sections (lines.map strip)).2, beginError s.name s.config = none

instance (lines : List (List Char)) : Decidable (BatchSizesFit lines) :=
  inferInstanceAs (Decidable (∀ s ∈ _, _))

/-- The `TypeError` the close of a section raises, if any. -/
def Section.closeError (s : Section) : Option ParseError :=
  if s.gasFreeClose then none else some noneItemAssignment

/-- The exception a section raises, if any: the `ValueError` of its `Begin` line, or else
the `TypeError` of its first terminating line. -/
def Section.raises (s : Section) : Option ParseError :=
  (beginError s.name s.config).or s.closeError

/-! ### `Begin` lines -/

/-- A line begins at most one circuit. -/
theorem circuitStartPattern_unique {name₁ name₂ : CircuitName} {line c₁ c₂ : List Char}
    (h₁ : (circuitStartPattern name₁).matchAt line = some c₁)
    (h₂ : (circuitStartPattern name₂).matchAt line = some c₂) : name₁ = name₂ := by
  -- the two texts `Begin <name> with config ` would start the same line
  rcases List.prefix_or_prefix_of_prefix (Pattern.matchAt_startsWith h₁)
    (Pattern.matchAt_startsWith h₂) with h | h <;>
  · revert h; cases name₁ <;> cases name₂ <;> decide

/-- A line that one start pattern matches is that circuit's `Begin` line. -/
theorem beginOf_eq_of_matchAt {name : CircuitName} {line config : List Char}
    (h : (circuitStartPattern name).matchAt line = some config) :
    beginOf line = some (name, config) := by
  have hother : ∀ name', name' ≠ name → (circuitStartPattern name').matchAt line = none :=
    fun name' hne => Option.eq_none_iff_forall_not_mem.mpr fun _ hc =>
      hne (circuitStartPattern_unique hc h)
  unfold beginOf
  cases name <;> simp [h, hother .ubv, hother .keccak]

/-- `^Begin <name> with config (.*)$` captures the rest of a line that has no newline. -/
theorem matchAt_circuitStartPattern (name : CircuitName) {config : List Char}
    (h : '\n' ∉ config) :
    (circuitStartPattern name).matchAt
      (("Begin " ++ name.key ++ " with config ").toList ++ config) = some config := by
  have hlit := matchPieces_chars_append ("Begin " ++ name.key ++ " with config ").toList []
    (("Begin " ++ name.key ++ " with config ").toList ++ config)
  rw [List.append_nil, if_pos (List.prefix_append _ _), List.drop_left] at hlit
  have hrun : config.takeWhile (fun c => decide (c ≠ '\n')) = config :=
    List.takeWhile_eq_self_iff.mpr fun c hc => by simpa using ne_of_mem_of_not_mem hc h
  -- the greedy `.*` tries the whole rest of the line first
  obtain ⟨rest, hstar⟩ : ∃ rest,
      matchPieces [.star fun c => decide (c ≠ '\n')] config = [] :: rest := by
    rw [matchPieces, hrun, List.range_succ, List.reverse_append, List.reverse_singleton,
      List.singleton_append, List.flatMap_cons, matchPieces_nil, List.drop_length,
      List.singleton_append]
    exact ⟨_, rfl⟩
  simp only [Pattern.matchAt, circuitStartPattern, lit, hlit, matchPieces_nil,
    List.findSome?_cons, hstar]
  simp [matchPieces]

/-- The loop over the start patterns: a `Begin` line opens a new record, unless its Keccak
rewrite raises, and any other line keeps the current one. -/
theorem startCircuits_eq (line : List Char) (current : Option CircuitRecord) :
    startCircuits line current =
      match beginOf line with
      | some (name, config) =>
        match beginError name config with
        | some e => .error e
        | none => .ok (some (CircuitRecord.new name (rowConfiguration name config)))
      | none => .ok current := by
  unfold startCircuits beginOf
  rcases h₁ : (circuitStartPattern .ubv).matchAt line with _ | c₁ <;>
  rcases h₂ : (circuitStartPattern .keccak).matchAt line with _ | c₂ <;>
  rcases h₃ : (circuitStartPattern .universalOuter).matchAt line with _ | c₃ <;>
  simp [h₁, h₂, h₃, rowConfiguration, beginError, keccakConfiguration_eq]
  case none.some.none => cases batchSizesError c₂ <;> rfl
  -- two start patterns matching the same line
  case none.some.some => cases circuitStartPattern_unique h₂ h₃
  case some.none.some => cases circuitStartPattern_unique h₁ h₃
  case some.some.none | some.some.some => cases circuitStartPattern_unique h₁ h₂
  all_goals rfl

/-! ### Records filled line by line -/

/-- The seven metric tests of the loop body on one line, in the source's order. -/
def recordAll (line : List Char) (r : CircuitRecord) : CircuitRecord :=
  recordMetric line (recordMetric line (recordCounts line r) .provingTime) .gasCost

@[simp] theorem circuitName_recordAll (line : List Char) (r : CircuitRecord) :
    (recordAll line r).circuitName = r.circuitName := by
  simp [recordAll]

@[simp] theorem configuration_recordAll (line : List Char) (r : CircuitRecord) :
    (recordAll line r).configuration = r.configuration := by
  simp [recordAll]

/-- After the metric tests, each metric holds the line's match, or the value it had. -/
theorem get_recordAll (line : List Char) (r : CircuitRecord) (m : Metric) :
    (recordAll line r).get m = (m.pattern.search line).getD (r.get m) := by
  cases m <;> simp [recordAll, recordCounts, get_recordMetric]

/-- A line that no metric matches leaves the record as it is. -/
theorem recordAll_eq_self {line : List Char} (h : ∀ m : Metric, m.pattern.search line = none)
    (r : CircuitRecord) : recordAll line r = r :=
  CircuitRecord.ext_get (circuitName_recordAll line r) (configuration_recordAll line r) fun m => by
    rw [get_recordAll, h]; rfl

theorem lastMatch_append_singleton (m : Metric) (lines : List (List Char)) (line : List Char) :
    lastMatch m (lines ++ [line]) = (m.pattern.search line).getD (lastMatch m lines) := by
  cases h : m.pattern.search line <;> simp [lastMatch, h]

theorem get_filledRecord (name : CircuitName) (config : List Char) (lines : List (List Char))
    (m : Metric) : (filledRecord name config lines).get m = lastMatch m lines := by
  cases m <;> rfl

/-- Filling a record one more line is one pass of the metric tests. -/
theorem filledRecord_append_singleton (name : CircuitName) (config : List Char)
    (lines : List (List Char)) (line : List Char) :
    filledRecord name config (lines ++ [line]) = recordAll line (filledRecord name config lines) :=
  CircuitRecord.ext_get (circuitName_recordAll line (filledRecord name config lines)).symm
    (configuration_recordAll line (filledRecord name config lines)).symm fun m => by
      rw [get_recordAll, get_filledRecord, get_filledRecord, lastMatch_append_singleton]

/-! ### The step of the loop on an open record -/

/-- The metric tests on an open record: a terminating line closes it into `data`, and
raises `TypeError` when the closing proving time also has a gas cost; any other line
records its metrics and keeps the record open. -/
theorem closeOnGasCost_closeOnProvingTime (line : List Char) (r : CircuitRecord)
    (data : List CircuitRecord) :
    closeOnGasCost line (closeOnProvingTime line (recordCounts line r) data) =
      if terminates r.circuitName line then
        if safeClose r.circuitName line then .ok ⟨none, data ++ [recordAll line r]⟩
        else .error noneItemAssignment
      else .ok ⟨some (recordAll line r), data⟩ := by
  rcases hp : Metric.provingTime.pattern.search line with _ | t <;>
  rcases hg : Metric.gasCost.pattern.search line with _ | g <;>
  cases hn : r.circuitName <;>
  simp [closeOnProvingTime, closeOnGasCost, recordAll, recordMetric, terminates, safeClose,
    hp, hg, hn]

/-! ### Sections read line by line -/

theorem throughFirst_append_of_forall {α : Type} (p : α → Bool) (xs ys : List α)
    (h : ∀ a ∈ xs, p a = false) :
    throughFirst p (xs ++ ys) = (throughFirst p ys).map (xs ++ ·) := by
  induction xs with
  | nil => simp
  | cons a xs ih =>
    simp [throughFirst, h a (List.mem_cons_self a xs),
      ih fun b hb => h b (List.mem_cons_of_mem a hb), Option.map_map, Function.comp_def]

namespace Section

/-- The section with `lines` read after its own. -/
def extend (s : Section) (lines : List (List Char)) : Section :=
  ⟨s.name, s.config, s.lines ++ lines⟩

/-- The record the loop holds for a section: filled from all its lines so far. -/
def record (s : Section) : CircuitRecord :=
  filledRecord s.name s.config s.lines

/-- The loop holds the record of the section: its `Begin` line raised nothing, and no line
of it terminates it. -/
structure Open (s : Section) : Prop where
  begin_ok : beginError s.name s.config = none
  not_terminates : ∀ line ∈ s.lines, terminates s.name line = false

@[simp] theorem extend_nil (s : Section) : s.extend [] = s := by
  simp [extend]

theorem extend_extend (s : Section) (xs ys : List (List Char)) :
    (s.extend xs).extend ys = s.extend (xs ++ ys) := by
  simp [extend]

@[simp] theorem name_extend (s : Section) (lines : List (List Char)) :
    (s.extend lines).name = s.name := rfl

@[simp] theorem config_extend (s : Section) (lines : List (List Char)) :
    (s.extend lines).config = s.config := rfl

@[simp] theorem circuitName_record (s : Section) : s.record.circuitName = s.name := rfl

theorem record_extend_singleton (s : Section) (line : List Char) :
    (s.extend [line]).record = recordAll line s.record :=
  filledRecord_append_singleton _ _ _ _

theorem Open.extend_singleton {s : Section} {line : List Char} (h : s.Open)
    (ht : terminates s.name line = false) : (s.extend [line]).Open :=
  ⟨h.begin_ok, by simpa [extend, or_imp, forall_and, ht] using h.not_terminates⟩

/-- An open section has no row and raises nothing. -/
theorem Open.row_raises {s : Section} (h : s.Open) : s.row = none ∧ s.raises = none := by
  have hf : s.lines.find? (terminates s.name) = none := by simpa using h.not_terminates
  refine ⟨by simpa [row, throughFirst] using
    throughFirst_append_of_forall _ s.lines [] h.not_terminates, ?_⟩
  simp [raises, h.begin_ok, closeError, gasFreeClose, hf]

/-- An open section read up to a terminating line: its row is the record filled through
that line, and it raises exactly when the line is not a safe close. -/
theorem Open.row_raises_extend_cons {s : Section} {line : List Char}
    (lines : List (List Char)) (h : s.Open) (ht : terminates s.name line = true) :
    (s.extend (line :: lines)).row = some (s.extend [line]).record ∧
      (s.extend (line :: lines)).raises =
        if safeClose s.name line then none else some noneItemAssignment := by
  have hf : s.lines.find? (terminates s.name) = none := by simpa using h.not_terminates
  refine ⟨by simp [row, extend, record, throughFirst_append_of_forall _ _ _ h.not_terminates,
    throughFirst, ht], ?_⟩
  simp [raises, h.begin_ok, closeError, gasFreeClose, extend, hf, ht]

end Section

/-- The section a line is read in: a new one at a `Begin` line, unless the line raises, and
the open one otherwise. -/
def openSection (current : Option Section) (line : List Char) :
    Except ParseError (Option Section) :=
  match beginOf line with
  | some (name, config) =>
    match beginError name config with
    | some e => .error e
    | none => .ok (some ⟨name, config, []⟩)
  | none => .ok current

/-- What reading a line can do: raise at a `Begin` line, open the section of a `Begin`
line, or keep the current section at any other line. -/
theorem openSection_cases {current : Option Section} {line : List Char}
    {r : Except ParseError (Option Section)} (h : openSection current line = r) :
    (∃ name config e, beginOf line = some (name, config) ∧ beginError name config = some e ∧
        r = .error e) ∨
      (∃ name config, beginOf line = some (name, config) ∧ beginError name config = none ∧
        r = .ok (some ⟨name, config, []⟩)) ∨
      (beginOf line = none ∧ r = .ok current) := by
  subst h
  unfold openSection
  rcases hb : beginOf line with _ | ⟨name, config⟩
  · exact .inr (.inr ⟨rfl, rfl⟩)
  dsimp only
  rcases hbe : beginError name config with _ | e
  · exact .inr (.inl ⟨name, config, rfl, hbe, rfl⟩)
  · exact .inl ⟨name, config, e, rfl, hbe, rfl⟩

theorem openSection_open {current : Option Section} (h : ∀ s ∈ current, s.Open)
    {line : List Char} {next : Option Section} (hnext : openSection current line = .ok next) :
    ∀ s ∈ next, s.Open := by
  obtain ⟨_, _, _, -, -, ⟨⟩⟩ | ⟨name, config, -, hbe, ⟨⟩⟩ | ⟨-, ⟨⟩⟩ := openSection_cases hnext
  · rintro s ⟨⟩
    exact ⟨hbe, by simp⟩
  · exact h

/-- One iteration of the loop, on the record of an open section: `startCircuits` and the
metric tests, read as the section the line belongs to. -/
theorem parseStrippedLine_record (current : Option Section) (data : List CircuitRecord)
    (line : List Char) :
    parseStrippedLine ⟨current.map Section.record, data⟩ line =
      match openSection current line with
      | .error e => .error e
      | .ok none => .ok ⟨none, data⟩
      | .ok (some s) =>
        if terminates s.name line then
          if safeClose s.name line then .ok ⟨none, data ++ [(s.extend [line]).record]⟩
          else .error noneItemAssignment
        else .ok ⟨some (s.extend [line]).record, data⟩ := by
  have hstart : startCircuits line (current.map Section.record) =
      (openSection current line).map (Option.map Section.record) := by
    rw [startCircuits_eq, openSection]
    split
    · split <;> rfl
    · rfl
  unfold parseStrippedLine
  rw [hstart]
  rcases openSection current line with e | _ | s
  · rfl
  · rfl
  · simp only [Except.map, except_bind_ok, Option.map_some', closeOnGasCost_closeOnProvingTime,
      Section.circuitName_record, Section.record_extend_singleton]

/-! ### The run -/

/-- The sections whose rows the loop has still to write, from its state: the open section
read through the lines before the next `Begin` line, then the sections of the lines left. -/
def pendingSections (current : Option Section) (lines : List (List Char)) : List Section :=
  (current.map (·.extend (sections lines).1)).toList ++ (sections lines).2

/-- Reading a line that raises: it is the `Begin` line of the first pending section that
raises. -/
theorem pendingSections_cons_of_error {current : Option Section} (h : ∀ s ∈ current, s.Open)
    {line : List Char} {e : ParseError} (he : openSection current line = .error e)
    (lines : List (List Char)) :
    (pendingSections current (line :: lines)).findSome? Section.raises = some e := by
  obtain ⟨name, config, _, hb, hbe, ⟨⟩⟩ | ⟨_, _, -, -, ⟨⟩⟩ | ⟨-, ⟨⟩⟩ := openSection_cases he
  unfold pendingSections
  rw [sections_cons, hb]
  cases current with
  | none => simp [Section.raises, hbe]
  | some s =>
    simp only [Option.map_some', Section.extend_nil, Option.toList_some,
      List.singleton_append, List.findSome?_cons, (h s rfl).row_raises.2]
    simp [Section.raises, hbe]

/-- Reading one more line: the open section gives way to the section the line is read in.
A `Begin` line drops the open section, which has no row and raises nothing. -/
theorem pendingSections_cons_of_ok {current : Option Section} (h : ∀ s ∈ current, s.Open)
    {line : List Char} {next : Option Section} (hnext : openSection current line = .ok next)
    (lines : List (List Char)) :
    let pending := (next.map (·.extend (line :: (sections lines).1))).toList ++
      (sections lines).2
    (pendingSections current (line :: lines)).findSome? Section.raises =
        pending.findSome? Section.raises ∧
      (pendingSections current (line :: lines)).filterMap Section.row =
        pending.filterMap Section.row := by
  unfold pendingSections
  rw [sections_cons]
  obtain ⟨_, _, _, -, -, ⟨⟩⟩ | ⟨name, config, hb, -, ⟨⟩⟩ | ⟨hb, ⟨⟩⟩ := openSection_cases hnext
  · cases current with
    | none => simp [hb, Section.extend]
    | some s => simp [hb, Section.extend, (h s rfl).row_raises]
  · simp [hb]

/-- The loop invariant of `parse_logs`: from the record of an open section (or none), the
loop over `lines` writes the rows of the pending sections after `data`, unless one of them
raises, where it raises the exception of the first. -/
theorem foldlM_parseStrippedLine (lines : List (List Char)) (current : Option Section)
    (data : List CircuitRecord) (h : ∀ s ∈ current, s.Open) :
    (lines.foldlM parseStrippedLine ⟨current.map Section.record, data⟩).map (·.data) =
      match (pendingSections current lines).findSome? Section.raises with
      | some e => .error e
      | none => .ok (data ++ (pendingSections current lines).filterMap Section.row) := by
  induction lines generalizing current data with
  | nil =>
    cases current with
    | none => simp [pendingSections, sections]; rfl
    | some s => simp [pendingSections, sections, (h s rfl).row_raises]; rfl
  | cons line lines ih =>
    rw [List.foldlM_cons, parseStrippedLine_record]
    rcases hsec : openSection current line with e | next
    · rw [pendingSections_cons_of_error h hsec]
      rfl
    obtain ⟨hraises, hrows⟩ := pendingSections_cons_of_ok h hsec lines
    rw [hraises, hrows]
    rcases next with _ | s
    · exact ih none data (by simp)
    have hs : s.Open := openSection_open h hsec s rfl
    dsimp only
    by_cases ht : terminates s.name line
    · obtain ⟨hrow, hclose⟩ := hs.row_raises_extend_cons (sections lines).1 ht
      by_cases hc : safeClose s.name line
      · rw [if_pos ht, if_pos hc]
        refine (ih none _ (by simp)).trans ?_
        simp [hrow, hclose, hc, pendingSections]
      · rw [if_pos ht, if_neg hc]
        simp [hclose, hc]; rfl
    · rw [if_neg ht]
      refine (ih (some (s.extend [line])) data ?_).trans ?_
      · simpa using hs.extend_singleton (Bool.eq_false_iff.mpr ht)
      · simp [pendingSections, Section.extend_extend]

/-! ### `parse_logs` -/

/-- `parse_logs` is the loop over the stripped lines from the empty state. -/
theorem parseLogs_eq_foldlM (lines : List (List Char)) :
    parseLogs lines = ((lines.map strip).foldlM parseStrippedLine ⟨none, []⟩).map (·.data) := by
  rw [parseLogs, List.foldlM_map]
  rfl

/-- What `parse_logs` returns on every log: the exception of the first section that raises,
or else the rows of its sections. -/
theorem parseLogs_eq (lines : List (List Char)) :
    parseLogs lines =
      match (sections (lines.map strip)).2.findSome? Section.raises with
      | some e => .error e
      | none => .ok (expectedRows lines) :=
  (parseLogs_eq_foldlM lines).trans
    ((foldlM_parseStrippedLine (lines.map strip) none [] (by simp)).trans (by
      simp [pendingSections, expectedRows]))

/-- A log of one `Begin` line that raises. -/
theorem parseLogs_singleton_of_beginError {line : List Char} {name : CircuitName}
    {config : List Char} (hstrip : strip line = line)
    (hbegin : beginOf line = some (name, config)) {e : ParseError}
    (he : beginError name config = some e) : parseLogs [line] = .error e := by
  rw [parseLogs_eq, List.map_singleton, hstrip, sections_cons, hbegin]
  simp [sections, Section.raises, he]

/-- On a log whose UBV and Keccak sections close safely and whose Keccak batch sizes are
within the limit of `int()` and `str()`, `parse_logs` completes and returns the rows of its
sections. -/
theorem parseLogs_eq_expectedRows (lines : List (List Char)) (h : GasFreeCloses lines)
    (hfit : BatchSizesFit lines) : parseLogs lines = .ok (expectedRows lines) := by
  have hnone : (sections (lines.map strip)).2.findSome? Section.raises = none :=
    List.findSome?_eq_none_iff.mpr fun s hs => by
      simp [Section.raises, hfit s hs, Section.closeError, h s hs]
  rw [parseLogs_eq, hnone]

/-- A log with an unfinished UBV section, a Keccak section with metrics after its close,
and a UniversalOuter section. -/
theorem parseLogs_three_sections :
    parseLogs ["Begin UBV with config a".toList, "5 advice cells".toList,
        "Begin Keccak with config inner_batch_size: 2, outer_batch_size: 3".toList,
        "10 advice cells".toList, "11 advice cells".toList, "Time: 1.5s".toList,
        "12 advice cells".toList, "Begin UniversalOuter with config u".toList,
        "Time: 3s".toList, "Gas cost per proof: 40".toList] =
      .ok [⟨.keccak, "total_batch_size: 6".toList, "11".toList, [], [], [], [], "1.5".toList, []⟩,
        ⟨.universalOuter, "u".toList, [], [], [], [], [], "3".toList, "40".toList⟩] :=
  (parseLogs_eq_expectedRows _ (by decide) (by decide)).trans (congrArg Except.ok (by decide))

/-- A Keccak configuration whose inner batch size has 4301 digits. -/
def longBatchConfig : List Char :=
  "inner_batch_size: ".toList ++ List.replicate 4301 '1' ++ ", outer_batch_size: 1".toList

/-- `longBatchConfig` cut as a layout. -/
def longBatchSizes : BatchSizesLayout :=
  ⟨[], List.replicate 4301 '1', "1".toList, []⟩

theorem longBatchSizes_text : longBatchSizes.text = longBatchConfig := by
  simp only [BatchSizesLayout.text, longBatchSizes, longBatchConfig, List.nil_append,
    List.append_nil, List.append_assoc]
  rfl

theorem longBatchSizes_wellFormed : longBatchSizes.WellFormed where
  inner_ne_nil := List.ne_nil_of_length_pos (by rw [longBatchSizes, List.length_replicate]; decide)
  inner_decimal c hc := by rw [List.eq_of_mem_replicate hc]; decide
  outer_ne_nil := by decide
  outer_decimal := by decide
  after_not_decimal := by decide
  before_no_inner := by decide
  before_no_outer := by decide
  after_no_inner := by decide

theorem beginError_longBatchConfig :
    beginError .keccak longBatchConfig = some (.valueError (.exceedsLimit 4301)) := by
  have hlen : longBatchSizes.inner.length = 4301 := List.length_replicate _ _
  rw [beginError, if_pos rfl, ← longBatchSizes_text,
    batchSizesError_text longBatchSizes_wellFormed, hlen, if_pos (by decide)]
  rfl

/-- The `Begin` line of `longBatchConfig` is its own `strip`, and begins a Keccak section. -/
theorem beginOf_longBatchConfig :
    strip ("Begin Keccak with config ".toList ++ longBatchConfig) =
        "Begin Keccak with config ".toList ++ longBatchConfig ∧
      beginOf ("Begin Keccak with config ".toList ++ longBatchConfig) =
        some (.keccak, longBatchConfig) := by
  have hhead : ("Begin Keccak with config ".toList ++ longBatchConfig).head? = some 'B' := by
    rw [List.head?_append]; rfl
  have hlast : ("Begin Keccak with config ".toList ++ longBatchConfig).getLast? = some '1' := by
    rw [longBatchConfig, List.getLast?_append, List.getLast?_append]; rfl
  have hline : '\n' ∉ longBatchConfig := by
    simp only [longBatchConfig, List.mem_append, List.mem_replicate]
    decide
  have hmatch := matchAt_circuitStartPattern .keccak hline
  rw [show ("Begin " ++ CircuitName.keccak.key ++ " with config ").toList =
    "Begin Keccak with config ".toList from rfl] at hmatch
  exact ⟨strip_eq_self (by rw [hhead]; rintro c ⟨⟩; decide) (by rw [hlast]; rintro c ⟨⟩; decide),
    beginOf_eq_of_matchAt hmatch⟩

/-- A proving time with a gas cost on one line closes the UBV record, and the gas-cost test
then raises `TypeError`; a Keccak configuration with the outer batch size first keeps both
batch sizes; an inner batch size of 4301 digits makes `int()` raise `ValueError` at the
`Begin` line. -/
theorem parseLogs_raises_or_keeps_batch_sizes :
    parseLogs ["Begin UBV with config x".toList, "Time: 1s Gas cost per proof: 5".toList] =
        .error noneItemAssignment ∧
      parseLogs ["Begin Keccak with config outer_batch_size: 3, inner_batch_size: 2".toList,
          "Time: 1s".toList] =
        .ok [⟨.keccak, "outer_batch_size: 3, inner_batch_size: 2".toList, [], [], [], [], [],
          "1".toList, []⟩] ∧
      parseLogs ["Begin Keccak with config ".toList ++ longBatchConfig] =
        .error (.valueError (.exceedsLimit 4301)) :=
  ⟨rfl, rfl, parseLogs_singleton_of_beginError beginOf_longBatchConfig.1
    beginOf_longBatchConfig.2 beginError_longBatchConfig⟩

/-- `parse_logs` raises exactly when a section raises, and then the exception of the first
such section: the `ValueError` of its Keccak batch sizes, or the `TypeError` of its unsafe
close. -/
theorem parseLogs_error_iff (lines : List (List Char)) (e : ParseError) :
    parseLogs lines = .error e ↔
      (sections (lines.map strip)).2.findSome? Section.raises = some e := by
  rw [parseLogs_eq]
  cases (sections (lines.map strip)).2.findSome? Section.raises with
  | none => simp
  | some e' => simp [eq_comm]

end UpaScripts.LogParsing
