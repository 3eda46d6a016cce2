import UpaScripts.Python.Builtins

/-!
# `UpaScripts.LogParsing.UpaLogParser`: `parse_logs` of `upa_log_parser.py`

`parse_logs` reads a benchmark log line by line. A `Begin <circuit> with config ...` line
opens a record for that circuit; the lines after it fill the record's metrics; a proving
time closes a UBV or Keccak record and a gas cost closes a UniversalOuter record, which
goes into `data`. The model follows the loop body step by step:

* `startCircuits`: the loop over `circuit_start_patterns`, with the Keccak configuration
  rewrite `keccakConfiguration`. Its `int()` and its f-string `str()` raise `ValueError` on
  more than 4300 digits, which ends the loop;
* `recordMetric`: one of the seven `if m := pattern.search(line): current[field] = ...`
  tests, as one definition over `Metric`;
* `closeOnProvingTime`, `closeOnGasCost`: the two tests that can close the record. The
  second writes to `current_circuit` without checking it, so on a line where the first has
  just closed the record it raises `TypeError`;
* `parseLine`: one iteration, `parseLogs`: the loop from the empty state.

The rows are the `data` that `parse_logs` hands to `write_to_csv`. Field values are the
strings the regex groups return, and `''` for a metric never matched.
-/

set_option autoImplicit false

namespace UpaScripts.LogParsing

open UpaScripts.Python

/-- The circuits of `circuit_start_patterns`, in the dictionary's order. -/
inductive CircuitName
  | ubv
  | keccak
  | universalOuter
deriving DecidableEq, Repr

/-- The key of a circuit in `circuit_start_patterns`, the value of `circuit_name`. -/
def CircuitName.key : CircuitName → String
  | .ubv => "UBV"
  | .keccak => "Keccak"
  | .universalOuter => "UniversalOuter"

/-- `circuit_start_patterns[name]`: `^Begin <name> with config (.*)$`, used with `.match`. -/
def circuitStartPattern (name : CircuitName) : Pattern :=
  ⟨lit ("Begin " ++ name.key ++ " with config "), [.star (· ≠ '\n')], [.eol]⟩

/-- `inner_batch_size: (\d+)`. -/
def innerBatchSizePattern : Pattern :=
  ⟨lit "inner_batch_size: ", [.plus isDecimal], []⟩

/-- `outer_batch_size: (\d+)`. -/
def outerBatchSizePattern : Pattern :=
  ⟨lit "outer_batch_size: ", [.plus isDecimal], []⟩

/-- `inner_batch_size: \d+, outer_batch_size: \d+`, the text `re.sub` replaces. -/
def batchSizesPieces : List Piece :=
  lit "inner_batch_size: " ++ [.plus isDecimal] ++ lit ", outer_batch_size: " ++
    [.plus isDecimal]

/-- The Keccak branch of the `Begin` handling: when the configuration has an inner and an
outer batch size, every `inner_batch_size: I, outer_batch_size: O` in it becomes
`total_batch_size: T`, where `T` is the product of the first inner and the first outer
batch size found. `int()` and the f-string's `str()` raise `ValueError` past 4300 digits. -/
def keccakConfiguration (config : List Char) : Except IntError (List Char) :=
  match innerBatchSizePattern.search config, outerBatchSizePattern.search config with
  | some inner, some outer => do
    let innerBatchSize ← intOfStr inner
    let outerBatchSize ← intOfStr outer
    let totalBatchSize ← strOfIntChecked (innerBatchSize * outerBatchSize)
    pure (sub batchSizesPieces ("total_batch_size: ".toList ++ totalBatchSize) config)
  | _, _ => .ok config

/-- The metrics of a row, in the order the loop body tests them. -/
inductive Metric
  | numAdviceCells
  | numLookupCells
  | numAdviceColumns
  | numLookupAdviceColumns
  | numFixedColumns
  | provingTime
  | gasCost
deriving DecidableEq, Repr

/-- The pattern each metric is searched with. -/
def Metric.pattern : Metric → Pattern
  | .numAdviceCells => ⟨[], [.plus isDecimal], lit " advice cells"⟩
  | .numLookupCells => ⟨[], [.plus isDecimal], lit " lookup advice cells"⟩
  | .numAdviceColumns => ⟨lit "num_advice_per_phase: [", [.plus isDecimal], []⟩
  | .numLookupAdviceColumns => ⟨lit "num_lookup_advice_per_phase: [", [.plus isDecimal], []⟩
  | .numFixedColumns => ⟨lit "num_fixed: ", [.plus isDecimal], []⟩
  | .provingTime => ⟨lit "Time: ", [.plus fun c => isDecimal c || c == '.'], lit "s"⟩
  | .gasCost => ⟨lit "Gas cost per proof: ", [.plus isDecimal], []⟩

/-- The dict `current_circuit`: the circuit, its configuration and the seven metrics. -/
structure CircuitRecord where
  circuitName : CircuitName
  configuration : List Char
  numAdviceCells : List Char
  numLookupCells : List Char
  numAdviceColumns : List Char
  numLookupAdviceColumns : List Char
  numFixedColumns : List Char
  provingTime : List Char
  gasCost : List Char
deriving DecidableEq, Repr

namespace CircuitRecord

/-- The record a `Begin` line creates: every metric `''`. -/
def new (name : CircuitName) (config : List Char) : CircuitRecord :=
  ⟨name, config, [], [], [], [], [], [], []⟩

/-- `current_circuit[field]` for a metric. -/
def get (r : CircuitRecord) : Metric → List Char
  | .numAdviceCells => r.numAdviceCells
  | .numLookupCells => r.numLookupCells
  | .numAdviceColumns => r.numAdviceColumns
  | .numLookupAdviceColumns => r.numLookupAdviceColumns
  | .numFixedColumns => r.numFixedColumns
  | .provingTime => r.provingTime
  | .gasCost => r.gasCost

/-- `current_circuit[field] = v` for a metric. -/
def set (r : CircuitRecord) : Metric → List Char → CircuitRecord
  | .numAdviceCells, v => { r with numAdviceCells := v }
  | .numLookupCells, v => { r with numLookupCells := v }
  | .numAdviceColumns, v => { r with numAdviceColumns := v }
  | .numLookupAdviceColumns, v => { r with numLookupAdviceColumns := v }
  | .numFixedColumns, v => { r with numFixedColumns := v }
  | .provingTime, v => { r with provingTime := v }
  | .gasCost, v => { r with gasCost := v }

@[simp] theorem circuitName_set (r : CircuitRecord) (m : Metric) (v : List Char) :
    (r.set m v).circuitName = r.circuitName := by
  cases m <;> rfl

@[simp] theorem configuration_set (r : CircuitRecord) (m : Metric) (v : List Char) :
    (r.set m v).configuration = r.configuration := by
  cases m <;> rfl

theorem get_set (r : CircuitRecord) (m : Metric) (v : List Char) (m' : Metric) :
    (r.set m v).get m' = if m = m' then v else r.get m' := by
  cases m <;> cases m' <;> rfl

/-- A record is its circuit, its configuration and its seven metrics. -/
theorem ext_get {r r' : CircuitRecord} (hn : r.circuitName = r'.circuitName)
    (hc : r.configuration = r'.configuration) (h : ∀ m, r.get m = r'.get m) : r = r' := by
  cases r; cases r'
  simp only [mk.injEq]
  exact ⟨hn, hc, h .numAdviceCells, h .numLookupCells, h .numAdviceColumns,
    h .numLookupAdviceColumns, h .numFixedColumns, h .provingTime, h .gasCost⟩

end CircuitRecord

/-- One metric test: `if m := pattern.search(line): current_circuit[field] = m.group(1)`. -/
def recordMetric (line : List Char) (r : CircuitRecord) (m : Metric) : CircuitRecord :=
  match m.pattern.search line with
  | some v => r.set m v
  | none => r

@[simp] theorem circuitName_recordMetric (line : List Char) (r : CircuitRecord) (m : Metric) :
    (recordMetric line r m).circuitName = r.circuitName := by
  unfold recordMetric; split <;> simp

@[simp] theorem configuration_recordMetric (line : List Char) (r : CircuitRecord) (m : Metric) :
    (recordMetric line r m).configuration = r.configuration := by
  unfold recordMetric; split <;> simp

/-- A metric test sets its own field to the match, if any, and no other field. -/
theorem get_recordMetric (line : List Char) (r : CircuitRecord) (m m' : Metric) :
    (recordMetric line r m).get m' =
      if m = m' then (m.pattern.search line).getD (r.get m') else r.get m' := by
  unfold recordMetric
  by_cases hm : m = m'
  · subst hm; split <;> simp_all [CircuitRecord.get_set]
  · split <;> simp [CircuitRecord.get_set, hm]

/-- The five metric tests that never close the record. -/
def recordCounts (line : List Char) (r : CircuitRecord) : CircuitRecord :=
  [Metric.numAdviceCells, .numLookupCells, .numAdviceColumns, .numLookupAdviceColumns,
    .numFixedColumns].foldl (recordMetric line) r

@[simp] theorem circuitName_recordCounts (line : List Char) (r : CircuitRecord) :
    (recordCounts line r).circuitName = r.circuitName := by
  simp [recordCounts]

@[simp] theorem configuration_recordCounts (line : List Char) (r : CircuitRecord) :
    (recordCounts line r).configuration = r.configuration := by
  simp [recordCounts]

/-- The state of the loop: `current_circuit` and `data`. -/
structure ParseState where
  currentCircuit : Option CircuitRecord
  data : List CircuitRecord
deriving DecidableEq, Repr

/-- What `parse_logs` can raise. -/
inductive ParseError
  /-- Python's `TypeError`, with its message. -/
  | typeError (msg : List Char)
  /-- The `ValueError` of `int()` or `str()` on a Keccak batch size past 4300 digits. -/
  | valueError (e : IntError)
deriving DecidableEq, Repr

/-- The loop over `circuit_start_patterns`: each pattern that matches the line replaces the
current record by a new one for its circuit; Keccak's configuration is rewritten first. -/
def startCircuits (line : List Char) (current : Option CircuitRecord) :
    Except ParseError (Option CircuitRecord) :=
  [CircuitName.ubv, .keccak, .universalOuter].foldlM
    (fun current name =>
      match (circuitStartPattern name).matchAt line with
      | some config => do
        let config ← if name = .keccak then (keccakConfiguration config).mapError .valueError
          else pure config
        pure (some (CircuitRecord.new name config))
      | none => pure current)
    current

/-- The `TypeError` that `current_circuit['gas_cost'] = ...` raises when `current_circuit` is
`None`. -/
def noneItemAssignment : ParseError :=
  .typeError "\x27NoneType\x27 object does not support item assignment".toList

/-- The proving-time test: record the time, and for a circuit other than UniversalOuter
append the record to `data` and close it. -/
def closeOnProvingTime (line : List Char) (r : CircuitRecord) (data : List CircuitRecord) :
    ParseState :=
  match Metric.provingTime.pattern.search line with
  | some v =>
    let r := r.set .provingTime v
    if r.circuitName ≠ .universalOuter then ⟨none, data ++ [r]⟩ else ⟨some r, data⟩
  | none => ⟨some r, data⟩

/-- The gas-cost test: record the gas cost, and for UniversalOuter append the record to
`data` and close it. The assignment reads `current_circuit` as it is, so when the
proving-time test has just closed the record it raises `TypeError`. -/
def closeOnGasCost (line : List Char) (st : ParseState) : Except ParseError ParseState :=
  match Metric.gasCost.pattern.search line with
  | some v =>
    match st.currentCircuit with
    | none => .error noneItemAssignment
    | some r =>
      let r := r.set .gasCost v
      if r.circuitName = .universalOuter then .ok ⟨none, st.data ++ [r]⟩
      else .ok ⟨some r, st.data⟩
  | none => .ok st

/-- The loop body after `line = line.strip()`: handle a `Begin` line, and, while a record
is open, run the metric tests in the source's order. -/
def parseStrippedLine (st : ParseState) (line : List Char) : Except ParseError ParseState := do
  match ← startCircuits line st.currentCircuit with
  | none => pure ⟨none, st.data⟩
  | some r => closeOnGasCost line (closeOnProvingTime line (recordCounts line r) st.data)

/-- One iteration of `for line in file`. -/
def parseLine (st : ParseState) (rawLine : List Char) : Except ParseError ParseState :=
  parseStrippedLine st (strip rawLine)

/-- `parse_logs`, up to the CSV writer: the rows it hands to `write_to_csv`, from the lines
of the log file as `for line in file` yields them. -/
def parseLogs (lines : List (List Char)) : Except ParseError (List CircuitRecord) :=
  (lines.foldlM parseLine ⟨none, []⟩).map (·.data)

end UpaScripts.LogParsing
