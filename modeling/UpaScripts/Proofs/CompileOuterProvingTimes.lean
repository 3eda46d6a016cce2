import UpaScripts.Proofs.OuterConfig

/-!
# `UpaScripts.Proofs.CompileOuterProvingTimes`: compiling the outer proving times

`compileOuterProvingTimes` reads the combined table in two loops. The reading loop
(`collectRow`) files each `UBV` and `Keccak` run under its configuration and keeps the
`UniversalOuter` runs. The processing loop (`newRow`) then joins each outer run with the runs
its configuration aggregates.

`foldlM_collectRow` is the run equation of the reading loop over rows that have both columns,
and `get?_fileRuns_empty` reads a filed dict back: under each configuration it holds the last
run with it. `collectRow_lastRuns` states the two together from the empty state.

`newRow_outerRun` is what the processing loop does with one outer run whose configuration has
an `OuterConfigLayout`: it never raises, its keys are all field names of the writer, and the
cells it writes are `joinedCells`. `compileOuterProvingTimes_eq` is the principal equation: on a
table that has the three columns the script reads, each outer run being of the benchmarks'
form, the call writes the header and the joined row of each outer run, in the order of the
table, and raises nothing; `compileOuterProvingTimes_outerTable` states it with the written
rows as a table, `outerTable`. `compileOuterProvingTimes_bad_config`: an outer run whose
configuration the parsing functions reject makes the call raise before it writes.

`compileOuterProvingTimes_raisesOrWrites` holds on every input: the writing never raises, since
every `new_row` the processing loop builds has only field names of the writer as keys
(`keys_newRow`, from `keys_parseOuterConfig`), so every exception comes before the output is
opened.
-/

set_option autoImplicit false

namespace UpaScripts.LogParsing

open UpaScripts.Python UpaScripts.Python.Csv

/-- `row['circuit_name']`; `None` also for a row without the key. -/
def nameOf (row : DictRow) : Option (List Char) :=
  (row.fields.get? "circuit_name".toList).join

/-- `row['configuration']`; `None` also for a row without the key. -/
def configOf (row : DictRow) : Option (List Char) :=
  (row.fields.get? "configuration".toList).join

/-- The runs of a circuit, in the order of the table. -/
def runsOf (name : String) (rows : List DictRow) : List DictRow :=
  rows.filter fun row => nameOf row = some name.toList

/-- The last run of a circuit with a given configuration. -/
def lastRun (name : String) (rows : List DictRow) (config : Option (List Char)) :
    Option DictRow :=
  ((runsOf name rows).filter fun row => configOf row = config).getLast?

/-- Each run of a circuit filed under its configuration in turn. -/
def fileRuns (name : String) (rows : List DictRow) (d : Dict (Option (List Char)) DictRow) :
    Dict (Option (List Char)) DictRow :=
  (runsOf name rows).foldl (fun d row => d.set (configOf row) row) d

/-- A row that has the two columns the reading loop reads. -/
def HasNameAndConfig (row : DictRow) : Prop :=
  "circuit_name".toList ∈ row.fields.keys ∧ "configuration".toList ∈ row.fields.keys

theorem getItem_of_mem_keys {row : DictRow} {k : List Char} (h : k ∈ row.fields.keys) :
    getItem row k = .ok (row.fields.get? k).join := by
  obtain ⟨v, hv⟩ := Option.ne_none_iff_exists'.mp (mt Dict.get?_eq_none_iff.mp (not_not.mpr h))
  simp [getItem, hv]

/-! ### The reading loop -/

theorem runsOf_cons (name : String) (row : DictRow) (rows : List DictRow) :
    runsOf name (row :: rows) =
      if nameOf row = some name.toList then row :: runsOf name rows else runsOf name rows := by
  by_cases h : nameOf row = some name.toList <;> simp [runsOf, List.filter_cons, h]

/-- One step of the reading loop on a row with both columns. -/
theorem collectRow_of_hasNameAndConfig (st : MetricsState) {row : DictRow}
    (h : HasNameAndConfig row) :
    collectRow st row = .ok ⟨fileRuns "UBV" [row] st.ubvMetrics,
      fileRuns "Keccak" [row] st.keccakMetrics, st.data ++ runsOf "UniversalOuter" [row]⟩ := by
  have hname : getItem row "circuit_name".toList = .ok (nameOf row) := getItem_of_mem_keys h.1
  have hconfig : getItem row "configuration".toList = .ok (configOf row) :=
    getItem_of_mem_keys h.2
  simp only [collectRow, hname, hconfig, except_bind_ok]
  by_cases hu : nameOf row = some "UBV".toList
  · simp [hu, fileRuns, runsOf]; rfl
  by_cases hk : nameOf row = some "Keccak".toList
  · simp [hu, hk, fileRuns, runsOf]; rfl
  by_cases ho : nameOf row = some "UniversalOuter".toList
  · simp [hu, hk, ho, fileRuns, runsOf]; rfl
  · rw [if_neg hu, if_neg hk, if_neg ho, fileRuns, fileRuns, runsOf_cons, runsOf_cons,
      runsOf_cons, if_neg hu, if_neg hk, if_neg ho]
    simp only [runsOf, List.filter_nil, List.append_nil]
    rfl

theorem runsOf_append (name : String) (xs ys : List DictRow) :
    runsOf name (xs ++ ys) = runsOf name xs ++ runsOf name ys :=
  List.filter_append _ _

theorem fileRuns_append (name : String) (xs ys : List DictRow)
    (d : Dict (Option (List Char)) DictRow) :
    fileRuns name (xs ++ ys) d = fileRuns name ys (fileRuns name xs d) := by
  rw [fileRuns, runsOf_append, List.foldl_append]; rfl

/-- The reading loop over rows that have both columns: each `UBV` and `Keccak` run filed
under its configuration in turn, and the `UniversalOuter` runs kept in order. -/
theorem foldlM_collectRow {rows : List DictRow} (h : ∀ row ∈ rows, HasNameAndConfig row)
    (st : MetricsState) :
    rows.foldlM collectRow st = .ok ⟨fileRuns "UBV" rows st.ubvMetrics,
      fileRuns "Keccak" rows st.keccakMetrics, st.data ++ runsOf "UniversalOuter" rows⟩ := by
  induction rows generalizing st with
  | nil => simp [fileRuns, runsOf]; rfl
  | cons row rows ih =>
    rw [List.foldlM_cons, collectRow_of_hasNameAndConfig st (h row (List.mem_cons_self _ _)),
      except_bind_ok, ih fun r hr => h r (List.mem_cons_of_mem _ hr)]
    rw [show row :: rows = [row] ++ rows from rfl, fileRuns_append, fileRuns_append,
      runsOf_append, List.append_assoc]

/-- A dict the reading loop builds holds, under each configuration, the last run with it. -/
theorem get?_fileRuns_empty (name : String) (rows : List DictRow) (config : Option (List Char)) :
    (fileRuns name rows Dict.empty).get? config = lastRun name rows config := by
  rw [fileRuns]
  exact (Dict.get?_foldl_set_getLast configOf id _ _ _).trans (by simp [lastRun])

/-- A row of a table `DictReader` read has a key for each field name. -/
theorem mem_keys_of_mem_dictRows {header : List (List Char)} {rows : List (List (List Char))}
    {row : DictRow} (hrow : row ∈ dictRows (header :: rows)) {k : List Char} (hk : k ∈ header) :
    k ∈ row.fields.keys := by
  obtain ⟨r, -, rfl⟩ := List.mem_map.mp hrow
  exact mem_keys_dictRow hk

/-- A combined table of the benchmarks' form: two `UBV` runs and a `Keccak` run of the
configurations `sampleOuterConfig` aggregates, then the outer run. -/
def outerRunTable : List (List (List Char)) :=
  [["circuit_name", "configuration", "proving_time", "gas_cost"].map String.toList,
    ["UBV".toList, sampleOuterConfig.ubvKey, "100".toList, []],
    ["UBV".toList, sampleOuterConfig.ubvKey, "120".toList, []],
    ["Keccak".toList, sampleOuterConfig.keccakKey, "50".toList, []],
    ["UniversalOuter".toList, sampleOuterConfig.text, "900".toList, "31337".toList]]

/-- The reading loop from the empty state over rows that have both columns raises nothing,
keeps the `UniversalOuter` runs in order, and files under each configuration the last `UBV`
and the last `Keccak` run with it. -/
theorem collectRow_lastRuns {rows : List DictRow} (h : ∀ row ∈ rows, HasNameAndConfig row) :
    ∃ st, rows.foldlM collectRow MetricsState.empty = .ok st ∧
      st.data = runsOf "UniversalOuter" rows ∧
      (∀ config, st.ubvMetrics.get? config = lastRun "UBV" rows config) ∧
      ∀ config, st.keccakMetrics.get? config = lastRun "Keccak" rows config :=
  ⟨_, foldlM_collectRow h _, List.nil_append _, get?_fileRuns_empty _ _, get?_fileRuns_empty _ _⟩

theorem collectRow_lastRuns_outerRunTable :
    ∃ st, (dictRows outerRunTable).foldlM collectRow MetricsState.empty = .ok st ∧
      (st.ubvMetrics.get? (some sampleOuterConfig.ubvKey)).bind
        (fun run => (run.fields.get? "proving_time".toList).join) = some "120".toList :=
  let ⟨st, hst, _, hubv, _⟩ := @collectRow_lastRuns (dictRows outerRunTable) fun _ hrow =>
    ⟨mem_keys_of_mem_dictRows hrow (by decide), mem_keys_of_mem_dictRows hrow (by decide)⟩
  ⟨st, hst, by rw [hubv]; rfl⟩

/-! ### The processing loop -/

theorem configDetails_entries (l : OuterConfigLayout) : l.configDetails.entries =
    [("inner_batch_size".toList, str l.innerBatchSize),
      ("outer_batch_size".toList, str l.outerBatchSize),
      ("total_batch_size".toList, str (l.innerBatchSize * l.outerBatchSize)),
      ("max_num_public_inputs".toList, str l.maxNumAppPublicInputs),
      ("outer_degree_bits".toList, str l.outerDegreeBits),
      ("ubv_degree_bits".toList, str l.bvDegreeBits),
      ("keccak_degree_bits".toList, str l.keccakDegreeBits)] :=
  Dict.entries_ofList (by simp only [List.map_cons, List.map_nil]; decide)

/-- `row.get(k, 'NA')` as the writer writes it: `''` for `None`. -/
def cellOf (d : Dict (List Char) (Option (List Char))) (k : List Char) : List Char :=
  (dictGet d k "NA".toList).getD []

/-- The fields of a run, and `{}` when there is none. -/
def runFields (run : Option DictRow) : Dict (List Char) (Option (List Char)) :=
  (run.map DictRow.fields).getD Dict.empty

/-- The row written for an outer run whose configuration has the layout `l`, column by column
in the order of `compileFieldnames`: the numbers of the configuration, the outer run's own
metrics, and those of the last UBV and Keccak runs of `rows` whose configurations are the ones
`l` aggregates, `NA` for each when there is no such run. -/
def joinedCells (rows : List DictRow) (row : DictRow) (l : OuterConfigLayout) :
    List (List Char) :=
  let ubv := runFields (lastRun "UBV" rows (some l.ubvKey))
  let keccak := runFields (lastRun "Keccak" rows (some l.keccakKey))
  ["UniversalOuter".toList, str l.innerBatchSize, str l.outerBatchSize,
      str (l.innerBatchSize * l.outerBatchSize), str l.maxNumAppPublicInputs,
      str l.outerDegreeBits, str l.bvDegreeBits, str l.keccakDegreeBits,
      cellOf row.fields "gas_cost".toList, ((row.fields.get? "proving_time".toList).join).getD [],
      cellOf ubv "proving_time".toList, cellOf keccak "proving_time".toList] ++
    copiedMetrics.map (cellOf ubv) ++ copiedMetrics.map (cellOf keccak) ++
    copiedMetrics.map (cellOf row.fields) ++ [l.text]

/-- Reading cells back from a dict built by `dict(pairs)` with distinct keys. -/
theorem map_cells_ofList {pairs : List (List Char × Option (List Char))}
    (h : (pairs.map Prod.fst).Nodup) (ks : List (List Char)) :
    ks.map (fun k => (((Dict.ofList pairs).get? k).map fun v => v.getD []).getD []) =
      ks.map fun k => ((pairs.lookup k).map fun v => v.getD []).getD [] := by
  simp only [Dict.get?_ofList_of_nodup h]
  -- the two `lookup`s differ only in their lawful `BEq` instances
  rw [@lawful_beq_subsingleton (List Char) instBEqOfDecidableEq List.instBEq instLawfulBEq _]

/-- `new_row` on an outer run of the benchmarks' form, with the dicts the reading loop built:
a dict whose keys are field names of the writer and whose cells are `joinedCells`. -/
theorem newRow_outerRun {rows : List DictRow} {row : DictRow} (hkeys : HasNameAndConfig row)
    (htime : "proving_time".toList ∈ row.fields.keys)
    (hname : nameOf row = some "UniversalOuter".toList) {l : OuterConfigLayout}
    (hw : l.WellFormed) (hconfig : configOf row = some l.text) :
    ∃ d, newRow (fileRuns "UBV" rows Dict.empty) (fileRuns "Keccak" rows Dict.empty) row = .ok d ∧
      (∀ k ∈ d.keys, k ∈ compileFieldnames) ∧
      compileFieldnames.map (fun k => ((d.get? k).map fun v => v.getD []).getD []) =
        joinedCells rows row l := by
  have hc : getItem row "configuration".toList = .ok (some l.text) :=
    (getItem_of_mem_keys hkeys.2).trans (congrArg _ hconfig)
  have hn : getItem row "circuit_name".toList = .ok (some "UniversalOuter".toList) :=
    (getItem_of_mem_keys hkeys.1).trans (congrArg _ hname)
  have ht := getItem_of_mem_keys htime
  simp only [newRow, hc, hn, ht, parseOuterConfig_eq_configDetails hw,
    extractUbvAndKeccakConfigs_eq_keys hw, get?_fileRuns_empty, except_bind_ok]
  refine ⟨_, rfl, fun k hk => ?_, ?_⟩
  · rcases Dict.mem_keys_foldl_set _ Prod.fst Prod.snd _ hk with h | h
    · exact absurd h (List.not_mem_nil k)
    · clear hk
      revert k
      simp only [configDetails_entries, copiedMetrics, List.map_append, List.map_map,
        List.map_cons, List.map_nil, Function.comp_def]
      decide
  · refine (map_cells_ofList ?_ _).trans ?_
    · simp only [configDetails_entries, copiedMetrics, List.map_append, List.map_map,
        List.map_cons, List.map_nil, Function.comp_def]
      decide
    · rw [configDetails_entries]
      rfl

/-- The cells the writer writes for a processed row. -/
def writtenCells (d : Dict (List Char) (Option (List Char))) : List (List Char) :=
  compileFieldnames.map fun k => ((d.get? k).map fun v => v.getD []).getD []

/-- The processing loop over outer runs whose configurations have layouts. -/
theorem mapM_newRow {rows : List DictRow} (layout : DictRow → OuterConfigLayout) :
    ∀ {xs : List DictRow}, (∀ row ∈ xs, HasNameAndConfig row ∧
        "proving_time".toList ∈ row.fields.keys ∧ nameOf row = some "UniversalOuter".toList ∧
        (layout row).WellFormed ∧ configOf row = some (layout row).text) →
      ∃ ds, xs.mapM (newRow (fileRuns "UBV" rows Dict.empty) (fileRuns "Keccak" rows Dict.empty)) =
          .ok ds ∧ (∀ d ∈ ds, ∀ k ∈ d.keys, k ∈ compileFieldnames) ∧
        ds.map writtenCells = xs.map fun row => joinedCells rows row (layout row)
  | [], _ => ⟨[], rfl, by simp, rfl⟩
  | row :: xs, h => by
    obtain ⟨hkeys, htime, hname, hw, hconfig⟩ := h row (List.mem_cons_self _ _)
    obtain ⟨d, hd, hdkeys, hdcells⟩ := newRow_outerRun hkeys htime hname hw hconfig
    obtain ⟨ds, hds, hdskeys, hdscells⟩ := mapM_newRow layout fun r hr =>
      h r (List.mem_cons_of_mem _ hr)
    refine ⟨d :: ds, ?_, ?_, ?_⟩
    · rw [List.mapM_cons, hd, except_bind_ok, hds]; rfl
    · rintro d' (_ | ⟨_, hd'⟩)
      exacts [hdkeys, hdskeys d' hd']
    · rw [List.map_cons, List.map_cons, ← hdscells]
      exact congrArg (· :: _) hdcells

/-! ### The whole call -/

/-- The table `compile_outer_proving_times` writes when the outer runs of `rows` have the
configurations `layout` gives: the header, then the joined row of each outer run. -/
def outerTable (rows : List DictRow) (layout : DictRow → OuterConfigLayout) :
    List (List (List Char)) :=
  compileFieldnames :: (runsOf "UniversalOuter" rows).map fun row => joinedCells rows row (layout row)

/-- The whole call on a table whose outer runs have layouts writes `outerTable`. -/
theorem compileOuterProvingTimes_outerTable (w : World) (inputCsv outputCsv : List Char)
    {text : List Char} (hinput : w.read inputCsv = .ok text) {header : List (List Char)}
    {rows : List (List (List Char))} (hread : readText text = (header :: rows, none))
    (hheader : "circuit_name".toList ∈ header ∧ "configuration".toList ∈ header ∧
      "proving_time".toList ∈ header)
    (layout : DictRow → OuterConfigLayout)
    (hlayout : ∀ row ∈ runsOf "UniversalOuter" (dictRows (header :: rows)),
      (layout row).WellFormed ∧ configOf row = some (layout row).text) :
    compileOuterProvingTimes w inputCsv outputCsv =
      ([.write outputCsv ((outerTable (dictRows (header :: rows)) layout).flatMap writeRow)],
        none) := by
  have hkeys : ∀ row ∈ dictRows (header :: rows), HasNameAndConfig row := fun row hrow =>
    ⟨mem_keys_of_mem_dictRows hrow hheader.1, mem_keys_of_mem_dictRows hrow hheader.2.1⟩
  obtain ⟨ds, hds, hdskeys, hdscells⟩ := @mapM_newRow (dictRows (header :: rows)) layout
    (runsOf "UniversalOuter" (dictRows (header :: rows))) fun row hrow => by
      have hmem := List.mem_of_mem_filter hrow
      exact ⟨hkeys row hmem, mem_keys_of_mem_dictRows hmem hheader.2.2,
        of_decide_eq_true (List.mem_filter.mp hrow).2, hlayout row hrow⟩
  have hwrite : ∀ d ∈ ds.map (Dict.mapValues fun v => v.getD []), ∀ k ∈ d.keys,
      k ∈ compileFieldnames := by
    intro d hd k hk
    obtain ⟨d', hd', rfl⟩ := List.mem_map.mp hd
    exact hdskeys d' hd' k (by rwa [Dict.keys_mapValues] at hk)
  simp only [compileOuterProvingTimes, hinput, hread, foldlM_collectRow hkeys, MetricsState.empty,
    List.nil_append, hds, writeToCsv, writeTable_of_keys hwrite, Option.map_none']
  rw [outerTable, List.flatMap_cons, ← hdscells, List.flatMap_map, List.flatMap_map]
  simp only [Dict.get?_mapValues]
  rfl

/-- `compile_outer_proving_times` on a table with the columns `circuit_name`, `configuration`
and `proving_time` whose outer runs all have configurations of the benchmarks' form: it writes
the header and, for each outer run in the order of the table, the numbers of its
configuration, its own metrics and those of the last `UBV` and `Keccak` runs it aggregates. -/
theorem compileOuterProvingTimes_eq (w : World) (inputCsv outputCsv : List Char)
    {text : List Char} (hinput : w.read inputCsv = .ok text) {header : List (List Char)}
    {rows : List (List (List Char))} (hread : readText text = (header :: rows, none))
    (hheader : "circuit_name".toList ∈ header ∧ "configuration".toList ∈ header ∧
      "proving_time".toList ∈ header)
    (layout : DictRow → OuterConfigLayout)
    (hlayout : ∀ row ∈ runsOf "UniversalOuter" (dictRows (header :: rows)),
      (layout row).WellFormed ∧ configOf row = some (layout row).text) :
    compileOuterProvingTimes w inputCsv outputCsv =
      ([.write outputCsv (writeRow compileFieldnames ++
        (runsOf "UniversalOuter" (dictRows (header :: rows))).flatMap fun row =>
          writeRow (joinedCells (dictRows (header :: rows)) row (layout row)))], none) :=
  (compileOuterProvingTimes_outerTable w inputCsv outputCsv hinput hread hheader layout
    hlayout).trans (by rw [outerTable, List.flatMap_cons, List.flatMap_map])

/-- The combined table as the only file of a world. -/
def outerRunWorld : World :=
  ⟨fun path => if path = "combined.csv".toList then some (outerRunTable.flatMap writeRow)
    else none, []⟩

set_option maxRecDepth 4000 in
theorem plain_outerRunTable : ∀ row ∈ outerRunTable, ∀ f ∈ row, Plain f := by
  decide

set_option maxRecDepth 4000 in
theorem configOf_outerRunTable : ∀ row ∈ runsOf "UniversalOuter" (dictRows outerRunTable),
    configOf row = some sampleOuterConfig.text := by
  decide

set_option maxRecDepth 4000 in
/-- The row written for the outer run of `outerRunTable`: the second of the two UBV runs is the
one joined. -/
theorem joinedRows_outerRunTable :
    (runsOf "UniversalOuter" (dictRows outerRunTable)).flatMap (fun row =>
      writeRow (joinedCells (dictRows outerRunTable) row sampleOuterConfig)) =
      writeRow (["UniversalOuter", "2", "4", "8", "8", "23", "21", "18", "31337", "900", "120",
        "50"].map String.toList ++ List.replicate 15 "NA".toList ++ [sampleOuterConfig.text]) := by
  rfl

theorem compileOuterProvingTimes_outerRunTable :
    compileOuterProvingTimes outerRunWorld "combined.csv".toList "outer.csv".toList =
      ([.write "outer.csv".toList (writeRow compileFieldnames ++
        writeRow (["UniversalOuter", "2", "4", "8", "8", "23", "21", "18", "31337", "900", "120",
          "50"].map String.toList ++ List.replicate 15 "NA".toList ++ [sampleOuterConfig.text]))],
        none) :=
  (@compileOuterProvingTimes_eq outerRunWorld "combined.csv".toList "outer.csv".toList _ rfl
    outerRunTable.head! outerRunTable.tail (readText_flatMap_writeRow _ plain_outerRunTable)
    (by decide) (fun _ => sampleOuterConfig)
    fun row hrow => ⟨sampleOuterConfig_wellFormed, configOf_outerRunTable row hrow⟩).trans
    (congrArg (fun t => ([Effect.write "outer.csv".toList (writeRow compileFieldnames ++ t)], none))
      joinedRows_outerRunTable)

/-! ### A configuration the processing loop rejects -/

/-- `new_row` raises when `parse_outer_config` or `extract_ubv_and_keccak_configs` raises on
the row's configuration. -/
theorem newRow_error_of_config (ubvMetrics keccakMetrics : Dict (Option (List Char)) DictRow)
    {row : DictRow} (hconfig : "configuration".toList ∈ row.fields.keys)
    (hbad : (∃ e, parseOuterConfig (configOf row) = .error e) ∨
      ∃ e, extractUbvAndKeccakConfigs (configOf row) = .error e) :
    ∃ e, newRow ubvMetrics keccakMetrics row = .error e := by
  have hc : getItem row "configuration".toList = .ok (configOf row) := getItem_of_mem_keys hconfig
  cases hp : parseOuterConfig (configOf row) with
  | error e => exact ⟨e, by simp only [newRow, hc, hp, except_bind_ok, except_bind_error]⟩
  | ok d =>
    obtain ⟨e, he⟩ := hbad.resolve_left fun ⟨_, he⟩ => by rw [hp] at he; cases he
    exact ⟨e, by simp only [newRow, hc, hp, he, except_bind_ok, except_bind_error]⟩

/-- A table read without error, whose header has the columns `circuit_name` and
`configuration`, with an outer run whose configuration `parse_outer_config` or
`extract_ubv_and_keccak_configs` rejects: `compile_outer_proving_times` raises before it opens
the output file, so that no file is written. -/
theorem compileOuterProvingTimes_bad_config (w : World) (inputCsv outputCsv : List Char)
    {text : List Char} (hinput : w.read inputCsv = .ok text) {header : List (List Char)}
    {rows : List (List (List Char))} (hread : readText text = (header :: rows, none))
    (hheader : "circuit_name".toList ∈ header ∧ "configuration".toList ∈ header) {row : DictRow}
    (hrow : row ∈ runsOf "UniversalOuter" (dictRows (header :: rows)))
    (hbad : (∃ e, parseOuterConfig (configOf row) = .error e) ∨
      ∃ e, extractUbvAndKeccakConfigs (configOf row) = .error e) :
    ∃ e, compileOuterProvingTimes w inputCsv outputCsv = ([], some e) := by
  have hkeys : ∀ row ∈ dictRows (header :: rows), HasNameAndConfig row := fun row hrow =>
    ⟨mem_keys_of_mem_dictRows hrow hheader.1, mem_keys_of_mem_dictRows hrow hheader.2⟩
  obtain ⟨e, he⟩ := newRow_error_of_config (fileRuns "UBV" (dictRows (header :: rows)) Dict.empty)
    (fileRuns "Keccak" (dictRows (header :: rows)) Dict.empty)
    (hkeys row (List.mem_of_mem_filter hrow)).2 hbad
  obtain ⟨e', he'⟩ := mapM_except_error hrow he
  simp only [compileOuterProvingTimes, hinput, hread, foldlM_collectRow hkeys, MetricsState.empty,
    List.nil_append, he']
  exact ⟨e', rfl⟩

/-- A table with an outer run whose configuration has no batch sizes. -/
def badConfigTable : List (List (List Char)) :=
  [["circuit_name", "configuration", "proving_time"].map String.toList,
    ["UniversalOuter", "x", "9"].map String.toList]

/-- The table as the only file of a world. -/
def badConfigWorld : World :=
  ⟨fun path => if path = "combined.csv".toList then some (badConfigTable.flatMap writeRow)
    else none, []⟩

theorem compileOuterProvingTimes_bad_config_world :
    ∃ e, compileOuterProvingTimes badConfigWorld "combined.csv".toList "outer.csv".toList =
      ([], some e) :=
  @compileOuterProvingTimes_bad_config badConfigWorld "combined.csv".toList "outer.csv".toList _ rfl
    badConfigTable.head! badConfigTable.tail (readText_flatMap_writeRow _ (by decide))
    (by decide) _ (List.mem_singleton_self _) (.inl ⟨_, rfl⟩)

/-! ### No half-written table -/

/-- `parse_outer_config` returns a dict of seven of the writer's field names. -/
theorem keys_parseOuterConfig (configuration : Option (List Char)) :
    ∀ d, parseOuterConfig configuration = .ok d → ∀ k ∈ d.keys, k ∈ compileFieldnames := by
  unfold parseOuterConfig
  repeat (first | apply of_except_pure_ok | (apply of_except_bind_ok; intro _ _))
  intro k hk
  have hnames : ∀ k ∈ ["inner_batch_size".toList, "outer_batch_size".toList,
      "total_batch_size".toList, "max_num_public_inputs".toList, "outer_degree_bits".toList,
      "ubv_degree_bits".toList, "keccak_degree_bits".toList], k ∈ compileFieldnames := by
    decide
  have hk' := Dict.mem_keys_ofList hk
  simp only [List.map_cons, List.map_nil] at hk'
  exact hnames k hk'

/-- Every `new_row` has only field names of the writer as keys. -/
theorem keys_newRow (ubvMetrics keccakMetrics : Dict (Option (List Char)) DictRow)
    (row : DictRow) :
    ∀ d, newRow ubvMetrics keccakMetrics row = .ok d → ∀ k ∈ d.keys, k ∈ compileFieldnames := by
  unfold newRow
  refine of_except_bind_ok fun _ _ => of_except_bind_ok fun details hdetails => ?_
  refine of_except_bind_ok fun _ _ => of_except_bind_ok fun _ _ => ?_
  refine of_except_bind_ok fun _ _ => of_except_bind_ok fun _ _ => of_except_pure_ok fun k hk => ?_
  have hk' := Dict.mem_keys_ofList hk
  clear hk
  simp only [List.map_append, List.map_map, List.map_cons, List.map_nil, Function.comp_def,
    List.mem_append] at hk'
  rcases hk' with (((hk' | hk') | hk') | hk') | hk'
  · -- the keys of `config_details`
    exact keys_parseOuterConfig _ details hdetails k (by simpa [Dict.keys] using hk')
  -- the keys the display names
  all_goals revert k; decide

/-- `compile_outer_proving_times` never leaves a half-written table: every exception it raises
comes before it opens the output, and once it opens it, it writes the whole table and
returns. -/
theorem compileOuterProvingTimes_raisesOrWrites (w : World) (inputCsv outputCsv : List Char) :
    RaisesOrWrites outputCsv (compileOuterProvingTimes w inputCsv outputCsv) := by
  unfold compileOuterProvingTimes
  split
  · exact .inl ⟨rfl, Option.some_ne_none _⟩
  · dsimp only
    split
    · exact .inl ⟨rfl, Option.some_ne_none _⟩
    · exact .inl ⟨rfl, Option.some_ne_none _⟩
    · split
      · exact .inl ⟨rfl, Option.some_ne_none _⟩
      · rename_i st processedData hdata
        rw [writeToCsv, writeTable_of_keys fun row hrow k hk => ?_]
        · exact .inr ⟨_, rfl⟩
        · obtain ⟨d, hd, rfl⟩ := List.mem_map.mp hrow
          obtain ⟨run, -, hrun⟩ := mem_of_mapM_except_ok hdata hd
          rw [Dict.keys_mapValues] at hk
          exact keys_newRow _ _ run d hrun k hk

end UpaScripts.LogParsing
