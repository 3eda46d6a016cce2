import UpaScripts.Proofs.CompileOuterProvingTimes
import UpaScripts.Proofs.SortCsvByColumns

/-!
# `UpaScripts.Proofs.ProcessedTable`: the last two stages of `main`

`main` runs `compile_outer_proving_times` into `output_file + '_processed.csv'` and then
`sort_csv_by_columns` on that file. The seven columns the sort converts with `int()` are seven
of the numbers the compilation writes with `str()`, so the sort accepts every table the
compilation writes, when the numbers have at most 4300 digits and no cell holds a newline.

* `get?_dictRow_joinedCells`: `DictReader` reads a joined row back with `str` of the layout's
  `sortNumbers` under the seven columns;
* `sortedFields_joinedCells`: the sort writes each joined row back as it was;
* `plain_joinedCells`: the cells of a joined row hold no newline when the input table's
  fields hold none;
* `sortCsvByColumns_outerTable`: the sort on a file that holds `outerTable`;
* `sortCsvByColumns_compileOuterProvingTimes`: the two calls one after the other leave the
  joined rows in the file, in the stable order of the seven numbers.
-/

set_option autoImplicit false

namespace UpaScripts.LogParsing

open UpaScripts.Python UpaScripts.Python.Csv

namespace OuterConfigLayout

/-- The numbers of a layout under the seven columns the sort converts, in the order of
`intColumns`. -/
def sortNumbers (l : OuterConfigLayout) : List Nat :=
  [l.maxNumAppPublicInputs, l.innerBatchSize * l.outerBatchSize, l.outerBatchSize,
    l.innerBatchSize, l.outerDegreeBits, l.bvDegreeBits, l.keccakDegreeBits]

/-- The key `sorted` orders the joined row of a run with this layout by. -/
def sortInts (l : OuterConfigLayout) : List Int :=
  l.sortNumbers.map Int.ofNat

end OuterConfigLayout

/-! ### A joined row read back -/

theorem length_joinedCells (rows : List DictRow) (row : DictRow) (l : OuterConfigLayout) :
    (joinedCells rows row l).length = compileFieldnames.length := by
  simp [joinedCells, copiedMetrics, compileFieldnames]

theorem compileFieldnames_nodup : compileFieldnames.Nodup := by
  decide

theorem get?_dictRow_joinedCells (rows : List DictRow) (row : DictRow) (l : OuterConfigLayout) :
    intColumns.map (fun col => (dictRow compileFieldnames (joinedCells rows row l)).fields.get? col) =
      l.sortNumbers.map fun n => some (some (str n)) := by
  have hkeys : (compileFieldnames.zip ((joinedCells rows row l).map some)).map Prod.fst =
      compileFieldnames := List.map_fst_zip _ _ (by simp [length_joinedCells])
  rw [dictRow_of_length (length_joinedCells rows row l)]
  simp only [Dict.get?_ofList_of_nodup (hkeys ▸ compileFieldnames_nodup)]
  rfl

theorem intOfStr_str {n : Nat} (h : (str n).length ≤ maxStrDigits) : intOfStr (str n) = .ok n := by
  have hstr : strOfInt (n : Int) = str n := by simp [strOfInt, Int.ofNat_nonneg]
  rw [← hstr, intOfStr_strOfInt _ (by simpa using h)]

/-- What `parsedInts` takes from the value under a column. -/
def valueInt : Option (Option (List Char)) → Int
  | some (some s) => (intOfStr s).toOption.getD 0
  | _ => 0

theorem parsedInts_eq_valueInt (row : DictRow) (col : List Char) :
    parsedInts row col = valueInt (row.fields.get? col) := by
  unfold parsedInts valueInt
  rfl

theorem parsedInts_of_get? {row : DictRow} {col : List Char} {n : Nat}
    (h : row.fields.get? col = some (some (str n))) (hn : (str n).length ≤ maxStrDigits) :
    parsedInts row col = n :=
  parsedInts_of_intOfStr h (intOfStr_str hn)

section Digits

variable {rows : List DictRow} {row : DictRow} {l : OuterConfigLayout}
  (hdigits : ∀ n ∈ l.sortNumbers, (str n).length ≤ maxStrDigits)
include hdigits

/-- Under each of the seven columns a joined row holds `str` of one of the layout's numbers. -/
theorem get?_dictRow_joinedCells_of_mem {col : List Char} (hcol : col ∈ intColumns) :
    ∃ n ∈ l.sortNumbers, (str n).length ≤ maxStrDigits ∧
      (dictRow compileFieldnames (joinedCells rows row l)).fields.get? col = some (some (str n)) := by
  have hmem := get?_dictRow_joinedCells rows row l ▸ List.mem_map_of_mem
    (fun col => (dictRow compileFieldnames (joinedCells rows row l)).fields.get? col) hcol
  obtain ⟨n, hn, heq⟩ := List.mem_map.mp hmem
  exact ⟨n, hn, hdigits n hn, heq.symm⟩

/-- The sort key of a joined row is the layout's seven numbers. -/
theorem parsedInts_joinedCells :
    intColumns.map (parsedInts (dictRow compileFieldnames (joinedCells rows row l))) =
      l.sortInts := by
  have hvalues := congrArg (List.map valueInt) (get?_dictRow_joinedCells rows row l)
  simp only [List.map_map, Function.comp_def] at hvalues
  rw [List.map_congr_left fun col _ => parsedInts_eq_valueInt _ col, hvalues,
    OuterConfigLayout.sortInts]
  exact List.map_congr_left fun n hn => by
    simp only [valueInt, intOfStr_str (hdigits n hn)]
    rfl

/-- `sort_csv_by_columns` writes a joined row back as it was: `str(int(str(n)))` is
`str(n)`. -/
theorem sortedFields_joinedCells :
    sortedFields compileFieldnames (dictRow compileFieldnames (joinedCells rows row l))
      (parsedInts (dictRow compileFieldnames (joinedCells rows row l))) = joinedCells rows row l := by
  refine (List.map_congr_left fun col _ => ?_).trans
    (map_get?_dictRow compileFieldnames_nodup (length_joinedCells rows row l))
  split
  · obtain ⟨n, -, hn, hget⟩ := get?_dictRow_joinedCells_of_mem hdigits ‹col ∈ intColumns›
    rw [parsedInts_of_get? hget hn, hget]
    simp [strOfInt, Int.ofNat_nonneg]
  · rfl

end Digits

/-! ### Cells without newlines -/

theorem plain_cellOf {d : Dict (List Char) (Option (List Char))} (hd : ValuesPlain d)
    (k : List Char) : Plain (cellOf d k) := by
  unfold cellOf dictGet
  rcases h : d.get? k with _ | _ | v
  · decide
  · decide
  · exact hd k v h

theorem valuesPlain_runFields {rows : List DictRow} (hrows : ∀ r ∈ rows, ValuesPlain r.fields)
    (name : String) (config : Option (List Char)) :
    ValuesPlain (runFields (lastRun name rows config)) := by
  rcases h : lastRun name rows config with _ | run
  · exact valuesPlain_empty
  · exact hrows run (List.mem_of_mem_filter
      (List.mem_of_mem_filter (List.mem_of_getLast?_eq_some h)))

/-- The cells of a joined row are fields `csv` writes and reads back. -/
theorem plain_joinedCells {rows : List DictRow} {row : DictRow} {l : OuterConfigLayout}
    (hrows : ∀ r ∈ rows, ValuesPlain r.fields) (hrow : ValuesPlain row.fields)
    (htext : Plain l.text) (hdigits : ∀ n ∈ l.sortNumbers, (str n).length ≤ maxStrDigits) :
    ∀ f ∈ joinedCells rows row l, Plain f := by
  have hubv := valuesPlain_runFields hrows "UBV" (some l.ubvKey)
  have hkeccak := valuesPlain_runFields hrows "Keccak" (some l.keccakKey)
  have hnum : ∀ n ∈ l.sortNumbers, Plain (str n) := fun n hn => plain_str (hdigits n hn)
  have htime : Plain ((row.fields.get? "proving_time".toList).join.getD []) := by
    rcases h : row.fields.get? "proving_time".toList with _ | _ | v
    · decide
    · decide
    · exact hrow _ v h
  simp only [joinedCells, List.forall_mem_append, List.forall_mem_cons, List.forall_mem_map,
    List.forall_mem_singleton]
  refine ⟨⟨⟨⟨⟨by decide, hnum _ ?_, hnum _ ?_, hnum _ ?_, hnum _ ?_, hnum _ ?_, hnum _ ?_,
    hnum _ ?_, plain_cellOf hrow _, htime, plain_cellOf hubv _, plain_cellOf hkeccak _,
    fun _ => nofun⟩, fun _ _ => plain_cellOf hubv _⟩, fun _ _ => plain_cellOf hkeccak _⟩,
    fun _ _ => plain_cellOf hrow _⟩, htext, fun _ => nofun⟩
  all_goals simp [OuterConfigLayout.sortNumbers]

/-! ### The compilation, then the sort -/

theorem dictRows_outerTable (rows : List DictRow) (layout : DictRow → OuterConfigLayout) :
    dictRows (compileFieldnames :: (runsOf "UniversalOuter" rows).map fun row =>
        joinedCells rows row (layout row)) =
      (runsOf "UniversalOuter" rows).map fun row =>
        dictRow compileFieldnames (joinedCells rows row (layout row)) := by
  rw [dictRows_cons fun cells hcells => ?_, List.map_map]
  · rfl
  · obtain ⟨row, -, rfl⟩ := List.mem_map.mp hcells
    exact List.ne_nil_of_length_pos (by rw [length_joinedCells]; decide)

/-- `sort_csv_by_columns` on a file that holds the table `compile_outer_proving_times` writes,
when the values of the table it read hold no newline and the seven numbers of each layout have
at most 4300 digits: the joined rows, sorted on the seven numbers, each written back as it was. -/
theorem sortCsvByColumns_outerTable (w : World) (path : List Char) (table : List DictRow)
    (layout : DictRow → OuterConfigLayout)
    (hfile : w.files path = some ((outerTable table layout).flatMap writeRow))
    (hrows : ∀ r ∈ table, ValuesPlain r.fields)
    (hlayout : ∀ row ∈ runsOf "UniversalOuter" table, configOf row = some (layout row).text ∧
      ∀ n ∈ (layout row).sortNumbers, (str n).length ≤ maxStrDigits) :
    sortCsvByColumns w path =
      ([.write path (writeRow compileFieldnames ++
        (sorted (fun row => (layout row).sortInts) (runsOf "UniversalOuter" table)).flatMap
          fun row => writeRow (joinedCells table row (layout row)))], none) := by
  set runs := runsOf "UniversalOuter" table
  have hcells : ∀ r ∈ compileFieldnames :: runs.map (fun row => joinedCells table row (layout row)),
      ∀ f ∈ r, Plain f := by
    rintro r (_ | ⟨_, hr⟩)
    · decide
    · obtain ⟨row, hrow, rfl⟩ := List.mem_map.mp hr
      obtain ⟨hconfig, hdigits⟩ := hlayout row hrow
      have hrowPlain := hrows row (List.mem_of_mem_filter hrow)
      exact plain_joinedCells hrows hrowPlain (hrowPlain _ _ (by
        rw [← Option.join_eq_some]; exact hconfig)) hdigits
  have hlong : ∀ r ∈ runs.map (fun row => joinedCells table row (layout row)),
      r.length ≤ compileFieldnames.length := by
    intro r hr
    obtain ⟨row, -, rfl⟩ := List.mem_map.mp hr
    exact (length_joinedCells _ _ _).le
  have hints : ∀ r ∈ dictRows (compileFieldnames ::
      runs.map fun row => joinedCells table row (layout row)), ∀ col ∈ intColumns,
      ∃ s, r.fields.get? col = some (some s) ∧ intOfStr s = .ok (parsedInts r col) := by
    intro r hr col hcol
    rw [dictRows_outerTable] at hr
    obtain ⟨row, hrow, rfl⟩ := List.mem_map.mp hr
    obtain ⟨n, -, hn, hget⟩ := get?_dictRow_joinedCells_of_mem (hlayout row hrow).2 hcol
    exact ⟨str n, hget, by rw [intOfStr_str hn, parsedInts_of_get? hget hn]⟩
  rw [outerTable] at hfile
  rw [sortCsvByColumns_eq_sortedRows w path _ hfile (readText_flatMap_writeRow _ hcells) hlong
    parsedInts hints, dictRows_outerTable,
    sorted_map (fun row => (layout row).sortInts) fun row hrow =>
      parsedInts_joinedCells (hlayout row hrow).2, List.map_map,
    List.flatMap_cons, List.flatMap_map]
  refine congrArg (fun t => ([Effect.write path (writeRow compileFieldnames ++ t)], none))
    (List.flatMap_congr fun row hrow => ?_)
  rw [Function.comp_apply, sortedFields_joinedCells (hlayout row (List.mem_mergeSort.mp hrow)).2]

/-- `compile_outer_proving_times` and then `sort_csv_by_columns` on its output file, as `main`
runs them, on a table whose outer runs have configurations of the benchmarks' form with
numbers of at most 4300 digits, and whose fields hold no newline: the output file holds the
header and the joined row of each outer run, in the order of `sorted` on the seven numbers,
and neither call raises. -/
theorem sortCsvByColumns_compileOuterProvingTimes (w : World) (inputCsv outputCsv : List Char)
    {text : List Char} (hinput : w.read inputCsv = .ok text) {header : List (List Char)}
    {rows : List (List (List Char))} (hread : readText text = (header :: rows, none))
    (hheader : "circuit_name".toList ∈ header ∧ "configuration".toList ∈ header ∧
      "proving_time".toList ∈ header)
    (hplain : ∀ r ∈ header :: rows, ∀ f ∈ r, Plain f)
    (layout : DictRow → OuterConfigLayout)
    (hlayout : ∀ row ∈ runsOf "UniversalOuter" (dictRows (header :: rows)),
      (layout row).WellFormed ∧ configOf row = some (layout row).text ∧
        ∀ n ∈ (layout row).sortNumbers, (str n).length ≤ maxStrDigits) :
    let compiled := compileOuterProvingTimes w inputCsv outputCsv
    compiled.2 = none ∧ sortCsvByColumns (w.run compiled.1) outputCsv =
      ([.write outputCsv (writeRow compileFieldnames ++
        (sorted (fun row => (layout row).sortInts)
          (runsOf "UniversalOuter" (dictRows (header :: rows)))).flatMap fun row =>
            writeRow (joinedCells (dictRows (header :: rows)) row (layout row)))], none) := by
  rw [compileOuterProvingTimes_outerTable w inputCsv outputCsv hinput hread hheader layout
    fun row hrow => ⟨(hlayout row hrow).1, (hlayout row hrow).2.1⟩]
  exact ⟨rfl, sortCsvByColumns_outerTable _ outputCsv _ layout (by simp [World.apply])
    (fun _ => valuesPlain_of_mem_dictRows hplain) fun row hrow => (hlayout row hrow).2⟩

theorem sortCsvByColumns_compileOuterProvingTimes_outerRunTable :
    let compiled := compileOuterProvingTimes outerRunWorld "combined.csv".toList "outer.csv".toList
    compiled.2 = none ∧ sortCsvByColumns (outerRunWorld.run compiled.1) "outer.csv".toList =
      ([.write "outer.csv".toList (writeRow compileFieldnames ++
        writeRow (["UniversalOuter", "2", "4", "8", "8", "23", "21", "18", "31337", "900", "120",
          "50"].map String.toList ++ List.replicate 15 "NA".toList ++ [sampleOuterConfig.text]))],
        none) := by
  have hdigits : ∀ n ∈ sampleOuterConfig.sortNumbers, (str n).length ≤ maxStrDigits := by decide
  have h := @sortCsvByColumns_compileOuterProvingTimes outerRunWorld "combined.csv".toList
    "outer.csv".toList _ rfl outerRunTable.head! outerRunTable.tail
    (readText_flatMap_writeRow _ plain_outerRunTable) (by decide) plain_outerRunTable
    (fun _ => sampleOuterConfig)
    fun row hrow => ⟨sampleOuterConfig_wellFormed, configOf_outerRunTable row hrow, hdigits⟩
  refine ⟨h.1, h.2.trans ?_⟩
  -- one outer run: `sorted` keeps it
  rw [sorted, List.mergeSort_of_sorted]
  · exact congrArg (fun t => ([Effect.write "outer.csv".toList (writeRow compileFieldnames ++ t)],
      none)) joinedRows_outerRunTable
  · decide

end UpaScripts.LogParsing
