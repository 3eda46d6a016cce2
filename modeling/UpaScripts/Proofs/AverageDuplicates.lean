import UpaScripts.LogParsing.AverageDuplicates
import UpaScripts.Proofs.ParseLogsFile

/-!
# `UpaScripts.Proofs.AverageDuplicates`: the combined table

`average_duplicates` groups the rows it reads by circuit and configuration and writes one
averaged row per group. The proof goes in three steps, one per loop of the source:

* `groupRows_eq`: when every row has both key columns, the reading loop builds
  `Dict.groupBy`, whose entries are the keys in order of first appearance, each with its
  rows in order (`Dict.entries_groupBy`);
* `averagedEntry_eq`: when every metric column converts, `averaged_entry` is the dict of
  the ten columns to `averagedCell`;
* `keys_mapValues_ofList`, `map_get?_mapValues_ofList`: `writerow` writes its cells in field
  order.

`averageDuplicates_parseLogsFile` runs the two stages of `main` one after the other, through
the raw CSV file: after `parse_logs` has written the records of a log, `average_duplicates`
writes, for each circuit and configuration in order of first appearance, the mean of each
metric over the records that have it (`combinedRow`), and the number of records. It needs
that no value is longer than the field limit of `csv` and that `float()` accepts every
metric value other than `''` and `'NA'`; `FloatOps` stands for Python's `float`.
`averageDuplicates_parseLogsFile_table` states the same with the table as `combinedTable`,
the form the next stage reads.

`averageDuplicates_parseLogsFile_groups` is what the function is for: the combined table has
one row per circuit and configuration, and its sample sizes add up to the number of records
(`sum_length_recordGroups`, through `List.dedup` and its counts).

`averageDuplicates_raisesOrWrites` holds on every input: an exception comes before the output
is opened, and the writing never raises, since every `averaged_entry` has the ten field names
as its keys and no other (`keys_averagedEntry`).
-/

set_option autoImplicit false

namespace UpaScripts.LogParsing

open UpaScripts.Python UpaScripts.Python.Csv

variable {F : Type}

/-! ### The reading loop groups the rows -/

/-- One iteration of the reading loop appends the row to the list of its key. -/
theorem addRow_eq (entries : Dict (Option (List Char) × Option (List Char)) (List DictRow))
    {row : DictRow} {key : Option (List Char) × Option (List Char)} (h : rowKey row = .ok key) :
    addRow entries row = .ok (entries.set key ((entries.get? key).getD [] ++ [row])) := by
  unfold addRow
  rw [h]
  show Except.ok _ = _
  split
  · rfl
  · rename_i hkey
    rw [Dict.set_set_self, Dict.get?_set, if_pos rfl,
      show entries.get? key = none from Dict.get?_eq_none_iff.mpr hkey]
    rfl

/-- When every row has both key columns, the reading loop builds the groups of the rows. -/
theorem groupRows_eq {rows : List DictRow} {key : DictRow → Option (List Char) × Option (List Char)}
    (h : ∀ row ∈ rows, rowKey row = .ok (key row)) : groupRows rows = .ok (Dict.groupBy key rows) :=
  foldlM_except_ok (fun entries row hrow => addRow_eq entries (h row hrow)) _

/-! ### `averaged_entry` -/

/-- The value `averaged_entry` ends with under `col`, for a group of `n` rows whose metric
columns convert to `values col`. -/
def averagedCell (ops : FloatOps F) (key : Option (List Char) × Option (List Char)) (n : Nat)
    (values : List Char → List F) (col : List Char) : Cell F :=
  if col ∈ metricColumns then meanCell ops (values col)
  else if col = "sample_size".toList then .int n
  else if col = "configuration".toList then .ofField key.2
  else if col = "circuit_name".toList then .ofField key.1
  else .str []

theorem averagedColumns_nodup : averagedColumns.Nodup := by
  decide

/-- When every metric column converts, `averaged_entry` holds `averagedCell` under each of
its ten columns. -/
theorem averagedEntry_eq (ops : FloatOps F) (key : Option (List Char) × Option (List Char))
    {group : List DictRow} {values : List Char → List F}
    (h : ∀ col ∈ metricColumns, columnValues ops group col = .ok (values col)) :
    averagedEntry ops key group =
      .ok (Dict.ofList (averagedColumns.map fun col =>
        (col, averagedCell ops key group.length values col))) := by
  unfold averagedEntry
  dsimp only
  rw [Dict.set_ofList_map averagedColumns_nodup _ (by decide),
    Dict.set_ofList_map averagedColumns_nodup _ (by decide),
    Dict.set_ofList_map averagedColumns_nodup _ (by decide),
    foldlM_except_ok (fun entry col hcol =>
      show _ = Except.ok (entry.set col (meanCell ops (values col))) by
        simp only [h col hcol]; rfl),
    Dict.foldl_set_ofList_map averagedColumns_nodup (fun col => meanCell ops (values col))
      (by decide)]
  rfl

/-- `writerow(averaged_entry)` writes the cells of the ten columns in field order. -/
theorem keys_mapValues_ofList (ops : FloatOps F) (cell : List Char → Cell F) :
    ((Dict.ofList (averagedColumns.map fun col => (col, cell col))).mapValues
      (Cell.text ops)).keys = averageDuplicatesFieldnames := by
  rw [Dict.keys_mapValues, Dict.keys, Dict.entries_ofList_map averagedColumns_nodup, List.map_map]
  exact List.map_id _

theorem map_get?_mapValues_ofList (ops : FloatOps F) (cell : List Char → Cell F) :
    averageDuplicatesFieldnames.map (fun col =>
      (((Dict.ofList (averagedColumns.map fun col => (col, cell col))).mapValues
        (Cell.text ops)).get? col).getD []) =
      averageDuplicatesFieldnames.map fun col => (cell col).text ops := by
  refine List.map_congr_left fun col hcol => ?_
  have hcol' : col ∈ averagedColumns := hcol
  rw [Dict.get?_mapValues, Dict.get?_ofList_map averagedColumns_nodup, if_pos hcol']
  rfl

/-! ### The rows of the raw table -/

/-- The dict `DictReader` yields for the row of a record in the raw table. -/
def rawRow (r : CircuitRecord) : DictRow :=
  ⟨Dict.ofList (parseLogsFieldnames.zip (r.values.map some)), none⟩

/-- The value the row of a record holds under a column. -/
def recordField (r : CircuitRecord) (col : List Char) : List Char :=
  ((parseLogsFieldnames.zip r.values).lookup col).getD []

theorem nodup_rawRow_keys (r : CircuitRecord) :
    ((parseLogsFieldnames.zip (r.values.map some)).map Prod.fst).Nodup := by
  rw [List.map_fst_zip _ _ (by simp [length_values, parseLogsFieldnames, circuitKeys])]
  decide

theorem rowKey_rawRow (r : CircuitRecord) :
    rowKey (rawRow r) = .ok (some r.circuitName.key.toList, some r.configuration) := by
  simp only [rowKey, getItem, rawRow, Dict.get?_ofList_of_nodup (nodup_rawRow_keys r)]
  rfl

theorem getItem_rawRow {col : List Char} (hcol : col ∈ metricColumns) (r : CircuitRecord) :
    getItem (rawRow r) col = .ok (some (recordField r col)) := by
  simp only [metricColumns, List.map_cons, List.map_nil, List.mem_cons, List.not_mem_nil,
    or_false] at hcol
  rw [getItem, rawRow, Dict.get?_ofList_of_nodup (nodup_rawRow_keys r)]
  rcases hcol with rfl | rfl | rfl | rfl | rfl | rfl | rfl <;> rfl

/-- A value the comprehension keeps, converted; `none` for `''` and `'NA'`. -/
def parseValue (ops : FloatOps F) (v : List Char) : Option F :=
  if v = [] ∨ v = "NA".toList then none else ops.ofStr v

theorem floatValue_some (ops : FloatOps F) {v : List Char}
    (h : v ≠ [] → v ≠ "NA".toList → (ops.ofStr v).isSome) :
    floatValue ops (some v) = .ok (parseValue ops v) := by
  simp only [floatValue, parseValue]
  by_cases hv : v = [] ∨ v = "NA".toList
  · rw [if_pos hv, if_pos hv]
  · obtain ⟨x, hx⟩ := Option.isSome_iff_exists.mp
      (h (fun h' => hv (.inl h')) (fun h' => hv (.inr h')))
    rw [if_neg hv, if_neg hv, hx]

/-- The values of a metric column over the rows of records, when `float()` accepts them. -/
theorem columnValues_rawRows (ops : FloatOps F) {g : List CircuitRecord} {col : List Char}
    (hcol : col ∈ metricColumns)
    (h : ∀ r ∈ g, recordField r col ≠ [] → recordField r col ≠ "NA".toList →
      (ops.ofStr (recordField r col)).isSome) :
    columnValues ops (g.map rawRow) col =
      .ok ((g.map (recordField · col)).filterMap (parseValue ops)) := by
  suffices hm : (g.map rawRow).mapM (fun row => do floatValue ops (← getItem row col)) =
      .ok (g.map fun r => parseValue ops (recordField r col)) by
    rw [columnValues, hm]
    show Except.ok ((g.map fun r => parseValue ops (recordField r col)).filterMap id) = _
    rw [List.filterMap_map, List.filterMap_map]
    rfl
  induction g with
  | nil => rfl
  | cons r g ih =>
    simp only [List.map_cons, List.mapM_cons, getItem_rawRow hcol,
      ih (fun r' hr' => h r' (.tail _ hr'))]
    show (floatValue ops (some (recordField r col)) >>= _) = _
    rw [floatValue_some ops (h r (.head _))]
    rfl

/-! ### The combined table -/

/-- The key `average_duplicates` files a record of `parse_logs` under: its circuit and its
configuration, as written. -/
def recordKey (r : CircuitRecord) : List Char × List Char :=
  (r.circuitName.key.toList, r.configuration)

/-- The records of each key, keys in the order of their first record. -/
def recordGroups (data : List CircuitRecord) :
    List ((List Char × List Char) × List CircuitRecord) :=
  (data.map recordKey).eraseDups.map fun k => (k, data.filter fun r => recordKey r = k)

/-- The keys of `recordGroups`, with the `BEq` of `DecidableEq` that the lemmas on `eraseDups`
use. -/
theorem eraseDups_recordKey (data : List CircuitRecord) :
    @List.eraseDups _ instBEqOfDecidableEq (data.map recordKey) = (data.map recordKey).eraseDups := by
  congr 1
  exact @lawful_beq_subsingleton _ _ _ instLawfulBEq _

/-- Grouping by a key holds each element once: the sizes of the groups add up to the length. -/
theorem sum_length_filter_eraseDups {α κ : Type} [DecidableEq κ] (key : α → κ) (xs : List α) :
    ((xs.map key).eraseDups.map fun k => (xs.filter fun x => key x = k).length).sum =
      xs.length := by
  have hperm : (xs.map key).eraseDups.Perm (xs.map key).dedup :=
    (List.perm_ext_iff_of_nodup (Dict.nodup_eraseDups _) (List.nodup_dedup _)).mpr fun k => by
      rw [Dict.mem_eraseDups, List.mem_dedup]
  have hcount : ∀ k, (xs.filter fun x => key x = k).length = (xs.map key).count k := fun k => by
    rw [List.count_eq_countP, List.countP_map, List.countP_eq_length_filter]
    congr 2
  simp only [hcount]
  rw [(hperm.map _).sum_eq, List.sum_map_count_dedup_eq_length, List.length_map]

/-- The groups hold each record once: their sizes add up to the number of records. -/
theorem sum_length_recordGroups (data : List CircuitRecord) :
    ((recordGroups data).map fun g => g.2.length).sum = data.length := by
  rw [recordGroups, List.map_map, ← eraseDups_recordKey]
  exact sum_length_filter_eraseDups recordKey data

theorem mem_of_mem_recordGroups {data : List CircuitRecord}
    {g : (List Char × List Char) × List CircuitRecord} (hg : g ∈ recordGroups data)
    {r : CircuitRecord} (hr : r ∈ g.2) : r ∈ data := by
  obtain ⟨k, -, rfl⟩ := List.mem_map.mp hg
  exact (List.mem_filter.mp hr).1

/-- The mean of a metric as `average_duplicates` writes it: the values other than `''` and
`'NA'`, converted with `float()`, summed and divided by their number; `''` when there are
none. -/
def meanText (ops : FloatOps F) (values : List (List Char)) : List Char :=
  match (values.filter fun v => v ≠ [] ∧ v ≠ "NA".toList).filterMap ops.ofStr with
  | [] => []
  | xs => ops.repr (ops.div (ops.sum xs) xs.length)

/-- The row `average_duplicates` writes for a key and its records, in field order: the key,
the mean of each metric, and the number of records. -/
def combinedRow (ops : FloatOps F) (key : List Char × List Char) (group : List CircuitRecord) :
    List (List Char) :=
  key.1 :: key.2 :: metrics.map (fun m => meanText ops (group.map (·.get m))) ++
    [str group.length]

theorem text_meanCell_filterMap (ops : FloatOps F) (values : List (List Char)) :
    (meanCell ops (values.filterMap (parseValue ops))).text ops = meanText ops values := by
  have hkept : values.filterMap (parseValue ops) =
      (values.filter fun v => v ≠ [] ∧ v ≠ "NA".toList).filterMap ops.ofStr := by
    rw [List.filterMap_filter]
    congr 1
    funext v
    unfold parseValue
    by_cases h : v = [] ∨ v = "NA".toList
    · rw [if_pos h, if_neg fun h' => h.elim (of_decide_eq_true h').1 (of_decide_eq_true h').2]
    · rw [if_neg h, if_pos (decide_eq_true ⟨fun h' => h (.inl h'), fun h' => h (.inr h')⟩)]
  rw [hkept, meanText]
  generalize (values.filter fun v => v ≠ [] ∧ v ≠ "NA".toList).filterMap ops.ofStr = xs
  cases xs <;> rfl

/-- The `averaged_entry` of a key's group in the raw table. -/
def averagedDict (ops : FloatOps F) (k : List Char × List Char) (g : List CircuitRecord) :
    Dict (List Char) (Cell F) :=
  Dict.ofList (averagedColumns.map fun col => (col, averagedCell ops (some k.1, some k.2)
    g.length (fun col => (g.map (recordField · col)).filterMap (parseValue ops)) col))

theorem averagedEntry_rawRows (ops : FloatOps F) (k : List Char × List Char)
    {g : List CircuitRecord}
    (hfloat : ∀ r ∈ g, ∀ m, r.get m ≠ [] → r.get m ≠ "NA".toList → (ops.ofStr (r.get m)).isSome) :
    averagedEntry ops (some k.1, some k.2) (g.map rawRow) = .ok (averagedDict ops k g) := by
  rw [averagedEntry_eq ops _ fun col hcol => columnValues_rawRows ops hcol fun r hr => ?_,
    List.length_map]
  · rfl
  · simp only [metricColumns, List.map_cons, List.map_nil, List.mem_cons, List.not_mem_nil,
      or_false] at hcol
    rcases hcol with rfl | rfl | rfl | rfl | rfl | rfl | rfl
    exacts [hfloat r hr .numAdviceCells, hfloat r hr .numLookupCells, hfloat r hr .provingTime,
      hfloat r hr .gasCost, hfloat r hr .numAdviceColumns, hfloat r hr .numLookupAdviceColumns,
      hfloat r hr .numFixedColumns]

theorem map_get?_averagedDict (ops : FloatOps F) (k : List Char × List Char)
    (g : List CircuitRecord) :
    averageDuplicatesFieldnames.map (fun col =>
      (((averagedDict ops k g).mapValues (Cell.text ops)).get? col).getD []) =
      combinedRow ops k g := by
  rw [averagedDict, map_get?_mapValues_ofList]
  have hmetric : ∀ col ∈ metricColumns,
      (averagedCell ops (some k.1, some k.2) g.length
        (fun col => (g.map (recordField · col)).filterMap (parseValue ops)) col).text ops =
        meanText ops (g.map (recordField · col)) := fun col hcol => by
    rw [averagedCell, if_pos hcol, text_meanCell_filterMap]
  simp only [averageDuplicatesFieldnames, List.map_cons, List.map_nil]
  rw [hmetric "num_advice_cells".toList (by decide), hmetric "num_lookup_cells".toList (by decide),
    hmetric "num_advice_columns".toList (by decide),
    hmetric "num_lookup_advice_columns".toList (by decide),
    hmetric "num_fixed_columns".toList (by decide), hmetric "proving_time".toList (by decide),
    hmetric "gas_cost".toList (by decide)]
  rfl

/-! ### The groups of the raw table -/

theorem dictRows_rawRow (data : List CircuitRecord) :
    dictRows (parseLogsFieldnames :: data.map CircuitRecord.values) = data.map rawRow :=
  dictRows_records data

/-- A record key as a key of `entries`. -/
def liftKey (k : List Char × List Char) : Option (List Char) × Option (List Char) :=
  (some k.1, some k.2)

theorem liftKey_injective : Function.Injective liftKey := by
  rintro ⟨a, b⟩ ⟨c, d⟩ h
  simp only [liftKey, Prod.mk.injEq, Option.some.injEq] at h
  rw [h.1, h.2]

/-- The key of a row that has both key columns. -/
def keyOf (row : DictRow) : Option (List Char) × Option (List Char) :=
  match rowKey row with
  | .ok k => k
  | .error _ => (none, none)

theorem keyOf_rawRow (r : CircuitRecord) : keyOf (rawRow r) = liftKey (recordKey r) := by
  simp only [keyOf, rowKey_rawRow]
  rfl

/-- The groups of the rows of records are the rows of the groups of the records. -/
theorem entries_groupBy_rawRows (data : List CircuitRecord) :
    (Dict.groupBy keyOf (data.map rawRow)).entries =
      (recordGroups data).map fun g => (liftKey g.1, g.2.map rawRow) := by
  have hkeys : (data.map rawRow).map keyOf = (data.map recordKey).map liftKey := by
    rw [List.map_map, List.map_map]
    exact List.map_congr_left fun r _ => by
      simp only [Function.comp_apply]
      exact keyOf_rawRow r
  rw [Dict.entries_groupBy, hkeys, Dict.eraseDups_map liftKey_injective, recordGroups,
    List.map_map, List.map_map]
  congr 1
  swap
  · -- the two `eraseDups` differ only in their lawful `BEq` instances
    congr 1
    exact @lawful_beq_subsingleton _ _ _ instLawfulBEq _
  funext k
  have hp : ((fun row => decide (keyOf row = liftKey k)) ∘ rawRow) =
      fun r => decide (recordKey r = k) :=
    funext fun r => by simp only [Function.comp_apply, keyOf_rawRow, liftKey_injective.eq_iff]
  rw [Function.comp_apply, Function.comp_apply, List.filter_map, hp]

/-- The table `average_duplicates` writes for the records of a log: its header, then the row
of each circuit and configuration in the order of its first record. -/
def combinedTable (ops : FloatOps F) (data : List CircuitRecord) : List (List (List Char)) :=
  averageDuplicatesFieldnames :: (recordGroups data).map fun g => combinedRow ops g.1 g.2

/-- The first two stages of `main` write `combinedTable`. -/
theorem averageDuplicates_parseLogsFile_table (ops : FloatOps F) (w : World)
    (logFile rawCsv combinedCsv text : List Char) (hinput : w.files logFile = some text)
    {data : List CircuitRecord} (hdata : parseLogs (textLines text) = .ok data)
    (hlimit : ∀ r ∈ data, ∀ v ∈ r.values, v.length ≤ fieldLimit)
    (hfloat : ∀ r ∈ data, ∀ m, r.get m ≠ [] → r.get m ≠ "NA".toList →
      (ops.ofStr (r.get m)).isSome) :
    averageDuplicates ops (w.run (parseLogsFile w logFile rawCsv).1) rawCsv combinedCsv =
      ([.write combinedCsv ((combinedTable ops data).flatMap writeRow)], none) := by
  rw [combinedTable, List.flatMap_cons, List.flatMap_map]
  rw [parseLogsFile_ok hinput hdata]
  unfold averageDuplicates World.read
  rw [show (w.run [.write rawCsv (writeRow parseLogsFieldnames ++
      data.flatMap fun r => writeRow r.values)]).files rawCsv =
    some (writeRow parseLogsFieldnames ++ data.flatMap fun r => writeRow r.values) by
      simp [World.run, World.apply]]
  dsimp only
  rw [readText_recordsTable hdata hlimit, dictRows_rawRow]
  dsimp only
  rw [groupRows_eq fun row hrow => show rowKey row = .ok (keyOf row) by
    obtain ⟨r, -, rfl⟩ := List.mem_map.mp hrow
    rw [keyOf, rowKey_rawRow]]
  dsimp only
  rw [entries_groupBy_rawRows, mapM_map_except_ok fun g hg => averagedEntry_rawRows ops g.1
    fun r hr => hfloat r (mem_of_mem_recordGroups hg hr)]
  dsimp only
  rw [writeToCsv, List.map_map, writeTable_of_keys fun row hrow k hk => by
    obtain ⟨g, -, rfl⟩ := List.mem_map.mp hrow
    rwa [Function.comp_apply, averagedDict, keys_mapValues_ofList] at hk]
  simp only [List.flatMap_map, Function.comp_apply, map_get?_averagedDict, Option.map_none']

/-- `parse_logs` and then `average_duplicates`, the first two stages of `main`: the combined
table holds, for each circuit and configuration in the order of its first record, the mean
of each metric over the records that have it and the number of records, when no value of a
record is longer than the field limit of `csv` and `float()` accepts every metric value other
than `''` and `'NA'`. -/
theorem averageDuplicates_parseLogsFile (ops : FloatOps F) (w : World)
    (logFile rawCsv combinedCsv text : List Char) (hinput : w.files logFile = some text)
    {data : List CircuitRecord} (hdata : parseLogs (textLines text) = .ok data)
    (hlimit : ∀ r ∈ data, ∀ v ∈ r.values, v.length ≤ fieldLimit)
    (hfloat : ∀ r ∈ data, ∀ m, r.get m ≠ [] → r.get m ≠ "NA".toList →
      (ops.ofStr (r.get m)).isSome) :
    averageDuplicates ops (w.run (parseLogsFile w logFile rawCsv).1) rawCsv combinedCsv =
      ([.write combinedCsv (writeRow averageDuplicatesFieldnames ++
        (recordGroups data).flatMap fun g => writeRow (combinedRow ops g.1 g.2))], none) :=
  (averageDuplicates_parseLogsFile_table ops w logFile rawCsv combinedCsv text hinput hdata hlimit
    hfloat).trans (by rw [combinedTable, List.flatMap_cons, List.flatMap_map])

/-- `float` on whole numbers of seconds: enough for a log whose times are whole. -/
def wholeSeconds : FloatOps Nat :=
  ⟨fun s => if s.all isDecimal then some (int s) else none, List.foldl (· + ·) 0, (· / ·), str⟩

/-- Two runs of one circuit and configuration. -/
def twoRunsLog : World :=
  ⟨fun path => if path = "bench.log".toList then
    some "Begin UBV with config a\nTime: 2s\nBegin UBV with config a\nTime: 4s\n".toList
    else none, []⟩

/-- The records `parse_logs` reads from `twoRunsLog`. -/
def twoRunsRecords : List CircuitRecord :=
  [⟨.ubv, "a".toList, [], [], [], [], [], "2".toList, []⟩,
    ⟨.ubv, "a".toList, [], [], [], [], [], "4".toList, []⟩]

theorem averageDuplicates_parseLogsFile_two_runs :
    averageDuplicates wholeSeconds (twoRunsLog.run (parseLogsFile twoRunsLog "bench.log".toList
      "raw.csv".toList).1) "raw.csv".toList "combined.csv".toList =
      ([.write "combined.csv".toList (writeRow averageDuplicatesFieldnames ++
        writeRow (["UBV", "a", "", "", "", "", "", "3", "", "2"].map String.toList))], none) :=
  (@averageDuplicates_parseLogsFile Nat wholeSeconds twoRunsLog "bench.log".toList
    "raw.csv".toList "combined.csv".toList _ rfl [⟨.ubv, "a".toList, [], [], [], [], [],
      "2".toList, []⟩, ⟨.ubv, "a".toList, [], [], [], [], [], "4".toList, []⟩] rfl (by decide)
    (fun r hr m => by
      simp only [List.mem_cons, List.not_mem_nil, or_false] at hr
      rcases hr with rfl | rfl <;> cases m <;> decide)).trans rfl

/-! ### One row per circuit and configuration -/

theorem take_two_combinedRow (ops : FloatOps F) (key : List Char × List Char)
    (group : List CircuitRecord) : (combinedRow ops key group).take 2 = [key.1, key.2] := rfl

theorem getLastD_combinedRow (ops : FloatOps F) (key : List Char × List Char)
    (group : List CircuitRecord) : (combinedRow ops key group).getLastD [] = str group.length := by
  simp [combinedRow, metrics, List.getLastD_eq_getLast?]

/-- What `average_duplicates` is for: run on the raw table of a log, as `main` runs it, it
writes one row per circuit and configuration. The rows' first two cells (`circuit_name`,
`configuration`) are distinct pairs, every record's pair has its row, and the last cells
(`sample_size`) add up to the number of records, so no run is dropped or counted twice. -/
theorem averageDuplicates_parseLogsFile_groups (ops : FloatOps F) (w : World)
    (logFile rawCsv combinedCsv text : List Char) (hinput : w.files logFile = some text)
    {data : List CircuitRecord} (hdata : parseLogs (textLines text) = .ok data)
    (hlimit : ∀ r ∈ data, ∀ v ∈ r.values, v.length ≤ fieldLimit)
    (hfloat : ∀ r ∈ data, ∀ m, r.get m ≠ [] → r.get m ≠ "NA".toList →
      (ops.ofStr (r.get m)).isSome) :
    ∃ rows, averageDuplicates ops (w.run (parseLogsFile w logFile rawCsv).1) rawCsv combinedCsv =
        ([.write combinedCsv ((averageDuplicatesFieldnames :: rows).flatMap writeRow)], none) ∧
      (rows.map (·.take 2)).Nodup ∧
      (∀ r ∈ data, [r.circuitName.key.toList, r.configuration] ∈ rows.map (·.take 2)) ∧
      (rows.map fun row => int (row.getLastD [])).sum = data.length := by
  refine ⟨_, averageDuplicates_parseLogsFile_table ops w logFile rawCsv combinedCsv text hinput
    hdata hlimit hfloat, ?_, fun r hr => ?_, ?_⟩
  · -- distinct keys
    simp only [List.map_map, Function.comp_def, take_two_combinedRow, recordGroups,
      ← eraseDups_recordKey]
    refine (Dict.nodup_eraseDups _).map fun k k' h => ?_
    simp only [List.cons.injEq, and_true] at h
    exact Prod.ext h.1 h.2
  · -- every record's key
    simp only [List.map_map, Function.comp_def, take_two_combinedRow, recordGroups,
      ← eraseDups_recordKey]
    exact List.mem_map.mpr
      ⟨recordKey r, (Dict.mem_eraseDups _ _).mpr (List.mem_map_of_mem _ hr), rfl⟩
  · -- the sample sizes
    simp only [List.map_map, Function.comp_def, getLastD_combinedRow, int_str]
    exact sum_length_recordGroups data

theorem averageDuplicates_parseLogsFile_groups_two_runs :
    ∃ rows, averageDuplicates wholeSeconds (twoRunsLog.run (parseLogsFile twoRunsLog
        "bench.log".toList "raw.csv".toList).1) "raw.csv".toList "combined.csv".toList =
        ([.write "combined.csv".toList ((averageDuplicatesFieldnames :: rows).flatMap writeRow)],
          none) ∧
      (rows.map (·.take 2)).Nodup ∧
      (∀ r ∈ twoRunsRecords, [r.circuitName.key.toList, r.configuration] ∈ rows.map (·.take 2)) ∧
      (rows.map fun row => int (row.getLastD [])).sum = twoRunsRecords.length :=
  @averageDuplicates_parseLogsFile_groups Nat wholeSeconds twoRunsLog "bench.log".toList
    "raw.csv".toList "combined.csv".toList _ rfl twoRunsRecords rfl (by decide)
    (fun r hr m => by
      simp only [twoRunsRecords, List.mem_cons, List.not_mem_nil, or_false] at hr
      rcases hr with rfl | rfl <;> cases m <;> decide)

/-! ### No half-written table -/

/-- Whatever the group, `averaged_entry` has no key but the field names. -/
theorem keys_averagedEntry (ops : FloatOps F) (key : Option (List Char) × Option (List Char))
    (group : List DictRow) {d : Dict (List Char) (Cell F)}
    (h : averagedEntry ops key group = .ok d) : ∀ k ∈ d.keys, k ∈ averageDuplicatesFieldnames := by
  have hmetric : ∀ col ∈ metricColumns, col ∈ averageDuplicatesFieldnames := by decide
  refine foldlM_except_invariant (fun d : Dict (List Char) (Cell F) =>
      ∀ k ∈ d.keys, k ∈ averageDuplicatesFieldnames) (fun entry col hcol entry' hentry hstep => ?_)
    (fun k hk => ?_) h
  · -- one column averaged: its key is a metric column
    cases hv : columnValues ops group col with
    | error e => simp only [hv] at hstep; cases hstep
    | ok values =>
      simp only [hv] at hstep
      cases hstep
      intro k hk
      rcases Dict.mem_keys_set hk with hk | rfl
      · exact hentry k hk
      · exact hmetric k hcol
  · -- the dict of `''`s, with the key and `sample_size` set
    rcases Dict.mem_keys_set hk with hk | rfl
    · rcases Dict.mem_keys_set hk with hk | rfl
      · rcases Dict.mem_keys_set hk with hk | rfl
        · simpa [List.map_map] using Dict.mem_keys_ofList hk
        · decide
      · decide
    · decide

/-- `average_duplicates` never leaves a half-written table: every exception it raises comes
before it opens the output, and once it opens it, it writes the whole table and returns. -/
theorem averageDuplicates_raisesOrWrites (ops : FloatOps F) (w : World)
    (inputCsv outputCsv : List Char) :
    RaisesOrWrites outputCsv (averageDuplicates ops w inputCsv outputCsv) := by
  unfold averageDuplicates
  split
  · exact .inl ⟨rfl, Option.some_ne_none _⟩
  · dsimp only
    split
    · exact .inl ⟨rfl, Option.some_ne_none _⟩
    · exact .inl ⟨rfl, Option.some_ne_none _⟩
    · split
      · exact .inl ⟨rfl, Option.some_ne_none _⟩
      · rename_i averagedData hdata
        rw [writeToCsv, writeTable_of_keys fun row hrow k hk => ?_]
        · exact .inr ⟨_, rfl⟩
        · obtain ⟨d, hd, rfl⟩ := List.mem_map.mp hrow
          obtain ⟨group, -, hgroup⟩ := mem_of_mapM_except_ok hdata hd
          rw [Dict.keys_mapValues] at hk
          exact keys_averagedEntry ops group.1 group.2 hgroup k hk

end UpaScripts.LogParsing
