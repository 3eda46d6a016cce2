import UpaScripts.LogParsing.WriteToCsv
import UpaScripts.Proofs.ParseLogs

/-!
# `UpaScripts.Proofs.ParseLogsFile`: the CSV file `parse_logs` writes

`parseLogsFile_eq` is `parse_logs(input_file, output_file)` in closed form: a missing log
raises `FileNotFoundError` and the loop's `TypeError` or `ValueError` is raised as it is,
both before the output is opened; otherwise the output holds the header and one CSV row per record, the
record's values in field order, and `writerow` never raises: the keys of every row are the
field names (`keys_toDict`).

`parseLogsFile_readBack` is the file seen by the next stage: `average_duplicates` opens it
with `csv.DictReader`, which reads the header and then each row as the dict of the field
names to the record's values, provided no value is longer than the field limit of `csv`.
The round trip needs values without line breaks, which every run of the loop keeps: the
invariant `ParseState.NoNewlines` holds of the state after each line
(`ParseState.NoNewlines.parseStrippedLine`), since a value is part of a stripped line or,
for a Keccak configuration, is made of such parts and of the digits of a product.
-/

set_option autoImplicit false

namespace UpaScripts.LogParsing

open UpaScripts.Python UpaScripts.Python.Csv

/-! ### The row of a record -/

theorem length_values (r : CircuitRecord) : r.values.length = circuitKeys.length := rfl

theorem circuitKeys_nodup : circuitKeys.Nodup := by
  decide

theorem entries_toDict (r : CircuitRecord) : r.toDict.entries = circuitKeys.zip r.values :=
  Dict.entries_ofList (by rw [List.map_fst_zip _ _ (length_values r).ge]; exact circuitKeys_nodup)

/-- The keys of `current_circuit` are the field names, so `writerow` does not raise. -/
theorem keys_toDict (r : CircuitRecord) : r.toDict.keys = parseLogsFieldnames := by
  rw [Dict.keys, entries_toDict, List.map_fst_zip _ _ (length_values r).ge]
  rfl

/-- `writerow(current_circuit)` hands the record's values to the writer in field order. -/
theorem map_get?_toDict (r : CircuitRecord) :
    parseLogsFieldnames.map (fun key => (r.toDict.get? key).getD []) = r.values := by
  simp only [Dict.get?, entries_toDict]
  exact Dict.map_lookup_zip circuitKeys_nodup (length_values r) []

/-! ### No value holds a line break -/

/-- No value of the record holds a line break. -/
def CircuitRecord.NoNewlines (r : CircuitRecord) : Prop :=
  NoNewline r.configuration ∧ ∀ m, NoNewline (r.get m)

/-- No record of the loop's state, open or written, has a value with a line break. -/
def ParseState.NoNewlines (st : ParseState) : Prop :=
  (∀ r ∈ st.currentCircuit, r.NoNewlines) ∧ ∀ r ∈ st.data, r.NoNewlines

theorem CircuitRecord.NoNewlines.values {r : CircuitRecord} (h : r.NoNewlines) :
    ∀ v ∈ r.values, NoNewline v := by
  simp only [CircuitRecord.values, List.mem_cons, List.mem_map]
  rintro v (rfl | rfl | ⟨m, -, rfl⟩)
  · cases r.circuitName <;> decide
  · exact h.1
  · exact h.2 m

theorem CircuitRecord.NoNewlines.set {r : CircuitRecord} (h : r.NoNewlines) (m : Metric)
    {v : List Char} (hv : NoNewline v) : (r.set m v).NoNewlines := by
  refine ⟨by simpa using h.1, fun m' => ?_⟩
  rw [CircuitRecord.get_set]
  split
  exacts [hv, h.2 m']

/-- The Keccak rewrite adds only `total_batch_size: ` and digits. -/
theorem noNewline_rowConfiguration (name : CircuitName) {config : List Char}
    (h : NoNewline config) : NoNewline (rowConfiguration name config) := by
  unfold rowConfiguration totalBatchSizeConfig
  split
  · split
    · have hrepl : ∀ n, NoNewline ("total_batch_size: ".toList ++ str n) := fun n =>
        (noNewline_append _ _).mpr ⟨by decide, noNewline_str n⟩
      exact ⟨fun hr => (sub.mem_go _ hr).elim h.1 (hrepl _).1,
        fun hn => (sub.mem_go _ hn).elim h.2 (hrepl _).2⟩
    · exact h
  · exact h

/-- The configuration of a `Begin` line is part of the line. -/
theorem mem_of_beginOf {line config : List Char} {name : CircuitName}
    (h : beginOf line = some (name, config)) {c : Char} (hc : c ∈ config) : c ∈ line := by
  obtain ⟨n, -, hn⟩ := List.exists_of_findSome?_eq_some h
  obtain ⟨config', hconfig, heq⟩ := Option.map_eq_some'.mp hn
  cases heq
  exact Pattern.mem_of_mem_matchAt hconfig hc

section Step

variable {line : List Char} (hline : NoNewline line)
include hline

/-- A `Begin` line opens a record whose configuration is part of the line. -/
theorem CircuitRecord.NoNewlines.startCircuits {current current' : Option CircuitRecord}
    (h : ∀ r ∈ current, r.NoNewlines) (hs : startCircuits line current = .ok current') :
    ∀ r ∈ current', r.NoNewlines := by
  rw [startCircuits_eq] at hs
  split at hs
  · rename_i name config hb
    split at hs
    · cases hs
    · cases hs
      rintro r ⟨⟩
      refine ⟨noNewline_rowConfiguration name (hline.of_subset fun _ => mem_of_beginOf hb),
        fun m => ?_⟩
      cases m <;> exact ⟨List.not_mem_nil _, List.not_mem_nil _⟩
  · cases hs
    exact h

theorem CircuitRecord.NoNewlines.recordMetric {r : CircuitRecord} (h : r.NoNewlines)
    (m : Metric) : (recordMetric line r m).NoNewlines := by
  unfold LogParsing.recordMetric
  split
  exacts [h.set m (hline.search ‹_›), h]

theorem CircuitRecord.NoNewlines.recordCounts {r : CircuitRecord} (h : r.NoNewlines) :
    (recordCounts line r).NoNewlines := by
  unfold LogParsing.recordCounts
  simp only [List.foldl]
  exact ((((h.recordMetric hline _).recordMetric hline _).recordMetric hline _).recordMetric
    hline _).recordMetric hline _

theorem ParseState.NoNewlines.closeOnProvingTime {r : CircuitRecord} {data : List CircuitRecord}
    (hr : r.NoNewlines) (hdata : ∀ r ∈ data, r.NoNewlines) :
    (closeOnProvingTime line r data).NoNewlines := by
  unfold LogParsing.closeOnProvingTime
  split
  · have hr' := hr.set .provingTime (hline.search ‹_›)
    dsimp only
    split
    · exact ⟨by simp, by simpa [or_imp, forall_and] using ⟨hdata, hr'⟩⟩
    · exact ⟨by simpa using hr', hdata⟩
  · exact ⟨by simpa using hr, hdata⟩

theorem ParseState.NoNewlines.closeOnGasCost {st st' : ParseState} (hst : st.NoNewlines)
    (h : closeOnGasCost line st = .ok st') : st'.NoNewlines := by
  unfold LogParsing.closeOnGasCost at h
  split at h
  · split at h
    · cases h
    · rename_i r hcur
      have hr' := (hst.1 r hcur).set .gasCost (hline.search ‹_›)
      dsimp only at h
      split at h <;> cases h
      · exact ⟨by simp, by simpa [or_imp, forall_and] using ⟨hst.2, hr'⟩⟩
      · exact ⟨by simpa using hr', hst.2⟩
  · cases h
    exact hst

/-- One iteration of the loop keeps the invariant. -/
theorem ParseState.NoNewlines.parseStrippedLine {st st' : ParseState} (hst : st.NoNewlines)
    (h : parseStrippedLine st line = .ok st') : st'.NoNewlines := by
  unfold LogParsing.parseStrippedLine at h
  rcases hstart : LogParsing.startCircuits line st.currentCircuit with e | _ | r <;>
    rw [hstart] at h
  · cases h
  · cases h
    exact ⟨by simp, hst.2⟩
  · have hr : r.NoNewlines := CircuitRecord.NoNewlines.startCircuits hline hst.1 hstart r rfl
    exact (ParseState.NoNewlines.closeOnProvingTime hline (hr.recordCounts hline)
      hst.2).closeOnGasCost hline h

end Step

/-- Every run of the loop keeps the invariant, on lines without line breaks once stripped. -/
theorem ParseState.NoNewlines.foldlM_parseLine {lines : List (List Char)}
    (hlines : ∀ line ∈ lines, NoNewline (strip line)) {st st' : ParseState}
    (hst : st.NoNewlines) (h : lines.foldlM parseLine st = .ok st') : st'.NoNewlines := by
  induction lines generalizing st with
  | nil =>
    cases h
    exact hst
  | cons line lines ih =>
    rw [List.foldlM_cons] at h
    cases hstep : parseLine st line with
    | error e => rw [hstep] at h; cases h
    | ok st₁ =>
      rw [hstep] at h
      exact ih (fun l hl => hlines l (.tail _ hl))
        (hst.parseStrippedLine (hlines line (.head _)) hstep) h

/-- The rows of a log read from a file have no value with a line break. -/
theorem noNewlines_of_parseLogs {text : List Char} {data : List CircuitRecord}
    (h : parseLogs (textLines text) = .ok data) : ∀ r ∈ data, r.NoNewlines := by
  unfold parseLogs at h
  cases hrun : (textLines text).foldlM parseLine ⟨none, []⟩ with
  | error e => rw [hrun] at h; cases h
  | ok st =>
    rw [hrun] at h
    cases h
    exact (ParseState.NoNewlines.foldlM_parseLine
      (fun _ hl => noNewline_strip_of_mem_textLines hl) ⟨by simp, by simp⟩ hrun).2

/-! ### `parse_logs` on files -/

/-- `write_to_csv` on the records of `parse_logs`: the header, then each record's values in
field order; `writerow` never raises, since the keys of every row are the field names. -/
theorem writeToCsv_records (data : List CircuitRecord) (outputFile : List Char) :
    writeToCsv (data.map CircuitRecord.toDict) outputFile parseLogsFieldnames =
      ([.write outputFile (writeRow parseLogsFieldnames ++
        data.flatMap fun r => writeRow r.values)], none) := by
  have hkeys : ∀ row ∈ data.map CircuitRecord.toDict, ∀ k ∈ row.keys,
      k ∈ parseLogsFieldnames := by
    simp only [List.mem_map]
    rintro _ ⟨r, -, rfl⟩ k hk
    rwa [keys_toDict] at hk
  simp only [writeToCsv, writeTable_of_keys hkeys, List.flatMap_map, map_get?_toDict]

/-- `parse_logs(input_file, output_file)`: a missing log raises `FileNotFoundError`, and
the loop's `TypeError` or `ValueError` propagates, both before the output is opened;
otherwise the output holds the header and each record's values in field order, and the call
returns. -/
theorem parseLogsFile_eq (w : World) (inputFile outputFile : List Char) :
    parseLogsFile w inputFile outputFile =
      match w.files inputFile with
      | none => ([], some (.osError (.fileNotFoundError inputFile)))
      | some text =>
        match parseLogs (textLines text) with
        | .error e => ([], some (.parseError e))
        | .ok data =>
          ([.write outputFile (writeRow parseLogsFieldnames ++
            data.flatMap fun r => writeRow r.values)], none) := by
  unfold parseLogsFile World.read
  cases w.files inputFile with
  | none => rfl
  | some text =>
    dsimp only
    cases parseLogs (textLines text) with
    | error e => rfl
    | ok data => simp only [writeToCsv_records, Option.map_none']

/-- A call on a log that exists and parses writes the table of its records. -/
theorem parseLogsFile_ok {w : World} {inputFile text : List Char}
    (hinput : w.files inputFile = some text) {data : List CircuitRecord}
    (hdata : parseLogs (textLines text) = .ok data) (outputFile : List Char) :
    parseLogsFile w inputFile outputFile =
      ([.write outputFile (writeRow parseLogsFieldnames ++
        data.flatMap fun r => writeRow r.values)], none) := by
  unfold parseLogsFile World.read
  rw [hinput]
  dsimp only
  rw [hdata]
  simp only [writeToCsv_records, Option.map_none']

/-- The table of the records `parse_logs` returns, read back with `csv.reader`: every field
is `Plain`, so the rows come back as written. -/
theorem readText_recordsTable {text : List Char} {data : List CircuitRecord}
    (hdata : parseLogs (textLines text) = .ok data)
    (hlimit : ∀ r ∈ data, ∀ v ∈ r.values, v.length ≤ fieldLimit) :
    readText (writeRow parseLogsFieldnames ++ data.flatMap fun r => writeRow r.values) =
      (parseLogsFieldnames :: data.map CircuitRecord.values, none) := by
  have hplain : ∀ row ∈ parseLogsFieldnames :: data.map CircuitRecord.values, ∀ f ∈ row,
      Plain f := by
    simp only [List.mem_cons, List.mem_map]
    rintro row (rfl | ⟨r, hr, rfl⟩) f hf
    · revert f; decide
    · have := (noNewlines_of_parseLogs hdata r hr).values f hf
      exact ⟨this.1, this.2, hlimit r hr f hf⟩
  have hread := readText_flatMap_writeRow _ hplain
  rwa [List.flatMap_cons, List.flatMap_map] at hread

/-- `DictReader` on the rows of records: one dict for each, the field names to its values. -/
theorem dictRows_records (data : List CircuitRecord) :
    dictRows (parseLogsFieldnames :: data.map CircuitRecord.values) =
      data.map fun r => ⟨Dict.ofList (parseLogsFieldnames.zip (r.values.map some)), none⟩ := by
  rw [dictRows_cons fun row hrow => by obtain ⟨r, -, rfl⟩ := List.mem_map.mp hrow; simp [CircuitRecord.values],
    List.map_map]
  exact List.map_congr_left fun r _ => dictRow_of_length (length_values r)

/-- `average_duplicates` reads back what `parse_logs` wrote: the header, then each
record's values under the field names, when no value is longer than the field limit. -/
theorem parseLogsFile_readBack (w : World) (inputFile outputFile text : List Char)
    (hinput : w.files inputFile = some text) {data : List CircuitRecord}
    (hdata : parseLogs (textLines text) = .ok data)
    (hlimit : ∀ r ∈ data, ∀ v ∈ r.values, v.length ≤ fieldLimit) :
    (parseLogsFile w inputFile outputFile).2 = none ∧
      ∃ table, (w.run (parseLogsFile w inputFile outputFile).1).files outputFile = some table ∧
        readText table = (parseLogsFieldnames :: data.map CircuitRecord.values, none) ∧
        (dictRows (readText table).1).map (fun row => (row.fields.entries, row.rest)) =
          data.map fun r => (parseLogsFieldnames.zip (r.values.map some), none) := by
  rw [parseLogsFile_ok hinput hdata]
  refine ⟨rfl, _, by simp [World.run, World.apply], readText_recordsTable hdata hlimit, ?_⟩
  rw [readText_recordsTable hdata hlimit, dictRows_records, List.map_map]
  refine List.map_congr_left fun r _ => ?_
  have hzip : (parseLogsFieldnames.zip (r.values.map some)).map Prod.fst = parseLogsFieldnames :=
    List.map_fst_zip _ _ (by simp [length_values, parseLogsFieldnames, circuitKeys])
  simp only [Function.comp_apply, Dict.entries_ofList (hzip ▸ (by decide : parseLogsFieldnames.Nodup))]

/-- A log with one UBV run, written to `raw.csv` and read back. -/
def benchLog : World :=
  ⟨fun path => if path = "bench.log".toList then
    some "Begin UBV with config a\nTime: 1.5s\n".toList else none, []⟩

theorem parseLogsFile_readBack_bench_log :
    (parseLogsFile benchLog "bench.log".toList "raw.csv".toList).2 = none ∧
      ∃ table, (benchLog.run (parseLogsFile benchLog "bench.log".toList
          "raw.csv".toList).1).files "raw.csv".toList = some table ∧
        readText table = (parseLogsFieldnames :: [["UBV".toList, "a".toList, [], [], [], [], [],
          "1.5".toList, []]], none) ∧
        (dictRows (readText table).1).map (fun row => (row.fields.entries, row.rest)) =
          [(parseLogsFieldnames.zip (["UBV".toList, "a".toList, [], [], [], [], [],
            "1.5".toList, []].map some), none)] :=
  @parseLogsFile_readBack benchLog _ _ "Begin UBV with config a\nTime: 1.5s\n".toList
    (by decide) [⟨.ubv, "a".toList, [], [], [], [], [], "1.5".toList, []⟩] rfl (by decide)

end UpaScripts.LogParsing
