import Mathlib.Data.List.Chain
import UpaScripts.LogParsing.Main
import UpaScripts.Proofs.AverageDuplicates
import UpaScripts.Proofs.ProcessedTable

/-!
# `UpaScripts.Proofs.Main`: the files `main` reads and writes

Each stage of `main` opens one file for reading first and, unless it raises before, writes
one file once. `Stage` packs a call with those facts, and the theorems about `runCalls`
follow from them alone:

* `runCalls_congr`: along a chain of stages, each reading the file the one before it
  wrote, the run sees the files only through the first stage's input;
* `written_runCalls`: the run writes no file but the stages' outputs.

`StageShape` is what a stage of `main` can do to the files, and `parseLogsFile_shape`,
`averageDuplicates_shape`, `compileOuterProvingTimes_shape` and `sortCsvByColumns_shape`
show that each stage has it. `mainStages` are the four calls of `main` as `Stage`s. Hence:

* `upaLogParserMain_congr`: what `main` does depends on the files only through the log, so
  files an earlier run left under the derived names change nothing;
* `upaLogParserMain_files`: every file other than the three derived ones keeps its text.

`upaLogParserMain_processed` runs the four stages on a log, one theorem per stage chained
through the files they write (`runCalls_cons_ok`): the processed file holds the joined rows of
the outer runs of the combined table, sorted on their seven numbers.
-/

set_option autoImplicit false

namespace UpaScripts.LogParsing

open UpaScripts.Python UpaScripts.Python.Csv

/-- A call as `main` makes it: it sees the files only through its input, writes no file but
its output, and has written its output whenever it raises nothing. -/
structure Stage (ε : Type) where
  call : World → List Effect × Option ε
  input : List Char
  output : List Char
  /-- The call reads no file but its input. -/
  call_congr : ∀ w w' : World, w.files input = w'.files input → call w = call w'
  /-- It writes no file but its output. -/
  written_call : ∀ w, ∀ p ∈ World.written (call w).1, p = output
  /-- It raises nothing only after it has written its output. -/
  output_written : ∀ w, (call w).2 = none → output ∈ World.written (call w).1

/-! ### Runs of stages -/

section Runs

variable {ε : Type}

/-- Along a chain of stages, each reading the file the one before it wrote, the run sees the
files only through the first stage's input. -/
theorem runCalls_congr {stages : List (Stage ε)}
    (hchain : stages.Chain' fun s t => t.input = s.output) {w w' : World}
    (h : ∀ s ∈ stages.head?, w.files s.input = w'.files s.input) :
    runCalls w (stages.map Stage.call) = runCalls w' (stages.map Stage.call) := by
  induction stages generalizing w w' with
  | nil => rfl
  | cons s rest ih =>
    obtain ⟨hnext, hrest⟩ := List.chain'_cons'.mp hchain
    simp only [List.map_cons, runCalls, s.call_congr w w' (h s rfl)]
    rcases hc : s.call w' with ⟨es, _ | e⟩
    · have hout : s.output ∈ World.written es := by
        simpa [hc] using s.output_written w' (by rw [hc])
      dsimp only
      rw [ih hrest fun t ht => (hnext t ht).symm ▸ World.files_run_of_mem_written _ _ hout]
    · rfl

/-- A call that raises nothing, then the rest of the calls on the world it left. -/
theorem runCalls_cons_ok {w : World} {call : World → List Effect × Option ε}
    {effects : List Effect} (h : call w = (effects, none))
    (calls : List (World → List Effect × Option ε)) :
    runCalls w (call :: calls) =
      (effects ++ (runCalls (w.run effects) calls).1, (runCalls (w.run effects) calls).2) := by
  rw [runCalls, h]

/-- A run of stages writes no file but their outputs. -/
theorem written_runCalls (stages : List (Stage ε)) (w : World) :
    ∀ p ∈ World.written (runCalls w (stages.map Stage.call)).1, ∃ s ∈ stages, p = s.output := by
  induction stages generalizing w with
  | nil => simp [runCalls, World.written]
  | cons s rest ih =>
    intro p hp
    simp only [List.map_cons, runCalls] at hp
    have hs : p ∈ World.written (s.call w).1 → ∃ t ∈ s :: rest, p = t.output :=
      fun hp => ⟨s, List.mem_cons_self _ _, s.written_call w p hp⟩
    rcases hc : s.call w with ⟨es, _ | e⟩ <;> rw [hc] at hp hs
    · rcases List.mem_append.mp (World.written_append _ _ ▸ hp) with hp | hp
      · exact hs hp
      · obtain ⟨t, ht, rfl⟩ := ih _ p hp
        exact ⟨t, List.mem_cons_of_mem _ ht, rfl⟩
    · exact hs hp

end Runs

/-! ### The stages of `main` -/

/-- What a stage of `main` does to the files: nothing, when it raises before it opens its
output, or one write of its output. -/
def StageShape (output : List Char) (r : List Effect × Option ScriptError) : Prop :=
  (r.1 = [] ∧ r.2 ≠ none) ∨ ∃ text, r.1 = [.write output text]

/-- A call of that shape that sees the files only through its input is a stage. -/
def Stage.ofShape (call : World → List Effect × Option ScriptError) (input output : List Char)
    (hcongr : ∀ w w' : World, w.files input = w'.files input → call w = call w')
    (hshape : ∀ w, StageShape output (call w)) : Stage ScriptError where
  call := call
  input := input
  output := output
  call_congr := hcongr
  written_call w p hp := by
    rcases hshape w with ⟨h, -⟩ | ⟨text, h⟩ <;> simp_all [World.written]
  output_written w hnone := by
    rcases hshape w with ⟨-, h⟩ | ⟨text, h⟩
    · exact absurd hnone h
    · simp [h, World.written]

theorem parseLogsFile_shape (w : World) (inputFile outputFile : List Char) :
    StageShape outputFile (parseLogsFile w inputFile outputFile) := by
  unfold parseLogsFile
  dsimp only
  repeat' split
  all_goals first | exact .inl ⟨rfl, Option.some_ne_none _⟩ | exact .inr ⟨_, rfl⟩

theorem averageDuplicates_shape {F : Type} (ops : FloatOps F) (w : World)
    (inputCsv outputCsv : List Char) :
    StageShape outputCsv (averageDuplicates ops w inputCsv outputCsv) := by
  unfold averageDuplicates
  dsimp only
  repeat' split
  all_goals first | exact .inl ⟨rfl, Option.some_ne_none _⟩ | exact .inr ⟨_, rfl⟩

theorem compileOuterProvingTimes_shape (w : World) (inputCsv outputCsv : List Char) :
    StageShape outputCsv (compileOuterProvingTimes w inputCsv outputCsv) := by
  unfold compileOuterProvingTimes
  dsimp only
  repeat' split
  all_goals first | exact .inl ⟨rfl, Option.some_ne_none _⟩ | exact .inr ⟨_, rfl⟩

theorem sortCsvByColumns_shape (w : World) (inputCsv : List Char) :
    StageShape inputCsv (sortCsvByColumns w inputCsv) := by
  unfold sortCsvByColumns
  dsimp only
  repeat' split
  all_goals first | exact .inl ⟨rfl, Option.some_ne_none _⟩ | exact .inr ⟨_, rfl⟩

/-- The four calls of `main` as stages, each reading the file the one before it wrote. -/
def mainStages {F : Type} (ops : FloatOps F) (inputFile outputFile : List Char) :
    List (Stage ScriptError) :=
  let rawCsvFilename := outputFile ++ "_raw.csv".toList
  let combinedCsvFilename := outputFile ++ "_combined.csv".toList
  let processedCsvFilename := outputFile ++ "_processed.csv".toList
  [.ofShape (fun w => parseLogsFile w inputFile rawCsvFilename) inputFile rawCsvFilename
      (fun _ _ h => by simp only [parseLogsFile, World.read_congr h])
      fun w => parseLogsFile_shape w _ _,
    .ofShape (fun w => averageDuplicates ops w rawCsvFilename combinedCsvFilename)
      rawCsvFilename combinedCsvFilename
      (fun _ _ h => by simp only [averageDuplicates, World.read_congr h])
      fun w => averageDuplicates_shape ops w _ _,
    .ofShape (fun w => compileOuterProvingTimes w combinedCsvFilename processedCsvFilename)
      combinedCsvFilename processedCsvFilename
      (fun _ _ h => by simp only [compileOuterProvingTimes, World.read_congr h])
      fun w => compileOuterProvingTimes_shape w _ _,
    .ofShape (fun w => sortCsvByColumns w processedCsvFilename) processedCsvFilename
      processedCsvFilename (fun _ _ h => by simp only [sortCsvByColumns, World.read_congr h])
      fun w => sortCsvByColumns_shape w _]

section Main

variable {F : Type} (ops : FloatOps F) (inputFile outputFile : List Char)

theorem upaLogParserMain_eq_runCalls (w : World) :
    upaLogParserMain ops w inputFile outputFile =
      runCalls w ((mainStages ops inputFile outputFile).map Stage.call) := rfl

theorem mainStages_chain :
    (mainStages ops inputFile outputFile).Chain' fun s t => t.input = s.output :=
  .cons rfl (.cons rfl (.cons rfl .nil))

theorem output_mem_mainStages {s : Stage ScriptError} (hs : s ∈ mainStages ops inputFile outputFile) :
    s.output ∈ [outputFile ++ "_raw.csv".toList, outputFile ++ "_combined.csv".toList,
      outputFile ++ "_processed.csv".toList] := by
  simp only [mainStages, List.mem_cons, List.not_mem_nil, or_false] at hs
  rcases hs with rfl | rfl | rfl | rfl <;> simp [Stage.ofShape]

/-- What `main` does depends on the files only through the log it parses: files that an
earlier run left under the names `main` derives, or any other file, change nothing. -/
theorem upaLogParserMain_congr {w w' : World} (h : w.files inputFile = w'.files inputFile) :
    upaLogParserMain ops w inputFile outputFile = upaLogParserMain ops w' inputFile outputFile :=
  runCalls_congr (mainStages_chain ops inputFile outputFile) fun _ hs => by
    cases hs
    exact h

/-- `main` writes no file but the three it derives from `output_file`: every other file, the
log included, keeps its text. -/
theorem upaLogParserMain_files (w : World) {p : List Char}
    (hp : p ∉ [outputFile ++ "_raw.csv".toList, outputFile ++ "_combined.csv".toList,
      outputFile ++ "_processed.csv".toList]) :
    (w.run (upaLogParserMain ops w inputFile outputFile).1).files p = w.files p :=
  World.files_run_of_not_written _ _ _ fun hw => by
    rw [upaLogParserMain_eq_runCalls] at hw
    obtain ⟨s, hs, rfl⟩ := written_runCalls _ w p hw
    exact hp (output_mem_mainStages ops inputFile outputFile hs)

/-- `main` on a log from which `parse_logs` reads records, as in the theorems of its stages:
no stage raises, and `output_file + '_processed.csv'` ends up holding the joined row of each
outer run of the table `average_duplicates` wrote, sorted on the seven numbers. -/
theorem upaLogParserMain_processed (w : World) {text : List Char}
    (hinput : w.files inputFile = some text) {data : List CircuitRecord}
    (hdata : parseLogs (textLines text) = .ok data)
    (hlimit : ∀ r ∈ data, ∀ v ∈ r.values, v.length ≤ fieldLimit)
    (hfloat : ∀ r ∈ data, ∀ m, r.get m ≠ [] → r.get m ≠ "NA".toList →
      (ops.ofStr (r.get m)).isSome)
    (hcombined : ∀ g ∈ recordGroups data, ∀ f ∈ combinedRow ops g.1 g.2, Plain f)
    (layout : DictRow → OuterConfigLayout)
    (hlayout : ∀ row ∈ runsOf "UniversalOuter" (dictRows (combinedTable ops data)),
      (layout row).WellFormed ∧ configOf row = some (layout row).text ∧
        ∀ n ∈ (layout row).sortNumbers, (str n).length ≤ maxStrDigits) :
    let run := upaLogParserMain ops w inputFile outputFile
    run.2 = none ∧ (w.run run.1).files (outputFile ++ "_processed.csv".toList) =
      some (writeRow compileFieldnames ++
        (sorted (fun row => (layout row).sortInts)
          (runsOf "UniversalOuter" (dictRows (combinedTable ops data)))).flatMap fun row =>
            writeRow (joinedCells (dictRows (combinedTable ops data)) row (layout row))) := by
  have hplain : ∀ r ∈ combinedTable ops data, ∀ f ∈ r, Plain f := by
    rintro r (_ | ⟨_, hr⟩)
    · decide
    · obtain ⟨g, hg, rfl⟩ := List.mem_map.mp hr
      exact hcombined g hg
  have hparse := parseLogsFile_ok hinput hdata (outputFile ++ "_raw.csv".toList)
  have havg := averageDuplicates_parseLogsFile_table ops w inputFile
    (outputFile ++ "_raw.csv".toList) (outputFile ++ "_combined.csv".toList) text hinput hdata
    hlimit hfloat
  rw [hparse] at havg
  have hread := readText_flatMap_writeRow _ hplain
  -- the stages read the combined table through its header
  simp only [combinedTable] at hlayout hread havg hplain ⊢
  simp only [upaLogParserMain]
  rw [runCalls_cons_ok hparse, runCalls_cons_ok havg,
    runCalls_cons_ok (compileOuterProvingTimes_outerTable _ _ _
      ((World.read_eq_ok_iff _ _ _).mpr (by simp [World.apply])) hread (by decide) layout
      fun row hrow => ⟨(hlayout row hrow).1, (hlayout row hrow).2.1⟩),
    runCalls_cons_ok (sortCsvByColumns_outerTable _ _ _ layout (by simp [World.apply])
      (fun _ => valuesPlain_of_mem_dictRows hplain) fun row hrow => (hlayout row hrow).2)]
  exact ⟨rfl, by simp [runCalls, World.run_append, World.apply]⟩

end Main

/-- The log of `twoRunsLog`, with a stale raw file left by an earlier run under `out`. -/
def staleRawLog : World :=
  ⟨fun path => if path = "out_raw.csv".toList then some "circuit_name\nUBV\n".toList
    else twoRunsLog.files path, []⟩

theorem upaLogParserMain_stale_raw :
    upaLogParserMain wholeSeconds staleRawLog "bench.log".toList "out".toList =
      upaLogParserMain wholeSeconds twoRunsLog "bench.log".toList "out".toList :=
  upaLogParserMain_congr wholeSeconds "bench.log".toList "out".toList rfl

theorem upaLogParserMain_files_bench_log :
    (twoRunsLog.run (upaLogParserMain wholeSeconds twoRunsLog "bench.log".toList
      "out".toList).1).files "bench.log".toList =
      some "Begin UBV with config a\nTime: 2s\nBegin UBV with config a\nTime: 4s\n".toList :=
  (upaLogParserMain_files wholeSeconds "bench.log".toList "out".toList twoRunsLog
    (by decide)).trans rfl

/-- A log of one outer run, with the configuration `sampleOuterConfig`. -/
def outerRunLog : World :=
  ⟨fun path => if path = "bench.log".toList then
    some ("Begin UniversalOuter with config ".toList ++ sampleOuterConfig.text ++
      "\nTime: 9s\nGas cost per proof: 31337\n".toList) else none, []⟩

/-- The record `parse_logs` reads from `outerRunLog`. -/
def outerRunRecords : List CircuitRecord :=
  [⟨.universalOuter, sampleOuterConfig.text, [], [], [], [], [], "9".toList, "31337".toList⟩]

set_option maxRecDepth 4000 in
/-- `main` on the log of one outer run: the processed file holds its joined row, with the
numbers of its configuration, its own gas cost and proving time, `NA` for the UBV and Keccak
runs the log does not have, and its own `num_*` metrics, which the log leaves empty. -/
theorem upaLogParserMain_processed_outer_run :
    let run := upaLogParserMain wholeSeconds outerRunLog "bench.log".toList "out".toList
    run.2 = none ∧ (outerRunLog.run run.1).files ("out".toList ++ "_processed.csv".toList) =
      some (writeRow compileFieldnames ++
        writeRow (["UniversalOuter", "2", "4", "8", "8", "23", "21", "18", "31337", "9"].map
          String.toList ++ List.replicate 12 "NA".toList ++ List.replicate 5 [] ++
            [sampleOuterConfig.text])) := by
  -- the `Begin` line opens the outer run's record, and no metric's literal text is part of it
  have hbegin := beginOf_eq_of_matchAt
    (matchAt_circuitStartPattern .universalOuter (by decide : '\n' ∉ sampleOuterConfig.text))
  rw [show ("Begin " ++ CircuitName.universalOuter.key ++ " with config ").toList =
    "Begin UniversalOuter with config ".toList from rfl] at hbegin
  have hmetrics : ∀ m : Metric, m.pattern.search
      ("Begin UniversalOuter with config ".toList ++ sampleOuterConfig.text) = none := by
    intro m
    cases m
    case numAdviceCells | numLookupCells => exact Pattern.search_lit_after_eq_none (by decide)
    all_goals exact Pattern.search_lit_eq_none (by decide)
  have hfirst : parseStrippedLine ⟨none, []⟩
      ("Begin UniversalOuter with config ".toList ++ sampleOuterConfig.text) =
      .ok ⟨some (CircuitRecord.new .universalOuter sampleOuterConfig.text), []⟩ := by
    have hterm : terminates .universalOuter
        ("Begin UniversalOuter with config ".toList ++ sampleOuterConfig.text) = false := by
      rw [terminates, hmetrics]; rfl
    rw [parseStrippedLine, startCircuits_eq, hbegin]
    simp only [beginError, rowConfiguration, if_neg (by decide : CircuitName.universalOuter ≠ .keccak)]
    rw [except_bind_ok]
    dsimp only
    rw [closeOnGasCost_closeOnProvingTime, recordAll_eq_self hmetrics]
    exact if_neg (ne_true_of_eq_false hterm)
  -- the time and the gas cost on the next two lines close it
  have hdata : parseLogs (textLines ("Begin UniversalOuter with config ".toList ++
      sampleOuterConfig.text ++ "\nTime: 9s\nGas cost per proof: 31337\n".toList)) =
      .ok outerRunRecords := by
    have hlines : (textLines ("Begin UniversalOuter with config ".toList ++
        sampleOuterConfig.text ++ "\nTime: 9s\nGas cost per proof: 31337\n".toList)).map strip =
        ["Begin UniversalOuter with config ".toList ++ sampleOuterConfig.text, "Time: 9s".toList,
          "Gas cost per proof: 31337".toList] := by decide
    rw [parseLogs_eq_foldlM, hlines, List.foldlM_cons, hfirst]
    rfl
  have hconfig : ∀ row ∈ runsOf "UniversalOuter"
      (dictRows (combinedTable wholeSeconds outerRunRecords)),
      configOf row = some sampleOuterConfig.text := by decide
  have hdigits : ∀ n ∈ sampleOuterConfig.sortNumbers, (str n).length ≤ maxStrDigits := by decide
  have h := @upaLogParserMain_processed Nat wholeSeconds "bench.log".toList "out".toList
    outerRunLog _ rfl outerRunRecords hdata (by decide)
    (fun r hr m => by
      simp only [outerRunRecords, List.mem_singleton] at hr
      subst hr
      cases m <;> decide)
    (by decide) (fun _ => sampleOuterConfig)
    fun row hrow => ⟨sampleOuterConfig_wellFormed, hconfig row hrow, hdigits⟩
  refine ⟨h.1, h.2.trans ?_⟩
  -- one outer run: `sorted` keeps it
  rw [sorted, List.mergeSort_of_sorted (by decide)]
  rfl

end UpaScripts.LogParsing
