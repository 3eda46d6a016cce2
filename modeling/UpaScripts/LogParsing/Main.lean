import UpaScripts.LogParsing.CompileOuterProvingTimes
import UpaScripts.LogParsing.SortCsvByColumns

/-!
# `UpaScripts.LogParsing.Main`: `main` of `upa_log_parser.py`

`main(input_file, output_file)` calls the four stages in turn, each on the file the one
before it wrote: `parse_logs` writes `output_file + '_raw.csv'`, `average_duplicates` reads it
and writes `output_file + '_combined.csv'`, `compile_outer_proving_times` reads that and
writes `output_file + '_processed.csv'`, and `sort_csv_by_columns` sorts that file in place.

`runCalls` is Python's sequence of call statements over the files: each call runs on the
files the calls before it left, and the first exception ends the sequence, with the effects
of the call that raised it.

`upaLogParserScript` is the `__main__` block: `main(sys.argv[1], sys.argv[2])`.
-/

set_option autoImplicit false

namespace UpaScripts.LogParsing

open UpaScripts.Python

/-- Calls that act on the files, one statement after another: each runs on the world the
ones before it left, and an exception propagates out of the sequence at once. -/
def runCalls {ε : Type} (w : World) :
    List (World → List Effect × Option ε) → List Effect × Option ε
  | [] => ([], none)
  | call :: calls =>
    match call w with
    | (effects, some e) => (effects, some e)
    | (effects, none) =>
      let rest := runCalls (w.run effects) calls
      (effects ++ rest.1, rest.2)

/-- `main(input_file, output_file)`: what a call does, and the exception it ends with, if
any. -/
def upaLogParserMain {F : Type} (ops : FloatOps F) (w : World) (inputFile outputFile : List Char) :
    List Effect × Option ScriptError :=
  let rawCsvFilename := outputFile ++ "_raw.csv".toList
  let combinedCsvFilename := outputFile ++ "_combined.csv".toList
  let processedCsvFilename := outputFile ++ "_processed.csv".toList
  runCalls w
    [fun w => parseLogsFile w inputFile rawCsvFilename,
      fun w => averageDuplicates ops w rawCsvFilename combinedCsvFilename,
      fun w => compileOuterProvingTimes w combinedCsvFilename processedCsvFilename,
      fun w => sortCsvByColumns w processedCsvFilename]

/-- The `__main__` block of `upa_log_parser.py` on `sys.argv` (the script's name first): the
input and output names are `sys.argv[1]` and `sys.argv[2]`, and a missing one raises
`IndexError` before anything is read. -/
def upaLogParserScript {F : Type} (ops : FloatOps F) (w : World) (argv : List (List Char)) :
    List Effect × Option ScriptError :=
  match argv[1]?, argv[2]? with
  | some inputFile, some outputFile => upaLogParserMain ops w inputFile outputFile
  | _, _ => ([], some .indexError)

end UpaScripts.LogParsing
