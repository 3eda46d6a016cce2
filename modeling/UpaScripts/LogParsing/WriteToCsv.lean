import UpaScripts.LogParsing.UpaLogParser
import UpaScripts.Python.CsvDict
import UpaScripts.Python.Builtins

/-!
# `UpaScripts.LogParsing.WriteToCsv`: `write_to_csv`, and `parse_logs` on files

`parse_logs(input_file, output_file)` opens the log, runs its loop (`parseLogs`) over the
lines `for line in file` yields, and hands the rows to `write_to_csv`, which writes them
with a `csv.DictWriter` under the nine field names of `parse_logs`.

A row is the dict `current_circuit`; `CircuitRecord.toDict` builds it with the keys of the
dict display in the `Begin` handling, in their order, and `CircuitRecord.values` lists its
values in that order. The metrics come after the circuit and its configuration in the order
of `Metric`, which is also the order of the display.
-/

set_option autoImplicit false

namespace UpaScripts.LogParsing

open UpaScripts.Python UpaScripts.Python.Csv

/-- The exceptions that end a call of the log parser's functions; the script catches none. -/
inductive ScriptError
  /-- `open(path, 'r')` on a missing file. -/
  | osError (e : OSError)
  /-- The `TypeError` or `ValueError` of the loop of `parse_logs`. -/
  | parseError (e : ParseError)
  /-- `DictWriter.writerow` on a row with a key that is not a field name. -/
  | writerError (e : WriterError)
  /-- `_csv.Error` from the reader under a `DictReader`. -/
  | csvError (e : CsvError)
  /-- `KeyError`: `row[key]` on a row without the key. -/
  | keyError (key : List Char)
  /-- `ValueError` of `float(s)`: `could not convert string to float: ` and `s`. -/
  | floatError (s : List Char)
  /-- The `ValueError` of `int(s)`. -/
  | intError (e : IntError)
  /-- `int(None)`: `TypeError: int() argument must be a string, a bytes-like object or a real
  number, not ` and `NoneType` in quotes. -/
  | intOfNone
  /-- `reader.fieldnames` once the `with` block has closed the file, on a file with no line,
  where `DictReader` has not read a header yet and reads on: `ValueError: I/O operation on
  closed file.` -/
  | closedFile
  /-- `re.search(pattern, None)`: `TypeError: expected string or bytes-like object`. -/
  | searchNone
  /-- `.group(1)` or `.groups()` on the `None` of a search that found nothing:
  `AttributeError`, the `NoneType` object has no attribute `name`. -/
  | attributeError (name : List Char)
  /-- Unpacking a list of `got` items into `expected` names: `ValueError: too many values to
  unpack` or `not enough values to unpack`. -/
  | unpackError (expected got : Nat)
  /-- `sys.argv[i]` past the end of `sys.argv`: `IndexError: list index out of range`. -/
  | indexError
deriving DecidableEq, Repr

/-- The metrics in the order of `current_circuit`'s keys. -/
def metrics : List Metric :=
  [.numAdviceCells, .numLookupCells, .numAdviceColumns, .numLookupAdviceColumns,
    .numFixedColumns, .provingTime, .gasCost]

/-- The keys of the dict display that creates `current_circuit`, in order. -/
def circuitKeys : List (List Char) :=
  ["circuit_name", "configuration", "num_advice_cells", "num_lookup_cells",
    "num_advice_columns", "num_lookup_advice_columns", "num_fixed_columns", "proving_time",
    "gas_cost"].map String.toList

/-- The values of `current_circuit`, in the order of its keys. -/
def CircuitRecord.values (r : CircuitRecord) : List (List Char) :=
  r.circuitName.key.toList :: r.configuration :: metrics.map r.get

/-- `current_circuit` as a dict. -/
def CircuitRecord.toDict (r : CircuitRecord) : Dict (List Char) (List Char) :=
  Dict.ofList (circuitKeys.zip r.values)

/-- `fieldnames` of `parse_logs`. -/
def parseLogsFieldnames : List (List Char) :=
  ["circuit_name", "configuration", "num_advice_cells", "num_lookup_cells",
    "num_advice_columns", "num_lookup_advice_columns", "num_fixed_columns", "proving_time",
    "gas_cost"].map String.toList

/-- `write_to_csv(data, output_file, fieldnames)`: the output file, opened with
`newline=''`, receives the header and the rows up to the first that raises. -/
def writeToCsv (data : List (Dict (List Char) (List Char))) (outputFile : List Char)
    (fieldnames : List (List Char)) : List Effect × Option WriterError :=
  let table := writeTable fieldnames data
  ([.write outputFile table.1], table.2)

/-- `parse_logs(input_file, output_file)`: what a call does, and the exception it ends
with, if any. -/
def parseLogsFile (w : World) (inputFile outputFile : List Char) :
    List Effect × Option ScriptError :=
  match w.read inputFile with
  | .error e => ([], some (.osError e))
  | .ok text =>
    match parseLogs (textLines text) with
    | .error e => ([], some (.parseError e))
    | .ok data =>
      let written := writeToCsv (data.map CircuitRecord.toDict) outputFile parseLogsFieldnames
      (written.1, written.2.map .writerError)

end UpaScripts.LogParsing
