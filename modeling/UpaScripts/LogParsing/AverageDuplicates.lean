import UpaScripts.LogParsing.WriteToCsv

/-!
# `UpaScripts.LogParsing.AverageDuplicates`: `average_duplicates`

`average_duplicates(input_csv, output_csv)` reads a table with `csv.DictReader`, groups its
rows in the dict `entries` by `(row['circuit_name'], row['configuration'])`, and writes one
row per group with `write_to_csv`: the key, the number of rows (`sample_size`) and, for each
of seven metric columns, the mean of the group's values in that column, leaving out `''`,
`'NA'` and `None`.

Python's `float` is a parameter of the model: `FloatOps` gives `float(s)`, `sum`, the
division by the count and `str(x)`, so the model fixes where each is applied and leaves the
IEEE arithmetic to them. A value of `averaged_entry` is a `Cell`: a string, `None`, an
`int` or a `float`; `Cell.text` is what `csv.writer` writes for it.

The loops follow the source: `addRow` is one iteration of the reading loop, `columnValues`
the list comprehension, `averagedEntry` the body of the loop over `entries.items()`. An
exception stops the call before the output is opened: `KeyError` for a missing column,
`ValueError` from `float()`, and the reader's `csv.Error`, which comes after the rows read
before it.
-/

set_option autoImplicit false

namespace UpaScripts.LogParsing

open UpaScripts.Python UpaScripts.Python.Csv

/-- The operations of `float` that `average_duplicates` uses. -/
structure FloatOps (F : Type) where
  /-- `float(s)`; `none` where it raises `ValueError`. -/
  ofStr : List Char → Option F
  /-- `sum(values)`. -/
  sum : List F → F
  /-- `x / n`, a float divided by a positive `int`. -/
  div : F → Nat → F
  /-- `str(x)`. -/
  repr : F → List Char

variable {F : Type}

/-- A value of `averaged_entry`. -/
inductive Cell (F : Type)
  | str (s : List Char)
  | none
  | int (n : Nat)
  | float (x : F)

/-- What `csv.writer` writes for a value: `str(v)`, and `''` for `None`. -/
def Cell.text (ops : FloatOps F) : Cell F → List Char
  | .str s => s
  | .none => []
  | .int n => Python.str n
  | .float x => ops.repr x

/-- A field of a `DictReader` row as a value: a string, or `None` (`restval`). -/
def Cell.ofField : Option (List Char) → Cell F
  | some s => .str s
  | Option.none => .none

/-- `row[col]` on a row `DictReader` yields. -/
def getItem (row : DictRow) (col : List Char) : Except ScriptError (Option (List Char)) :=
  match row.fields.get? col with
  | some v => .ok v
  | none => .error (.keyError col)

/-- `(row['circuit_name'], row['configuration'])`. -/
def rowKey (row : DictRow) : Except ScriptError (Option (List Char) × Option (List Char)) := do
  let name ← getItem row "circuit_name".toList
  let config ← getItem row "configuration".toList
  pure (name, config)

/-- One iteration of the reading loop: the key of the row, a new key set to `[]`, and the
row appended to its list. -/
def addRow (entries : Dict (Option (List Char) × Option (List Char)) (List DictRow))
    (row : DictRow) :
    Except ScriptError (Dict (Option (List Char) × Option (List Char)) (List DictRow)) := do
  let key ← rowKey row
  let entries := if key ∈ entries.keys then entries else entries.set key []
  pure (entries.set key ((entries.get? key).getD [] ++ [row]))

/-- The reading loop, from `entries = {}`. -/
def groupRows (rows : List DictRow) :
    Except ScriptError (Dict (Option (List Char) × Option (List Char)) (List DictRow)) :=
  rows.foldlM addRow Dict.empty

/-- The columns of the comprehension that starts `averaged_entry`, all set to `''`. -/
def averagedColumns : List (List Char) :=
  ["circuit_name", "configuration", "num_advice_cells", "num_lookup_cells",
    "num_advice_columns", "num_lookup_advice_columns", "num_fixed_columns", "proving_time",
    "gas_cost", "sample_size"].map String.toList

/-- The columns the loop averages, in its order. -/
def metricColumns : List (List Char) :=
  ["num_advice_cells", "num_lookup_cells", "proving_time", "gas_cost", "num_advice_columns",
    "num_lookup_advice_columns", "num_fixed_columns"].map String.toList

/-- `fieldnames` of `average_duplicates`. -/
def averageDuplicatesFieldnames : List (List Char) :=
  ["circuit_name", "configuration", "num_advice_cells", "num_lookup_cells",
    "num_advice_columns", "num_lookup_advice_columns", "num_fixed_columns", "proving_time",
    "gas_cost", "sample_size"].map String.toList

/-- The test of the comprehension and its `float()`: a value outside `['', 'NA', None]` is
converted, and one that `float()` rejects raises `ValueError`. -/
def floatValue (ops : FloatOps F) : Option (List Char) → Except ScriptError (Option F)
  | some s =>
    if s = [] ∨ s = "NA".toList then .ok none
    else
      match ops.ofStr s with
      | some x => .ok (some x)
      | none => .error (.floatError s)
  | none => .ok none

/-- `[float(row[col]) for row in group if row[col] not in ['', 'NA', None]]`. -/
def columnValues (ops : FloatOps F) (group : List DictRow) (col : List Char) :
    Except ScriptError (List F) := do
  let values ← group.mapM fun row => do floatValue ops (← getItem row col)
  pure (values.filterMap id)

/-- `averaged_entry[col]` after the averaging: the mean of the values, or `''` when there
are none. -/
def meanCell (ops : FloatOps F) : List F → Cell F
  | [] => .str []
  | values => .float (ops.div (ops.sum values) values.length)

/-- `averaged_entry` for the group of `key`. -/
def averagedEntry (ops : FloatOps F) (key : Option (List Char) × Option (List Char))
    (group : List DictRow) : Except ScriptError (Dict (List Char) (Cell F)) :=
  let entry := Dict.ofList (averagedColumns.map fun col => (col, Cell.str []))
  let entry := (entry.set "circuit_name".toList (.ofField key.1)).set "configuration".toList
    (.ofField key.2)
  let entry := entry.set "sample_size".toList (.int group.length)
  metricColumns.foldlM
    (fun entry col => do
      let values ← columnValues ops group col
      pure (entry.set col (meanCell ops values)))
    entry

/-- `average_duplicates(input_csv, output_csv)`: what a call does, and the exception it ends
with, if any. -/
def averageDuplicates (ops : FloatOps F) (w : World) (inputCsv outputCsv : List Char) :
    List Effect × Option ScriptError :=
  match w.read inputCsv with
  | .error e => ([], some (.osError e))
  | .ok text =>
    let read := readText text
    match groupRows (dictRows read.1), read.2 with
    | .error e, _ => ([], some e)
    | .ok _, some e => ([], some (.csvError e))
    | .ok entries, none =>
      match entries.entries.mapM fun group => averagedEntry ops group.1 group.2 with
      | .error e => ([], some e)
      | .ok averagedData =>
        let written := writeToCsv (averagedData.map (Dict.mapValues (Cell.text ops))) outputCsv
          averageDuplicatesFieldnames
        (written.1, written.2.map .writerError)

end UpaScripts.LogParsing
