import UpaScripts.LogParsing.WriteToCsv

/-!
# `UpaScripts.LogParsing.SortCsvByColumns`: `sort_csv_by_columns`

`sort_csv_by_columns(input_csv)` reads a table with `csv.DictReader`, converts seven columns
of every row to `int`, sorts the rows with `sorted` on the tuple of those seven ints, and
rewrites the file with a `csv.DictWriter` under the header it read, after turning the seven
ints back into strings with `str`.

A row of `data` is a dict whose values are strings, `None` (`restval`, under the names a
short row has no field for) and, after the conversion loop, ints: `Value`. The extra fields
of a row longer than the header stay under the key `None` (`SortRow.rest`).

The stages follow the source: `convertRow` is the body of the conversion loop
(`convertColumn` for one column), `sortKey` the `key` of `sorted`, `writeBack` the loop that
calls `str` (`writeBackColumn`), and `writeSortedRows` the writing loop. An exception of the
reader or of the conversion loop stops the call before the file is opened for writing; once
it is opened, it is truncated, and a later exception leaves in it what was written before.
`reader.fieldnames` is read after the file is opened for writing, and the `with` block that
read the table has closed the input by then: `DictReader` has its header already, unless the
file had no line at all, where it reads on and raises `ValueError` (`ScriptError.closedFile`).
-/

set_option autoImplicit false

namespace UpaScripts.LogParsing

open UpaScripts.Python UpaScripts.Python.Csv

/-- A value of a row of `data`. -/
inductive Value
  /-- A field as `DictReader` read it. -/
  | str (s : List Char)
  /-- `None`, under a field name that the row has no field for. -/
  | none
  /-- What the conversion loop stores. -/
  | int (n : Int)
deriving DecidableEq, Repr

/-- A field of a `DictReader` row as a value. -/
def Value.ofField : Option (List Char) → Value
  | some s => .str s
  | Option.none => .none

/-- `int(v)`. -/
def Value.toInt : Value → Except ScriptError Int
  | .str s =>
    match intOfStr s with
    | .ok n => .ok n
    | .error e => .error (.intError e)
  | .none => .error .intOfNone
  | .int n => .ok n

/-- `str(v)`. -/
def Value.toStr : Value → List Char
  | .str s => s
  | .none => "None".toList
  | .int n => strOfInt n

/-- What `csv.writer` writes for a value: `''` for `None`, `str(v)` otherwise. -/
def Value.text : Value → List Char
  | .none => []
  | v => v.toStr

/-- A row of `data`: the dict of the field names, and the fields past the header, which
`DictReader` puts under the key `None`. -/
structure SortRow where
  fields : Dict (List Char) Value
  rest : Option (List (List Char))
deriving DecidableEq, Repr

/-- A row as `DictReader` yields it. -/
def SortRow.ofDictRow (row : DictRow) : SortRow :=
  ⟨row.fields.mapValues Value.ofField, row.rest⟩

/-- `row[col]`. -/
def SortRow.getItem (row : SortRow) (col : List Char) : Except ScriptError Value :=
  match row.fields.get? col with
  | some v => .ok v
  | Option.none => .error (.keyError col)

/-- `row[col] = v`. -/
def SortRow.setItem (row : SortRow) (col : List Char) (v : Value) : SortRow :=
  { row with fields := row.fields.set col v }

/-- The columns the conversion loop converts, in the order of its list, which is also the
order of the key tuple. -/
def intColumns : List (List Char) :=
  ["max_num_public_inputs", "total_batch_size", "outer_batch_size", "inner_batch_size",
    "outer_degree_bits", "ubv_degree_bits", "keccak_degree_bits"].map String.toList

/-- `row[col] = int(row[col])`. -/
def convertColumn (row : SortRow) (col : List Char) : Except ScriptError SortRow := do
  let n ← (← row.getItem col).toInt
  pure (row.setItem col (.int n))

/-- The body of the conversion loop for one row. -/
def convertRow (row : SortRow) : Except ScriptError SortRow :=
  intColumns.foldlM convertColumn row

/-- The `key` of `sorted`: the tuple of the seven columns. The conversion loop has stored an
`int` under each of them in every row it passes (`sortKey_convertRow`), so the `0` is never
read. -/
def sortKey (row : SortRow) : List Int :=
  intColumns.map fun col =>
    match row.fields.get? col with
    | some (.int n) => n
    | _ => 0

/-- `row[col] = str(row[col])`. -/
def writeBackColumn (row : SortRow) (col : List Char) : Except ScriptError SortRow := do
  let v ← row.getItem col
  pure (row.setItem col (.str v.toStr))

/-- The loop that turns the seven columns of a row back into strings. -/
def writeBack (row : SortRow) : Except ScriptError SortRow :=
  intColumns.foldlM writeBackColumn row

/-- `writer.writerow(row)`: the list `csv.writer` writes, or the `ValueError` of a key that is
not a field name. -/
def writerow (fieldnames : List (List Char)) (row : SortRow) :
    Except WriterError (List (List Char)) :=
  match row.rest with
  | some _ => .error .noneField
  | Option.none => dictToList fieldnames (row.fields.mapValues Value.text)

/-- The writing loop over `sorted_data`, up to the first row that raises. -/
def writeSortedRows (fieldnames : List (List Char)) :
    List SortRow → List Char × Option ScriptError
  | [] => ([], Option.none)
  | row :: rows =>
    match writeBack row with
    | .error e => ([], some e)
    | .ok row =>
      match writerow fieldnames row with
      | .error e => ([], some (.writerError e))
      | .ok fields =>
        let rest := writeSortedRows fieldnames rows
        (writeRow fields ++ rest.1, rest.2)

/-- `writer.writeheader()`, then the writing loop. -/
def writeSortedTable (fieldnames : List (List Char)) (rows : List SortRow) :
    List Char × Option ScriptError :=
  let header := writeDictRows fieldnames [headerDict fieldnames]
  match header.2 with
  | some e => (header.1, some (.writerError e))
  | Option.none =>
    let body := writeSortedRows fieldnames rows
    (header.1 ++ body.1, body.2)

/-- `sort_csv_by_columns(input_csv)`: what a call does, and the exception it ends with, if
any. -/
def sortCsvByColumns (w : World) (inputCsv : List Char) : List Effect × Option ScriptError :=
  match w.read inputCsv with
  | .error e => ([], some (.osError e))
  | .ok text =>
    let read := readText text
    match read.2 with
    | some e => ([], some (.csvError e))
    | Option.none =>
      match (dictRows read.1).mapM fun row => convertRow (.ofDictRow row) with
      | .error e => ([], some e)
      | .ok data =>
        let sortedData := sorted sortKey data
        match read.1.head? with
        | Option.none => ([.write inputCsv []], some .closedFile)
        | some fieldnames =>
          let written := writeSortedTable fieldnames sortedData
          ([.write inputCsv written.1], written.2)

end UpaScripts.LogParsing
