import UpaScripts.LogParsing.SortCsvByColumns

/-!
# `UpaScripts.Proofs.SortCsvByColumns`: the sorted table

Both column loops of `sort_csv_by_columns` read a column and set it, one column at a time,
and the seven columns are distinct: `foldlM_setItem` runs such a loop once for both. From it,

* `convertRow_eq`: when `int()` accepts each of the seven fields of a row, the conversion
  loop stores their ints, and `sortKey` reads them back (`sortKey_converted`);
* `writeBack_converted`, `writerow_converted`: the row is written with `str` of the ints under
  the seven columns and its other fields as read;
* `convertRow_error`: one field that is missing, `None` or rejected by `int()` makes the
  conversion raise.

`sortCsvByColumns_eq` is the whole call on a table whose rows are no longer than its header
and whose seven columns hold ints: the header, then the rows in the order of `sorted` on the
tuple of their ints, which `eq_sorted_of_stableSortOf` shows is the stable sort.
`sortCsvByColumns_eq_sortedRows` is the same equation with the written rows as a table.
`sortCsvByColumns_bad_value`: a table with a field the conversion rejects is left as it was.

`sortCsvByColumns_idempotent`: a second call on the file the first one wrote writes the same
text. The file reads back (`readText_flatMap_writeRow`), every row the first call wrote
passes the conversion again with the same ints (`parsedInts_dictRow_sortedFields`: `str()` of
what `int()` returns is within the digit limit), so `sorted` finds them in order
(`sorted_sorted`) and writes each as it was (`sortedFields_dictRow_sortedFields`).
-/

set_option autoImplicit false

namespace UpaScripts.LogParsing

open UpaScripts.Python UpaScripts.Python.Csv

/-! ### Loops that set the seven columns one at a time -/

theorem intColumns_nodup : intColumns.Nodup := by
  decide

theorem get?_setItem_of_ne (row : SortRow) {col col' : List Char} (v : Value) (h : col' ≠ col) :
    (row.setItem col v).fields.get? col' = row.fields.get? col' := by
  rw [SortRow.setItem, Dict.get?_set, if_neg h]

/-- A loop over distinct columns whose step on `col` only reads `col` and sets it to `g col`,
whatever the other columns hold. -/
theorem foldlM_setItem {f : SortRow → List Char → Except ScriptError SortRow}
    (g : List Char → Value) {cols : List (List Char)} (hnodup : cols.Nodup)
    (fields : Dict (List Char) Value) (rest : Option (List (List Char)))
    (hstep : ∀ (row' : SortRow) col, col ∈ cols → row'.fields.get? col = fields.get? col →
      f row' col = .ok (row'.setItem col (g col))) :
    cols.foldlM f ⟨fields, rest⟩ = .ok ⟨cols.foldl (fun d col => d.set col (g col)) fields, rest⟩ := by
  induction cols generalizing fields with
  | nil => rfl
  | cons c cols ih =>
    obtain ⟨hc, hnodup⟩ := List.nodup_cons.mp hnodup
    rw [List.foldlM_cons, hstep ⟨fields, rest⟩ c (List.mem_cons_self c cols) rfl]
    exact ih hnodup _ fun row' col hcol hget => hstep row' col (List.mem_cons_of_mem c hcol)
      (hget.trans (get?_setItem_of_ne ⟨fields, rest⟩ _ fun h => hc (h ▸ hcol)))

/-- The conversion loop on a row whose seven columns hold strings that `int()` accepts. -/
theorem convertRow_eq {row : SortRow} {ints : List Char → Int}
    (h : ∀ col ∈ intColumns, ∃ s, row.fields.get? col = some (.str s) ∧ intOfStr s = .ok (ints col)) :
    convertRow row =
      .ok ⟨intColumns.foldl (fun d col => d.set col (.int (ints col))) row.fields, row.rest⟩ :=
  foldlM_setItem _ intColumns_nodup row.fields row.rest fun row' col hcol hget => by
    obtain ⟨s, hs, hn⟩ := h col hcol
    simp only [convertColumn, SortRow.getItem, hget, hs, except_bind_ok, Value.toInt, hn]
    rfl

/-- `sortKey` reads the ints the conversion loop stored. -/
theorem sortKey_converted (fields : Dict (List Char) Value) (rest : Option (List (List Char)))
    (ints : List Char → Int) :
    sortKey ⟨intColumns.foldl (fun d col => d.set col (.int (ints col))) fields, rest⟩ =
      intColumns.map ints := by
  unfold sortKey
  refine List.map_congr_left fun col hcol => ?_
  rw [Dict.get?_foldl_set, if_pos hcol]

/-- The loop that calls `str` on a converted row. -/
theorem writeBack_converted (fields : Dict (List Char) Value) (rest : Option (List (List Char)))
    (ints : List Char → Int) :
    writeBack ⟨intColumns.foldl (fun d col => d.set col (.int (ints col))) fields, rest⟩ =
      .ok ⟨intColumns.foldl (fun d col => d.set col (.str (strOfInt (ints col))))
        (intColumns.foldl (fun d col => d.set col (.int (ints col))) fields), rest⟩ := by
  unfold writeBack
  refine foldlM_setItem _ intColumns_nodup _ rest fun row' col hcol hget => ?_
  rw [Dict.get?_foldl_set, if_pos hcol] at hget
  simp only [writeBackColumn, SortRow.getItem, hget, except_bind_ok]
  rfl

/-- A step of the conversion loop that succeeds sets its column to an int. -/
theorem convertColumn_ok {row row' : SortRow} {col : List Char}
    (h : convertColumn row col = .ok row') : ∃ n, row' = row.setItem col (.int n) := by
  unfold convertColumn at h
  cases hv : row.getItem col with
  | error e => rw [hv] at h; cases h
  | ok v =>
    rw [hv, except_bind_ok] at h
    cases hn : v.toInt with
    | error e => rw [hn] at h; cases h
    | ok n =>
      rw [hn, except_bind_ok] at h
      exact ⟨n, (Except.ok.inj h).symm⟩

/-- The conversion loop raises when one of its columns holds what the step on it rejects,
whatever the other steps store. -/
theorem foldlM_convertColumn_error {cols : List (List Char)} (hnodup : cols.Nodup)
    (row : SortRow) {col : List Char} (hcol : col ∈ cols)
    (hbad : ∀ row' : SortRow, row'.fields.get? col = row.fields.get? col →
      ∃ e, convertColumn row' col = .error e) :
    ∃ e, cols.foldlM convertColumn row = .error e := by
  induction cols generalizing row with
  | nil => exact absurd hcol (List.not_mem_nil col)
  | cons c cols ih =>
    obtain ⟨hc, hnodup⟩ := List.nodup_cons.mp hnodup
    rw [List.foldlM_cons]
    by_cases hcc : col = c
    · subst hcc
      obtain ⟨e, he⟩ := hbad row rfl
      exact ⟨e, by rw [he]; rfl⟩
    · have hcol' : col ∈ cols := (List.mem_cons.mp hcol).resolve_left hcc
      cases hstep : convertColumn row c with
      | error e => exact ⟨e, rfl⟩
      | ok row' =>
        obtain ⟨n, rfl⟩ := convertColumn_ok hstep
        exact ih hnodup _ hcol' fun row'' h => hbad row'' (h.trans (get?_setItem_of_ne row _ hcc))

/-! ### The rows of the table -/

/-- The fields `sort_csv_by_columns` writes for a row whose seven columns hold `ints`: `str`
of the int under each of them, and every other field as read, `''` where the row has none. -/
def sortedFields (fieldnames : List (List Char)) (row : DictRow) (ints : List Char → Int) :
    List (List Char) :=
  fieldnames.map fun col =>
    if col ∈ intColumns then strOfInt (ints col) else ((row.fields.get? col).join).getD []

/-- A row after the conversion loop, its seven columns set to `ints`. -/
def convertedRow (row : DictRow) (ints : List Char → Int) : SortRow :=
  ⟨intColumns.foldl (fun d col => d.set col (.int (ints col))) (SortRow.ofDictRow row).fields,
    row.rest⟩

theorem sortKey_convertedRow (row : DictRow) (ints : List Char → Int) :
    sortKey (convertedRow row ints) = intColumns.map ints := by
  unfold convertedRow
  exact sortKey_converted _ _ _

theorem get?_ofDictRow (row : DictRow) (col : List Char) :
    (SortRow.ofDictRow row).fields.get? col = (row.fields.get? col).map Value.ofField :=
  Dict.get?_mapValues _ _ _

theorem convertRow_ofDictRow {row : DictRow} {ints : List Char → Int}
    (h : ∀ col ∈ intColumns, ∃ s, row.fields.get? col = some (some s) ∧ intOfStr s = .ok (ints col)) :
    convertRow (.ofDictRow row) = .ok (convertedRow row ints) :=
  convertRow_eq fun col hcol => by
    obtain ⟨s, hs, hn⟩ := h col hcol
    exact ⟨s, by rw [get?_ofDictRow, hs]; rfl, hn⟩

/-- The same row after the loop that calls `str`. -/
def writtenRow (row : DictRow) (ints : List Char → Int) : SortRow :=
  ⟨intColumns.foldl (fun d col => d.set col (.str (strOfInt (ints col))))
    (convertedRow row ints).fields, row.rest⟩

theorem writeBack_convertedRow (row : DictRow) (ints : List Char → Int) :
    writeBack (convertedRow row ints) = .ok (writtenRow row ints) := by
  unfold writtenRow convertedRow
  dsimp only
  exact writeBack_converted _ _ _

/-- The row of a `DictReader` row no longer than the header is written with `sortedFields`. -/
theorem writerow_writtenRow {fieldnames : List (List Char)} {row : DictRow}
    {ints : List Char → Int} (hrest : row.rest = none)
    (hkeys : ∀ k ∈ row.fields.keys, k ∈ fieldnames)
    (hcols : ∀ col ∈ intColumns, col ∈ row.fields.keys) :
    writerow fieldnames (writtenRow row ints) = .ok (sortedFields fieldnames row ints) := by
  unfold writerow writtenRow convertedRow sortedFields
  dsimp only
  rw [hrest]
  dsimp only
  rw [dictToList_of_keys fun k hk => ?_]
  · refine congrArg Except.ok (List.map_congr_left fun col _ => ?_)
    rw [Dict.get?_mapValues, Dict.get?_foldl_set, Dict.get?_foldl_set]
    by_cases hcol : col ∈ intColumns
    · simp [hcol, Value.text, Value.toStr]
    · rw [if_neg hcol, if_neg hcol, if_neg hcol, get?_ofDictRow]
      rcases row.fields.get? col with _ | _ | _ <;> rfl
  · rw [Dict.keys_mapValues] at hk
    rcases Dict.mem_keys_foldl_set _ _ _ _ hk with hk | hk
    · rcases Dict.mem_keys_foldl_set _ _ _ _ hk with hk | hk
      · rw [SortRow.ofDictRow, Dict.keys_mapValues] at hk
        exact hkeys k hk
      · exact hkeys k (hcols k (by simpa using hk))
    · exact hkeys k (hcols k (by simpa using hk))

/-- The conversion of a `DictReader` row raises when one of the seven columns is missing, is
`None` or holds a string that `int()` rejects. -/
theorem convertRow_ofDictRow_error {row : DictRow} {col : List Char} (hcol : col ∈ intColumns)
    (hbad : ∀ s n, row.fields.get? col = some (some s) → intOfStr s ≠ .ok n) :
    ∃ e, convertRow (.ofDictRow row) = .error e :=
  foldlM_convertColumn_error intColumns_nodup _ hcol fun row' hget => by
    unfold convertColumn SortRow.getItem
    rw [hget, get?_ofDictRow]
    rcases hv : row.fields.get? col with _ | _ | s
    · exact ⟨_, rfl⟩
    · exact ⟨_, rfl⟩
    · cases hn : intOfStr s with
      | error e => exact ⟨.intError e, by simp [Value.ofField, Value.toInt, hn]⟩
      | ok n => exact absurd hn (hbad s n hv)

/-! ### The written table -/

/-- The writing loop over rows that all convert back and write. -/
theorem writeSortedRows_map {α : Type} {fieldnames : List (List Char)} {xs : List α}
    {row : α → SortRow} {out : α → List (List Char)}
    (h : ∀ x ∈ xs, ∃ row', writeBack (row x) = .ok row' ∧ writerow fieldnames row' = .ok (out x)) :
    writeSortedRows fieldnames (xs.map row) = (xs.flatMap fun x => writeRow (out x), none) := by
  induction xs with
  | nil => rfl
  | cons x xs ih =>
    obtain ⟨row', hback, hwrite⟩ := h x (List.mem_cons_self x xs)
    simp only [List.map_cons, writeSortedRows, hback, hwrite,
      ih fun x' hx' => h x' (List.mem_cons_of_mem x hx'), List.flatMap_cons]

theorem writeSortedTable_eq (fieldnames : List (List Char)) (rows : List SortRow) :
    writeSortedTable fieldnames rows =
      (writeRow fieldnames ++ (writeSortedRows fieldnames rows).1,
        (writeSortedRows fieldnames rows).2) := by
  simp only [writeSortedTable, writeDictRows, dictToList_headerDict, List.append_nil]

/-- The writing loop up to the first row that `writerow` rejects: the rows before it are
written, and the loop raises there. -/
theorem writeSortedRows_map_of_error {α : Type} {fieldnames : List (List Char)} {xs : List α}
    {row : α → SortRow} {out : α → List (List Char)} (p : α → Bool) {e : WriterError}
    (hgood : ∀ x ∈ xs, p x = true →
      ∃ row', writeBack (row x) = .ok row' ∧ writerow fieldnames row' = .ok (out x))
    (hbad : ∀ x ∈ xs, p x = false →
      ∃ row', writeBack (row x) = .ok row' ∧ writerow fieldnames row' = .error e)
    (hex : ∃ x ∈ xs, p x = false) :
    writeSortedRows fieldnames (xs.map row) =
      ((xs.takeWhile p).flatMap fun x => writeRow (out x), some (.writerError e)) := by
  induction xs with
  | nil => simp at hex
  | cons x xs ih =>
    cases hp : p x with
    | false =>
      obtain ⟨row', hback, hwrite⟩ := hbad x (List.mem_cons_self x xs) hp
      simp only [List.map_cons, writeSortedRows, hback, hwrite, List.takeWhile_cons, hp,
        Bool.false_eq_true, if_false, List.flatMap_nil]
    | true =>
      obtain ⟨row', hback, hwrite⟩ := hgood x (List.mem_cons_self x xs) hp
      have hex' : ∃ x ∈ xs, p x = false := by
        obtain ⟨y, hy, hpy⟩ := hex
        rcases List.mem_cons.mp hy with rfl | hy
        · rw [hp] at hpy
          cases hpy
        · exact ⟨y, hy, hpy⟩
      simp only [List.map_cons, writeSortedRows, hback, hwrite, List.takeWhile_cons, hp,
        if_true, List.flatMap_cons, ih (fun y hy => hgood y (List.mem_cons_of_mem x hy))
          (fun y hy => hbad y (List.mem_cons_of_mem x hy)) hex']

/-- The call on a table whose seven columns hold ints, up to the writing loop: it rewrites the
file with what the loop writes for the converted rows in sorted order, under the header. -/
theorem sortCsvByColumns_eq_writeSortedTable (w : World) (inputCsv text : List Char)
    (hinput : w.files inputCsv = some text) {header : List (List Char)}
    {rows : List (List (List Char))} (hread : readText text = (header :: rows, none))
    (ints : DictRow → List Char → Int)
    (hints : ∀ row ∈ dictRows (header :: rows), ∀ col ∈ intColumns,
      ∃ s, row.fields.get? col = some (some s) ∧ intOfStr s = .ok (ints row col)) :
    sortCsvByColumns w inputCsv =
      ([.write inputCsv (writeRow header ++ (writeSortedRows header
          ((sorted (fun row => intColumns.map (ints row)) (dictRows (header :: rows))).map
            fun row => convertedRow row (ints row))).1)],
        (writeSortedRows header ((sorted (fun row => intColumns.map (ints row))
          (dictRows (header :: rows))).map fun row => convertedRow row (ints row))).2) := by
  unfold sortCsvByColumns World.read
  rw [hinput]
  dsimp only
  rw [hread]
  dsimp only
  rw [mapM_except_ok fun row hrow => convertRow_ofDictRow (hints row hrow)]
  dsimp only
  rw [sorted_map (fun row => intColumns.map (ints row)) fun row _ => sortKey_convertedRow row _,
    List.head?_cons]
  dsimp only
  rw [writeSortedTable_eq]

/-- A row no longer than the header, its seven columns holding ints, is written with
`sortedFields`. -/
theorem writeBack_writerow_convertedRow {header r : List (List Char)} {ints : List Char → Int}
    (hlen : r.length ≤ header.length)
    (hints : ∀ col ∈ intColumns, ∃ s, (dictRow header r).fields.get? col = some (some s) ∧
      intOfStr s = .ok (ints col)) :
    ∃ row', writeBack (convertedRow (dictRow header r) ints) = .ok row' ∧
      writerow header row' = .ok (sortedFields header (dictRow header r) ints) := by
  refine ⟨_, writeBack_convertedRow _ ints, writerow_writtenRow ?_
    (fun k hk => mem_of_mem_keys_dictRow hk) fun col hcol => ?_⟩
  · rw [dictRow, if_neg (Nat.not_lt.mpr hlen)]
  · obtain ⟨s, hs, -⟩ := hints col hcol
    exact Dict.mem_keys_of_get? hs

/-- The whole call on a table whose seven columns hold ints rewrites the file with the header
and the rows in sorted order, each as `sortedFields`. -/
theorem sortCsvByColumns_eq_sortedRows (w : World) (inputCsv text : List Char)
    (hinput : w.files inputCsv = some text) {header : List (List Char)}
    {rows : List (List (List Char))} (hread : readText text = (header :: rows, none))
    (hlong : ∀ row ∈ rows, row.length ≤ header.length) (ints : DictRow → List Char → Int)
    (hints : ∀ row ∈ dictRows (header :: rows), ∀ col ∈ intColumns,
      ∃ s, row.fields.get? col = some (some s) ∧ intOfStr s = .ok (ints row col)) :
    sortCsvByColumns w inputCsv =
      ([.write inputCsv ((header :: (sorted (fun row => intColumns.map (ints row))
        (dictRows (header :: rows))).map fun row => sortedFields header row (ints row)).flatMap
          writeRow)], none) := by
  rw [List.flatMap_cons, List.flatMap_map,
    sortCsvByColumns_eq_writeSortedTable w inputCsv text hinput hread ints hints,
    writeSortedRows_map fun r hr => ?_]
  obtain ⟨r', hr', rfl⟩ := List.mem_map.mp (List.mem_mergeSort.mp hr)
  exact writeBack_writerow_convertedRow (hlong r' (List.mem_filter.mp hr').1)
    (hints _ (List.mem_mergeSort.mp hr))

theorem sortCsvByColumns_eq (w : World) (inputCsv text : List Char)
    (hinput : w.files inputCsv = some text) {header : List (List Char)}
    {rows : List (List (List Char))} (hread : readText text = (header :: rows, none))
    (hlong : ∀ row ∈ rows, row.length ≤ header.length) (ints : DictRow → List Char → Int)
    (hints : ∀ row ∈ dictRows (header :: rows), ∀ col ∈ intColumns,
      ∃ s, row.fields.get? col = some (some s) ∧ intOfStr s = .ok (ints row col)) :
    sortCsvByColumns w inputCsv =
      ([.write inputCsv (writeRow header ++
        (sorted (fun row => intColumns.map (ints row)) (dictRows (header :: rows))).flatMap
          fun row => writeRow (sortedFields header row (ints row)))], none) :=
  (sortCsvByColumns_eq_sortedRows w inputCsv text hinput hread hlong ints hints).trans
    (by rw [List.flatMap_cons, List.flatMap_map])

/-- The ints a row holds under the seven columns, where `int()` accepts them. -/
def parsedInts (row : DictRow) (col : List Char) : Int :=
  match row.fields.get? col with
  | some (some s) => (intOfStr s).toOption.getD 0
  | _ => 0

theorem parsedInts_of_intOfStr {row : DictRow} {col s : List Char} {n : Int}
    (h : row.fields.get? col = some (some s)) (hs : intOfStr s = .ok n) : parsedInts row col = n := by
  simp only [parsedInts, h, hs]
  rfl

theorem exists_of_parsedInts {row : DictRow} {col : List Char}
    (h : ((row.fields.get? col).join.map fun s => (intOfStr s).toOption) =
      some (some (parsedInts row col))) :
    ∃ s, row.fields.get? col = some (some s) ∧ intOfStr s = .ok (parsedInts row col) := by
  rcases hv : row.fields.get? col with _ | _ | s
  · rw [hv] at h
    cases h
  · rw [hv] at h
    cases h
  · rw [hv] at h
    have hs : (intOfStr s).toOption = some (parsedInts row col) := by simpa using h
    refine ⟨s, rfl, ?_⟩
    cases hn : intOfStr s with
    | error e => rw [hn] at hs; cases hs
    | ok n =>
      rw [hn] at hs
      cases hs
      rfl

/-- The header of `processedTable`. -/
def processedHeader : List (List Char) :=
  ["name", "max_num_public_inputs", "total_batch_size", "outer_batch_size", "inner_batch_size",
    "outer_degree_bits", "ubv_degree_bits", "keccak_degree_bits"].map String.toList

/-- Two rows in reverse order of `max_num_public_inputs`, one with spaces and a leading zero
in an int column. -/
def processedRows : List (List (List Char)) :=
  [["b", " 02 ", "8", "2", "4", "20", "21", "22"].map String.toList,
    ["a", "1", "8", "2", "4", "20", "21", "22"].map String.toList]

/-- A file system holding the table at `processed.csv`, as `csv.writer` writes it. -/
def processedTable : World :=
  ⟨fun path => if path = "processed.csv".toList then
    some ((processedHeader :: processedRows).flatMap writeRow) else none, []⟩

theorem sortCsvByColumns_eq_processed_table :
    sortCsvByColumns processedTable "processed.csv".toList =
      ([.write "processed.csv".toList (writeRow processedHeader ++
        (sorted (fun row => intColumns.map (parsedInts row))
          (dictRows (processedHeader :: processedRows))).flatMap
          fun row => writeRow (sortedFields processedHeader row (parsedInts row)))], none) :=
  sortCsvByColumns_eq processedTable "processed.csv".toList _ rfl
    (readText_flatMap_writeRow _ (by decide)) (by decide) parsedInts
    fun row hrow col hcol => exists_of_parsedInts (by revert row col; decide)

/-- A table read without error in which some row has, under one of the seven columns, no
field, `None`, or a string that `int()` rejects: `sort_csv_by_columns` raises before it opens
the file for writing, and the file is left as it was. -/
theorem sortCsvByColumns_bad_value (w : World) (inputCsv text : List Char)
    (hinput : w.files inputCsv = some text) (hread : (readText text).2 = none)
    {row : DictRow} (hrow : row ∈ dictRows (readText text).1) {col : List Char}
    (hcol : col ∈ intColumns) (hbad : ∀ s n, row.fields.get? col = some (some s) → intOfStr s ≠ .ok n) :
    ∃ e, sortCsvByColumns w inputCsv = ([], some e) := by
  obtain ⟨e, he⟩ := convertRow_ofDictRow_error hcol hbad
  obtain ⟨e', he'⟩ :=
    @mapM_except_error _ _ _ (fun row => convertRow (.ofDictRow row)) _ _ hrow _ he
  unfold sortCsvByColumns World.read
  rw [hinput]
  dsimp only
  rw [hread]
  dsimp only
  rw [he']
  exact ⟨e', rfl⟩

/-- A row whose `max_num_public_inputs` is not an int. -/
def badRow : List (List Char) :=
  ["c", "x", "8", "2", "4", "20", "21", "22"].map String.toList

/-- A file system holding a table with `badRow` at `processed.csv`. -/
def badTable : World :=
  ⟨fun path => if path = "processed.csv".toList then
    some ([processedHeader, badRow].flatMap writeRow) else none, []⟩

theorem sortCsvByColumns_bad_value_bad_table :
    ∃ e, sortCsvByColumns badTable "processed.csv".toList = ([], some e) :=
  have hread : readText ([processedHeader, badRow].flatMap writeRow) =
      ([processedHeader, badRow], none) :=
    readText_flatMap_writeRow _ (by decide)
  have hget : (dictRow processedHeader badRow).fields.get? "max_num_public_inputs".toList =
      some (some "x".toList) := by
    decide
  @sortCsvByColumns_bad_value badTable "processed.csv".toList _ rfl (by rw [hread])
    (dictRow processedHeader badRow) (by rw [hread]; decide) "max_num_public_inputs".toList
    (by decide) fun s n h => by
      rw [hget, Option.some.injEq, Option.some.injEq] at h
      subst h
      exact fun h => Except.noConfusion h

/-! ### A row longer than the header -/

/-- A row longer than the header costs the file its data: `sort_csv_by_columns` opens the file
for writing, and so truncates it, before `writerow` raises `ValueError` on the first such row
in sorted order (its extra fields stand under the key `None`). What the file keeps is the
header and the rows sorted before that one. -/
theorem sortCsvByColumns_long_row (w : World) (inputCsv text : List Char)
    (hinput : w.files inputCsv = some text) {header : List (List Char)}
    {rows : List (List (List Char))} (hread : readText text = (header :: rows, none))
    (ints : DictRow → List Char → Int)
    (hints : ∀ row ∈ dictRows (header :: rows), ∀ col ∈ intColumns,
      ∃ s, row.fields.get? col = some (some s) ∧ intOfStr s = .ok (ints row col))
    (hlong : ∃ row ∈ rows, header.length < row.length) :
    sortCsvByColumns w inputCsv =
      ([.write inputCsv (writeRow header ++
        ((sorted (fun row => intColumns.map (ints row)) (dictRows (header :: rows))).takeWhile
          fun row => row.rest.isNone).flatMap fun row => writeRow (sortedFields header row (ints row)))],
        some (.writerError .noneField)) := by
  have hgood : ∀ r ∈ sorted (fun row => intColumns.map (ints row)) (dictRows (header :: rows)),
      r.rest.isNone = true → ∃ row', writeBack (convertedRow r (ints r)) = .ok row' ∧
        writerow header row' = .ok (sortedFields header r (ints r)) := by
    intro r hr hrest
    obtain ⟨r', -, rfl⟩ := List.mem_map.mp (List.mem_mergeSort.mp hr)
    refine writeBack_writerow_convertedRow (Nat.not_lt.mp fun hlt => ?_)
      (hints _ (List.mem_mergeSort.mp hr))
    rw [dictRow, if_pos hlt] at hrest
    cases hrest
  have hbad : ∀ r ∈ sorted (fun row => intColumns.map (ints row)) (dictRows (header :: rows)),
      r.rest.isNone = false → ∃ row', writeBack (convertedRow r (ints r)) = .ok row' ∧
        writerow header row' = .error .noneField := by
    intro r _ hrest
    refine ⟨_, writeBack_convertedRow r (ints r), ?_⟩
    cases hr : r.rest with
    | none => rw [hr] at hrest; cases hrest
    | some extra => simp only [writerow, writtenRow, convertedRow, hr]
  have hex : ∃ r ∈ sorted (fun row => intColumns.map (ints row)) (dictRows (header :: rows)),
      r.rest.isNone = false := by
    obtain ⟨r, hr, hlt⟩ := hlong
    have hmem : dictRow header r ∈ dictRows (header :: rows) :=
      List.mem_map_of_mem _ (List.mem_filter.mpr ⟨hr, by
        simpa [List.isEmpty_iff] using List.ne_nil_of_length_pos (Nat.zero_lt_of_lt hlt)⟩)
    refine ⟨_, List.mem_mergeSort.mpr hmem, ?_⟩
    unfold dictRow
    rw [if_pos hlt]
    rfl
  rw [sortCsvByColumns_eq_writeSortedTable w inputCsv text hinput hread ints hints,
    writeSortedRows_map_of_error (fun row => row.rest.isNone) hgood hbad hex]

/-- `processedTable` with a row that has a ninth field, and sorts first. -/
def longRowTable : World :=
  ⟨fun path => if path = "processed.csv".toList then
    some ([processedHeader, ["b", "0", "8", "2", "4", "20", "21", "22", "x"].map String.toList,
      ["a", "1", "8", "2", "4", "20", "21", "22"].map String.toList].flatMap writeRow) else none,
    []⟩

theorem sortCsvByColumns_long_row_longRowTable :
    sortCsvByColumns longRowTable "processed.csv".toList =
      ([.write "processed.csv".toList (writeRow processedHeader ++
        ((sorted (fun row => intColumns.map (parsedInts row))
          (dictRows [processedHeader, ["b", "0", "8", "2", "4", "20", "21", "22", "x"].map String.toList,
            ["a", "1", "8", "2", "4", "20", "21", "22"].map String.toList])).takeWhile
          fun row => row.rest.isNone).flatMap
          fun row => writeRow (sortedFields processedHeader row (parsedInts row)))],
        some (.writerError .noneField)) :=
  sortCsvByColumns_long_row longRowTable "processed.csv".toList _ rfl
    (readText_flatMap_writeRow _ (by decide)) parsedInts
    (fun row hrow col hcol => exists_of_parsedInts (by revert row col; decide))
    ⟨_, List.mem_cons_self _ _, by decide⟩

/-! ### Sorting the sorted file -/

theorem plain_str {n : Nat} (h : (str n).length ≤ maxStrDigits) : Plain (str n) :=
  ⟨fun hr => by simpa using isDigit_of_mem_str hr, fun hn => by simpa using isDigit_of_mem_str hn,
    h.trans (by decide)⟩

theorem plain_strOfInt {n : Int} (h : (str n.natAbs).length ≤ maxStrDigits) :
    Plain (strOfInt n) := by
  unfold strOfInt
  split
  · obtain ⟨hr, hn, -⟩ := plain_str h
    refine ⟨by simpa using hr, by simpa using hn, ?_⟩
    have h4300 : (str n.natAbs).length ≤ 4300 := h
    simp only [List.length_cons, fieldLimit]
    omega
  · exact plain_str h

section SecondRun

variable {header : List (List Char)} {row : DictRow} {ints : List Char → Int}

/-- The row the sort writes for `row`, as `DictReader` reads it back. -/
theorem get?_dictRow_sortedFields {col : List Char} (hcol : col ∈ header) :
    (dictRow header (sortedFields header row ints)).fields.get? col =
      some (some (if col ∈ intColumns then strOfInt (ints col)
        else ((row.fields.get? col).join).getD [])) := by
  rw [sortedFields, get?_dictRow_map, if_pos hcol]

/-- The fields the sort writes for a row of fields without newlines hold none. -/
theorem plain_sortedFields (hrow : ValuesPlain row.fields)
    (hints : ∀ col ∈ intColumns, ∃ s, row.fields.get? col = some (some s) ∧
      intOfStr s = .ok (ints col)) :
    ∀ f ∈ sortedFields header row ints, Plain f := by
  simp only [sortedFields, List.forall_mem_map]
  intro col _
  split
  · obtain ⟨s, -, hint⟩ := hints col ‹_›
    exact plain_strOfInt (length_str_natAbs_of_intOfStr hint)
  · rcases h : row.fields.get? col with _ | _ | v
    · decide
    · decide
    · exact hrow col v h

variable (hkeys : ∀ k ∈ row.fields.keys, k ∈ header)
  (hints : ∀ col ∈ intColumns, ∃ s, row.fields.get? col = some (some s) ∧
    intOfStr s = .ok (ints col))
include hkeys hints

/-- Read back, the row the sort writes holds `str` of its ints under the seven columns, which
`int()` takes back to the ints. -/
theorem parsedInts_dictRow_sortedFields {col : List Char} (hcol : col ∈ intColumns) :
    ∃ s, (dictRow header (sortedFields header row ints)).fields.get? col = some (some s) ∧
      intOfStr s = .ok (ints col) := by
  obtain ⟨s, hs, hint⟩ := hints col hcol
  rw [get?_dictRow_sortedFields (hkeys col (Dict.mem_keys_of_get? hs)), if_pos hcol]
  exact ⟨_, rfl, intOfStr_strOfInt _ (length_str_natAbs_of_intOfStr hint)⟩

theorem parsedInts_dictRow_sortedFields_eq {col : List Char} (hcol : col ∈ intColumns) :
    parsedInts (dictRow header (sortedFields header row ints)) col = ints col := by
  obtain ⟨s, hs, hint⟩ := parsedInts_dictRow_sortedFields hkeys hints hcol
  exact parsedInts_of_intOfStr hs hint

/-- The sort writes a row it reads back from its own output as it wrote it. -/
theorem sortedFields_dictRow_sortedFields :
    sortedFields header (dictRow header (sortedFields header row ints))
      (parsedInts (dictRow header (sortedFields header row ints))) =
        sortedFields header row ints := by
  refine List.map_congr_left fun col hcol => ?_
  split
  · rw [parsedInts_dictRow_sortedFields_eq hkeys hints ‹_›]
  · rw [get?_dictRow_sortedFields hcol, if_neg ‹_›]
    rfl

end SecondRun

/-- `sort_csv_by_columns` is idempotent: run again on the file it has written, it writes the
same text, when no field of the table holds a newline. -/
theorem sortCsvByColumns_idempotent (w : World) (inputCsv text : List Char)
    (hinput : w.files inputCsv = some text) {header : List (List Char)}
    {rows : List (List (List Char))} (hread : readText text = (header :: rows, none))
    (hlong : ∀ row ∈ rows, row.length ≤ header.length) (ints : DictRow → List Char → Int)
    (hints : ∀ row ∈ dictRows (header :: rows), ∀ col ∈ intColumns,
      ∃ s, row.fields.get? col = some (some s) ∧ intOfStr s = .ok (ints row col))
    (hplain : ∀ r ∈ header :: rows, ∀ f ∈ r, Plain f) :
    sortCsvByColumns (w.run (sortCsvByColumns w inputCsv).1) inputCsv =
      sortCsvByColumns w inputCsv := by
  have hkeys : ∀ row ∈ dictRows (header :: rows), ∀ k ∈ row.fields.keys, k ∈ header := by
    intro row hrow k hk
    obtain ⟨r, -, rfl⟩ := List.mem_map.mp hrow
    exact mem_of_mem_keys_dictRow hk
  have hsorted : ∀ row ∈ sorted (fun row => intColumns.map (ints row)) (dictRows (header :: rows)),
      row ∈ dictRows (header :: rows) := fun _ => List.mem_mergeSort.mp
  -- the rows the first run writes are not blank: the header holds the seven columns
  have hne : ∀ row ∈ dictRows (header :: rows), sortedFields header row (ints row) ≠ [] := by
    intro row hrow
    obtain ⟨s, hs, -⟩ := hints row hrow _
      (List.mem_map_of_mem String.toList (List.mem_cons_self "max_num_public_inputs" _))
    exact List.ne_nil_of_mem (List.mem_map_of_mem _ (hkeys row hrow _ (Dict.mem_keys_of_get? hs)))
  have hplain' : ∀ r ∈ header :: (sorted (fun row => intColumns.map (ints row))
      (dictRows (header :: rows))).map (fun row => sortedFields header row (ints row)),
      ∀ f ∈ r, Plain f := by
    simp only [List.forall_mem_cons, List.forall_mem_map]
    exact ⟨hplain header (List.mem_cons_self _ _), fun row hrow => plain_sortedFields
      (valuesPlain_of_mem_dictRows hplain (hsorted row hrow)) (hints row (hsorted row hrow))⟩
  -- what `DictReader` yields from the file the first run wrote
  have hdict : dictRows (header :: (sorted (fun row => intColumns.map (ints row))
      (dictRows (header :: rows))).map (fun row => sortedFields header row (ints row))) =
        (sorted (fun row => intColumns.map (ints row)) (dictRows (header :: rows))).map
          fun row => dictRow header (sortedFields header row (ints row)) := by
    rw [dictRows_cons (List.forall_mem_map.mpr fun row hrow => hne row (hsorted row hrow)),
      List.map_map]
    rfl
  rw [sortCsvByColumns_eq_sortedRows w inputCsv text hinput hread hlong ints hints,
    sortCsvByColumns_eq_sortedRows _ inputCsv _ (by simp [World.apply])
      (readText_flatMap_writeRow _ hplain')
      (List.forall_mem_map.mpr fun _ _ => (List.length_map _ _).le) parsedInts ?_, hdict]
  · -- the second run finds the rows in order, and writes each as the first run did
    rw [@sorted_map _ (fun row => intColumns.map (ints row)) _
      (fun row => intColumns.map (parsedInts row))
      (fun row => dictRow header (sortedFields header row (ints row))) _ fun row hrow =>
        List.map_congr_left fun col hcol => parsedInts_dictRow_sortedFields_eq
          (hkeys row (hsorted row hrow)) (hints row (hsorted row hrow)) hcol,
      sorted_sorted, List.map_map]
    congr 5
    exact List.map_congr_left fun row hrow => sortedFields_dictRow_sortedFields
      (hkeys row (hsorted row hrow)) (hints row (hsorted row hrow))
  · rw [hdict]
    simp only [List.forall_mem_map]
    intro row hrow col hcol
    obtain ⟨s, hs, hint⟩ := parsedInts_dictRow_sortedFields (hkeys row (hsorted row hrow))
      (hints row (hsorted row hrow)) hcol
    exact ⟨s, hs, parsedInts_of_intOfStr hs hint ▸ hint⟩

theorem sortCsvByColumns_idempotent_processed_table :
    sortCsvByColumns
      (processedTable.run (sortCsvByColumns processedTable "processed.csv".toList).1)
      "processed.csv".toList = sortCsvByColumns processedTable "processed.csv".toList :=
  sortCsvByColumns_idempotent processedTable "processed.csv".toList _ rfl
    (readText_flatMap_writeRow _ (by decide)) (by decide) parsedInts
    (fun row hrow col hcol => exists_of_parsedInts (by revert row col; decide)) (by decide)

end UpaScripts.LogParsing
