import UpaScripts.Python.Csv
import UpaScripts.Python.Dict

/-!
# `UpaScripts.Python.CsvDict`: `csv.DictWriter` and `csv.DictReader`

The log parser writes each of its tables with `DictWriter(file, fieldnames)`,
`writeheader()` and `writerow(row)`, and reads them back with `DictReader(file)`, all with
their defaults: `restval=''` and `extrasaction='raise'` for the writer; the first row as
the field names, `restkey=None` and `restval=None` for the reader.

* `dictToList`: the list `writerow` hands to `csv.writer`: the row's values in field-name
  order, `''` for a missing one, or `ValueError` when the row has a key that is not a field
  name. A value is given as the text `csv.writer` writes for it (`str(v)`, `''` for `None`).
* `writeDictRows`: the text of a table, written until a row raises.
* `dictRow`, `dictRows`: the dicts `DictReader` yields from the rows `csv.reader` reads;
  `dictRow_of_length`: a row as long as the header is `dict(zip(fieldnames, row))`, and
  `get?_dictRow_map`: a row whose field under each name is a function of the name reads back
  as that function.
* `ValuesPlain`: every value of a row is a field the round trip keeps;
  `valuesPlain_of_mem_dictRows`: so are those of every row read from such fields.
-/

set_option autoImplicit false

namespace UpaScripts.Python.Csv

/-! ### `DictWriter` -/

/-- The `ValueError` `writerow` raises for a row with keys that are not field names:
`dict contains fields not in fieldnames: ` and those keys. The message lists them in the
order of a set difference, which the model leaves unspecified. -/
inductive WriterError
  | wrongFields (keys : List (List Char))
  /-- The same for a row that `DictReader` read longer than its header: its extra fields
  stand under the key `None` (`restkey`), and the message ends in `None`. -/
  | noneField
deriving DecidableEq, Repr

/-- `DictWriter._dict_to_list` with `extrasaction='raise'` and `restval=''`. -/
def dictToList (fieldnames : List (List Char)) (rowdict : Dict (List Char) (List Char)) :
    Except WriterError (List (List Char)) :=
  match rowdict.keys.filter (· ∉ fieldnames) with
  | [] => .ok (fieldnames.map fun key => (rowdict.get? key).getD [])
  | wrongFields => .error (.wrongFields wrongFields)

/-- `dict(zip(fieldnames, fieldnames))`, the row `writeheader` writes. -/
def headerDict (fieldnames : List (List Char)) : Dict (List Char) (List Char) :=
  Dict.ofList (fieldnames.zip fieldnames)

/-- The text `writerow` writes for each of `rows`, up to the first that raises, and its
error. -/
def writeDictRows (fieldnames : List (List Char)) :
    List (Dict (List Char) (List Char)) → List Char × Option WriterError
  | [] => ([], none)
  | row :: rows =>
    match dictToList fieldnames row with
    | .error e => ([], some e)
    | .ok fields =>
      let rest := writeDictRows fieldnames rows
      (writeRow fields ++ rest.1, rest.2)

/-- A `DictWriter` table: `writeheader()`, then `writerow(row)` for each row. -/
def writeTable (fieldnames : List (List Char)) (data : List (Dict (List Char) (List Char))) :
    List Char × Option WriterError :=
  writeDictRows fieldnames (headerDict fieldnames :: data)

theorem dictToList_of_keys {fieldnames : List (List Char)} {rowdict : Dict (List Char) (List Char)}
    (h : ∀ k ∈ rowdict.keys, k ∈ fieldnames) :
    dictToList fieldnames rowdict = .ok (fieldnames.map fun key => (rowdict.get? key).getD []) := by
  rw [dictToList, List.filter_eq_nil_iff.mpr (by simpa using h)]

/-- Rows whose keys are all field names are all written. -/
theorem writeDictRows_of_keys {fieldnames : List (List Char)}
    {rows : List (Dict (List Char) (List Char))}
    (h : ∀ row ∈ rows, ∀ k ∈ row.keys, k ∈ fieldnames) :
    writeDictRows fieldnames rows =
      (rows.flatMap fun row => writeRow (fieldnames.map fun key => (row.get? key).getD []),
        none) := by
  induction rows with
  | nil => rfl
  | cons row rows ih =>
    simp only [writeDictRows, dictToList_of_keys (h row (List.mem_cons_self row rows)),
      ih fun row' hrow' => h row' (List.mem_cons_of_mem row hrow'), List.flatMap_cons]

/-- Each key set so far, and only those, maps to itself. -/
theorem get?_foldl_set_self (l seen : List (List Char)) (d : Dict (List Char) (List Char))
    (hd : ∀ k, d.get? k = if k ∈ seen then some k else none) (k : List Char) :
    ((l.zip l).foldl (fun d p => d.set p.1 p.2) d).get? k =
      if k ∈ seen ++ l then some k else none := by
  induction l generalizing seen d with
  | nil => simp [hd]
  | cons x l ih =>
    rw [List.zip_cons_cons, List.foldl_cons, ih (seen ++ [x]), List.append_assoc]
    · rfl
    · intro k'
      rw [Dict.get?_set, hd]
      by_cases hk : k' = x <;> simp [hk]

theorem get?_headerDict (fieldnames : List (List Char)) (k : List Char) :
    (headerDict fieldnames).get? k = if k ∈ fieldnames then some k else none :=
  get?_foldl_set_self fieldnames [] Dict.empty (fun _ => rfl) k

theorem keys_headerDict {fieldnames : List (List Char)} {k : List Char}
    (hk : k ∈ (headerDict fieldnames).keys) : k ∈ fieldnames := by
  by_contra h
  have := Dict.get?_eq_none_iff.mp (by rw [get?_headerDict, if_neg h])
  exact this hk

/-- `writeheader()` writes the field names. -/
theorem dictToList_headerDict (fieldnames : List (List Char)) :
    dictToList fieldnames (headerDict fieldnames) = .ok fieldnames := by
  rw [dictToList_of_keys fun k hk => keys_headerDict hk]
  congr 1
  conv_rhs => rw [← List.map_id fieldnames]
  exact List.map_congr_left fun k hk => by simp [get?_headerDict, hk]

/-- A table whose rows have only field names as keys: the header, then each row's values in
field-name order. -/
theorem writeTable_of_keys {fieldnames : List (List Char)}
    {data : List (Dict (List Char) (List Char))}
    (h : ∀ row ∈ data, ∀ k ∈ row.keys, k ∈ fieldnames) :
    writeTable fieldnames data =
      (writeRow fieldnames ++
        data.flatMap fun row => writeRow (fieldnames.map fun key => (row.get? key).getD []),
        none) := by
  simp only [writeTable, writeDictRows, dictToList_headerDict, writeDictRows_of_keys h]

/-! ### `DictReader` -/

/-- A row `DictReader` yields: the fields under the header's names, `none` (`restval`)
under the names the row is too short for; and, when the row is longer than the header,
the fields past it, which `DictReader` puts under the key `None` (`restkey`). -/
structure DictRow where
  fields : Dict (List Char) (Option (List Char))
  rest : Option (List (List Char))
deriving DecidableEq, Repr

/-- The dict `DictReader.__next__` makes of a row. -/
def dictRow (fieldnames row : List (List Char)) : DictRow :=
  let d := Dict.ofList (fieldnames.zip (row.map some))
  if fieldnames.length < row.length then ⟨d, some (row.drop fieldnames.length)⟩
  else ⟨(fieldnames.drop row.length).foldl (fun d key => d.set key none) d, none⟩

/-- The dicts `DictReader` yields from the rows `csv.reader` reads: the first row names
the fields, and every later row that is not empty gives a dict. -/
def dictRows : List (List (List Char)) → List DictRow
  | [] => []
  | fieldnames :: rows => (rows.filter fun row => !row.isEmpty).map (dictRow fieldnames)

/-- The keys of a dict `DictReader` yields are field names. -/
theorem mem_of_mem_keys_dictRow {fieldnames row : List (List Char)} {k : List Char}
    (hk : k ∈ (dictRow fieldnames row).fields.keys) : k ∈ fieldnames := by
  have hzip : ∀ {k}, k ∈ (Dict.empty : Dict (List Char) (Option (List Char))).keys ∨
      k ∈ (fieldnames.zip (row.map some)).map Prod.fst → k ∈ fieldnames := by
    rintro k (h | h)
    · exact absurd h (List.not_mem_nil k)
    · obtain ⟨p, hp, rfl⟩ := List.mem_map.mp h
      exact (List.of_mem_zip hp).1
  unfold dictRow at hk
  split at hk
  · exact hzip (Dict.mem_keys_foldl_set _ Prod.fst Prod.snd _ hk)
  · rcases Dict.mem_keys_foldl_set _ id (fun _ => none) _ hk with h | h
    · exact hzip (Dict.mem_keys_foldl_set _ Prod.fst Prod.snd _ h)
    · exact List.mem_of_mem_drop (by simpa using h)

theorem mem_map_fst_zip {α β : Type} {l₁ : List α} {l₂ : List β} {k : α}
    (hk : k ∈ l₁.take l₂.length) : k ∈ (l₁.zip l₂).map Prod.fst := by
  induction l₁ generalizing l₂ with
  | nil => simp at hk
  | cons a l₁ ih =>
    cases l₂ with
    | nil => simp at hk
    | cons b l₂ =>
      simp only [List.length_cons, List.take_succ_cons, List.mem_cons] at hk
      rcases hk with rfl | hk
      · exact List.mem_cons_self _ _
      · exact List.mem_cons_of_mem _ (ih hk)

/-- Every field name is a key of each dict `DictReader` yields, a short row's too. -/
theorem mem_keys_dictRow {fieldnames row : List (List Char)} {k : List Char}
    (hk : k ∈ fieldnames) : k ∈ (dictRow fieldnames row).fields.keys := by
  have hzip : k ∈ fieldnames.take row.length →
      k ∈ (Dict.ofList (fieldnames.zip (row.map some))).keys := fun h =>
    Dict.mem_keys_foldl_set_of_mem _ Prod.fst Prod.snd _
      (.inr (mem_map_fst_zip (by simpa using h)))
  unfold dictRow
  split
  · exact hzip (by rw [List.take_of_length_le (by omega)]; exact hk)
  · rw [← List.take_append_drop row.length fieldnames] at hk
    rcases List.mem_append.mp hk with h | h
    · exact Dict.mem_keys_foldl_set_of_mem _ id (fun _ => none) _ (.inl (hzip h))
    · exact Dict.mem_keys_foldl_set_of_mem _ id (fun _ => none) _ (.inr (by simpa using h))

/-- A value of a dict `DictReader` yields, other than `None`, is a field of its row. -/
theorem mem_of_get?_dictRow {fieldnames row : List (List Char)} {k v : List Char}
    (h : (dictRow fieldnames row).fields.get? k = some (some v)) : v ∈ row := by
  have hzip : (Dict.ofList (fieldnames.zip (row.map some))).get? k = some (some v) → v ∈ row := by
    intro h
    rw [Dict.ofList, Dict.get?_foldl_set_getLast Prod.fst Prod.snd, Dict.get?_empty,
      Option.or_none] at h
    obtain ⟨p, hp, hpv⟩ := Option.map_eq_some'.mp h
    have hmem := (List.of_mem_zip (List.mem_of_mem_filter (List.mem_of_getLast?_eq_some hp))).2
    rw [hpv] at hmem
    simpa using hmem
  unfold dictRow at h
  split at h
  · exact hzip h
  · rw [Dict.get?_foldl_set _ fun _ => none] at h
    split at h
    · cases h
    · exact hzip h

/-- A row as long as the header: the dict of the header's names to its fields. -/
theorem dictRow_of_length {fieldnames row : List (List Char)}
    (hlen : row.length = fieldnames.length) :
    dictRow fieldnames row = ⟨Dict.ofList (fieldnames.zip (row.map some)), none⟩ := by
  simp [dictRow, hlen]

/-- A row whose field under each name is a function of the name reads back as that function,
whether or not a name repeats. -/
theorem get?_dictRow_map (fieldnames : List (List Char)) (g : List Char → List Char)
    (k : List Char) :
    (dictRow fieldnames (fieldnames.map g)).fields.get? k =
      if k ∈ fieldnames then some (some (g k)) else none := by
  have hzip : ∀ ks : List (List Char),
      ks.zip ((ks.map g).map some) = ks.map fun k => (k, some (g k)) := by
    intro ks
    induction ks with
    | nil => rfl
    | cons k ks ih => simp only [List.map_cons, List.zip_cons_cons, ih]
  rw [dictRow_of_length (List.length_map _ _), hzip, Dict.ofList, List.foldl_map,
    Dict.get?_foldl_set _ (fun k => some (g k)), Dict.get?_empty]
  congr

/-- The fields of a row as long as the header, read back under the header's names. -/
theorem map_get?_dictRow {fieldnames row : List (List Char)} (hnodup : fieldnames.Nodup)
    (hlen : row.length = fieldnames.length) :
    fieldnames.map (fun k => (((dictRow fieldnames row).fields.get? k).join).getD []) = row := by
  have hkeys : (fieldnames.zip (row.map some)).map Prod.fst = fieldnames :=
    List.map_fst_zip _ _ (by simp [hlen])
  have hvalues := @Dict.map_lookup_zip _ _ _ fieldnames (row.map some) hnodup (by simpa using hlen)
    none
  have hjoin : ∀ o : Option (Option (List Char)), o.join.getD [] = (o.getD none).getD [] := by
    intro o; cases o <;> rfl
  have hcells := congrArg (List.map fun v => v.getD []) hvalues
  simp only [List.map_map, Function.comp_def, Option.getD_some, List.map_id'] at hcells
  rw [dictRow_of_length hlen]
  simpa only [Dict.get?_ofList_of_nodup (hkeys ▸ hnodup), hjoin] using hcells

/-- Without empty rows, `DictReader` yields one dict for each row after the header. -/
theorem dictRows_cons {fieldnames : List (List Char)} {rows : List (List (List Char))}
    (h : ∀ row ∈ rows, row ≠ []) : dictRows (fieldnames :: rows) = rows.map (dictRow fieldnames) := by
  rw [dictRows, List.filter_eq_self.mpr fun row hrow => by simpa using h row hrow]

/-! ### Fields the round trip keeps -/

/-- Every value of a dict is a field `csv` writes and reads back. -/
def ValuesPlain (d : Dict (List Char) (Option (List Char))) : Prop :=
  ∀ k v, d.get? k = some (some v) → Plain v

theorem valuesPlain_empty : ValuesPlain Dict.empty :=
  fun _ _ h => by cases h

/-- The rows `DictReader` reads from fields without newlines have values without newlines. -/
theorem valuesPlain_of_mem_dictRows {table : List (List (List Char))}
    (hplain : ∀ r ∈ table, ∀ f ∈ r, Plain f) {row : DictRow} (hrow : row ∈ dictRows table) :
    ValuesPlain row.fields := by
  cases table with
  | nil => cases hrow
  | cons header rows =>
    obtain ⟨r, hr, rfl⟩ := List.mem_map.mp hrow
    exact fun _ v hv => hplain r (List.mem_cons_of_mem _ (List.mem_of_mem_filter hr)) v
      (mem_of_get?_dictRow hv)

end UpaScripts.Python.Csv
