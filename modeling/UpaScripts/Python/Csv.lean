import UpaScripts.Python.Io

/-!
# `UpaScripts.Python.Csv`: the `csv` module with the `excel` dialect

`write_to_csv` writes its rows with `csv.DictWriter`, and the later stages of the log
parser read them back with `csv.DictReader`, both with the default dialect: delimiter
`,`, quote character `"`, doubled quotes, line terminator `\r\n`, `QUOTE_MINIMAL`, no
escape character, `strict` off.

* `writeRow`: `writer.writerow(fields)`. A field is quoted when it holds the delimiter,
  the quote character or a character of the line terminator, and its quotes are doubled.
* `readRows`: the rows `csv.reader` yields from the lines of a file, following the
  parser of `_csv.c` one character at a time (`processChar`), with an end-of-line event
  after each line. A field longer than `fieldLimit` raises `_csv.Error`.
* `readText_flatMap_writeRow`: what the writer writes, the reader reads back, when no field
  holds a newline or is longer than the field limit (`Plain`). A field with `\r` or `\n`
  is quoted by the writer but cut into lines by the universal newlines of `open(path, 'r')`.
-/

set_option autoImplicit false

namespace UpaScripts.Python.Csv

/-! ### Writing -/

/-- A character that makes the writer quote a field: the delimiter, the quote character,
or a character of the line terminator. -/
def special (c : Char) : Bool :=
  c == ',' || c == '"' || c == '\r' || c == '\n'

/-- A field as the writer puts it in a record: quoted, with each quote doubled, when it
holds a special character, and as it is otherwise. -/
def writeField (field : List Char) : List Char :=
  if field.any special then
    '"' :: field.flatMap (fun c => if c = '"' then ['"', '"'] else [c]) ++ ['"']
  else field

/-- The fields of a record, each as `writeField` puts it, with `,` between them. -/
def joinFields : List (List Char) → List Char
  | [] => []
  | [field] => writeField field
  | field :: fields => writeField field ++ ',' :: joinFields fields

/-- A record as the writer puts it before the line terminator. A record that would come
out empty although it has a field, a single empty field, is written `""`. -/
def writeRecord (fields : List (List Char)) : List Char :=
  if joinFields fields = [] ∧ fields ≠ [] then ['"', '"'] else joinFields fields

/-- `writer.writerow(fields)`: the record and the line terminator `\r\n`. -/
def writeRow (fields : List (List Char)) : List Char :=
  writeRecord fields ++ ['\r', '\n']

/-! ### Reading -/

/-- The states of the parser of `_csv.c` that the `excel` dialect reaches. -/
inductive ParserState
  /-- Before a record. -/
  | startRecord
  /-- Before a field. -/
  | startField
  /-- In a field without quotes. -/
  | inField
  /-- In a quoted field. -/
  | inQuotedField
  /-- After a quote in a quoted field: the end of the field, or the first of two quotes. -/
  | quoteInQuotedField
  /-- After the `\r` or `\n` that ends a record, until the end of the line. -/
  | eatCrnl
deriving DecidableEq, Repr

/-- The reader between two characters: its state, the field it is reading and the fields
of the record so far. -/
structure Reader where
  state : ParserState
  field : List Char
  fields : List (List Char)
deriving DecidableEq, Repr

/-- `_csv.Error`, with its message. -/
inductive CsvError
  | error (msg : List Char)
deriving DecidableEq, Repr

/-- `csv.field_size_limit()` at its default. -/
def fieldLimit : Nat := 131072

/-- The reader at the start of a record. -/
def Reader.reset : Reader :=
  ⟨.startRecord, [], []⟩

/-- `parse_save_field`: the field ends. -/
def Reader.saveField (r : Reader) (state : ParserState) : Reader :=
  ⟨state, [], r.fields ++ [r.field]⟩

/-- `parse_add_char`: one more character in the field, unless the field is at the limit. -/
def Reader.addChar (r : Reader) (state : ParserState) (c : Char) : Except CsvError Reader :=
  if fieldLimit ≤ r.field.length then
    .error (.error "field larger than field limit (131072)".toList)
  else .ok ⟨state, r.field ++ [c], r.fields⟩

/-- The error of a character after the end of a record on the same line. -/
def newlineInUnquotedField : CsvError :=
  .error ("new-line character seen in unquoted field - " ++
    "do you need to open the file with newline=\x27\x27?").toList

/-- The `START_FIELD` case of `parse_process_char`; `none` is the end of a line. -/
def startField (r : Reader) : Option Char → Except CsvError Reader
  | none => .ok (r.saveField .startRecord)
  | some c =>
    if c = '\n' ∨ c = '\r' then .ok (r.saveField .eatCrnl)
    else if c = '"' then .ok { r with state := .inQuotedField }
    else if c = ',' then .ok (r.saveField .startField)
    else r.addChar .inField c

/-- `parse_process_char`: one character, or the end of a line (`none`). -/
def processChar (r : Reader) (c : Option Char) : Except CsvError Reader :=
  match r.state, c with
  | .startRecord, none => .ok r
  | .startRecord, some c =>
    if c = '\n' ∨ c = '\r' then .ok { r with state := .eatCrnl }
    else startField r (some c)
  | .startField, c => startField r c
  | .inField, none => .ok (r.saveField .startRecord)
  | .inField, some c =>
    if c = '\n' ∨ c = '\r' then .ok (r.saveField .eatCrnl)
    else if c = ',' then .ok (r.saveField .startField)
    else r.addChar .inField c
  | .inQuotedField, none => .ok r
  | .inQuotedField, some c =>
    if c = '"' then .ok { r with state := .quoteInQuotedField }
    else r.addChar .inQuotedField c
  | .quoteInQuotedField, none => .ok (r.saveField .startRecord)
  | .quoteInQuotedField, some c =>
    if c = '"' then r.addChar .inQuotedField c
    else if c = ',' then .ok (r.saveField .startField)
    else if c = '\n' ∨ c = '\r' then .ok (r.saveField .eatCrnl)
    else r.addChar .inField c
  | .eatCrnl, none => .ok { r with state := .startRecord }
  | .eatCrnl, some c =>
    if c = '\n' ∨ c = '\r' then .ok r else .error newlineInUnquotedField

/-- One line of the file: its characters, then the end of the line. -/
def processLine (r : Reader) (line : List Char) : Except CsvError Reader :=
  (line.map some ++ [none]).foldlM processChar r

/-- The rows `csv.reader` yields from the lines of a file, from the reader `r`, and the
`_csv.Error` that stops it, if one does: the rows before the error are yielded. A record
ends at the end of a line that leaves the parser before a record; at the end of the file
a field being read, or an open quoted field, ends the last record. -/
def readRows (r : Reader) : List (List Char) → List (List (List Char)) × Option CsvError
  | [] =>
    if r.field ≠ [] ∨ r.state = .inQuotedField then ([(r.saveField .startRecord).fields], none)
    else ([], none)
  | line :: lines =>
    match processLine r line with
    | .error e => ([], some e)
    | .ok r =>
      if r.state = .startRecord then
        let rest := readRows .reset lines
        (r.fields :: rest.1, rest.2)
      else readRows r lines

/-- `csv.reader(file)` for a file opened with `open(path, 'r')`: its rows, and the error
that ends them early, if any. -/
def readText (text : List Char) : List (List (List Char)) × Option CsvError :=
  readRows .reset (textLines text)

/-! ### The round trip -/

/-- A field the round trip keeps: no `\r` or `\n`, and within the field limit. -/
def Plain (field : List Char) : Prop :=
  '\r' ∉ field ∧ '\n' ∉ field ∧ field.length ≤ fieldLimit

instance (field : List Char) : Decidable (Plain field) :=
  inferInstanceAs (Decidable (_ ∧ _ ∧ _))

theorem foldlM_cons_ok {r : Reader} {c : Option Char} (r' : Reader) {cs : List (Option Char)}
    (h : processChar r c = .ok r') :
    (c :: cs).foldlM processChar r = cs.foldlM processChar r' := by
  simp [List.foldlM_cons, h]; rfl

theorem foldlM_append_ok {r r' : Reader} {xs : List (Option Char)} (ys : List (Option Char))
    (h : xs.foldlM processChar r = .ok r') :
    (xs ++ ys).foldlM processChar r = ys.foldlM processChar r' := by
  rw [List.foldlM_append, h]; rfl

/-- Characters that cannot end an unquoted field are added to it. -/
theorem foldlM_inField (fields : List (List Char)) (acc cs : List Char)
    (hcs : ∀ c ∈ cs, special c = false) (hlen : acc.length + cs.length ≤ fieldLimit) :
    (cs.map some).foldlM processChar ⟨.inField, acc, fields⟩ =
      .ok ⟨.inField, acc ++ cs, fields⟩ := by
  induction cs generalizing acc with
  | nil => simp; rfl
  | cons c cs ih =>
    have hc := hcs c (List.mem_cons_self c cs)
    simp only [special, Bool.or_eq_false_iff, beq_eq_false_iff_ne] at hc
    have hacc : acc.length < fieldLimit := by simp at hlen; omega
    rw [List.map_cons, foldlM_cons_ok ⟨.inField, acc ++ [c], fields⟩
      (by simp [processChar, Reader.addChar, hc.1.1.1, hc.1.1.2, hc.1.2, hc.2, hacc]),
      ih _ (fun c' h' => hcs c' (List.mem_cons_of_mem c h')) (by simp at hlen ⊢; omega)]
    simp

/-- The inside of a quoted field, with its quotes doubled, is added to the field. -/
theorem foldlM_inQuotedField (fields : List (List Char)) (acc cs : List Char)
    (hlen : acc.length + cs.length ≤ fieldLimit) :
    ((cs.flatMap fun c => if c = '"' then ['"', '"'] else [c]).map some).foldlM processChar
        ⟨.inQuotedField, acc, fields⟩ = .ok ⟨.inQuotedField, acc ++ cs, fields⟩ := by
  induction cs generalizing acc with
  | nil => simp; rfl
  | cons c cs ih =>
    have hacc : acc.length < fieldLimit := by simp at hlen; omega
    have hrest := ih (acc ++ [c]) (by simp at hlen ⊢; omega)
    rw [List.flatMap_cons, List.map_append, List.foldlM_append]
    by_cases hq : c = '"'
    · subst hq
      simp only [if_true, List.map_cons, List.map_nil]
      rw [foldlM_cons_ok ⟨.quoteInQuotedField, acc, fields⟩ (by simp [processChar]),
        foldlM_cons_ok ⟨.inQuotedField, acc ++ ['"'], fields⟩
          (by simp [processChar, Reader.addChar, hacc])]
      simpa using hrest
    · simp only [hq, if_false, List.map_cons, List.map_nil]
      rw [foldlM_cons_ok ⟨.inQuotedField, acc ++ [c], fields⟩
          (by simp [processChar, Reader.addChar, hq, hacc])]
      simpa using hrest

/-- The character after a field ends it: `,` starts the next field, `\n` the end of the
record. -/
theorem processChar_end (r : Reader) (hr : r.state = .inField ∨ r.state = .quoteInQuotedField)
    (t : Char) (ht : t = ',' ∨ t = '\n') :
    processChar r (some t) = .ok (r.saveField (if t = ',' then .startField else .eatCrnl)) := by
  rcases hr with hr | hr <;> rcases ht with rfl | rfl <;> simp [processChar, hr]

/-- A written field, then `,` or `\n`: the reader saves the field. -/
theorem foldlM_writeField (fields : List (List Char)) {f : List Char} (hf : Plain f) (t : Char)
    (ht : t = ',' ∨ t = '\n') :
    ((writeField f ++ [t]).map some).foldlM processChar ⟨.startField, [], fields⟩ =
      .ok ⟨if t = ',' then .startField else .eatCrnl, [], fields ++ [f]⟩ := by
  unfold writeField
  split
  · -- quoted: the opening quote, the inside, the closing quote
    simp only [List.cons_append, List.map_cons, List.append_assoc, List.singleton_append,
      List.map_append]
    rw [foldlM_cons_ok ⟨.inQuotedField, [], fields⟩ (by simp [processChar, startField]),
      foldlM_append_ok _ (foldlM_inQuotedField fields [] f (by simpa using hf.2.2))]
    simp only [List.nil_append, List.map_cons, List.map_nil]
    rw [foldlM_cons_ok ⟨.quoteInQuotedField, f, fields⟩ (by simp [processChar]),
      foldlM_cons_ok _ (processChar_end _ (.inr rfl) t ht)]
    rfl
  · rename_i hspecial
    have hcs : ∀ c ∈ f, special c = false := by simpa using hspecial
    cases f with
    | nil =>
      rcases ht with rfl | rfl <;> rfl
    | cons c cs =>
      have hc := hcs c (List.mem_cons_self c cs)
      simp only [special, Bool.or_eq_false_iff, beq_eq_false_iff_ne] at hc
      simp only [List.cons_append, List.map_cons, List.map_append]
      rw [foldlM_cons_ok ⟨.inField, [c], fields⟩
          (by simp [processChar, startField, Reader.addChar, hc.1.1.1, hc.1.1.2, hc.1.2, hc.2,
            fieldLimit]),
        foldlM_append_ok _ (foldlM_inField fields [c] cs
          (fun c' h' => hcs c' (List.mem_cons_of_mem c h'))
          (by have := hf.2.2; simp at this ⊢; omega))]
      simp only [List.map_cons, List.map_nil]
      rw [foldlM_cons_ok _ (processChar_end _ (.inl rfl) t ht)]
      rfl

/-- A written record, then `\n`: the reader saves every field and ends the record. -/
theorem foldlM_joinFields (acc : List (List Char)) {fields : List (List Char)}
    (hne : fields ≠ []) (hplain : ∀ f ∈ fields, Plain f) :
    ((joinFields fields ++ ['\n']).map some).foldlM processChar ⟨.startField, [], acc⟩ =
      .ok ⟨.eatCrnl, [], acc ++ fields⟩ := by
  induction fields using joinFields.induct generalizing acc with
  | case1 => exact absurd rfl hne
  | case2 f => exact foldlM_writeField acc (hplain f (List.mem_singleton_self f)) '\n' (.inr rfl)
  | case3 f fields hfields ih =>
    rw [joinFields.eq_3 _ _ hfields, List.append_assoc, List.cons_append, ← List.singleton_append,
      ← List.append_assoc, List.map_append,
      foldlM_append_ok _ (foldlM_writeField acc (hplain f (List.mem_cons_self f fields)) ',' (.inl rfl)),
      if_pos rfl, ih _ hfields fun f' hf' => hplain f' (List.mem_cons_of_mem f hf')]
    simp

/-- A character that is not a quote is in a written field only when it is in the field. -/
theorem not_mem_writeField {c : Char} {f : List Char} (hc : c ≠ '"') (h : c ∉ f) :
    c ∉ writeField f := by
  unfold writeField
  split
  · intro hm
    simp only [List.cons_append, List.mem_cons, List.mem_append, List.mem_flatMap,
      List.mem_singleton, List.not_mem_nil, or_false] at hm
    rcases hm with rfl | ⟨d, hd, hcd⟩ | rfl
    · exact hc rfl
    · split at hcd
      · simp at hcd; exact hc hcd
      · simp at hcd; exact h (hcd ▸ hd)
    · exact hc rfl
  · exact h

theorem not_mem_joinFields {c : Char} (hc : c ≠ '"' ∧ c ≠ ',') {fields : List (List Char)}
    (h : ∀ f ∈ fields, c ∉ f) : c ∉ joinFields fields := by
  induction fields using joinFields.induct with
  | case1 => simp [joinFields]
  | case2 f => exact not_mem_writeField hc.1 (h f (List.mem_singleton_self f))
  | case3 f fields hfields ih =>
    rw [joinFields.eq_3 _ _ hfields, List.mem_append, List.mem_cons, not_or, not_or]
    exact ⟨not_mem_writeField hc.1 (h f (List.mem_cons_self f fields)), hc.2,
      ih fun f' hf' => h f' (List.mem_cons_of_mem f hf')⟩

/-- A record of fields without newlines has none. -/
theorem not_mem_writeRecord {c : Char} (hc : c ≠ '"' ∧ c ≠ ',') {fields : List (List Char)}
    (h : ∀ f ∈ fields, c ∉ f) : c ∉ writeRecord fields := by
  unfold writeRecord
  split
  · simpa using hc.1
  · exact not_mem_joinFields hc h

/-- Only no field, or a single empty one, joins to nothing. -/
theorem joinFields_eq_nil {fields : List (List Char)} (h : joinFields fields = []) :
    fields = [] ∨ fields = [[]] := by
  induction fields using joinFields.induct with
  | case1 => exact .inl rfl
  | case2 f =>
    unfold joinFields writeField at h
    split at h
    · simp at h
    · exact .inr (h ▸ rfl)
  | case3 f fields hfields _ => simp [joinFields.eq_3 _ _ hfields] at h

/-- Before a record, a character other than a newline starts the first field. -/
theorem foldlM_startRecord {c : Char} (hc : c ≠ '\n' ∧ c ≠ '\r') (field : List Char)
    (fields : List (List Char)) (cs : List (Option Char)) :
    (some c :: cs).foldlM processChar ⟨.startRecord, field, fields⟩ =
      (some c :: cs).foldlM processChar ⟨.startField, field, fields⟩ := by
  have : processChar ⟨.startRecord, field, fields⟩ (some c) =
      processChar ⟨.startField, field, fields⟩ (some c) := by
    simp only [processChar, hc, or_self, if_false]
    simp [startField, Reader.saveField, Reader.addChar]
  simp only [List.foldlM_cons, this]

/-- A record as the writer puts it, read as one line: the reader gets its fields back. -/
theorem processLine_writeRecord {fields : List (List Char)} (hplain : ∀ f ∈ fields, Plain f) :
    processLine .reset (writeRecord fields ++ ['\n']) = .ok ⟨.startRecord, [], fields⟩ := by
  by_cases hj : joinFields fields = []
  · rcases joinFields_eq_nil hj with rfl | rfl <;> rfl
  · have hrec : writeRecord fields = joinFields fields := by simp [writeRecord, hj]
    obtain ⟨c, cs, hc⟩ := List.exists_cons_of_ne_nil hj
    have hcn : c ≠ '\n' ∧ c ≠ '\r' := by
      refine ⟨fun h => not_mem_joinFields (by decide) (fun f hf => (hplain f hf).2.1) ?_,
        fun h => not_mem_joinFields (by decide) (fun f hf => (hplain f hf).1) ?_⟩ <;>
        rw [hc, h] <;> exact List.mem_cons_self _ _
    have hfields : fields ≠ [] := by rintro rfl; exact hj rfl
    unfold processLine
    rw [hrec, hc, List.cons_append, List.map_cons, List.cons_append, Reader.reset,
      foldlM_startRecord hcn, ← List.cons_append, ← List.map_cons, ← List.cons_append, ← hc,
      foldlM_append_ok _ (foldlM_joinFields [] hfields hplain)]
    rfl


/-- A row as the writer puts it is one line of the file once read back: the record, then
`\n` for the line terminator. -/
theorem textLines_writeRow {fields : List (List Char)} (h : ∀ f ∈ fields, Plain f) :
    textLines (writeRow fields) = [writeRecord fields ++ ['\n']] := by
  have hr : '\r' ∉ writeRecord fields := not_mem_writeRecord (by decide) fun f hf => (h f hf).1
  have hn : '\n' ∉ writeRecord fields := not_mem_writeRecord (by decide) fun f hf => (h f hf).2.1
  unfold textLines writeRow
  rw [translateNewlines_append _ _ (fun hl => hr (List.mem_of_mem_getLast? hl)),
    translateNewlines_of_not_mem hr]
  exact splitLines_append_newline hn

/-- The lines of written records, read from the start of a record, give the records back. -/
theorem readRows_writeRecords {rows : List (List (List Char))}
    (h : ∀ row ∈ rows, ∀ f ∈ row, Plain f) :
    readRows .reset (rows.map fun row => writeRecord row ++ ['\n']) = (rows, none) := by
  induction rows with
  | nil => rfl
  | cons row rows ih =>
    simp only [List.map_cons, readRows, processLine_writeRecord (h row (List.mem_cons_self row rows)),
      ih fun row' hrow' => h row' (List.mem_cons_of_mem row hrow'), if_true]

/-- The round trip of the `excel` dialect: a file written row by row with `writerow`, read
with `csv.reader`, gives the rows back, when no field holds a newline or is longer than the
field limit. -/
theorem readText_flatMap_writeRow (rows : List (List (List Char)))
    (h : ∀ row ∈ rows, ∀ f ∈ row, Plain f) :
    readText (rows.flatMap writeRow) = (rows, none) := by
  rw [readText, textLines_flatMap _ _ fun row _ => .inr (by simp [writeRow]),
    List.flatMap_congr fun row hrow => textLines_writeRow (h row hrow), ← List.map_eq_flatMap]
  exact readRows_writeRecords h

example : readText (writeRow ["a,b".toList, "say \"hi\"".toList] ++ writeRow [[]]) =
    ([["a,b".toList, "say \"hi\"".toList], [[]]], none) := rfl

end UpaScripts.Python.Csv
