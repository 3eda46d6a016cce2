import UpaScripts.Proofs.ParseLogs
import UpaScripts.Proofs.ConcatenateFiles

/-!
# `UpaScripts.Proofs.LogPipeline`: parsing logs joined by `concatenate_files.py`

The benchmarks write one log per run; `concatenate_files.py` joins them and
`upa_log_parser.py` reads the joined file. `parseLogs_joinedText` says when this is the
same as parsing each log on its own: when every log ends with a newline and starts with
a `Begin` line (`BeginsSection`), `parse_logs` on the joined file returns the rows of the
logs one after the other, and raises exactly when one of them does.

The pieces: `textLines_flatMap` (the joined file yields the lines of each log in turn),
`sections_append` (a log that starts with a `Begin` line adds its sections after those of
the logs before it), and `parseLogs_append`, read on the closed form `parseLogs_eq`: the
first section that raises is in the first log that raises. `concatenate_files.py` reads each
log in text mode, and reading the joined file translates nothing more
(`textLines_translateNewlines`).

Without `BeginsSection` the lines a log has before its first `Begin` line join the last
section of the log before it. The example after `parseLogs_append` shows the effect: a
`Time:` line there closes an unfinished UBV section of the first log, and the joined file
has a row that neither log has.
-/

set_option autoImplicit false

namespace UpaScripts.LogParsing

open UpaScripts.Python

/-- The first line of the log, if any, is a `Begin` line. -/
def BeginsSection (lines : List (List Char)) : Prop :=
  ∀ line ∈ lines.head?, (beginOf (strip line)).isSome

instance (lines : List (List Char)) : Decidable (BeginsSection lines) :=
  match lines with
  | [] => isTrue nofun
  | line :: _ => decidable_of_iff ((beginOf (strip line)).isSome) (by simp [BeginsSection])

theorem sections_fst_eq_nil {lines : List (List Char)} (h : BeginsSection lines) :
    (sections (lines.map strip)).1 = [] := by
  cases lines with
  | nil => rfl
  | cons line lines =>
    obtain ⟨⟨name, config⟩, hb⟩ := Option.isSome_iff_exists.mp (h line rfl)
    simp [sections, hb]

theorem BeginsSection.append {L₁ L₂ : List (List Char)} (h₁ : BeginsSection L₁)
    (h₂ : BeginsSection L₂) : BeginsSection (L₁ ++ L₂) := by
  cases L₁ with
  | nil => exact h₂
  | cons line L₁ => exact h₁

/-- A log that starts with a `Begin` line adds its sections after those of the log before
it. -/
theorem sections_append (L₁ L₂ : List (List Char)) (h : (sections L₂).1 = []) :
    sections (L₁ ++ L₂) = ((sections L₁).1, (sections L₁).2 ++ (sections L₂).2) := by
  induction L₁ with
  | nil => exact Prod.ext h (List.nil_append _).symm
  | cons line L₁ ih =>
    rw [List.cons_append, sections_cons, sections_cons, ih]
    split <;> rfl

/-- Parsing two logs, the second starting with a `Begin` line, is parsing each in turn. -/
theorem parseLogs_append (L₁ L₂ : List (List Char)) (h : BeginsSection L₂) :
    parseLogs (L₁ ++ L₂) = (do
      let rows₁ ← parseLogs L₁
      let rows₂ ← parseLogs L₂
      pure (rows₁ ++ rows₂)) := by
  have hs := sections_append (L₁.map strip) (L₂.map strip) (sections_fst_eq_nil h)
  have hf : (sections ((L₁ ++ L₂).map strip)).2.findSome? Section.raises =
      ((sections (L₁.map strip)).2.findSome? Section.raises).or
        ((sections (L₂.map strip)).2.findSome? Section.raises) := by
    rw [List.map_append, hs, List.findSome?_append]
  have hr : expectedRows (L₁ ++ L₂) = expectedRows L₁ ++ expectedRows L₂ := by
    simp only [expectedRows, List.map_append, hs, List.filterMap_append]
  rw [parseLogs_eq, parseLogs_eq L₁, parseLogs_eq L₂, hf, hr]
  cases (sections (L₁.map strip)).2.findSome? Section.raises <;>
    cases (sections (L₂.map strip)).2.findSome? Section.raises <;> rfl

-- the second log has a preamble with a proving time: it closes the first log's UBV section
example :
    parseLogs ["Begin UBV with config a".toList] = .ok [] ∧
      parseLogs ["Time: 2s".toList, "Begin UBV with config b".toList, "Time: 3s".toList] =
        .ok [⟨.ubv, "b".toList, [], [], [], [], [], "3".toList, []⟩] ∧
      parseLogs ["Begin UBV with config a".toList, "Time: 2s".toList,
          "Begin UBV with config b".toList, "Time: 3s".toList] =
        .ok [⟨.ubv, "a".toList, [], [], [], [], [], "2".toList, []⟩,
          ⟨.ubv, "b".toList, [], [], [], [], [], "3".toList, []⟩] :=
  ⟨rfl, rfl, rfl⟩

theorem BeginsSection.flatMap {α : Type} {xs : List α} {f : α → List (List Char)}
    (h : ∀ x ∈ xs, BeginsSection (f x)) : BeginsSection (xs.flatMap f) := by
  induction xs with
  | nil => intro _ h; cases h
  | cons x xs ih =>
    exact (h x (List.mem_cons_self x xs)).append (ih fun x' hx' => h x' (List.mem_cons_of_mem x hx'))

theorem parseLogs_flatMap {α : Type} (xs : List α) (f : α → List (List Char))
    (h : ∀ x ∈ xs, BeginsSection (f x)) :
    parseLogs (xs.flatMap f) = (xs.mapM fun x => parseLogs (f x)).map List.flatten := by
  induction xs with
  | nil => rfl
  | cons x xs ih =>
    have hxs : ∀ x' ∈ xs, BeginsSection (f x') := fun x' hx' => h x' (List.mem_cons_of_mem x hx')
    rw [List.flatMap_cons, parseLogs_append _ _ (BeginsSection.flatMap hxs), ih hxs, List.mapM_cons]
    cases parseLogs (f x) <;> cases xs.mapM fun x => parseLogs (f x) <;> rfl

/-- `parse_logs` on the file `concatenate_files.py` joins from logs that each end with a
newline and start with a `Begin` line: the rows of the logs one after the other, or the
error of the first log that raises. -/
theorem parseLogs_joinedText (w : World) (paths : List (List Char))
    (hend : ∀ path ∈ paths,
      (w.files path).getD [] = [] ∨ ((w.files path).getD []).getLast? = some '\n')
    (hbegin : ∀ path ∈ paths, BeginsSection (textLines ((w.files path).getD []))) :
    parseLogs (textLines (joinedText w paths)) =
      (paths.mapM fun path => parseLogs (textLines ((w.files path).getD []))).map List.flatten := by
  -- each log, read with its newlines translated, still ends with a newline
  have hend' : ∀ path ∈ paths, translateNewlines ((w.files path).getD []) = [] ∨
      (translateNewlines ((w.files path).getD [])).getLast? = some '\n' := fun path hp =>
    (hend path hp).imp (fun h => by rw [h]; rfl) getLast?_translateNewlines
  rw [joinedText, textLines_flatMap _ _ hend']
  simp only [textLines_translateNewlines]
  exact parseLogs_flatMap _ _ hbegin

/-- Two logs of one section each, the second with Windows line ends. -/
def twoRuns : World :=
  ⟨fun path =>
    if path = "ubv.log".toList then some "Begin UBV with config a\nTime: 2s\n".toList
    else if path = "keccak.log".toList then
      some "Begin Keccak with config k\r\nTime: 3s\r\n".toList
    else none, []⟩

theorem parseLogs_joinedText_two_runs :
    parseLogs (textLines (joinedText twoRuns ["ubv.log".toList, "keccak.log".toList])) =
      .ok [⟨.ubv, "a".toList, [], [], [], [], [], "2".toList, []⟩,
        ⟨.keccak, "k".toList, [], [], [], [], [], "3".toList, []⟩] :=
  (parseLogs_joinedText twoRuns _ (by decide) (by decide)).trans rfl

end UpaScripts.LogParsing
