import UpaScripts.LogParsing.ConcatenateFiles

/-!
# `UpaScripts.Proofs.ConcatenateFiles`: what `concatenate_files.py` leaves behind

`concatenateFiles_eq` gives the closed form of one call: the first missing input raises
`FileNotFoundError` before anything is written; otherwise the output file is written once,
with the inputs' texts joined in order (`joinedText`), each as `read()` returns it in text
mode, its newlines translated. The loop that reads the inputs is `foldlM_read`.

`concatenateFilesMain_eq` is the script as a whole, from `sys.argv`: the usage path, the
failed read and the normal run. `concatenateFilesMain_files` is the normal run seen on the
files: the output holds the inputs' texts as they were before the run, also when the output
is one of the inputs, since every read comes before the write, and no other file changes.
-/

set_option autoImplicit false

namespace UpaScripts.LogParsing

open UpaScripts.Python

/-- The texts of `paths` as `read()` returns them, joined in order. -/
def joinedText (w : World) (paths : List (List Char)) : List Char :=
  paths.flatMap fun path => translateNewlines ((w.files path).getD [])

/-- The first of `paths` that does not exist. -/
def firstMissing (w : World) (paths : List (List Char)) : Option (List Char) :=
  paths.find? fun path => (w.files path).isNone

/-- The read loop of `concatenate_files`: it stops at the first missing input, and
otherwise appends every input's text to what it started with. -/
theorem foldlM_read (w : World) (paths : List (List Char)) (acc : List Char) :
    paths.foldlM (fun content path => (content ++ ·) <$> w.readText path) acc =
      match firstMissing w paths with
      | some path => .error (.fileNotFoundError path)
      | none => .ok (acc ++ joinedText w paths) := by
  induction paths generalizing acc with
  | nil => simp [firstMissing, joinedText]; rfl
  | cons path paths ih =>
    cases h : w.files path with
    | none =>
      rw [List.foldlM_cons, World.readText_of_files_eq_none h]
      simp [firstMissing, h]; rfl
    | some text =>
      rw [List.foldlM_cons, World.readText_of_files h]
      refine (ih (acc ++ translateNewlines text)).trans ?_
      simp [firstMissing, joinedText, h]

theorem concatenateFiles_eq (w : World) (outputFile : List Char)
    (inputFiles : List (List Char)) :
    concatenateFiles w outputFile inputFiles =
      match firstMissing w inputFiles with
      | some path => .error (.fileNotFoundError path)
      | none => .ok [.write outputFile (joinedText w inputFiles)] := by
  unfold concatenateFiles
  rw [foldlM_read]
  cases firstMissing w inputFiles <;> rfl

/-- `concatenate_files.py` run with `sys.argv = argv`: fewer than two file names print the
usage line and exit with status 1; a missing input raises `FileNotFoundError` with no
effect; otherwise the output is written with the inputs' texts, newlines translated, joined
in order, and the closing line is printed. -/
theorem concatenateFilesMain_eq (w : World) (argv : List (List Char)) :
    concatenateFilesMain w argv =
      if argv.length < 3 then ([.print usageMessage], .exit 1)
      else
        match firstMissing w (argv.drop 2) with
        | some path => ([], .raised (.fileNotFoundError path))
        | none =>
          ([.write (argv.getD 1 []) (joinedText w (argv.drop 2)),
            .print (concatenatedMessage (argv.getD 1 []))], .normal) := by
  match argv with
  | _ :: outputFile :: inputFile :: inputFiles =>
    simp only [concatenateFilesMain, concatenateFiles_eq, List.length_cons, List.drop_succ_cons,
      List.drop_zero, List.getD_cons_succ, List.getD_cons_zero]
    rw [if_neg (by omega)]
    cases firstMissing w (inputFile :: inputFiles) <;> rfl
  | [] | [_] | [_, _] => rfl

/-- A normal run of `concatenate_files.py`: when `sys.argv` names an output and at least one
input, and every input exists, the run ends normally, the output holds the inputs' texts
from before the run, newlines translated, joined in order, and every other file keeps its
text. -/
theorem concatenateFilesMain_files (w : World) (script outputFile : List Char)
    (inputFiles : List (List Char)) (hinputs : inputFiles ≠ [])
    (hexist : ∀ path ∈ inputFiles, (w.files path).isSome) :
    (concatenateFilesMain w (script :: outputFile :: inputFiles)).2 = .normal ∧
      ∀ path, (w.run (concatenateFilesMain w (script :: outputFile :: inputFiles)).1).files path =
        if path = outputFile then some (joinedText w inputFiles) else w.files path := by
  have hmissing : firstMissing w inputFiles = none := by
    simpa [firstMissing, Option.isNone_iff_eq_none, ← Option.isSome_iff_ne_none] using hexist
  obtain ⟨inputFile, inputFiles, rfl⟩ := List.exists_cons_of_ne_nil hinputs
  simp only [concatenateFilesMain, concatenateFiles_eq, hmissing]
  refine ⟨trivial, fun path => ?_⟩
  simp [World.apply]

/-- Two logs `a` and `b`, holding `x` with a Windows line end and `y` with an old Mac one. -/
def twoLogs : World :=
  ⟨fun path => if path = "a".toList then some "x\r\n".toList
    else if path = "b".toList then some "y\r".toList else none, []⟩

/-- Concatenating `a` and `b` into `a` itself: `a` receives the texts from before the run,
each line ended by `\n`. -/
theorem concatenateFilesMain_files_into_input :
    (twoLogs.run (concatenateFilesMain twoLogs
        ["concatenate_files.py".toList, "a".toList, "a".toList, "b".toList]).1).files "a".toList =
      some "x\ny\n".toList :=
  ((concatenateFilesMain_files twoLogs _ _ _ (by simp) (by decide)).2 _).trans (by decide)

end UpaScripts.LogParsing
