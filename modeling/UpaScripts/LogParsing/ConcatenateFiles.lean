import UpaScripts.Python.Io

/-!
# `UpaScripts.LogParsing.ConcatenateFiles`: `concatenate_files.py`

The script joins benchmark logs into one file before `upa_log_parser.py` reads it.

* `concatenateFiles`: `concatenate_files(output_file, input_files)`, as the effects of one
  run: read every input in order, in text mode, then write their texts, joined, to the output
  file. `file.read()` is `World.readText`: `\r\n` and a lone `\r` come back as `\n`;
* `concatenateFilesMain`: the `__main__` block, from the whole `sys.argv`: the usage
  message and `sys.exit(1)` with fewer than two file names, otherwise the call and the
  closing message.
-/

set_option autoImplicit false

namespace UpaScripts.LogParsing

open UpaScripts.Python

/-- `concatenate_files(output_file, input_files)`: each input is opened and read in turn
into `concatenated_content`, and only then is the output file written. A missing input
raises before anything is written. -/
def concatenateFiles (w : World) (outputFile : List Char) (inputFiles : List (List Char)) :
    Except OSError (List Effect) := do
  let concatenatedContent ← inputFiles.foldlM
    (fun concatenatedContent filePath => (concatenatedContent ++ ·) <$> w.readText filePath) []
  pure [.write outputFile concatenatedContent]

/-- The usage line printed when `sys.argv` has fewer than three entries. -/
def usageMessage : List Char :=
  "Usage: python concatenate_files.py output_file.txt file1.txt file2.txt ...".toList

/-- The line printed after the output file is written. -/
def concatenatedMessage (outputFile : List Char) : List Char :=
  "Concatenated contents written to ".toList ++ outputFile

/-- The `__main__` block of `concatenate_files.py` on `sys.argv` (the script's name first):
with fewer than three entries it prints the usage line and exits with status 1; otherwise
it concatenates `sys.argv[2:]` into `sys.argv[1]` and prints where. -/
def concatenateFilesMain (w : World) (argv : List (List Char)) : List Effect × Termination :=
  match argv with
  | _ :: outputFile :: inputFiles@(_ :: _) =>
    match concatenateFiles w outputFile inputFiles with
    | .ok effects => (effects ++ [.print (concatenatedMessage outputFile)], .normal)
    | .error e => ([], .raised e)
  | _ => ([.print usageMessage], .exit 1)

end UpaScripts.LogParsing
