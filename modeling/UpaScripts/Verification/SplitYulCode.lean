import UpaScripts.Python.Io

/-!
# `UpaScripts.Verification.SplitYulCode`: `split_yul_code.py`

The script takes the Yul code that `snark-verifier` generates for `plonk_verifier`
and writes the creation code and the `Runtime` code to two files, each put back into
its own object. The model follows the three functions of the source:

* `findMatchingBrace`: the brace scan, a loop with a counter (`findMatchingBrace.go`).
* `extractCodeSections`: two object searches and two brace scans. The source repeats
  the same four steps for the two objects; `locateCodeSection` is one copy of them.
* `splitYulCode`: the effects of one run, from the files it can read. The input is read
  with `file.read()` in text mode (`World.readText`), so the extractor sees `\r\n` and a
  lone `\r` as `\n`.

The source's `(None, None)` is `none`. Offsets the source keeps as `int` after a
`-1` check are `Nat` here.
-/

set_option autoImplicit false

namespace UpaScripts.Verification

open UpaScripts.Python

/-- `find_matching_brace(text, start_pos)`: scan from `start_pos`, add one for each `{`
and take one away for each `}`, and return the position of the `}` that brings the count
back to zero, or `-1` when the text ends first. The count starts at zero at `start_pos`
itself. -/
def findMatchingBrace (text : List Char) (startPos : Nat) : Int :=
  go (text.drop startPos) startPos 0
where
  /-- The loop `for pos in range(start_pos, len(text))`, over the characters `rest` left
  from `pos` on, with the counter `openBraces`. -/
  go : List Char → Nat → Int → Int
    | [], _, _ => -1
    | c :: rest, pos, openBraces =>
      if c = '{' then go rest (pos + 1) (openBraces + 1)
      else if c = '}' then
        if openBraces - 1 = 0 then pos else go rest (pos + 1) (openBraces - 1)
      else go rest (pos + 1) openBraces

/-- The token that opens the creation object. -/
def creationObject : List Char :=
  "object \"plonk_verifier\" \x7b".toList

/-- The token that opens the `Runtime` object. -/
def runtimeObject : List Char :=
  "object \"Runtime\" \x7b".toList

/-- The token that opens a code block. -/
def codeToken : List Char :=
  "code \x7b".toList

/-- One object's half of `extract_code_sections`: find `objectToken` from `start`, then
`code {` from there, step over the four letters of `code`, and scan for the matching
brace from that position, the blank before the brace. The result is the pair of slice
bounds `(code_start, code_end)`; `none` at the first `-1`. -/
def locateCodeSection (yulCode objectToken : List Char) (start : Nat) :
    Option (Nat × Nat) :=
  let objectStart := find yulCode objectToken start
  if objectStart = -1 then none else
  let codeStart := find yulCode codeToken objectStart.toNat
  if codeStart = -1 then none else
  let codeStart := codeStart.toNat + "code".length
  let codeEnd := findMatchingBrace yulCode codeStart
  if codeEnd = -1 then none else some (codeStart, codeEnd.toNat)

/-- `extract_code_sections(yul_code)`: the creation code and the `Runtime` code, each the
stripped slice between its bounds. The `Runtime` object is searched from the end of the
creation code on. -/
def extractCodeSections (yulCode : List Char) : Option (List Char × List Char) := do
  let (creationCodeStart, creationCodeEnd) ← locateCodeSection yulCode creationObject 0
  let (runtimeCodeStart, runtimeCodeEnd) ←
    locateCodeSection yulCode runtimeObject creationCodeEnd
  pure (strip (slice yulCode creationCodeStart creationCodeEnd),
    strip (slice yulCode runtimeCodeStart runtimeCodeEnd))

/-- The f-strings `output_code1` and `output_code2`: a code section inside a `code`
block inside the object named `objectName`. -/
def outputCode (objectName code : List Char) : List Char :=
  "object \"".toList ++ objectName ++ "\" \x7b\n    code \x7b".toList ++ code ++
    "\n    \x7d\n\x7d".toList

/-- The text `split_yul_code` writes for the creation code: `output_code1` and the
closing brace the source adds. -/
def outputFile1 (creationCode : List Char) : List Char :=
  outputCode "plonk_verifier".toList creationCode ++ "\n\x7d".toList

/-- The text `split_yul_code` writes for the `Runtime` code: `output_code2` and the
closing brace the source adds. -/
def outputFile2 (runtimeCode : List Char) : List Char :=
  outputCode "Runtime".toList runtimeCode ++ "\n\x7d".toList

/-- The line printed when extraction fails. -/
def mismatchMessage : List Char :=
  "The Yul code structure does not match the expected pattern.".toList

/-- The line printed after both files are written. -/
def successMessage (outputFilename1 outputFilename2 : List Char) : List Char :=
  "Code sections successfully written to ".toList ++ outputFilename1 ++ " and ".toList ++
    outputFilename2 ++ ".".toList

/-- `split_yul_code(input_filename, output_filename1, output_filename2)`, as the effects
of one run on the world `w`: read the input, and either print the mismatch message, or
write the two files and print the success message. -/
def splitYulCode (w : World) (inputFilename outputFilename1 outputFilename2 : List Char) :
    Except OSError (List Effect) := do
  let yulCode ← w.readText inputFilename
  match extractCodeSections yulCode with
  | none => pure [.print mismatchMessage]
  | some (creationCode, runtimeCode) =>
    pure [.write outputFilename1 (outputFile1 creationCode),
      .write outputFilename2 (outputFile2 runtimeCode),
      .print (successMessage outputFilename1 outputFilename2)]

end UpaScripts.Verification
