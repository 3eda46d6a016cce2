import UpaScripts.Python.Str

/-!
# `UpaScripts.Python.Io`: what a script does outside itself

The scripts read whole files, write whole files and print. A script's run is modelled
as the list of `Effect`s it performs, in order, computed from the files it reads; the
files a run leaves behind are `World.run` of that list. Reading the input is the only
way a run fails: `open(path, 'r')` on a missing file raises `FileNotFoundError`. The
model's file system accepts every write, so a run that reads all it needs has no
later failure, and a failed read performs no effect.

A file is opened in text mode. `World.read` is the text the file holds; reading it in text
mode translates its newlines, as `universal newlines` do: `read()` is `World.readText`, and
`for line in file` is `textLines`. The scripts run where `os.linesep` is `\n`, so writing in
text mode translates nothing and a write puts its text into the file as it is.

* `World.run_append`: running two effect lists one after the other.
* `World.files_run_of_not_written`: a file no effect writes keeps its text (the frame
  lemma the scripts' run theorems use).
* `World.files_run_of_mem_written`: a file the effects write has a text that does not
  depend on the world before them; what lets a later call read what an earlier one wrote.

`RaisesOrWrites path r` says that a call never leaves `path` half written: it raises before
it writes anything, or it writes `path` once and returns.
-/

set_option autoImplicit false

namespace UpaScripts.Python

/-- One thing a script does to the world outside it. -/
inductive Effect
  /-- `open(path, 'w').write(text)`: the file `path` now holds `text`, with a `\n` line
  separator. -/
  | write (path text : List Char)
  /-- `print(line)`: `line` goes to standard output. -/
  | print (line : List Char)
deriving DecidableEq, Repr

/-- The `OSError` a script can meet here: a file it opens for reading does not exist. -/
inductive OSError
  | fileNotFoundError (path : List Char)
deriving DecidableEq, Repr

/-- How a run of a script ends. -/
inductive Termination
  /-- The script returns. -/
  | normal
  /-- `sys.exit(code)`. -/
  | exit (code : Nat)
  /-- An `OSError` that nothing catches. -/
  | raised (e : OSError)
deriving DecidableEq, Repr

/-- A call that raises before it writes anything, or writes `path` once and returns. -/
def RaisesOrWrites {ε : Type} (path : List Char) (r : List Effect × Option ε) : Prop :=
  (r.1 = [] ∧ r.2 ≠ none) ∨ ∃ text, r = ([.write path text], none)

/-- The outside world of a script: the text of each file that exists, and the lines
printed so far, oldest first. -/
structure World where
  files : List Char → Option (List Char)
  stdout : List (List Char)

namespace World

/-- `open(path, 'r')`: the text the file holds, before a text-mode read translates its
newlines. -/
def read (w : World) (path : List Char) : Except OSError (List Char) :=
  match w.files path with
  | some text => .ok text
  | none => .error (.fileNotFoundError path)

/-- The world after one effect. -/
def apply (w : World) : Effect → World
  | .write path text =>
    { w with files := fun p => if p = path then some text else w.files p }
  | .print line => { w with stdout := w.stdout ++ [line] }

/-- The world after a list of effects, in order. -/
def run (w : World) (es : List Effect) : World :=
  es.foldl apply w

/-- The files an effect list writes. -/
def written (es : List Effect) : List (List Char) :=
  es.filterMap fun
    | .write path _ => some path
    | .print _ => none

@[simp] theorem run_nil (w : World) : w.run [] = w := rfl

@[simp] theorem run_cons (w : World) (e : Effect) (es : List Effect) :
    w.run (e :: es) = (w.apply e).run es := rfl

theorem run_append (w : World) (es fs : List Effect) :
    w.run (es ++ fs) = (w.run es).run fs := by
  simp [run, List.foldl_append]

theorem read_eq_ok_iff (w : World) (path text : List Char) :
    w.read path = .ok text ↔ w.files path = some text := by
  unfold read
  split <;> simp_all

/-- A read sees the world only through the file it opens. -/
theorem read_congr {w w' : World} {path : List Char} (h : w.files path = w'.files path) :
    w.read path = w'.read path := by
  simp only [read, h]

/-- A file that no effect of the list writes keeps its text. -/
theorem files_run_of_not_written (w : World) (es : List Effect) (p : List Char)
    (h : p ∉ written es) : (w.run es).files p = w.files p := by
  induction es generalizing w with
  | nil => rfl
  | cons e es ih =>
    cases e with
    | write path text =>
      simp only [written, List.filterMap_cons, List.mem_cons, not_or] at h
      simp only [run_cons, ih _ h.2, apply, if_neg h.1]
    | print line => exact ih _ (by simpa [written] using h)

/-- The last write of a file decides its text. -/
theorem files_run_write_of_not_written (w : World) (path text : List Char)
    (es : List Effect) (h : path ∉ written es) :
    (w.run (.write path text :: es)).files path = some text := by
  rw [run_cons, files_run_of_not_written _ _ _ h]
  simp [apply]

@[simp] theorem written_append (es fs : List Effect) :
    written (es ++ fs) = written es ++ written fs :=
  List.filterMap_append _ _ _

/-- Two worlds that agree on a file agree on it after the same effects. -/
theorem files_run_congr {w w' : World} {p : List Char} (h : w.files p = w'.files p)
    (es : List Effect) : (w.run es).files p = (w'.run es).files p := by
  induction es generalizing w w' with
  | nil => exact h
  | cons e es ih =>
    refine ih ?_
    cases e with
    | write path text => by_cases hp : p = path <;> simp [apply, hp, h]
    | print line => exact h

/-- Effects that write a file leave it with a text that does not depend on the world they
ran on. -/
theorem files_run_of_mem_written (w w' : World) {p : List Char} {es : List Effect}
    (h : p ∈ written es) : (w.run es).files p = (w'.run es).files p := by
  induction es generalizing w w' with
  | nil => exact absurd h (List.not_mem_nil p)
  | cons e es ih =>
    by_cases hes : p ∈ written es
    · exact ih _ _ hes
    simp only [written, List.filterMap_cons] at h
    cases e with
    | write path text =>
      obtain rfl : p = path := (List.mem_cons.mp h).resolve_right hes
      exact files_run_congr (by simp [apply]) es
    | print line => exact absurd h hes

end World

/-! ### Reading a text file line by line -/

/-- Universal newlines, as a file opened with `open(path, 'r')` reads: `\r\n` and a lone
`\r` become `\n`. -/
def translateNewlines : List Char → List Char
  | '\r' :: '\n' :: s => '\n' :: translateNewlines s
  | '\r' :: s => '\n' :: translateNewlines s
  | c :: s => c :: translateNewlines s
  | [] => []

/-- `open(path, 'r').read()`: the whole file, its newlines translated. -/
def World.readText (w : World) (path : List Char) : Except OSError (List Char) :=
  translateNewlines <$> w.read path

theorem World.readText_of_files {w : World} {path text : List Char}
    (h : w.files path = some text) : w.readText path = .ok (translateNewlines text) := by
  simp [World.readText, (World.read_eq_ok_iff w path text).mpr h, Functor.map, Except.map]

theorem World.readText_of_files_eq_none {w : World} {path : List Char}
    (h : w.files path = none) : w.readText path = .error (.fileNotFoundError path) := by
  simp [World.readText, World.read, h, Functor.map, Except.map]

/-- The lines of a text, each with its `\n`; the last one has none when the text does not
end with a newline. -/
def splitLines : List Char → List (List Char)
  | [] => []
  | c :: s =>
    if c = '\n' then [c] :: splitLines s
    else match splitLines s with
      | [] => [[c]]
      | line :: lines => (c :: line) :: lines

/-- The lines `for line in file` yields from a file that holds `text`. -/
def textLines (text : List Char) : List (List Char) :=
  splitLines (translateNewlines text)

/-- Translation works piece by piece, unless a `\r` ends the first piece. -/
theorem translateNewlines_append (t₁ t₂ : List Char) (h : t₁.getLast? ≠ some '\r') :
    translateNewlines (t₁ ++ t₂) = translateNewlines t₁ ++ translateNewlines t₂ := by
  induction t₁ using translateNewlines.induct with
  | case1 s ih =>
    have h' : s.getLast? ≠ some '\r' := fun hs => h (by simp [List.getLast?_cons, hs])
    simp [translateNewlines, ih h']
  | case2 s hs ih =>
    have h' : s.getLast? ≠ some '\r' := fun hs' => h (by simp [List.getLast?_cons, hs'])
    obtain ⟨d, s, rfl⟩ := List.exists_cons_of_ne_nil (by rintro rfl; simp at h : s ≠ [])
    have hd : d ≠ '\n' := fun hd => hs s (hd ▸ rfl)
    rw [List.cons_append, translateNewlines.eq_2 _ (by simpa using hd), translateNewlines.eq_2 _ hs,
      ih h', List.cons_append]
  | case3 c s _ hr ih =>
    have h' : s.getLast? ≠ some '\r' := fun hs' => h (by simp [List.getLast?_cons, hs'])
    rw [List.cons_append, translateNewlines.eq_3 c _ (fun _ hc => absurd hc hr) hr, ih h',
      translateNewlines.eq_3 c s (fun _ hc => absurd hc hr) hr, List.cons_append]
  | case4 => rfl

theorem getLast?_translateNewlines {t : List Char} (h : t.getLast? = some '\n') :
    (translateNewlines t).getLast? = some '\n' := by
  induction t using translateNewlines.induct with
  | case1 s ih =>
    rw [translateNewlines]
    cases s with
    | nil => rfl
    | cons d s => simp_all [List.getLast?_cons]
  | case2 s hs ih =>
    rw [translateNewlines.eq_2 _ hs]
    cases s with
    | nil => simp at h
    | cons d s =>
      have := ih (by simpa [List.getLast?_cons] using h)
      simp [List.getLast?_cons, this]
  | case3 c s hc hr ih =>
    rw [translateNewlines.eq_3 c s hc hr]
    cases s with
    | nil => simpa [translateNewlines] using h
    | cons d s =>
      have := ih (by simpa [List.getLast?_cons] using h)
      simp [List.getLast?_cons, this]
  | case4 => simp at h

theorem splitLines_ne_nil {s : List Char} (h : s ≠ []) : splitLines s ≠ [] := by
  obtain ⟨c, s, rfl⟩ := List.exists_cons_of_ne_nil h
  unfold splitLines
  split
  · simp
  · split <;> simp

theorem splitLines_append (t₁ t₂ : List Char) (h : t₁ = [] ∨ t₁.getLast? = some '\n') :
    splitLines (t₁ ++ t₂) = splitLines t₁ ++ splitLines t₂ := by
  induction t₁ with
  | nil => rfl
  | cons c s ih =>
    have hs : s = [] ∨ s.getLast? = some '\n' := by
      cases s with
      | nil => exact .inl rfl
      | cons d s => exact .inr (by simpa [List.getLast?_cons] using h)
    rw [List.cons_append, splitLines, splitLines, ih hs]
    split
    · rfl
    · rename_i hc
      have hne : s ≠ [] := by rintro rfl; simp_all
      obtain ⟨line, lines, hl⟩ := List.exists_cons_of_ne_nil (splitLines_ne_nil hne)
      simp [hl]

/-- A text without `\r` is read as it is. -/
theorem translateNewlines_of_not_mem {t : List Char} (h : '\r' ∉ t) : translateNewlines t = t := by
  induction t using translateNewlines.induct with
  | case1 s _ => simp at h
  | case2 s _ _ => simp at h
  | case3 c s hc hr ih =>
    rw [translateNewlines.eq_3 c s hc hr, ih (fun h' => h (List.mem_cons_of_mem c h'))]
  | case4 => rfl

/-- A text with one newline, at its end, is one line. -/
theorem splitLines_append_newline {s : List Char} (h : '\n' ∉ s) :
    splitLines (s ++ ['\n']) = [s ++ ['\n']] := by
  induction s with
  | nil => rfl
  | cons c s ih =>
    have hc : c ≠ '\n' := fun hc => h (hc ▸ List.mem_cons_self c s)
    rw [List.cons_append, splitLines, if_neg hc, ih (fun h' => h (List.mem_cons_of_mem c h'))]

/-- A file that ends with a newline, followed by another, yields its own lines and then the
other's. -/
theorem textLines_append (t₁ t₂ : List Char) (h : t₁ = [] ∨ t₁.getLast? = some '\n') :
    textLines (t₁ ++ t₂) = textLines t₁ ++ textLines t₂ := by
  unfold textLines
  rcases h with rfl | h
  · rfl
  · rw [translateNewlines_append t₁ t₂ (by simp [h]),
      splitLines_append _ _ (.inr (getLast?_translateNewlines h))]

/-- Files that each end with a newline, read one after the other, yield their lines in
turn. -/
theorem textLines_flatMap {α : Type} (xs : List α) (text : α → List Char)
    (h : ∀ x ∈ xs, text x = [] ∨ (text x).getLast? = some '\n') :
    textLines (xs.flatMap text) = xs.flatMap fun x => textLines (text x) := by
  induction xs with
  | nil => rfl
  | cons x xs ih =>
    rw [List.flatMap_cons, textLines_append _ _ (h x (List.mem_cons_self x xs)),
      ih fun x' hx' => h x' (List.mem_cons_of_mem x hx'), List.flatMap_cons]

theorem not_mem_translateNewlines (t : List Char) : '\r' ∉ translateNewlines t := by
  induction t using translateNewlines.induct with
  | case1 s ih => simpa [translateNewlines] using ih
  | case2 s hs ih => rw [translateNewlines.eq_2 _ hs]; simpa using ih
  | case3 c s hc hr ih => rw [translateNewlines.eq_3 c s hc hr]; simp [ih, Ne.symm hr]
  | case4 => simp [translateNewlines]

/-- A translated text has nothing left to translate. -/
@[simp] theorem translateNewlines_translateNewlines (t : List Char) :
    translateNewlines (translateNewlines t) = translateNewlines t :=
  translateNewlines_of_not_mem (not_mem_translateNewlines t)

@[simp] theorem textLines_translateNewlines (t : List Char) :
    textLines (translateNewlines t) = textLines t := by
  simp [textLines]

/-- Each line of a text is a piece of it without `\n`, followed by `\n` unless it ends the
text. -/
theorem exists_of_mem_splitLines {t line : List Char} (h : line ∈ splitLines t) :
    ∃ s, '\n' ∉ s ∧ (∀ c ∈ s, c ∈ t) ∧ (line = s ++ ['\n'] ∨ line = s) := by
  induction t generalizing line with
  | nil => simp [splitLines] at h
  | cons c t ih =>
    -- a line of `t` is a line of `c :: t`, or the first one with `c` in front
    have hlift : ∀ l ∈ splitLines t, ∃ s, '\n' ∉ s ∧ (∀ d ∈ s, d ∈ c :: t) ∧
        (l = s ++ ['\n'] ∨ l = s) := fun l hl => by
      obtain ⟨s, hs, hsub, hl⟩ := ih hl
      exact ⟨s, hs, fun d hd => List.mem_cons_of_mem c (hsub d hd), hl⟩
    unfold splitLines at h
    split at h
    · rcases List.mem_cons.mp h with rfl | h
      · exact ⟨[], by simp, by simp, .inl (by simp [*])⟩
      · exact hlift line h
    · rename_i hc
      split at h
      · obtain rfl := List.mem_singleton.mp h
        exact ⟨[c], by simpa using Ne.symm hc, by simp, .inr rfl⟩
      · rename_i l ls heq
        rcases List.mem_cons.mp h with rfl | h
        · obtain ⟨s, hs, hsub, hl⟩ := hlift l (heq ▸ List.mem_cons_self l ls)
          refine ⟨c :: s, by simp [hs, Ne.symm hc], ?_, by rcases hl with rfl | rfl <;> simp⟩
          rintro d (_ | ⟨_, hd⟩)
          exacts [List.mem_cons_self _ _, hsub d hd]
        · exact hlift line (heq ▸ List.mem_cons_of_mem l h)

/-- A line `for line in file` yields holds no line break once stripped. -/
theorem noNewline_strip_of_mem_textLines {text line : List Char} (h : line ∈ textLines text) :
    NoNewline (strip line) := by
  obtain ⟨s, hs, hsub, hl⟩ := exists_of_mem_splitLines h
  have hstrip : strip line = strip s := by
    rcases hl with rfl | rfl
    · exact strip_append_of_isspace s (by decide)
    · rfl
  rw [hstrip]
  exact ⟨fun hr => not_mem_translateNewlines text (hsub _ (mem_of_mem_strip hr)),
    fun hn => hs (mem_of_mem_strip hn)⟩

end UpaScripts.Python
