import NamedCaptures.CommandLine.Run
import NamedCaptures.Proofs.CommandLine.Options
import NamedCaptures.Proofs.Text.LinePieces

/-!
# Files of patterns

A run on a file prints what the runs on its lines alone print, one after another, and fails if one
of them is not well formed. That all lines of a run share a memo does not show. Arguments may be
read in any way that takes options as it should (`ReadsOptions`). The main statement is
`run_file_eq_join`.
-/

namespace NamedCaptures.CommandLine

theorem Transcript.output_append (t u : Transcript) : (t ++ u).output = t.output ++ u.output := rfl

theorem Transcript.errors_append (t u : Transcript) : (t ++ u).errors = t.errors ++ u.errors := rfl

theorem Transcript.failed_append (t u : Transcript) :
    (t ++ u).failed = (t.failed || u.failed) := rfl

theorem Transcript.append_empty (t : Transcript) : t ++ ({} : Transcript) = t := by
  obtain ⟨output, errors, failed⟩ := t
  change (⟨output ++ "", errors ++ "", failed || false⟩ : Transcript) = _
  rw [String.append_empty, String.append_empty, Bool.or_false]

theorem report_failed (pattern : String) (flags : Flags) (outcome : Outcome) :
    (report pattern flags outcome).failed = !outcome.isSuccess := by
  cases outcome <;> rfl

/-- What is printed for a pattern alone. -/
def reportAlone (flags : Flags) (pattern : String) : Transcript :=
  report pattern flags (analyze pattern)

section ReportAll

variable (flags : Flags) (memo : Memo)

theorem reportAll_cons (pattern : String) (patterns : List String) :
    reportAll flags memo (pattern :: patterns) =
      reportAlone flags pattern ++ reportAll flags (memo.analyze pattern).2 patterns := by
  rw [reportAlone, ← memo.analyze_fst pattern]
  rfl

theorem reportAll_singleton (pattern : String) :
    reportAll flags memo [pattern] = reportAlone flags pattern :=
  (reportAll_cons flags memo pattern []).trans (Transcript.append_empty _)

theorem reportAll_output (patterns : List String) :
    (reportAll flags memo patterns).output =
      String.join (patterns.map fun p => (reportAlone flags p).output) := by
  induction patterns generalizing memo with
  | nil => rfl
  | cons p patterns ih =>
      rw [reportAll_cons, Transcript.output_append, ih, List.map_cons, String.join_cons]

theorem reportAll_errors (patterns : List String) :
    (reportAll flags memo patterns).errors =
      String.join (patterns.map fun p => (reportAlone flags p).errors) := by
  induction patterns generalizing memo with
  | nil => rfl
  | cons p patterns ih =>
      rw [reportAll_cons, Transcript.errors_append, ih, List.map_cons, String.join_cons]

/-- One pattern that is not well formed decides, wherever it stands. -/
theorem reportAll_failed (patterns : List String) :
    (reportAll flags memo patterns).failed = patterns.any fun p => !(analyze p).isSuccess := by
  induction patterns generalizing memo with
  | nil => rfl
  | cons p patterns ih =>
      rw [reportAll_cons, Transcript.failed_append, ih, List.any_cons, reportAlone, report_failed]

end ReportAll

/-- The lines of a text that are not empty: its pieces between line feeds, without the one carriage
return directly before a line feed. -/
def patternLines (content : String) : List String :=
  ((Text.linePieces content.toList).filter (!·.isEmpty)).map String.ofList

/-- Text in UTF-8 is read as it was written. -/
theorem patterns_ofBytes (content : String) :
    (FileContent.ofBytes content.toUTF8).patterns = .ok (patternLines content) := by
  have hread : String.fromUTF8? content.toUTF8 = some content := dif_pos content.isValidUTF8
  rw [FileContent.ofBytes, hread, FileContent.patterns, Text.filledLines_eq, patternLines]

section Run

variable {ε : Type} {read : List String → Except ε Request}
  {flagArguments fileArguments arguments : List String} {fs : Flags} {path content : String}
  {files : String → FileContent}

theorem runWith_pattern (hread : ReadsOptions read) (hflags : GivesFlags flagArguments fs)
    (pattern : String) :
    runWith read (flagArguments ++ ["--", pattern]) files = .ok (reportAlone fs pattern) := by
  rw [runWith, hread.pattern hflags, ← reportAll_singleton fs .empty pattern]
  rfl

theorem runWith_file (hread : ReadsOptions read) (hflags : GivesFlags flagArguments fs)
    (hfile : GivesFile fileArguments path)
    (harguments : arguments ∈ [flagArguments ++ fileArguments, fileArguments ++ flagArguments])
    (hcontent : files path = .ofBytes content.toUTF8) :
    runWith read arguments files = .ok (reportAll fs .empty (patternLines content)) := by
  rw [runWith, hread.file hflags hfile harguments]
  change Except.ok (reportFile fs path (files path)) = _
  rw [reportFile, hcontent, patterns_ofBytes]

/-- A run on a file is all the runs on its lines alone, whatever the flags and the file, and however
they are given. -/
theorem run_file_eq_join (hread : ReadsOptions read) (hflags : GivesFlags flagArguments fs)
    (hfile : GivesFile fileArguments path)
    (harguments : arguments ∈ [flagArguments ++ fileArguments, fileArguments ++ flagArguments])
    (hcontent : files path = .ofBytes content.toUTF8) :
    ∃ (whole : Transcript) (singles : List Transcript), runWith read arguments files = .ok whole ∧
      (patternLines content).map (fun p => runWith read (flagArguments ++ ["--", p]) files) =
        singles.map .ok ∧
      whole.output = String.join (singles.map (·.output)) ∧
      whole.errors = String.join (singles.map (·.errors)) ∧
      whole.exitCode =
        if (patternLines content).any fun p => !(analyze p).isSuccess then 1 else 0 := by
  refine ⟨_, (patternLines content).map (reportAlone fs),
    runWith_file hread hflags hfile harguments hcontent, ?_, ?_, ?_, ?_⟩
  · rw [List.map_map]
    exact List.map_congr_left fun p _ => runWith_pattern hread hflags p
  · rw [reportAll_output, List.map_map]
    rfl
  · rw [reportAll_errors, List.map_map]
    rfl
  · rw [Transcript.exitCode, reportAll_failed]

/-- A line between others that is rejected twice, an empty one and a carriage return at the end. -/
theorem run_file_rejected_twice :
    let files : String → FileContent := fun _ => .ofBytes "(?<a>x)\r\n)\n\n)\na\r".toUTF8
    ReadsOptions Request.ofArguments ∧ ∃ (whole : Transcript) (singles : List Transcript),
      run ["--file=patterns.txt", "-f", "gi"] files = .ok whole ∧
      ["(?<a>x)", ")", ")", "a\r"].map (fun p => run ["-f", "gi", "--", p] files) =
        singles.map .ok ∧
      whole.output = String.join (singles.map (·.output)) ∧
      whole.errors = String.join (singles.map (·.errors)) ∧ whole.exitCode = 1 := by
  intro files
  have hflags : GivesFlags ["-f", "gi"] { global := true, ignoreCase := true } := .short rfl
  have hfile : GivesFile ["--file" ++ "=" ++ "patterns.txt"] "patterns.txt" :=
    .joined (by decide +kernel)
  have hlines : patternLines "(?<a>x)\r\n)\n\n)\na\r" = ["(?<a>x)", ")", ")", "a\r"] := by
    decide +kernel
  have hcontent : files "patterns.txt" = .ofBytes "(?<a>x)\r\n)\n\n)\na\r".toUTF8 := rfl
  obtain ⟨whole, singles, hrun, hsingles, houtput, herrors, hexit⟩ :=
    run_file_eq_join readsOptions_ofArguments hflags hfile
      (List.mem_cons_of_mem _ List.mem_cons_self) hcontent
  rw [hlines] at hsingles hexit
  exact ⟨readsOptions_ofArguments, whole, singles, hrun, hsingles, houtput, herrors,
    hexit.trans (by decide +kernel)⟩

end Run

end NamedCaptures.CommandLine
