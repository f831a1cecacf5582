import NamedCaptures.CommandLine.Arguments
import NamedCaptures.CommandLine.Report
import NamedCaptures.Memo
import NamedCaptures.Text.Lines

/-!
# Runs of the command line

A run as a function of its arguments and of what its file holds. It reports on one pattern, or on
every line of a file that is not empty, and fails if some pattern is not well formed. How arguments
are read is a parameter (`runWith`); `run` reads them as `Request.ofArguments` does.
-/

namespace NamedCaptures.CommandLine

/-- What looking into a file may find. -/
inductive FileContent where
  | text (s : String)
  /-- There is no such file. -/
  | missing
  /-- The bytes of the file are not text in UTF-8. -/
  | notText
  /-- The file cannot be read. -/
  | unreadable (reason : String)
  deriving DecidableEq, Repr

/-- What the bytes of a file hold. -/
def FileContent.ofBytes (bytes : ByteArray) : FileContent :=
  match String.fromUTF8? bytes with
  | some s => .text s
  | none => .notText

/-- The patterns in a file, or why there are none. -/
def FileContent.patterns : FileContent → Except String (List String)
  | text s => .ok (Text.filledLines s)
  | missing => .error "No such file or directory (os error 2)"
  | notText => .error "stream did not contain valid UTF-8"
  | unreadable reason => .error reason

/-- Reports on patterns in order, each analyzed once. -/
def reportAll (flags : Flags) (memo : Memo) : List String → Transcript
  | [] => {}
  | pattern :: patterns =>
      let (outcome, memo) := memo.analyze pattern
      report pattern flags outcome ++ reportAll flags memo patterns

/-- Reports on the patterns of a file, or on why it could not be read. -/
def reportFile (flags : Flags) (path : String) (content : FileContent) : Transcript :=
  match content.patterns with
  | .ok patterns => reportAll flags .empty patterns
  | .error reason => ⟨"", line (reason ++ ": " ++ path), true⟩

/-- What a request prints, given what its file holds. -/
def Request.run (request : Request) (files : String → FileContent) : Transcript :=
  match request.source with
  | .pattern text => reportAll request.flags .empty [text]
  | .file path => reportFile request.flags path (files path)

/-- What a command line prints, given how its arguments are read and what files hold. -/
def runWith {ε : Type} (read : List String → Except ε Request) (arguments : List String)
    (files : String → FileContent) : Except ε Transcript :=
  (read arguments).map (·.run files)

/-- What a command line prints, given what files hold. -/
def run (arguments : List String) (files : String → FileContent) :
    Except UsageError Transcript :=
  runWith Request.ofArguments arguments files

end NamedCaptures.CommandLine
