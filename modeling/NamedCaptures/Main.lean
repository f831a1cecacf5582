import NamedCaptures.CommandLine.Run

/-!
# The command line

Reads the arguments and the file, and prints what the run says.
-/

namespace NamedCaptures.CommandLine

/-- Looks into a file. -/
def readContent (path : String) : IO FileContent := do
  try
    return .ofBytes (← IO.FS.readBinFile path)
  catch
    | .noFileOrDirectory .. => return .missing
    | error => return .unreadable (toString error)

/-- Looks into the file that a request names. -/
def Request.readFiles (request : Request) : IO (String → FileContent) := do
  match request.source with
  | .pattern _ => return fun _ => .missing
  | .file path =>
      let content ← readContent path
      return fun _ => content

end NamedCaptures.CommandLine

open NamedCaptures.CommandLine in
/-- Runs the command line. -/
def main (arguments : List String) : IO UInt32 := do
  match Request.ofArguments arguments with
  | .error error =>
      IO.eprint (line ("error: " ++ error.message))
      return 1
  | .ok request =>
      let transcript := request.run (← request.readFiles)
      IO.print transcript.output
      IO.eprint transcript.errors
      return UInt32.ofNat transcript.exitCode
