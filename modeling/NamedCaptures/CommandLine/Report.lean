import NamedCaptures.Analysis
import NamedCaptures.Flags

/-!
# Reports

What is printed for a pattern: the pattern with its flags, and below it either its named groups or,
on the error output, its problems.
-/

namespace NamedCaptures.CommandLine

/-- What a run prints, on both outputs, and whether it failed. -/
structure Transcript where
  output : String := ""
  errors : String := ""
  failed : Bool := false
  deriving DecidableEq, Repr, Inhabited

namespace Transcript

/-- One run after another. -/
def append (t u : Transcript) : Transcript :=
  ⟨t.output ++ u.output, t.errors ++ u.errors, t.failed || u.failed⟩

instance : Append Transcript := ⟨append⟩

/-- The number that a run ends with. -/
def exitCode (t : Transcript) : Nat :=
  if t.failed then 1 else 0

end Transcript

/-- A line of output. -/
def line (s : String) : String :=
  s ++ "\n"

/-- The word for a requiredness. -/
def requirednessWord (r : Requiredness) : String :=
  if r.isRequired then "required" else "optional"

/-- The lines for named groups. -/
def groupLines (groups : Groups) : List String :=
  if groups.isEmpty then ["  no named groups"]
  else groups.entries.map fun e => "  " ++ e.1 ++ ": " ++ requirednessWord e.2

/-- Lines one after another. -/
def unlines (ls : List String) : String :=
  String.join (ls.map line)

/-- What is printed for a pattern with that outcome. -/
def report (pattern : String) (flags : Flags) (outcome : Outcome) : Transcript :=
  let heading := line ("/" ++ pattern ++ "/" ++ flags.text)
  match outcome with
  | .success groups => ⟨heading ++ unlines (groupLines groups), "", false⟩
  | .failure problems => ⟨heading, unlines (problems.map fun p => "  " ++ p.text), true⟩

end NamedCaptures.CommandLine
