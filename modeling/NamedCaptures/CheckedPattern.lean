import NamedCaptures.Analysis
import NamedCaptures.Flags

/-!
# Checked patterns

A well-formed pattern with its flags and its named groups, ready to be handed on.
-/

namespace NamedCaptures

/-- Why a pattern with flags is refused. -/
inductive PatternError where
  /-- The text of the flags is wrong. -/
  | flags (error : FlagError)
  /-- The pattern is not well formed. -/
  | problems (problems : List Problem)
  deriving DecidableEq, Repr

/-- The sentence for an error. -/
def PatternError.message : PatternError → String
  | flags e => e.message
  | problems ps => "Invalid pattern: " ++ String.intercalate ", " (ps.map (·.text))

/-- A well-formed pattern, with its flags and the groups that its analysis finds. -/
structure CheckedPattern where
  text : String
  flags : Flags
  groups : Groups
  analyzed : analyze text = .success groups
  deriving DecidableEq

namespace CheckedPattern

/-- Checks a pattern. Its flags are kept as they are. -/
def ofFlags (text : String) (flags : Flags) : Except PatternError CheckedPattern :=
  match h : analyze text with
  | .success groups => .ok ⟨text, flags, groups, h⟩
  | .failure problems => .error (.problems problems)

/-- Reads flags, and then checks a pattern. -/
def parse (text flags : String) : Except PatternError CheckedPattern :=
  match Flags.parse flags with
  | .ok fs => ofFlags text fs
  | .error e => .error (.flags e)

/-- Checks a pattern without flags. -/
def ofText (text : String) : Except PatternError CheckedPattern :=
  ofFlags text .empty

/-- The requiredness of a group, if the pattern has it. -/
def requiredness? (p : CheckedPattern) (name : String) : Option Requiredness :=
  p.groups.get? name

/-- Whether the pattern has named groups. -/
def hasGroups (p : CheckedPattern) : Bool :=
  !p.groups.isEmpty

/-- The names of the groups that every match binds, ascending. -/
def requiredNames (p : CheckedPattern) : List String :=
  p.groups.namesWith .required

/-- The names of the groups that a match may leave unbound, ascending. -/
def optionalNames (p : CheckedPattern) : List String :=
  p.groups.namesWith .optional

/-- The pattern between slashes, and its flags. -/
def display (p : CheckedPattern) : String :=
  "/" ++ p.text ++ "/" ++ p.flags.text

end CheckedPattern

end NamedCaptures
