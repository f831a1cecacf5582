import NamedCaptures.Flags

/-!
# Arguments of the command line

The command line takes flags, and either one pattern or a file of patterns. An option stands in
front of its value, or is joined to it: `-f F`, `-fF`, `-f=F`, `--flags F`, `--flags=F`,
`--file PATH`, `--file=PATH`. Behind `--` everything is a pattern.
-/

namespace NamedCaptures.CommandLine

/-- The options that take a value. -/
inductive OptionName where
  /-- The flags of the patterns. -/
  | flags
  /-- The file with patterns, one on each line. -/
  | file
  deriving DecidableEq, Repr

/-- What the patterns come from. -/
inductive Source where
  | pattern (text : String)
  | file (path : String)
  deriving DecidableEq, Repr

/-- What the command line asks for. -/
structure Request where
  flags : Flags
  source : Source
  deriving DecidableEq, Repr

/-- What can be wrong with a command line. -/
inductive UsageError where
  | unknownOption (argument : String)
  | missingValue (option : OptionName)
  | repeatedOption (option : OptionName)
  | extraPattern (argument : String)
  | patternWithFile
  | nothingToAnalyze
  | badFlags (error : FlagError)
  deriving DecidableEq, Repr

/-- The spelling of an option. -/
def OptionName.text : OptionName → String
  | flags => "--flags"
  | file => "--file"

/-- The sentence for an error. -/
def UsageError.message : UsageError → String
  | unknownOption argument => "Unexpected argument: " ++ argument
  | missingValue option => "Missing value: " ++ option.text
  | repeatedOption option => "Given more than once: " ++ option.text
  | extraPattern argument => "Unexpected argument: " ++ argument
  | patternWithFile => "A pattern cannot be used with --file"
  | nothingToAnalyze => "A pattern or --file is required"
  | badFlags error => error.message

/-- What an argument is by itself. -/
inductive Argument where
  /-- A value or a pattern. -/
  | plain
  /-- The mark behind which everything is a pattern. -/
  | separator
  /-- An option, with its value if that is joined to it. -/
  | option (name : OptionName) (value : Option String)
  /-- It looks like an option but is none. -/
  | unknown
  deriving DecidableEq, Repr

/-- A text without the equals signs in front. -/
def dropEquals (s : List Char) : String :=
  String.ofList (s.dropWhile (· == '='))

/-- The option of a long spelling, without its dashes and up to an equals sign. -/
def longOption? (name : List Char) : Option OptionName :=
  if name = "flags".toList then some .flags
  else if name = "file".toList then some .file
  else none

/-- An argument that begins with two dashes, from what follows all its dashes. -/
def Argument.ofLong (s : List Char) : Argument :=
  match longOption? (s.takeWhile (· != '=')) with
  | none => .unknown
  | some name =>
      match s.dropWhile (· != '=') with
      | [] => .option name none
      | value => .option name (some (dropEquals value))

/-- What an argument is by itself. A dash alone is plain. -/
def Argument.of (argument : String) : Argument :=
  match argument.toList with
  | ['-', '-'] => .separator
  | '-' :: '-' :: s => .ofLong (s.dropWhile (· == '-'))
  | ['-', 'f'] => .option .flags none
  | '-' :: 'f' :: s => .option .flags (some (dropEquals s))
  | '-' :: _ :: _ => .unknown
  | _ => .plain

/-- The values on a command line, each in the order given. -/
structure Given where
  flags : List String := []
  files : List String := []
  patterns : List String := []
  deriving DecidableEq, Repr

namespace Given

/-- One more value of an option. -/
def addOption (g : Given) (value : String) : OptionName → Given
  | .flags => { g with flags := g.flags ++ [value] }
  | .file => { g with files := g.files ++ [value] }

/-- More patterns. -/
def addPatterns (g : Given) (patterns : List String) : Given :=
  { g with patterns := g.patterns ++ patterns }

/-- Sorts the arguments. An option takes the next argument as its value if that is plain. -/
def collect (g : Given) : List String → Except UsageError Given
  | [] => .ok g
  | argument :: rest =>
      match Argument.of argument with
      | .plain => (g.addPatterns [argument]).collect rest
      | .separator => .ok (g.addPatterns rest)
      | .unknown => .error (.unknownOption argument)
      | .option name (some value) => (g.addOption value name).collect rest
      | .option name none =>
          match rest with
          | [] => .error (.missingValue name)
          | value :: rest =>
              if Argument.of value = .plain then (g.addOption value name).collect rest
              else .error (.missingValue name)

/-- The flags among the values. -/
def requestFlags (g : Given) : Except UsageError Flags :=
  match g.flags with
  | [] => .ok .empty
  | [text] => (Flags.parse text).mapError .badFlags
  | _ => .error (.repeatedOption .flags)

/-- What the patterns come from, among the values. -/
def requestSource (g : Given) : Except UsageError Source :=
  match g.patterns, g.files with
  | [], [] => .error .nothingToAnalyze
  | [text], [] => .ok (.pattern text)
  | [], [path] => .ok (.file path)
  | [], _ => .error (.repeatedOption .file)
  | [_], _ => .error .patternWithFile
  | _ :: argument :: _, _ => .error (.extraPattern argument)

end Given

/-- What a command line asks for. -/
def Request.ofArguments (arguments : List String) : Except UsageError Request := do
  let given ← Given.collect {} arguments
  let flags ← given.requestFlags
  let source ← given.requestSource
  return ⟨flags, source⟩

end NamedCaptures.CommandLine
