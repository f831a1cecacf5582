/-!
# Flags

The flags of a regular expression and the text that lists their letters. In such a text each
letter stands at most once, and the two Unicode modes exclude each other. The groups of a pattern
do not depend on its flags.
-/

namespace NamedCaptures

/-- A flag of a regular expression. -/
inductive Flag where
  /-- The match reports where its captures begin and end. -/
  | hasIndices
  /-- All matches are sought. -/
  | global
  /-- Letters match regardless of their case. -/
  | ignoreCase
  /-- The line anchors match at line breaks. -/
  | multiline
  /-- The dot matches line breaks. -/
  | dotAll
  /-- Matching is by code points. -/
  | unicode
  /-- Matching is by code points, with set operations in classes. -/
  | unicodeSets
  /-- Matches begin where the last one ended. -/
  | sticky
  deriving DecidableEq, Repr

namespace Flag

/-- All flags, in the order in which they are shown. -/
def all : List Flag :=
  [hasIndices, global, ignoreCase, multiline, dotAll, unicode, unicodeSets, sticky]

/-- The letter of a flag. -/
def letter : Flag → Char
  | hasIndices => 'd'
  | global => 'g'
  | ignoreCase => 'i'
  | multiline => 'm'
  | dotAll => 's'
  | unicode => 'u'
  | unicodeSets => 'v'
  | sticky => 'y'

/-- The flag of a letter. -/
def ofLetter? (c : Char) : Option Flag :=
  all.find? (·.letter == c)

theorem mem_all (f : Flag) : f ∈ all := by
  cases f <;> decide

theorem ofLetter?_letter (f : Flag) : ofLetter? f.letter = some f := by
  cases f <;> rfl

theorem letter_of_ofLetter? {c : Char} {f : Flag} (h : ofLetter? c = some f) : f.letter = c := by
  simpa using List.find?_some h

end Flag

/-- What can be wrong with the text of flags. -/
inductive FlagError where
  /-- A letter stands twice. -/
  | duplicate (letter : Char)
  /-- A character is not the letter of a flag. -/
  | unknown (letter : Char)
  /-- Two flags exclude each other. -/
  | incompatible (first second : Char)
  deriving DecidableEq, Repr

/-- The sentence for an error. -/
def FlagError.message : FlagError → String
  | duplicate c => "Duplicate flag: " ++ String.singleton c
  | unknown c => "Unknown flag: " ++ String.singleton c
  | incompatible c d =>
      "Incompatible flags: " ++ String.singleton c ++ " and " ++ String.singleton d

/-- A set of flags. -/
@[ext]
structure Flags where
  hasIndices : Bool := false
  global : Bool := false
  ignoreCase : Bool := false
  multiline : Bool := false
  dotAll : Bool := false
  unicode : Bool := false
  unicodeSets : Bool := false
  sticky : Bool := false
  deriving DecidableEq, Repr, Inhabited

namespace Flags

/-- No flags. -/
def empty : Flags := {}

/-- Whether a flag is in the set. -/
def has (fs : Flags) : Flag → Bool
  | .hasIndices => fs.hasIndices
  | .global => fs.global
  | .ignoreCase => fs.ignoreCase
  | .multiline => fs.multiline
  | .dotAll => fs.dotAll
  | .unicode => fs.unicode
  | .unicodeSets => fs.unicodeSets
  | .sticky => fs.sticky

/-- The set with one more flag. -/
def insert (fs : Flags) : Flag → Flags
  | .hasIndices => { fs with hasIndices := true }
  | .global => { fs with global := true }
  | .ignoreCase => { fs with ignoreCase := true }
  | .multiline => { fs with multiline := true }
  | .dotAll => { fs with dotAll := true }
  | .unicode => { fs with unicode := true }
  | .unicodeSets => { fs with unicodeSets := true }
  | .sticky => { fs with sticky := true }

@[simp]
theorem has_insert (fs : Flags) (f g : Flag) :
    (fs.insert f).has g = (decide (g = f) || fs.has g) := by
  cases f <;> cases g <;> rfl

/-- Sets with the same flags are equal. -/
theorem ext_has {fs gs : Flags} (h : ∀ f, fs.has f = gs.has f) : fs = gs :=
  Flags.ext (h .hasIndices) (h .global) (h .ignoreCase) (h .multiline) (h .dotAll) (h .unicode)
    (h .unicodeSets) (h .sticky)

/-- The flags of the set, in the order in which they are shown. -/
def toList (fs : Flags) : List Flag :=
  Flag.all.filter fs.has

/-- The letters of the set. -/
def text (fs : Flags) : String :=
  String.ofList (fs.toList.map (·.letter))

/-- The set with the flags of further letters, each of which has to be new. -/
def insertLetters (fs : Flags) : List Char → Except FlagError Flags
  | [] => .ok fs
  | c :: cs =>
      match Flag.ofLetter? c with
      | none => .error (.unknown c)
      | some f => if fs.has f then .error (.duplicate c) else (fs.insert f).insertLetters cs

/-- The set that a text lists. The first letter that is unknown or a duplicate decides the error;
only without one do flags that exclude each other count. -/
def parse (s : String) : Except FlagError Flags :=
  match empty.insertLetters s.toList with
  | .error e => .error e
  | .ok fs =>
      if fs.unicode && fs.unicodeSets then
        .error (.incompatible Flag.unicode.letter Flag.unicodeSets.letter)
      else .ok fs

end Flags

end NamedCaptures
