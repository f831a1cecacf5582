/-!
# Problems of a pattern

A problem is a split of the pattern text at the place where something is wrong, and what is wrong
there. Its column counts code points from one.
-/

namespace NamedCaptures

/-- What can be wrong at a place in a pattern. -/
inductive Problem.Kind where
  /-- A closing parenthesis, bracket or brace that closes nothing. -/
  | strayCloser
  /-- The text ended inside a group or lookaround. -/
  | unclosedGroup
  /-- The text ended after a backslash. -/
  | bareBackslash
  /-- A property escape without its opening brace. -/
  | propertyWithoutBrace
  /-- A property escape without its closing brace. -/
  | unclosedProperty
  /-- A control escape without its letter. -/
  | badControlLetter
  /-- A hexadecimal escape without its two digits. -/
  | badHexEscape
  /-- A braced code point without digits. -/
  | codePointWithoutDigits
  /-- A braced code point without its closing brace. -/
  | unclosedCodePoint
  /-- A braced code point beyond the last one. -/
  | codePointTooLarge
  /-- A Unicode escape with neither four digits nor a brace. -/
  | badUnicodeEscape
  /-- A group name without its opening angle bracket. -/
  | groupNameWithoutOpening
  /-- A group name without its closing angle bracket. -/
  | unclosedGroupName
  /-- Angle brackets without a name. -/
  | emptyGroupName
  /-- An escape in a group name for a character that no name may hold there. -/
  | badGroupNameEscape
  /-- A counted quantifier without a number. -/
  | quantifierWithoutDigits
  /-- A counted quantifier without its closing brace. -/
  | unclosedQuantifier
  /-- A counted quantifier whose least count is above its greatest. -/
  | quantifierOutOfOrder
  /-- The text ended inside a character class. -/
  | unclosedClass
  /-- The text ended after a backslash inside a character class. -/
  | bareBackslashInClass
  /-- A quantifier with nothing before it. -/
  | nothingToRepeat
  deriving DecidableEq, Repr, Inhabited

/-- The sentence for a kind of problem. -/
def Problem.Kind.message : Problem.Kind → String
  | .strayCloser => "Expected end of pattern"
  | .unclosedGroup => "Unbalanced parenthesis: a group must end with ')'"
  | .bareBackslash => "Incomplete escape: '\\' must be followed by a character"
  | .propertyWithoutBrace => "A Unicode property expression must start with '\x7b'"
  | .unclosedProperty => "A Unicode property expression must end with '\x7d'"
  | .badControlLetter => "'\\c' must be followed by a letter a-z or A-Z"
  | .badHexEscape => "'\\x' must be followed by two hexadecimal digits"
  | .codePointWithoutDigits => "A code point must have at least one hexadecimal digit"
  | .unclosedCodePoint => "A code point must be followed by '\x7d'"
  | .codePointTooLarge => "A code point must not exceed 10FFFF"
  | .badUnicodeEscape =>
      "'\\u' must be followed by four hexadecimal digits or a code point in braces"
  | .groupNameWithoutOpening => "A group name must be preceded by '<'"
  | .unclosedGroupName => "A group name must be followed by '>'"
  | .emptyGroupName => "A group name is required"
  | .badGroupNameEscape => "Escape does not denote a valid group name character"
  | .quantifierWithoutDigits => "A quantifier must contain a number"
  | .unclosedQuantifier => "A quantifier must end with '\x7d'"
  | .quantifierOutOfOrder => "Invalid quantifier: numbers out of order"
  | .unclosedClass => "Unbalanced bracket: a character class must end with ']'"
  | .bareBackslashInClass => "Incomplete escape in character class"
  | .nothingToRepeat => "Nothing to repeat: a quantifier must follow an atom"

/-- A problem: what is wrong, the pattern text before the place, and the text from it on. -/
structure Problem where
  kind : Problem.Kind
  consumed : String
  remaining : String
  deriving DecidableEq, Repr, Inhabited

namespace Problem

/-- The column of the place, from one, in code points. -/
def column (p : Problem) : Nat :=
  p.consumed.length + 1

/-- The mark that shows the place inside the pattern text. -/
def mark : Char := '‸'

/-- The sentence, the column, and the pattern with the place marked. -/
def text (p : Problem) : String :=
  p.kind.message ++ " at column " ++ toString p.column ++ ": " ++ p.consumed ++
    String.singleton mark ++ p.remaining

end Problem

end NamedCaptures
