import NamedCaptures.Pattern.GroupName

/-!
# Escapes

What may follow a backslash, outside character classes and inside them.
-/

namespace NamedCaptures.Pattern

/-- A character of a property expression. -/
def isPropertyChar (c : Char) : Bool :=
  c.isAlphanum || c == '_' || c == '='

/-- Reads a property expression in braces. -/
def propertyExpression : List Char → Lexeme Unit
  | '{' :: s =>
      (Lexeme.expect '}' .unclosedProperty (s.dropWhile isPropertyChar)).discard
  | s => ⟨(), s, [⟨.propertyWithoutBrace, s⟩]⟩

/-- Reads the letter of a control escape. -/
def controlLetter : List Char → Lexeme Unit
  | [] => ⟨(), [], [⟨.badControlLetter, []⟩]⟩
  | c :: s =>
      if c.isAlpha then ⟨(), s, []⟩ else ⟨(), c :: s, [⟨.badControlLetter, c :: s⟩]⟩

/-- Reads the letter `x` and two hexadecimal digits, from the text after the letter. Where the
digits are missing, the letter is not read either. -/
def hexEscape : List Char → Lexeme Unit
  | a :: b :: s =>
      if Numeral.isHexDigit a && Numeral.isHexDigit b then ⟨(), s, []⟩
      else ⟨(), 'x' :: a :: b :: s, [⟨.badHexEscape, 'x' :: a :: b :: s⟩]⟩
  | s => ⟨(), 'x' :: s, [⟨.badHexEscape, 'x' :: s⟩]⟩

/-- Reads an escape for a character or a set of characters, which begins with `c` and goes on in
the given text. -/
def characterEscape (c : Char) (s : List Char) : Lexeme Unit :=
  match c with
  | 'p' => propertyExpression s
  | 'P' => propertyExpression s
  | 'c' => controlLetter s
  | 'x' => hexEscape s
  | 'u' => (unicodeEscape s).discard
  | _ => ⟨(), s, []⟩

/-- Reads what follows a backslash outside character classes: a back reference by number or by
name, or an escape for characters. -/
def atomEscape : List Char → Lexeme Unit
  | [] => ⟨(), [], [⟨.bareBackslash, []⟩]⟩
  | c :: s =>
      if '1' ≤ c ∧ c ≤ '9' then ⟨(), s.dropWhile Char.isDigit, []⟩
      else if c = 'k' then (groupName s).discard
      else characterEscape c s

/-- Reads what follows a backslash inside a character class. -/
def classEscape : List Char → Lexeme Unit
  | [] => ⟨(), [], [⟨.bareBackslashInClass, []⟩]⟩
  | c :: s => characterEscape c s

theorem propertyExpression_rest (s : List Char) : (propertyExpression s).rest <:+ s := by
  unfold propertyExpression
  split
  · exact (Lexeme.expect_rest _ _ _).trans
      ((List.dropWhile_suffix _).trans (List.suffix_cons _ _))
  · exact List.suffix_rfl

theorem controlLetter_rest (s : List Char) : (controlLetter s).rest <:+ s := by
  unfold controlLetter
  split
  · exact List.suffix_rfl
  · split
    · exact List.suffix_cons _ _
    · exact List.suffix_rfl

theorem hexEscape_rest (s : List Char) : (hexEscape s).rest <:+ 'x' :: s := by
  unfold hexEscape
  split
  · next a b s =>
      split
      · exact ⟨['x', a, b], rfl⟩
      · exact List.suffix_rfl
  · exact List.suffix_rfl

theorem characterEscape_rest (c : Char) (s : List Char) :
    (characterEscape c s).rest <:+ c :: s := by
  unfold characterEscape
  split
  · exact (propertyExpression_rest s).trans (List.suffix_cons _ _)
  · exact (propertyExpression_rest s).trans (List.suffix_cons _ _)
  · exact (controlLetter_rest s).trans (List.suffix_cons _ _)
  · exact hexEscape_rest s
  · exact (unicodeEscape_rest s).trans (List.suffix_cons _ _)
  · exact List.suffix_cons _ _

theorem atomEscape_rest (s : List Char) : (atomEscape s).rest <:+ s := by
  unfold atomEscape
  split
  · exact List.suffix_rfl
  · split
    · exact (List.dropWhile_suffix _).trans (List.suffix_cons _ _)
    · split
      · exact (groupName_rest _).trans (List.suffix_cons _ _)
      · exact characterEscape_rest _ _

theorem classEscape_rest (s : List Char) : (classEscape s).rest <:+ s := by
  unfold classEscape
  split
  · exact List.suffix_rfl
  · exact characterEscape_rest _ _

end NamedCaptures.Pattern
