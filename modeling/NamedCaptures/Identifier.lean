import NamedCaptures.Unicode.Alphabetic
import NamedCaptures.Unicode.Number

/-!
# Identifiers

Which characters may begin a group name and which may continue one.
-/

namespace NamedCaptures.Identifier

/-- A dollar sign, a low line or an alphabetic character begins an identifier. -/
def isStart (c : Char) : Bool :=
  c == '$' || c == '_' || Unicode.isAlphabetic c

/-- A character that begins an identifier continues one, and so do numbers and the two zero-width
joiners. -/
def isPart (c : Char) : Bool :=
  isStart c || Unicode.isNumber c || c == '\u200C' || c == '\u200D'

/-- What begins an identifier also continues one. -/
theorem isPart_of_isStart {c : Char} (h : isStart c = true) : isPart c = true := by
  simp [isPart, h]

end NamedCaptures.Identifier
