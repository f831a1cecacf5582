import NamedCaptures.Position

/-!
# Walks through a text

A walk is at one place of a text and remembers another, to which it can go back. A move that is a
fault leaves no walk; whoever makes it can go on with the walk before it.
-/

namespace NamedCaptures

/-- A move of a walk. -/
inductive Walk.Move where
  /-- Over one character. -/
  | advance
  /-- Over the characters that satisfy a condition. -/
  | advanceWhile (accept : Char → Bool)
  /-- Over a text that comes next. -/
  | advanceOver (s : List Char)
  /-- Up to the first of two bytes. -/
  | advanceToEither (a b : UInt8)
  /-- Remembers the place. -/
  | remember
  /-- Goes back to the remembered place. -/
  | goBack

/-- A walk through a text: where it is, and the place that it remembers. -/
structure Walk where
  place : Position
  remembered : Position
  deriving DecidableEq, Repr, Inhabited

namespace Walk

/-- A walk at the start of a text, which is also the place it remembers. -/
def start (text : List Char) : Walk :=
  ⟨.start text, .start text⟩

/-- The walk at another place. -/
def moveTo (w : Walk) (p : Position) : Walk :=
  { w with place := p }

/-- One move. -/
def step (w : Walk) : Move → Except Position.Fault Walk
  | .advance => .ok (w.moveTo w.place.advance)
  | .advanceWhile accept => .ok (w.moveTo (w.place.advanceWhile accept))
  | .advanceOver s => (w.place.advanceOver s).map w.moveTo
  | .advanceToEither a b => (w.place.advanceToEither a b).map w.moveTo
  | .remember => .ok { w with remembered := w.place }
  | .goBack => .ok (w.moveTo w.remembered)

end Walk

end NamedCaptures
