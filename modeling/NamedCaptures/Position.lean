import NamedCaptures.Problem
import NamedCaptures.Text.Quoted

/-!
# Positions in a text

A position is a text split in two: what is consumed and what remains. Moving forward shifts
characters from the front of what remains to the end of what is consumed, so the two parts always
make up the text.

## Implementation notes

`advanceToEither` scans the bytes of the remaining text for two ASCII characters. An ASCII byte is
never part of a longer UTF-8 sequence, so the scan stops between characters.
-/

namespace NamedCaptures

/-- A place in a text: the characters before it and the characters from it on. -/
@[ext]
structure Position where
  consumed : List Char
  remaining : List Char
  deriving DecidableEq, Repr, Inhabited

/-- The misuses of a position. -/
inductive Position.Fault where
  /-- A text was to be skipped that does not come next. -/
  | notNext (expected remaining : List Char)
  /-- A number of bytes was to be skipped that ends inside a character. -/
  | insideCharacter
  deriving DecidableEq, Repr

/-- The sentence for a misuse. -/
def Position.Fault.message : Position.Fault → String
  | .notNext expected remaining =>
      "skip_exact: " ++ Text.quoted expected ++ " is not next at " ++ Text.quoted remaining
  | .insideCharacter => "the place is inside a character"

namespace Position

/-- The start of a text. -/
def start (text : List Char) : Position :=
  ⟨[], text⟩

/-- The place in a text from which on `rest` remains. -/
def ofRest (text rest : List Char) : Position :=
  ⟨text.take (text.length - rest.length), rest⟩

/-- The whole text. -/
def text (p : Position) : List Char :=
  p.consumed ++ p.remaining

/-- Whether nothing remains. -/
def atEnd (p : Position) : Bool :=
  p.remaining.isEmpty

/-- The next character. -/
def next? (p : Position) : Option Char :=
  p.remaining.head?

/-- Whether what remains begins with `s`. -/
def nextIs (p : Position) (s : List Char) : Bool :=
  s.isPrefixOf p.remaining

/-- Whether there is a next character and it satisfies `accept`. -/
def nextSatisfies (p : Position) (accept : Char → Bool) : Bool :=
  p.next?.any accept

/-- Forward by `n` characters, or to the end. -/
def forward (p : Position) (n : Nat) : Position :=
  ⟨p.consumed ++ p.remaining.take n, p.remaining.drop n⟩

/-- Over one character; at the end nothing moves. -/
def advance (p : Position) : Position :=
  p.forward 1

/-- Over the characters that satisfy `accept`, up to the first that does not. -/
def advanceWhile (p : Position) (accept : Char → Bool) : Position :=
  ⟨p.consumed ++ p.remaining.takeWhile accept, p.remaining.dropWhile accept⟩

/-- Over `s`, which has to come next. -/
def advanceOver (p : Position) (s : List Char) : Except Fault Position :=
  if p.nextIs s then .ok (p.forward s.length) else .error (.notNext s p.remaining)

/-- The characters that take up exactly `n` bytes at the front of a text, and what follows them;
nothing if a character straddles that place. -/
def splitBytes? : Nat → List Char → Option (List Char × List Char)
  | 0, s => some ([], s)
  | _ + 1, [] => none
  | n + 1, c :: s =>
      if c.utf8Size ≤ n + 1 then
        (splitBytes? (n + 1 - c.utf8Size) s).map fun (front, back) => (c :: front, back)
      else none

/-- Forward by `n` bytes, which has to lead to a place between two characters. -/
def forwardBytes (p : Position) (n : Nat) : Except Fault Position :=
  match splitBytes? n p.remaining with
  | some (front, back) => .ok ⟨p.consumed ++ front, back⟩
  | none => .error .insideCharacter

/-- The bytes of a text in UTF-8. -/
def bytes (s : List Char) : List UInt8 :=
  s.flatMap String.utf8EncodeChar

/-- Up to the first byte that is one of two, or to the end. -/
def advanceToEither (p : Position) (a b : UInt8) : Except Fault Position :=
  p.forwardBytes ((bytes p.remaining).findIdx fun x => x == a || x == b)

/-- The text from an earlier position up to this one. -/
def textFrom (p earlier : Position) : List Char :=
  p.consumed.drop earlier.consumed.length

@[simp]
theorem text_forward (p : Position) (n : Nat) : (p.forward n).text = p.text := by
  simp [text, forward, List.append_assoc]

@[simp]
theorem text_advanceWhile (p : Position) (accept : Char → Bool) :
    (p.advanceWhile accept).text = p.text := by
  simp [text, advanceWhile, List.append_assoc]

/-- The place between two parts of a text. -/
@[simp]
theorem ofRest_append (front rest : List Char) : ofRest (front ++ rest) rest = ⟨front, rest⟩ := by
  simp [ofRest]

/-- The place before a suffix of a text splits that text. -/
theorem text_ofRest {s rest : List Char} (h : rest <:+ s) : (ofRest s rest).text = s := by
  obtain ⟨front, rfl⟩ := h
  simp [text]

end Position

/-- The problem of a kind at a position. -/
def Problem.at (p : Position) (kind : Problem.Kind) : Problem :=
  ⟨kind, String.ofList p.consumed, String.ofList p.remaining⟩

end NamedCaptures
