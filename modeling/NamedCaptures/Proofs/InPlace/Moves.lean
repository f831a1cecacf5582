import NamedCaptures.Analysis

/-!
# Moves in place

The readers of patterns return what they leave of a text. The same can be done in place: with one
position that moves through the text, one list of problems that grows, and one nesting that
changes. Most moves have a condition, such as that the text to be skipped comes next. This module
defines the moves so that a move whose condition fails is a fault, and ends the run.

## Implementation notes

A procedure with a loop calls itself, and it is told how deep calls may nest. A run that is to go
deeper is cut off, so the result of a run is an option: `none` stands for a run that did not come
to its end. Numbers are those of a word of a fixed size. The value of a run of digits, which may
not fit, stays at a greatest value (`saturated`); all other arithmetic is checked.
-/

namespace NamedCaptures.InPlace

/-- The misuses that end a run. -/
inductive Fault where
  /-- The position was misused. -/
  | position (fault : Position.Fault)
  /-- A part of a text was asked for that is not a whole number of characters of it. -/
  | brokenSlice
  /-- Bytes were asked for that lie behind the end of the text. -/
  | bytesBehindEnd
  /-- The text since a place was asked for, and the place is not an earlier one. -/
  | movedBackwards
  /-- A byte that was looked for is not an ASCII character. -/
  | needleNotAscii
  /-- An atom was to be read where no character is. -/
  | noCharacter
  /-- A difference is negative. -/
  | negativeDifference
  /-- A sum does not fit into a word. -/
  | sumTooLarge
  /-- A group was to begin while the one before it had not ended. -/
  | groupStillOpen
  /-- The nesting was misused. -/
  | nesting (fault : Nesting.Fault)
  /-- A level was to end whose own name has not joined its groups. -/
  | levelNotSettled
  /-- The analysis came to its end inside a group or lookaround. -/
  | levelsLeft
  deriving DecidableEq, Repr

/-- The number of bytes that a text takes up. -/
def byteLength : List Char → Nat
  | [] => 0
  | c :: s => c.utf8Size + byteLength s

/-- What is changed in place. -/
structure State where
  place : Position
  problems : List Problem := []
  nesting : Nesting := .start
  /-- Whether the closing parenthesis of a group has been read and its level has not ended yet, so
  that a quantifier behind it comes first. -/
  groupOpen : Bool := false
  deriving DecidableEq, Repr

/-- A run: it changes the state, and may end in a fault or be cut off. -/
abbrev Run : Type → Type :=
  StateT State (ExceptT Fault Option)

/-- Changes levels. A level may end only once it is settled. -/
def levelStep (n : Nesting) : Nesting.Step → Except Fault Nesting
  | .ascend =>
      match n.ascend with
      | .error f => .error (.nesting f)
      | .ok m => if n.inner.ownName.isSome then .error .levelNotSettled else .ok m
  | step => (n.apply step).mapError .nesting

namespace Run

/-- Ends in a fault. -/
def fault {α : Type} (f : Fault) : Run α :=
  throw f

/-- Comes to no end: calls were to nest too deep. -/
def cutOff {α : Type} : Run α :=
  fun _ => none

/-- The position. -/
def place : Run Position := do
  return (← get).place

/-- The text that remains. -/
def remaining : Run (List Char) := do
  return (← place).remaining

/-- The next character. -/
def peek : Run (Option Char) := do
  return (← place).next?

/-- Whether what remains begins with `s`. -/
def nextIs (s : List Char) : Run Bool := do
  return (← place).nextIs s

/-- Whether there is a next character and it satisfies `accept`. -/
def nextSatisfies (accept : Char → Bool) : Run Bool := do
  return (← place).nextSatisfies accept

/-- Goes to another place, unless it is the result of a misuse. -/
def moveTo : Except Position.Fault Position → Run Unit
  | .ok p => modify fun m => { m with place := p }
  | .error f => fault (.position f)

/-- Over a number of bytes, which have to be whole characters. -/
def skipBytes (n : Nat) : Run Unit := do
  moveTo ((← place).forwardBytes n)

/-- Over one character; at the end nothing moves. -/
def skipOne : Run Unit := do
  match ← peek with
  | some c => skipBytes c.utf8Size
  | none => return ()

/-- Over `s`, which has to come next. -/
def skipExact (s : List Char) : Run Unit := do
  moveTo ((← place).advanceOver s)

/-- Over the characters that satisfy `accept`, up to the first that does not. -/
def skipWhile (accept : Char → Bool) : Run Unit := do
  skipBytes (byteLength ((← remaining).takeWhile accept))

/-- Up to the first byte that is one of two, or to the end. -/
def skipToEither (a b : UInt8) : Run Unit := do
  if a < 128 ∧ b < 128 then moveTo ((← place).advanceToEither a b)
  else fault .needleNotAscii

/-- Over `s` if it comes next; the value tells whether it does. -/
def tryConsume (s : List Char) : Run Bool := do
  if ← nextIs s then
    skipExact s
    return true
  else return false

/-- Over the first of several texts that comes next; the value is what is listed with it. -/
def tryConsumeAny {β : Type} : List (List Char × β) → Run (Option β)
  | [] => return none
  | (s, b) :: more => do
      if ← tryConsume s then return some b
      else tryConsumeAny more

/-- Notes a problem at an earlier place. -/
def reportAt (p : Position) (kind : Problem.Kind) : Run Unit :=
  modify fun m => { m with problems := m.problems ++ [.at p kind] }

/-- Notes a problem at the place. -/
def report (kind : Problem.Kind) : Run Unit := do
  reportAt (← place) kind

/-- Over `s`, or notes that it is missing; the value tells which. -/
def expect (s : List Char) (missing : Problem.Kind) : Run Bool := do
  if ← tryConsume s then return true
  else
    report missing
    return false

/-- The text from an earlier place up to this one. -/
def textSince (start : Position) : Run (List Char) := do
  let p ← place
  if start.consumed.isPrefixOf p.consumed then return p.textFrom start
  else fault .movedBackwards

/-- The first `n` bytes of what remains, which have to be whole characters. -/
def sliceTo (n : Nat) : Run (List Char) := do
  match Position.splitBytes? n (← remaining) with
  | some (front, _) => return front
  | none => fault .brokenSlice

/-- What remains without its first `n` bytes, which have to be whole characters. -/
def sliceFrom (n : Nat) : Run (List Char) := do
  match Position.splitBytes? n (← remaining) with
  | some (_, back) => return back
  | none => fault .brokenSlice

/-- Some bytes from the middle of others. -/
def bytesBetween (first last : Nat) (bytes : List UInt8) : Run (List UInt8) :=
  if first ≤ last ∧ last ≤ bytes.length then return (bytes.take last).drop first
  else fault .bytesBehindEnd

/-- A difference that may not be negative. -/
def difference (a b : Nat) : Run Nat :=
  if b ≤ a then return a - b else fault .negativeDifference

/-- A sum that has to fit into a word of 32 bits. -/
def sum (a b : Nat) : Run Nat :=
  if a + b < UInt32.size then return a + b else fault .sumTooLarge

/-- Goes to another nesting, unless it is the result of a misuse. -/
def nestAs : Except Fault Nesting → Run Unit
  | .ok n => modify fun m => { m with nesting := n }
  | .error f => fault f

/-- Changes levels in place. -/
def level (step : Nesting.Step) : Run Unit := do
  nestAs (levelStep (← get).nesting step)

/-- Whether the level of a group that has been read is still to end. -/
def groupOpen : Run Bool := do
  return (← get).groupOpen

/-- Records whether the level of a group that has been read is still to end. -/
def setGroupOpen (isOpen : Bool) : Run Unit :=
  modify fun m => { m with groupOpen := isOpen }

end Run

/-- The value of a run of digits, cut off at `greatest` at every digit. -/
def saturated (base greatest : Nat) (digits : List Char) : Nat :=
  digits.foldl (fun n c => min (min (n * base) greatest + Numeral.digitValue c) greatest) 0

/-- The value of four hexadecimal digits in the first four bytes of a text. -/
def hexValue? (s : List Char) : Option Nat :=
  match Position.splitBytes? 4 s with
  | some (digits, _) =>
      if digits.all Numeral.isHexDigit then some (Numeral.value 16 digits) else none
  | none => none

/-- A byte that is a hexadecimal digit. -/
def isHexByte (b : UInt8) : Bool :=
  Numeral.isHexDigit (Char.ofUInt8 b)

end NamedCaptures.InPlace
