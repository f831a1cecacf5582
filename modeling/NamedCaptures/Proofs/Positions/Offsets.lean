import NamedCaptures.Proofs.InPlace.Bytes

/-!
# Places by byte offsets

A place in a text can also be given by the number of bytes before it. Then moving forward is adding
to a number, and whether the place is one between two characters has to be seen to: where it is not,
the text before it and the text from it on are no texts. This module defines such places and the
moves of them, which add numbers of bytes, and shows that they do just what the moves of positions
do (`move_ofPosition`). So a place that is reached from the start of a text is between two
characters.
-/

namespace NamedCaptures

open InPlace (byteLength splitBytes?_append splitBytes?_add byteLength_append)

/-- A move forward in a text. -/
inductive Position.Move where
  /-- Over one character. -/
  | advance
  /-- Over the characters that satisfy a condition. -/
  | advanceWhile (accept : Char → Bool)
  /-- Over a text that has to come next. -/
  | advanceOver (s : List Char)
  /-- Up to the first of two bytes, which have to be ASCII characters. -/
  | advanceToEither (a b : UInt8)

namespace Position

/-- Makes a move. -/
def move (p : Position) : Move → Except InPlace.Fault Position
  | .advance => .ok p.advance
  | .advanceWhile accept => .ok (p.advanceWhile accept)
  | .advanceOver s => (p.advanceOver s).mapError .position
  | .advanceToEither a b =>
      if a < 128 ∧ b < 128 then (p.advanceToEither a b).mapError .position
      else .error .needleNotAscii

end Position

/-- A place in a text, by the number of bytes before it. -/
structure Offset where
  text : List Char
  bytes : Nat
  deriving DecidableEq, Repr

namespace Offset

/-- The start of a text. -/
def start (text : List Char) : Offset :=
  ⟨text, 0⟩

/-- The text before the place and from it on, if the place is between two characters. -/
def parts (o : Offset) : Except InPlace.Fault (List Char × List Char) :=
  match Position.splitBytes? o.bytes o.text with
  | some parts => .ok parts
  | none => .error .brokenSlice

/-- Forward by a number of bytes, to a place between two characters. -/
def forward (o : Offset) (n : Nat) : Except InPlace.Fault Offset :=
  match Position.splitBytes? (o.bytes + n) o.text with
  | some _ => .ok { o with bytes := o.bytes + n }
  | none => .error (.position .insideCharacter)

/-- The text from an earlier place up to this one. -/
def textSince (o earlier : Offset) : Except InPlace.Fault (List Char) := do
  if earlier.bytes ≤ o.bytes then
    let (_, back) ← earlier.parts
    let (between, _) ← parts ⟨back, o.bytes - earlier.bytes⟩
    return between
  else .error .movedBackwards

/-- Makes a move, by adding the number of bytes of what it goes over. -/
def move (o : Offset) : Position.Move → Except InPlace.Fault Offset
  | .advance => do
      let (_, rest) ← o.parts
      match rest with
      | c :: _ => o.forward c.utf8Size
      | [] => return o
  | .advanceWhile accept => do
      let (_, rest) ← o.parts
      o.forward (byteLength (rest.takeWhile accept))
  | .advanceOver s => do
      let (_, rest) ← o.parts
      if s.isPrefixOf rest then o.forward (byteLength s)
      else .error (.position (.notNext s rest))
  | .advanceToEither a b =>
      if a < 128 ∧ b < 128 then do
        let (_, rest) ← o.parts
        o.forward ((Position.bytes rest).findIdx fun x => x == a || x == b)
      else .error .needleNotAscii

/-- The offset of a position. -/
def ofPosition (p : Position) : Offset :=
  ⟨p.text, byteLength p.consumed⟩

variable (p : Position)

theorem parts_ofPosition : (ofPosition p).parts = .ok (p.consumed, p.remaining) := by
  rw [parts, ofPosition, Position.text, splitBytes?_append]

theorem forward_ofPosition (n : Nat) :
    (ofPosition p).forward n = ((p.forwardBytes n).mapError .position).map ofPosition := by
  rw [forward, ofPosition, Position.text, splitBytes?_add, Position.forwardBytes]
  cases hsplit : Position.splitBytes? n p.remaining with
  | none => rfl
  | some q =>
      obtain ⟨hremaining, rfl⟩ := InPlace.eq_of_splitBytes? hsplit
      have hoffset : ofPosition ⟨p.consumed ++ q.1, q.2⟩ =
          ⟨p.consumed ++ p.remaining, byteLength p.consumed + byteLength q.1⟩ := by
        rw [ofPosition, Position.text, byteLength_append, hremaining, List.append_assoc]
      exact congrArg Except.ok hoffset.symm

/-- Forward by the bytes of some characters that come next is forward by these characters. -/
theorem forward_append {front back : List Char} (h : p.remaining = front ++ back) :
    (ofPosition p).forward (byteLength front) = .ok (ofPosition ⟨p.consumed ++ front, back⟩) := by
  rw [forward_ofPosition, Position.forwardBytes, h, splitBytes?_append]
  rfl

/-- A move of an offset is the move of the position. -/
theorem move_ofPosition (m : Position.Move) :
    (ofPosition p).move m = (p.move m).map ofPosition := by
  cases m with
  | advance =>
      rw [move, parts_ofPosition, Position.move]
      cases hremaining : p.remaining with
      | nil =>
          have hstay : p.advance = p := by
            ext1 <;> simp [Position.advance, Position.forward, hremaining]
          rw [hstay]
          rfl
      | cons c rest =>
          have hover : p.advance = ⟨p.consumed ++ [c], rest⟩ := by
            simp [Position.advance, Position.forward, hremaining]
          rw [hover]
          have hfront : p.remaining = [c] ++ rest := hremaining
          exact forward_append p hfront
  | advanceWhile accept =>
      rw [move, parts_ofPosition, Position.move, Position.advanceWhile]
      exact forward_append p List.takeWhile_append_dropWhile.symm
  | advanceOver s =>
      have hmove : (ofPosition p).move (.advanceOver s) = if s.isPrefixOf p.remaining then
          (ofPosition p).forward (byteLength s)
          else .error (.position (.notNext s p.remaining)) := by
        rw [move, parts_ofPosition]
        rfl
      rw [hmove, Position.move, Position.advanceOver, Position.nextIs]
      cases hnext : s.isPrefixOf p.remaining with
      | false => rfl
      | true =>
          obtain ⟨rest, hrest⟩ := List.isPrefixOf_iff_prefix.mp hnext
          have hover : p.forward s.length = ⟨p.consumed ++ s, rest⟩ := by
            simp [Position.forward, ← hrest]
          rw [if_pos rfl, if_pos rfl, hover]
          exact forward_append p hrest.symm
  | advanceToEither a b =>
      rw [move, parts_ofPosition, Position.move, Position.advanceToEither]
      by_cases hascii : a < 128 ∧ b < 128
      · rw [if_pos hascii, if_pos hascii]
        exact forward_ofPosition p _
      · rw [if_neg hascii, if_neg hascii]
        rfl

end Offset

end NamedCaptures
