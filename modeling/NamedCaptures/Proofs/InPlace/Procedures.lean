import NamedCaptures.Proofs.InPlace.Moves

/-!
# The analysis in place

The procedures that analyze a pattern in place, from single escapes to the whole pattern. A
procedure with a loop calls itself, so it is told how deep calls may nest (`depth`), and is cut off
where they go deeper. A procedure for something with contents is told how to read these.

The level of a group does not end with its closing parenthesis but behind the quantifier that may
follow. Between the two the state says that the group is still open.
-/

namespace NamedCaptures.InPlace

open Run Pattern

/-- The code point of a surrogate pair. -/
def surrogatePair (lead trail : Nat) : Run Nat := do
  let high ← difference lead 0xD800
  let low ← difference trail 0xDC00
  let base ← sum 0x10000 (high * 0x400 % UInt32.size)
  sum base low

/-- Reads a code point in braces, after the opening one. -/
def bracedCodePoint : Run (Option Nat) := do
  if ← nextSatisfies Numeral.isHexDigit then
    let start ← place
    skipWhile Numeral.isHexDigit
    let value := saturated 16 (UInt32.size - 1) (← textSince start)
    if value ≤ CodePoint.last then
      if ← expect ['}'] .unclosedCodePoint then return some value else return none
    else
      reportAt start .codePointTooLarge
      let _ ← expect ['}'] .unclosedCodePoint
      return none
  else
    report .codePointWithoutDigits
    let _ ← tryConsume ['}']
    return none

/-- Reads the second half of a surrogate pair, if it follows the first one. -/
def trailSurrogate (lead : Nat) : Run (Option Nat) := do
  match hexValue? (← sliceFrom 2) with
  | none => return some lead
  | some trail =>
      if CodePoint.isTrailSurrogate trail then
        skipExact (← sliceTo 6)
        return some (← surrogatePair lead trail)
      else return some lead

/-- Reads the number of four hexadecimal digits, or of two escapes that are a surrogate pair. -/
def unbracedCodePoint : Run (Option Nat) := do
  match hexValue? (← remaining) with
  | none =>
      report .badUnicodeEscape
      return none
  | some lead =>
      skipExact (← sliceTo 4)
      if CodePoint.isLeadSurrogate lead then
        if ← nextIs ['\\', 'u'] then trailSurrogate lead else return some lead
      else return some lead

/-- Reads a Unicode escape from its letter `u` on. -/
def unicodeEscape : Run (Option Nat) := do
  skipExact ['u']
  if ← tryConsume ['{'] then bracedCodePoint else unbracedCodePoint

/-- Reads a property expression in braces. -/
def propertyExpression : Run Unit := do
  if ← expect ['{'] .propertyWithoutBrace then
    skipWhile isPropertyChar
    let _ ← expect ['}'] .unclosedProperty
    return ()
  else return ()

/-- Reads the letter of a control escape. -/
def controlLetter : Run Unit := do
  if ← nextSatisfies Char.isAlpha then skipOne else report .badControlLetter

/-- Reads the letter `x` and two hexadecimal digits. -/
def hexEscape : Run Unit := do
  let bytes := Position.bytes (← remaining)
  if 3 ≤ bytes.length then
    if (← bytesBetween 1 3 bytes).all isHexByte then skipExact (← sliceTo 3)
    else report .badHexEscape
  else report .badHexEscape

/-- Reads an escape for a character or a set of characters, which begins with `c`. -/
def characterEscape (c : Char) : Run Unit := do
  match c with
  | 'p' =>
      skipOne
      propertyExpression
  | 'P' =>
      skipOne
      propertyExpression
  | 'c' =>
      skipOne
      controlLetter
  | 'x' => hexEscape
  | 'u' =>
      let _ ← unicodeEscape
      return ()
  | _ => skipOne

/-- The character of a name that an escape with the given code point is. -/
def nameCharOf (accept : Char → Bool) (start : Position) : Option Nat → Run NameChar
  | none => return .invalid
  | some n =>
      match (CodePoint.toChar? n).filter accept with
      | some c => return .valid c
      | none => do
          reportAt start .badGroupNameEscape
          return .invalid

/-- Reads one character of a name, which has to satisfy `accept`. -/
def nameChar (accept : Char → Bool) : Run NameChar := do
  if ← nextIs ['\\', 'u'] then
    let start ← place
    skipOne
    nameCharOf accept start (← unicodeEscape)
  else
    match ← peek with
    | none => return .absent
    | some c =>
        if accept c then
          skipOne
          return .valid c
        else return .absent

/-- Reads the characters of a name after the given ones, which are there as long as all are
valid. -/
def nameTail : Nat → Option (List Char) → Run (Option (List Char))
  | 0, _ => cutOff
  | depth + 1, name => do
      match ← nameChar Identifier.isPart with
      | .valid c => nameTail depth (name.map fun cs => cs ++ [c])
      | .invalid => nameTail depth none
      | .absent => return name

/-- Reads a name after its first character, and its closing angle bracket. -/
def nameToEnd (depth : Nat) (first : Option (List Char)) : Run (Option String) := do
  let name ← nameTail depth first
  if ← expect ['>'] .unclosedGroupName then return name.map String.ofList else return none

/-- Reads a name between angle brackets. -/
def groupName (depth : Nat) : Run (Option String) := do
  if ← expect ['<'] .groupNameWithoutOpening then
    match ← nameChar Identifier.isStart with
    | .valid c => nameToEnd depth (some [c])
    | .invalid => nameToEnd depth none
    | .absent =>
        report .emptyGroupName
        return none
  else return none

/-- Reads what follows a backslash outside character classes. -/
def atomEscape (depth : Nat) : Run Unit := do
  match ← peek with
  | none => report .bareBackslash
  | some c =>
      if '1' ≤ c ∧ c ≤ '9' then skipWhile Char.isDigit
      else if c = 'k' then
        skipOne
        let _ ← groupName depth
        return ()
      else characterEscape c

/-- Reads what follows a backslash inside a character class. -/
def classEscape : Run Unit := do
  match ← peek with
  | none => report .bareBackslashInClass
  | some c => if c = 'b' ∨ c = '-' then skipOne else characterEscape c

/-- Reads the members of a character class and its closing bracket. -/
def classMembers : Nat → Run Unit
  | 0 => cutOff
  | depth + 1 => do
      skipToEither 93 92
      match ← peek with
      | none => report .unclosedClass
      | some c =>
          if c = ']' then skipOne
          else
            skipExact ['\\']
            classEscape
            classMembers depth

/-- Reads a character class. -/
def characterClass (depth : Nat) : Run Unit := do
  skipExact ['[']
  let _ ← tryConsume ['^']
  classMembers depth

/-- Reads a run of decimal digits, if one is there. -/
def count? : Run (Option Nat) := do
  let start ← place
  skipWhile Char.isDigit
  let digits ← textSince start
  if digits.isEmpty then return none
  else return some (saturated 10 Quantifier.maxCount digits)

/-- Reads the part of a counted quantifier from after its first number on, without the closing
brace. -/
def greatestCount (least : Nat) : Run Nat := do
  if ← tryConsume [','] then return (← count?).getD Quantifier.maxCount
  else return least

/-- Reads a counted quantifier. -/
def countedQuantifier : Run (Option Quantifier) := do
  let start ← place
  skipOne
  match ← count? with
  | none =>
      report .quantifierWithoutDigits
      skipWhile fun c => c == ',' || c.isDigit
      let _ ← tryConsume ['}']
      return none
  | some least =>
      let greatest ← greatestCount least
      if ← expect ['}'] .unclosedQuantifier then
        if greatest < least then
          reportAt start .quantifierOutOfOrder
          return some ⟨least, greatest⟩
        else return some ⟨least, greatest⟩
      else return none

/-- Reads a quantifier without a mark for laziness. -/
def bareQuantifier : Run (Option Quantifier) := do
  match ← peek with
  | some '+' =>
      skipOne
      return some ⟨1, Quantifier.maxCount⟩
  | some '*' =>
      skipOne
      return some ⟨0, Quantifier.maxCount⟩
  | some '?' =>
      skipOne
      return some ⟨0, 1⟩
  | some '{' => countedQuantifier
  | _ => return none

/-- Reads a quantifier, with the mark for laziness if it has one. -/
def quantifier : Run (Option Quantifier) := do
  match ← bareQuantifier with
  | some q =>
      let _ ← tryConsume ['?']
      return some q
  | none => return none

/-- The assertions without contents. -/
def anchors : List (List Char × Unit) :=
  [(['^'], ()), (['$'], ()), (['\\', 'b'], ()), (['\\', 'B'], ())]

/-- The beginnings of the assertions with contents, and whether those have to fail. -/
def lookarounds : List (List Char × Bool) :=
  [(['(', '?', '='], false), (['(', '?', '!'], true), (['(', '?', '<', '='], false),
    (['(', '?', '<', '!'], true)]

/-- Whether an atom begins here. -/
def atAtom : Run Bool := do
  match ← peek with
  | some c => return ['\\', '.', '[', '('].contains c || !isSyntaxChar c
  | none => return false

/-- Ends the level of a group, if the atom before was one. -/
def endGroup (q : Option Quantifier) : Run Unit := do
  if ← groupOpen then
    setGroupOpen false
    if q.any (·.allowsNone) then
      level .loosen
      level .ascend
    else level .ascend
  else return ()

/-- Reads what a group begins with after its parenthesis. -/
def groupOpening (depth : Nat) : Run Unit := do
  if ← tryConsume ['?', ':'] then return ()
  else if ← tryConsume ['?'] then
    match ← groupName depth with
    | some name => level (.name name)
    | none => return ()
  else return ()

/-- Reads a group, up to its closing parenthesis. -/
def group (depth : Nat) (contents : Run Unit) : Run Unit := do
  if ← groupOpen then fault .groupStillOpen
  else
    skipExact ['(']
    level .descend
    groupOpening depth
    contents
    level .settle
    let _ ← expect [')'] .unclosedGroup
    setGroupOpen true

/-- Reads the contents of a lookaround and its closing parenthesis. -/
def lookaround (negative : Bool) (contents : Run Unit) : Run Unit := do
  level .descend
  contents
  level .settle
  if negative then
    level .loosen
    let _ ← expect [')'] .unclosedGroup
    level .ascend
  else
    let _ ← expect [')'] .unclosedGroup
    level .ascend

/-- Reads an atom. The level of a group does not end yet. -/
def atom (depth : Nat) (contents : Run Unit) : Run Unit := do
  match ← peek with
  | none => fault .noCharacter
  | some c =>
      if c = '\\' then
        skipOne
        atomEscape depth
      else if c = '[' then characterClass depth
      else if c = '(' then group depth contents
      else skipOne

/-- Reads an assertion, if one begins here. -/
def assertion (contents : Run Unit) : Run Bool := do
  match ← tryConsumeAny anchors with
  | some _ => return true
  | none =>
      match ← tryConsumeAny lookarounds with
      | some negative =>
          lookaround negative contents
          return true
      | none => return false

/-- Reads a term, if one begins here. -/
def term (depth : Nat) (contents : Run Unit) : Run Bool := do
  if ← assertion contents then return true
  else if ← atAtom then
    atom depth contents
    endGroup (← quantifier)
    return true
  else return false

mutual

/-- Reads alternatives with bars between them. -/
def disjunction : Nat → Run Unit
  | 0 => cutOff
  | depth + 1 => do
      alternative depth
      moreAlternatives depth

/-- Reads the alternatives behind the first one. -/
def moreAlternatives : Nat → Run Unit
  | 0 => cutOff
  | depth + 1 => do
      if ← tryConsume ['|'] then
        level .bar
        alternative depth
        moreAlternatives depth
      else return ()

/-- Reads terms, and skips what is misplaced among them. -/
def alternative : Nat → Run Unit
  | 0 => cutOff
  | depth + 1 => do
      if ← term depth (disjunction depth) then alternative depth
      else if ← nextSatisfies fun c => c == ']' || c == '}' then
        report .strayCloser
        skipOne
        alternative depth
      else if ← nextSatisfies isQuantifierStart then
        report .nothingToRepeat
        let _ ← quantifier
        alternative depth
      else return ()

end

/-- Reads on behind every closing parenthesis that is left over. -/
def leftOver : Nat → Run Unit
  | 0 => cutOff
  | depth + 1 => do
      if (← place).atEnd then return ()
      else
        report .strayCloser
        skipOne
        disjunction depth
        leftOver depth

/-- The outcome, once the whole pattern is read. -/
def outcome : Run Outcome := do
  let m ← get
  if m.nesting.depth ≠ 0 then fault .levelsLeft
  else if m.groupOpen then fault .groupStillOpen
  else if m.problems.isEmpty then return .success m.nesting.settledGroups
  else return .failure m.problems

/-- Reads a whole pattern. -/
def whole (depth : Nat) : Run Outcome := do
  disjunction depth
  leftOver depth
  outcome

/-- Analyzes a pattern in place, where calls may nest so deep: the outcome or a fault, unless the
run is cut off. -/
def analyze (depth : Nat) (pattern : String) : Option (Except Fault Outcome) :=
  ((whole depth).run' { place := .start pattern.toList }).run

end NamedCaptures.InPlace
