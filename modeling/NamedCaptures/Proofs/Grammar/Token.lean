import NamedCaptures.Pattern.GroupName
import NamedCaptures.Pattern.Quantifier
import NamedCaptures.Proofs.Text.Numerals

/-!
# The tokens of the pattern grammar

What the parts of a pattern without groups in them look like, as relations on lists of characters:
digits, Unicode escapes, character escapes, the items of a class, group names, quantifiers and the
atoms that are no groups. A relation says which texts a token has, and for names and quantifiers
also what the text stands for. No relation looks at what follows the token. Digits stand for numbers
by their places (`Numeral.number`).
-/

namespace NamedCaptures.Grammar

/-- The characters with a role of their own, which stand for themselves only behind a backslash. -/
def syntaxChars : List Char :=
  ['^', '$', '\\', '.', '*', '+', '?', '(', ')', '[', ']', '{', '}', '|']

/-- The letters and the digit that are an escape by themselves. -/
def wholeEscapes : List Char :=
  ['d', 'D', 's', 'S', 'w', 'W', 'f', 'n', 'r', 't', 'v', '0']

/-- The letters that begin a longer escape. -/
def openEscapes : List Char :=
  ['p', 'P', 'c', 'x', 'u']

/-- A run of at least one character, all of one sort. -/
def Digits (accept : Char → Bool) (ds : List Char) : Prop :=
  ds ≠ [] ∧ ∀ c ∈ ds, accept c = true

/-- Four hexadecimal digits. -/
def FourHexDigits (ds : List Char) : Prop :=
  ds.length = 4 ∧ ∀ c ∈ ds, Numeral.isHexDigit c = true

/-- A Unicode escape from its letter on, and the number that it names. -/
inductive UnicodeEscape : List Char → Nat → Prop
  | four {ds : List Char} (h : FourHexDigits ds) : UnicodeEscape ('u' :: ds) (Numeral.number 16 ds)
  | braced {ds : List Char} (h : Digits Numeral.isHexDigit ds)
      (hle : Numeral.number 16 ds ≤ CodePoint.last) :
      UnicodeEscape ('u' :: '{' :: (ds ++ ['}'])) (Numeral.number 16 ds)

/-- What follows the backslash in an escape for a character or for a set of characters. -/
inductive CharEscape : List Char → Prop
  | whole {c : Char} (h : c ∈ wholeEscapes) : CharEscape [c]
  | property {c : Char} {s : List Char} (hc : c = 'p' ∨ c = 'P')
      (hs : ∀ d ∈ s, d.isAlphanum = true ∨ d = '_' ∨ d = '=') :
      CharEscape (c :: '{' :: (s ++ ['}']))
  | control {c : Char} (h : c.isAlpha = true) : CharEscape ['c', c]
  | hex {a b : Char} (ha : Numeral.isHexDigit a = true) (hb : Numeral.isHexDigit b = true) :
      CharEscape ['x', a, b]
  | unicode {s : List Char} {n : Nat} (h : UnicodeEscape s n) : CharEscape s
  | identity {c : Char} (hw : c ∉ wholeEscapes) (ho : c ∉ openEscapes) : CharEscape [c]

/-- The contents of a character class: escapes, and characters that are neither a closing bracket
nor a backslash. -/
inductive ClassItems : List Char → Prop
  | nil : ClassItems []
  | plain {c : Char} {s : List Char} (hb : c ≠ ']') (he : c ≠ '\\') (hs : ClassItems s) :
      ClassItems (c :: s)
  | escape {e s : List Char} (he : CharEscape e) (hs : ClassItems s) :
      ClassItems ('\\' :: (e ++ s))

/-- A character of a group name and its spellings: as itself, by one Unicode escape, or by the two
escapes of its surrogate pair. -/
inductive SpellsChar : List Char → Char → Prop
  | literal (c : Char) : SpellsChar [c] c
  | escape {s : List Char} {c : Char} (h : UnicodeEscape s c.toNat) : SpellsChar ('\\' :: s) c
  | pair {ds es : List Char} {c : Char} (hd : FourHexDigits ds) (he : FourHexDigits es)
      (hlead : CodePoint.isLeadSurrogate (Numeral.number 16 ds) = true)
      (htrail : CodePoint.isTrailSurrogate (Numeral.number 16 es) = true)
      (hc : c.toNat = CodePoint.ofSurrogates (Numeral.number 16 ds) (Numeral.number 16 es)) :
      SpellsChar ('\\' :: 'u' :: (ds ++ '\\' :: 'u' :: es)) c

/-- The characters of a group name after its first, and their spellings. -/
inductive SpellsTail : List Char → List Char → Prop
  | nil : SpellsTail [] []
  | cons {s t : List Char} {c : Char} {cs : List Char} (h : SpellsChar s c)
      (hc : Identifier.isPart c = true) (ht : SpellsTail t cs) : SpellsTail (s ++ t) (c :: cs)

/-- A group name and its spellings: one character that begins an identifier, and then characters
that continue one. -/
inductive SpellsName : List Char → List Char → Prop
  | mk {s t : List Char} {c : Char} {cs : List Char} (h : SpellsChar s c)
      (hc : Identifier.isStart c = true) (ht : SpellsTail t cs) : SpellsName (s ++ t) (c :: cs)

/-- The count that a run of digits stands for, which is a word of 64 bits. -/
def countOf (ds : List Char) : Nat :=
  min (Numeral.number 10 ds) (UInt64.size - 1)

/-- A quantifier without a mark for laziness, and its counts. The least count is not above the
greatest. -/
inductive BareQuantifier : List Char → Pattern.Quantifier → Prop
  | star : BareQuantifier ['*'] ⟨0, Pattern.Quantifier.maxCount⟩
  | plus : BareQuantifier ['+'] ⟨1, Pattern.Quantifier.maxCount⟩
  | mark : BareQuantifier ['?'] ⟨0, 1⟩
  | exactly {ds : List Char} (h : Digits Char.isDigit ds) :
      BareQuantifier ('{' :: (ds ++ ['}'])) ⟨countOf ds, countOf ds⟩
  | atLeast {ds : List Char} (h : Digits Char.isDigit ds) :
      BareQuantifier ('{' :: (ds ++ [',', '}'])) ⟨countOf ds, Pattern.Quantifier.maxCount⟩
  | between {ds es : List Char} (hd : Digits Char.isDigit ds) (he : Digits Char.isDigit es)
      (hle : countOf ds ≤ countOf es) :
      BareQuantifier ('{' :: (ds ++ ',' :: (es ++ ['}']))) ⟨countOf ds, countOf es⟩

/-- What may follow an atom: nothing, or a quantifier, which a question mark makes lazy. -/
inductive Quantification : List Char → Option Pattern.Quantifier → Prop
  | once : Quantification [] none
  | greedy {s : List Char} {q : Pattern.Quantifier} (h : BareQuantifier s q) :
      Quantification s (some q)
  | lazy {s : List Char} {q : Pattern.Quantifier} (h : BareQuantifier s q) :
      Quantification (s ++ ['?']) (some q)

/-- The atoms that hold no disjunction. An escape outside classes does not begin with a letter of a
word boundary, with a digit of a back reference by number, or with the letter of one by name. -/
inductive LeafAtom : List Char → Prop
  | plain {c : Char} (h : c ∉ syntaxChars) : LeafAtom [c]
  | dot : LeafAtom ['.']
  | characterClass {s : List Char} (h : ClassItems s) : LeafAtom ('[' :: (s ++ [']']))
  | negatedClass {s : List Char} (h : ClassItems s) : LeafAtom ('[' :: '^' :: (s ++ [']']))
  | backReference {c : Char} {ds : List Char} (hc : '1' ≤ c ∧ c ≤ '9')
      (hds : ∀ d ∈ ds, d.isDigit = true) : LeafAtom ('\\' :: c :: ds)
  | namedReference {s name : List Char} (h : SpellsName s name) :
      LeafAtom ('\\' :: 'k' :: '<' :: (s ++ ['>']))
  | escape {c : Char} {s : List Char} (h : CharEscape (c :: s)) (hb : c ≠ 'b' ∧ c ≠ 'B')
      (hd : ¬ ('1' ≤ c ∧ c ≤ '9')) (hk : c ≠ 'k') : LeafAtom ('\\' :: c :: s)

end NamedCaptures.Grammar
