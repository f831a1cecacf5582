import NamedCaptures.Proofs.Grammar.Token

/-!
# Derivation trees of patterns

The grammar of patterns as a family of trees with one index for each nonterminal: a disjunction is
alternatives with bars between them, an alternative is a sequence of terms, and a term is an
anchor, a lookaround or an atom with what follows it. The text of a tree is what its leaves spell
from left to right, and a text is derivable when it is that of a disjunction.

## Implementation notes

Where a token is part of a tree, the tree holds the text of the token together with a proof that
the token has that text. So every tree is a derivation, and no separate notion of validity exists.
-/

namespace NamedCaptures.Grammar

/-- The nonterminals of the grammar. -/
inductive Part where
  | disjunction
  | alternative
  | term
  deriving DecidableEq, Repr

/-- The assertions without contents. -/
inductive Anchor where
  | start
  | finish
  | boundary
  | noBoundary
  deriving DecidableEq, Repr

/-- The text of an anchor. -/
def Anchor.text : Anchor → List Char
  | start => ['^']
  | finish => ['$']
  | boundary => ['\\', 'b']
  | noBoundary => ['\\', 'B']

/-- The assertions with contents. -/
inductive Lookaround where
  | ahead
  | notAhead
  | behind
  | notBehind
  deriving DecidableEq, Repr

namespace Lookaround

/-- The text before the contents, without the parenthesis. -/
def text : Lookaround → List Char
  | ahead => ['?', '=']
  | notAhead => ['?', '!']
  | behind => ['?', '<', '=']
  | notBehind => ['?', '<', '!']

/-- Whether the contents have to fail. -/
def negative : Lookaround → Bool
  | ahead => false
  | notAhead => true
  | behind => false
  | notBehind => true

end Lookaround

/-- What stands between the parenthesis of a group and its contents. -/
inductive Opener where
  | unmarked
  | withoutCapture
  | named (spelling name : List Char) (h : SpellsName spelling name)

namespace Opener

/-- The text before the contents, without the parenthesis. -/
def text : Opener → List Char
  | unmarked => []
  | withoutCapture => ['?', ':']
  | named spelling _ _ => '?' :: '<' :: (spelling ++ ['>'])

/-- The decoded name of the group. -/
def name? : Opener → Option String
  | unmarked => none
  | withoutCapture => none
  | named _ name _ => some (String.ofList name)

end Opener

/-- What follows an atom. -/
structure Repetition where
  text : List Char
  quantifier : Option Pattern.Quantifier
  derived : Quantification text quantifier

/-- Whether the quantifier, if there is one, allows no repetition at all. -/
def Repetition.allowsNone (q : Repetition) : Bool :=
  q.quantifier.any Pattern.Quantifier.allowsNone

/-- The derivation trees of a nonterminal. -/
inductive Tree : Part → Type where
  /-- A disjunction of one alternative. -/
  | single (a : Tree .alternative) : Tree .disjunction
  /-- An alternative, a bar, and the alternatives behind it. -/
  | bar (a : Tree .alternative) (d : Tree .disjunction) : Tree .disjunction
  /-- The alternative without terms. -/
  | nil : Tree .alternative
  /-- A term, and the terms behind it. -/
  | cons (t : Tree .term) (a : Tree .alternative) : Tree .alternative
  | anchor (k : Anchor) : Tree .term
  | lookaround (k : Lookaround) (d : Tree .disjunction) : Tree .term
  /-- An atom that is no group, with what follows it. -/
  | leaf (s : List Char) (h : LeafAtom s) (q : Repetition) : Tree .term
  /-- A group, with what follows it. -/
  | group (o : Opener) (d : Tree .disjunction) (q : Repetition) : Tree .term

namespace Tree

/-- The text that the leaves spell. -/
def text : {p : Part} → Tree p → List Char
  | _, single a => a.text
  | _, bar a d => a.text ++ '|' :: d.text
  | _, nil => []
  | _, cons t a => t.text ++ a.text
  | _, anchor k => k.text
  | _, lookaround k d => '(' :: (k.text ++ (d.text ++ [')']))
  | _, leaf s _ q => s ++ q.text
  | _, group o d q => '(' :: (o.text ++ (d.text ++ ')' :: q.text))

/-- Whether a bar stands directly on the level of the tree. -/
def hasBar : {p : Part} → Tree p → Bool
  | _, bar _ _ => true
  | _, _ => false

end Tree

/-- A text of the grammar. -/
def Derivable (s : List Char) : Prop :=
  ∃ d : Tree .disjunction, d.text = s

end NamedCaptures.Grammar
