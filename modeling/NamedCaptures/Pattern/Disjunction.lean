import NamedCaptures.Pattern.Opening
import NamedCaptures.Reading

/-!
# Disjunctions, alternatives and terms

A disjunction is a sequence of alternatives with bars between them, and an alternative a sequence
of terms. Groups and lookarounds are terms that hold a disjunction, up to their closing
parenthesis. Every reader goes on after what is wrong: an alternative skips what is misplaced in
it, and a group that is not closed ends with the text.

The main statements are the equations `disjunction_eq`, `alternative_eq`, `term?_eq`,
`lookaround_eq` and `group_eq`, one for each reader.

## Implementation notes

The readers call each other on what is left of the text, which never grows and gets shorter with
each term. `Bounded` defines them together with this bound; outside, only the equations matter.
-/

namespace NamedCaptures.Pattern

/-- Reads the parenthesis that closes a group or lookaround. -/
def closingParenthesis (s : List Char) : Reading :=
  .ofLexeme (Lexeme.expect ')' .unclosedGroup s)

/-- Reads what a group begins with after its parenthesis: the mark of a group without capture, or
a question mark and a name, or nothing. The value is the name. -/
def groupOpening : List Char → Lexeme (Option String)
  | '?' :: ':' :: s => ⟨none, s, []⟩
  | '?' :: s => groupName s
  | s => ⟨none, s, []⟩

/-- The steps where a group with that opening begins. -/
def openingSteps : Option String → List Nesting.Step
  | some name => [.descend, .name name]
  | none => [.descend]

/-- The steps where a lookaround ends: captures of a negative one are never kept. -/
def lookaroundSteps (negative : Bool) : List Nesting.Step :=
  if negative then [.loosen, .ascend] else [.ascend]

/-- The steps where a group with that quantifier ends: no repetition captures nothing. -/
def quantifiedSteps : Option Quantifier → List Nesting.Step
  | some q => if q.allowsNone then [.loosen, .ascend] else [.ascend]
  | none => [.ascend]

theorem closingParenthesis_rest (s : List Char) : (closingParenthesis s).rest <:+ s :=
  Lexeme.expect_rest _ _ s

theorem groupOpening_rest (s : List Char) : (groupOpening s).rest <:+ s := by
  unfold groupOpening
  split
  · exact (List.suffix_cons _ _).trans (List.suffix_cons _ _)
  · exact (groupName_rest _).trans (List.suffix_cons _ _)
  · exact List.suffix_rfl

namespace Bounded

/-- A reading that leaves a part of the text. -/
abbrev Within (s : List Char) : Type :=
  { r : Reading // r.rest <:+ s }

/-- A reading that leaves a part of the text, but not all of it. -/
abbrev Shorter (s : List Char) : Type :=
  { r : Reading // r.rest <:+ s ∧ r.rest.length < s.length }

theorem length_lt {s t : List Char} {c : Char} (h : c :: t <:+ s) : t.length < s.length :=
  h.length_le

theorem suffix_of_cons {s t : List Char} {c : Char} (h : c :: t <:+ s) : t <:+ s :=
  (List.suffix_cons c t).trans h

mutual

/-- Reads alternatives with bars between them. -/
def disjunction (s : List Char) : Within s :=
  let first := alternative s
  match h : first.1.rest with
  | '|' :: t =>
      have ht : '|' :: t <:+ s := h ▸ first.2
      have := length_lt ht
      let others := disjunction t
      ⟨first.1.andThen ((Reading.ofSteps [.bar] t).andThen others.1),
        others.2.trans (suffix_of_cons ht)⟩
  | _ => first
termination_by 4 * s.length + 2

/-- Reads terms, and skips what is misplaced among them. -/
def alternative (s : List Char) : Within s :=
  match term? s with
  | some term =>
      have := term.2.2
      let others := alternative term.1.rest
      ⟨term.1.andThen others.1, others.2.trans term.2.1⟩
  | none =>
      match h : misplaced? s with
      | some skipped =>
          have hskipped := misplaced?_rest h
          have := hskipped.2
          let others := alternative skipped.rest
          ⟨(Reading.ofLexeme skipped).andThen others.1, others.2.trans hskipped.1⟩
      | none => ⟨Reading.ofSteps [] s, List.suffix_rfl⟩
termination_by 4 * s.length + 1

/-- Reads a term, if one begins here. -/
def term? (s : List Char) : Option (Shorter s) :=
  match h : Opening.of s with
  | .none => none
  | .anchor t =>
      have ht : _ ∧ _ := Opening.of_rest? (congrArg Opening.rest? h)
      some ⟨Reading.ofSteps [] t, ht⟩
  | .atom read =>
      have ht : _ ∧ _ := Opening.of_rest? (congrArg Opening.rest? h)
      let repeated := quantifier read.rest
      have hr := quantifier_rest read.rest
      some ⟨(Reading.ofLexeme read).andThen (Reading.ofLexeme repeated),
        hr.trans ht.1, Nat.lt_of_le_of_lt hr.length_le ht.2⟩
  | .lookaround negative t =>
      have ht : _ ∧ _ := Opening.of_rest? (congrArg Opening.rest? h)
      have := ht.2
      let read := lookaround negative t
      some ⟨read.1, read.2.trans ht.1, Nat.lt_of_le_of_lt read.2.length_le ht.2⟩
  | .group t =>
      have ht : _ ∧ _ := Opening.of_rest? (congrArg Opening.rest? h)
      have := ht.2
      let read := group t
      let repeated := quantifier read.1.rest
      have hr := (quantifier_rest read.1.rest).trans read.2
      some ⟨read.1.andThen ((Reading.ofLexeme repeated).andThen
          (Reading.ofSteps (quantifiedSteps repeated.value) repeated.rest)),
        hr.trans ht.1, Nat.lt_of_le_of_lt hr.length_le ht.2⟩
termination_by 4 * s.length

/-- Reads the contents of a lookaround and its closing parenthesis. -/
def lookaround (negative : Bool) (s : List Char) : Within s :=
  let contents := disjunction s
  let closing := closingParenthesis contents.1.rest
  have hr := (closingParenthesis_rest contents.1.rest).trans contents.2
  ⟨(Reading.ofSteps [.descend] s).andThen (contents.1.andThen (closing.andThen
    (Reading.ofSteps (.settle :: lookaroundSteps negative) closing.rest))), hr⟩
termination_by 4 * s.length + 3

/-- Reads a group from behind its opening parenthesis to its closing one. Its level is not ended. -/
def group (s : List Char) : Within s :=
  let opening := groupOpening s
  have ho := groupOpening_rest s
  have := ho.length_le
  let contents := disjunction opening.rest
  let closing := closingParenthesis contents.1.rest
  have hr := ((closingParenthesis_rest contents.1.rest).trans contents.2).trans ho
  ⟨(Reading.ofLexeme opening).andThen ((Reading.ofSteps (openingSteps opening.value)
    opening.rest).andThen (contents.1.andThen (closing.andThen
    (Reading.ofSteps [.settle] closing.rest)))), hr⟩
termination_by 4 * s.length + 3

end

end Bounded

/-- Reads alternatives with bars between them. -/
def disjunction (s : List Char) : Reading :=
  (Bounded.disjunction s).1

/-- Reads terms, and skips what is misplaced among them. -/
def alternative (s : List Char) : Reading :=
  (Bounded.alternative s).1

/-- Reads a term, if one begins here. -/
def term? (s : List Char) : Option Reading :=
  (Bounded.term? s).map (·.1)

/-- Reads the contents of a lookaround and its closing parenthesis. -/
def lookaround (negative : Bool) (s : List Char) : Reading :=
  (Bounded.lookaround negative s).1

/-- Reads a group after its opening parenthesis, up to its closing one. Its level does not end yet,
so that a quantifier behind the group can make its captures optional. -/
def group (s : List Char) : Reading :=
  (Bounded.group s).1

theorem disjunction_rest (s : List Char) : (disjunction s).rest <:+ s :=
  (Bounded.disjunction s).2

theorem alternative_rest (s : List Char) : (alternative s).rest <:+ s :=
  (Bounded.alternative s).2

theorem term?_rest {s : List Char} {r : Reading} (h : term? s = some r) :
    r.rest <:+ s ∧ r.rest.length < s.length := by
  obtain ⟨q, _, rfl⟩ := Option.map_eq_some_iff.mp h
  exact q.2

theorem group_rest (s : List Char) : (group s).rest <:+ s :=
  (Bounded.group s).2

theorem disjunction_eq (s : List Char) :
    disjunction s =
      match (alternative s).rest with
      | '|' :: t =>
          (alternative s).andThen ((Reading.ofSteps [.bar] t).andThen (disjunction t))
      | _ => alternative s := by
  unfold disjunction alternative
  rw [Bounded.disjunction]
  split
  · next t h => simp only [h]
  · next h =>
      split
      · next t ht => exact absurd ht (h t)
      · rfl

theorem alternative_eq (s : List Char) :
    alternative s =
      match term? s with
      | some term => term.andThen (alternative term.rest)
      | none =>
          match misplaced? s with
          | some skipped => (Reading.ofLexeme skipped).andThen (alternative skipped.rest)
          | none => Reading.ofSteps [] s := by
  unfold alternative term?
  rw [Bounded.alternative]
  cases Bounded.term? s with
  | some term => rfl
  | none =>
      dsimp only [Option.map_none]
      split <;> simp_all

theorem term?_eq (s : List Char) :
    term? s =
      match Opening.of s with
      | .none => none
      | .anchor t => some (Reading.ofSteps [] t)
      | .atom read =>
          some ((Reading.ofLexeme read).andThen (Reading.ofLexeme (quantifier read.rest)))
      | .lookaround negative t => some (lookaround negative t)
      | .group t =>
          let repeated := quantifier (group t).rest
          some ((group t).andThen ((Reading.ofLexeme repeated).andThen
            (Reading.ofSteps (quantifiedSteps repeated.value) repeated.rest))) := by
  unfold term? lookaround group
  rw [Bounded.term?]
  split <;> simp_all

theorem term?_eq_none_iff {s : List Char} : term? s = none ↔ Opening.of s = .none := by
  rw [term?_eq]
  cases Opening.of s <;> simp

theorem lookaround_eq (negative : Bool) (s : List Char) :
    lookaround negative s =
      let contents := disjunction s
      let closing := closingParenthesis contents.rest
      (Reading.ofSteps [.descend] s).andThen (contents.andThen (closing.andThen
        (Reading.ofSteps (.settle :: lookaroundSteps negative) closing.rest))) := by
  unfold lookaround disjunction
  rw [Bounded.lookaround]

theorem group_eq (s : List Char) :
    group s =
      let opening := groupOpening s
      let contents := disjunction opening.rest
      let closing := closingParenthesis contents.rest
      (Reading.ofLexeme opening).andThen ((Reading.ofSteps (openingSteps opening.value)
        opening.rest).andThen (contents.andThen (closing.andThen
        (Reading.ofSteps [.settle] closing.rest)))) := by
  unfold group disjunction
  rw [Bounded.group]

end NamedCaptures.Pattern
