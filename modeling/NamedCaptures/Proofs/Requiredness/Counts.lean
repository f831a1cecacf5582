import NamedCaptures.Proofs.InPlace.Tokens
import NamedCaptures.Proofs.Requiredness.Composition

/-!
# Counted quantifiers

A group may be followed by counts in braces, with any number of digits. A count that is too large
for a word of 64 bits is taken for the greatest number of such a word. That never makes it zero, so
the groups become optional exactly if all digits of the least count are zeros. Counts are out of
order only if they are so after that. The main statement is `analyze_counted`.
-/

namespace NamedCaptures.Grammar

open Pattern Groups

variable {A d e mark : String} {G : Groups}

/-- A text in braces. -/
def braces (s : String) : String :=
  "\x7b" ++ s ++ "\x7d"

/-- The groups of a group behind which the least count has the digits `d`. -/
def repeated (d : String) (G : Groups) : Groups :=
  if d.toList.all (· == '0') then G.allOptional else G

/-- What the analysis finds where a counted quantifier, perhaps with a mark for laziness, follows a
group around a pattern with groups `G`. -/
structure Counted (A d e mark : String) (G : Groups) : Prop where
  exactly : analyze ("(?:" ++ A ++ ")" ++ braces d ++ mark) = .success (repeated d G)
  atLeast : analyze ("(?:" ++ A ++ ")" ++ braces (d ++ ",") ++ mark) = .success (repeated d G)
  between : countOf d.toList ≤ countOf e.toList →
    analyze ("(?:" ++ A ++ ")" ++ braces (d ++ "," ++ e) ++ mark) = .success (repeated d G)
  outOfOrder : countOf e.toList < countOf d.toList →
    analyze ("(?:" ++ A ++ ")" ++ braces (d ++ "," ++ e) ++ mark) =
      .failure [⟨.quantifierOutOfOrder, "(?:" ++ A ++ ")", braces (d ++ "," ++ e) ++ mark⟩]
  /-- Where a count is cut off at each digit, it is cut off as a whole. -/
  saturated : InPlace.saturated 10 Quantifier.maxCount d.toList = countOf d.toList

theorem saturated_eq_countOf {ds : List Char} (h : Digits Char.isDigit ds) :
    InPlace.saturated 10 Quantifier.maxCount ds = countOf ds := by
  rw [InPlace.saturated_eq (by decide), ← count_eq_countOf h, Quantifier.count]

/-- No count but that of zeros is cut off to zero. -/
theorem countOf_eq_zero_iff {ds : List Char} (h : Digits Char.isDigit ds) :
    countOf ds = 0 ↔ ∀ c ∈ ds, c = '0' := by
  have hten : (10 : Nat) ≠ 0 := by decide
  rw [← Numeral.number_eq_zero_iff hten h.2, countOf, Nat.min_eq_zero_iff]
  exact or_iff_left (by decide)

theorem allowsNone_eq {ds : List Char} (h : Digits Char.isDigit ds) (greatest : Nat) :
    (Quantifier.mk (countOf ds) greatest).allowsNone = ds.all (· == '0') := by
  rw [Bool.eq_iff_iff, Quantifier.allowsNone, beq_iff_eq, countOf_eq_zero_iff h]
  simp

theorem quantification_marked {s : List Char} {q : Quantifier} (h : BareQuantifier s q)
    (hmark : mark ∈ ["", "?"]) : Quantification (s ++ mark.toList) (some q) := by
  simp only [List.mem_cons, List.not_mem_nil, or_false] at hmark
  rcases hmark with rfl | rfl
  · simpa using Quantification.greedy h
  · exact .lazy h

/-- A counted quantifier behind a group around a well-formed pattern. -/
theorem analyze_repeated (hA : analyze A = .success G) (hd : Digits Char.isDigit d.toList)
    (hmark : mark ∈ ["", "?"]) {s : String} {greatest : Nat}
    (hs : BareQuantifier s.toList ⟨countOf d.toList, greatest⟩) :
    analyze ("(?:" ++ A ++ ")" ++ s ++ mark) = .success (repeated d G) := by
  have hwhole := analyze_group (Q := "(?:" ++ A ++ ")" ++ s ++ mark) hA .withoutCapture
    ⟨_, _, quantification_marked hs hmark⟩ (by simp [Opener.text])
  rw [hwhole, repeated, ← allowsNone_eq hd greatest]
  rfl

/-- What is noted of a group around well-formed contents is what is noted of its quantifier, if that
is the last thing in the pattern. -/
theorem notices_read_group (o : Opener) (d : Tree .disjunction) {t : List Char}
    (ht : (quantifier t).rest = []) :
    (read ('(' :: (o.text ++ (d.text ++ ')' :: t)))).notices = (quantifier t).notices := by
  have hcontents := d.reads (')' :: t) (by rintro c u ⟨⟩; decide)
  have hend : alternative [] = ⟨[], [], []⟩ := alternative_of_endsAt (by rintro c u ⟨⟩)
  have halternative := alternative_of_closedGroup o hcontents
  rw [ht, hend] at halternative
  rw [read_eq, disjunction_eq, halternative]
  exact List.append_nil _

/-- Counts out of order are noted before their opening brace. -/
theorem quantifier_outOfOrder {ds es : List Char} (hd : Digits Char.isDigit ds)
    (he : Digits Char.isDigit es) (hlt : countOf es < countOf ds)
    (hmark : mark ∈ ["", "?"]) :
    let s := '\x7b' :: (ds ++ ',' :: (es ++ '\x7d' :: mark.toList))
    (quantifier s).rest = [] ∧ (quantifier s).notices = [⟨.quantifierOutOfOrder, s⟩] := by
  intro s
  have hcounted := countedQuantifier_digits hd (by decide)
    (greatestCount_digits (countOf ds) he mark.toList)
  rw [if_pos hlt] at hcounted
  have hbare : bareQuantifier s =
      countedQuantifier (ds ++ ',' :: (es ++ '\x7d' :: mark.toList)) := rfl
  simp only [List.mem_cons, List.not_mem_nil, or_false] at hmark
  rw [quantifier, hbare, hcounted]
  rcases hmark with rfl | rfl
  · exact ⟨rfl, rfl⟩
  · exact ⟨rfl, rfl⟩

/-- A pattern of which one thing is noted. -/
theorem analyze_eq_failure {pattern : String} {front back : String} {kind : Problem.Kind}
    (hpattern : pattern = front ++ back)
    (h : (read pattern.toList).notices = [⟨kind, back.toList⟩]) :
    analyze pattern = .failure [⟨kind, front, back⟩] := by
  rw [analyze, Reading.outcome, h, hpattern, String.toList_append]
  simp [Notice.locate, Problem.at]

theorem analyze_outOfOrder (hA : analyze A = .success G) (hd : Digits Char.isDigit d.toList)
    (he : Digits Char.isDigit e.toList) (hlt : countOf e.toList < countOf d.toList)
    (hmark : mark ∈ ["", "?"]) :
    analyze ("(?:" ++ A ++ ")" ++ braces (d ++ "," ++ e) ++ mark) =
      .failure [⟨.quantifierOutOfOrder, "(?:" ++ A ++ ")", braces (d ++ "," ++ e) ++ mark⟩] := by
  obtain ⟨tree, htree, -⟩ := exists_tree_of_success hA
  obtain ⟨hrest, hnotices⟩ := quantifier_outOfOrder hd he hlt hmark
  have hread := notices_read_group .withoutCapture tree hrest
  rw [hnotices] at hread
  apply analyze_eq_failure String.append_assoc
  have hback : (braces (d ++ "," ++ e) ++ mark).toList =
      '\x7b' :: (d.toList ++ ',' :: (e.toList ++ '\x7d' :: mark.toList)) := by
    simp [braces]
  have htext : ("(?:" ++ A ++ ")" ++ braces (d ++ "," ++ e) ++ mark).toList =
      '(' :: (Opener.withoutCapture.text ++
        (tree.text ++ ')' :: (braces (d ++ "," ++ e) ++ mark).toList)) := by
    simp [htree, Opener.text]
  rw [htext, hback]
  exact hread

end NamedCaptures.Grammar
