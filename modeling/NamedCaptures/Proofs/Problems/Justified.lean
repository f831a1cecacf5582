import NamedCaptures.Proofs.Problems.Grounds
import NamedCaptures.Proofs.Problems.TextOrder
import NamedCaptures.Proofs.Readers.Stopping

/-!
# Every problem is justified

The grounds of what is noted in a pattern are there however much went wrong before: the readers that
call each other add only what is misplaced and groups that are not closed, and everything else is
noted by readers of tokens. The main statement is `problems_grounded`.
-/

namespace NamedCaptures.Problem

open Pattern

theorem grounded_misplaced {s : List Char} {l : Lexeme Unit} (h : misplaced? s = some l) :
    Grounded s l.notices := by
  unfold misplaced? at h
  split at h
  · cases h
  · next c t =>
      split at h
      · next hc =>
          cases h
          refine .singleton (.strayCloser ?_) List.suffix_rfl
          rcases hc with rfl | rfl <;> decide
      · split at h
        · next hc =>
            cases h
            refine .cons (.nothingToRepeat ?_) List.suffix_rfl (grounded_quantifier _)
            simpa [isQuantifierStart, or_assoc] using hc
        · cases h

theorem grounded_atom {s : List Char} {l : Lexeme Unit} (h : Opening.of s = .atom l) :
    Grounded s l.notices := by
  rcases Opening.eq_of_atom h with ⟨c, t, rfl, -, rfl⟩ | ⟨t, rfl, rfl⟩ | ⟨t, rfl, -, rfl⟩
  · exact .nil _
  · exact (grounded_characterClass t).behind (List.suffix_cons _ _)
  · exact grounded_atomEscape t

/-- A parenthesis is missing only at the end of the text, as a disjunction is read up to one. -/
theorem grounded_closingParenthesis (s : List Char) :
    Grounded s (closingParenthesis (disjunction s).rest).notices := by
  rcases disjunction_stops s with hrest | ⟨t, hrest⟩
  · rw [hrest]
    exact .singleton .unclosedGroup List.nil_suffix
  · rw [hrest]
    exact .nil s

theorem grounded_lookaround {negative : Bool} {s : List Char}
    (h : Grounded s (disjunction s).notices) :
    Grounded s (lookaround negative s).notices := by
  rw [lookaround_eq]
  simpa using h.append (grounded_closingParenthesis s)

theorem grounded_group {s : List Char} (ho : Opening.of ('(' :: s) = .group s)
    (h : Grounded (groupOpening s).rest (disjunction (groupOpening s).rest).notices) :
    Grounded ('(' :: s) (group s).notices := by
  have hbehind : (groupOpening s).rest <:+ '(' :: s :=
    (groupOpening_rest s).trans (List.suffix_cons _ _)
  have hcontents := h.append (grounded_closingParenthesis (groupOpening s).rest)
  rw [group_eq]
  simpa using (grounded_groupOpening ho).append (hcontents.behind hbehind)

/-- The grounds are carried along by all the readers. -/
theorem carried_grounded :
    Carried (fun s r => Grounded s r.notices) (fun s r => Grounded s r.notices)
      (fun s r => Grounded s r.notices) where
  bar s t ha ht hd := by
    have hsuffix : t <:+ s := (List.suffix_cons _ _).trans (ht ▸ alternative_rest s)
    exact ha.append (hd.behind hsuffix)
  last s ha _ := ha
  more s r hr ht ha := ht.append (ha.behind (term?_rest hr).1)
  misplaced s l _ hl ha := (grounded_misplaced hl).append (ha.behind (misplaced?_rest hl).1)
  stop s _ _ := .nil s
  anchor s t _ := .nil s
  atom s l h := by
    have hsuffix := (Opening.of_rest? (congrArg Opening.rest? h)).1
    exact (grounded_atom h).append ((grounded_quantifier l.rest).behind hsuffix)
  lookaround s negative t h hd :=
    (grounded_lookaround hd).behind (Opening.of_rest? (congrArg Opening.rest? h)).1
  group s t h hd := by
    obtain rfl := Opening.eq_of_group h
    have hsuffix : (group t).rest <:+ '(' :: t := (group_rest t).trans (List.suffix_cons _ _)
    have hquantifier := (grounded_quantifier (group t).rest).behind hsuffix
    simpa using (grounded_group h hd).append hquantifier

theorem grounded_read (s : List Char) : Grounded s (read s).notices := by
  fun_induction read s with
  | case1 s contents h => exact carried_grounded.disjunction s
  | case2 s contents c t h _ ih =>
      have hsuffix : c :: t <:+ s := h ▸ disjunction_rest s
      obtain rfl := disjunction_next s c (congrArg List.head? h)
      refine (carried_grounded.disjunction s).append ?_
      refine .cons (.strayCloser (by decide)) hsuffix ?_
      exact ih.behind ((List.suffix_cons _ _).trans hsuffix)

/-- What stands directly before the place of a problem, and what follows it, are the grounds of a
problem of its kind. -/
theorem problems_grounded (pattern : String) :
    ∀ p ∈ (analyze pattern).problems,
      p.consumed ++ p.remaining = pattern ∧
        ∃ w, w <:+ p.consumed.toList ∧ Grounds p.kind w p.remaining.toList := by
  intro p hp
  rw [problems_analyze] at hp
  obtain ⟨n, hn, rfl⟩ := List.mem_map.mp hp
  obtain ⟨w, hground, before, hsplit⟩ := grounded_read pattern.toList n hn
  have hrest : n.rest <:+ pattern.toList :=
    ((read_inOrder pattern.toList).within n hn).1
  refine ⟨by rw [locate_split hrest, String.ofList_toList], w, ?_, ?_⟩
  · have hplace := Position.ofRest_append (before ++ w) n.rest
    rw [List.append_assoc, hsplit] at hplace
    simp [Notice.locate, Problem.at, hplace]
  · simpa [Notice.locate, Problem.at, Position.ofRest] using hground

theorem grounds_behind_stray_bracket :
    ⟨.badGroupNameEscape, "]|(?<a", "\\u\x7b20\x7d>b\x7b2,1\x7d"⟩ ∈
        (analyze "]|(?<a\\u\x7b20\x7d>b\x7b2,1\x7d").problems ∧
      ∃ w, w <:+ "]|(?<a".toList ∧
        Grounds .badGroupNameEscape w "\\u\x7b20\x7d>b\x7b2,1\x7d".toList := by
  have hproblem : ⟨.badGroupNameEscape, "]|(?<a", "\\u\x7b20\x7d>b\x7b2,1\x7d"⟩ ∈
      (analyze "]|(?<a\\u\x7b20\x7d>b\x7b2,1\x7d").problems := by decide +kernel
  exact ⟨hproblem, (problems_grounded "]|(?<a\\u\x7b20\x7d>b\x7b2,1\x7d" _ hproblem).2⟩

end NamedCaptures.Problem
