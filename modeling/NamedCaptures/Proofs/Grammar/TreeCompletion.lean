import NamedCaptures.Proofs.Grammar.Exactness
import NamedCaptures.Proofs.Grammar.TokenCompletion

/-!
# The first problem is never late

What stands before the first problem of a pattern is the beginning of a well-formed pattern: nothing
has been passed over that no text behind it can put right. That holds in groups, lookarounds and
classes, and in half-read names, escapes and quantifiers. The main statement is
`first_problem_completable`.

## Implementation notes

The text before the first notice is all that a reader has passed over without one, and then the
beginning of one more part. The former is the text of trees by `carried_recognised`, and the latter
is completed by the induction over the readers.
-/

namespace NamedCaptures.Grammar

open Pattern

/-- The text of an alternative. -/
def Alternates (v : List Char) : Prop :=
  ∃ a : Tree .alternative, a.text = v

theorem Alternates.derivable {v : List Char} (h : Alternates v) : Derivable v := by
  obtain ⟨a, rfl⟩ := h
  exact ⟨.single a, rfl⟩

theorem Leads.alternates {v : List Char} (h : Leads v) : Alternates v := by
  obtain ⟨a, ha⟩ := h .nil
  exact ⟨a, by simpa [Tree.text] using ha⟩

/-- A text that goes on with something misplaced is complete up to there. -/
theorem completes_misplaced {s : List Char} {l : Lexeme Unit} (h : misplaced? s = some l) :
    Completes Alternates s l.notices := by
  unfold misplaced? at h
  split at h
  · cases h
  · split at h
    · cases h
      exact .here ⟨.nil, rfl⟩
    · split at h
      · cases h
        exact .here ⟨.nil, rfl⟩
      · cases h

/-- The contents of a group or lookaround and its closing parenthesis. -/
def ClosedContents (v : List Char) : Prop :=
  ∃ d : Tree .disjunction, v = d.text ++ [')']

theorem completes_contents {s : List Char} (h : Completes Derivable s (disjunction s).notices) :
    Completes ClosedContents s
      ((disjunction s).notices ++ (closingParenthesis (disjunction s).rest).notices) := by
  refine .append ?_ fun hclean => ?_
  · refine h.followed ?_
    rintro _ ⟨d, rfl⟩
    exact ⟨[')'], d, rfl⟩
  · obtain ⟨d, hs⟩ := disjunction_recognised hclean
    have hclosing : Completes (· = [')']) (disjunction s).rest
        (closingParenthesis (disjunction s).rest).notices :=
      .expect ')' .unclosedGroup rfl
    have hrest := hclosing.behind (P := ClosedContents) (u := d.text) fun v hv =>
      ⟨[], d, by simp [hv]⟩
    rwa [← hs] at hrest

theorem completes_groupOpening (s : List Char) :
    Completes (fun v => ∃ o : Opener, v = o.text) s (groupOpening s).notices := by
  unfold groupOpening
  split
  · exact .nil
  · next t _ =>
      refine (completes_groupName t).behind (u := ['?']) ?_
      rintro _ ⟨u, name, hname, rfl⟩
      exact ⟨[], .named u name hname, by simp [Opener.text]⟩
  · exact .nil

theorem completes_lookaround {negative : Bool} {s : List Char}
    (h : Completes Derivable s (disjunction s).notices) :
    Completes ClosedContents s (lookaround negative s).notices := by
  rw [lookaround_eq]
  simpa using completes_contents h

/-- What stands between the opening parenthesis of a group and the place behind its closing one. -/
def ClosedGroup (v : List Char) : Prop :=
  ∃ (o : Opener) (d : Tree .disjunction), v = o.text ++ (d.text ++ [')'])

theorem completes_group {s : List Char}
    (h : Completes Derivable (groupOpening s).rest (disjunction (groupOpening s).rest).notices) :
    Completes ClosedGroup s (group s).notices := by
  have hboth : Completes ClosedGroup s ((groupOpening s).notices ++
      ((disjunction (groupOpening s).rest).notices ++
        (closingParenthesis (disjunction (groupOpening s).rest).rest).notices)) := by
    refine .append ?_ fun hclean => ?_
    · refine (completes_groupOpening s).followed ?_
      rintro _ ⟨o, rfl⟩
      exact ⟨[')'], o, .single .nil, rfl⟩
    · obtain ⟨o, hs⟩ := groupOpening_recognised hclean
      have hcontents := (completes_contents h).behind (P := ClosedGroup) (u := o.text) <| by
        rintro _ ⟨d, rfl⟩
        exact ⟨[], o, d, by simp⟩
      rwa [← hs] at hcontents
  rw [group_eq]
  simpa using hboth

/-- What stands before the first notice of a reading is completed to a text of its nonterminal. -/
theorem carried_completes :
    Carried (fun s r => Completes Derivable s r.notices)
      (fun s r => Completes Alternates s r.notices)
      (fun s r => Completes Leads s r.notices) where
  bar s t ha ht hd := by
    refine Completes.append (ha.mono fun v hv => hv.derivable) fun hclean => ?_
    obtain ⟨a, hs⟩ := carried_recognised.alternative s hclean
    rw [ht] at hs
    have hbehind := hd.behind (P := Derivable) (u := a.text ++ ['|']) <| by
      rintro _ ⟨d, rfl⟩
      exact ⟨[], .bar a d, by simp [Tree.text]⟩
    rw [List.append_assoc, List.singleton_append, ← hs] at hbehind
    exact hbehind
  last s ha _ := ha.mono fun v hv => hv.derivable
  more s r hr ht ha := by
    refine Completes.append (ht.mono fun v hv => hv.alternates) fun hclean => ?_
    obtain ⟨u, hs, hu⟩ := carried_recognised.term hr hclean
    have hbehind := ha.behind (P := Alternates) (u := u) <| by
      rintro _ ⟨a, rfl⟩
      obtain ⟨b, hb⟩ := hu a
      exact ⟨[], b, by simpa using hb⟩
    rwa [← hs] at hbehind
  misplaced s l _ hl _ :=
    (completes_misplaced hl).append fun hclean => absurd hclean (misplaced?_notices hl)
  stop s _ _ := .nil
  anchor s t _ := .nil
  atom s l h := by
    refine Completes.append ?_ fun hclean => ?_
    · exact (completes_opening_atom h).mono fun v hv => by simpa using Leads.leaf hv .once
    · obtain ⟨u, hs, hu⟩ := opening_atom_recognised h hclean
      have hbehind := (completes_quantifier l.rest).behind (P := Leads) (u := u) <| by
        rintro v ⟨q, hq⟩
        exact ⟨[], by simpa using hu v q hq⟩
      rw [← hs] at hbehind
      exact hbehind
  lookaround s negative t h hd := by
    obtain ⟨k, -, rfl⟩ := Opening.eq_of_lookaround h
    refine (completes_lookaround hd).behind (u := '(' :: k.text) ?_
    rintro _ ⟨d, rfl⟩
    exact ⟨[], by simpa [Tree.text] using Leads.term (.lookaround k d)⟩
  group s t h hd := by
    obtain rfl := Opening.eq_of_group h
    have hterm (o : Opener) (d : Tree .disjunction) {v : List Char} (hv : MayFollow v) :
        Leads ('(' :: (o.text ++ (d.text ++ ')' :: v))) := by
      obtain ⟨q, hq⟩ := hv
      exact .term (.group o d ⟨v, q, hq⟩)
    refine Completes.append ?_ fun hclean => ?_
    · refine (completes_group hd).behind (u := ['(']) ?_
      rintro _ ⟨o, d, rfl⟩
      exact ⟨[], by simpa using hterm o d ⟨_, .once⟩⟩
    · obtain ⟨o, d, ht⟩ := group_recognised (fun h => disjunction_recognised h) hclean
      have hbehind := (completes_quantifier (group t).rest).behind (P := Leads)
        (u := '(' :: (o.text ++ (d.text ++ [')']))) fun v hv =>
          ⟨[], by simpa using hterm o d hv⟩
      simp only [List.cons_append, List.append_assoc, List.nil_append] at hbehind
      rw [← ht] at hbehind
      simpa using hbehind

theorem completes_read (s : List Char) : Completes Derivable s (read s).notices := by
  rw [read_eq]
  split
  · exact carried_completes.disjunction s
  · next c t hrest =>
      refine (carried_completes.disjunction s).append fun hclean => ?_
      obtain ⟨d, hs⟩ := disjunction_recognised hclean
      rw [hrest] at hs
      rw [hs]
      refine Completes.behind (Q := (· = [])) (.here rfl) ?_
      rintro v rfl
      exact ⟨[], d, by simp⟩

/-- What stands before the first problem of a pattern is the beginning of a well-formed pattern,
unless a code point in braces is not closed. -/
theorem first_problem_completable {pattern : String} {p : Problem}
    (hp : (analyze pattern).problems.head? = some p) (hk : p.kind ≠ .unclosedCodePoint) :
    ∃ t : String, (analyze (p.consumed ++ t)).isSuccess = true := by
  rw [problems_analyze, List.head?_map] at hp
  obtain ⟨n, hn, rfl⟩ := Option.map_eq_some_iff.mp hp
  obtain ⟨c, t, hsplit, d, hd⟩ := completes_read pattern.toList n hn hk
  refine ⟨String.ofList t, (analyze_isSuccess_iff_derivable _).mpr ⟨d, ?_⟩⟩
  rw [hsplit, Notice.locate, Position.ofRest_append, hd]
  simp [Problem.at]

theorem half_read_name_completable :
    (analyze "(?=[\\]]|(?<a\\u\x7b20\x7d>)\x7b2,1\x7d").problems.head? =
        some ⟨.badGroupNameEscape, "(?=[\\]]|(?<a", "\\u\x7b20\x7d>)\x7b2,1\x7d"⟩ ∧
      ∃ t : String, (analyze ("(?=[\\]]|(?<a" ++ t)).isSuccess = true := by
  have hfirst : (analyze "(?=[\\]]|(?<a\\u\x7b20\x7d>)\x7b2,1\x7d").problems.head? =
      some ⟨.badGroupNameEscape, "(?=[\\]]|(?<a", "\\u\x7b20\x7d>)\x7b2,1\x7d"⟩ := by
    decide +kernel
  have hcompletable := first_problem_completable hfirst (by decide)
  exact ⟨hfirst, hcompletable⟩

end NamedCaptures.Grammar
