import NamedCaptures.Proofs.Requiredness.TreeGroups

/-!
# Patterns made of patterns

What the analysis finds in a pattern that is put together from well-formed ones follows from what
it finds in those: parentheses keep the groups or make them optional, a quantifier and a bar make
them optional, and of two patterns in a row the second one decides about the names of both. The
main statement is `analyze_composite`.

## Implementation notes

The parts are well formed, so they have derivation trees, and the whole has the tree that is put
together from theirs. No statement looks at how the readers behave at the seams.
-/

namespace NamedCaptures.Grammar

open Pattern Groups

/-- A name that may stand between angle brackets as it is: it begins an identifier, and all that
follows continues one. -/
def IsIdentifier (name : String) : Prop :=
  ∃ c cs, name.toList = c :: cs ∧ Identifier.isStart c = true ∧
    ∀ d ∈ cs, Identifier.isPart d = true

theorem spellsTail_literal {cs : List Char} (h : ∀ d ∈ cs, Identifier.isPart d = true) :
    SpellsTail cs cs := by
  induction cs with
  | nil => exact .nil
  | cons c cs ih =>
      obtain ⟨hc, hcs⟩ := List.forall_mem_cons.mp h
      exact .cons (.literal c) hc (ih hcs)

/-- An identifier spells itself. -/
theorem IsIdentifier.spellsName {name : String} (h : IsIdentifier name) :
    SpellsName name.toList name.toList := by
  obtain ⟨c, cs, hname, hc, hcs⟩ := h
  rw [hname]
  exact .mk (.literal c) hc (spellsTail_literal hcs)

/-- A well-formed pattern has a tree, whose groups are those of the pattern. -/
theorem exists_tree_of_success {pattern : String} {groups : Groups}
    (h : analyze pattern = .success groups) :
    ∃ d : Tree .disjunction, d.text = pattern.toList ∧ d.patternGroups = groups := by
  obtain ⟨d, hd⟩ := derivable_of_success h
  exact ⟨d, hd, (eq_patternGroups_of_success h hd).symm⟩

namespace Tree

/-- The pattern that is one term. -/
def ofTerm (t : Tree .term) : Tree .disjunction :=
  .single (.cons t .nil)

theorem text_ofTerm (t : Tree .term) : (ofTerm t).text = t.text :=
  List.append_nil _

theorem patternGroups_ofTerm (t : Tree .term) : (ofTerm t).patternGroups = t.groups :=
  override_empty _

/-- The alternatives of two disjunctions, with a bar between them. -/
def orElse : Tree .disjunction → Tree .disjunction → Tree .disjunction
  | single a, e => .bar a e
  | bar a d, e => .bar a (d.orElse e)

theorem text_orElse (d e : Tree .disjunction) : (d.orElse e).text = d.text ++ '|' :: e.text := by
  fun_induction orElse d e with
  | case1 a e => rfl
  | case2 a d e ih => simp [Tree.text, ih]

theorem groups_orElse (d e : Tree .disjunction) :
    (d.orElse e).groups = d.groups.override e.groups := by
  fun_induction orElse d e with
  | case1 a e => rfl
  | case2 a d e ih => simp [Tree.groups, ih, override_assoc]

theorem hasBar_orElse (d e : Tree .disjunction) : (d.orElse e).hasBar = true := by
  fun_cases orElse d e <;> rfl

/-- With a bar on the level of the whole pattern, all groups are optional. -/
theorem patternGroups_orElse (d e : Tree .disjunction) :
    (d.orElse e).patternGroups = (d.patternGroups.override e.patternGroups).allOptional := by
  have hloosen (f : Tree .disjunction) : f.patternGroups.allOptional = f.groups.allOptional :=
    loosenIf_loosenIf true f.hasBar f.groups
  rw [patternGroups, hasBar_orElse, groups_orElse, allOptional_override, hloosen, hloosen,
    ← allOptional_override]
  rfl

end Tree

/-- A group around a well-formed pattern. -/
theorem analyze_group {A Q : String} {G : Groups} (h : analyze A = .success G) (o : Opener)
    (q : Repetition) (hQ : Q.toList = '(' :: (o.text ++ (A.toList ++ ')' :: q.text))) :
    analyze Q = .success (loosenIf q.allowsNone (o.enter G)) := by
  obtain ⟨d, hd, rfl⟩ := exists_tree_of_success h
  have htext : (Tree.ofTerm (.group o d q)).text = Q.toList := by
    rw [Tree.text_ofTerm, Tree.text, hd, hQ]
  rw [analyze_eq_patternGroups htext, Tree.patternGroups_ofTerm]
  rfl

/-- A lookaround around a well-formed pattern. -/
theorem analyze_lookaround {A Q : String} {G : Groups} (h : analyze A = .success G)
    (k : Lookaround) (hQ : Q.toList = '(' :: (k.text ++ (A.toList ++ [')']))) :
    analyze Q = .success (loosenIf k.negative G) := by
  obtain ⟨d, hd, rfl⟩ := exists_tree_of_success h
  have htext : (Tree.ofTerm (.lookaround k d)).text = Q.toList := by
    rw [Tree.text_ofTerm, Tree.text, hd, hQ]
  rw [analyze_eq_patternGroups htext, Tree.patternGroups_ofTerm]
  rfl

theorem analyze_alternatives {A B : String} {G H : Groups} (hA : analyze A = .success G)
    (hB : analyze B = .success H) :
    analyze (A ++ "|" ++ B) = .success (G.override H).allOptional := by
  obtain ⟨d, hd, rfl⟩ := exists_tree_of_success hA
  obtain ⟨e, he, rfl⟩ := exists_tree_of_success hB
  have htext : (d.orElse e).text = (A ++ "|" ++ B).toList := by
    simp [Tree.text_orElse, hd, he]
  rw [analyze_eq_patternGroups htext, Tree.patternGroups_orElse]

/-- Nothing behind a group. -/
def Repetition.once : Repetition := ⟨[], none, .once⟩

theorem analyze_sequence {A B : String} {G H : Groups} (hA : analyze A = .success G)
    (hB : analyze B = .success H) :
    analyze ("(?:" ++ A ++ ")(?:" ++ B ++ ")") = .success (G.override H) := by
  obtain ⟨d, hd, rfl⟩ := exists_tree_of_success hA
  obtain ⟨e, he, rfl⟩ := exists_tree_of_success hB
  let whole : Tree .disjunction :=
    .single (.cons (.group .withoutCapture d .once) (.cons (.group .withoutCapture e .once) .nil))
  have htext : whole.text = ("(?:" ++ A ++ ")(?:" ++ B ++ ")").toList := by
    simp [whole, Tree.text, Opener.text, Repetition.once, hd, he]
  have hgroups : whole.patternGroups = d.patternGroups.override e.patternGroups :=
    congrArg (d.patternGroups.override ·) (override_empty e.patternGroups)
  rw [analyze_eq_patternGroups htext, hgroups]

/-- The patterns that are one group around a pattern. -/
def groupsAround (name A : String) : List String :=
  ["(?:" ++ A ++ ")", "(" ++ A ++ ")", "(?<" ++ name ++ ">" ++ A ++ ")"]

theorem exists_opener_of_mem_groupsAround {name A Q : String} (hname : IsIdentifier name)
    (h : Q ∈ groupsAround name A) :
    ∃ o : Opener, Q.toList = '(' :: (o.text ++ (A.toList ++ [')'])) := by
  simp only [groupsAround, List.mem_cons, List.not_mem_nil, or_false] at h
  rcases h with rfl | rfl | rfl
  · exact ⟨.withoutCapture, by simp [Opener.text]⟩
  · exact ⟨.unmarked, by simp [Opener.text]⟩
  · exact ⟨.named _ _ hname.spellsName, by simp [Opener.text]⟩

/-- A quantifier behind a group around a well-formed pattern. -/
theorem analyze_quantified {name A Q : String} {G K : Groups} (hA : analyze A = .success G)
    (hname : IsIdentifier name) (hQ : Q ∈ groupsAround name A) (hK : analyze Q = .success K)
    (q : String) {s : List Char} (hq : q.toList = s) {r : Option Quantifier}
    (hs : Quantification s r) :
    analyze (Q ++ q) = .success (loosenIf (r.any Quantifier.allowsNone) K) := by
  obtain ⟨o, ho⟩ := exists_opener_of_mem_groupsAround hname hQ
  have halone := analyze_group hA o .once ho
  obtain rfl := Outcome.success.inj (halone.symm.trans hK)
  have hwhole := analyze_group (Q := Q ++ q) hA o ⟨s, r, hs⟩ (by simp [ho, hq])
  exact hwhole

/-- How the groups of patterns made of two patterns follow from the groups of the two. -/
structure Composes (A B name : String) (G H : Groups) : Prop where
  withoutCapture : analyze ("(?:" ++ A ++ ")") = .success G
  unnamed : analyze ("(" ++ A ++ ")") = .success G
  ahead : analyze ("(?=" ++ A ++ ")") = .success G
  behind : analyze ("(?<=" ++ A ++ ")") = .success G
  named : analyze ("(?<" ++ name ++ ">" ++ A ++ ")") =
    .success (G.override (Groups.empty.insert name .required))
  notAhead : analyze ("(?!" ++ A ++ ")") = .success G.allOptional
  notBehind : analyze ("(?<!" ++ A ++ ")") = .success G.allOptional
  /-- A quantifier with the least count zero makes the groups optional. -/
  atLeastNone : ∀ Q ∈ groupsAround name A, ∀ K, analyze Q = .success K →
    ∀ q ∈ ["*", "?", "*?", "??"], analyze (Q ++ q) = .success K.allOptional
  atLeastOnce : ∀ Q ∈ groupsAround name A, ∀ K, analyze Q = .success K →
    ∀ q ∈ ["+", "+?"], analyze (Q ++ q) = .success K
  alternatives : analyze (A ++ "|" ++ B) = .success (G.override H).allOptional
  sequence : analyze ("(?:" ++ A ++ ")(?:" ++ B ++ ")") = .success (G.override H)

theorem insert_eq_override (G : Groups) (name : String) (r : Requiredness) :
    G.insert name r = G.override (Groups.empty.insert name r) := by
  apply ext_get?
  intro other
  by_cases h : other = name <;> simp [h]

/-- The laws of composition hold of all well-formed patterns and all identifiers. -/
theorem analyze_composite {A B name : String} {G H : Groups} (hA : analyze A = .success G)
    (hB : analyze B = .success H) (hname : IsIdentifier name) : Composes A B name G H where
  withoutCapture := analyze_group hA .withoutCapture .once (by simp [Opener.text, Repetition.once])
  unnamed := analyze_group hA .unmarked .once (by simp [Opener.text, Repetition.once])
  ahead := analyze_lookaround hA .ahead (by simp [Lookaround.text])
  behind := analyze_lookaround hA .behind (by simp [Lookaround.text])
  named := by
    have hgroup := analyze_group (Q := "(?<" ++ name ++ ">" ++ A ++ ")") hA
      (.named _ _ hname.spellsName) .once (by simp [Opener.text, Repetition.once])
    rw [hgroup, ← insert_eq_override]
    simp [Opener.enter, Opener.name?, Repetition.allowsNone, Repetition.once, loosenIf]
  notAhead := analyze_lookaround hA .notAhead (by simp [Lookaround.text])
  notBehind := analyze_lookaround hA .notBehind (by simp [Lookaround.text])
  atLeastNone Q hQ K hK q hq := by
    simp only [List.mem_cons, List.not_mem_nil, or_false] at hq
    rcases hq with rfl | rfl | rfl | rfl
    · exact analyze_quantified hA hname hQ hK "*" rfl (.greedy .star)
    · exact analyze_quantified hA hname hQ hK "?" rfl (.greedy .mark)
    · exact analyze_quantified hA hname hQ hK "*?" rfl (.lazy .star)
    · exact analyze_quantified hA hname hQ hK "??" rfl (.lazy .mark)
  atLeastOnce Q hQ K hK q hq := by
    simp only [List.mem_cons, List.not_mem_nil, or_false] at hq
    rcases hq with rfl | rfl
    · exact analyze_quantified hA hname hQ hK "+" rfl (.greedy .plus)
    · exact analyze_quantified hA hname hQ hK "+?" rfl (.lazy .plus)
  alternatives := analyze_alternatives hA hB
  sequence := analyze_sequence hA hB

theorem composes_of_repeated_name :
    analyze "(?<a>x)|\\ud83d" = .success ⟨[("a", .optional)], by decide⟩ ∧
      analyze "(?<a>y)(?<b>z)??" =
        .success ⟨[("a", .required), ("b", .optional)], by decide⟩ ∧
      IsIdentifier "b" ∧
      Composes "(?<a>x)|\\ud83d" "(?<a>y)(?<b>z)??" "b" ⟨[("a", .optional)], by decide⟩
        ⟨[("a", .required), ("b", .optional)], by decide⟩ := by
  have hA : analyze "(?<a>x)|\\ud83d" = .success ⟨[("a", .optional)], by decide⟩ := by
    decide +kernel
  have hB : analyze "(?<a>y)(?<b>z)??" =
      .success ⟨[("a", .required), ("b", .optional)], by decide⟩ := by decide +kernel
  have hname : IsIdentifier "b" := ⟨'b', [], rfl, by decide +kernel, by simp⟩
  exact ⟨hA, hB, hname, analyze_composite hA hB hname⟩

end NamedCaptures.Grammar
