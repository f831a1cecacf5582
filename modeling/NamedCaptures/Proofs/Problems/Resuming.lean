import NamedCaptures.Proofs.Grammar.Exactness
import NamedCaptures.Proofs.Readers.Order

/-!
# Resuming behind a well-formed text

Behind a well-formed text and a character that ends it, reading goes on as it does at the beginning
of a pattern: the text in front moves the places of the problems, and nothing else. The main
statement is `problems_behind_wellFormed`.

## Implementation notes

All statements about reading have the form "reading this text is taking some steps and then reading
the rest" (`Tree.readsFirst`, `read_append`). The rest may be anything that does not begin with
a quantifier, which would belong to the text in front.
-/

namespace NamedCaptures

/-- The same problem in a pattern with a text in front. -/
def Problem.behind (p : Problem) (before : String) : Problem :=
  { p with consumed := before ++ p.consumed }

/-- A notice for a place in a text is located in the text with another one in front. -/
theorem locate_append (before : List Char) {s : List Char} {n : Notice} (h : n.rest <:+ s) :
    n.locate (before ++ s) = (n.locate s).behind (String.ofList before) := by
  obtain ⟨front, hs⟩ := h
  rw [← hs, Notice.locate, Notice.locate, ← List.append_assoc, Position.ofRest_append,
    Position.ofRest_append]
  simp [Problem.at, Problem.behind]

namespace Grammar

open Pattern

theorem NoQuantifier.append {u v : List Char} (hu : NoQuantifier u) (hv : NoQuantifier v) :
    NoQuantifier (u ++ v) := by
  cases u with
  | nil => exact hv
  | cons c u =>
      rintro d t heq
      obtain ⟨rfl, -⟩ := List.cons.inj heq
      exact hu c u rfl

/-- The text of an alternative does not begin with a quantifier. -/
theorem noQuantifier_text (a : Tree .alternative) : NoQuantifier a.text := by
  have hread := a.reads [] (by rintro c t ⟨⟩)
  rw [List.append_nil] at hread
  exact noQuantifier_of_alternative (by rw [hread])

/-- What is read in front of an alternative is read in front of its disjunction. -/
theorem disjunction_of_andThen {s v : List Char} {r : Reading}
    (h : alternative s = r.andThen (alternative v)) :
    disjunction s = r.andThen (disjunction v) := by
  rw [disjunction_eq s, disjunction_eq v, h, Reading.andThen_rest]
  split <;> simp [Reading.andThen_assoc]

theorem disjunction_of_bar {s t : List Char} {steps : List Nesting.Step}
    (h : alternative s = ⟨'|' :: t, [], steps⟩) :
    disjunction s = (Reading.ofSteps (steps ++ [.bar]) t).andThen (disjunction t) := by
  rw [disjunction_eq, h]
  simp [Reading.andThen, Reading.ofSteps]

/-- Reading the text of a tree in front of a text that begins with no quantifier is taking the
steps of the tree, and then reading that text. -/
def Tree.ReadsFirst : {p : Part} → Tree p → Prop
  | .disjunction, d => ∀ v, NoQuantifier v →
      disjunction (d.text ++ v) = (Reading.ofSteps d.steps v).andThen (disjunction v)
  | .alternative, a => ∀ v, NoQuantifier v →
      alternative (a.text ++ v) = (Reading.ofSteps a.steps v).andThen (alternative v)
  | .term, t => ∀ v, NoQuantifier v →
      alternative (t.text ++ v) = (Reading.ofSteps t.steps v).andThen (alternative v)

theorem Tree.readsFirst {p : Part} (t : Tree p) : t.ReadsFirst := by
  induction t with
  | single a ih => exact fun v hv => disjunction_of_andThen (ih v hv)
  | bar a d _ ih =>
      intro v hv
      have hfirst := a.reads ('|' :: (d.text ++ v)) (by rintro c t ⟨⟩; decide)
      rw [Tree.text, List.append_assoc, List.cons_append, disjunction_of_bar hfirst, ih v hv,
        ← Reading.andThen_assoc]
      simp [Reading.andThen, Reading.ofSteps, Tree.steps]
  | nil => exact fun v _ => rfl
  | cons t a iht iha =>
      intro v hv
      have hrest : NoQuantifier (a.text ++ v) := (noQuantifier_text a).append hv
      rw [Tree.text, List.append_assoc, iht _ hrest, iha v hv, ← Reading.andThen_assoc]
      rfl
  | anchor k => exact fun v _ => alternative_of_anchor k v
  | lookaround k d _ =>
      intro v _
      have hread := alternative_of_lookaround k (d.reads (')' :: v) (by rintro c t ⟨⟩; decide))
      simpa [Tree.text, Tree.steps] using hread
  | leaf s h q =>
      intro v hv
      rw [Tree.text, List.append_assoc, alternative_leaf h q.derived hv]
      rfl
  | group o d q _ =>
      intro v hv
      have hcontents := d.reads (')' :: (q.text ++ v)) (by rintro c t ⟨⟩; decide)
      have hread := alternative_of_group o hcontents q.derived hv
      simpa [Tree.text, Tree.steps] using hread

/-- What is read in front of a disjunction is read in front of the whole pattern. -/
theorem read_of_andThen {s v : List Char} {r : Reading}
    (h : disjunction s = r.andThen (disjunction v)) : read s = r.andThen (read v) := by
  rw [read_eq s, read_eq v, h, Reading.andThen_rest]
  split
  · rfl
  · rw [Reading.andThen_assoc]

/-- A well-formed text is read, and then what follows it as a pattern of its own. -/
theorem read_append (d : Tree .disjunction) {v : List Char} (hv : NoQuantifier v) :
    read (d.text ++ v) = (Reading.ofSteps d.steps v).andThen (read v) :=
  read_of_andThen (d.readsFirst v hv)

theorem read_bar (s : List Char) :
    read ('|' :: s) = (Reading.ofSteps [.bar] s).andThen (read s) := by
  have hempty : alternative ('|' :: s) = ⟨'|' :: s, [], []⟩ :=
    alternative_of_endsAt (by rintro c t ⟨⟩; decide)
  exact read_of_andThen (disjunction_of_bar hempty)

theorem read_closingParenthesis (s : List Char) :
    read (')' :: s) = (strayCloser ')' s).andThen (read s) := by
  have hempty : disjunction (')' :: s) = ⟨')' :: s, [], []⟩ :=
    (Tree.single .nil).reads (')' :: s) (by rintro c t ⟨⟩; decide)
  rw [read_eq, hempty]
  rfl

/-- A closing bracket or brace is skipped by the alternative that it stands in. -/
theorem read_misplaced {c : Char} (h : c = ']' ∨ c = '}') (s : List Char) :
    read (c :: s) = (strayCloser c s).andThen (read s) := by
  have hterm : term? (c :: s) = none := by
    rw [term?_eq]
    rcases h with rfl | rfl <;> rfl
  have hskip : misplaced? (c :: s) = some ⟨(), s, [⟨.strayCloser, c :: s⟩]⟩ := by
    rw [misplaced?, if_pos h]
  have hread : alternative (c :: s) = (strayCloser c s).andThen (alternative s) := by
    rw [alternative_eq, hterm, hskip]
    rfl
  exact read_of_andThen (disjunction_of_andThen hread)

/-- A closing character that is left over is noted, and reading goes on behind it. -/
theorem read_stray {c : Char} (h : c ∈ [')', ']', '}']) (s : List Char) :
    read (c :: s) = (strayCloser c s).andThen (read s) := by
  simp only [List.mem_cons, List.not_mem_nil, or_false] at h
  rcases h with rfl | h
  · exact read_closingParenthesis s
  · exact read_misplaced h s

theorem noQuantifier_stray {c : Char} (h : c ∈ [')', ']', '}']) (s : List Char) :
    NoQuantifier (c :: s) := by
  have hnone : [')', ']', '}'].any isQuantifierStart = false := by decide
  rintro d t heq
  obtain ⟨rfl, -⟩ := List.cons.inj heq
  simpa using List.any_eq_false.mp hnone c h

/-- The problems of a text with another text in front, if that only adds to the reading. -/
theorem problems_of_andThen {A B : String} {r : Reading}
    (h : read (A ++ B).toList = r.andThen (read B.toList)) :
    (analyze (A ++ B)).problems =
      r.notices.map (·.locate (A ++ B).toList) ++ (analyze B).problems.map (·.behind A) := by
  rw [problems_analyze, problems_analyze, h, Reading.andThen_notices, List.map_append,
    List.map_map]
  congr 1
  apply List.map_congr_left
  intro n hn
  have hlocate := locate_append A.toList ((read_inOrder B.toList).within n hn).1
  simpa using hlocate

/-- Behind a well-formed pattern, a bar begins a part whose problems are its own, moved. A closing
character is one problem, and reading goes on behind it with the problems of the rest, moved. -/
theorem problems_behind_wellFormed {A : String} (h : (analyze A).isSuccess = true) (B : String) :
    (analyze (A ++ "|" ++ B)).problems = (analyze B).problems.map (·.behind (A ++ "|")) ∧
      ∀ c ∈ [')', ']', '}'], (analyze (A ++ String.singleton c ++ B)).problems =
        ⟨.strayCloser, A, String.singleton c ++ B⟩ ::
          (analyze B).problems.map (·.behind (A ++ String.singleton c)) := by
  obtain ⟨d, hd⟩ := exists_tree_of_isSuccess h
  constructor
  · have hread : read (A ++ "|" ++ B).toList =
        ((Reading.ofSteps d.steps ('|' :: B.toList)).andThen
          (Reading.ofSteps [.bar] B.toList)).andThen (read B.toList) := by
      have htext : (A ++ "|" ++ B).toList = d.text ++ '|' :: B.toList := by simp [hd]
      rw [htext, read_append d (by rintro c t ⟨⟩; decide), read_bar, Reading.andThen_assoc]
    exact problems_of_andThen hread
  · intro c hc
    have htext : (A ++ String.singleton c ++ B).toList = d.text ++ c :: B.toList := by simp [hd]
    have hread : read (A ++ String.singleton c ++ B).toList =
        ((Reading.ofSteps d.steps (c :: B.toList)).andThen (strayCloser c B.toList)).andThen
          (read B.toList) := by
      rw [htext, read_append d (noQuantifier_stray hc _), read_stray hc, Reading.andThen_assoc]
    have hlocate : Notice.locate (d.text ++ c :: B.toList) ⟨.strayCloser, c :: B.toList⟩ =
        ⟨.strayCloser, A, String.singleton c ++ B⟩ := by
      rw [Notice.locate, Position.ofRest_append, hd]
      simp [Problem.at]
    rw [problems_of_andThen hread, htext, ← hlocate]
    rfl

theorem problems_behind_lone_surrogate :
    (analyze "(?<a>x)|\\ud83d").isSuccess = true ∧
      (analyze "(?<a>x)|\\ud83d\x7d(*").problems =
        [⟨.strayCloser, "(?<a>x)|\\ud83d", "\x7d(*"⟩,
          ⟨.nothingToRepeat, "(?<a>x)|\\ud83d\x7d(", "*"⟩,
          ⟨.unclosedGroup, "(?<a>x)|\\ud83d\x7d(*", ""⟩] := by
  have h : (analyze "(?<a>x)|\\ud83d").isSuccess = true := by decide +kernel
  have hbehind : (analyze "(*").problems =
      [⟨.nothingToRepeat, "(", "*"⟩, ⟨.unclosedGroup, "(*", ""⟩] := by decide +kernel
  refine ⟨h, ?_⟩
  have hwhole := (problems_behind_wellFormed h "(*").2 '}' (by decide)
  rw [hbehind] at hwhole
  exact hwhole

end Grammar

end NamedCaptures
