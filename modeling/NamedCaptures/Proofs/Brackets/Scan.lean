import NamedCaptures.Lexeme

/-!
# A plain scan for brackets

What a single pass over a pattern finds out about its brackets, without any grammar: a backslash
takes the next character along, a class lasts from an opening to a closing bracket, and outside of
classes every closing parenthesis matches the innermost open one.

## Implementation notes

As a closing parenthesis matches the innermost open one, the scan only has to count the open ones.
A place is given by the text from it on, as in a notice. `after` says what notices amount to in a
scan, so that a reader agrees with the scan when scanning its text from a state is the same as
scanning what it leaves from the state after its notices.
-/

namespace NamedCaptures.Brackets

/-- What the scan of a text has found up to a place. -/
structure Scan where
  /-- Whether the place is inside a class. -/
  inClass : Bool := false
  /-- The number of opening parentheses that are not matched yet. -/
  opened : Nat := 0
  /-- The places of the closing parentheses that match nothing. -/
  strayParentheses : List (List Char) := []
  /-- The places of the closing brackets outside of any class. -/
  strayBrackets : List (List Char) := []
  deriving DecidableEq, Repr

namespace Scan

/-- The scan with one more parenthesis open. -/
def deeper (σ : Scan) : Scan :=
  { σ with opened := σ.opened + 1 }

/-- Passes a character that no backslash takes along. -/
def step (σ : Scan) (c : Char) (s : List Char) : Scan :=
  if σ.inClass then
    if c = ']' then { σ with inClass := false } else σ
  else if c = '(' then σ.deeper
  else if c = ')' then
    if σ.opened = 0 then { σ with strayParentheses := σ.strayParentheses ++ [c :: s] }
    else { σ with opened := σ.opened - 1 }
  else if c = '[' then { σ with inClass := true }
  else if c = ']' then { σ with strayBrackets := σ.strayBrackets ++ [c :: s] }
  else σ

/-- Scans a text to its end. -/
def through (σ : Scan) : List Char → Scan
  | '\\' :: _ :: s => σ.through s
  | c :: s => (σ.step c s).through s
  | [] => σ

theorem step_opening {σ : Scan} (h : σ.inClass = false) (s : List Char) :
    σ.step '(' s = σ.deeper := by
  simp [step, h]

theorem step_closing {σ : Scan} (h : σ.inClass = false) (s : List Char) :
    σ.deeper.step ')' s = σ := by
  have houtside : σ.deeper.inClass = false := h
  rw [step, if_neg (by simp [houtside])]
  rfl

/-- The characters that matter to a scan. -/
def marks : List Char := ['\\', '(', ')', '[', ']']

theorem through_nil (σ : Scan) : σ.through [] = σ := rfl

theorem through_escape (σ : Scan) (c : Char) (s : List Char) :
    σ.through ('\\' :: c :: s) = σ.through s := rfl

theorem through_cons {c : Char} (h : c ≠ '\\') (σ : Scan) (s : List Char) :
    σ.through (c :: s) = (σ.step c s).through s := by
  rw [through]
  rintro d t ⟨⟩
  exact absurd rfl h

theorem step_of_not_mem {c : Char} (h : c ∉ marks) (σ : Scan) (s : List Char) : σ.step c s = σ := by
  simp only [marks, List.mem_cons, List.not_mem_nil, or_false, not_or] at h
  simp [step, h]

end Scan

open Scan

/-- Scanning one text is the same as scanning the other one. -/
def Crosses (s t : List Char) : Prop :=
  ∀ σ : Scan, σ.through s = σ.through t

namespace Crosses

theorem refl (s : List Char) : Crosses s s := fun _ => rfl

theorem symm {s t : List Char} (h : Crosses s t) : Crosses t s := fun σ => (h σ).symm

theorem trans {s t u : List Char} (h : Crosses s t) (h' : Crosses t u) : Crosses s u :=
  fun σ => (h σ).trans (h' σ)

theorem cons {c : Char} (h : c ∉ marks) (s : List Char) : Crosses (c :: s) s := by
  intro σ
  have hne : c ≠ '\\' := by
    rintro rfl
    exact h (by decide)
  rw [through_cons hne, step_of_not_mem h]

theorem escape (c : Char) (s : List Char) : Crosses ('\\' :: c :: s) s :=
  fun σ => through_escape σ c s

theorem backslash : Crosses ['\\'] [] := by
  intro σ
  change σ.step '\\' [] = σ
  cases h : σ.inClass <;> simp [step, h]

end Crosses

/-- Whether a kind of problem is about brackets. -/
def isStructural : Problem.Kind → Bool
  | .strayCloser => true
  | .unclosedGroup => true
  | .unclosedClass => true
  | _ => false

/-- Whether the notice is for that character as one that closes nothing. -/
def isStray (c : Char) (n : Notice) : Bool :=
  n.kind == .strayCloser && n.rest.head? == some c

/-- The scan after what the notices say about brackets. -/
def Scan.after (σ : Scan) (ns : List Notice) : Scan where
  inClass := σ.inClass || ns.any (·.kind == .unclosedClass)
  opened := σ.opened + ns.countP (·.kind == .unclosedGroup)
  strayParentheses := σ.strayParentheses ++ (ns.filter (isStray ')')).map (·.rest)
  strayBrackets := σ.strayBrackets ++ (ns.filter (isStray ']')).map (·.rest)

@[simp]
theorem Scan.after_nil (σ : Scan) : σ.after [] = σ := by
  simp [after]

theorem Scan.after_append (σ : Scan) (ns ms : List Notice) :
    σ.after (ns ++ ms) = (σ.after ns).after ms := by
  simp [after, Bool.or_assoc, Nat.add_assoc]

theorem Scan.after_unclosedGroup (σ : Scan) (s : List Char) :
    σ.after [⟨.unclosedGroup, s⟩] = σ.deeper := by
  have hkind : (Problem.Kind.unclosedGroup == .unclosedClass) = false := rfl
  simp [after, deeper, isStray, hkind]

theorem Scan.after_deeper (σ : Scan) (ns : List Notice) :
    σ.deeper.after ns = (σ.after ns).deeper := by
  simp [after, deeper, Nat.add_right_comm]

theorem Scan.after_strayCloser (σ : Scan) (c : Char) (s : List Char) :
    σ.after [⟨.strayCloser, c :: s⟩] = { σ with
      strayParentheses := σ.strayParentheses ++ if c = ')' then [c :: s] else []
      strayBrackets := σ.strayBrackets ++ if c = ']' then [c :: s] else [] } := by
  have hkind : (Problem.Kind.strayCloser == .unclosedClass) = false := rfl
  by_cases h : c = ')' <;> by_cases h' : c = ']' <;> simp [after, isStray, hkind, h, h']

/-- No notice is about brackets. -/
def Quiet (ns : List Notice) : Prop :=
  ∀ n ∈ ns, isStructural n.kind = false

theorem Quiet.nil : Quiet [] := by
  rintro n ⟨⟩

theorem Quiet.cons {n : Notice} {ns : List Notice} (h : isStructural n.kind = false)
    (hns : Quiet ns) : Quiet (n :: ns) := by
  intro m hm
  rcases List.mem_cons.mp hm with rfl | hm
  · exact h
  · exact hns m hm

theorem Quiet.singleton {kind : Problem.Kind} (h : isStructural kind = false) (s : List Char) :
    Quiet [⟨kind, s⟩] :=
  Quiet.cons h Quiet.nil

theorem Quiet.append {ns ms : List Notice} (hn : Quiet ns) (hm : Quiet ms) : Quiet (ns ++ ms) := by
  intro n h
  rcases List.mem_append.mp h with h | h
  · exact hn n h
  · exact hm n h

theorem Quiet.kind_ne {ns : List Notice} (h : Quiet ns) {kind : Problem.Kind}
    (hkind : isStructural kind = true) : ∀ n ∈ ns, n.kind ≠ kind := by
  intro n hn heq
  have hquiet := h n hn
  rw [heq, hkind] at hquiet
  cases hquiet

theorem Quiet.countP_eq_zero {ns : List Notice} (h : Quiet ns) {kind : Problem.Kind}
    (hkind : isStructural kind = true) : ns.countP (·.kind == kind) = 0 := by
  simpa [List.countP_eq_zero] using h.kind_ne hkind

theorem Quiet.after_eq {ns : List Notice} (h : Quiet ns) (σ : Scan) : σ.after ns = σ := by
  have hstray (c : Char) : ns.filter (isStray c) = [] := by
    rw [List.filter_eq_nil_iff]
    intro n hn
    have hkind : n.kind ≠ .strayCloser := h.kind_ne rfl n hn
    simp [isStray, hkind]
  have hany : ns.any (·.kind == .unclosedClass) = false := by
    have hkind : ∀ n ∈ ns, n.kind ≠ .unclosedClass := h.kind_ne rfl
    simpa using hkind
  have hcount : ns.countP (·.kind == .unclosedGroup) = 0 := h.countP_eq_zero rfl
  simp [after, hstray, hany, hcount]

/-- Reading the lexeme from the text is nothing to a scan. -/
structure Neutral {α : Type} (s : List Char) (l : Lexeme α) : Prop where
  crosses : Crosses s l.rest
  quiet : Quiet l.notices

end NamedCaptures.Brackets
