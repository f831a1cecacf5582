import NamedCaptures.Analysis
import NamedCaptures.Proofs.Brackets.Agreement

/-!
# Problems with brackets

The problems that the analysis reports about parentheses and brackets are what a plain scan of the
pattern finds, whatever else is wrong with it. The main statement is `analyze_reports`.
-/

namespace NamedCaptures.Brackets

open Pattern Scan

/-- Reading a whole text agrees with a scan. -/
structure Agrees (s : List Char) (ns : List Notice) : Prop where
  scan : ∀ σ : Scan, σ.At s → σ.opened = 0 → σ.through s = σ.after ns
  truncated : ∀ n ∈ ns, n.kind = .unclosedGroup → n.rest = []
  once : ns.countP (·.kind == .unclosedClass) ≤ 1

theorem step_strayParenthesis {σ : Scan} (h : σ.inClass = false) (hopened : σ.opened = 0)
    (s : List Char) : σ.step ')' s = σ.after [⟨.strayCloser, ')' :: s⟩] := by
  rw [after_strayCloser]
  simp [step, h, hopened]

theorem Agrees.of_follows {s : List Char} {ns : List Notice} (h : Follows s [] ns) :
    Agrees s ns where
  scan σ hσ _ := by rw [h.scan σ hσ, through_nil]
  truncated := h.truncated
  once := by
    have honce := h.once
    split at honce <;> omega

/-- Reading goes on behind a closing parenthesis that is left over. -/
theorem Agrees.stray {s t : List Char} {ns ms : List Notice} (h : Follows s (')' :: t) ns)
    (h' : Agrees t ms) : Agrees s (ns ++ (⟨.strayCloser, ')' :: t⟩ :: ms)) where
  scan σ hσ hopened := by
    have hafter : (σ.after ns).inClass = false := h.at_after hσ (List.cons_ne_nil _ _)
    have hzero : (σ.after ns).opened = 0 := by
      rw [Scan.after, hopened, h.countP_eq_zero (List.cons_ne_nil _ _) (Or.inl rfl)]
    have hstep := step_strayParenthesis hafter hzero t
    have hat : ((σ.after ns).step ')' t).inClass = false := by
      rw [hstep, after_strayCloser]
      exact hafter
    have hnone : ((σ.after ns).step ')' t).opened = 0 := by
      rw [hstep, after_strayCloser]
      exact hzero
    calc
      σ.through s = (σ.after ns).through (')' :: t) := h.scan σ hσ
      _ = ((σ.after ns).step ')' t).through t := through_cons (by decide) _ t
      _ = ((σ.after ns).step ')' t).after ms := h'.scan _ (fun _ => hat) hnone
      _ = σ.after (ns ++ (⟨.strayCloser, ')' :: t⟩ :: ms)) := by
        rw [hstep, ← after_append, ← after_append, List.singleton_append]
  truncated n hn hkind := by
    rcases List.mem_append.mp hn with hn | hn
    · exact h.truncated n hn hkind
    · rcases List.mem_cons.mp hn with rfl | hn
      · cases hkind
      · exact h'.truncated n hn hkind
  once := by
    have hone : (⟨.strayCloser, ')' :: t⟩ :: ms).countP (·.kind == .unclosedClass) =
        ms.countP (·.kind == .unclosedClass) :=
      List.countP_cons_of_neg Bool.false_ne_true
    rw [List.countP_append, h.countP_eq_zero (List.cons_ne_nil _ _) (Or.inr rfl), hone,
      Nat.zero_add]
    exact h'.once

theorem read_agrees (s : List Char) : Agrees s (read s).notices := by
  fun_induction read s with
  | case1 s contents h =>
      have hfollows := disjunction_follows s
      rw [h] at hfollows
      exact .of_follows hfollows
  | case2 s contents c t h _ ih =>
      have hfollows := disjunction_follows s
      obtain rfl := disjunction_next s c (congrArg List.head? h)
      rw [h] at hfollows
      exact .stray hfollows ih

/-- Whether the problem is that the given character closes nothing. -/
def closesNothing (c : Char) (p : Problem) : Bool :=
  p.kind == .strayCloser && p.remaining.toList.head? == some c

/-- The problem that what begins the text from a place on closes nothing. -/
def strayAt (text rest : List Char) : Problem :=
  .at (.ofRest text rest) .strayCloser

/-- The problems of a text are, as for parentheses and brackets, what a scan has found. -/
structure Reports (text : List Char) (found : Scan) (problems : List Problem) : Prop where
  unclosedGroups : problems.countP (·.kind == .unclosedGroup) = found.opened
  truncated : ∀ p ∈ problems, p.kind = .unclosedGroup → p.remaining = ""
  strayParentheses :
    problems.filter (closesNothing ')') = found.strayParentheses.map (strayAt text)
  strayBrackets :
    problems.filter (closesNothing ']') = found.strayBrackets.map (strayAt text)
  unclosedClass :
    problems.countP (·.kind == .unclosedClass) = if found.inClass then 1 else 0

theorem closesNothing_locate (c : Char) (text : List Char) (n : Notice) :
    closesNothing c (n.locate text) = isStray c n := by
  simp [closesNothing, isStray, Notice.locate, Problem.at, Position.ofRest]

theorem filter_closesNothing (c : Char) (text : List Char) (ns : List Notice) :
    (ns.map (·.locate text)).filter (closesNothing c) =
      ((ns.filter (isStray c)).map (·.rest)).map (strayAt text) := by
  induction ns with
  | nil => rfl
  | cons n ns ih =>
      rw [List.map_cons, List.filter_cons, closesNothing_locate, List.filter_cons]
      split
      · next h =>
          have hkind : n.kind = .strayCloser := by
            simp only [isStray, Bool.and_eq_true, beq_iff_eq] at h
            exact h.1
          rw [ih, List.map_cons, List.map_cons, strayAt, Notice.locate, hkind]
      · exact ih

theorem countP_kind_locate (kind : Problem.Kind) (text : List Char) (ns : List Notice) :
    (ns.map (·.locate text)).countP (·.kind == kind) = ns.countP (·.kind == kind) := by
  rw [List.countP_map]
  rfl

theorem countP_eq_ite_any {ns : List Notice} {p : Notice → Bool} (h : ns.countP p ≤ 1) :
    ns.countP p = if ns.any p then 1 else 0 := by
  have hpos : 0 < ns.countP p ↔ ns.any p = true := by
    rw [List.countP_pos_iff, List.any_eq_true]
  split
  · next hany =>
      have hlt := hpos.mpr hany
      omega
  · next hany =>
      rw [← hpos] at hany
      omega

/-- For every pattern, well formed or not, the problems with parentheses and brackets are those
that a plain scan finds. -/
theorem analyze_reports (pattern : String) :
    Reports pattern.toList (Scan.through {} pattern.toList) (analyze pattern).problems := by
  have hagrees := read_agrees pattern.toList
  rw [hagrees.scan {} (fun _ => rfl) rfl, problems_analyze]
  constructor
  · rw [countP_kind_locate]
    simp [Scan.after]
  · intro p hp hkind
    obtain ⟨n, hn, rfl⟩ := List.mem_map.mp hp
    have hrest := hagrees.truncated n hn hkind
    simp [Notice.locate, Problem.at, Position.ofRest, hrest]
  · rw [filter_closesNothing]
    simp [Scan.after]
  · rw [filter_closesNothing]
    simp [Scan.after]
  · rw [countP_kind_locate, countP_eq_ite_any hagrees.once]
    rfl

end NamedCaptures.Brackets
