import NamedCaptures.Proofs.Brackets.Tokens
import NamedCaptures.Proofs.Readers.Stopping

/-!
# The readers agree with a scan for brackets

Reading a part of a text and scanning it come to the same, with the notices of the reader in place
of what the scan finds. `Follows` says so of one reading; it is carried along by all the equations
of the readers, and the main statement is `disjunction_follows`.

## Implementation notes

Agreement needs the scan to be outside of classes, which it is wherever a reader goes on: a class
that does not end takes the text to its end, and so does a group. That is why `Follows` also says
that nothing is left behind such a notice.
-/

namespace NamedCaptures.Brackets

open Pattern Scan

/-- The scan is outside of classes, or the text is at its end. -/
def Scan.At (σ : Scan) (s : List Char) : Prop :=
  s ≠ [] → σ.inClass = false

/-- Reading a text up to what is left, with these notices, agrees with a scan. -/
structure Follows (s rest : List Char) (ns : List Notice) : Prop where
  suffix : rest <:+ s
  /-- Scanning what is left comes to the same, from the state after the notices. -/
  scan : ∀ σ : Scan, σ.At s → σ.through s = (σ.after ns).through rest
  /-- Behind a group or class that does not end nothing is left. -/
  ended : ∀ n ∈ ns, n.kind = .unclosedGroup ∨ n.kind = .unclosedClass → rest = []
  /-- A group that does not end is noted at the end. -/
  truncated : ∀ n ∈ ns, n.kind = .unclosedGroup → n.rest = []
  /-- At most one class does not end, and none begins at the end. -/
  once : ns.countP (·.kind == .unclosedClass) ≤ if s = [] then 0 else 1

namespace Follows

variable {s t u : List Char} {ns ms : List Notice}

/-- Where a reading goes on, it has not met the end inside a group or class. -/
theorem countP_eq_zero (h : Follows s t ns) (ht : t ≠ []) {kind : Problem.Kind}
    (hkind : kind = .unclosedGroup ∨ kind = .unclosedClass) :
    ns.countP (·.kind == kind) = 0 := by
  rw [List.countP_eq_zero]
  intro n hn heq
  rw [← beq_iff_eq.mp heq] at hkind
  exact ht (h.ended n hn hkind)

theorem ne_nil (h : Follows s t ns) (ht : t ≠ []) : s ≠ [] := by
  rintro rfl
  exact ht (List.suffix_nil.mp h.suffix)

theorem at_after (h : Follows s t ns) {σ : Scan} (hσ : σ.At s) : (σ.after ns).At t := by
  intro ht
  have hcount := h.countP_eq_zero ht (Or.inr rfl)
  rw [List.countP_eq_zero] at hcount
  simpa [Scan.after, hσ (h.ne_nil ht)] using hcount

/-- Two readings, one behind the other. -/
theorem append (h : Follows s t ns) (h' : Follows t u ms) : Follows s u (ns ++ ms) where
  suffix := h'.suffix.trans h.suffix
  scan σ hσ := by rw [h.scan σ hσ, h'.scan _ (h.at_after hσ), after_append]
  ended n hn hkind := by
    rcases List.mem_append.mp hn with hn | hn
    · obtain rfl := h.ended n hn hkind
      exact List.suffix_nil.mp h'.suffix
    · exact h'.ended n hn hkind
  truncated n hn hkind := by
    rcases List.mem_append.mp hn with hn | hn
    · exact h.truncated n hn hkind
    · exact h'.truncated n hn hkind
  once := by
    have hfirst := h.once
    have hsecond := h'.once
    rw [List.countP_append]
    by_cases ht : t = []
    · rw [if_pos ht] at hsecond
      omega
    · have hzero := h.countP_eq_zero ht (Or.inr rfl)
      rw [if_neg ht] at hsecond
      rw [if_neg (h.ne_nil ht)]
      omega

/-- Reading without notices about brackets. -/
theorem of_quiet (hsuffix : t <:+ s) (hscan : ∀ σ : Scan, σ.At s → σ.through s = σ.through t)
    (hquiet : Quiet ns) : Follows s t ns where
  suffix := hsuffix
  scan σ hσ := by rw [hscan σ hσ, hquiet.after_eq]
  ended n hn hkind := by
    rcases hkind with hkind | hkind
    · exact absurd hkind (hquiet.kind_ne rfl n hn)
    · exact absurd hkind (hquiet.kind_ne rfl n hn)
  truncated n hn hkind := absurd hkind (hquiet.kind_ne rfl n hn)
  once := by
    rw [hquiet.countP_eq_zero rfl]
    exact Nat.zero_le _

theorem of_neutral {α : Type} {l : Lexeme α} (h : Neutral s l) (hsuffix : l.rest <:+ s) :
    Follows s l.rest l.notices :=
  of_quiet hsuffix (fun σ _ => h.crosses σ) h.quiet

theorem of_crosses (h : Crosses s t) (hsuffix : t <:+ s) : Follows s t [] :=
  of_quiet hsuffix (fun σ _ => h σ) Quiet.nil

theorem nil (s : List Char) : Follows s s [] :=
  of_crosses (Crosses.refl s) List.suffix_rfl

theorem quiet_append (hquiet : Quiet ms) (h : Follows s t ns) : Follows s t (ms ++ ns) :=
  (of_quiet List.suffix_rfl (fun _ _ => rfl) hquiet).append h

/-- Reading a class that does not end. -/
theorem of_unclosedClass (hs : s ≠ [])
    (hscan : ∀ σ : Scan, σ.At s → σ.through s = σ.after [⟨.unclosedClass, []⟩])
    (hquiet : Quiet ns) : Follows s [] (ns ++ [⟨.unclosedClass, []⟩]) where
  suffix := List.nil_suffix
  scan σ hσ := by rw [hscan σ hσ, after_append, hquiet.after_eq, through_nil]
  ended n _ _ := rfl
  truncated n hn hkind := by
    rcases List.mem_append.mp hn with hn | hn
    · exact absurd hkind (hquiet.kind_ne rfl n hn)
    · rw [List.mem_singleton.mp hn]
  once := by
    rw [List.countP_append, hquiet.countP_eq_zero rfl, if_neg hs]
    decide

end Follows

/-- The notices in a class, and one more where the class does not end. -/
theorem classMembers_notices (s : List Char) :
    ∃ ns, Quiet ns ∧ ((classMembers s).notices = ns ∨
      (classMembers s).rest = [] ∧ (classMembers s).notices = ns ++ [⟨.unclosedClass, []⟩]) := by
  fun_induction classMembers s with
  | case1 => exact ⟨[], Quiet.nil, Or.inr ⟨rfl, rfl⟩⟩
  | case2 s => exact ⟨[], Quiet.nil, Or.inl rfl⟩
  | case3 s escape members _ ih =>
      obtain ⟨ns, hquiet, hnotices⟩ := ih
      refine ⟨escape.notices ++ ns, (neutral_classEscape s).quiet.append hquiet, ?_⟩
      rcases hnotices with hnotices | ⟨hrest, hnotices⟩
      · exact Or.inl (congrArg (escape.notices ++ ·) hnotices)
      · refine Or.inr ⟨hrest, ?_⟩
        rw [List.append_assoc]
        exact congrArg (escape.notices ++ ·) hnotices
  | case4 c s _ _ ih => exact ih

/-- Scanning from inside a class. -/
theorem through_classMembers (s : List Char) {σ τ : Scan} (h : σ = { τ with inClass := true })
    (hτ : τ.inClass = false) :
    σ.through s = (τ.after (classMembers s).notices).through (classMembers s).rest := by
  fun_induction classMembers s with
  | case1 =>
      rw [through_nil, through_nil, h]
      simp [Scan.after, isStray]
  | case2 s =>
      have hstep : σ.step ']' s = τ := by
        rw [h]
        cases τ
        cases hτ
        rfl
      rw [through_cons (by decide), hstep, after_nil]
  | case3 s escape members _ ih =>
      have hescape := neutral_classEscape s
      rw [hescape.crosses σ, ih, after_append, hescape.quiet.after_eq]
  | case4 c s hclose hescape ih =>
      have hstep : σ.step c s = σ := by simp [step, h, hclose]
      rw [through_cons hescape, hstep, ih]

theorem follows_characterClass (s : List Char) :
    Follows ('[' :: s) (characterClass s).rest (characterClass s).notices := by
  obtain ⟨ns, hquiet, hnotices⟩ := classMembers_notices (Lexeme.skipOptional '^' s)
  have hcaret : Crosses s (Lexeme.skipOptional '^' s) := (alike_skipOptional (by decide) s).crosses
  have hscan (σ : Scan) (hσ : σ.At ('[' :: s)) : σ.through ('[' :: s) =
      (σ.after (characterClass s).notices).through (characterClass s).rest := by
    have houtside : σ.inClass = false := hσ (List.cons_ne_nil _ _)
    have hopen : σ.step '[' s = { σ with inClass := true } := by simp [step, houtside]
    rw [through_cons (by decide), hopen, hcaret]
    exact through_classMembers _ rfl houtside
  rcases hnotices with hnotices | ⟨hrest, hnotices⟩
  · rw [characterClass, hnotices] at hscan ⊢
    refine .of_quiet ((characterClass_rest s).trans (List.suffix_cons _ _)) ?_ hquiet
    intro σ hσ
    rw [hscan σ hσ, hquiet.after_eq]
  · rw [characterClass, hrest, hnotices] at hscan ⊢
    refine .of_unclosedClass (List.cons_ne_nil _ _) ?_ hquiet
    intro σ hσ
    rw [hscan σ hσ, after_append, hquiet.after_eq, through_nil]

section Parenthesized

variable {s t u : List Char} {ns : List Notice}

theorem through_opening (hcross : Crosses s t) {σ : Scan} (hσ : σ.At ('(' :: s)) :
    σ.through ('(' :: s) = σ.deeper.through t := by
  rw [through_cons (by decide), step_opening (hσ (List.cons_ne_nil _ _)), hcross]

/-- Contents up to the parenthesis that closes them. -/
theorem follows_closed (hcross : Crosses s t) (hsuffix : t <:+ s) (h : Follows t (')' :: u) ns) :
    Follows ('(' :: s) u ns where
  suffix := (List.suffix_cons _ _).trans (h.suffix.trans (hsuffix.trans (List.suffix_cons _ _)))
  scan σ hσ := by
    have hat : σ.deeper.At t := fun _ => hσ (List.cons_ne_nil _ _)
    have houtside : (σ.after ns).inClass = false := h.at_after hat (List.cons_ne_nil _ _)
    calc
      σ.through ('(' :: s) = σ.deeper.through t := through_opening hcross hσ
      _ = (σ.deeper.after ns).through (')' :: u) := h.scan σ.deeper hat
      _ = ((σ.after ns).deeper.step ')' u).through u := by
        rw [through_cons (by decide), after_deeper]
      _ = (σ.after ns).through u := by rw [step_closing houtside]
  ended n hn hkind := by cases h.ended n hn hkind
  truncated := h.truncated
  once := by
    have honce := h.once
    rw [if_neg (List.cons_ne_nil _ _)]
    split at honce <;> omega

/-- Contents up to the end of the text. -/
theorem follows_unclosed (hcross : Crosses s t) (h : Follows t [] ns) :
    Follows ('(' :: s) [] (ns ++ [⟨.unclosedGroup, []⟩]) where
  suffix := List.nil_suffix
  scan σ hσ := by
    have hat : σ.deeper.At t := fun _ => hσ (List.cons_ne_nil _ _)
    calc
      σ.through ('(' :: s) = σ.deeper.through t := through_opening hcross hσ
      _ = (σ.deeper.after ns).through [] := h.scan σ.deeper hat
      _ = (σ.after (ns ++ [⟨.unclosedGroup, []⟩])).through [] := by
        rw [after_deeper, after_append, after_unclosedGroup]
  ended n _ _ := rfl
  truncated n hn hkind := by
    rcases List.mem_append.mp hn with hn | hn
    · exact h.truncated n hn hkind
    · rw [List.mem_singleton.mp hn]
  once := by
    have honce := h.once
    have hzero : [(⟨.unclosedGroup, []⟩ : Notice)].countP (·.kind == .unclosedClass) = 0 := rfl
    rw [List.countP_append, hzero, if_neg (List.cons_ne_nil _ _)]
    split at honce <;> omega

/-- What stands between an opening parenthesis and the one that closes it, if there is one. -/
theorem follows_parenthesized (hcross : Crosses s t) (hsuffix : t <:+ s)
    (h : Follows t (disjunction t).rest (disjunction t).notices) :
    Follows ('(' :: s) (closingParenthesis (disjunction t).rest).rest
      ((disjunction t).notices ++ (closingParenthesis (disjunction t).rest).notices) := by
  rcases disjunction_stops t with hrest | ⟨u, hrest⟩
  · rw [hrest] at h ⊢
    exact follows_unclosed hcross h
  · rw [hrest] at h ⊢
    exact (List.append_nil (disjunction t).notices).symm ▸ follows_closed hcross hsuffix h

end Parenthesized

theorem follows_lookaround (k : Grammar.Lookaround) {t : List Char}
    (h : Follows t (disjunction t).rest (disjunction t).notices) :
    Follows ('(' :: (k.text ++ t)) (lookaround k.negative t).rest
      (lookaround k.negative t).notices := by
  have hfollows := follows_parenthesized (alike_lookaroundText k t).crosses
    (List.suffix_append k.text t) h
  rw [lookaround_eq]
  simpa using hfollows

theorem follows_group {t : List Char}
    (h : Follows (groupOpening t).rest (disjunction (groupOpening t).rest).rest
      (disjunction (groupOpening t).rest).notices) :
    Follows ('(' :: t) (group t).rest (group t).notices := by
  have hopening := neutral_groupOpening t
  have hfollows := follows_parenthesized hopening.crosses (groupOpening_rest t) h
  rw [group_eq]
  simpa using hfollows.quiet_append hopening.quiet

theorem follows_atom {s : List Char} {l : Lexeme Unit} (h : Opening.of s = .atom l) :
    Follows s l.rest l.notices := by
  have hsuffix := (Opening.of_rest? (congrArg Opening.rest? h)).1
  rcases Opening.eq_of_atom h with ⟨c, t, rfl, hc, rfl⟩ | ⟨t, rfl, rfl⟩ | ⟨t, rfl, -, rfl⟩
  · exact .of_crosses (alike_plain hc t).crosses hsuffix
  · exact follows_characterClass t
  · exact .of_neutral (neutral_atomEscape t) hsuffix

theorem follows_quantifier (s : List Char) : Follows s (quantifier s).rest (quantifier s).notices :=
  .of_neutral (neutral_quantifier s) (quantifier_rest s)

/-- A character that closes nothing is noted as the scan finds it. -/
theorem follows_stray {c : Char} {s : List Char}
    (h : ∀ σ : Scan, σ.inClass = false →
      σ.through (c :: s) = (σ.after [⟨.strayCloser, c :: s⟩]).through s) :
    Follows (c :: s) s [⟨.strayCloser, c :: s⟩] where
  suffix := List.suffix_cons c s
  scan σ hσ := h σ (hσ (List.cons_ne_nil _ _))
  ended n hn hkind := by
    rw [List.mem_singleton.mp hn] at hkind
    rcases hkind with hkind | hkind <;> cases hkind
  truncated n hn hkind := by
    rw [List.mem_singleton.mp hn] at hkind
    cases hkind
  once := Nat.zero_le _

theorem follows_misplaced {s : List Char} {l : Lexeme Unit} (h : misplaced? s = some l) :
    Follows s l.rest l.notices := by
  have hsuffix := (misplaced?_rest h).1
  unfold misplaced? at h
  split at h
  · cases h
  · next c t =>
      split at h
      · next hc =>
          cases h
          apply follows_stray
          intro σ hσ
          rw [after_strayCloser]
          rcases hc with rfl | rfl
          · rw [through_cons (by decide)]
            simp [step, hσ]
          · rw [Crosses.cons (by decide) t σ]
            simp
      · split at h
        · cases h
          have hquantifier := neutral_quantifier (c :: t)
          exact .of_quiet hsuffix (fun σ _ => hquantifier.crosses σ)
            (Quiet.cons rfl hquantifier.quiet)
        · cases h

theorem carried_follows :
    Carried
      (fun s r => Follows s r.rest r.notices)
      (fun s r => Follows s r.rest r.notices)
      (fun s r => Follows s r.rest r.notices) where
  bar s t ha ht hd := by
    have hbar : Follows ('|' :: t) t [] :=
      .of_crosses (Crosses.cons (by decide) t) (List.suffix_cons _ _)
    rw [ht] at ha
    exact ha.append (hbar.append hd)
  last s ha _ := ha
  more s r _ ht ha := ht.append ha
  misplaced s l _ hl ha := (follows_misplaced hl).append ha
  stop s _ _ := .nil s
  anchor s t h := by
    obtain ⟨k, rfl⟩ := Opening.eq_of_anchor h
    exact .of_crosses (alike_anchor k t).crosses (List.suffix_append k.text t)
  atom s l h := (follows_atom h).append (follows_quantifier l.rest)
  lookaround s negative t h hd := by
    obtain ⟨k, rfl, rfl⟩ := Opening.eq_of_lookaround h
    exact follows_lookaround k hd
  group s t h hd := by
    rw [Opening.eq_of_group h]
    have hquantifier := follows_quantifier (group t).rest
    simpa using (follows_group hd).append hquantifier

/-- Reading a disjunction agrees with a scan. -/
theorem disjunction_follows (s : List Char) :
    Follows s (disjunction s).rest (disjunction s).notices :=
  carried_follows.disjunction s

end NamedCaptures.Brackets
