import NamedCaptures.Proofs.Grammar.TokenRecognition
import NamedCaptures.Proofs.Readers.Opening
import NamedCaptures.Proofs.Readers.Order

/-!
# Completing tokens

Where a reader of tokens notes something first, what it has passed over up to there is the beginning
of a token: some text makes a token out of it. The exception is a code point in braces that is not
closed, as its digits may already stand for a number that is no character of a name.

## Implementation notes

`Completes` says this of the first notice only, and no reader is asked what it would read in the
completed text. The completed text is shown to be one of the grammar instead.
-/

namespace NamedCaptures.Grammar

open Pattern

/-- What stands in the text before the first notice can be completed to a text of that sort. -/
def Completes (P : List Char → Prop) (s : List Char) (ns : List Notice) : Prop :=
  ∀ n ∈ ns.head?, n.kind ≠ .unclosedCodePoint → ∃ c t, s = c ++ n.rest ∧ P (c ++ t)

namespace Completes

variable {P Q : List Char → Prop} {s t u : List Char} {ns ms : List Notice} {kind : Problem.Kind}

theorem nil : Completes P s [] := by
  rintro n ⟨⟩

/-- A notice at the front of the text. -/
theorem here (h : P t) : Completes P s (⟨kind, s⟩ :: ns) := by
  rintro n hn -
  cases hn
  exact ⟨[], t, rfl, h⟩

theorem unclosedCodePoint : Completes P s (⟨.unclosedCodePoint, u⟩ :: ns) := by
  rintro n hn hkind
  cases hn
  exact absurd rfl hkind

/-- Further notices matter only if there is none before them. -/
theorem append (hn : Completes P s ns) (hm : ns = [] → Completes P s ms) :
    Completes P s (ns ++ ms) := by
  cases ns with
  | nil => exact hm rfl
  | cons n ns => exact hn

/-- A part of a text that can be completed is completed to the whole. -/
theorem behind (h : Completes Q s ns) (hQ : ∀ v, Q v → ∃ w, P (u ++ (v ++ w))) :
    Completes P (u ++ s) ns := by
  intro n hn hkind
  obtain ⟨c, t, rfl, hc⟩ := h n hn hkind
  obtain ⟨w, hw⟩ := hQ _ hc
  exact ⟨u ++ c, t ++ w, (List.append_assoc _ _ _).symm, by simpa using hw⟩

theorem behind_takeWhile {accept : Char → Bool} (h : Completes Q (s.dropWhile accept) ns)
    (hQ : ∀ v, Q v → P (s.takeWhile accept ++ v)) : Completes P s ns := by
  rw [← List.takeWhile_append_dropWhile (p := accept) (l := s)]
  exact h.behind fun v hv => ⟨[], by simpa using hQ v hv⟩

theorem followed (h : Completes Q s ns) (hQ : ∀ v, Q v → ∃ w, P (v ++ w)) : Completes P s ns :=
  h.behind (u := []) hQ

theorem mono (h : Completes Q s ns) (hQ : ∀ v, Q v → P v) : Completes P s ns :=
  h.followed fun v hv => ⟨[], by simpa using hQ v hv⟩

theorem expect (c : Char) (missing : Problem.Kind) (h : P t) :
    Completes P s (Lexeme.expect c missing s).notices := by
  rcases Lexeme.expect_cases c missing s with ⟨t, -, hread⟩ | ⟨-, hread⟩
  · rw [hread]
    exact .nil
  · rw [hread]
    exact .here h

end Completes

theorem completes_bracedCodePoint (s : List Char) :
    Completes (fun v => UnicodeEscape ('u' :: '{' :: v) 'a'.toNat) s
      (bracedCodePoint s).notices := by
  have hdigits : Digits Numeral.isHexDigit ['6', '1'] :=
    ⟨by decide, List.all_eq_true.mp (by decide)⟩
  have hletter : UnicodeEscape ['u', '{', '6', '1', '}'] 'a'.toNat :=
    .braced hdigits (by decide)
  unfold bracedCodePoint
  dsimp only
  split
  · exact .here hletter
  · split
    · rcases Lexeme.expect_cases '}' .unclosedCodePoint (s.dropWhile Numeral.isHexDigit) with
        ⟨t, -, hread⟩ | ⟨-, hread⟩
      · rw [hread]
        exact .nil
      · rw [hread]
        exact .unclosedCodePoint
    · exact .here hletter

/-- An escape is completed to one for a letter, which may stand anywhere in a name. -/
theorem completes_unicodeEscape (s : List Char) :
    Completes (fun v => UnicodeEscape ('u' :: v) 'a'.toNat) s (unicodeEscape s).notices := by
  unfold unicodeEscape
  split
  · next t =>
      exact (completes_bracedCodePoint t).behind (u := ['{']) fun v hv => ⟨[], by simpa using hv⟩
  · rcases unbracedCodePoint_cases s with hread | hnone
    · have hdigits : FourHexDigits ['0', '0', '6', '1'] :=
        ⟨rfl, List.all_eq_true.mp (by decide)⟩
      rw [hread]
      exact .here (.four hdigits)
    · rw [hnone]
      exact .nil

/-- What may follow a backslash in a class and outside as well. -/
structure Escapes (v : List Char) : Prop where
  inClass : CharEscape v
  atom : LeafAtom ('\\' :: v)

theorem Escapes.of_mem {c : Char} {e : List Char} (hc : c ∈ 'd' :: openEscapes)
    (h : CharEscape (c :: e)) : Escapes (c :: e) := by
  simp only [openEscapes, List.mem_cons, List.not_mem_nil, or_false] at hc
  rcases hc with rfl | rfl | rfl | rfl | rfl | rfl <;>
    exact ⟨h, .escape h (by decide) (by decide) (by decide)⟩

theorem escapes_digit : Escapes ['d'] :=
  .of_mem (by decide) (.whole (by decide))

theorem completes_propertyExpression {c : Char} (hc : c = 'p' ∨ c = 'P') (s : List Char) :
    Completes (fun v => CharEscape (c :: v)) s (propertyExpression s).notices := by
  unfold propertyExpression
  split
  · next t =>
      have hrun : Completes (fun v => CharEscape (c :: '{' :: v)) t
          (Lexeme.expect '}' .unclosedProperty (t.dropWhile isPropertyChar)).notices := by
        refine .behind_takeWhile (.expect '}' .unclosedProperty (P := (· = ['}'])) rfl) ?_
        rintro v rfl
        exact .property hc (takeWhile_isPropertyChar t)
      exact hrun.behind (u := ['{']) fun v hv => ⟨[], by simpa using hv⟩
  · exact .here (.property hc (s := []) (by simp))

theorem completes_controlLetter (s : List Char) :
    Completes (fun v => CharEscape ('c' :: v)) s (controlLetter s).notices := by
  have hletter : CharEscape ['c', 'a'] := .control (by decide)
  unfold controlLetter
  split
  · exact .here hletter
  · split
    · exact .nil
    · exact .here hletter

/-- The letter `x` is not passed over where its digits are missing, so any other escape will do. -/
theorem completes_hexEscape (s : List Char) :
    Completes Escapes ('x' :: s) (hexEscape s).notices := by
  unfold hexEscape
  split
  · split
    · exact .nil
    · exact .here escapes_digit
  · exact .here escapes_digit

theorem completes_characterEscape (c : Char) (s : List Char) :
    Completes Escapes (c :: s) (characterEscape c s).notices := by
  have hopen {ns : List Notice} (hc : c ∈ 'd' :: openEscapes)
      (h : Completes (fun v => CharEscape (c :: v)) s ns) : Completes Escapes (c :: s) ns :=
    h.behind (u := [c]) fun v hv => ⟨[], by simpa using Escapes.of_mem hc hv⟩
  unfold characterEscape
  split
  · exact hopen (by decide) (completes_propertyExpression (Or.inl rfl) s)
  · exact hopen (by decide) (completes_propertyExpression (Or.inr rfl) s)
  · exact hopen (by decide) (completes_controlLetter s)
  · exact completes_hexEscape s
  · exact hopen (by decide) ((completes_unicodeEscape s).mono fun v hv => .unicode hv)
  · exact .nil

theorem completes_classEscape (s : List Char) :
    Completes CharEscape s (classEscape s).notices := by
  cases s with
  | nil => exact .here escapes_digit.inClass
  | cons c s => exact (completes_characterEscape c s).mono fun v hv => hv.inClass

/-- The items of a class and its closing bracket. -/
def ClosedItems (v : List Char) : Prop :=
  ∃ u, ClassItems u ∧ v = u ++ [']']

theorem completes_classMembers (s : List Char) :
    Completes ClosedItems s (classMembers s).notices := by
  fun_induction classMembers s with
  | case1 => exact .here ⟨[], .nil, rfl⟩
  | case2 s => exact .nil
  | case3 s _ escape members ih =>
      refine .append ?_ fun hclean => ?_
      · refine (completes_classEscape s).behind (u := ['\\']) fun v hv => ⟨[']'], '\\' :: v, ?_, rfl⟩
        simpa using ClassItems.escape hv .nil
      · obtain ⟨u, hs, hu⟩ := classEscape_recognised hclean
        rw [hs]
        refine ih.behind (u := '\\' :: u) ?_
        rintro _ ⟨v, hv, rfl⟩
        exact ⟨[], '\\' :: (u ++ v), hu v hv, by simp⟩
  | case4 c s hb he ih =>
      refine ih.behind (u := [c]) ?_
      rintro _ ⟨v, hv, rfl⟩
      exact ⟨[], c :: v, .plain hb he hv, by simp⟩

theorem completes_characterClass (s : List Char) :
    Completes ClosedItems s (characterClass s).notices := by
  rw [characterClass_eq_classMembers]
  exact completes_classMembers s

/-- Whichever character was wanted, the letter may stand there. -/
theorem completes_nameChar (accept : Char → Bool) (s : List Char) :
    Completes (SpellsChar · 'a') s (nameChar accept s).notices := by
  unfold nameChar
  split
  · next s =>
      have hescape : Completes (SpellsChar · 'a') ('\\' :: 'u' :: s) (unicodeEscape s).notices :=
        (completes_unicodeEscape s).behind (u := ['\\', 'u']) fun v hv =>
          ⟨[], by simpa using SpellsChar.escape hv⟩
      dsimp only
      split
      · exact hescape
      · split
        · exact hescape
        · exact hescape.append fun _ => .here (.literal 'a')
  · split <;> exact .nil
  · exact .nil

theorem isStart_letter : Identifier.isStart 'a' = true := by
  decide +kernel

/-- The rest of a name. -/
def NameEnd (v : List Char) : Prop :=
  ∃ name, SpellsTail v name

theorem nameEnd_letter {v : List Char} (h : SpellsChar v 'a') : NameEnd v := by
  have htail := SpellsTail.cons h (Identifier.isPart_of_isStart isStart_letter) .nil
  rw [List.append_nil] at htail
  exact ⟨_, htail⟩

theorem completes_nameTail (s : List Char) : Completes NameEnd s (nameTail s).notices := by
  fun_induction nameTail s with
  | case1 s first _ => exact (completes_nameChar _ s).mono fun v hv => nameEnd_letter hv
  | case2 s first hpresent _ tail ih =>
      refine .append ((completes_nameChar _ s).mono fun v hv => nameEnd_letter hv) fun hclean => ?_
      rcases nameChar_recognised hclean with hread | ⟨u, c, v, hspell, hc, hs, hread⟩
      · exact absurd (congrArg Lexeme.value hread) hpresent
      · have hrest : first.rest = v := congrArg Lexeme.rest hread
        rw [hs, ← hrest]
        refine ih.behind ?_
        rintro w ⟨name, hw⟩
        exact ⟨[], _, by simpa using SpellsTail.cons hspell hc hw⟩

/-- A name and its closing angle bracket. -/
def ClosedName (v : List Char) : Prop :=
  ∃ u name, SpellsName u name ∧ v = u ++ ['>']

theorem closedName_letter {v : List Char} (h : SpellsChar v 'a') : ClosedName (v ++ ['>']) := by
  have hname := SpellsName.mk h isStart_letter .nil
  rw [List.append_nil] at hname
  exact ⟨v, _, hname, rfl⟩

theorem completes_nameToEnd (s : List Char) : Completes ClosedName s (nameToEnd s).notices := by
  have hfirst : Completes ClosedName s (nameChar Identifier.isStart s).notices :=
    (completes_nameChar _ s).followed fun v hv => ⟨['>'], closedName_letter hv⟩
  unfold nameToEnd
  dsimp only
  split
  · next habsent =>
      refine hfirst.append fun hclean => ?_
      rcases nameChar_recognised hclean with hread | ⟨u, c, v, -, -, -, hread⟩
      · rw [hread]
        exact .here (closedName_letter (.literal 'a'))
      · rw [hread] at habsent
        cases habsent
  · next hpresent =>
      rw [List.append_assoc]
      refine hfirst.append fun hclean => ?_
      rcases nameChar_recognised hclean with hread | ⟨u, c, v, hspell, hc, rfl, hread⟩
      · exact absurd (congrArg Lexeme.value hread) hpresent
      · have hclosed {t name : List Char} (ht : SpellsTail t name) :
            ClosedName (u ++ (t ++ ['>'])) :=
          ⟨u ++ t, c :: name, .mk hspell hc ht, (List.append_assoc _ _ _).symm⟩
        rw [hread]
        refine .append ?_ fun hclean => ?_
        · refine (completes_nameTail v).behind ?_
          rintro t ⟨name, ht⟩
          exact ⟨['>'], hclosed ht⟩
        · obtain ⟨t, name, ht, hv, -⟩ := nameTail_recognised hclean
          have hclosing : Completes (· = ['>']) (nameTail v).rest
              (Lexeme.expect '>' .unclosedGroupName (nameTail v).rest).notices :=
            .expect '>' .unclosedGroupName rfl
          have hrest := hclosing.behind (P := ClosedName) (u := u ++ t) fun w hw =>
            ⟨[], by simpa [hw] using hclosed ht⟩
          rwa [List.append_assoc, ← hv] at hrest

/-- A name between its angle brackets. -/
def BracketedName (v : List Char) : Prop :=
  ∃ u name, SpellsName u name ∧ v = '<' :: (u ++ ['>'])

theorem completes_groupName (s : List Char) :
    Completes BracketedName s (groupName s).notices := by
  have hbracketed {v : List Char} : ClosedName v → BracketedName ('<' :: v) := by
    rintro ⟨u, name, hname, rfl⟩
    exact ⟨u, name, hname, rfl⟩
  unfold groupName
  split
  · next t =>
      exact (completes_nameToEnd t).behind (u := ['<']) fun v hv =>
        ⟨[], by simpa using hbracketed hv⟩
  · exact .here (hbracketed (closedName_letter (.literal 'a')))

theorem completes_atomEscape (s : List Char) :
    Completes (fun v => LeafAtom ('\\' :: v)) s (atomEscape s).notices := by
  unfold atomEscape
  split
  · exact .here escapes_digit.atom
  · next c t =>
      split
      · exact .nil
      · split
        · next hc =>
            subst hc
            refine (completes_groupName t).behind (u := ['k']) ?_
            rintro _ ⟨u, name, hname, rfl⟩
            exact ⟨[], by simpa using LeafAtom.namedReference hname⟩
        · exact (completes_characterEscape c t).mono fun v hv => hv.atom

theorem completes_opening_atom {s : List Char} {l : Lexeme Unit} (h : Opening.of s = .atom l) :
    Completes LeafAtom s l.notices := by
  rcases Opening.eq_of_atom h with ⟨c, t, rfl, -, rfl⟩ | ⟨t, rfl, rfl⟩ | ⟨t, rfl, -, rfl⟩
  · exact .nil
  · refine (completes_characterClass t).behind (u := ['[']) ?_
    rintro _ ⟨u, hu, rfl⟩
    exact ⟨[], by simpa using LeafAtom.characterClass hu⟩
  · exact (completes_atomEscape t).behind (u := ['\\']) fun v hv => ⟨[], by simpa using hv⟩

/-- The digits of a number above the greatest count. -/
def nines : List Char :=
  List.replicate 20 '9'

theorem count_nines (ds : List Char) :
    Pattern.Quantifier.count (ds ++ nines) = Pattern.Quantifier.maxCount := by
  have hnines : Pattern.Quantifier.maxCount ≤ Numeral.value 10 nines := by decide +kernel
  exact Nat.min_eq_right (Nat.le_trans hnines (Numeral.value_le_append_left 10 ds nines))

/-- What may follow an atom. -/
def MayFollow (v : List Char) : Prop :=
  ∃ q, Quantification v q

/-- Of a counted quantifier nothing is missing but the closing brace and perhaps more digits in
front of it: a number above the greatest count is not below the least one. -/
theorem greatestCount_completable {ds : List Char} (hds : Digits Char.isDigit ds) (least : Nat)
    (t : List Char) :
    ∃ u w, t = u ++ (greatestCount least t).rest ∧ MayFollow ('{' :: (ds ++ (u ++ w))) := by
  unfold greatestCount
  split
  · next t =>
      have hes : Digits Char.isDigit (t.takeWhile Char.isDigit ++ nines) := by
        refine ⟨by simp [nines], ?_⟩
        rintro d hd
        rcases List.mem_append.mp hd with hd | hd
        · exact List.all_eq_true.mp List.all_takeWhile d hd
        · rw [List.eq_of_mem_replicate hd]
          decide
      have hle : countOf ds ≤ countOf (t.takeWhile Char.isDigit ++ nines) := by
        rw [← count_eq_countOf hes, count_nines]
        exact countOf_le_maxCount ds
      have hbetween := Quantification.greedy (.between hds hes hle)
      rw [List.append_assoc] at hbetween
      refine ⟨',' :: t.takeWhile Char.isDigit, nines ++ ['}'], ?_, _, hbetween⟩
      rw [List.cons_append, List.takeWhile_append_dropWhile]
  · exact ⟨[], ['}'], rfl, _, .greedy (.exactly hds)⟩

theorem completes_countedQuantifier (s : List Char) :
    Completes MayFollow ('{' :: s) (countedQuantifier s).notices := by
  cases hempty : (s.takeWhile Char.isDigit).isEmpty with
  | true =>
      simp only [countedQuantifier, hempty, if_true]
      have hdigit : Digits Char.isDigit ['1'] := ⟨by decide, List.all_eq_true.mp (by decide)⟩
      have hone : MayFollow ['{', '1', '}'] := ⟨_, .greedy (.exactly hdigit)⟩
      refine Completes.behind (u := ['{']) (.here (P := (· = ['1', '}'])) rfl) ?_
      rintro v rfl
      exact ⟨[], hone⟩
  | false =>
      have hds := digits_takeWhile hempty
      have hs := List.takeWhile_append_dropWhile (p := Char.isDigit) (l := s)
      simp only [countedQuantifier, hempty, Bool.false_eq_true, if_false]
      generalize s.takeWhile Char.isDigit = ds at hs hds ⊢
      generalize s.dropWhile Char.isDigit = t at hs ⊢
      obtain ⟨u, w, ht, hquantifier⟩ :=
        greatestCount_completable hds (Pattern.Quantifier.count ds) t
      generalize greatestCount (Pattern.Quantifier.count ds) t = greatest at ht ⊢
      split
      · dsimp only
        split
        · exact .here ⟨_, .once⟩
        · exact .nil
      · have hclosing : Completes (· = w) greatest.rest
            (Lexeme.expect '}' .unclosedQuantifier greatest.rest).notices :=
          .expect '}' .unclosedQuantifier rfl
        have hopen := hclosing.behind (P := MayFollow) (u := '{' :: (ds ++ u)) fun v hv =>
          ⟨[], by simpa [hv] using hquantifier⟩
        rwa [List.cons_append, List.append_assoc, ← ht, hs] at hopen

theorem completes_quantifier (s : List Char) :
    Completes MayFollow s (quantifier s).notices := by
  have hbare : Completes MayFollow s (bareQuantifier s).notices := by
    unfold bareQuantifier
    split
    · exact .nil
    · exact .nil
    · exact .nil
    · exact completes_countedQuantifier _
    · exact .nil
  unfold quantifier
  dsimp only
  split <;> exact hbare

end NamedCaptures.Grammar
