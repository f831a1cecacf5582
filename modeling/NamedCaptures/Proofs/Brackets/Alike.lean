import NamedCaptures.Pattern.Disjunction
import NamedCaptures.Proofs.Readers.Opening

/-!
# Texts that are alike to a scan

A plain scan of a pattern heeds the few characters that matter for its structure, and lets a
backslash take the next character along. To every such scan a text is the same with a token in front
or without it, as long as the token is an escape, a name or a quantifier, well formed or not: the
readers of tokens go over no character that matters. One statement for each reader, `alike_` and its
name. Only a backslash with nothing behind it is no token, since a scan may heed it.
-/

namespace NamedCaptures.Brackets

open Pattern

/-- The characters that matter to scans of the structure of a pattern. -/
def structureChars : List Char :=
  ['\\', '(', ')', '[', ']', '|']

/-- Texts that differ only by characters that do not matter, and by what backslashes take along. -/
inductive Alike : List Char → List Char → Prop
  | refl (s : List Char) : Alike s s
  | symm {s t : List Char} (h : Alike s t) : Alike t s
  | trans {s t u : List Char} (h : Alike s t) (h' : Alike t u) : Alike s u
  | cons {c : Char} (h : c ∉ structureChars) (s : List Char) : Alike (c :: s) s
  | escape (c : Char) (s : List Char) : Alike ('\\' :: c :: s) s

namespace Alike

theorem append {u : List Char} (h : ∀ c ∈ u, c ∉ structureChars) (s : List Char) :
    Alike (u ++ s) s := by
  induction u with
  | nil => exact refl s
  | cons c u ih =>
      have hu : ∀ d ∈ u, d ∉ structureChars := fun d hd => h d (List.mem_cons_of_mem c hd)
      exact (cons (h c List.mem_cons_self) (u ++ s)).trans (ih hu)

end Alike

theorem not_mem_structureChars {accept : Char → Bool} (h : structureChars.any accept = false)
    {c : Char} (hc : accept c = true) : c ∉ structureChars := by
  intro hmem
  exact List.any_eq_false.mp h c hmem hc

theorem Alike.dropWhile {accept : Char → Bool} (h : structureChars.any accept = false)
    (s : List Char) : Alike s (s.dropWhile accept) := by
  have hrun : ∀ c ∈ s.takeWhile accept, c ∉ structureChars := fun c hc =>
    not_mem_structureChars h (List.all_eq_true.mp List.all_takeWhile c hc)
  have hboth := Alike.append hrun (s.dropWhile accept)
  rwa [List.takeWhile_append_dropWhile] at hboth

theorem alike_skipOptional {c : Char} (h : c ∉ structureChars) (s : List Char) :
    Alike s (Lexeme.skipOptional c s) := by
  rcases Lexeme.skipOptional_cases c s with ⟨t, rfl, hskip⟩ | ⟨-, hskip⟩
  · rw [hskip]
    exact .cons h t
  · rw [hskip]
    exact .refl s

theorem alike_expect {c : Char} (h : c ∉ structureChars) (missing : Problem.Kind)
    (s : List Char) : Alike s (Lexeme.expect c missing s).rest := by
  rw [Lexeme.expect_rest_eq]
  exact alike_skipOptional h s

theorem any_isHexDigit : structureChars.any Numeral.isHexDigit = false := by decide

theorem any_isDigit : structureChars.any Char.isDigit = false := by decide

theorem any_isAlpha : structureChars.any Char.isAlpha = false := by decide

theorem alike_of_fourHexDigits? {s t : List Char} {n : Nat} (h : fourHexDigits? s = some (n, t)) :
    Alike s t := by
  unfold fourHexDigits? at h
  split at h
  · next a b c d u =>
      split at h
      · next hall =>
          cases h
          have hdigits : ∀ e ∈ [a, b, c, d], e ∉ structureChars :=
            fun e he => not_mem_structureChars any_isHexDigit (List.all_eq_true.mp hall e he)
          exact .append hdigits t
      · cases h
  · cases h

theorem alike_of_trailEscape? {s t : List Char} {n : Nat} (h : trailEscape? s = some (n, t)) :
    Alike s t := by
  unfold trailEscape? at h
  split at h
  · next u =>
      have hdigits := alike_of_fourHexDigits? (Option.filter_eq_some_iff.mp h).1
      exact (Alike.escape 'u' u).trans hdigits
  · cases h

theorem alike_bracedCodePoint (s : List Char) : Alike s (bracedCodePoint s).rest := by
  have hclose := (Alike.dropWhile any_isHexDigit s).trans
    (alike_expect (c := '}') (by decide) .unclosedCodePoint (s.dropWhile Numeral.isHexDigit))
  unfold bracedCodePoint
  dsimp only
  split
  · exact alike_skipOptional (by decide) s
  · split <;> exact hclose

theorem alike_unbracedCodePoint (s : List Char) : Alike s (unbracedCodePoint s).rest := by
  unfold unbracedCodePoint
  split
  · exact .refl s
  · next hlead =>
      have hl := alike_of_fourHexDigits? hlead
      split
      · split
        · next htrail => exact hl.trans (alike_of_trailEscape? htrail)
        · exact hl
      · exact hl

theorem alike_unicodeEscape (s : List Char) : Alike s (unicodeEscape s).rest := by
  unfold unicodeEscape
  split
  · exact (Alike.cons (by decide) _).trans (alike_bracedCodePoint _)
  · exact alike_unbracedCodePoint s

theorem alike_propertyExpression (s : List Char) : Alike s (propertyExpression s).rest := by
  unfold propertyExpression
  split
  · next t =>
      have hclose := alike_expect (c := '}') (by decide) .unclosedProperty
        (t.dropWhile isPropertyChar)
      exact (Alike.cons (by decide) t).trans ((Alike.dropWhile (by decide) t).trans hclose)
  · exact .refl s

theorem alike_controlLetter (s : List Char) : Alike s (controlLetter s).rest := by
  unfold controlLetter
  split
  · exact .refl []
  · next c t =>
      split
      · next hc => exact .cons (not_mem_structureChars any_isAlpha hc) t
      · exact .refl _

/-- Where the digits are missing, the letter is scanned once more, as a plain character. -/
theorem alike_hexEscape (s : List Char) : Alike s (hexEscape s).rest := by
  have hback (t : List Char) : Alike t ('x' :: t) := (Alike.cons (by decide) t).symm
  unfold hexEscape
  split
  · next a b t =>
      split
      · next hdigits =>
          obtain ⟨ha, hb⟩ := Bool.and_eq_true_iff.mp hdigits
          have ha := not_mem_structureChars any_isHexDigit ha
          have hb := not_mem_structureChars any_isHexDigit hb
          exact (Alike.cons ha _).trans (.cons hb t)
      · exact hback _
  · exact hback _

theorem alike_characterEscape (c : Char) (s : List Char) :
    Alike s (characterEscape c s).rest := by
  unfold characterEscape
  split
  · exact alike_propertyExpression s
  · exact alike_propertyExpression s
  · exact alike_controlLetter s
  · exact alike_hexEscape s
  · exact alike_unicodeEscape s
  · exact .refl s

theorem alike_classEscape (c : Char) (s : List Char) :
    Alike ('\\' :: c :: s) (classEscape (c :: s)).rest :=
  (Alike.escape c s).trans (alike_characterEscape c s)

theorem any_isStart : structureChars.any Identifier.isStart = false := by decide +kernel

theorem any_isPart : structureChars.any Identifier.isPart = false := by decide +kernel

theorem alike_nameChar {accept : Char → Bool} (h : structureChars.any accept = false)
    (s : List Char) : Alike s (nameChar accept s).rest := by
  unfold nameChar
  split
  · next t =>
      have hescape := (Alike.escape 'u' t).trans (alike_unicodeEscape t)
      dsimp only
      split
      · exact hescape
      · split <;> exact hescape
  · next c t _ =>
      split
      · next hc => exact .cons (not_mem_structureChars h hc) t
      · exact .refl _
  · exact .refl []

theorem alike_nameTail (s : List Char) : Alike s (nameTail s).rest := by
  fun_induction nameTail s with
  | case1 s first _ => exact alike_nameChar any_isPart s
  | case2 s first _ _ tail ih => exact (alike_nameChar any_isPart s).trans ih

theorem alike_nameToEnd (s : List Char) : Alike s (nameToEnd s).rest := by
  have hfirst := alike_nameChar any_isStart s
  unfold nameToEnd
  dsimp only
  split
  · exact hfirst
  · exact hfirst.trans ((alike_nameTail _).trans (alike_expect (by decide) .unclosedGroupName _))

theorem alike_groupName (s : List Char) : Alike s (groupName s).rest := by
  unfold groupName
  split
  · exact (Alike.cons (by decide) _).trans (alike_nameToEnd _)
  · exact .refl s

theorem alike_groupOpening (s : List Char) : Alike s (groupOpening s).rest := by
  unfold groupOpening
  split
  · exact (Alike.cons (by decide) _).trans (.cons (by decide) _)
  · exact (Alike.cons (by decide) _).trans (alike_groupName _)
  · exact .refl s

theorem alike_atomEscape (c : Char) (s : List Char) :
    Alike ('\\' :: c :: s) (atomEscape (c :: s)).rest := by
  have hescape := Alike.escape c s
  rw [atomEscape]
  split
  · exact hescape.trans (.dropWhile any_isDigit s)
  · split
    · exact hescape.trans (alike_groupName s)
    · exact hescape.trans (alike_characterEscape c s)

theorem alike_anchor (k : Grammar.Anchor) (s : List Char) : Alike (k.text ++ s) s := by
  cases k
  · exact .cons (by decide) s
  · exact .cons (by decide) s
  · exact .escape 'b' s
  · exact .escape 'B' s

theorem alike_lookaroundText (k : Grammar.Lookaround) (s : List Char) :
    Alike (k.text ++ s) s := by
  have hplain : ∀ c ∈ k.text, c ∉ structureChars := by
    cases k <;> simp [Grammar.Lookaround.text, structureChars]
  exact .append hplain s

theorem alike_plain {c : Char} (h : c = '.' ∨ c ∉ Grammar.syntaxChars) (s : List Char) :
    Alike (c :: s) s := by
  refine .cons ?_ s
  rcases h with rfl | h
  · decide
  · have hsubset : structureChars ⊆ Grammar.syntaxChars := by decide
    exact fun hmem => h (hsubset hmem)

theorem alike_greatestCount (least : Nat) (s : List Char) :
    Alike s (greatestCount least s).rest := by
  unfold greatestCount
  split
  · exact (Alike.cons (by decide) _).trans (.dropWhile any_isDigit _)
  · exact .refl s

theorem alike_countedQuantifier (s : List Char) : Alike s (countedQuantifier s).rest := by
  unfold countedQuantifier
  dsimp only
  split
  · exact (Alike.dropWhile (by decide) s).trans (alike_skipOptional (by decide) _)
  · have hclose := (Alike.dropWhile any_isDigit s).trans
      ((alike_greatestCount (Quantifier.count (s.takeWhile Char.isDigit)) _).trans
        (alike_expect (c := '}') (by decide) .unclosedQuantifier _))
    split <;> exact hclose

theorem alike_bareQuantifier (s : List Char) : Alike s (bareQuantifier s).rest := by
  unfold bareQuantifier
  split
  · exact .cons (by decide) _
  · exact .cons (by decide) _
  · exact .cons (by decide) _
  · exact (Alike.cons (by decide) _).trans (alike_countedQuantifier _)
  · exact .refl s

theorem alike_quantifier (s : List Char) : Alike s (quantifier s).rest := by
  unfold quantifier
  dsimp only
  split
  · exact (alike_bareQuantifier s).trans (alike_skipOptional (by decide) _)
  · exact alike_bareQuantifier s

end NamedCaptures.Brackets
