import NamedCaptures.Proofs.InPlace.Loops
import NamedCaptures.Proofs.InPlace.Performing
import NamedCaptures.Proofs.Readers.Order

/-!
# Tokens in place

Every procedure for a token reads in place what the reader of that token returns. So none of its
moves is a fault: what is skipped comes next, what is cut out of the text is whole characters, and
no difference is negative.
-/

namespace NamedCaptures.InPlace

open Run

section Tokens

variable (text s : List Char)

/-- Cutting off at every digit is cutting off once. -/
theorem saturated_eq {base : Nat} (hb : 0 < base) (greatest : Nat) (digits : List Char) :
    saturated base greatest digits = min (Numeral.value base digits) greatest := by
  have hfold (n : Nat) : digits.foldl
      (fun n c => min (min (n * base) greatest + Numeral.digitValue c) greatest) (min n greatest) =
        min (digits.foldl (fun n c => base * n + Numeral.digitValue c) n) greatest := by
    induction digits generalizing n with
    | nil => rfl
    | cons c digits ih =>
        rw [List.foldl_cons, List.foldl_cons, ← ih]
        congr 1
        have hmul : greatest ≤ greatest * base := Nat.le_mul_of_pos_right _ hb
        rw [Nat.mul_comm base n]
        rcases Nat.le_total n greatest with hn | hn
        · rw [Nat.min_eq_left hn]
          omega
        · have hnb : greatest ≤ n * base := Nat.le_trans hn (Nat.le_mul_of_pos_right _ hb)
          rw [Nat.min_eq_right hn]
          omega
  have hzero := hfold 0
  rwa [Nat.zero_min] at hzero

/-- The arithmetic of a surrogate pair stays within a word. -/
theorem reads_surrogatePair {lead trail : Nat} (hl : CodePoint.isLeadSurrogate lead = true)
    (ht : CodePoint.isTrailSurrogate trail = true) :
    Reads text (surrogatePair lead trail) s ⟨CodePoint.ofSurrogates lead trail, s, []⟩ := by
  simp only [CodePoint.isLeadSurrogate, CodePoint.isTrailSurrogate, Bool.and_eq_true,
    decide_eq_true_eq] at hl ht
  have hword : UInt32.size = 4294967296 := rfl
  have hmod : (lead - 0xD800) * 0x400 % UInt32.size = (lead - 0xD800) * 0x400 :=
    Nat.mod_eq_of_lt (by omega)
  unfold surrogatePair
  refine (reads_difference text s (by omega)).silently ?_
  refine (reads_difference text s (by omega)).silently ?_
  refine (reads_sum text s (by rw [hmod]; omega)).silently ?_
  rw [hmod]
  exact reads_sum text s (by omega)

theorem isEmpty_takeWhile (accept : Char → Bool) :
    (s.takeWhile accept).isEmpty = !s.head?.any accept := by
  cases s with
  | nil => rfl
  | cons c s => cases h : accept c <;> simp [h]

/-- The text of a run that has just been skipped. -/
theorem reads_run (accept : Char → Bool) (hs : s <:+ text) :
    Reads text (textSince (.ofRest text s)) (s.dropWhile accept)
      ⟨s.takeWhile accept, s.dropWhile accept, []⟩ := by
  have hsplit := List.takeWhile_append_dropWhile (p := accept) (l := s)
  have hsince := reads_textSince text (s.dropWhile accept) (s.takeWhile accept) (by rwa [hsplit])
  rwa [hsplit] at hsince

theorem reads_bracedCodePoint :
    Reads text bracedCodePoint s (Pattern.bracedCodePoint s) := by
  refine .within (fun hs => ?_) (Pattern.bracedCodePoint_rest s)
  simp only [Pattern.bracedCodePoint, isEmpty_takeWhile]
  refine (reads_nextSatisfies text s _).silently ?_
  cases s.head?.any Numeral.isHexDigit with
  | false =>
      exact (reads_report text s .codePointWithoutDigits).bind
        ((reads_tryConsume_char text s '}').map fun _ => none) rfl
  | true =>
      refine (reads_place text s).silently ?_
      refine (reads_skipWhile text s _).silently ?_
      refine (reads_run text s _ hs).silently ?_
      have hclose := reads_expect text (s.dropWhile Numeral.isHexDigit) '}' .unclosedCodePoint
      rw [saturated_eq (by decide)]
      by_cases hle : Numeral.value 16 (s.takeWhile Numeral.isHexDigit) ≤ CodePoint.last
      · have hvalue : min (Numeral.value 16 (s.takeWhile Numeral.isHexDigit)) (UInt32.size - 1) =
            Numeral.value 16 (s.takeWhile Numeral.isHexDigit) :=
          Nat.min_eq_left (Nat.le_trans hle (by decide))
        rw [hvalue, if_pos hle, if_pos hle]
        exact hclose.choose _ none
      · have hvalue : ¬ min (Numeral.value 16 (s.takeWhile Numeral.isHexDigit)) (UInt32.size - 1) ≤
            CodePoint.last := by
          have hlast : CodePoint.last < UInt32.size - 1 := by decide
          omega
        rw [if_neg hvalue, if_neg hle]
        exact (reads_reportAt text _ .codePointTooLarge s).bind (hclose.map fun _ => none) rfl

/-- Four hexadecimal digits take up four bytes. -/
theorem splitBytes?_four {s u : List Char} {n : Nat} (h : Pattern.fourHexDigits? s = some (n, u)) :
    ∃ digits, s = digits ++ u ∧ byteLength digits = 4 := by
  obtain ⟨digits, rfl, hlength, hall, -⟩ := eq_of_fourHexDigits? h
  exact ⟨digits, rfl, by rw [byteLength_of_hex hall, hlength]⟩

theorem reads_trailSurrogate {lead : Nat} (hl : CodePoint.isLeadSurrogate lead = true) :
    Reads text (trailSurrogate lead) ('\\' :: 'u' :: s)
      (match Pattern.trailEscape? ('\\' :: 'u' :: s) with
      | some (trail, u) => ⟨some (CodePoint.ofSurrogates lead trail), u, []⟩
      | none => ⟨some lead, '\\' :: 'u' :: s, []⟩) := by
  have htwo : Position.splitBytes? 2 ('\\' :: 'u' :: s) = some (['\\', 'u'], s) :=
    splitBytes?_append ['\\', 'u'] s
  refine (reads_sliceFrom text _ htwo).silently ?_
  rw [hexValue?_eq, Pattern.trailEscape?]
  cases hfour : Pattern.fourHexDigits? s with
  | none => exact .pure (some lead) _
  | some q =>
      obtain ⟨trail, u⟩ := q
      simp only [Option.map_some, Option.filter_some]
      cases htrail : CodePoint.isTrailSurrogate trail with
      | false => exact .pure (some lead) _
      | true =>
          obtain ⟨digits, rfl, hlength⟩ := splitBytes?_four hfour
          have hsix : Position.splitBytes? 6 ('\\' :: 'u' :: (digits ++ u)) =
              some ('\\' :: 'u' :: digits, u) := by
            refine splitBytes?_eq_some_iff.mpr ⟨rfl, ?_⟩
            rw [byteLength_cons, byteLength_cons, hlength]
            rfl
          refine (reads_sliceTo text _ hsix).silently ?_
          refine (reads_skipExact text u ('\\' :: 'u' :: digits)).silently ?_
          exact (reads_surrogatePair text u hl htrail).map some

theorem reads_unbracedCodePoint :
    Reads text unbracedCodePoint s (Pattern.unbracedCodePoint s) := by
  refine (reads_remaining text s).silently ?_
  rw [hexValue?_eq, Pattern.unbracedCodePoint]
  cases hfour : Pattern.fourHexDigits? s with
  | none => exact (reads_report text s .badUnicodeEscape).map fun _ => none
  | some q =>
      obtain ⟨lead, u⟩ := q
      obtain ⟨digits, rfl, hlength⟩ := splitBytes?_four hfour
      dsimp only [Option.map_some]
      have hcut : Position.splitBytes? 4 (digits ++ u) = some (digits, u) :=
        splitBytes?_eq_some_iff.mpr ⟨rfl, hlength⟩
      refine (reads_sliceTo text _ hcut).silently ?_
      refine (reads_skipExact text u digits).silently ?_
      cases hlead : CodePoint.isLeadSurrogate lead with
      | false => exact .pure (some lead) u
      | true =>
          refine (reads_nextIs text u ['\\', 'u']).silently ?_
          cases hnext : ['\\', 'u'].isPrefixOf u with
          | true =>
              obtain ⟨v, rfl⟩ := List.isPrefixOf_iff_prefix.mp hnext
              exact reads_trailSurrogate text v hlead
          | false =>
              have hnone : Pattern.trailEscape? u = none := by
                unfold Pattern.trailEscape?
                split
                · cases hnext
                · rfl
              rw [hnone]
              exact .pure (some lead) u

theorem reads_unicodeEscape :
    Reads text unicodeEscape ('u' :: s) (Pattern.unicodeEscape s) := by
  refine (reads_skipExact text s ['u']).silently ?_
  cases hbrace : ['{'].isPrefixOf s with
  | true =>
      obtain ⟨u, rfl⟩ := List.isPrefixOf_iff_prefix.mp hbrace
      refine (reads_tryConsume_next text u ['{']).silently ?_
      exact reads_bracedCodePoint text u
  | false =>
      refine (reads_tryConsume_other text hbrace).silently ?_
      have hplain : Pattern.unicodeEscape s = Pattern.unbracedCodePoint s := by
        unfold Pattern.unicodeEscape
        split
        · cases hbrace
        · rfl
      rw [hplain]
      exact reads_unbracedCodePoint text s

theorem reads_propertyExpression :
    Reads text propertyExpression s (Pattern.propertyExpression s) := by
  cases hbrace : ['{'].isPrefixOf s with
  | true =>
      obtain ⟨u, rfl⟩ := List.isPrefixOf_iff_prefix.mp hbrace
      refine (reads_expect_next text u '{' .propertyWithoutBrace).silently ?_
      refine (reads_skipWhile text u _).silently ?_
      exact (reads_expect text _ '}' .unclosedProperty).map fun _ => ()
  | false =>
      have hbad : Pattern.propertyExpression s = ⟨(), s, [⟨.propertyWithoutBrace, s⟩]⟩ := by
        unfold Pattern.propertyExpression
        split
        · cases hbrace
        · rfl
      rw [hbad]
      exact (reads_expect_missing text hbrace .propertyWithoutBrace).bind (.pure () s) rfl

theorem reads_controlLetter : Reads text controlLetter s (Pattern.controlLetter s) := by
  refine (reads_nextSatisfies text s Char.isAlpha).silently ?_
  cases s with
  | nil => exact reads_report text [] .badControlLetter
  | cons c s =>
      rw [Pattern.controlLetter, List.head?_cons, Option.any_some]
      cases c.isAlpha with
      | true => exact reads_skipOne text s c
      | false => exact reads_report text (c :: s) .badControlLetter

/-- Without two hexadecimal digits nothing is read of an escape by two digits. -/
theorem hexEscape_of_not_digits
    (h : ¬ ∃ c d u, s = c :: d :: u ∧ [c, d].all Numeral.isHexDigit = true) :
    Pattern.hexEscape s = ⟨(), 'x' :: s, [⟨.badHexEscape, 'x' :: s⟩]⟩ := by
  unfold Pattern.hexEscape
  split
  · next c d u =>
      split
      · next hhex => exact absurd ⟨c, d, u, rfl, by simpa using hhex⟩ h
      · rfl
  · rfl

/-- The bytes behind the letter of an escape are looked at only if there are two of them, and they
are skipped only if they are two characters. -/
theorem reads_hexEscape : Reads text hexEscape ('x' :: s) (Pattern.hexEscape s) := by
  refine (reads_remaining text ('x' :: s)).silently ?_
  have hbytes : Position.bytes ('x' :: s) = 120 :: Position.bytes s := rfl
  have hbad := reads_report text ('x' :: s) .badHexEscape
  have hiff := hexBytes_iff s
  rw [hbytes]
  by_cases hlength : 3 ≤ (120 :: Position.bytes s).length
  · rw [if_pos hlength]
    have hbetween : Reads text (bytesBetween 1 3 (120 :: Position.bytes s)) ('x' :: s)
        ⟨(Position.bytes s).take 2, 'x' :: s, []⟩ := by
      rw [bytesBetween, if_pos ⟨by decide, hlength⟩]
      exact .pure _ _
    refine hbetween.silently ?_
    cases hall : ((Position.bytes s).take 2).all isHexByte with
    | true =>
        obtain ⟨c, d, u, rfl, hhex⟩ := hiff.mp ⟨Nat.le_of_succ_le_succ hlength, hall⟩
        have hcut : Position.splitBytes? 3 ('x' :: c :: d :: u) = some (['x', c, d], u) := by
          refine splitBytes?_eq_some_iff.mpr ⟨rfl, ?_⟩
          rw [byteLength_cons, byteLength_of_hex hhex]
          rfl
        have hread : Pattern.hexEscape (c :: d :: u) = ⟨(), u, []⟩ := by
          rw [Pattern.hexEscape, if_pos (by simpa using hhex)]
        rw [hread]
        refine (reads_sliceTo text _ hcut).silently ?_
        exact reads_skipExact text u ['x', c, d]
    | false =>
        rw [hexEscape_of_not_digits s fun h => by simp [(hiff.mpr h).2] at hall]
        exact hbad
  · rw [if_neg hlength, hexEscape_of_not_digits s fun h => hlength (Nat.succ_le_succ (hiff.mpr h).1)]
    exact hbad

theorem reads_characterEscape (c : Char) :
    Reads text (characterEscape c) (c :: s) (Pattern.characterEscape c s) := by
  unfold characterEscape
  split
  · exact (reads_skipOne text s 'p').silently (reads_propertyExpression text s)
  · exact (reads_skipOne text s 'P').silently (reads_propertyExpression text s)
  · exact (reads_skipOne text s 'c').silently (reads_controlLetter text s)
  · exact reads_hexEscape text s
  · exact (reads_unicodeEscape text s).map fun _ => ()
  · next hp hP hc hx hu =>
      have hplain : Pattern.characterEscape c s = ⟨(), s, []⟩ := by
        rw [Pattern.characterEscape]
        · exact hp
        · exact hP
        · exact hc
        · exact hx
        · exact hu
      rw [hplain]
      exact reads_skipOne text s c

theorem reads_nameCharOf (accept : Char → Bool) (value : Option Nat) (u : List Char) :
    Reads text (nameCharOf accept (.ofRest text u) value) s
      (match value with
      | none => ⟨.invalid, s, []⟩
      | some n =>
          match (CodePoint.toChar? n).filter accept with
          | some c => ⟨.valid c, s, []⟩
          | none => ⟨.invalid, s, [⟨.badGroupNameEscape, u⟩]⟩) := by
  cases value with
  | none => exact .pure Pattern.NameChar.invalid s
  | some n =>
      simp only [nameCharOf]
      cases (CodePoint.toChar? n).filter accept with
      | some c => exact .pure (Pattern.NameChar.valid c) s
      | none =>
          exact (reads_reportAt text s .badGroupNameEscape u).map fun _ => Pattern.NameChar.invalid

theorem reads_nameChar (accept : Char → Bool) :
    Reads text (nameChar accept) s (Pattern.nameChar accept s) := by
  refine (reads_nextIs text s ['\\', 'u']).silently ?_
  cases hnext : ['\\', 'u'].isPrefixOf s with
  | true =>
      obtain ⟨u, rfl⟩ := List.isPrefixOf_iff_prefix.mp hnext
      refine (reads_place text _).silently ?_
      refine (reads_skipOne text ('u' :: u) '\\').silently ?_
      refine (reads_unicodeEscape text u).bind (reads_nameCharOf text _ accept _ _) ?_
      simp only [List.cons_append, List.nil_append, Pattern.nameChar]
      cases (Pattern.unicodeEscape u).value with
      | none => simp
      | some n => cases hchar : (CodePoint.toChar? n).filter accept <;> simp [hchar]
  | false =>
      refine (reads_peek text s).silently ?_
      cases s with
      | nil => exact .pure Pattern.NameChar.absent []
      | cons c s =>
          have hliteral : Pattern.nameChar accept (c :: s) =
              if accept c then ⟨.valid c, s, []⟩ else ⟨.absent, c :: s, []⟩ := by
            unfold Pattern.nameChar
            split
            · next heq =>
                rw [heq] at hnext
                cases hnext
            · next heq =>
                obtain ⟨rfl, rfl⟩ := List.cons.inj heq
                rfl
            · next heq => cases heq
          rw [hliteral, List.head?_cons]
          dsimp only
          cases accept c with
          | true => exact (reads_skipOne text s c).map fun _ => Pattern.NameChar.valid c
          | false => exact .pure Pattern.NameChar.absent (c :: s)

/-- A name goes on with the characters of a tail, if both are there. -/
def join (name tail : Option (List Char)) : Option (List Char) :=
  name.bind fun cs => tail.map fun ds => cs ++ ds

theorem join_append (name tail : Option (List Char)) (c : Char) :
    join (name.map fun cs => cs ++ [c]) tail =
      join name ((Pattern.NameChar.valid c).cons tail) := by
  cases name <;> cases tail <;> simp [join, Pattern.NameChar.cons]

@[simp]
theorem join_none (name : Option (List Char)) : join name none = none := by
  cases name <;> rfl

@[simp]
theorem join_some_nil (name : Option (List Char)) : join name (some []) = name := by
  cases name <;> simp [join]

theorem reads_nameTail {depth : Nat} (h : s.length < depth) (name : Option (List Char)) :
    Reads text (nameTail depth name) s
      ⟨join name (Pattern.nameTail s).value, (Pattern.nameTail s).rest,
        (Pattern.nameTail s).notices⟩ := by
  induction depth generalizing s name with
  | zero => exact absurd h (Nat.not_lt_zero _)
  | succ depth ih =>
      have hfirst := reads_nameChar text s Identifier.isPart
      rw [nameTail]
      by_cases habsent : (Pattern.nameChar Identifier.isPart s).value = .absent
      · rw [Pattern.nameTail_of_absent habsent, join_some_nil]
        refine hfirst.bind (by rw [habsent]; exact .pure name _) ?_
        rw [List.append_nil]
      · have hshorter := Pattern.nameChar_rest_lt habsent
        have htail := ih _ (Nat.lt_of_lt_of_le hshorter (Nat.le_of_lt_succ h))
        rw [Pattern.nameTail_of_present habsent]
        dsimp only
        cases hvalue : (Pattern.nameChar Identifier.isPart s).value with
        | absent => exact absurd hvalue habsent
        | valid c =>
            rw [← join_append]
            exact hfirst.bind (by rw [hvalue]; exact htail _) rfl
        | invalid =>
            have hnone (tail : Option (List Char)) : Pattern.NameChar.invalid.cons tail = none := rfl
            rw [hnone, join_none]
            exact hfirst.bind (by rw [hvalue]; exact htail none) rfl

theorem reads_nameToEnd {depth : Nat} (h : s.length < depth) (first : Option (List Char)) :
    Reads text (nameToEnd depth first) s
      (let tail := Pattern.nameTail s
      let closing := Lexeme.expect '>' .unclosedGroupName tail.rest
      ⟨(if closing.value then join first tail.value else none).map String.ofList, closing.rest,
        tail.notices ++ closing.notices⟩) := by
  refine (reads_nameTail text s h first).bind
    ((reads_expect text (Pattern.nameTail s).rest '>' .unclosedGroupName).choose _ _) ?_
  dsimp only
  split <;> rfl

theorem reads_groupName {depth : Nat} (h : s.length ≤ depth) :
    Reads text (groupName depth) s (Pattern.groupName s) := by
  cases hopen : ['<'].isPrefixOf s with
  | false =>
      have hbad : Pattern.groupName s = ⟨none, s, [⟨.groupNameWithoutOpening, s⟩]⟩ := by
        unfold Pattern.groupName
        split
        · cases hopen
        · rfl
      rw [hbad]
      exact (reads_expect_missing text hopen .groupNameWithoutOpening).bind (.pure none s) rfl
  | true =>
      obtain ⟨u, rfl⟩ := List.isPrefixOf_iff_prefix.mp hopen
      refine (reads_expect_next text u '<' .groupNameWithoutOpening).silently ?_
      have hfirst := reads_nameChar text u Identifier.isStart
      have hlength : (Pattern.nameChar Identifier.isStart u).rest.length < depth :=
        Nat.lt_of_le_of_lt (Pattern.nameChar_rest Identifier.isStart u).length_le h
      simp only [List.cons_append, List.nil_append, Pattern.groupName, Pattern.nameToEnd]
      cases hvalue : (Pattern.nameChar Identifier.isStart u).value with
      | absent =>
          have hreport := (reads_report text (Pattern.nameChar Identifier.isStart u).rest
            .emptyGroupName).map fun _ => (none : Option String)
          exact hfirst.bind (by rw [hvalue]; exact hreport) rfl
      | valid c =>
          have hrest := reads_nameToEnd text _ hlength (some [c])
          refine hfirst.bind (by rw [hvalue]; exact hrest) ?_
          simp [join, Pattern.NameChar.cons]
      | invalid =>
          have hrest := reads_nameToEnd text _ hlength none
          refine hfirst.bind (by rw [hvalue]; exact hrest) ?_
          simp [join, Pattern.NameChar.cons]

theorem reads_atomEscape {depth : Nat} (h : s.length ≤ depth) :
    Reads text (atomEscape depth) s (Pattern.atomEscape s) := by
  refine (reads_peek text s).silently ?_
  cases s with
  | nil => exact reads_report text [] .bareBackslash
  | cons c s =>
      rw [List.head?_cons, Pattern.atomEscape]
      dsimp only
      by_cases hdigit : '1' ≤ c ∧ c ≤ '9'
      · have hskip := reads_skipWhile text (c :: s) Char.isDigit
        have hc : c.isDigit = true := by
          rw [Char.isDigit, Bool.and_eq_true, decide_eq_true_eq, decide_eq_true_eq]
          exact ⟨Char.le_trans (by decide) hdigit.1, hdigit.2⟩
        rw [List.dropWhile_cons_of_pos hc] at hskip
        rw [if_pos hdigit, if_pos hdigit]
        exact hskip
      · rw [if_neg hdigit, if_neg hdigit]
        by_cases hk : c = 'k'
        · rw [if_pos hk, if_pos hk]
          refine (reads_skipOne text s c).silently ?_
          exact (reads_groupName text s (Nat.le_of_succ_le h)).map fun _ => ()
        · rw [if_neg hk, if_neg hk]
          exact reads_characterEscape text s c

theorem reads_classEscape : Reads text classEscape s (Pattern.classEscape s) := by
  refine (reads_peek text s).silently ?_
  cases s with
  | nil => exact reads_report text [] .bareBackslashInClass
  | cons c s =>
      rw [List.head?_cons, Pattern.classEscape]
      dsimp only
      by_cases hplain : c = 'b' ∨ c = '-'
      · rw [if_pos hplain]
        have hread : Pattern.characterEscape c s = ⟨(), s, []⟩ := by
          rcases hplain with rfl | rfl <;> rfl
        rw [hread]
        exact reads_skipOne text s c
      · rw [if_neg hplain]
        exact reads_characterEscape text s c

/-- Of a character class nothing matters before the next bracket or backslash. -/
theorem classMembers_dropWhile :
    Pattern.classMembers (s.dropWhile fun c => !(c == ']' || c == '\\')) =
      Pattern.classMembers s := by
  induction s with
  | nil => rfl
  | cons c s ih =>
      by_cases hc : c = ']' ∨ c = '\\'
      · rw [List.dropWhile_cons_of_neg (by rcases hc with rfl | rfl <;> decide)]
      · rw [not_or] at hc
        have hskip : Pattern.classMembers (c :: s) = Pattern.classMembers s := by
          rw [Pattern.classMembers, if_neg hc.1, if_neg hc.2]
        rw [List.dropWhile_cons_of_pos (by simp [hc]), ih, hskip]

/-- A turn in a character class comes to the end of the class, or it is one over an escape. -/
theorem reads_classTurn (depth : Nat) (x : Unit) :
    (∃ u ns, Pattern.classMembers s = ⟨(), u, ns⟩ ∧
      Reads text (classTurn depth x) s ⟨.done (), u, ns⟩) ∨
    ∃ u, '\\' :: u <:+ s ∧
      (let escape := Pattern.classEscape u
      let members := Pattern.classMembers escape.rest
      Pattern.classMembers s = ⟨(), members.rest, escape.notices ++ members.notices⟩ ∧
        Reads text (classTurn depth x) s ⟨.again (), escape.rest, escape.notices⟩) := by
  have hskip := reads_skipToEither text s (a := ']') (b := '\\') (by decide) (by decide)
  have hsuffix := List.dropWhile_suffix (l := s) fun c => !(c == ']' || c == '\\')
  have hhead := List.head?_dropWhile_not (fun c => !(c == ']' || c == '\\')) s
  rw [← classMembers_dropWhile]
  cases hrest : s.dropWhile (fun c => !(c == ']' || c == '\\')) with
  | nil =>
      rw [hrest] at hskip
      refine Or.inl ⟨[], [⟨.unclosedClass, []⟩], by rw [Pattern.classMembers], ?_⟩
      refine hskip.silently ?_
      refine (reads_peek text []).silently ?_
      exact (reads_report text [] .unclosedClass).map fun _ => Turn.done ()
  | cons c u =>
      rw [hrest] at hskip hsuffix hhead
      have hc : c = ']' ∨ c = '\\' := Decidable.or_iff_not_imp_left.mpr (by simpa using hhead)
      rcases hc with rfl | rfl
      · refine Or.inl ⟨u, [], by rw [Pattern.classMembers, if_pos rfl], ?_⟩
        refine hskip.silently ?_
        refine (reads_peek text (']' :: u)).silently ?_
        exact (reads_skipOne text u ']').map fun _ => Turn.done ()
      · refine Or.inr ⟨u, hsuffix, ?_, ?_⟩
        · rw [Pattern.classMembers, if_neg (by decide), if_pos rfl]
        · refine hskip.silently ?_
          refine (reads_peek text ('\\' :: u)).silently ?_
          refine (reads_skipExact text u ['\\']).silently ?_
          exact (reads_classEscape text u).map fun _ => Turn.again ()

theorem reads_classMembers {depth : Nat} (h : s.length < depth) :
    Reads text (classMembers depth) s (Pattern.classMembers s) := by
  induction depth generalizing s with
  | zero => exact absurd h (Nat.not_lt_zero _)
  | succ depth ih =>
      rw [classMembers_eq_loop, loop]
      rcases reads_classTurn text s depth () with ⟨u, ns, hread, hturn⟩ | ⟨u, hsuffix, hread, hturn⟩
      · rw [hread]
        exact hturn.bind (.pure () u) (by rw [List.append_nil])
      · have hshorter := Nat.lt_of_le_of_lt (Pattern.classEscape_rest u).length_le hsuffix.length_le
        have hmembers := ih (Pattern.classEscape u).rest
          (Nat.lt_of_lt_of_le hshorter (Nat.le_of_lt_succ h))
        rw [classMembers_eq_loop] at hmembers
        rw [hread]
        exact hturn.bind hmembers rfl

theorem reads_characterClass {depth : Nat} (h : s.length < depth) :
    Reads text (characterClass depth) ('[' :: s) (Pattern.characterClass s) := by
  refine (reads_skipExact text s ['[']).silently ?_
  refine (reads_tryConsume_char text s '^').silently ?_
  exact reads_classMembers text _ (Nat.lt_of_le_of_lt (Lexeme.skipOptional_suffix '^' s).length_le h)

theorem reads_count? :
    Reads text count? s
      ⟨if (s.takeWhile Char.isDigit).isEmpty then none
        else some (Pattern.Quantifier.count (s.takeWhile Char.isDigit)),
        s.dropWhile Char.isDigit, []⟩ := by
  refine .within (fun hs => ?_) (List.dropWhile_suffix _)
  refine (reads_place text s).silently ?_
  refine (reads_skipWhile text s _).silently ?_
  refine (reads_run text s _ hs).silently ?_
  rw [saturated_eq (by decide)]
  cases (s.takeWhile Char.isDigit).isEmpty with
  | true => exact .pure none _
  | false => exact .pure (some (Pattern.Quantifier.count (s.takeWhile Char.isDigit))) _

theorem reads_greatestCount (least : Nat) :
    Reads text (greatestCount least) s (Pattern.greatestCount least s) := by
  cases hcomma : [','].isPrefixOf s with
  | true =>
      obtain ⟨u, rfl⟩ := List.isPrefixOf_iff_prefix.mp hcomma
      refine (reads_tryConsume_next text u [',']).silently ?_
      have hcount := (reads_count? text u).map (·.getD Pattern.Quantifier.maxCount)
      simp only [List.cons_append, List.nil_append, Pattern.greatestCount]
      cases hempty : (u.takeWhile Char.isDigit).isEmpty with
      | true => simpa [hempty] using hcount
      | false => simpa [hempty] using hcount
  | false =>
      have hplain : Pattern.greatestCount least s = ⟨least, s, []⟩ := by
        unfold Pattern.greatestCount
        split
        · cases hcomma
        · rfl
      rw [hplain]
      refine (reads_tryConsume_other text hcomma).silently ?_
      exact .pure least s

theorem greatestCount_notices (least : Nat) : (Pattern.greatestCount least s).notices = [] := by
  unfold Pattern.greatestCount
  split <;> rfl

/-- What closes a counted quantifier, and what is wrong with one that is closed. -/
theorem reads_closing (least greatest : Nat) (u : List Char) :
    Reads text
      (do
        if ← expect ['}'] .unclosedQuantifier then
          if greatest < least then
            reportAt (.ofRest text u) .quantifierOutOfOrder
            return some (⟨least, greatest⟩ : Pattern.Quantifier)
          else return some ⟨least, greatest⟩
        else return none) s
      (let closing := Lexeme.expect '}' .unclosedQuantifier s
      if closing.value then
        ⟨some ⟨least, greatest⟩, closing.rest,
          if greatest < least then [⟨.quantifierOutOfOrder, u⟩] else []⟩
      else ⟨none, closing.rest, closing.notices⟩) := by
  have hclose := reads_expect text s '}' .unclosedQuantifier
  cases hvalue : (Lexeme.expect '}' .unclosedQuantifier s).value with
  | false =>
      refine hclose.bind (by rw [hvalue]; exact .pure none _) ?_
      simp [hvalue]
  | true =>
      have hnone := Pattern.expect_notices hvalue
      by_cases hlt : greatest < least
      · have hreport := (reads_reportAt text (Lexeme.expect '}' .unclosedQuantifier s).rest
          .quantifierOutOfOrder u).map fun _ => some (⟨least, greatest⟩ : Pattern.Quantifier)
        refine hclose.bind (by rw [hvalue, if_pos rfl, if_pos hlt]; exact hreport) ?_
        simp [hvalue, hnone, hlt]
      · refine hclose.bind (by rw [hvalue, if_pos rfl, if_neg hlt]; exact .pure (some _) _) ?_
        simp [hvalue, hnone, hlt]

theorem reads_countedQuantifier :
    Reads text countedQuantifier ('{' :: s) (Pattern.countedQuantifier s) := by
  refine (reads_place text ('{' :: s)).silently ?_
  refine (reads_skipOne text s '{').silently ?_
  refine (reads_count? text s).silently ?_
  cases hempty : (s.takeWhile Char.isDigit).isEmpty with
  | true =>
      have hstay : s.dropWhile Char.isDigit = s := by
        have hsplit := List.takeWhile_append_dropWhile (p := Char.isDigit) (l := s)
        rwa [List.isEmpty_iff.mp hempty, List.nil_append] at hsplit
      have hskip : Reads text
          (do
            skipWhile fun c => c == ',' || c.isDigit
            let _ ← tryConsume ['}']
            return (none : Option Pattern.Quantifier)) s
          ⟨none, Lexeme.skipOptional '}' (s.dropWhile fun c => c == ',' || c.isDigit), []⟩ := by
        refine (reads_skipWhile text s _).silently ?_
        exact (reads_tryConsume_char text _ '}').map fun _ => none
      simp only [Pattern.countedQuantifier, hempty, if_true, hstay]
      exact (reads_report text s .quantifierWithoutDigits).bind hskip rfl
  | false =>
      simp only [Pattern.countedQuantifier, hempty, Bool.false_eq_true, if_false]
      refine (reads_greatestCount text (s.dropWhile Char.isDigit) _).bind
        (reads_closing text _ _ _ ('{' :: s)) ?_
      rw [greatestCount_notices]
      rfl

theorem reads_bareQuantifier : Reads text bareQuantifier s (Pattern.bareQuantifier s) := by
  refine (reads_peek text s).silently ?_
  split
  · next h =>
      obtain ⟨u, rfl⟩ := List.head?_eq_some_iff.mp h
      exact (reads_skipOne text u '+').map fun _ =>
        some (Pattern.Quantifier.mk 1 Pattern.Quantifier.maxCount)
  · next h =>
      obtain ⟨u, rfl⟩ := List.head?_eq_some_iff.mp h
      exact (reads_skipOne text u '*').map fun _ =>
        some (Pattern.Quantifier.mk 0 Pattern.Quantifier.maxCount)
  · next h =>
      obtain ⟨u, rfl⟩ := List.head?_eq_some_iff.mp h
      exact (reads_skipOne text u '?').map fun _ => some (Pattern.Quantifier.mk 0 1)
  · next h =>
      obtain ⟨u, rfl⟩ := List.head?_eq_some_iff.mp h
      exact reads_countedQuantifier text u
  · next hplus hstar hmark hbrace =>
      have hnone : Pattern.bareQuantifier s = ⟨none, s, []⟩ := by
        unfold Pattern.bareQuantifier
        split
        · exact absurd rfl hplus
        · exact absurd rfl hstar
        · exact absurd rfl hmark
        · exact absurd rfl hbrace
        · rfl
      rw [hnone]
      exact .pure none s

theorem reads_quantifier : Reads text quantifier s (Pattern.quantifier s) := by
  have hbare := reads_bareQuantifier text s
  unfold Pattern.quantifier
  cases hvalue : (Pattern.bareQuantifier s).value with
  | none =>
      refine hbare.bind (by rw [hvalue]; exact .pure none _) ?_
      simp only [hvalue, Option.isSome_none, Bool.false_eq_true, if_false, List.append_nil]
      rw [← hvalue]
  | some q =>
      have hskip := (reads_tryConsume_char text (Pattern.bareQuantifier s).rest '?').map
        fun _ => some q
      refine hbare.bind (by rw [hvalue]; exact hskip) ?_
      simp [hvalue]

end Tokens

end NamedCaptures.InPlace
