import NamedCaptures.Proofs.Brackets.Tokens
import NamedCaptures.Proofs.InPlace.KeptLevels

/-!
# Where character classes end

A character class ends at the first closing bracket that a plain scan finds, which lets a backslash
take the next character along and knows of no other escape. The reader of classes hands over to the
readers of escapes, which take more than that along, or give up half way. None of them takes the
bracket along, and none leaves a backslash behind that the scan has passed. The main statement is
`characterClass_passes`.

## Implementation notes

Escapes never change where the scan ends (`Alike.classEnd_eq`), so nothing is said of single escapes
here. A backslash with nothing behind it is no escape, and the scan tells it apart.
-/

namespace NamedCaptures

namespace Brackets

open Pattern

/-- Where the class ends whose members begin with a text. -/
inductive ClassEnd where
  /-- Behind a closing bracket, where the given text is left. -/
  | closed (rest : List Char)
  /-- Not before the end of the text, which may be a backslash that takes nothing along. -/
  | unclosed (backslash : Bool)
  deriving DecidableEq, Repr

/-- Scans for the closing bracket of a class, and passes over every backslash and the character
behind it. -/
def classEnd : List Char → ClassEnd
  | [] => .unclosed false
  | ['\\'] => .unclosed true
  | '\\' :: _ :: s => classEnd s
  | ']' :: s => .closed s
  | _ :: s => classEnd s

theorem classEnd_close (s : List Char) : classEnd (']' :: s) = .closed s := rfl

theorem classEnd_plain {c : Char} (hclose : c ≠ ']') (hescape : c ≠ '\\') (s : List Char) :
    classEnd (c :: s) = classEnd s := by
  rw [classEnd]
  · rintro rfl
    exact fun _ => hescape rfl
  · rintro d t rfl
    exact fun _ => hescape rfl
  · exact hclose

/-- The scan heeds only characters that matter. -/
theorem Alike.classEnd_eq {s t : List Char} (h : Alike s t) : classEnd s = classEnd t := by
  induction h with
  | refl s => rfl
  | symm _ ih => exact ih.symm
  | trans _ _ ih ih' => exact ih.trans ih'
  | cons h s =>
      apply classEnd_plain
      · rintro rfl
        exact h (by decide)
      · rintro rfl
        exact h (by decide)
  | escape c s => rfl

/-- What is noted at the end of the text if it comes before the end of a class. -/
def missing (backslash : Bool) : List Problem.Kind :=
  if backslash then [.bareBackslashInClass, .unclosedClass] else [.unclosedClass]

/-- The members of a class, of which `rest` is left and `ns` is noted, end where the scan says. -/
structure EndsAsScanned (s rest : List Char) (ns : List Notice) : Prop where
  closed : ∀ t, classEnd s = .closed t → rest = t ∧ OfEscapes ns
  unclosed : ∀ backslash, classEnd s = .unclosed backslash → rest = [] ∧
    ∃ es, OfEscapes es ∧ ns = es ++ (missing backslash).map (⟨·, []⟩)

namespace EndsAsScanned

variable {s t rest : List Char} {es ns : List Notice}

theorem of_closed (h : classEnd s = .closed rest) : EndsAsScanned s rest [] where
  closed t ht := by
    rw [h] at ht
    cases ht
    exact ⟨rfl, .nil⟩
  unclosed backslash ht := by
    rw [h] at ht
    cases ht

theorem of_unclosed {backslash : Bool} (h : classEnd s = .unclosed backslash) :
    EndsAsScanned s [] ((missing backslash).map (⟨·, []⟩)) where
  closed t ht := by
    rw [h] at ht
    cases ht
  unclosed backslash' ht := by
    rw [h] at ht
    cases ht
    exact ⟨rfl, [], .nil, rfl⟩

/-- What the scan passes over before the members changes nothing but the notices. -/
theorem behind (h : EndsAsScanned t rest ns) (hs : classEnd s = classEnd t)
    (hes : OfEscapes es) : EndsAsScanned s rest (es ++ ns) where
  closed u hu := by
    obtain ⟨hrest, hns⟩ := h.closed u (hs ▸ hu)
    exact ⟨hrest, hes.append hns⟩
  unclosed backslash hu := by
    obtain ⟨hrest, ms, hms, rfl⟩ := h.unclosed backslash (hs ▸ hu)
    exact ⟨hrest, es ++ ms, hes.append hms, (List.append_assoc _ _ _).symm⟩

end EndsAsScanned

theorem endsAsScanned_classMembers (s : List Char) :
    EndsAsScanned s (classMembers s).rest (classMembers s).notices := by
  have hnone : classMembers [] = ⟨(), [], [⟨.unclosedClass, []⟩]⟩ := by rw [classMembers]
  have hend : classEnd [] = .unclosed false := rfl
  have hbackslash : classEnd ['\\'] = .unclosed true := rfl
  fun_induction classMembers s with
  | case1 => exact .of_unclosed hend
  | case2 s => exact .of_closed (classEnd_close s)
  | case3 s escape members _ ih =>
      cases s with
      | nil =>
          have hmembers : members = ⟨(), [], [⟨.unclosedClass, []⟩]⟩ := hnone
          rw [hmembers]
          exact .of_unclosed hbackslash
      | cons c s =>
          exact ih.behind (alike_classEscape c s).classEnd_eq (ofEscapes_characterEscape c s)
  | case4 c s hclose hescape ih => exact ih.behind (classEnd_plain hclose hescape s) .nil

theorem endsAsScanned_characterClass (s : List Char) :
    EndsAsScanned s (characterClass s).rest (characterClass s).notices := by
  rw [Grammar.characterClass_eq_classMembers]
  exact endsAsScanned_classMembers s

end Brackets

namespace InPlace

open Brackets

variable {w : List Char}

/-- The second state is behind a class with the members `w`, and the first one before it. Only the
place has changed, and problems were added. -/
structure PassesClass (w : List Char) (m m' : State) : Prop where
  text : m'.place.text = m.place.text
  nesting : m'.nesting = m.nesting
  groupOpen : m'.groupOpen = m.groupOpen
  closed : ∀ t, classEnd w = .closed t → m'.place.remaining = t ∧
    ∃ added, m'.problems = m.problems ++ added ∧ ∀ p ∈ added, p.kind ≠ .unclosedClass
  /-- A class that does not end is noted last, and a backslash at the end of the text before it. -/
  unclosed : ∀ backslash, classEnd w = .unclosed backslash → m'.place.remaining = [] ∧
    ∃ added, m'.problems = m.problems ++ added ++
        (missing backslash).map (⟨·, String.ofList m.place.text, ""⟩) ∧
      ∀ p ∈ added, p.kind ≠ .unclosedClass ∧ p.kind ≠ .bareBackslashInClass

theorem locate_nil (text : List Char) (kind : Problem.Kind) :
    Notice.locate text ⟨kind, []⟩ = ⟨kind, String.ofList text, ""⟩ := by
  simp [Notice.locate, Position.ofRest, Problem.at]

theorem kind_ne_of_ofEscapes {ns : List Notice} (h : OfEscapes ns) (text : List Char)
    {kind : Problem.Kind} (hkind : kind ∉ escapeKinds) :
    ∀ p ∈ ns.map (·.locate text), p.kind ≠ kind := by
  intro p hp heq
  obtain ⟨n, hn, rfl⟩ := List.mem_map.mp hp
  exact hkind (heq ▸ h n hn)

theorem passesClass_behind (m : State) (h : m.place.remaining = '[' :: w) :
    PassesClass w m (m.behind (Pattern.characterClass w)) where
  text := by
    apply Position.text_ofRest
    have hrest := (Pattern.characterClass_rest w).trans (List.suffix_cons '[' w)
    rw [← h] at hrest
    exact hrest.trans (List.suffix_append _ _)
  nesting := rfl
  groupOpen := rfl
  closed t ht := by
    obtain ⟨hrest, hns⟩ := (endsAsScanned_characterClass w).closed t ht
    exact ⟨hrest, _, rfl, kind_ne_of_ofEscapes hns _ (by decide)⟩
  unclosed backslash ht := by
    obtain ⟨hrest, es, hes, hns⟩ := (endsAsScanned_characterClass w).unclosed backslash ht
    refine ⟨hrest, es.map (·.locate m.place.text), ?_, fun p hp =>
      ⟨kind_ne_of_ofEscapes hes _ (by decide) p hp, kind_ne_of_ofEscapes hes _ (by decide) p hp⟩⟩
    rw [State.behind, hns, List.map_append, List.map_map, List.append_assoc]
    simp [Function.comp_def, locate_nil]

/-- From any state before a character class, the run comes to its end behind the bracket at which a
plain scan ends the class, or at the end of the text. Calls may nest as deep as what is left of the
text is long, or deeper. -/
theorem characterClass_passes (m : State) (h : m.place.remaining = '[' :: w) (more : Nat) :
    ∃ m', Returns (characterClass (w.length + 1 + more)) m () m' ∧ PassesClass w m m' := by
  have hread : Reads m.place.text (characterClass (w.length + 1 + more)) m.place.remaining
      (Pattern.characterClass w) := by
    rw [h]
    exact reads_characterClass m.place.text w (by omega)
  exact ⟨_, hread.returns, passesClass_behind m h⟩

/-- The first two escapes are no pair, the third one takes the bracket along, and the last backslash
takes nothing along. -/
theorem characterClass_passes_broken_escapes :
    let w := "^\\ud83d\\u\\]\\".toList
    let m : State := { place := ⟨['a'], '[' :: w⟩, groupOpen := true }
    m.place.remaining = '[' :: w ∧
      ∃ m', Returns (characterClass (w.length + 1 + 5)) m () m' ∧ m'.nesting = .start ∧
        m'.groupOpen = true ∧ m'.place.remaining = [] ∧
        ∃ added, m'.problems = [] ++ added ++
          [⟨.bareBackslashInClass, "a[^\\ud83d\\u\\]\\", ""⟩,
            ⟨.unclosedClass, "a[^\\ud83d\\u\\]\\", ""⟩] ∧
          ∀ p ∈ added, p.kind ≠ .unclosedClass ∧ p.kind ≠ .bareBackslashInClass := by
  intro w m
  have h : m.place.remaining = '[' :: w := rfl
  obtain ⟨m', hreturns, hpasses⟩ := characterClass_passes m h 5
  obtain ⟨hrest, hadded⟩ := hpasses.unclosed true (by decide)
  exact ⟨h, m', hreturns, hpasses.nesting, hpasses.groupOpen, hrest, hadded⟩

end InPlace

end NamedCaptures
