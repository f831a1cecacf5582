import NamedCaptures.Proofs.Flags.Letters
import Mathlib.Data.List.Induction
import Mathlib.Data.List.Nodup
import Mathlib.Data.Nat.Find

/-!
# Texts of flags

A text lists flags if each character of it is the letter of a flag and no letter stands twice. It is
read as the set of its letters, unless it lists both Unicode modes. In any other text the first
position with a character that cannot be taken decides the error, whatever follows it. So the order
of the letters does not matter, and a set shows them in a fixed one. The main statement is
`parse_decided`.
-/

namespace NamedCaptures

namespace Flag

/-- The letters of the flags, in the order in which they are shown. -/
def letters : List Char :=
  ['d', 'g', 'i', 'm', 's', 'u', 'v', 'y']

theorem map_letter_all : all.map letter = letters := rfl

theorem ofLetter?_eq_none_iff {c : Char} : ofLetter? c = none ↔ c ∉ letters := by
  rw [ofLetter?, List.find?_eq_none, ← map_letter_all, List.mem_map]
  simp

theorem exists_of_mem_letters {c : Char} (h : c ∈ letters) : ∃ f, ofLetter? c = some f :=
  Option.ne_none_iff_exists'.mp fun hnone => ofLetter?_eq_none_iff.mp hnone h

end Flag

namespace Flags

variable {cs ds : List Char} {c : Char} {i : Nat} {e : FlagError}

/-- The set of the flags whose letters are among the characters. -/
def ofLetters (cs : List Char) : Flags where
  hasIndices := cs.contains 'd'
  global := cs.contains 'g'
  ignoreCase := cs.contains 'i'
  multiline := cs.contains 'm'
  dotAll := cs.contains 's'
  unicode := cs.contains 'u'
  unicodeSets := cs.contains 'v'
  sticky := cs.contains 'y'

/-- Each character is the letter of a flag, and none stands twice. -/
structure ListsFlags (cs : List Char) : Prop where
  known : ∀ c ∈ cs, c ∈ Flag.letters
  nodup : cs.Nodup

/-- Both Unicode modes are listed, which exclude each other. -/
def HasBothModes (cs : List Char) : Prop :=
  'u' ∈ cs ∧ 'v' ∈ cs

/-- The character at a position cannot be taken: no flag has this letter, or it stands at an earlier
position, too. -/
inductive RefusedAt (cs : List Char) (i : Nat) : FlagError → Prop
  | unknown {c : Char} (h : cs[i]? = some c) (hc : c ∉ Flag.letters) : RefusedAt cs i (.unknown c)
  | duplicate {c : Char} (h : cs[i]? = some c) (hc : c ∈ cs.take i) : RefusedAt cs i (.duplicate c)

/-- For which error a text is refused. -/
inductive Refused (cs : List Char) : FlagError → Prop
  /-- The first position with a character that cannot be taken decides. -/
  | atFirst {i : Nat} {e : FlagError} (h : RefusedAt cs i e)
      (hfirst : ∀ j < i, ∀ e', ¬ RefusedAt cs j e') : Refused cs e
  /-- Only if all can be taken, it matters which flags exclude each other. -/
  | modes (h : ∀ i e, ¬ RefusedAt cs i e) (hmodes : HasBothModes cs) :
      Refused cs (.incompatible 'u' 'v')

theorem has_ofLetters (cs : List Char) (f : Flag) :
    (ofLetters cs).has f = cs.contains f.letter := by
  cases f <;> rfl

theorem ofLetters_eq_of_perm (h : cs.Perm ds) : ofLetters cs = ofLetters ds := by
  apply ext_has
  intro f
  rw [has_ofLetters, has_ofLetters, Bool.eq_iff_iff, List.contains_iff_mem, List.contains_iff_mem,
    h.mem_iff]

/-- One more flag is one more letter. -/
theorem insert_ofLetters {f : Flag} (h : Flag.ofLetter? c = some f) (cs : List Char) :
    (ofLetters cs).insert f = ofLetters (cs ++ [c]) := by
  obtain rfl := Flag.letter_of_ofLetter? h
  apply ext_has
  intro g
  have hletter : g = f ↔ g.letter = f.letter := ⟨congrArg Flag.letter, Flag.letter_inj⟩
  rw [has_insert, has_ofLetters, has_ofLetters, Bool.eq_iff_iff]
  simp [hletter, or_comm]

/-- The set shows the letters of a text in the order of all letters. -/
theorem toList_text_ofLetters (cs : List Char) :
    (ofLetters cs).text.toList = Flag.letters.filter cs.contains := by
  have hhas : (ofLetters cs).has = cs.contains ∘ Flag.letter := funext (has_ofLetters cs)
  rw [toList_text, toList, hhas, ← List.filter_map, Flag.map_letter_all]

theorem text_sublist_letters (fs : Flags) : fs.text.toList.Sublist Flag.letters := by
  rw [toList_text, ← Flag.map_letter_all]
  exact List.filter_sublist.map Flag.letter

theorem ListsFlags.text_perm (h : ListsFlags cs) : (ofLetters cs).text.toList.Perm cs := by
  have hshown : (ofLetters cs).text.toList.Nodup :=
    (text_sublist_letters _).nodup (by decide)
  rw [List.perm_ext_iff_of_nodup hshown h.nodup]
  intro c
  rw [toList_text_ofLetters, List.mem_filter, List.contains_iff_mem]
  exact and_iff_right_of_imp (h.known c)

theorem ListsFlags.perm (h : ListsFlags cs) (hperm : cs.Perm ds) : ListsFlags ds where
  known c hc := h.known c (hperm.mem_iff.mpr hc)
  nodup := hperm.nodup_iff.mp h.nodup

/-- A text lists flags exactly if the characters at all of its positions can be taken. -/
theorem listsFlags_iff : ListsFlags cs ↔ ∀ i e, ¬ RefusedAt cs i e := by
  constructor
  · rintro ⟨hknown, hnodup⟩ i e h
    cases h with
    | unknown hi hc => exact hc (hknown _ (List.mem_of_getElem? hi))
    | duplicate hi hc =>
        obtain ⟨j, hj⟩ := List.mem_iff_getElem?.mp hc
        rw [List.getElem?_take] at hj
        split at hj
        · next hlt =>
            obtain ⟨hlength, -⟩ := List.getElem?_eq_some_iff.mp hi
            exact List.nodup_iff_getElem?_ne_getElem?.mp hnodup j i hlt hlength (hj.trans hi.symm)
        · cases hj
  · intro h
    constructor
    · intro c hc
      obtain ⟨i, hi⟩ := List.mem_iff_getElem?.mp hc
      by_contra hunknown
      exact h i _ (.unknown hi hunknown)
    · rw [List.nodup_iff_getElem?_ne_getElem?]
      intro i j hlt hlength heq
      have hj : cs[j]? = some cs[j] := List.getElem?_eq_getElem hlength
      have hi : (cs.take j)[i]? = some cs[j] := by
        rw [List.getElem?_take, if_pos hlt, heq, hj]
      exact h j _ (.duplicate hj (List.mem_of_getElem? hi))

/-- What cannot be taken in the front of a text cannot be taken in the text. -/
theorem RefusedAt.of_take {j : Nat} (h : RefusedAt (cs.take i) j e) : j < i ∧ RefusedAt cs j e := by
  have hplace {c : Char} (hj : (cs.take i)[j]? = some c) : j < i ∧ cs[j]? = some c := by
    rw [List.getElem?_take] at hj
    split at hj
    · next hlt => exact ⟨hlt, hj⟩
    · cases hj
  cases h with
  | unknown hj hc => exact ⟨(hplace hj).1, .unknown (hplace hj).2 hc⟩
  | duplicate hj hc =>
      rw [List.take_take] at hc
      have hearlier := List.take_subset_take_left cs (Nat.min_le_left j i) hc
      exact ⟨(hplace hj).1, .duplicate (hplace hj).2 hearlier⟩

/-- Up to the first position with a character that cannot be taken, a text lists flags. -/
theorem listsFlags_take (h : ∀ j < i, ∀ e, ¬ RefusedAt cs j e) : ListsFlags (cs.take i) := by
  rw [listsFlags_iff]
  intro j e hj
  exact h j hj.of_take.1 e hj.of_take.2

theorem insertLetters_append (fs : Flags) (cs ds : List Char) :
    fs.insertLetters (cs ++ ds) = (fs.insertLetters cs).bind fun gs => gs.insertLetters ds := by
  induction cs generalizing fs with
  | nil => rfl
  | cons c cs ih =>
      rw [List.cons_append, insertLetters, insertLetters]
      split
      · rfl
      · split
        · rfl
        · exact ih _

/-- A letter that is new is taken. -/
theorem insertLetters_new (hc : c ∈ Flag.letters) (hnew : c ∉ cs) :
    (ofLetters cs).insertLetters [c] = .ok (ofLetters (cs ++ [c])) := by
  obtain ⟨f, hf⟩ := Flag.exists_of_mem_letters hc
  have hhas : (ofLetters cs).has f = false := by
    rw [has_ofLetters, Flag.letter_of_ofLetter? hf]
    simpa using hnew
  simp only [insertLetters, hf, hhas, Bool.false_eq_true, if_false, insert_ofLetters hf]

/-- The set that is read so far remembers which letters have been. -/
theorem insertLetters_of_listsFlags (h : ListsFlags cs) :
    empty.insertLetters cs = .ok (ofLetters cs) := by
  induction cs using List.reverseRecOn with
  | nil => rfl
  | append_singleton cs c ih =>
      obtain ⟨hknown, hnodup⟩ := h
      rw [List.nodup_append_comm, List.singleton_append, List.nodup_cons] at hnodup
      have hfront := ih ⟨fun d hd => hknown d (List.mem_append_left _ hd), hnodup.2⟩
      calc empty.insertLetters (cs ++ [c])
        _ = (empty.insertLetters cs).bind fun fs => fs.insertLetters [c] :=
          insertLetters_append _ _ _
        _ = (ofLetters cs).insertLetters [c] := by rw [hfront, Except.bind]
        _ = .ok (ofLetters (cs ++ [c])) := insertLetters_new (hknown c (by simp)) hnodup.1

/-- Behind letters that can be taken, reading goes on with the set of them. -/
theorem insertLetters_from (h : ListsFlags (cs.take i)) (hi : cs[i]? = some c) :
    empty.insertLetters cs = (ofLetters (cs.take i)).insertLetters (c :: cs.drop (i + 1)) := by
  obtain ⟨hlength, rfl⟩ := List.getElem?_eq_some_iff.mp hi
  calc empty.insertLetters cs
    _ = empty.insertLetters (cs.take i ++ cs.drop i) := by rw [List.take_append_drop]
    _ = (empty.insertLetters (cs.take i)).bind fun fs => fs.insertLetters (cs.drop i) :=
      insertLetters_append _ _ _
    _ = (ofLetters (cs.take i)).insertLetters (cs.drop i) := by
      rw [insertLetters_of_listsFlags h, Except.bind]
    _ = (ofLetters (cs.take i)).insertLetters (cs[i] :: cs.drop (i + 1)) := by
      rw [List.drop_eq_getElem_cons hlength]

/-- Reading stops at the first position with a character that cannot be taken. -/
theorem insertLetters_of_refusedAt (h : RefusedAt cs i e)
    (hfirst : ∀ j < i, ∀ e', ¬ RefusedAt cs j e') : empty.insertLetters cs = .error e := by
  have hlists := listsFlags_take hfirst
  cases h with
  | unknown hi hc =>
      rw [insertLetters_from hlists hi, insertLetters, Flag.ofLetter?_eq_none_iff.mpr hc]
  | duplicate hi hc =>
      obtain ⟨f, hf⟩ := Flag.exists_of_mem_letters (hlists.known _ hc)
      have hhas : (ofLetters (cs.take i)).has f = true := by
        rw [has_ofLetters, Flag.letter_of_ofLetter? hf]
        exact List.contains_iff_mem.mpr hc
      rw [insertLetters_from hlists hi, insertLetters]
      simp only [hf, hhas, if_true]

theorem hasBothModes_iff :
    HasBothModes cs ↔ ((ofLetters cs).unicode && (ofLetters cs).unicodeSets) = true := by
  simp [HasBothModes, ofLetters]

theorem parse_of_refused {s : String} (h : Refused s.toList e) : parse s = .error e := by
  rw [parse]
  cases h with
  | atFirst h hfirst => rw [insertLetters_of_refusedAt h hfirst]
  | modes h hmodes =>
      rw [insertLetters_of_listsFlags (listsFlags_iff.mpr h)]
      exact if_pos (hasBothModes_iff.mp hmodes)

theorem parse_of_listsFlags {s : String} (h : ListsFlags s.toList)
    (hmodes : ¬ HasBothModes s.toList) : parse s = .ok (ofLetters s.toList) := by
  rw [parse, insertLetters_of_listsFlags h]
  exact if_neg fun hboth => hmodes (hasBothModes_iff.mpr hboth)

/-- A text is refused, or it lists flags that can go together. -/
theorem refused_or_listsFlags (cs : List Char) :
    (∃ e, Refused cs e) ∨ ListsFlags cs ∧ ¬ HasBothModes cs := by
  by_cases hany : ∃ i e, RefusedAt cs i e
  · classical
    obtain ⟨e, he⟩ := Nat.find_spec hany
    exact .inl ⟨e, .atFirst he fun j hj e' he' => Nat.find_min hany hj ⟨e', he'⟩⟩
  · have hnone : ∀ i e, ¬ RefusedAt cs i e := fun i e h => hany ⟨i, e, h⟩
    by_cases hmodes : HasBothModes cs
    · exact .inl ⟨_, .modes hnone hmodes⟩
    · exact .inr ⟨listsFlags_iff.mpr hnone, hmodes⟩

/-- A text of flags is read, or refused for one reason. -/
structure Decided (s : String) : Prop where
  accepted_iff : (∃ fs, parse s = .ok fs) ↔
    (∀ c ∈ s.toList, c ∈ Flag.letters) ∧ s.toList.Nodup ∧ ¬ ('u' ∈ s.toList ∧ 'v' ∈ s.toList)
  /-- What is read are the letters, which are shown in the order of all letters and read again. -/
  accepted : ∀ fs, parse s = .ok fs → fs = ofLetters s.toList ∧ fs.text.toList.Perm s.toList ∧
    fs.text.toList.Sublist Flag.letters ∧ parse fs.text = .ok fs
  refused_iff : ∀ e, parse s = .error e ↔ Refused s.toList e

theorem eq_of_parse {s : String} {fs : Flags} (h : parse s = .ok fs) :
    ListsFlags s.toList ∧ ¬ HasBothModes s.toList ∧ fs = ofLetters s.toList := by
  rcases refused_or_listsFlags s.toList with ⟨e, he⟩ | ⟨hlists, hmodes⟩
  · rw [parse_of_refused he] at h
    cases h
  · rw [parse_of_listsFlags hlists hmodes] at h
    exact ⟨hlists, hmodes, (Except.ok.inj h).symm⟩

/-- What is shown of a set that has been read is read as this set. -/
theorem parse_text_ofLetters (h : ListsFlags cs) (hmodes : ¬ HasBothModes cs) :
    parse (ofLetters cs).text = .ok (ofLetters cs) := by
  have hperm := h.text_perm
  have hmodes' : ¬ HasBothModes (ofLetters cs).text.toList := by
    rintro ⟨hu, hv⟩
    exact hmodes ⟨hperm.mem_iff.mp hu, hperm.mem_iff.mp hv⟩
  calc parse (ofLetters cs).text
    _ = .ok (ofLetters (ofLetters cs).text.toList) :=
      parse_of_listsFlags (h.perm hperm.symm) hmodes'
    _ = .ok (ofLetters cs) := by rw [ofLetters_eq_of_perm hperm]

theorem decided (s : String) : Decided s where
  accepted_iff := by
    constructor
    · rintro ⟨fs, h⟩
      obtain ⟨hlists, hmodes, -⟩ := eq_of_parse h
      exact ⟨hlists.known, hlists.nodup, hmodes⟩
    · rintro ⟨hknown, hnodup, hmodes⟩
      exact ⟨_, parse_of_listsFlags ⟨hknown, hnodup⟩ hmodes⟩
  accepted := by
    intro fs h
    obtain ⟨hlists, hmodes, rfl⟩ := eq_of_parse h
    exact ⟨rfl, hlists.text_perm, text_sublist_letters _, parse_text_ofLetters hlists hmodes⟩
  refused_iff := by
    intro e
    constructor
    · intro h
      rcases refused_or_listsFlags s.toList with ⟨e', he'⟩ | ⟨hlists, hmodes⟩
      · rw [parse_of_refused he'] at h
        exact Except.error.inj h ▸ he'
      · rw [parse_of_listsFlags hlists hmodes] at h
        cases h
    · exact parse_of_refused

/-- Every text of flags is decided by its letters and by the first position at which something is
wrong, and texts that are read come to the same exactly if they have the same letters. -/
theorem parse_decided (s t : String) :
    Decided s ∧ ∀ fs gs, parse s = .ok fs → parse t = .ok gs →
      (fs = gs ↔ s.toList.Perm t.toList) := by
  refine ⟨decided s, fun fs gs hs ht => ?_⟩
  obtain ⟨hlists, -, rfl⟩ := eq_of_parse hs
  obtain ⟨hlists', -, rfl⟩ := eq_of_parse ht
  constructor
  · intro heq
    have hperm := hlists.text_perm
    rw [heq] at hperm
    exact hperm.symm.trans hlists'.text_perm
  · exact ofLetters_eq_of_perm

/-- Two modes, an unknown letter, and a letter that stands twice. -/
example : parse "uvxu" = .error (.unknown 'x') := by decide

end Flags

end NamedCaptures
