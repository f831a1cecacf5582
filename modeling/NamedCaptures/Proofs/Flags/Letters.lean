import NamedCaptures.Flags

/-!
# The letters of a set of flags

A set of flags is known by its letters: they list its flags in a fixed order, each flag has a letter
of its own, and no other character stands among them.
-/

namespace NamedCaptures

namespace Flag

theorem letter_inj {f g : Flag} (h : f.letter = g.letter) : f = g := by
  have hflag := congrArg ofLetter? h
  rw [ofLetter?_letter, ofLetter?_letter] at hflag
  exact Option.some.inj hflag

theorem isAlpha_letter (f : Flag) : f.letter.isAlpha = true := by
  cases f <;> rfl

end Flag

namespace Flags

theorem mem_toList {fs : Flags} {f : Flag} : f ∈ fs.toList ↔ fs.has f = true := by
  rw [toList, List.mem_filter]
  exact and_iff_right (Flag.mem_all f)

theorem toList_inj {fs gs : Flags} (h : fs.toList = gs.toList) : fs = gs := by
  apply ext_has
  intro f
  rw [Bool.eq_iff_iff, ← mem_toList, ← mem_toList, h]

theorem toList_text (fs : Flags) : fs.text.toList = fs.toList.map Flag.letter :=
  String.toList_ofList

/-- The letters tell which flags are in the set. -/
theorem text_inj {fs gs : Flags} (h : fs.text = gs.text) : fs = gs := by
  have hletters : fs.toList.map Flag.letter = gs.toList.map Flag.letter := by
    rw [← toList_text, ← toList_text, h]
  apply toList_inj
  exact (List.map_inj_right fun _ _ => Flag.letter_inj).mp hletters

theorem slash_not_mem_text (fs : Flags) : '/' ∉ fs.text.toList := by
  rw [toList_text, List.mem_map]
  rintro ⟨f, -, hf⟩
  have halpha := f.isAlpha_letter
  rw [hf] at halpha
  exact absurd halpha (by decide)

theorem isAlpha_of_insertLetters {fs gs : Flags} {cs : List Char}
    (h : fs.insertLetters cs = .ok gs) : ∀ c ∈ cs, c.isAlpha = true := by
  induction cs generalizing fs with
  | nil => simp
  | cons c cs ih =>
      rw [insertLetters] at h
      split at h
      · cases h
      · next f hf =>
          split at h
          · cases h
          · have hc : c.isAlpha = true := Flag.letter_of_ofLetter? hf ▸ f.isAlpha_letter
            exact List.forall_mem_cons.mpr ⟨hc, ih h⟩

/-- Where flags can be read, nothing but letters stands. -/
theorem isAlpha_of_parse {s : String} {fs : Flags} (h : parse s = .ok fs) :
    ∀ c ∈ s.toList, c.isAlpha = true := by
  unfold parse at h
  split at h
  · cases h
  · next gs hgs => exact isAlpha_of_insertLetters hgs

end Flags

end NamedCaptures
