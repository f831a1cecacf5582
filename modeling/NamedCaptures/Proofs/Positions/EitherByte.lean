import NamedCaptures.Proofs.Positions.Tours

/-!
# Looking for one of two bytes

Over the characters up to the first of two ASCII characters one can also move by looking for their
bytes, and by adding the index of the first one to the offset. The search may be any that finds the
first byte (`FindsEither`). It leads to the same place in texts with characters of any number of
bytes, because no byte of a longer character is an ASCII character. The main statement is
`forwardToEither_reaches`.
-/

namespace NamedCaptures

namespace Offset

open InPlace (byteLength)

/-- The search returns the index of the first byte that is one of two, or nothing without one. -/
structure FindsEither (search : UInt8 → UInt8 → List UInt8 → Option Nat) : Prop where
  found : ∀ a b bytes i, search a b bytes = some i → ∃ before x after,
    bytes = before ++ x :: after ∧ before.length = i ∧ (x = a ∨ x = b) ∧
      ∀ y ∈ before, y ≠ a ∧ y ≠ b
  absent : ∀ a b bytes, search a b bytes = none → ∀ y ∈ bytes, y ≠ a ∧ y ≠ b

/-- Forward by the index that the search returns for the bytes from the place on, or to the end. The
two bytes have to be ASCII characters. -/
def forwardToEither (search : UInt8 → UInt8 → List UInt8 → Option Nat) (o : Offset) (a b : UInt8) :
    Except InPlace.Fault Offset :=
  if a < 128 ∧ b < 128 then do
    let (_, rest) ← o.parts
    let bytes := Position.bytes rest
    o.forward ((search a b bytes).getD bytes.length)
  else .error .needleNotAscii

/-- A character that is neither of two, which are given by their bytes. -/
def isNeither (a b : UInt8) (c : Char) : Bool :=
  !(c == Char.ofUInt8 a || c == Char.ofUInt8 b)

variable {search : UInt8 → UInt8 → List UInt8 → Option Nat} {a b : UInt8}

theorem findIdx_of_forall {bytes : List UInt8} (h : ∀ y ∈ bytes, y ≠ a ∧ y ≠ b) :
    (bytes.findIdx fun x => x == a || x == b) = bytes.length := by
  rw [List.findIdx_eq_length]
  intro y hy
  simp [h y hy]

/-- There is only one search of this kind. -/
theorem FindsEither.getD_eq (h : FindsEither search) (a b : UInt8) (bytes : List UInt8) :
    (search a b bytes).getD bytes.length = bytes.findIdx fun x => x == a || x == b := by
  cases hsearch : search a b bytes with
  | none => exact (findIdx_of_forall (h.absent a b bytes hsearch)).symm
  | some i =>
      obtain ⟨before, x, after, rfl, rfl, hx, hbefore⟩ := h.found a b bytes i hsearch
      have hhere : (x == a || x == b) = true := by simpa using hx
      rw [List.findIdx_append, findIdx_of_forall hbefore, List.findIdx_cons, hhere]
      simp

theorem forwardToEither_eq_move (h : FindsEither search) (o : Offset) (a b : UInt8) :
    o.forwardToEither search a b = o.move (.advanceToEither a b) := by
  simp only [forwardToEither, move, h.getD_eq]

/-- The bytes are looked for where the characters stand. -/
theorem advanceToEither_eq_advanceWhile (ha : a < 128) (hb : b < 128) (p : Position) :
    p.advanceToEither a b = .ok (p.advanceWhile (isNeither a b)) := by
  have hlt {x : UInt8} (hx : x < 128) : (Char.ofUInt8 x).toNat < 128 := UInt8.lt_iff_toNat_lt.mp hx
  have hread := InPlace.advanceToEither_eq (hlt ha) (hlt hb) p
  rw [InPlace.toNat_ofUInt8, InPlace.toNat_ofUInt8, UInt8.ofNat_toNat, UInt8.ofNat_toNat] at hread
  exact hread

theorem move_advanceToEither (ha : a < 128) (hb : b < 128) (p : Position) :
    p.move (.advanceToEither a b) = p.move (.advanceWhile (isNeither a b)) :=
  calc p.move (.advanceToEither a b)
    _ = (p.advanceToEither a b).mapError .position := if_pos ⟨ha, hb⟩
    _ = (Except.ok (p.advanceWhile (isNeither a b))).mapError .position := by
      rw [advanceToEither_eq_advanceWhile ha hb]
    _ = p.move (.advanceWhile (isNeither a b)) := rfl

/-- An offset between two characters is that of a position. -/
theorem eq_ofPosition {o : Offset} {before rest : List Char} (h : o.parts = .ok (before, rest)) :
    o = ofPosition ⟨before, rest⟩ := by
  obtain ⟨text, bytes⟩ := o
  rw [parts] at h
  split at h
  · next parts hsplit =>
      cases h
      obtain ⟨htext, hbytes⟩ := InPlace.eq_of_splitBytes? hsplit
      rw [ofPosition, Position.text, ← htext, hbytes]
  · cases h

/-- Behind all characters that are neither of the two comes one of them, if the text goes on. -/
theorem dropWhile_isNeither (a b : UInt8) (s : List Char) :
    s.dropWhile (isNeither a b) = [] ∨ ∃ c t, s.dropWhile (isNeither a b) = c :: t ∧
      (c = Char.ofUInt8 a ∨ c = Char.ofUInt8 b) := by
  cases hleft : s.dropWhile (isNeither a b) with
  | nil => exact .inl rfl
  | cons c t =>
      have hhead := List.head?_dropWhile_not (isNeither a b) s
      rw [hleft] at hhead
      have hc : c = Char.ofUInt8 a ∨ c = Char.ofUInt8 b :=
        Decidable.or_iff_not_imp_left.mpr (by simpa [isNeither] using hhead)
      exact .inr ⟨c, t, rfl, hc⟩

/-- Where looking for the bytes leads, from an offset before the text `rest`. -/
structure ReachesEither (search : UInt8 → UInt8 → List UInt8 → Option Nat) (o : Offset)
    (a b : UInt8) (before rest : List Char) : Prop where
  /-- It leads to where one comes character by character. -/
  same : o.forwardToEither search a b = o.move (.advanceWhile (isNeither a b))
  /-- So does the move of positions. -/
  position : (Position.mk before rest).advanceToEither a b =
    .ok ((Position.mk before rest).advanceWhile (isNeither a b))
  /-- The place is between two characters of the text, behind characters that are neither of the two
  and before the first one that is, or at the end. -/
  reached : ∃ o' passed left, o.forwardToEither search a b = .ok o' ∧ o'.text = o.text ∧
    o'.parts = .ok (before ++ passed, left) ∧ rest = passed ++ left ∧
    (String.Pos.Raw.mk o'.bytes).IsValid (String.ofList o.text) ∧
    (∀ c ∈ passed, c ≠ Char.ofUInt8 a ∧ c ≠ Char.ofUInt8 b) ∧
    (left = [] ∨ ∃ c t, left = c :: t ∧ (c = Char.ofUInt8 a ∨ c = Char.ofUInt8 b))

/-- From any offset between two characters, looking for two ASCII bytes leads to the place to which
one comes over the characters that are neither of the two. -/
theorem forwardToEither_reaches (hsearch : FindsEither search) {o : Offset}
    {before rest : List Char} (h : o.parts = .ok (before, rest)) (ha : a < 128) (hb : b < 128) :
    ReachesEither search o a b before rest := by
  obtain rfl := eq_ofPosition h
  have hposition := advanceToEither_eq_advanceWhile ha hb ⟨before, rest⟩
  have hsame : (ofPosition ⟨before, rest⟩).forwardToEither search a b =
      (ofPosition ⟨before, rest⟩).move (.advanceWhile (isNeither a b)) := by
    rw [forwardToEither_eq_move hsearch, move_ofPosition, move_ofPosition,
      move_advanceToEither ha hb]
  let reached := (Position.mk before rest).advanceWhile (isNeither a b)
  have htext : reached.text = before ++ rest := Position.text_advanceWhile _ _
  refine ⟨hsame, hposition, ofPosition reached, rest.takeWhile (isNeither a b),
    rest.dropWhile (isNeither a b), ?_, htext, parts_ofPosition reached,
    List.takeWhile_append_dropWhile.symm, ?_, ?_, dropWhile_isNeither a b rest⟩
  · rw [hsame, move_ofPosition]
    rfl
  · have hvalid := isValid_ofPosition reached
    rwa [htext] at hvalid
  · intro c hc
    have hneither := List.all_eq_true.mp List.all_takeWhile c hc
    simpa [isNeither] using hneither

/-- The search of the standard library. -/
theorem findsEither_findIdx? :
    FindsEither fun a b bytes => bytes.findIdx? fun x => x == a || x == b where
  found a b bytes i h := by
    obtain ⟨hi, hx, hbefore⟩ := List.findIdx?_eq_some_iff_getElem.mp h
    have hlength : (bytes.take i).length = i := List.length_take_of_le (Nat.le_of_lt hi)
    refine ⟨bytes.take i, bytes[i], bytes.drop (i + 1), ?_, hlength, ?_, ?_⟩
    · rw [← List.drop_eq_getElem_cons hi, List.take_append_drop]
    · simpa using hx
    · intro y hy
      obtain ⟨j, hj, rfl⟩ := List.mem_take_iff_getElem.mp hy
      have hneither := hbefore j (Nat.lt_of_lt_of_le hj (Nat.min_le_left _ _))
      simpa using hneither
  absent a b bytes h y hy := by
    have hnone := List.findIdx?_eq_none_iff.mp h y hy
    simpa using hnone

theorem forwardToEither_reaches_bracket :
    let search (a b : UInt8) (bytes : List UInt8) := bytes.findIdx? fun x => x == a || x == b
    let o : Offset := ⟨['é', '€', '𝒳', ']', '\\'], 2⟩
    FindsEither search ∧ o.parts = .ok (['é'], ['€', '𝒳', ']', '\\']) ∧ (92 : UInt8) < 128 ∧
      (93 : UInt8) < 128 ∧ o.forwardToEither search 92 93 = .ok { o with bytes := 9 } := by
  intro search o
  have h : o.parts = .ok (['é'], ['€', '𝒳', ']', '\\']) := rfl
  have hreaches := forwardToEither_reaches findsEither_findIdx? h (a := 92) (b := 93)
    (by decide) (by decide)
  exact ⟨findsEither_findIdx?, h, by decide, by decide, hreaches.same.trans rfl⟩

end Offset

end NamedCaptures
