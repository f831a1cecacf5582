import NamedCaptures.Proofs.Positions.Offsets

/-!
# Tours of a text

A tour begins at the start of a text and makes moves, in any order. It can mark places on the way
and go back to any of them. A move that is a fault is not made. Whatever a tour does, the place
where it is and those that it has marked are between two characters of the text, and the part
between an earlier place and a later one is what was moved over. The main statement is
`tours_split_text`, on places by byte offsets, where none of this holds by definition.
-/

namespace NamedCaptures

open InPlace (byteLength byteLength_append byteLength_cons byteLength_eq_zero_iff)

namespace Position

variable {p q : Position}

/-- A move stays in the text and does not lead back. -/
theorem text_move {m : Move} (h : p.move m = .ok q) :
    q.text = p.text ∧ p.consumed <+: q.consumed := by
  cases m with
  | advance =>
      cases h
      exact ⟨text_forward p 1, List.prefix_append _ _⟩
  | advanceWhile accept =>
      cases h
      exact ⟨text_advanceWhile p accept, List.prefix_append _ _⟩
  | advanceOver s =>
      rw [move, advanceOver] at h
      split at h
      · cases h
        exact ⟨text_forward p s.length, List.prefix_append _ _⟩
      · cases h
  | advanceToEither a b =>
      rw [move] at h
      split at h
      · rw [advanceToEither, forwardBytes] at h
        split at h
        · next front back hsplit =>
            cases h
            have hremaining := (InPlace.eq_of_splitBytes? hsplit).1
            refine ⟨?_, List.prefix_append _ _⟩
            rw [text, text, hremaining, List.append_assoc]
        · cases h
      · cases h

/-- An ASCII byte is the byte of a character. -/
theorem exists_char_of_lt {a : UInt8} (h : a < 128) :
    ∃ c : Char, c.toNat < 128 ∧ UInt8.ofNat c.toNat = a := by
  refine ⟨Char.ofUInt8 a, ?_, ?_⟩
  · rw [InPlace.toNat_ofUInt8]
    exact UInt8.lt_iff_toNat_lt.mp h
  · rw [InPlace.toNat_ofUInt8, UInt8.ofNat_toNat]

/-- A move is a fault only where it demands something that does not hold. -/
theorem exists_move (p : Position) (m : Move) : (∃ q, p.move m = .ok q) ∨
    (∃ s, m = .advanceOver s) ∨ ∃ a b, m = .advanceToEither a b ∧ ¬ (a < 128 ∧ b < 128) := by
  cases m with
  | advance => exact .inl ⟨_, rfl⟩
  | advanceWhile accept => exact .inl ⟨_, rfl⟩
  | advanceOver s => exact .inr (.inl ⟨s, rfl⟩)
  | advanceToEither a b =>
      by_cases hascii : a < 128 ∧ b < 128
      · obtain ⟨c, hc, rfl⟩ := exists_char_of_lt hascii.1
        obtain ⟨d, hd, rfl⟩ := exists_char_of_lt hascii.2
        left
        rw [move, if_pos hascii, InPlace.advanceToEither_eq hc hd]
        exact ⟨_, rfl⟩
      · exact .inr (.inr ⟨a, b, rfl, hascii⟩)

theorem advanceOver_of_next {s after : List Char} (h : p.remaining = s ++ after) :
    p.advanceOver s = .ok ⟨p.consumed ++ s, after⟩ := by
  have hnext : p.nextIs s = true := by
    rw [nextIs, h]
    exact List.isPrefixOf_iff_prefix.mpr (List.prefix_append _ _)
  rw [advanceOver, if_pos hnext, forward, h, List.take_left, List.drop_left]

theorem advanceOver_of_not_next {s : List Char} (h : ¬ s <+: p.remaining) :
    p.advanceOver s = .error (.notNext s p.remaining) := by
  have hnext : p.nextIs s ≠ true := by
    intro hnext
    exact h (List.isPrefixOf_iff_prefix.mp hnext)
  rw [advanceOver, if_neg hnext]

/-- Of two places in a text, the one with fewer bytes before it is the earlier one. -/
theorem consumed_prefix (htext : p.text = q.text)
    (h : byteLength p.consumed ≤ byteLength q.consumed) : p.consumed <+: q.consumed := by
  have hp : p.consumed <+: q.text := htext ▸ List.prefix_append _ _
  have hq : q.consumed <+: q.text := List.prefix_append _ _
  rcases List.prefix_or_prefix_of_prefix hp hq with hprefix | ⟨more, hmore⟩
  · exact hprefix
  · rw [← hmore, byteLength_append] at h
    obtain rfl := byteLength_eq_zero_iff.mp (show byteLength more = 0 by omega)
    rw [List.append_nil] at hmore
    exact hmore ▸ List.prefix_rfl

end Position

namespace Offset

variable {p q : Position}

/-- What is between two places, and that nothing is only between a place and itself. -/
theorem textSince_ofPosition (htext : p.text = q.text)
    (h : (ofPosition p).bytes ≤ (ofPosition q).bytes) :
    ∃ between, (ofPosition q).textSince (ofPosition p) = .ok between ∧
      between = q.textFrom p ∧ p.remaining = between ++ q.remaining ∧
      q.consumed = p.consumed ++ between ∧ (ofPosition q = ofPosition p ↔ between = []) := by
  obtain ⟨between, hconsumed⟩ := Position.consumed_prefix htext h
  have hremaining : p.remaining = between ++ q.remaining := by
    rw [Position.text, Position.text, ← hconsumed, List.append_assoc] at htext
    exact List.append_cancel_left htext
  have hbytes : (ofPosition q).bytes = (ofPosition p).bytes + byteLength between := by
    rw [ofPosition, ofPosition, ← hconsumed, byteLength_append]
  have hfrom : between = q.textFrom p := by
    rw [Position.textFrom, ← hconsumed, List.drop_left]
  refine ⟨between, ?_, hfrom, hremaining, hconsumed.symm, ?_⟩
  · have hparts : parts ⟨between ++ q.remaining, byteLength between⟩ =
        .ok (between, q.remaining) :=
      parts_ofPosition ⟨between, q.remaining⟩
    rw [textSince, if_pos h, parts_ofPosition, hbytes, Nat.add_sub_cancel_left]
    simp only [bind, Except.bind, hremaining, hparts]
    rfl
  · constructor
    · intro heq
      apply byteLength_eq_zero_iff.mp
      rw [heq] at hbytes
      omega
    · rintro rfl
      rw [ofPosition, ofPosition, htext, ← hconsumed, List.append_nil]

theorem bytes_le_of_move {m : Position.Move} {o : Offset} (h : (ofPosition p).move m = .ok o) :
    (ofPosition p).bytes ≤ o.bytes := by
  rw [move_ofPosition] at h
  cases hmove : p.move m with
  | error f =>
      rw [hmove] at h
      cases h
  | ok q =>
      rw [hmove] at h
      cases h
      obtain ⟨more, hmore⟩ := (Position.text_move hmove).2
      rw [ofPosition, ofPosition, ← hmore, byteLength_append]
      exact Nat.le_add_right _ _

theorem byteLength_eq_utf8ByteSize (s : List Char) :
    byteLength s = (String.ofList s).utf8ByteSize := by
  induction s with
  | nil => rfl
  | cons c s ih =>
      rw [byteLength_cons, ih, String.ofList_cons, String.utf8ByteSize_append,
        String.utf8ByteSize_singleton]

theorem isValid_ofPosition (p : Position) :
    (String.Pos.Raw.mk (ofPosition p).bytes).IsValid (String.ofList p.text) := by
  apply String.Pos.Raw.isValid_iff_exists_append.mpr
  refine ⟨String.ofList p.consumed, String.ofList p.remaining, ?_, ?_⟩
  · rw [← String.ofList_append]
    rfl
  · exact String.Pos.Raw.ext (byteLength_eq_utf8ByteSize p.consumed)

end Offset

/-- A tour: the place where it is, and those that it has marked, the latest first. -/
structure Tour (α : Type) where
  place : α
  marks : List α := []

/-- What a tour does. -/
inductive Tour.Act where
  /-- Makes a move. -/
  | move (m : Position.Move)
  /-- Marks the place. -/
  | mark
  /-- Goes back to a place that has been marked, counted from the latest one. -/
  | goBack (k : Nat)

namespace Tour

variable {α β : Type}

/-- The tour behind an act, with moves of one kind of places. -/
def act (move : α → Position.Move → Except InPlace.Fault α) (t : Tour α) : Act → Tour α
  | .move m =>
      match move t.place m with
      | .ok place => { t with place }
      | .error _ => t
  | .mark => { t with marks := t.place :: t.marks }
  | .goBack k =>
      match t.marks[k]? with
      | some place => { t with place }
      | none => t

/-- The tour behind several acts. -/
def run (move : α → Position.Move → Except InPlace.Fault α) (t : Tour α) (acts : List Act) :
    Tour α :=
  acts.foldl (act move) t

/-- The tour with other places. -/
def map (f : α → β) (t : Tour α) : Tour β :=
  ⟨f t.place, t.marks.map f⟩

section Map

variable {f : α → β} {move : α → Position.Move → Except InPlace.Fault α}
  {move' : β → Position.Move → Except InPlace.Fault β}
  (h : ∀ a m, move' (f a) m = (move a m).map f)

include h

theorem act_map (t : Tour α) (a : Act) : (t.map f).act move' a = (t.act move a).map f := by
  cases a with
  | move m =>
      rw [act, act, map, h]
      cases move t.place m <;> rfl
  | mark => rfl
  | goBack k =>
      rw [act, act, map, List.getElem?_map]
      cases t.marks[k]? <;> rfl

/-- Where moves correspond, tours do. -/
theorem run_map (t : Tour α) (acts : List Act) :
    (t.map f).run move' acts = (t.run move acts).map f := by
  induction acts generalizing t with
  | nil => rfl
  | cons a acts ih =>
      calc (t.map f).run move' (a :: acts)
          = ((t.map f).act move' a).run move' acts := rfl
        _ = ((t.act move a).map f).run move' acts := by rw [act_map h]
        _ = (t.run move (a :: acts)).map f := ih _

end Map

/-- All places of the tour are places of the text. -/
def Within (text : List Char) (t : Tour Position) : Prop :=
  ∀ p ∈ t.place :: t.marks, p.text = text

theorem within_start (text : List Char) : Within text ⟨.start text, []⟩ := by
  intro p hp
  cases List.mem_singleton.mp hp
  rfl

/-- A tour by numbers of bytes comes to the offsets of the places to which it comes by positions. -/
theorem run_start (text : List Char) (acts : List Act) :
    Tour.run Offset.move ⟨.start text, []⟩ acts =
      (Tour.run Position.move ⟨.start text, []⟩ acts).map Offset.ofPosition :=
  run_map Offset.move_ofPosition ⟨.start text, []⟩ acts

theorem Within.act {text : List Char} {t : Tour Position} (h : t.Within text) (a : Act) :
    (t.act Position.move a).Within text := by
  have hplace := h t.place List.mem_cons_self
  have hmarks (p : Position) (hp : p ∈ t.marks) := h p (List.mem_cons_of_mem _ hp)
  cases a with
  | move m =>
      rw [Tour.act]
      split
      · next place hmove =>
          refine List.forall_mem_cons.mpr ⟨?_, hmarks⟩
          exact (Position.text_move hmove).1.trans hplace
      · exact h
  | mark => exact List.forall_mem_cons.mpr ⟨hplace, h⟩
  | goBack k =>
      rw [Tour.act]
      split
      · next place hmark =>
          exact List.forall_mem_cons.mpr ⟨hmarks place (List.mem_of_getElem? hmark), hmarks⟩
      · exact h

theorem Within.run {text : List Char} {t : Tour Position} (h : t.Within text) (acts : List Act) :
    (t.run Position.move acts).Within text := by
  induction acts generalizing t with
  | nil => exact h
  | cons a acts ih => exact ih (h.act a)

/-- What holds of a tour by byte offsets, wherever in the text it has come to. -/
structure Splits (text : List Char) (t : Tour Offset) : Prop where
  /-- The places are between two characters, and the parts before and behind make up the text. -/
  parts : ∀ o ∈ t.place :: t.marks, ∃ before after, o.parts = .ok (before, after) ∧
    before ++ after = text ∧ (String.Pos.Raw.mk o.bytes).IsValid (String.ofList text)
  /-- No move leads back. -/
  onward : ∀ m o, t.place.move m = .ok o → t.place.bytes ≤ o.bytes
  /-- Moves can be made, unless something is demanded that does not hold. -/
  made : ∀ m, (∃ o, t.place.move m = .ok o) ∨ (∃ s, m = .advanceOver s) ∨
    ∃ a b, m = .advanceToEither a b ∧ ¬ (a < 128 ∧ b < 128)
  /-- A text that comes next is gone over, neither less nor more. -/
  next : ∀ s before after, t.place.parts = .ok (before, s ++ after) →
    ∃ o, t.place.move (.advanceOver s) = .ok o ∧ o.parts = .ok (before ++ s, after)
  /-- A text that does not come next is not gone over, and the tour goes on from where it was. -/
  notNext : ∀ s before after, t.place.parts = .ok (before, after) → ¬ s <+: after →
    t.place.move (.advanceOver s) = .error (.position (.notNext s after)) ∧
      t.act Offset.move (.move (.advanceOver s)) = t
  /-- What is between a mark and a later place. -/
  since : ∀ mark ∈ t.marks, mark.bytes ≤ t.place.bytes → ∃ before between after,
    t.place.textSince mark = .ok between ∧ mark.parts = .ok (before, between ++ after) ∧
      t.place.parts = .ok (before ++ between, after) ∧ (t.place = mark ↔ between = [])

/-- A tour by offsets that is one by positions splits the text. -/
theorem splits_map {text : List Char} {t : Tour Position} (h : t.Within text) :
    Splits text (t.map Offset.ofPosition) where
  parts := by
    intro o ho
    have hmap : o ∈ (t.place :: t.marks).map Offset.ofPosition := ho
    obtain ⟨p, hp, rfl⟩ := List.mem_map.mp hmap
    refine ⟨p.consumed, p.remaining, Offset.parts_ofPosition p, h p hp, ?_⟩
    exact h p hp ▸ Offset.isValid_ofPosition p
  onward := fun _ _ hmove => Offset.bytes_le_of_move hmove
  made := by
    intro m
    rcases t.place.exists_move m with ⟨q, hq⟩ | hfault
    · refine .inl ⟨Offset.ofPosition q, ?_⟩
      rw [map, Offset.move_ofPosition, hq]
      rfl
    · exact .inr hfault
  next := by
    intro s before after hparts
    rw [map, Offset.parts_ofPosition] at hparts
    obtain ⟨rfl, hnext⟩ := Prod.mk.inj (Except.ok.inj hparts)
    refine ⟨_, ?_, Offset.parts_ofPosition ⟨t.place.consumed ++ s, after⟩⟩
    rw [map, Offset.move_ofPosition, Position.move, Position.advanceOver_of_next hnext]
    rfl
  notNext := by
    intro s before after hparts hnext
    rw [map, Offset.parts_ofPosition] at hparts
    obtain ⟨-, rfl⟩ := Prod.mk.inj (Except.ok.inj hparts)
    have hmove : (t.map Offset.ofPosition).place.move (.advanceOver s) =
        .error (.position (.notNext s t.place.remaining)) := by
      rw [map, Offset.move_ofPosition, Position.move, Position.advanceOver_of_not_next hnext]
      rfl
    refine ⟨hmove, ?_⟩
    rw [act, hmove]
  since := by
    intro mark hmark hle
    obtain ⟨p, hp, rfl⟩ := List.mem_map.mp hmark
    have htext : p.text = t.place.text :=
      (h p (List.mem_cons_of_mem _ hp)).trans (h t.place List.mem_cons_self).symm
    obtain ⟨between, hbetween, -, hremaining, hconsumed, hempty⟩ :=
      Offset.textSince_ofPosition htext hle
    refine ⟨p.consumed, between, t.place.remaining, hbetween, ?_, ?_, hempty⟩
    · rw [Offset.parts_ofPosition, hremaining]
    · rw [map, Offset.parts_ofPosition, hconsumed]

theorem textSince_map {text : List Char} {t : Tour Position} (h : t.Within text) {p : Position}
    (hmark : p ∈ t.marks) (hle : p.consumed <+: t.place.consumed) :
    (Offset.ofPosition t.place).textSince (.ofPosition p) = .ok (t.place.textFrom p) := by
  have htext : p.text = t.place.text :=
    (h p (List.mem_cons_of_mem _ hmark)).trans (h t.place List.mem_cons_self).symm
  have hbytes : (Offset.ofPosition p).bytes ≤ (Offset.ofPosition t.place).bytes := by
    obtain ⟨between, hbetween⟩ := hle
    rw [Offset.ofPosition, Offset.ofPosition, ← hbetween, byteLength_append]
    exact Nat.le_add_right _ _
  obtain ⟨between, hsince, rfl, -⟩ := Offset.textSince_ofPosition htext hbytes
  exact hsince

/-- A tour that moves by numbers of bytes is the same tour by positions. Wherever it has come to,
with whatever marks, all its places split the text, and the moves from there go over what they
should. So no sequence of moves and returns gets inside a character. -/
theorem tours_split_text (text : List Char) (acts : List Act) :
    let byBytes := Tour.run Offset.move ⟨.start text, []⟩ acts
    let byPositions := Tour.run Position.move ⟨.start text, []⟩ acts
    byBytes = byPositions.map Offset.ofPosition ∧ Splits text byBytes ∧
      ∀ mark ∈ byPositions.marks, mark.consumed <+: byPositions.place.consumed →
        byBytes.place.textSince (.ofPosition mark) = .ok (byPositions.place.textFrom mark) := by
  have hwithin := (within_start text).run acts
  have hmap := run_start text acts
  intro byBytes byPositions
  refine ⟨hmap, ?_, ?_⟩
  · rw [show byBytes = byPositions.map Offset.ofPosition from hmap]
    exact splits_map hwithin
  · intro mark hmark hle
    rw [show byBytes = byPositions.map Offset.ofPosition from hmap]
    exact textSince_map hwithin hmark hle

end Tour

end NamedCaptures
