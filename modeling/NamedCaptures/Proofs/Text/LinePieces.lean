import NamedCaptures.Text.Lines

/-!
# Lines and the pieces between line feeds

The lines of a text are its pieces between line feeds, each without the one carriage return that
stands directly before a line feed. The last piece is followed by none, so it is a line as it is,
and it is no line if it is empty.
-/

namespace NamedCaptures.Text

/-- A piece without a carriage return at its end. -/
def withoutReturn (piece : List Char) : List Char :=
  if piece.getLast? = some '\r' then piece.dropLast else piece

/-- The pieces of a text between line feeds, without what belongs to the line feed behind. -/
def linePieces (s : List Char) : List (List Char) :=
  (s.splitOn '\n').dropLast.map withoutReturn ++ (s.splitOn '\n').getLast?.toList

theorem withoutReturn_cons {c : Char} {piece : List Char} (h : piece = [] → c ≠ '\r') :
    withoutReturn (c :: piece) = c :: withoutReturn piece := by
  cases piece with
  | nil =>
      have hc : [c].getLast? ≠ some '\r' := fun heq => h rfl (Option.some.inj heq)
      rw [withoutReturn, if_neg hc]
      rfl
  | cons d piece =>
      rw [withoutReturn, withoutReturn, List.getLast?_cons_cons, List.dropLast_cons_cons]
      split <;> rfl

/-- The lines that pieces make: the last one is a line unless it is empty. -/
def ofPieces : List (List Char) → List (List Char)
  | [] => []
  | [last] => if last.isEmpty then [] else [last]
  | piece :: next :: pieces => withoutReturn piece :: ofPieces (next :: pieces)

theorem ofPieces_cons {pieces : List (List Char)} (h : pieces ≠ []) (piece : List Char) :
    ofPieces (piece :: pieces) = withoutReturn piece :: ofPieces pieces := by
  obtain ⟨next, pieces, rfl⟩ := List.exists_cons_of_ne_nil h
  rfl

theorem splitOn_feed (s : List Char) : ('\n' :: s).splitOn '\n' = [] :: s.splitOn '\n' := by
  rw [List.splitOn_cons_eq_if_modifyHead, if_pos (by decide)]

theorem splitOn_other {c : Char} (h : c ≠ '\n') (s : List Char) :
    (c :: s).splitOn '\n' = (s.splitOn '\n').modifyHead (c :: ·) := by
  rw [List.splitOn_cons_eq_if_modifyHead, if_neg (by simpa using h)]

/-- The first piece is empty before others only where a line feed comes first. -/
theorem eq_feed_of_splitOn {s next : List Char} {pieces : List (List Char)}
    (h : s.splitOn '\n' = [] :: next :: pieces) : ∃ t, s = '\n' :: t := by
  cases s with
  | nil => cases h
  | cons c t =>
      by_cases hc : c = '\n'
      · exact ⟨t, congrArg (· :: t) hc⟩
      · obtain ⟨first, others, hsplit⟩ := List.exists_cons_of_ne_nil (List.splitOn_ne_nil '\n' t)
        rw [splitOn_other hc, hsplit] at h
        cases h

/-- Lines with one more character in front. -/
def consFirst (c : Char) : List (List Char) → List (List Char)
  | [] => [[c]]
  | l :: ls => (c :: l) :: ls

theorem ofPieces_consFirst {c : Char} {first : List Char} {others : List (List Char)}
    (h : first = [] → others ≠ [] → c ≠ '\r') :
    ofPieces ((c :: first) :: others) = consFirst c (ofPieces (first :: others)) := by
  cases others with
  | nil => cases first <;> rfl
  | cons next others =>
      have hne : next :: others ≠ [] := List.cons_ne_nil _ _
      rw [ofPieces_cons hne, ofPieces_cons hne, withoutReturn_cons fun hfirst => h hfirst hne]
      rfl

/-- A character that is no part of the end of a line goes in front of the first line. -/
theorem ofPieces_other {c : Char} {s : List Char} (hfeed : c ≠ '\n')
    (hreturn : ∀ t, c = '\r' → s ≠ '\n' :: t) :
    ofPieces ((c :: s).splitOn '\n') = consFirst c (ofPieces (s.splitOn '\n')) := by
  obtain ⟨first, others, hsplit⟩ := List.exists_cons_of_ne_nil (List.splitOn_ne_nil '\n' s)
  rw [splitOn_other hfeed, hsplit, List.modifyHead_cons]
  apply ofPieces_consFirst
  rintro rfl hothers hc
  obtain ⟨next, pieces, rfl⟩ := List.exists_cons_of_ne_nil hothers
  obtain ⟨t, ht⟩ := eq_feed_of_splitOn hsplit
  exact hreturn t hc ht

theorem ofPieces_feed (s : List Char) :
    ofPieces (('\n' :: s).splitOn '\n') = [] :: ofPieces (s.splitOn '\n') := by
  rw [splitOn_feed, ofPieces_cons (List.splitOn_ne_nil _ _)]
  rfl

theorem ofPieces_return_feed (s : List Char) :
    ofPieces (('\r' :: '\n' :: s).splitOn '\n') = [] :: ofPieces (s.splitOn '\n') := by
  rw [splitOn_other (by decide), splitOn_feed, List.modifyHead_cons,
    ofPieces_cons (List.splitOn_ne_nil _ _)]
  rfl

/-- Going over a text character by character finds the lines that its pieces make. -/
theorem lines_eq_ofPieces (s : List Char) : lines s = ofPieces (s.splitOn '\n') := by
  fun_induction lines s with
  | case1 => rfl
  | case2 s ih => rw [ofPieces_feed, ih]
  | case3 s ih => rw [ofPieces_return_feed, ih]
  | case4 c s hfeed hreturn hlines ih =>
      rw [ofPieces_other hfeed hreturn, ← ih, hlines, consFirst]
  | case5 c s hfeed hreturn l ls hlines ih =>
      rw [ofPieces_other hfeed hreturn, ← ih, hlines, consFirst]

/-- The pieces make the same lines all at once, empty ones aside. -/
theorem filter_ofPieces (pieces : List (List Char)) :
    (ofPieces pieces).filter (!·.isEmpty) =
      (pieces.dropLast.map withoutReturn ++ pieces.getLast?.toList).filter (!·.isEmpty) := by
  fun_induction ofPieces pieces with
  | case1 => rfl
  | case2 last hlast =>
      obtain rfl := List.isEmpty_iff.mp hlast
      rfl
  | case3 last hlast => rfl
  | case4 piece next pieces ih =>
      rw [List.dropLast_cons_cons, List.getLast?_cons_cons, List.map_cons, List.cons_append,
        List.filter_cons, List.filter_cons, ih]

/-- The lines of a text that are not empty, by its pieces. -/
theorem filledLines_eq (s : String) :
    filledLines s = ((linePieces s.toList).filter (!·.isEmpty)).map String.ofList := by
  rw [filledLines, lines_eq_ofPieces, filter_ofPieces, linePieces]

end NamedCaptures.Text
