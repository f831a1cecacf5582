import NamedCaptures.Proofs.InPlace.Bytes

/-!
# What a run performs

A run performs a reading if, from the place before a text, it goes to the place before what the
reading leaves, adds the problems of the reading's notices, and takes its steps of nesting
(`Performs`). If one of these steps is a fault, the run ends in that fault. Any other fault is
excluded, and so is a run that does not end. A run without steps reads a lexeme (`Reads`).

Runs in a row perform readings in a row (`Performs.bind`). So what is to be shown of a procedure
is put together from what its moves perform, in the order in which it makes them.
-/

namespace NamedCaptures.InPlace

open Run

variable {α β : Type} {text s u : List Char}

/-- Several changes of levels, up to the first fault. -/
def levels (n : Nesting) (steps : List Nesting.Step) : Except Fault Nesting :=
  steps.foldlM levelStep n

theorem levels_append (n : Nesting) (steps more : List Nesting.Step) :
    levels n (steps ++ more) = (levels n steps).bind fun m => levels m more :=
  List.foldlM_append

/-- A run that ends, with a value and a state or with a fault. -/
def ends (x : Except Fault α) : ExceptT Fault Option α :=
  ExceptT.mk (some x)

/-- From the place before `s`, the run has the value `a` and performs the reading. The level of a
group that has been read is still to end before the run if `e`, and after it if `e'`. -/
structure Performs (text : List Char) (P : Run α) (e : Bool) (s : List Char) (a : α) (r : Reading)
    (e' : Bool) : Prop where
  suffix : r.rest <:+ s
  run : s <:+ text → ∀ found n, P ⟨.ofRest text s, found, n, e⟩ =
    ends ((levels n r.steps).map fun m =>
      (a, ⟨.ofRest text r.rest, found ++ r.notices.map (·.locate text), m, e'⟩))

/-- From the place before `s`, the run reads the lexeme. -/
def Reads (text : List Char) (P : Run α) (s : List Char) (l : Lexeme α) : Prop :=
  ∀ e, Performs text P e s l.value (.ofLexeme l) e

namespace Performs

variable {P : Run α} {f : α → Run β} {e e' e'' : Bool} {a : α} {b : β} {r q : Reading}

/-- It is known that the place is one of the text. -/
theorem within (h : s <:+ text → Performs text P e s a r e') (hr : r.rest <:+ s) :
    Performs text P e s a r e' where
  suffix := hr
  run hs := (h hs).run hs

theorem bind (h : Performs text P e s a r e') (hf : Performs text (f a) e' r.rest b q e'') :
    Performs text (P >>= f) e s b (r.andThen q) e'' where
  suffix := hf.suffix.trans h.suffix
  run := by
    intro hs found n
    have hbind (m : State) : (P >>= f) m = P m >>= fun x => f x.1 x.2 := rfl
    rw [hbind, h.run hs found n, Reading.andThen_steps, levels_append]
    cases levels n r.steps with
    | error fault => rfl
    | ok m =>
        have hq := hf.run (h.suffix.trans hs) (found ++ r.notices.map (·.locate text)) m
        refine Eq.trans ?_ (hq.trans ?_)
        · rfl
        · rw [List.append_assoc, ← List.map_append]
          rfl

/-- Behind a run that only moves the place. -/
theorem silently (h : Performs text P e s a (.ofSteps [] u) e')
    (hf : Performs text (f a) e' u b q e'') : Performs text (P >>= f) e s b q e'' :=
  h.bind hf

theorem pure (a : α) (e : Bool) (s : List Char) :
    Performs text (pure a) e s a (.ofSteps [] s) e where
  suffix := List.suffix_rfl
  run _ found n := by
    rw [Reading.ofSteps_notices, List.map_nil, List.append_nil]
    rfl

/-- Before a run that changes at most whether a level is still to end. -/
theorem lastly (h : Performs text P e s a r e')
    (hf : Performs text (f a) e' r.rest b (.ofSteps [] r.rest) e'') :
    Performs text (P >>= f) e s b r e'' := by
  rw [← Reading.andThen_ofSteps_nil r]
  exact h.bind hf

end Performs

namespace Reads

variable {P : Run α} {f : α → Run β} {a : α} {l : Lexeme α} {k : Lexeme β}

theorem bind {l' : Lexeme β} (h : Reads text P s l) (hf : Reads text (f l.value) l.rest k)
    (hk : l' = ⟨k.value, k.rest, l.notices ++ k.notices⟩) : Reads text (P >>= f) s l' := by
  rw [hk]
  exact fun e => (h e).bind (hf e)

/-- Behind a run that only moves the place. -/
theorem silently (h : Reads text P s ⟨a, u, []⟩) (hf : Reads text (f a) u k) :
    Reads text (P >>= f) s k :=
  fun e => (h e).bind (hf e)

theorem pure (a : α) (s : List Char) : Reads text (pure a) s ⟨a, s, []⟩ :=
  fun e => .pure a e s

/-- Another value of what is read. -/
theorem map (h : Reads text P s l) (g : α → β) :
    Reads text (do return g (← P)) s ⟨g l.value, l.rest, l.notices⟩ :=
  h.bind (pure (g l.value) l.rest) (by rw [List.append_nil])

/-- A value that is chosen by what is read. -/
theorem choose {P : Run Bool} {l : Lexeme Bool} (h : Reads text P s l) (x y : β) :
    Reads text (do if ← P then return x else return y) s
      ⟨if l.value then x else y, l.rest, l.notices⟩ := by
  refine h.bind (k := ⟨if l.value then x else y, l.rest, []⟩) ?_ (by rw [List.append_nil])
  cases l.value with
  | true => exact pure x l.rest
  | false => exact pure y l.rest

theorem within (h : s <:+ text → Reads text P s l) (hl : l.rest <:+ s) : Reads text P s l :=
  fun e => .within (fun hs => h hs e) hl

/-- A run that changes nothing but the place. -/
theorem of_move (hu : u <:+ s) (h : s <:+ text → ∀ found n e, P ⟨.ofRest text s, found, n, e⟩ =
    ends (.ok (a, ⟨.ofRest text u, found, n, e⟩))) : Reads text P s ⟨a, u, []⟩ :=
  fun e =>
    { suffix := hu
      run := by
        intro hs found n
        rw [h hs]
        simp only [Reading.ofLexeme, List.map_nil, List.append_nil]
        rfl }

end Reads

section Places

variable {front : List Char}

theorem ofRest_append_append (h : front ++ u <:+ text) :
    Position.ofRest text u = ⟨(Position.ofRest text (front ++ u)).consumed ++ front, u⟩ := by
  obtain ⟨before, rfl⟩ := h
  rw [Position.ofRest_append, ← List.append_assoc, Position.ofRest_append]

theorem forwardBytes_ofRest (h : front ++ u <:+ text) :
    (Position.ofRest text (front ++ u)).forwardBytes (byteLength front) =
      .ok (.ofRest text u) := by
  rw [ofRest_append_append h]
  simp only [Position.forwardBytes, Position.ofRest, splitBytes?_append]

theorem advanceOver_ofRest (h : front ++ u <:+ text) :
    (Position.ofRest text (front ++ u)).advanceOver front = .ok (.ofRest text u) := by
  have hnext : (Position.ofRest text (front ++ u)).nextIs front = true :=
    List.isPrefixOf_iff_prefix.mpr (List.prefix_append front u)
  rw [Position.advanceOver, if_pos hnext, ofRest_append_append h]
  simp [Position.forward, Position.ofRest]

end Places

section Moves

variable (text s)

theorem reads_place : Reads text place s ⟨.ofRest text s, s, []⟩ :=
  .of_move List.suffix_rfl fun _ _ _ _ => rfl

theorem reads_remaining : Reads text remaining s ⟨s, s, []⟩ :=
  .of_move List.suffix_rfl fun _ _ _ _ => rfl

theorem reads_peek : Reads text peek s ⟨s.head?, s, []⟩ :=
  .of_move List.suffix_rfl fun _ _ _ _ => rfl

theorem reads_nextIs (w : List Char) : Reads text (nextIs w) s ⟨w.isPrefixOf s, s, []⟩ :=
  .of_move List.suffix_rfl fun _ _ _ _ => rfl

theorem reads_nextSatisfies (accept : Char → Bool) :
    Reads text (nextSatisfies accept) s ⟨s.head?.any accept, s, []⟩ :=
  .of_move List.suffix_rfl fun _ _ _ _ => rfl

theorem reads_moveTo (hu : u <:+ s) :
    Reads text (moveTo (.ok (.ofRest text u))) s ⟨(), u, []⟩ :=
  .of_move hu fun _ _ _ _ => rfl

theorem reads_skipBytes (front : List Char) :
    Reads text (skipBytes (byteLength front)) (front ++ s) ⟨(), s, []⟩ := by
  refine .within (fun hs => (reads_place text _).silently ?_) (List.suffix_append front s)
  rw [forwardBytes_ofRest hs]
  exact reads_moveTo text _ (List.suffix_append front s)

theorem reads_skipOne (c : Char) : Reads text skipOne (c :: s) ⟨(), s, []⟩ :=
  (reads_peek text (c :: s)).silently (reads_skipBytes text s [c])

theorem reads_skipExact (w : List Char) :
    Reads text (skipExact w) (w ++ s) ⟨(), s, []⟩ := by
  refine .within (fun hs => (reads_place text _).silently ?_) (List.suffix_append w s)
  rw [advanceOver_ofRest hs]
  exact reads_moveTo text _ (List.suffix_append w s)

theorem reads_skipWhile (accept : Char → Bool) :
    Reads text (skipWhile accept) s ⟨(), s.dropWhile accept, []⟩ := by
  refine (reads_remaining text s).silently ?_
  have hskip := reads_skipBytes text (s.dropWhile accept) (s.takeWhile accept)
  rwa [List.takeWhile_append_dropWhile] at hskip

/-- The place behind a run of characters. -/
theorem advanceWhile_ofRest {s : List Char} (hs : s <:+ text) (accept : Char → Bool) :
    (Position.ofRest text s).advanceWhile accept = .ofRest text (s.dropWhile accept) := by
  have hsplit := List.takeWhile_append_dropWhile (p := accept) (l := s)
  have hs' : s.takeWhile accept ++ s.dropWhile accept <:+ text := by rwa [hsplit]
  rw [ofRest_append_append hs', hsplit]
  rfl

theorem reads_skipToEither {a b : Char} (ha : a.toNat < 128) (hb : b.toNat < 128) :
    Reads text (skipToEither (UInt8.ofNat a.toNat) (UInt8.ofNat b.toNat)) s
      ⟨(), s.dropWhile fun c => !(c == a || c == b), []⟩ := by
  have hascii {c : Char} (hc : c.toNat < 128) : UInt8.ofNat c.toNat < 128 := by
    rw [UInt8.lt_iff_toNat_lt, UInt8.toNat_ofNat', Nat.mod_eq_of_lt (by omega)]
    exact hc
  refine .within (fun hs => ?_) (List.dropWhile_suffix _)
  rw [skipToEither, if_pos ⟨hascii ha, hascii hb⟩]
  refine (reads_place text s).silently ?_
  rw [advanceToEither_eq ha hb, advanceWhile_ofRest text hs]
  exact reads_moveTo text s (List.dropWhile_suffix _)

theorem reads_reportAt (kind : Problem.Kind) (u : List Char) :
    Reads text (reportAt (.ofRest text u) kind) s ⟨(), s, [⟨kind, u⟩]⟩ :=
  fun _ => ⟨List.suffix_rfl, fun _ _ _ => rfl⟩

theorem reads_report (kind : Problem.Kind) :
    Reads text (report kind) s ⟨(), s, [⟨kind, s⟩]⟩ :=
  (reads_place text s).silently (reads_reportAt text s kind s)

theorem reads_tryConsume_next (w : List Char) :
    Reads text (tryConsume w) (w ++ s) ⟨true, s, []⟩ := by
  have hnext : w.isPrefixOf (w ++ s) = true :=
    List.isPrefixOf_iff_prefix.mpr (List.prefix_append w s)
  refine (reads_nextIs text (w ++ s) w).silently ?_
  rw [hnext]
  exact (reads_skipExact text s w).silently (.pure true s)

theorem reads_tryConsume_other {s : List Char} {w : List Char} (h : w.isPrefixOf s = false) :
    Reads text (tryConsume w) s ⟨false, s, []⟩ := by
  refine (reads_nextIs text s w).silently ?_
  rw [h]
  exact .pure false s

theorem reads_expect_next (c : Char) (missing : Problem.Kind) :
    Reads text (expect [c] missing) (c :: s) ⟨true, s, []⟩ := by
  refine (reads_tryConsume_next text s [c]).silently ?_
  exact .pure true s

theorem reads_expect_missing {s : List Char} {c : Char} (h : [c].isPrefixOf s = false)
    (missing : Problem.Kind) :
    Reads text (expect [c] missing) s ⟨false, s, [⟨missing, s⟩]⟩ := by
  refine (reads_tryConsume_other text h).silently ?_
  exact (reads_report text s missing).map fun _ => false

theorem reads_expect (c : Char) (missing : Problem.Kind) :
    Reads text (expect [c] missing) s (Lexeme.expect c missing s) := by
  cases s with
  | nil => exact reads_expect_missing text rfl missing
  | cons d s =>
      by_cases hd : d = c
      · rw [hd, Lexeme.expect, if_pos rfl]
        exact reads_expect_next text s c missing
      · rw [Lexeme.expect, if_neg hd]
        exact reads_expect_missing text (by simp [List.isPrefixOf, Ne.symm hd]) missing

/-- An optional character: whether it is there, and what is left behind it. -/
theorem reads_tryConsume_char (c : Char) :
    Reads text (tryConsume [c]) s ⟨s.head? == some c, Lexeme.skipOptional c s, []⟩ := by
  cases s with
  | nil => exact reads_tryConsume_other text rfl
  | cons d s =>
      by_cases hd : d = c
      · rw [hd, Lexeme.skipOptional, if_pos rfl, List.head?_cons, beq_self_eq_true]
        exact reads_tryConsume_next text s [c]
      · have hhead : ((d :: s).head? == some c) = false := by simpa using hd
        rw [Lexeme.skipOptional, if_neg hd, hhead]
        exact reads_tryConsume_other text (by simp [List.isPrefixOf, Ne.symm hd])

/-- The first text of a table that comes next. -/
theorem reads_tryConsumeAny (table : List (List Char × β)) :
    Reads text (tryConsumeAny table) s
      (match table.find? fun entry => entry.1.isPrefixOf s with
      | some entry => ⟨some entry.2, s.drop entry.1.length, []⟩
      | none => ⟨none, s, []⟩) := by
  induction table with
  | nil => exact .pure none s
  | cons entry table ih =>
      obtain ⟨w, b⟩ := entry
      cases h : w.isPrefixOf s with
      | true =>
          obtain ⟨v, rfl⟩ := List.isPrefixOf_iff_prefix.mp h
          simp only [List.find?_cons, h, List.drop_left]
          refine (reads_tryConsume_next text v w).silently ?_
          exact .pure (some b) v
      | false =>
          simp only [List.find?_cons, h]
          exact (reads_tryConsume_other text h).silently ih

theorem reads_textSince (front : List Char) (h : front ++ s <:+ text) :
    Reads text (textSince (.ofRest text (front ++ s))) s ⟨front, s, []⟩ := by
  refine (reads_place text s).silently ?_
  have hplace := ofRest_append_append h
  have hearlier : (Position.ofRest text (front ++ s)).consumed.isPrefixOf
      (Position.ofRest text s).consumed = true := by
    rw [hplace]
    exact List.isPrefixOf_iff_prefix.mpr (List.prefix_append _ front)
  have hsince : (Position.ofRest text s).textFrom (.ofRest text (front ++ s)) = front := by
    rw [hplace, Position.textFrom, List.drop_left]
  rw [if_pos hearlier, hsince]
  exact .pure front s

theorem reads_sliceTo {n : Nat} {front back : List Char}
    (h : Position.splitBytes? n s = some (front, back)) :
    Reads text (sliceTo n) s ⟨front, s, []⟩ := by
  refine (reads_remaining text s).silently ?_
  rw [h]
  exact .pure front s

theorem reads_sliceFrom {n : Nat} {front back : List Char}
    (h : Position.splitBytes? n s = some (front, back)) :
    Reads text (sliceFrom n) s ⟨back, s, []⟩ := by
  refine (reads_remaining text s).silently ?_
  rw [h]
  exact .pure back s

theorem reads_difference {a b : Nat} (h : b ≤ a) :
    Reads text (difference a b) s ⟨a - b, s, []⟩ := by
  rw [difference, if_pos h]
  exact .pure _ s

theorem reads_sum {a b : Nat} (h : a + b < UInt32.size) :
    Reads text (Run.sum a b) s ⟨a + b, s, []⟩ := by
  rw [Run.sum, if_pos h]
  exact .pure _ s

theorem performs_level (step : Nesting.Step) (e : Bool) :
    Performs text (level step) e s () (.ofSteps [step] s) e where
  suffix := List.suffix_rfl
  run _ found n := by
    have hrun (m : State) : level step m = nestAs (levelStep m.nesting step) m := rfl
    rw [hrun]
    simp only [levels, Reading.ofSteps, List.foldlM_cons, List.foldlM_nil, List.map_nil,
      List.append_nil]
    cases levelStep n step <;> rfl

theorem performs_groupOpen (e : Bool) :
    Performs text groupOpen e s e (.ofSteps [] s) e where
  suffix := List.suffix_rfl
  run _ found n := by
    rw [Reading.ofSteps_notices, List.map_nil, List.append_nil]
    rfl

theorem performs_setGroupOpen (e e' : Bool) :
    Performs text (setGroupOpen e') e s () (.ofSteps [] s) e' where
  suffix := List.suffix_rfl
  run _ found n := by
    rw [Reading.ofSteps_notices, List.map_nil, List.append_nil]
    rfl

end Moves

end NamedCaptures.InPlace
