import NamedCaptures.Walk
import NamedCaptures.Proofs.Positions.Tours

/-!
# Walks are tours

A walk remembers one place where a tour marks any number of them. The tour that makes the moves of a
walk is always where the walk is, and its latest mark is what the walk remembers (`Follows`). So
what holds of tours holds of walks: by byte offsets they come to the same places, and they never
leave their text. The main statement is `run_eq_tour`.
-/

namespace NamedCaptures.Walk

variable {w : Walk} {t : Tour Position} {move : Move} {moves : List Move}

/-- What a tour does for a move of a walk. -/
def Move.act : Move → Tour.Act
  | .advance => .move .advance
  | .advanceWhile accept => .move (.advanceWhile accept)
  | .advanceOver s => .move (.advanceOver s)
  | .advanceToEither a b => .move (.advanceToEither a b)
  | .remember => .mark
  | .goBack => .goBack 0

/-- The bytes that are looked for, if any are, are ASCII characters. -/
def Move.LooksForAscii : Move → Prop
  | .advanceToEither a b => a < 128 ∧ b < 128
  | _ => True

/-- The walk behind a move. A fault leaves it where it is. -/
def attempt (w : Walk) (move : Move) : Walk :=
  match w.step move with
  | .ok walk => walk
  | .error _ => w

/-- The walk behind several moves. -/
def run (w : Walk) (moves : List Move) : Walk :=
  moves.foldl attempt w

/-- The tour is where the walk is, and its latest mark is the place that the walk remembers. -/
structure Follows (t : Tour Position) (w : Walk) : Prop where
  place : t.place = w.place
  latest : t.marks.head? = some w.remembered

/-- A move forward leads both to the same place, or both stay. -/
theorem Follows.forward (h : Follows t w) {m : Position.Move} {r : Except Position.Fault Position}
    (hmove : w.place.move m = r.mapError .position) (hstep : w.step move = r.map w.moveTo) :
    Follows (t.act Position.move (.move m)) (w.attempt move) := by
  rw [Tour.act, h.place, hmove, attempt, hstep]
  cases r with
  | ok p => exact ⟨rfl, h.latest⟩
  | error f => exact h

theorem Follows.attempt (h : Follows t w) (hascii : move.LooksForAscii) :
    Follows (t.act Position.move move.act) (w.attempt move) := by
  cases move with
  | advance => exact h.forward (r := .ok w.place.advance) rfl rfl
  | advanceWhile accept => exact h.forward (r := .ok (w.place.advanceWhile accept)) rfl rfl
  | advanceOver s => exact h.forward (r := w.place.advanceOver s) rfl rfl
  | advanceToEither a b =>
      exact h.forward (r := w.place.advanceToEither a b) (if_pos hascii) rfl
  | remember => exact ⟨h.place, congrArg some h.place⟩
  | goBack =>
      have hmark : t.marks[0]? = some w.remembered := List.head?_eq_getElem?.symm.trans h.latest
      rw [Move.act, Tour.act, hmark]
      exact ⟨rfl, h.latest⟩

theorem Follows.run (h : Follows t w) (hascii : ∀ move ∈ moves, move.LooksForAscii) :
    Follows (t.run Position.move (moves.map Move.act)) (w.run moves) := by
  induction moves generalizing t w with
  | nil => exact h
  | cons move moves ih =>
      obtain ⟨hmove, hmoves⟩ := List.forall_mem_cons.mp hascii
      exact ih (h.attempt hmove) hmoves

/-- A walk through a text comes to where a tour by byte offsets comes that begins with a mark, and
both of its places are places of the text. -/
theorem run_eq_tour (text : List Char) (hascii : ∀ move ∈ moves, move.LooksForAscii) :
    let byBytes := Tour.run Offset.move ⟨.start text, []⟩ (.mark :: moves.map Move.act)
    let walk := (start text).run moves
    byBytes.place = .ofPosition walk.place ∧
      byBytes.marks.head? = some (.ofPosition walk.remembered) ∧
      walk.place.text = text ∧ walk.remembered.text = text := by
  intro byBytes walk
  have hstart : Follows ⟨.start text, [.start text]⟩ (start text) := ⟨rfl, rfl⟩
  obtain ⟨hplace, hlatest⟩ := hstart.run hascii
  have htour := (Tour.within_start text).run (.mark :: moves.map Move.act)
  have hmap := Tour.run_start text (.mark :: moves.map Move.act)
  refine ⟨?_, ?_, ?_, ?_⟩
  · rw [show byBytes = _ from hmap]
    exact congrArg Offset.ofPosition hplace
  · rw [show byBytes = _ from hmap, Tour.map, List.head?_map]
    exact congrArg (Option.map Offset.ofPosition) hlatest
  · exact hplace ▸ htour _ List.mem_cons_self
  · exact htour _ (List.mem_cons_of_mem _ (List.mem_of_head? hlatest))

end NamedCaptures.Walk
