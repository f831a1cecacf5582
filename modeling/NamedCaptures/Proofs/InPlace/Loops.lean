import NamedCaptures.Proofs.InPlace.Procedures

/-!
# Loops in place

Some procedures of the analysis in place call themselves because they are loops. Here each of them
is shown to be a loop in so many words: turns one after the other, until one of them says that the
loop is done.
-/

namespace NamedCaptures.InPlace

open Run

variable {σ α : Type}

/-- What comes of a turn: the loop goes on, or it is done. -/
inductive Turn (σ α : Type) where
  | again (x : σ)
  | done (a : α)

/-- Makes turns until the loop is done. A turn is told how deep its calls may nest. -/
def loop (turn : Nat → σ → Run (Turn σ α)) : Nat → σ → Run α
  | 0, _ => cutOff
  | depth + 1, x => do
      match ← turn depth x with
      | .again x => loop turn depth x
      | .done a => return a

/-- The name after one more character, or when there is none. -/
def nameWith (name : Option (List Char)) :
    Pattern.NameChar → Turn (Option (List Char)) (Option (List Char))
  | .valid c => .again (name.map fun cs => cs ++ [c])
  | .invalid => .again none
  | .absent => .done name

/-- Reads one character of a name behind those that are given. -/
def nameTurn (_ : Nat) (name : Option (List Char)) :
    Run (Turn (Option (List Char)) (Option (List Char))) := do
  return nameWith name (← nameChar Identifier.isPart)

/-- Reads the members of a class up to an escape, and the escape, or up to its closing bracket. -/
def classTurn (_ : Nat) (_ : Unit) : Run (Turn Unit Unit) := do
  skipToEither 93 92
  match ← peek with
  | none =>
      report .unclosedClass
      return .done ()
  | some c =>
      if c = ']' then
        skipOne
        return .done ()
      else
        skipExact ['\\']
        classEscape
        return .again ()

/-- Reads a bar and the alternative behind it. -/
def barTurn (depth : Nat) (_ : Unit) : Run (Turn Unit Unit) := do
  if ← tryConsume ['|'] then
    level .bar
    alternative depth
    return .again ()
  else return .done ()

/-- Reads a term, or skips what is misplaced. -/
def termTurn (depth : Nat) (_ : Unit) : Run (Turn Unit Unit) := do
  if ← term depth (disjunction depth) then return .again ()
  else if ← nextSatisfies fun c => c == ']' || c == '}' then
    report .strayCloser
    skipOne
    return .again ()
  else if ← nextSatisfies Pattern.isQuantifierStart then
    report .nothingToRepeat
    let _ ← quantifier
    return .again ()
  else return .done ()

/-- Reads on behind a closing parenthesis that is left over. -/
def leftOverTurn (depth : Nat) (_ : Unit) : Run (Turn Unit Unit) := do
  if (← place).atEnd then return .done ()
  else
    report .strayCloser
    skipOne
    disjunction depth
    return .again ()

theorem nameTail_eq_loop (depth : Nat) (name : Option (List Char)) :
    nameTail depth name = loop nameTurn depth name := by
  induction depth generalizing name with
  | zero => rfl
  | succ depth ih =>
      rw [nameTail, loop, nameTurn, bind_assoc]
      apply bind_congr
      intro c
      cases c with
      | valid c =>
          rw [pure_bind]
          exact ih _
      | invalid =>
          rw [pure_bind]
          exact ih none
      | absent =>
          rw [pure_bind]
          rfl

theorem classMembers_eq_loop (depth : Nat) : classMembers depth = loop classTurn depth () := by
  induction depth with
  | zero => rfl
  | succ depth ih =>
      rw [classMembers, loop, classTurn]
      simp only [bind_assoc, ih]
      apply bind_congr
      intro _
      apply bind_congr
      intro next
      cases next with
      | none => simp
      | some c =>
          dsimp only
          split <;> simp

theorem moreAlternatives_eq_loop (depth : Nat) :
    moreAlternatives depth = loop barTurn depth () := by
  induction depth with
  | zero => rfl
  | succ depth ih =>
      rw [moreAlternatives, loop, barTurn]
      simp only [bind_assoc, ih]
      apply bind_congr
      intro found
      cases found <;> simp

theorem alternative_eq_loop (depth : Nat) : alternative depth = loop termTurn depth () := by
  induction depth with
  | zero => rfl
  | succ depth ih =>
      rw [alternative, loop, termTurn]
      simp only [bind_assoc, ih]
      apply bind_congr
      intro found
      cases found with
      | true => simp
      | false =>
          simp only [Bool.false_eq_true, if_false, bind_assoc]
          apply bind_congr
          intro closer
          cases closer with
          | true => simp
          | false =>
              simp only [Bool.false_eq_true, if_false, bind_assoc]
              apply bind_congr
              intro repeats
              cases repeats <;> simp

theorem leftOver_eq_loop (depth : Nat) : leftOver depth = loop leftOverTurn depth () := by
  induction depth with
  | zero => rfl
  | succ depth ih =>
      rw [leftOver, loop, leftOverTurn]
      simp only [bind_assoc, ih]
      apply bind_congr
      intro p
      split <;> simp

end NamedCaptures.InPlace
