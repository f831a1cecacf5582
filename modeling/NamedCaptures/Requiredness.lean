/-!
# Requiredness

Whether a named group takes part in every match.
-/

namespace NamedCaptures

/-- Whether a named group is bound by every match of its pattern. -/
inductive Requiredness where
  /-- Every match binds the group. -/
  | required
  /-- A match may leave the group unbound. -/
  | optional
  deriving DecidableEq, Repr, Inhabited

/-- Whether every match binds the group. -/
def Requiredness.isRequired (r : Requiredness) : Bool :=
  r == .required

end NamedCaptures
