import NamedCaptures.Groups

/-!
# Laws of overriding and loosening

Maps of named groups under overriding are a monoid with the empty map as its unit, and making all
groups optional distributes over overriding. All laws follow from looking up.
-/

namespace NamedCaptures.Groups

@[simp]
theorem empty_override (m : Groups) : empty.override m = m := by
  apply ext_get?
  intro name
  simp

@[simp]
theorem override_empty (m : Groups) : m.override empty = m := by
  apply ext_get?
  intro name
  simp

theorem override_assoc (m n k : Groups) :
    (m.override n).override k = m.override (n.override k) := by
  apply ext_get?
  intro name
  simp [Option.or_assoc]

theorem allOptional_override (m n : Groups) :
    (m.override n).allOptional = m.allOptional.override n.allOptional := by
  apply ext_get?
  intro name
  simp [Option.map_or]

@[simp]
theorem allOptional_allOptional (m : Groups) : m.allOptional.allOptional = m.allOptional := by
  apply ext_get?
  intro name
  simp [Function.comp_def]

/-- The map with all groups optional under a condition. -/
def loosenIf (b : Bool) (m : Groups) : Groups :=
  if b then m.allOptional else m

theorem loosenIf_loosenIf (a b : Bool) (m : Groups) :
    loosenIf a (loosenIf b m) = loosenIf (a || b) m := by
  cases a <;> cases b <;> simp [loosenIf]

theorem loosenIf_override (b : Bool) (m n : Groups) :
    loosenIf b (m.override n) = (loosenIf b m).override (loosenIf b n) := by
  cases b <;> simp [loosenIf, allOptional_override]

@[simp]
theorem loosenIf_empty (b : Bool) : loosenIf b empty = empty := by
  cases b <;> rfl

@[simp]
theorem get?_loosenIf (b : Bool) (m : Groups) (name : String) :
    (loosenIf b m).get? name = (m.get? name).map fun r => if b then .optional else r := by
  cases b <;> simp [loosenIf]

theorem get?_loosenIf_eq_required_iff {b : Bool} {m : Groups} {name : String} :
    (loosenIf b m).get? name = some .required ↔ b = false ∧ m.get? name = some .required := by
  cases b <;> simp

theorem get?_loosenIf_eq_optional_iff {b : Bool} {m : Groups} {name : String} :
    (loosenIf b m).get? name = some .optional ↔
      (b = true ∧ (m.get? name).isSome = true) ∨ m.get? name = some .optional := by
  rw [get?_loosenIf]
  cases b <;> cases m.get? name <;> simp

variable {m n : Groups} {name : String}

theorem mem_names_insert {own : String} {r : Requiredness} :
    name ∈ (m.insert own r).names ↔ name = own ∨ name ∈ m.names := by
  rw [mem_names_iff, mem_names_iff, get?_insert]
  by_cases h : name = own <;> simp [h]

theorem mem_names_override : name ∈ (m.override n).names ↔ name ∈ m.names ∨ name ∈ n.names := by
  simp only [mem_names_iff, get?_override, Option.isSome_or, Bool.or_eq_true]
  exact Or.comm

theorem mem_names_loosenIf {b : Bool} : name ∈ (loosenIf b m).names ↔ name ∈ m.names := by
  rw [mem_names_iff, mem_names_iff, get?_loosenIf, Option.isSome_map]

end NamedCaptures.Groups
