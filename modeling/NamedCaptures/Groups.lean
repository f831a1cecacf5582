import NamedCaptures.Requiredness

/-!
# Named groups

A finite map from group names to requiredness, held as its entries in strictly ascending order of
names, code point by code point. So each name occurs once, two maps are equal exactly when they
look up alike, and the order of the entries is the order in which they are shown.
-/

namespace NamedCaptures

/-- A map from group names to requiredness: entries in strictly ascending order of names. -/
@[ext]
structure Groups where
  entries : List (String × Requiredness)
  ascending : entries.Pairwise (fun e f => e.1 < f.1) := by simp
  deriving DecidableEq, Repr

namespace Groups

/-- The map of no groups. -/
def empty : Groups := ⟨[], .nil⟩

instance : Inhabited Groups := ⟨empty⟩

/-- The requiredness of a name, if the map has it. -/
def get? (m : Groups) (name : String) : Option Requiredness :=
  m.entries.lookup name

/-- The names, ascending. -/
def names (m : Groups) : List String :=
  m.entries.map (·.1)

/-- The names of one requiredness, ascending. -/
def namesWith (m : Groups) (r : Requiredness) : List String :=
  (m.entries.filter (·.2 == r)).map (·.1)

/-- Whether the map has no groups. -/
def isEmpty (m : Groups) : Bool :=
  m.entries.isEmpty

/-- Entries with one more, which replaces an entry of its name. -/
def insertEntry (name : String) (r : Requiredness) :
    List (String × Requiredness) → List (String × Requiredness)
  | [] => [(name, r)]
  | e :: es =>
      if name < e.1 then (name, r) :: e :: es
      else if e.1 < name then e :: insertEntry name r es
      else (name, r) :: es

theorem mem_insertEntry {name : String} {r : Requiredness} {f : String × Requiredness}
    {es : List (String × Requiredness)} (h : f ∈ insertEntry name r es) :
    f = (name, r) ∨ f ∈ es := by
  induction es with
  | nil => simpa [insertEntry] using h
  | cons e es ih =>
      rw [insertEntry] at h
      split at h
      · simpa using h
      · split at h
        · rcases List.mem_cons.mp h with h | h
          · exact Or.inr (h ▸ List.mem_cons_self)
          · exact (ih h).imp_right (List.mem_cons_of_mem _)
        · exact (List.mem_cons.mp h).imp_right (List.mem_cons_of_mem _)

theorem pairwise_insertEntry (name : String) (r : Requiredness)
    {es : List (String × Requiredness)} (h : es.Pairwise (fun e f => e.1 < f.1)) :
    (insertEntry name r es).Pairwise (fun e f => e.1 < f.1) := by
  induction es with
  | nil => simp [insertEntry]
  | cons e es ih =>
      have ⟨he, hes⟩ := List.pairwise_cons.mp h
      rw [insertEntry]
      split
      · next hlt =>
          refine List.pairwise_cons.mpr ⟨fun f hf => ?_, h⟩
          rcases List.mem_cons.mp hf with rfl | hf
          · exact hlt
          · exact String.lt_trans hlt (he f hf)
      · next hnlt =>
          split
          · next hgt =>
              refine List.pairwise_cons.mpr ⟨fun f hf => ?_, ih hes⟩
              rcases mem_insertEntry hf with rfl | hf
              · exact hgt
              · exact he f hf
          · next hngt =>
              have heq : name = e.1 :=
                String.le_antisymm (String.not_lt.mp hngt) (String.not_lt.mp hnlt)
              exact List.pairwise_cons.mpr ⟨fun f hf => heq ▸ he f hf, hes⟩

/-- The map with one more group, which replaces an earlier group of its name. -/
def insert (m : Groups) (name : String) (r : Requiredness) : Groups :=
  ⟨insertEntry name r m.entries, pairwise_insertEntry name r m.ascending⟩

/-- The entries of two ascending lists in one; where both have a name, the second decides. -/
def mergeEntries :
    List (String × Requiredness) → List (String × Requiredness) → List (String × Requiredness)
  | [], fs => fs
  | e :: es, [] => e :: es
  | e :: es, f :: fs =>
      if e.1 < f.1 then e :: mergeEntries es (f :: fs)
      else if f.1 < e.1 then f :: mergeEntries (e :: es) fs
      else f :: mergeEntries es fs
termination_by es fs => es.length + fs.length

theorem mem_mergeEntries {g : String × Requiredness} {es fs : List (String × Requiredness)}
    (h : g ∈ mergeEntries es fs) : g ∈ es ∨ g ∈ fs := by
  fun_induction mergeEntries es fs with
  | case1 fs => exact Or.inr h
  | case2 e es => exact Or.inl h
  | case3 e es f fs _ ih => grind
  | case4 e es f fs _ _ ih => grind
  | case5 e es f fs _ _ ih => grind

theorem pairwise_mergeEntries {es fs : List (String × Requiredness)}
    (he : es.Pairwise (fun e f => e.1 < f.1)) (hf : fs.Pairwise (fun e f => e.1 < f.1)) :
    (mergeEntries es fs).Pairwise (fun e f => e.1 < f.1) := by
  fun_induction mergeEntries es fs with
  | case1 fs => exact hf
  | case2 e es => exact he
  | case3 e es f fs hlt ih =>
      have ⟨he₁, he₂⟩ := List.pairwise_cons.mp he
      have ⟨hf₁, hf₂⟩ := List.pairwise_cons.mp hf
      refine List.pairwise_cons.mpr ⟨fun g hg => ?_, ih he₂ hf⟩
      rcases mem_mergeEntries hg with hg | hg
      · exact he₁ g hg
      · rcases List.mem_cons.mp hg with rfl | hg
        · exact hlt
        · exact String.lt_trans hlt (hf₁ g hg)
  | case4 e es f fs hnlt hgt ih =>
      have ⟨he₁, he₂⟩ := List.pairwise_cons.mp he
      have ⟨hf₁, hf₂⟩ := List.pairwise_cons.mp hf
      refine List.pairwise_cons.mpr ⟨fun g hg => ?_, ih he hf₂⟩
      rcases mem_mergeEntries hg with hg | hg
      · rcases List.mem_cons.mp hg with rfl | hg
        · exact hgt
        · exact String.lt_trans hgt (he₁ g hg)
      · exact hf₁ g hg
  | case5 e es f fs hnlt hngt ih =>
      have ⟨he₁, he₂⟩ := List.pairwise_cons.mp he
      have ⟨hf₁, hf₂⟩ := List.pairwise_cons.mp hf
      have heq : e.1 = f.1 :=
        String.le_antisymm (String.not_lt.mp hngt) (String.not_lt.mp hnlt)
      refine List.pairwise_cons.mpr ⟨fun g hg => ?_, ih he₂ hf₂⟩
      rcases mem_mergeEntries hg with hg | hg
      · exact heq ▸ he₁ g hg
      · exact hf₁ g hg

/-- The groups of both maps; where both have a name, the second decides. -/
def override (m n : Groups) : Groups :=
  ⟨mergeEntries m.entries n.entries, pairwise_mergeEntries m.ascending n.ascending⟩

/-- The same names, all optional. -/
def allOptional (m : Groups) : Groups :=
  ⟨m.entries.map (fun e => (e.1, .optional)), by simpa [List.pairwise_map] using m.ascending⟩

@[simp]
theorem get?_empty (name : String) : empty.get? name = none := rfl

theorem lookup_cons (name : String) (e : String × Requiredness)
    (es : List (String × Requiredness)) :
    (e :: es).lookup name = if name = e.1 then some e.2 else es.lookup name := by
  rw [List.lookup_cons]
  by_cases h : name = e.1
  · rw [if_pos h, beq_iff_eq.mpr h]
  · rw [if_neg h, beq_eq_false_iff_ne.mpr h]

private theorem lookup_insertEntry (name other : String) (r : Requiredness)
    {es : List (String × Requiredness)} (h : es.Pairwise (fun e f => e.1 < f.1)) :
    (insertEntry name r es).lookup other = if other = name then some r else es.lookup other := by
  induction es with
  | nil => rw [insertEntry, lookup_cons]
  | cons e es ih =>
      have ⟨he, hes⟩ := List.pairwise_cons.mp h
      rw [insertEntry]
      split
      · rw [lookup_cons]
      · next hnlt =>
          split
          · next hgt =>
              have hne : e.1 ≠ name := by
                rintro rfl
                exact hnlt (absurd hgt hnlt)
              rw [lookup_cons, ih hes, lookup_cons]
              by_cases hother : other = e.1
              · rw [if_pos hother, if_neg (hother ▸ hne), if_pos hother]
              · rw [if_neg hother, if_neg hother]
          · next hngt =>
              have heq : name = e.1 :=
                String.le_antisymm (String.not_lt.mp hngt) (String.not_lt.mp hnlt)
              rw [lookup_cons, lookup_cons, heq]
              split <;> rfl

@[simp]
theorem get?_insert (m : Groups) (name other : String) (r : Requiredness) :
    (m.insert name r).get? other = if other = name then some r else m.get? other :=
  lookup_insertEntry name other r m.ascending

/-- A name before all names of a list is not in it. -/
private theorem lookup_of_before {name : String} (es : List (String × Requiredness))
    (h : ∀ e ∈ es, name < e.1) : es.lookup name = none := by
  rw [List.lookup_eq_none_iff]
  intro e he
  have hlt := h e he
  have := String.lt_irrefl name
  grind

private theorem lookup_mergeEntries (name : String) {es fs : List (String × Requiredness)}
    (he : es.Pairwise (fun e f => e.1 < f.1)) (hf : fs.Pairwise (fun e f => e.1 < f.1)) :
    (mergeEntries es fs).lookup name = (fs.lookup name).or (es.lookup name) := by
  fun_induction mergeEntries es fs with
  | case1 fs => simp
  | case2 e es => simp
  | case3 e es f fs hlt ih =>
      have ⟨he₁, he₂⟩ := List.pairwise_cons.mp he
      have ⟨hf₁, hf₂⟩ := List.pairwise_cons.mp hf
      have hbefore : (f :: fs).lookup e.1 = none := lookup_of_before _ fun g hg => by
        rcases List.mem_cons.mp hg with rfl | hg
        · exact hlt
        · exact String.lt_trans hlt (hf₁ g hg)
      have ih := ih he₂ hf
      by_cases hname : name = e.1
      · subst hname
        rw [hbefore]
        simp [lookup_cons]
      · simp only [lookup_cons, if_neg hname] at ih ⊢
        exact ih
  | case4 e es f fs hnlt hgt ih =>
      have ih := ih he (List.pairwise_cons.mp hf).2
      by_cases hname : name = f.1
      · subst hname
        simp [lookup_cons]
      · simp only [lookup_cons, if_neg hname] at ih ⊢
        exact ih
  | case5 e es f fs hnlt hngt ih =>
      have heq : e.1 = f.1 :=
        String.le_antisymm (String.not_lt.mp hngt) (String.not_lt.mp hnlt)
      have ih := ih (List.pairwise_cons.mp he).2 (List.pairwise_cons.mp hf).2
      by_cases hname : name = f.1
      · subst hname
        simp [lookup_cons]
      · simp only [lookup_cons, heq, if_neg hname] at ih ⊢
        exact ih

@[simp]
theorem get?_override (m n : Groups) (name : String) :
    (m.override n).get? name = (n.get? name).or (m.get? name) :=
  lookup_mergeEntries name m.ascending n.ascending

@[simp]
theorem get?_allOptional (m : Groups) (name : String) :
    m.allOptional.get? name = (m.get? name).map (fun _ => .optional) := by
  simp only [get?, allOptional]
  induction m.entries with
  | nil => rfl
  | cons e es ih =>
      rw [List.map_cons, lookup_cons, lookup_cons, ih]
      split <;> rfl

/-- A name is in the map exactly when it looks up to something. -/
theorem mem_names_iff (m : Groups) (name : String) :
    name ∈ m.names ↔ (m.get? name).isSome = true := by
  simp only [names, get?]
  induction m.entries with
  | nil => simp
  | cons e es ih =>
      rw [List.map_cons, List.mem_cons, ih, lookup_cons]
      split <;> simp_all

/-- The names of a map are strictly ascending. -/
theorem names_pairwise (m : Groups) : m.names.Pairwise (· < ·) := by
  simpa [names, List.pairwise_map] using m.ascending

private theorem entries_eq_of_lookup {es fs : List (String × Requiredness)}
    (he : es.Pairwise (fun e f => e.1 < f.1)) (hf : fs.Pairwise (fun e f => e.1 < f.1))
    (h : ∀ name, es.lookup name = fs.lookup name) : es = fs := by
  induction es generalizing fs with
  | nil =>
      cases fs with
      | nil => rfl
      | cons f fs => simpa [lookup_cons] using h f.1
  | cons e es ih =>
      cases fs with
      | nil => simpa [lookup_cons] using h e.1
      | cons f fs =>
          have ⟨he₁, he₂⟩ := List.pairwise_cons.mp he
          have ⟨hf₁, hf₂⟩ := List.pairwise_cons.mp hf
          have irrefl := String.lt_irrefl
          have trans := @String.lt_trans
          have hkey : e.1 = f.1 := by
            refine String.le_antisymm (String.not_lt.mp fun hlt => ?_)
              (String.not_lt.mp fun hlt => ?_)
            · have h₁ := h f.1
              have : f.1 ≠ e.1 := by grind
              rw [lookup_of_before (e :: es) (by grind)] at h₁
              simp [lookup_cons] at h₁
            · have h₁ := h e.1
              rw [lookup_of_before (f :: fs) (by grind)] at h₁
              simp [lookup_cons] at h₁
          have hvalue : e.2 = f.2 := by
            have h₁ := h e.1
            simpa [lookup_cons, hkey] using h₁
          have htail : es = fs := by
            refine ih he₂ hf₂ fun name => ?_
            by_cases hname : name = e.1
            · subst hname
              rw [lookup_of_before es he₁, lookup_of_before fs (hkey ▸ hf₁)]
            · have h₁ := h name
              simpa [lookup_cons, hname, ← hkey] using h₁
          rw [htail, Prod.ext hkey hvalue]

/-- Maps that look up alike are equal. -/
theorem ext_get? {m n : Groups} (h : ∀ name, m.get? name = n.get? name) : m = n :=
  Groups.ext (entries_eq_of_lookup m.ascending n.ascending h)

end Groups

end NamedCaptures
