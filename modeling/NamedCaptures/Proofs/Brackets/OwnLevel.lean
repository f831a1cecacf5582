import NamedCaptures.Proofs.Brackets.Alike
import NamedCaptures.Proofs.Readers.Stopping

/-!
# The bars of a level

A disjunction ends with the level that it is on, and what counts for the groups of the level is
whether a bar stands directly on it. A plain scan finds both without any grammar: it counts
parentheses, passes over classes, and lets a backslash take the next character along. The reader of
disjunctions agrees with the scan for every text. The main statement is `disjunction_extent`.
-/

namespace NamedCaptures.Brackets

open Pattern

/-- How far a level goes: whether a bar stands directly on it, and the text from its end on. -/
structure Extent where
  hasBar : Bool
  rest : List Char
  deriving DecidableEq, Repr

namespace Extent

/-- The extent with a bar before it, if the condition holds. -/
def behindBar (e : Extent) (b : Bool) : Extent :=
  ⟨b || e.hasBar, e.rest⟩

@[simp]
theorem behindBar_false (e : Extent) : e.behindBar false = e := rfl

theorem behindBar_behindBar (e : Extent) (a b : Bool) :
    (e.behindBar b).behindBar a = e.behindBar (a || b) := by
  simp [behindBar, Bool.or_assoc]

end Extent

/-- Scans up to the end of a level, which is a closing parenthesis or the end of the text, from a
place in so many inner groups and perhaps in a class. -/
def scanLevel (inClass : Bool) (opened : Nat) : List Char → Extent
  | '\\' :: _ :: s => scanLevel inClass opened s
  | c :: s =>
      if inClass then scanLevel (c != ']') opened s
      else if c = '[' then scanLevel true opened s
      else if c = '(' then scanLevel false (opened + 1) s
      else if c = ')' then
        if opened = 0 then ⟨false, c :: s⟩ else scanLevel false (opened - 1) s
      else if c = '|' then (scanLevel false opened s).behindBar (opened == 0)
      else scanLevel false opened s
  | [] => ⟨false, []⟩

/-- How far the level goes that begins with the text. -/
def extent (s : List Char) : Extent :=
  scanLevel false 0 s

section Scan

variable {inClass : Bool} {opened : Nat} {c : Char} {s t u : List Char}

theorem scanLevel_cons (h : c ≠ '\\') (inClass : Bool) (opened : Nat) (s : List Char) :
    scanLevel inClass opened (c :: s) =
      if inClass then scanLevel (c != ']') opened s
      else if c = '[' then scanLevel true opened s
      else if c = '(' then scanLevel false (opened + 1) s
      else if c = ')' then
        if opened = 0 then ⟨false, c :: s⟩ else scanLevel false (opened - 1) s
      else if c = '|' then (scanLevel false opened s).behindBar (opened == 0)
      else scanLevel false opened s := by
  rw [scanLevel]
  rintro d t ⟨⟩
  exact absurd rfl h

theorem scanLevel_inClass (h : c ≠ '\\') (opened : Nat) (s : List Char) :
    scanLevel true opened (c :: s) = scanLevel (c != ']') opened s := by
  rw [scanLevel_cons h, if_pos rfl]

/-- The scan heeds only characters that matter. -/
theorem Alike.scanLevel_eq (h : Alike s t) :
    ∀ inClass opened, scanLevel inClass opened s = scanLevel inClass opened t := by
  induction h with
  | refl s => exact fun _ _ => rfl
  | symm _ ih => exact fun inClass opened => (ih inClass opened).symm
  | trans _ _ ih ih' => exact fun inClass opened => (ih inClass opened).trans (ih' inClass opened)
  | @cons c h s =>
      intro inClass opened
      simp only [structureChars, List.mem_cons, List.not_mem_nil, or_false, not_or] at h
      obtain ⟨hescape, hopening, hclosing, hbegin, hend, hbar⟩ := h
      rw [scanLevel_cons hescape, bne_iff_ne.mpr hend]
      cases inClass <;> simp [hopening, hclosing, hbegin, hbar]
  | escape c s => exact fun _ _ => rfl

/-- A backslash with nothing behind it is passed over. -/
theorem scanLevel_backslash (inClass : Bool) (opened : Nat) :
    scanLevel inClass opened ['\\'] = scanLevel inClass opened [] := by
  cases inClass <;> rfl

end Scan

/-- Outside of classes, scanning the first text is scanning the second one, but for a bar of that
level that stands between them. -/
def Passes (s t : List Char) (b : Bool) : Prop :=
  ∀ opened, scanLevel false opened s = (scanLevel false opened t).behindBar (b && opened == 0)

namespace Passes

variable {s t u : List Char} {a b : Bool}

theorem of_eq (h : ∀ opened, scanLevel false opened s = scanLevel false opened t) :
    Passes s t false := by
  intro opened
  rw [h, Bool.false_and, Extent.behindBar_false]

theorem of_alike (h : Alike s t) : Passes s t false :=
  of_eq (h.scanLevel_eq false)

theorem refl (s : List Char) : Passes s s false :=
  of_alike (.refl s)

theorem trans (h : Passes s t a) (h' : Passes t u b) : Passes s u (a || b) := by
  intro opened
  rw [h, h', Extent.behindBar_behindBar, Bool.and_or_distrib_right]

theorem bar (s : List Char) : Passes ('|' :: s) s true := by
  intro opened
  rw [scanLevel_cons (by decide), Bool.true_and]
  rfl

/-- What stands between parentheses has no bar of the level around them. -/
theorem parenthesized (h : Passes s t b) (ht : t = [] ∨ ∃ v, t = ')' :: v) :
    Passes ('(' :: s) (closingParenthesis t).rest false := by
  refine of_eq fun opened => ?_
  have hinside : ((opened + 1 : Nat) == 0) = false := rfl
  have hopen : scanLevel false opened ('(' :: s) = scanLevel false (opened + 1) t := by
    rw [scanLevel_cons (by decide), ← Extent.behindBar_false (scanLevel false (opened + 1) t)]
    simpa [hinside] using h (opened + 1)
  rw [hopen]
  rcases ht with rfl | ⟨v, rfl⟩
  · rfl
  · rw [scanLevel_cons (by decide)]
    rfl

end Passes

theorem scanLevel_classMembers (opened : Nat) (s : List Char) :
    scanLevel true opened s = scanLevel false opened (classMembers s).rest := by
  fun_induction classMembers s with
  | case1 => rfl
  | case2 s => rw [scanLevel_inClass (by decide)]; rfl
  | case3 s escape members _ ih =>
      rw [← ih]
      cases s with
      | nil => exact scanLevel_backslash true opened
      | cons c s => exact (alike_classEscape c s).scanLevel_eq true opened
  | case4 c s hclose hescape ih =>
      rw [scanLevel_inClass hescape, bne_iff_ne.mpr hclose, ih]

theorem passes_characterClass (s : List Char) :
    Passes ('[' :: s) (characterClass s).rest false := by
  refine .of_eq fun opened => ?_
  have hcaret : Alike s (Lexeme.skipOptional '^' s) := alike_skipOptional (by decide) s
  rw [scanLevel_cons (by decide), characterClass, ← scanLevel_classMembers, ← hcaret.scanLevel_eq]
  rfl

theorem passes_atom {s : List Char} {l : Lexeme Unit} (h : Opening.of s = .atom l) :
    Passes s l.rest false := by
  rcases Opening.eq_of_atom h with ⟨c, t, rfl, hc, rfl⟩ | ⟨t, rfl, rfl⟩ | ⟨t, rfl, -, rfl⟩
  · exact .of_alike (alike_plain hc t)
  · exact passes_characterClass t
  · cases t with
    | nil => exact .of_eq (scanLevel_backslash false)
    | cons c t => exact .of_alike (alike_atomEscape c t)

theorem passes_lookaround (k : Grammar.Lookaround) {t : List Char} {b : Bool}
    (h : Passes t (disjunction t).rest b) :
    Passes ('(' :: (k.text ++ t)) (lookaround k.negative t).rest false := by
  have hinside := (Passes.of_alike (alike_lookaroundText k t)).trans h
  rw [lookaround_eq]
  exact hinside.parenthesized (disjunction_stops t)

theorem passes_group {t : List Char} {b : Bool}
    (h : Passes (groupOpening t).rest (disjunction (groupOpening t).rest).rest b) :
    Passes ('(' :: t) (group t).rest false := by
  have hinside := (Passes.of_alike (alike_groupOpening t)).trans h
  rw [group_eq]
  exact hinside.parenthesized (disjunction_stops (groupOpening t).rest)

/-- A bracket that closes no class is passed over, and so is what stands where nothing can be
repeated. -/
theorem passes_misplaced {s : List Char} {l : Lexeme Unit} (h : misplaced? s = some l) :
    Passes s l.rest false := by
  unfold misplaced? at h
  split at h
  · cases h
  · next c t =>
      split at h
      · next hc =>
          cases h
          refine .of_eq fun opened => ?_
          rcases hc with rfl | rfl
          · rw [scanLevel_cons (by decide)]
            rfl
          · rw [scanLevel_cons (by decide)]
            rfl
      · split at h
        · cases h
          exact .of_alike (alike_quantifier (c :: t))
        · cases h

theorem carried_passes :
    Carried (fun s r => Passes s r.rest (stopsAtBar s)) (fun s r => Passes s r.rest false)
      (fun s r => Passes s r.rest false) where
  bar s t ha ht hd := by
    rw [ht] at ha
    rw [stopsAtBar_of_bar ht]
    exact ha.trans ((Passes.bar t).trans hd)
  last s ha hne := by
    rw [stopsAtBar_of_last hne]
    exact ha
  more s r _ ht ha := ht.trans ha
  misplaced s l _ hl ha := (passes_misplaced hl).trans ha
  stop s _ _ := .refl s
  anchor s t h := by
    obtain ⟨k, rfl⟩ := Opening.eq_of_anchor h
    exact .of_alike (alike_anchor k t)
  atom s l h := (passes_atom h).trans (.of_alike (alike_quantifier l.rest))
  lookaround s negative t h hd := by
    obtain ⟨k, rfl, rfl⟩ := Opening.eq_of_lookaround h
    exact passes_lookaround k hd
  group s t h hd := by
    rw [Opening.eq_of_group h]
    exact (passes_group hd).trans (.of_alike (alike_quantifier (group t).rest))

/-- A disjunction is read to the end of its level, and it goes on behind a first alternative exactly
if a bar stands directly on the level. -/
theorem disjunction_extent (s : List Char) :
    extent s = ⟨stopsAtBar s, (disjunction s).rest⟩ := by
  have hpasses := carried_passes.disjunction s 0
  have hend : scanLevel false 0 (disjunction s).rest = ⟨false, (disjunction s).rest⟩ := by
    rcases disjunction_stops s with hrest | ⟨t, hrest⟩
    · rw [hrest]
      rfl
    · rw [hrest, scanLevel_cons (by decide)]
      rfl
  rw [extent, hpasses, hend]
  simp [Extent.behindBar]

end NamedCaptures.Brackets
