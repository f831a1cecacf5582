import Mathlib.Data.List.MinMax
import NamedCaptures.Proofs.Requiredness.TreeGroups

/-!
# The captures of a derivation tree

A capture is one named group of a pattern, with what encloses it and the place where it closes.
The main statement is `groups_of_last_captures`: the names of a well-formed pattern are those of
its captures, and the requiredness of a name is that of its last capture to close, which is
optional exactly when something on the way up to the whole pattern allows it to be absent.

## Implementation notes

The captures of a tree come in the order in which they close, so a group comes behind the captures
inside it. Inserting them in that order into a map gives the groups of the tree.
-/

namespace NamedCaptures.Grammar

open Pattern Groups

/-- What may enclose a named group. -/
inductive Enclosure where
  | pattern (hasBar : Bool)
  | lookaround (negative hasBar : Bool)
  | group (hasBar : Bool) (quantifier : Option Quantifier)
  deriving DecidableEq, Repr

namespace Enclosure

/-- Whether a bar stands directly on its level. -/
def hasBar : Enclosure → Bool
  | pattern b => b
  | lookaround _ b => b
  | group b _ => b

/-- The quantifier directly behind it. -/
def quantifier : Enclosure → Option Quantifier
  | group _ q => q
  | _ => none

/-- Whether it is a lookaround whose contents have to fail. -/
def negative : Enclosure → Bool
  | lookaround n _ => n
  | _ => false

end Enclosure

/-- One named group of a pattern. -/
structure Capture where
  /-- The decoded name. -/
  name : String
  /-- The number of characters before the closing parenthesis. -/
  closesAt : Nat
  /-- The quantifier directly behind the group. -/
  quantifier : Option Quantifier
  /-- What encloses the group, from the inside out. -/
  enclosing : List Enclosure
  deriving DecidableEq, Repr

/-- Whether a quantifier stands there and its least count is zero. -/
def LeastIsZero (q : Option Quantifier) : Prop :=
  ∃ r, q = some r ∧ r.least = 0

/-- The reasons for which the pattern can be matched without the capture: a bar on the level of
something around it, no repetition of it or of something around it, or a negative lookaround. -/
def Capture.MayBeAbsent (c : Capture) : Prop :=
  (∃ e ∈ c.enclosing, e.hasBar = true) ∨
    (LeastIsZero c.quantifier ∨ ∃ e ∈ c.enclosing, LeastIsZero e.quantifier) ∨
    ∃ e ∈ c.enclosing, e.negative = true

namespace Tree

/-- The captures of a tree that begins at an offset, inside what encloses it. -/
def captures : {p : Part} → Tree p → Nat → List Enclosure → List Capture
  | _, single a, i, es => a.captures i es
  | _, bar a d, i, es => a.captures i es ++ d.captures (i + a.text.length + 1) es
  | _, nil, _, _ => []
  | _, cons t a, i, es => t.captures i es ++ a.captures (i + t.text.length) es
  | _, anchor _, _, _ => []
  | _, lookaround k d, i, es =>
      d.captures (i + 1 + k.text.length) (.lookaround k.negative d.hasBar :: es)
  | _, leaf _ _ _, _, _ => []
  | _, group o d q, i, es =>
      let contents := i + 1 + o.text.length
      d.captures contents (.group d.hasBar q.quantifier :: es) ++
        o.name?.toList.map fun name => ⟨name, contents + d.text.length, q.quantifier, es⟩

/-- The captures of a whole pattern, in the order in which they close. -/
def patternCaptures (d : Tree .disjunction) : List Capture :=
  d.captures 0 [.pattern d.hasBar]

/-- The capture is the last one of its name to close. -/
def ClosesLast (d : Tree .disjunction) (c : Capture) : Prop :=
  c ∈ d.patternCaptures ∧
    ∀ other ∈ d.patternCaptures, other.name = c.name → other.closesAt ≤ c.closesAt

end Tree

/-- Whether the enclosure makes optional what is inside. -/
def Enclosure.loosens (e : Enclosure) : Bool :=
  e.hasBar || e.negative || e.quantifier.any Quantifier.allowsNone

/-- The requiredness of a capture by itself, whatever other captures have its name. -/
def Capture.requiredness (c : Capture) : Requiredness :=
  if c.quantifier.any Quantifier.allowsNone || c.enclosing.any Enclosure.loosens then .optional
  else .required

theorem any_allowsNone_iff (q : Option Quantifier) :
    q.any Quantifier.allowsNone = true ↔ LeastIsZero q := by
  cases q <;> simp [LeastIsZero, Quantifier.allowsNone]

theorem Capture.requiredness_eq_optional_iff (c : Capture) :
    c.requiredness = .optional ↔ c.MayBeAbsent := by
  have hiff : (c.quantifier.any Quantifier.allowsNone || c.enclosing.any Enclosure.loosens) = true ↔
      c.MayBeAbsent := by
    simp only [MayBeAbsent, Bool.or_eq_true, List.any_eq_true, Enclosure.loosens,
      any_allowsNone_iff]
    constructor
    · rintro (hq | ⟨e, he, (hb | hn) | hq⟩)
      · exact Or.inr (Or.inl (Or.inl hq))
      · exact Or.inl ⟨e, he, hb⟩
      · exact Or.inr (Or.inr ⟨e, he, hn⟩)
      · exact Or.inr (Or.inl (Or.inr ⟨e, he, hq⟩))
    · rintro (⟨e, he, hb⟩ | (hq | ⟨e, he, hq⟩) | ⟨e, he, hn⟩)
      · exact Or.inr ⟨e, he, Or.inl (Or.inl hb)⟩
      · exact Or.inl hq
      · exact Or.inr ⟨e, he, Or.inr hq⟩
      · exact Or.inr ⟨e, he, Or.inl (Or.inr hn)⟩
  rw [← hiff, requiredness]
  split
  · next h => exact iff_of_true rfl h
  · next h => exact iff_of_false (by decide) h

theorem Capture.requiredness_eq_required_iff (c : Capture) :
    c.requiredness = .required ↔ ¬ c.MayBeAbsent := by
  rw [← c.requiredness_eq_optional_iff]
  cases c.requiredness <;> simp

/-- The groups of captures; where two have a name, the later one decides. -/
def record : List Capture → Groups
  | [] => .empty
  | c :: cs => (Groups.empty.insert c.name c.requiredness).override (record cs)

theorem record_append (cs ds : List Capture) :
    record (cs ++ ds) = (record cs).override (record ds) := by
  induction cs with
  | nil => exact (empty_override _).symm
  | cons c cs ih =>
      rw [List.cons_append, record, ih, ← override_assoc]
      rfl

theorem isSome_get?_record (cs : List Capture) (name : String) :
    ((record cs).get? name).isSome = true ↔ ∃ c ∈ cs, c.name = name := by
  induction cs with
  | nil => simp [record]
  | cons c cs ih =>
      rw [record, get?_override, Option.isSome_or, Bool.or_eq_true, ih, List.exists_mem_cons_iff,
        or_comm]
      by_cases h : name = c.name <;> simp [h, Ne.symm]

/-- A name is looked up as the last capture that has it. -/
theorem get?_record_append {c : Capture} {later : List Capture}
    (h : ∀ other ∈ later, other.name ≠ c.name) (earlier : List Capture) :
    (record (earlier ++ c :: later)).get? c.name = some c.requiredness := by
  have hlater : (record later).get? c.name = none := by
    rw [← Option.not_isSome_iff_eq_none, isSome_get?_record]
    rintro ⟨other, hmem, hname⟩
    exact h other hmem hname
  rw [record_append, record, get?_override, get?_override, hlater]
  simp

/-- The group with that opener alone, if it has a name. -/
def Opener.entry (o : Opener) (r : Requiredness) : Groups :=
  match o.name? with
  | some name => Groups.empty.insert name r
  | none => .empty

theorem loosenIf_enter (b : Bool) (o : Opener) (m : Groups) :
    loosenIf b (o.enter m) =
      (loosenIf b m).override (o.entry (if b then .optional else .required)) := by
  cases h : o.name? with
  | none => simp [Opener.enter, Opener.entry, h]
  | some name =>
      apply ext_get?
      intro other
      by_cases hname : other = name <;> simp [Opener.enter, Opener.entry, h, hname]

/-- The groups of a tree are those of its captures, with all that encloses the tree. -/
theorem record_captures {p : Part} (t : Tree p) (i : Nat) (es : List Enclosure) :
    record (t.captures i es) = loosenIf (es.any Enclosure.loosens) t.groups := by
  induction t generalizing i es with
  | single a ih => exact ih i es
  | bar a d iha ihd =>
      rw [Tree.captures, record_append, iha, ihd, ← loosenIf_override]
      rfl
  | nil => exact (loosenIf_empty _).symm
  | cons t a iht iha =>
      rw [Tree.captures, record_append, iht, iha, ← loosenIf_override]
      rfl
  | anchor k => exact (loosenIf_empty _).symm
  | lookaround k d ih =>
      have hloosens : (Enclosure.lookaround k.negative d.hasBar).loosens =
          (k.negative || d.hasBar) := by
        simp [Enclosure.loosens, Enclosure.hasBar, Enclosure.negative, Enclosure.quantifier,
          Bool.or_comm]
      rw [Tree.captures, ih, Tree.groups, loosenIf_loosenIf, loosenIf_loosenIf, List.any_cons,
        hloosens, Bool.or_comm, Bool.or_assoc]
  | leaf s h q => exact (loosenIf_empty _).symm
  | group o d q ih =>
      have hloosens : (Enclosure.group d.hasBar q.quantifier).loosens =
          (d.hasBar || q.allowsNone) := by
        simp [Enclosure.loosens, Enclosure.hasBar, Enclosure.negative, Enclosure.quantifier,
          Repetition.allowsNone]
      have hinside : (d.hasBar || q.allowsNone || es.any Enclosure.loosens) =
          (es.any Enclosure.loosens || q.allowsNone || d.hasBar) := by
        ac_rfl
      rw [Tree.captures, record_append, ih, Tree.groups, loosenIf_loosenIf, loosenIf_enter,
        loosenIf_loosenIf, List.any_cons, hloosens, hinside]
      congr 1
      cases h : o.name? with
      | none => simp [Opener.entry, record, h]
      | some name =>
          simp [Opener.entry, record, h, Capture.requiredness, Repetition.allowsNone, or_comm]

theorem getElem?_add_length (s t : List Char) (k : Nat) : (s ++ t)[s.length + k]? = t[k]? := by
  rw [List.getElem?_append_right (Nat.le_add_right _ _), Nat.add_sub_cancel_left]

theorem getElem?_append_of_eq_some {s : List Char} {k : Nat} {c : Char} (h : s[k]? = some c)
    (t : List Char) : (s ++ t)[k]? = some c := by
  obtain ⟨hlt, -⟩ := List.getElem?_eq_some_iff.mp h
  rw [List.getElem?_append_left hlt, h]

/-- A capture closes at a closing parenthesis of the text of the tree. -/
theorem exists_closing {p : Part} (t : Tree p) {i : Nat} {es : List Enclosure} {c : Capture}
    (h : c ∈ t.captures i es) : ∃ k, c.closesAt = i + k ∧ t.text[k]? = some ')' := by
  induction t generalizing i es with
  | single a ih => exact ih h
  | bar a d iha ihd =>
      rcases List.mem_append.mp h with h | h
      · obtain ⟨k, hk, hchar⟩ := iha h
        exact ⟨k, hk, getElem?_append_of_eq_some hchar _⟩
      · obtain ⟨k, hk, hchar⟩ := ihd h
        refine ⟨a.text.length + (k + 1), by omega, ?_⟩
        rw [Tree.text, getElem?_add_length, List.getElem?_cons_succ, hchar]
  | nil => cases h
  | cons t a iht iha =>
      rcases List.mem_append.mp h with h | h
      · obtain ⟨k, hk, hchar⟩ := iht h
        exact ⟨k, hk, getElem?_append_of_eq_some hchar _⟩
      · obtain ⟨k, hk, hchar⟩ := iha h
        refine ⟨t.text.length + k, by omega, ?_⟩
        rw [Tree.text, getElem?_add_length, hchar]
  | anchor k => cases h
  | lookaround l d ih =>
      obtain ⟨k, hk, hchar⟩ := ih h
      refine ⟨l.text.length + k + 1, by omega, ?_⟩
      rw [Tree.text, List.getElem?_cons_succ, getElem?_add_length]
      exact getElem?_append_of_eq_some hchar _
  | leaf s hs q => cases h
  | group o d q ih =>
      rcases List.mem_append.mp h with h | h
      · obtain ⟨k, hk, hchar⟩ := ih h
        refine ⟨o.text.length + k + 1, by omega, ?_⟩
        rw [Tree.text, List.getElem?_cons_succ, getElem?_add_length]
        exact getElem?_append_of_eq_some hchar _
      · obtain ⟨name, -, rfl⟩ := List.mem_map.mp h
        refine ⟨o.text.length + (d.text.length + 0) + 1, by simp only; omega, ?_⟩
        rw [Tree.text, List.getElem?_cons_succ, getElem?_add_length, getElem?_add_length]
        rfl

/-- A capture closes inside the text of the tree. -/
theorem closesAt_bounds {p : Part} (t : Tree p) {i : Nat} {es : List Enclosure} {c : Capture}
    (h : c ∈ t.captures i es) : i ≤ c.closesAt ∧ c.closesAt < i + t.text.length := by
  obtain ⟨k, hk, hchar⟩ := exists_closing t h
  obtain ⟨hlt, -⟩ := List.getElem?_eq_some_iff.mp hchar
  omega

/-- The captures of a tree close one after the other. -/
theorem captures_pairwise {p : Part} (t : Tree p) (i : Nat) (es : List Enclosure) :
    (t.captures i es).Pairwise (fun c d => c.closesAt < d.closesAt) := by
  induction t generalizing i es with
  | single a ih => exact ih i es
  | bar a d iha ihd =>
      apply List.pairwise_append.mpr
      refine ⟨iha _ _, ihd _ _, ?_⟩
      intro c hc e he
      have h₁ := closesAt_bounds a hc
      have h₂ := closesAt_bounds d he
      omega
  | nil => exact .nil
  | cons t a iht iha =>
      apply List.pairwise_append.mpr
      refine ⟨iht _ _, iha _ _, ?_⟩
      intro c hc e he
      have h₁ := closesAt_bounds t hc
      have h₂ := closesAt_bounds a he
      omega
  | anchor k => exact .nil
  | lookaround k d ih => exact ih _ _
  | leaf s h q => exact .nil
  | group o d q ih =>
      apply List.pairwise_append.mpr
      refine ⟨ih _ _, ?_, ?_⟩
      · cases o.name? with
        | none => exact .nil
        | some name => exact List.pairwise_singleton _ _
      · intro c hc e he
        have h₁ := closesAt_bounds d hc
        obtain ⟨name, -, rfl⟩ := List.mem_map.mp he
        exact h₁.2

theorem patternGroups_eq_record (d : Tree .disjunction) :
    d.patternGroups = record d.patternCaptures := by
  rw [Tree.patternCaptures, record_captures, Tree.patternGroups]
  simp [Enclosure.loosens, Enclosure.hasBar, Enclosure.negative, Enclosure.quantifier]

/-- The last capture of a name decides about it. -/
theorem get?_of_closesLast {d : Tree .disjunction} {c : Capture} (h : d.ClosesLast c) :
    d.patternGroups.get? c.name = some c.requiredness := by
  obtain ⟨hmem, hlast⟩ := h
  obtain ⟨earlier, later, heq⟩ := List.append_of_mem hmem
  have hpairwise := captures_pairwise d 0 [.pattern d.hasBar]
  have hlater : ∀ other ∈ later, other.name ≠ c.name := by
    intro other hother hname
    have hle := hlast other (by simp [heq, hother]) hname
    have hlt : c.closesAt < other.closesAt := by
      rw [← Tree.patternCaptures, heq] at hpairwise
      exact List.rel_of_pairwise_cons (List.pairwise_append.mp hpairwise).2.1 hother
    omega
  rw [patternGroups_eq_record, heq]
  exact get?_record_append hlater earlier

/-- Every name that a capture has is that of a last capture. -/
theorem exists_closesLast {d : Tree .disjunction} {c : Capture} (h : c ∈ d.patternCaptures) :
    ∃ last, d.ClosesLast last ∧ last.name = c.name := by
  let named := d.patternCaptures.filter (·.name == c.name)
  have hmem {e : Capture} : e ∈ named ↔ e ∈ d.patternCaptures ∧ e.name = c.name := by
    simp [named]
  cases hlast : named.argmax Capture.closesAt with
  | none =>
      rw [List.argmax_eq_none] at hlast
      have hc : c ∈ named := hmem.mpr ⟨h, rfl⟩
      rw [hlast] at hc
      cases hc
  | some last =>
      obtain ⟨hin, hname⟩ := hmem.mp (List.argmax_mem hlast)
      refine ⟨last, ⟨hin, ?_⟩, hname⟩
      intro other hother heq
      exact List.le_of_mem_argmax (hmem.mpr ⟨hother, heq.trans hname⟩) hlast

theorem mem_names_iff_exists_capture (d : Tree .disjunction) (name : String) :
    name ∈ d.patternGroups.names ↔ ∃ c ∈ d.patternCaptures, c.name = name := by
  rw [mem_names_iff, patternGroups_eq_record, isSome_get?_record]

/-- The outcome of a well-formed pattern by its captures: it has their names, and a name is
optional exactly if the last capture of that name may be absent. -/
theorem groups_of_last_captures {pattern : String} {groups : Groups}
    (h : analyze pattern = .success groups) :
    Derivable pattern.toList ∧ ∀ d : Tree .disjunction, d.text = pattern.toList →
      (∀ name, name ∈ groups.names ↔ ∃ c ∈ d.patternCaptures, c.name = name) ∧
      (∀ name ∈ groups.names, ∃ c, d.ClosesLast c ∧ c.name = name) ∧
      ∀ c, d.ClosesLast c →
        (groups.get? c.name = some .optional ↔ c.MayBeAbsent) ∧
        (groups.get? c.name = some .required ↔ ¬ c.MayBeAbsent) := by
  constructor
  · exact derivable_of_success h
  · intro d hd
    obtain rfl := eq_patternGroups_of_success h hd
    refine ⟨mem_names_iff_exists_capture d, ?_, ?_⟩
    · intro name hname
      obtain ⟨c, hc, rfl⟩ := (mem_names_iff_exists_capture d name).mp hname
      exact exists_closesLast hc
    · intro c hc
      rw [get?_of_closesLast hc, Option.some_inj, Option.some_inj]
      exact ⟨c.requiredness_eq_optional_iff, c.requiredness_eq_required_iff⟩

theorem groups_of_repeated_name :
    analyze "(?:(?<a>x)|(?<b>y))(?<a>z)" =
        .success ⟨[("a", .required), ("b", .optional)], by decide⟩ ∧
      ∀ d : Tree .disjunction, d.text = "(?:(?<a>x)|(?<b>y))(?<a>z)".toList →
        ∀ c, d.ClosesLast c → c.name = "a" → ¬ c.MayBeAbsent := by
  have h : analyze "(?:(?<a>x)|(?<b>y))(?<a>z)" =
      .success ⟨[("a", .required), ("b", .optional)], by decide⟩ := by decide +kernel
  constructor
  · exact h
  intro d hd c hc hname
  have hrequired := ((groups_of_last_captures h).2 d hd).2.2 c hc
  rw [hname] at hrequired
  exact hrequired.2.mp rfl

end NamedCaptures.Grammar
