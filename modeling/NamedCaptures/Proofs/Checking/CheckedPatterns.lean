import NamedCaptures.CheckedPattern
import NamedCaptures.Proofs.Flags.Letters
import NamedCaptures.Proofs.Grammar.TokenReading

/-!
# Checked patterns and the analysis

A pattern with flags is refused for its flags first, and else exactly where the analysis finds
problems. What is checked shows what the analysis found: its two lists of names split its groups in
two, and its text between slashes can be read in one way only, since no letter of a flag is a slash.
The main statement is `parse_agrees_with_analysis`.
-/

namespace NamedCaptures

namespace Groups

variable {m : Groups} {name : String} {r : Requiredness}

private theorem mem_iff_lookup {es : List (String × Requiredness)}
    (h : es.Pairwise (fun e f => e.1 < f.1)) : (name, r) ∈ es ↔ es.lookup name = some r := by
  induction es with
  | nil => simp
  | cons e es ih =>
      obtain ⟨hfirst, hrest⟩ := List.pairwise_cons.mp h
      rw [List.mem_cons, lookup_cons]
      by_cases hname : name = e.1
      · have hnot : (name, r) ∉ es := by
          intro hmem
          have hlt : e.1 < name := hfirst _ hmem
          exact String.lt_irrefl name (hname ▸ hlt)
        rw [if_pos hname, or_iff_left hnot, Option.some_inj, Prod.ext_iff]
        exact (and_iff_right hname).trans eq_comm
      · have hne : (name, r) ≠ e := fun heq => hname (congrArg Prod.fst heq)
        rw [if_neg hname, or_iff_right hne, ih hrest]

theorem mem_entries_iff : (name, r) ∈ m.entries ↔ m.get? name = some r :=
  mem_iff_lookup m.ascending

theorem mem_namesWith_iff : name ∈ m.namesWith r ↔ m.get? name = some r := by
  rw [namesWith, List.mem_map, ← mem_entries_iff]
  constructor
  · rintro ⟨⟨other, q⟩, hmem, rfl⟩
    obtain ⟨hentry, hq⟩ := List.mem_filter.mp hmem
    exact eq_of_beq hq ▸ hentry
  · intro hentry
    exact ⟨(name, r), List.mem_filter.mpr ⟨hentry, BEq.rfl⟩, rfl⟩

theorem namesWith_pairwise (m : Groups) (r : Requiredness) :
    (m.namesWith r).Pairwise (· < ·) := by
  rw [namesWith, List.pairwise_map]
  exact m.ascending.filter _

/-- A name of the map is either required or optional. -/
theorem mem_names_iff_get? :
    name ∈ m.names ↔ m.get? name = some .required ∨ m.get? name = some .optional := by
  rw [mem_names_iff]
  cases h : m.get? name with
  | none => simp
  | some q => cases q <;> simp

end Groups

namespace CheckedPattern

/-- The two lists of names split the groups of the pattern: each is in the order of code points,
and a name is in the list of its requiredness. -/
structure SplitsGroups (p : CheckedPattern) : Prop where
  requiredAscending : p.requiredNames.Pairwise fun a b => a.toList < b.toList
  optionalAscending : p.optionalNames.Pairwise fun a b => a.toList < b.toList
  disjoint : ∀ name ∈ p.requiredNames, name ∉ p.optionalNames
  together : ∀ name, name ∈ p.requiredNames ∨ name ∈ p.optionalNames ↔ name ∈ p.groups.names
  required : ∀ name, name ∈ p.requiredNames ↔ p.requiredness? name = some .required
  optional : ∀ name, name ∈ p.optionalNames ↔ p.requiredness? name = some .optional

theorem splitsGroups (p : CheckedPattern) : SplitsGroups p where
  requiredAscending := p.groups.namesWith_pairwise .required
  optionalAscending := p.groups.namesWith_pairwise .optional
  disjoint := by
    intro name hrequired hoptional
    rw [requiredNames, Groups.mem_namesWith_iff] at hrequired
    rw [optionalNames, Groups.mem_namesWith_iff, hrequired] at hoptional
    cases hoptional
  together := by
    intro name
    rw [requiredNames, optionalNames, Groups.mem_namesWith_iff, Groups.mem_namesWith_iff,
      Groups.mem_names_iff_get?]
  required := fun _ => Groups.mem_namesWith_iff
  optional := fun _ => Groups.mem_namesWith_iff

/-- What stands behind the last slash of a text. -/
def behindLastSlash (s : List Char) : List Char :=
  (s.reverse.takeWhile (· != '/')).reverse

theorem behindLastSlash_append (front : List Char) {back : List Char} (h : '/' ∉ back) :
    behindLastSlash (front ++ '/' :: back) = back := by
  have hback : ∀ c ∈ back.reverse, (c != '/') = true := by
    intro c hc
    apply bne_iff_ne.mpr
    rintro rfl
    exact h (List.mem_reverse.mp hc)
  rw [behindLastSlash, List.reverse_append, List.reverse_cons, List.append_assoc,
    List.singleton_append, Grammar.takeWhile_run hback (by decide), List.reverse_reverse]

theorem toList_display (p : CheckedPattern) :
    p.display.toList = '/' :: p.text.toList ++ '/' :: p.flags.text.toList := by
  simp [display]

/-- Where a pattern ends and its flags begin can be told, whatever slashes the pattern has. -/
theorem eq_of_display {p q : CheckedPattern} (h : p.display = q.display) :
    p.text = q.text ∧ p.flags = q.flags := by
  have hshown : '/' :: p.text.toList ++ '/' :: p.flags.text.toList =
      '/' :: q.text.toList ++ '/' :: q.flags.text.toList := by
    rw [← toList_display, ← toList_display, h]
  have hflags : p.flags.text.toList = q.flags.text.toList := by
    have hback := congrArg behindLastSlash hshown
    rwa [behindLastSlash_append _ (Flags.slash_not_mem_text _),
      behindLastSlash_append _ (Flags.slash_not_mem_text _)] at hback
  rw [hflags] at hshown
  have htext := List.cons.inj (List.append_cancel_right hshown)
  exact ⟨String.toList_inj.mp htext.2, Flags.text_inj (String.toList_inj.mp hflags)⟩

variable {text : String} {flags : Flags}

theorem ofFlags_of_success {groups : Groups} (h : analyze text = .success groups) :
    ofFlags text flags = .ok ⟨text, flags, groups, h⟩ := by
  unfold ofFlags
  split
  · next found hfound =>
      obtain rfl := Outcome.success.inj (hfound.symm.trans h)
      rfl
  · next problems hproblems =>
      rw [h] at hproblems
      cases hproblems

theorem ofFlags_of_failure {problems : List Problem} (h : analyze text = .failure problems) :
    ofFlags text flags = .error (.problems problems) := by
  unfold ofFlags
  split
  · next groups hgroups =>
      rw [h] at hgroups
      cases hgroups
  · next found hfound =>
      obtain rfl := Outcome.failure.inj (hfound.symm.trans h)
      rfl

/-- Every checked pattern is the result of checking its text. -/
theorem ofFlags_self (p : CheckedPattern) : ofFlags p.text p.flags = .ok p :=
  ofFlags_of_success p.analyzed

/-- How checking a text with flags follows from reading the flags and analyzing the text. -/
structure Agrees (text flags : String) : Prop where
  /-- Flags that are wrong decide, whatever the text is. -/
  wrongFlags : ∀ e, Flags.parse flags = .error e → parse text flags = .error (.flags e)
  /-- With flags that are right, the problems of the analysis decide. -/
  malformed : ∀ fs, Flags.parse flags = .ok fs → ∀ problems, analyze text = .failure problems →
    parse text flags = .error (.problems problems)
  /-- What is checked has the text, the flags, and the groups of the analysis. -/
  wellFormed : ∀ fs, Flags.parse flags = .ok fs → ∀ groups, analyze text = .success groups →
    ∃ p, parse text flags = .ok p ∧ p.text = text ∧ p.flags = fs ∧ p.groups = groups
  /-- Flags that have been read are taken as they are. -/
  read : ∀ fs, Flags.parse flags = .ok fs → ofFlags text fs = parse text flags
  /-- Without flags is with the empty text of flags. -/
  unflagged : ofText text = parse text ""

theorem parse_of_flags {letters : String} (h : Flags.parse letters = .ok flags) :
    parse text letters = ofFlags text flags := by
  rw [parse, h]

theorem agrees (text flags : String) : Agrees text flags where
  wrongFlags := by
    intro e he
    rw [parse, he]
  malformed := by
    intro fs hflags problems hproblems
    rw [parse_of_flags hflags, ofFlags_of_failure hproblems]
  wellFormed := by
    intro fs hflags groups hgroups
    exact ⟨⟨text, fs, groups, hgroups⟩,
      (parse_of_flags hflags).trans (ofFlags_of_success hgroups), rfl, rfl, rfl⟩
  read := fun _ hflags => (parse_of_flags hflags).symm
  unflagged := (parse_of_flags rfl).symm

/-- Checking a text with flags agrees with the analysis of the text, whatever the two are. All
checked patterns come about this way, their lists of names split their groups in two, and the text
that shows one tells its text and its flags. -/
theorem parse_agrees_with_analysis (text flags : String) :
    Agrees text flags ∧
      (∀ p : CheckedPattern, ofFlags p.text p.flags = .ok p ∧ SplitsGroups p) ∧
      ∀ p q : CheckedPattern, p.display = q.display → p.text = q.text ∧ p.flags = q.flags :=
  ⟨agrees text flags, fun p => ⟨p.ofFlags_self, p.splitsGroups⟩, fun _ _ => eq_of_display⟩

/-- Slashes in a pattern, and flags that are shown in their own order. -/
example : (parse "/(?<b>x)?|(?<a>y)/g" "yi").map display = .ok "//(?<b>x)?|(?<a>y)/g/iy" := by
  decide +kernel

end CheckedPattern

end NamedCaptures
