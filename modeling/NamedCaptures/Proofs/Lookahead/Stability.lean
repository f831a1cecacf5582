import NamedCaptures.Proofs.Readers.Order

/-!
# Reading a text and reading it with more text behind

Two readings are compared: one of a text, and one of the same text with more text behind it. They
are alike (`extend`) as long as the reader never comes near the end of the first text. If it does,
what it has noted well before the end is still noted first by both (`Late`), and what either notes
after that is left open. `Stable` is the one or the other, and readings in a row keep it.

## Implementation notes

Near the end means closer than `window` characters, which is what the longest decision looks at: an
escape in a group name that may be half of a surrogate pair, `\uHHHH\uHHHH`. A text that is shorter
than that needs no argument about what the reader does with it (`Late.of_short`), so for each
reader only the runs of unbounded length remain to be looked at.
-/

namespace NamedCaptures

/-- The same notice in a text with more text behind. -/
def Notice.extend (t : List Char) (n : Notice) : Notice :=
  ⟨n.kind, n.rest ++ t⟩

/-- The same lexeme in a text with more text behind. -/
def Lexeme.extend {α : Type} (t : List Char) (l : Lexeme α) : Lexeme α :=
  ⟨l.value, l.rest ++ t, l.notices.map (·.extend t)⟩

/-- The same reading of a text with more text behind. -/
def Reading.extend (t : List Char) (r : Reading) : Reading :=
  ⟨r.rest ++ t, r.notices.map (·.extend t), r.steps⟩

theorem Reading.extend_andThen (t : List Char) (r q : Reading) :
    (r.andThen q).extend t = (r.extend t).andThen (q.extend t) := by
  simp [extend, andThen]

namespace Lookahead

open Pattern

/-- The number of characters that decide whether something is wrong at a place. -/
def window : Nat := 12

theorem nil_near : ([] : List Char).length < window := by decide

variable {s t rest : List Char} {ns ms : List Notice}

/-- Both begin with the same notices; the others of the first text are near its end. -/
def Begins (t : List Char) (ns ms : List Notice) : Prop :=
  ∃ early late others, ns = early ++ late ∧ ms = early.map (·.extend t) ++ others ∧
    ∀ n ∈ late, n.rest.length < window

theorem Begins.of_eq (ns : List Notice) : Begins t ns (ns.map (·.extend t)) :=
  ⟨ns, [], [], by simp, by simp, by rintro n ⟨⟩⟩

theorem Begins.of_near (h : ∀ n ∈ ns, n.rest.length < window) (ms : List Notice) :
    Begins t ns ms :=
  ⟨[], ns, ms, rfl, rfl, h⟩

theorem Begins.prepend (h : Begins t ns ms) (first : List Notice) :
    Begins t (first ++ ns) (first.map (·.extend t) ++ ms) := by
  obtain ⟨early, late, others, rfl, rfl, hlate⟩ := h
  exact ⟨first ++ early, late, others, by simp, by simp, hlate⟩

theorem Begins.append (h : Begins t ns ms) {late : List Notice}
    (hlate : ∀ n ∈ late, n.rest.length < window) (others : List Notice) :
    Begins t (ns ++ late) (ms ++ others) := by
  obtain ⟨early, late', others', rfl, rfl, hlate'⟩ := h
  refine ⟨early, late' ++ late, others' ++ others, by simp, by simp, ?_⟩
  intro n hn
  exact (List.mem_append.mp hn).elim (hlate' n) (hlate n)

/-- Reading has come near the end of the first text, and up to there both note the same. -/
structure Late (t rest : List Char) (ns ms : List Notice) : Prop where
  near : rest.length < window
  begins : Begins t ns ms

namespace Late

/-- Whatever is read of a short text is read near its end. -/
theorem of_short (h : s.length < window) (ho : InOrder s rest ns) (ms : List Notice) :
    Late t rest ns ms where
  near := Nat.lt_of_le_of_lt ho.suffix.length_le h
  begins := by
    apply Begins.of_near
    intro n hn
    exact Nat.lt_of_le_of_lt (ho.within n hn).1.length_le h

/-- At the end of the text, where nothing but that end is noted. -/
theorem of_end {kind : Problem.Kind} (ms : List Notice) : Late t [] [⟨kind, []⟩] ms where
  near := nil_near
  begins := by
    apply Begins.of_near
    intro n hn
    rw [List.mem_singleton.mp hn]
    exact nil_near

theorem of_eq (h : rest.length < window) (ns : List Notice) :
    Late t rest ns (ns.map (·.extend t)) :=
  ⟨h, Begins.of_eq ns⟩

/-- Going on from near the end, whatever is read of the second text. -/
theorem append (h : Late t rest ns ms) {rest' : List Char} {more : List Notice}
    (ho : InOrder rest rest' more) (others : List Notice) :
    Late t rest' (ns ++ more) (ms ++ others) where
  near := Nat.lt_of_le_of_lt ho.suffix.length_le h.near
  begins := by
    refine h.begins.append ?_ others
    intro n hn
    exact Nat.lt_of_le_of_lt (ho.within n hn).1.length_le h.near

theorem others (h : Late t rest ns ms) (others : List Notice) : Late t rest ns (ms ++ others) := by
  have happend := h.append (.nil List.suffix_rfl) others
  rwa [List.append_nil] at happend

theorem prepend (h : Late t rest ns ms) (first : List Notice) :
    Late t rest (first ++ ns) (first.map (·.extend t) ++ ms) :=
  ⟨h.near, h.begins.prepend first⟩

end Late

/-- The lexeme of a text and that of the text with more behind are alike up to near the end. -/
def StableLexeme {α : Type} (t : List Char) (l l' : Lexeme α) : Prop :=
  l' = l.extend t ∨ Late t l.rest l.notices l'.notices

/-- The reading of a text and that of the text with more behind are alike up to near the end. -/
def Stable (t : List Char) (r r' : Reading) : Prop :=
  r' = r.extend t ∨ Late t r.rest r.notices r'.notices

theorem StableLexeme.of_short {α : Type} {l : Lexeme α} (h : s.length < window)
    (ho : InOrder s l.rest l.notices) (l' : Lexeme α) : StableLexeme t l l' :=
  Or.inr (.of_short h ho _)

/-- What becomes of the value does not matter for what is read. -/
theorem StableLexeme.map {α β : Type} {l l' : Lexeme α} (h : StableLexeme t l l') (f : α → β) :
    StableLexeme t ⟨f l.value, l.rest, l.notices⟩ ⟨f l'.value, l'.rest, l'.notices⟩ := by
  rcases h with rfl | h
  · exact Or.inl rfl
  · exact Or.inr h

theorem StableLexeme.discard {α : Type} {l l' : Lexeme α} (h : StableLexeme t l l') :
    StableLexeme t l.discard l'.discard :=
  h.map fun _ => ()

/-- Two lexemes in a row: the second one has to be stable only if the first ones are alike. -/
theorem StableLexeme.andThen {α β γ : Type} {l l' : Lexeme α} {k k' : Lexeme β}
    (h : StableLexeme t l l') (f : α → β → γ) (ho : InOrder l.rest k.rest k.notices)
    (hk : l' = l.extend t → StableLexeme t k k') :
    StableLexeme t ⟨f l.value k.value, k.rest, l.notices ++ k.notices⟩
      ⟨f l'.value k'.value, k'.rest, l'.notices ++ k'.notices⟩ := by
  rcases h with h | h
  · rcases hk h with hk | hk
    · refine Or.inl ?_
      simp [h, hk, Lexeme.extend]
    · rw [h]
      exact Or.inr (hk.prepend l.notices)
  · exact Or.inr (h.append ho _)

theorem StableLexeme.ofLexeme {α : Type} {l l' : Lexeme α} (h : StableLexeme t l l') :
    Stable t (.ofLexeme l) (.ofLexeme l') := by
  rcases h with rfl | h
  · exact Or.inl rfl
  · exact Or.inr h

namespace Stable

variable {r r' q q' : Reading}

theorem of_short (h : s.length < window) (ho : InOrder s r.rest r.notices) (r' : Reading) :
    Stable t r r' :=
  Or.inr (.of_short h ho _)

theorem ofSteps (steps : List Nesting.Step) (s : List Char) :
    Stable t (Reading.ofSteps steps s) (Reading.ofSteps steps (s ++ t)) :=
  Or.inl rfl

/-- If all of the first text is read, the notices are what both have in common. -/
theorem late (h : Stable t r r') (hnear : r.rest.length < window) :
    Late t r.rest r.notices r'.notices := by
  rcases h with rfl | h
  · exact .of_eq hnear r.notices
  · exact h

/-- Two readings in a row: the second one has to be stable only if the first ones are alike. -/
theorem andThen (h : Stable t r r') (ho : InOrder r.rest q.rest q.notices)
    (hq : r' = r.extend t → Stable t q q') : Stable t (r.andThen q) (r'.andThen q') := by
  rcases h with h | h
  · rcases hq h with hq | hq
    · exact Or.inl (by rw [h, hq, Reading.extend_andThen])
    · rw [h]
      exact Or.inr (hq.prepend r.notices)
  · exact Or.inr (h.append ho _)

/-- A reading and what a reader makes of the text that it left. -/
theorem thenRead (h : Stable t r r') {f : List Char → Reading}
    (ho : InOrder r.rest (f r.rest).rest (f r.rest).notices)
    (hf : Stable t (f r.rest) (f (r.rest ++ t))) :
    Stable t (r.andThen (f r.rest)) (r'.andThen (f r'.rest)) := by
  apply h.andThen ho
  intro heq
  rw [heq]
  exact hf

end Stable

end Lookahead

end NamedCaptures
