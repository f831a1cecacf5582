import NamedCaptures.Proofs.Readers.Order

/-!
# Problems split the pattern, from front to back

Every problem is a split of the pattern in two, and the problems come in the order of the places
where they split it. This follows from the order of notices (`read_inOrder`): a notice keeps what
remained of the text, and the less remains, the longer is the text before. The main statement is
`problems_split_in_order`.
-/

namespace NamedCaptures

open Pattern

/-- The text before a place is a prefix of the text before any later place. -/
theorem consumed_prefix_of_suffix {text s t : List Char} (hs : s <:+ text) (ht : t <:+ s) :
    (Position.ofRest text s).consumed <+: (Position.ofRest text t).consumed := by
  obtain ⟨between, rfl⟩ := ht
  obtain ⟨before, rfl⟩ := hs
  have hlater := Position.ofRest_append (before ++ between) t
  rw [List.append_assoc] at hlater
  rw [Position.ofRest_append, hlater]
  exact List.prefix_append before between

/-- A problem at a place in a text splits the text there. -/
theorem locate_split {text : List Char} {n : Notice} (h : n.rest <:+ text) :
    (n.locate text).consumed ++ (n.locate text).remaining = String.ofList text := by
  have hsplit := congrArg String.ofList (Position.text_ofRest h)
  rwa [Position.text, String.ofList_append] at hsplit

/-- What is before one problem is a prefix of what is before another, so the second one is not in a
column further left. -/
structure Problem.NotAfter (p q : Problem) : Prop where
  consumed_le : p.consumed.toList <+: q.consumed.toList
  length_le : p.consumed.length ≤ q.consumed.length
  column_le : p.column ≤ q.column

theorem locate_notAfter {text : List Char} {n m : Notice} (hn : n.rest <:+ text)
    (hm : m.rest <:+ n.rest) : (n.locate text).NotAfter (m.locate text) := by
  have hconsumed : (n.locate text).consumed.toList <+: (m.locate text).consumed.toList := by
    simpa only [Notice.locate, Problem.at, String.toList_ofList] using
      consumed_prefix_of_suffix hn hm
  have hlength : (n.locate text).consumed.length ≤ (m.locate text).consumed.length := by
    simpa only [String.length_toList] using hconsumed.length_le
  exact ⟨hconsumed, hlength, Nat.succ_le_succ hlength⟩

/-- Every problem of a pattern, well formed or not, splits the pattern, and the problems come from
front to back. That holds also of the kinds that are noted at a place behind which the reader has
already gone on. -/
theorem problems_split_in_order (pattern : String) :
    (∀ p ∈ (analyze pattern).problems, p.consumed ++ p.remaining = pattern) ∧
      (analyze pattern).problems.Pairwise Problem.NotAfter := by
  have horder := read_inOrder pattern.toList
  rw [problems_analyze]
  constructor
  · intro p hp
    obtain ⟨n, hn, rfl⟩ := List.mem_map.mp hp
    rw [locate_split (horder.within n hn).1, String.ofList_toList]
  · rw [List.pairwise_map]
    refine horder.ordered.imp_of_mem ?_
    intro n m hn _ hle
    exact locate_notAfter (horder.within n hn).1 hle

end NamedCaptures
