import NamedCaptures.Memo
import Mathlib.Data.Finset.Card
import Mathlib.Data.List.Induction

/-!
# What a memo answers

A memo is asked for outcomes of patterns and told to forget, in any order. Its answers are those of
the analysis, as if it remembered nothing, and its size is the number of different patterns that it
was asked for since it was last told to forget. The main statement is `replies_as_analyzed`.
-/

namespace NamedCaptures.Memo

/-- What a memo is asked to do. -/
inductive Request where
  /-- It gives the outcome of a pattern. -/
  | analyze (pattern : String)
  /-- It forgets everything. -/
  | clear
  deriving DecidableEq, Repr

/-- The pattern whose outcome is asked for. -/
def Request.pattern? : Request → Option String
  | analyze pattern => some pattern
  | clear => none

/-- What can be seen behind a request. -/
structure Reply where
  outcome : Option Outcome
  size : Nat
  isEmpty : Bool
  deriving DecidableEq, Repr

/-- The outcome that is asked for, and the memo behind the request. -/
def serve (m : Memo) : Request → Option Outcome × Memo
  | .analyze pattern => (some (m.analyze pattern).1, (m.analyze pattern).2)
  | .clear => (none, m.clear)

/-- The memo behind several requests. -/
def run (m : Memo) (requests : List Request) : Memo :=
  requests.foldl (fun m request => (m.serve request).2) m

/-- What can be seen behind each of several requests. -/
def replies (m : Memo) : List Request → List Reply
  | [] => []
  | request :: requests =>
      let (outcome, next) := m.serve request
      ⟨outcome, next.size, next.isEmpty⟩ :: next.replies requests

/-- The patterns asked for since everything was last forgotten, the latest first. -/
def asked (requests : List Request) : List String :=
  (requests.reverse.takeWhile (· ≠ .clear)).filterMap Request.pattern?

theorem asked_analyze (requests : List Request) (pattern : String) :
    asked (requests ++ [.analyze pattern]) = pattern :: asked requests := by
  simp [asked, Request.pattern?]

theorem asked_clear (requests : List Request) : asked (requests ++ [.clear]) = [] := by
  simp [asked]

theorem run_concat (m : Memo) (requests : List Request) (request : Request) :
    m.run (requests ++ [request]) = ((m.run requests).serve request).2 := by
  rw [run, List.foldl_append]
  rfl

theorem length_replies (m : Memo) (requests : List Request) :
    (m.replies requests).length = requests.length := by
  induction requests generalizing m with
  | nil => rfl
  | cons request requests ih => exact congrArg Nat.succ (ih _)

theorem replies_append (m : Memo) (before after : List Request) :
    m.replies (before ++ after) = m.replies before ++ (m.run before).replies after := by
  induction before generalizing m with
  | nil => rfl
  | cons request before ih => exact congrArg (_ :: ·) (ih _)

/-- The reply to one of several requests, by the memo behind it. -/
theorem getElem?_replies (m : Memo) (before after : List Request) (request : Request) :
    (m.replies (before ++ request :: after))[before.length]? =
      some ⟨((m.run before).serve request).1, (m.run (before ++ [request])).size,
        (m.run (before ++ [request])).isEmpty⟩ := by
  rw [replies_append, ← length_replies m before, List.getElem?_append_right (Nat.le_refl _),
    Nat.sub_self, run_concat]
  rfl

/-- The memo remembers exactly these patterns, each with the outcome of its analysis. -/
structure Remembers (m : Memo) (patterns : List String) : Prop where
  outcome : ∀ pattern o, m.outcomes[pattern]? = some o ↔
    pattern ∈ patterns ∧ o = NamedCaptures.analyze pattern
  size : m.size = patterns.toFinset.card

variable {m : Memo} {patterns : List String}

theorem remembers_empty : Remembers empty [] where
  outcome := by
    intro pattern o
    simp [empty]
  size := rfl

theorem outcomes_analyze (m : Memo) (pattern : String) :
    (m.analyze pattern).2.outcomes = match m.outcomes[pattern]? with
      | some _ => m.outcomes
      | none => m.outcomes.insert pattern (NamedCaptures.analyze pattern) := by
  unfold analyze
  cases m.outcomes[pattern]? <;> rfl

/-- A pattern that is asked for again changes nothing. -/
theorem Remembers.of_mem (h : Remembers m patterns) {pattern : String} (hmem : pattern ∈ patterns) :
    Remembers (m.analyze pattern).2 (pattern :: patterns) := by
  have hsame : (m.analyze pattern).2.outcomes = m.outcomes := by
    rw [outcomes_analyze, (h.outcome pattern _).mpr ⟨hmem, rfl⟩]
  constructor
  · intro other o
    have hother : other ∈ pattern :: patterns ↔ other ∈ patterns := by
      rw [List.mem_cons]
      exact or_iff_right_of_imp fun heq => heq ▸ hmem
    rw [hsame, h.outcome, hother]
  · rw [List.toFinset_cons, Finset.insert_eq_of_mem (List.mem_toFinset.mpr hmem), ← h.size,
      Memo.size, hsame, Memo.size]

/-- A pattern that is asked for the first time is one more. -/
theorem Remembers.of_not_mem (h : Remembers m patterns) {pattern : String}
    (hnew : pattern ∉ patterns) : Remembers (m.analyze pattern).2 (pattern :: patterns) := by
  have hnone : m.outcomes[pattern]? = none := by
    apply Option.eq_none_iff_forall_ne_some.mpr
    intro o ho
    exact hnew ((h.outcome pattern o).mp ho).1
  have hinsert : (m.analyze pattern).2.outcomes =
      m.outcomes.insert pattern (NamedCaptures.analyze pattern) := by
    rw [outcomes_analyze, hnone]
  constructor
  · intro other o
    rw [hinsert, Std.HashMap.getElem?_insert, List.mem_cons]
    by_cases heq : pattern = other
    · subst heq
      simp [eq_comm]
    · rw [if_neg (by simpa using heq), h.outcome, or_iff_right (Ne.symm heq)]
  · have hmem : pattern ∉ m.outcomes := by
      rw [Std.HashMap.mem_iff_isSome_getElem?, hnone]
      exact Bool.false_ne_true
    have hcard : pattern ∉ patterns.toFinset := mt List.mem_toFinset.mp hnew
    rw [List.toFinset_cons, Finset.card_insert_of_notMem hcard, ← h.size, Memo.size,
      hinsert, Std.HashMap.size_insert, if_neg hmem, Memo.size]

/-- Each request changes what is remembered in the way in which it changes what was asked for. -/
theorem Remembers.serve {requests : List Request} (h : Remembers m (asked requests))
    (request : Request) : Remembers (m.serve request).2 (asked (requests ++ [request])) := by
  cases request with
  | analyze pattern =>
      rw [asked_analyze]
      by_cases hmem : pattern ∈ asked requests
      · exact h.of_mem hmem
      · exact h.of_not_mem hmem
  | clear =>
      rw [asked_clear]
      exact remembers_empty

theorem remembers_run (requests : List Request) :
    Remembers (empty.run requests) (asked requests) := by
  induction requests using List.reverseRecOn with
  | nil => exact remembers_empty
  | append_singleton requests request ih =>
      rw [run_concat]
      exact ih.serve request

/-- Two different patterns, one of them asked for twice. -/
example : (empty.run [.analyze "x", .clear, .analyze "(", .analyze "a", .analyze "("]).size = 2 :=
  (remembers_run _).size.trans (by decide)

theorem card_map_toList (patterns : List String) :
    (patterns.map String.toList).toFinset.card = patterns.toFinset.card := by
  have himage : (patterns.map String.toList).toFinset = patterns.toFinset.image String.toList := by
    ext s
    simp
  rw [himage]
  exact Finset.card_image_of_injective _ fun _ _ => String.toList_inj.mp

theorem isEmpty_iff_size (m : Memo) : m.isEmpty = true ↔ m.size = 0 := by
  rw [isEmpty, Std.HashMap.isEmpty_eq_size_eq_zero, beq_iff_eq]
  rfl

/-- What holds of the reply to a request behind others. -/
structure AsAnalyzed (before : List Request) (request : Request) (reply : Reply) : Prop where
  /-- The outcome is that of the analysis, whatever came before. -/
  outcome : ∀ pattern, request = .analyze pattern →
    reply.outcome = some (NamedCaptures.analyze pattern)
  /-- No outcome is given where none was asked for. -/
  forgotten : request = .clear → reply.outcome = none
  /-- The size counts the different texts that were asked for since the last time of forgetting. -/
  size : reply.size = ((asked (before ++ [request])).map String.toList).toFinset.card
  isEmpty : reply.isEmpty = true ↔ reply.size = 0

/-- To every request there is a reply, and a new memo replies as if it always analyzed anew. -/
theorem replies_as_analyzed (requests : List Request) :
    (empty.replies requests).length = requests.length ∧
      ∀ before request after, requests = before ++ request :: after →
        ∃ reply, (empty.replies requests)[before.length]? = some reply ∧
          AsAnalyzed before request reply := by
  refine ⟨length_replies empty requests, ?_⟩
  rintro before request after rfl
  refine ⟨_, getElem?_replies empty before after request, ?_⟩
  constructor
  · rintro pattern rfl
    exact congrArg some (analyze_fst _ pattern)
  · rintro rfl
    rfl
  · rw [card_map_toList]
    exact (remembers_run (before ++ [request])).size
  · exact isEmpty_iff_size _

end NamedCaptures.Memo
