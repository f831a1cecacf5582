/-!
# Lines

The lines of a text. A line ends with a line feed, or with a carriage return and a line feed, and
the last one also with the text.
-/

namespace NamedCaptures.Text

/-- The lines of a text, without what ends them. -/
def lines : List Char → List (List Char)
  | [] => []
  | '\n' :: s => [] :: lines s
  | '\r' :: '\n' :: s => [] :: lines s
  | c :: s =>
      match lines s with
      | [] => [[c]]
      | l :: ls => (c :: l) :: ls

/-- The lines of a text that are not empty. -/
def filledLines (s : String) : List String :=
  ((lines s.toList).filter (!·.isEmpty)).map String.ofList

end NamedCaptures.Text
