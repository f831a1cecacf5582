/-!
# Quoted text

A text between double quotes, with a backslash before the characters that would break the quoting
and letters for line breaks and tabs.
-/

namespace NamedCaptures.Text

/-- A character inside double quotes. -/
def quotedChar : Char → List Char
  | '"' => ['\\', '"']
  | '\\' => ['\\', '\\']
  | '\n' => ['\\', 'n']
  | '\r' => ['\\', 'r']
  | '\t' => ['\\', 't']
  | c => [c]

/-- A text between double quotes. -/
def quoted (s : List Char) : String :=
  String.ofList ('"' :: s.flatMap quotedChar ++ ['"'])

end NamedCaptures.Text
