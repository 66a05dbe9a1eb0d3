namespace JavaSource.Text

/-- A character as it stands in a string literal. -/
def escape (c : Char) : List Char :=
  match c with
  | '"' => ['\\', '"']
  | '\\' => ['\\', '\\']
  | '\n' => ['\\', 'n']
  | '\t' => ['\\', 't']
  | '\r' => ['\\', 'r']
  | c => [c]

/-- A text as a string literal, between double quotes. -/
def quote (text : List Char) : List Char :=
  '"' :: text.flatMap escape ++ ['"']

end JavaSource.Text

namespace JavaSource

/-- A string as a string literal, between double quotes. -/
def quoted (s : String) : String :=
  String.ofList (Text.quote s.toList)

end JavaSource
