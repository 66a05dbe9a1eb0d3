namespace JavaSource.Text

/-- Puts a character in front of the first line, which is begun if there is none. -/
def prependToFirst (c : Char) : List (List Char) → List (List Char)
  | [] => [[c]]
  | line :: more => (c :: line) :: more

/-- The lines of a text, without their ends. A line ends at a line feed or at a carriage
    return and a line feed; what follows the last end is a line only if it is not empty.
    -/
def lines : List Char → List (List Char)
  | [] => []
  | '\n' :: rest => [] :: lines rest
  | '\r' :: '\n' :: rest => [] :: lines rest
  | c :: rest => prependToFirst c (lines rest)

end JavaSource.Text

namespace JavaSource

/-- Each line followed by a line feed, the last one too. -/
def joinLines (lines : List String) : String :=
  String.join (lines.map (· ++ "\n"))

end JavaSource
