import JavaSource.Text.Lines

namespace JavaSource.Text

/-- The pieces of a text between the occurrences of a separator. There is one more piece
    than there are separators. -/
def pieces (separator : Char) : List Char → List (List Char)
  | [] => [[]]
  | c :: rest =>
    if c = separator then [] :: pieces separator rest
    else prependToFirst c (pieces separator rest)

end JavaSource.Text
