import JavaSource.Layout.Fragment
import JavaSource.Text.Blank
import JavaSource.Text.Lines

namespace JavaSource.Body

/-- The lines of a body without the white space at their ends, and without the empty
    lines before the first and after the last line that has text. -/
def contentLines (body : List Char) : List (List Char) :=
  let lines := ((Text.lines body).map Text.trimEnd).dropWhile List.isEmpty
  (lines.reverse.dropWhile List.isEmpty).reverse

/-- A line of a body, where an empty line is a blank one. -/
def lineFragment (line : List Char) : Fragment :=
  if line.isEmpty then .blank else .line (String.ofList line)

/-- The fragments of a body. A body that is absent has none. -/
def fragments : Option String → List Fragment
  | none => []
  | some text => (contentLines text.toList).map lineFragment

/-- A signature with the body below it, in braces. -/
def block (signature : String) (body : Option String) : Fragment :=
  .block (signature ++ openBrace) (fragments body) (some closeBrace)

end JavaSource.Body
