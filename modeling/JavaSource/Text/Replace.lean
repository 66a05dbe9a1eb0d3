namespace JavaSource.Text

/-- Replaces the occurrences of a non-empty pattern from left to right, where the first
    `skip` characters belong to an occurrence that is already replaced. -/
def replaceFrom (pattern replacement : List Char) : Nat → List Char → List Char
  | _, [] => []
  | skip + 1, _ :: rest => replaceFrom pattern replacement skip rest
  | 0, c :: rest =>
    if pattern.isPrefixOf (c :: rest) then
      replacement ++ replaceFrom pattern replacement (pattern.length - 1) rest
    else
      c :: replaceFrom pattern replacement 0 rest

/-- Replaces every occurrence of a pattern, scanning from the left and never
    overlapping. The empty pattern occurs before every character and at the end. -/
def replace (pattern replacement text : List Char) : List Char :=
  if pattern.isEmpty then
    text.foldr (fun c rest => replacement ++ c :: rest) replacement
  else
    replaceFrom pattern replacement 0 text

end JavaSource.Text

namespace JavaSource

/-- A string with every occurrence of a pattern replaced. -/
def replaceAll (pattern replacement s : String) : String :=
  String.ofList (Text.replace pattern.toList replacement.toList s.toList)

end JavaSource
