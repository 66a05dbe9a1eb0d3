import JavaSource.Text.Pieces

namespace JavaSource

/-- A step of a path from one directory to the next. -/
inductive PathComponent where
  | root
  | here
  | up
  | name (s : String)
  deriving DecidableEq

namespace PathComponent

/-- The root comes first, then the two dotted steps, then the names. -/
def cmp : PathComponent → PathComponent → Ordering
  | root, root => .eq
  | root, _ => .lt
  | _, root => .gt
  | here, here => .eq
  | here, _ => .lt
  | _, here => .gt
  | up, up => .eq
  | up, _ => .lt
  | _, up => .gt
  | name s, name t => compare s t

/-- The component as it is written between slashes. -/
def text : PathComponent → String
  | root => ""
  | here => "."
  | up => ".."
  | name s => s

/-- The component that a piece between slashes stands for. An empty piece stands for
    none, and neither does one dot, except at the start of a path. -/
def ofPiece (piece : List Char) : Option PathComponent :=
  match piece with
  | [] => none
  | ['.'] => none
  | ['.', '.'] => some up
  | other => some (name (String.ofList other))

end PathComponent

/-- The path of a file or directory, as it is written. Paths with different texts can
    name the same place: what counts is the list of components. -/
structure Path where
  text : String
  deriving DecidableEq

namespace Path

/-- Whether the path starts at the root, and not at the current directory. -/
def isAbsolute (path : Path) : Bool :=
  path.text.toList.head? == some '/'

/-- The steps of the path. A dot counts only as the first piece of a relative path. -/
def components (path : Path) : List PathComponent :=
  match Text.pieces '/' path.text.toList with
  | [] => []
  | first :: rest =>
    let start :=
      if path.isAbsolute then [.root]
      else if first = ['.'] then [.here]
      else (PathComponent.ofPiece first).toList
    start ++ rest.filterMap PathComponent.ofPiece

/-- The relative path with the given steps. -/
def ofComponents (steps : List PathComponent) : Path :=
  ⟨"/".intercalate (steps.map PathComponent.text)⟩

/-- The order of paths, by components. A path precedes everything below it. -/
def cmp (a b : Path) : Ordering :=
  List.compareLex PathComponent.cmp a.components b.components

/-- The path to a place that is given relative to a base. An absolute path replaces the
    base. -/
def join (base path : Path) : Path :=
  if path.isAbsolute then path
  else if base.text.isEmpty || base.text.toList.getLast? == some '/' then
    ⟨base.text ++ path.text⟩
  else
    ⟨base.text ++ "/" ++ path.text⟩

/-- Whether the text of the path can only name a directory, because nothing follows its
    last slash or because a dotted step does. -/
def endsAsDirectory (path : Path) : Bool :=
  match (Text.pieces '/' path.text.toList).getLast? with
  | none => true
  | some last => last ∈ [[], ['.'], ['.', '.']]

/-- The directory of a package: one step for each segment between dots that is not empty. -/
def ofPackage (package : String) : Path :=
  (((Text.pieces '.' package.toList).filter (! ·.isEmpty)).map fun segment =>
    Path.mk (String.ofList segment)).foldl join ⟨""⟩

end Path

end JavaSource
