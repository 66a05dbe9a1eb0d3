import JavaSource.Collections.Ascending
import JavaSource.Collections.Keyed
import JavaSource.Output.Path

namespace JavaSource

/-- What a place in the file system holds. -/
inductive Node where
  | directory
  | file (content : String)
  deriving DecidableEq

/-- The places that exist, each with what it holds. A step up is a step like any other,
    so a place is known only by the way that was taken to it. -/
structure FileSystem where
  nodes : List (List PathComponent × Node)

/-- Why the file system refuses an operation. -/
inductive FileError where
  /-- A file stands where a directory is needed. -/
  | notDirectory
  /-- A directory stands where a file is needed. -/
  | isDirectory
  deriving DecidableEq

/-- Operations on the file system. What was done before a failure stays done. -/
abbrev FileM := EStateM FileError FileSystem

namespace FileSystem

def empty : FileSystem :=
  ⟨[]⟩

def node? (files : FileSystem) (place : List PathComponent) : Option Node :=
  Keyed.get? place files.nodes

def setNode (files : FileSystem) (place : List PathComponent) (node : Node) : FileSystem :=
  ⟨Keyed.set place node files.nodes⟩

/-- Whether there is something at the path. A path that can only name a directory does
    not reach a file. -/
def contains (files : FileSystem) (path : Path) : Bool :=
  match files.node? path.components with
  | none => false
  | some .directory => true
  | some (.file _) => !path.endsAsDirectory

/-- The content of the file at the path, if there is one. -/
def read? (files : FileSystem) (path : Path) : Option String :=
  match files.node? path.components with
  | some (.file content) => if path.endsAsDirectory then none else some content
  | _ => none

/-- Makes the directories that are missing on the way from one place to another. -/
def makeWay (start : List PathComponent) : List PathComponent → FileM Unit
  | [] => pure ()
  | step :: steps => do
    let place := start ++ [step]
    match (← get).node? place with
    | none => modify (·.setNode place .directory)
    | some .directory => pure ()
    | some (.file _) => throw .notDirectory
    makeWay place steps

/-- Makes a directory and those above it, as far as they are missing. -/
def makeDirectory (path : Path) : FileM Unit :=
  makeWay [] path.components

/-- Writes a file, which is created or replaced, after making the directories above it. -/
def write (path : Path) (content : String) : FileM Unit := do
  makeWay [] path.components.dropLast
  if path.endsAsDirectory then
    throw .isDirectory
  match (← get).node? path.components with
  | some .directory => throw .isDirectory
  | _ => modify (·.setNode path.components (.file content))

/-- Everything below a directory, as steps relative to it. -/
def inside (files : FileSystem) (directory : Path) : List (List PathComponent × Node) :=
  let start := directory.components
  files.nodes.filterMap fun (place, node) =>
    if start.isPrefixOf place && place.length != start.length then
      some (place.drop start.length, node)
    else
      none

/-- Everything below a directory, sorted by path. The path of a directory ends with a
    slash. -/
def below (files : FileSystem) (directory : Path) : List (Path × Node) :=
  let entries := (files.inside directory).map fun (steps, node) =>
    match node with
    | .directory => (Path.mk ((Path.ofComponents steps).text ++ "/"), node)
    | .file _ => (Path.ofComponents steps, node)
  Ascending.insertAll (fun a b => compare a.1.text b.1.text) [] entries

end FileSystem

end JavaSource
