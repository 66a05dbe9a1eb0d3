import JavaSource.CompilationUnit.Layout
import JavaSource.Config.Basic
import JavaSource.Output.SourceTree

namespace JavaSource

/-- The source of a unit: its lines, without their ends, and what is needed to place
    them in a file. -/
structure Listing where
  className : String
  packageName : String
  packagePath : Path
  modifiers : List Modifier
  kind : UnitKind
  lines : List String
  deriving DecidableEq

namespace Listing

/-- The content of a file with the source. -/
def content (listing : Listing) : String :=
  joinLines listing.lines

def fileName (listing : Listing) (extension : String) : String :=
  listing.className ++ "." ++ extension

/-- The place of the file below an output root. -/
def relativePath (listing : Listing) (extension : String) : Path :=
  listing.packagePath.join ⟨listing.fileName extension⟩

/-- The file as an entry of a source tree. -/
def entry (listing : Listing) (extension : String) (rules : WriteRules) : SourceEntry :=
  ⟨listing.relativePath extension, listing.content, rules⟩

end Listing

/-- The source of a unit in some configuration. A unit needs a name that is not blank. -/
def CompilationUnit.listing {kind : UnitKind} (unit : CompilationUnit kind)
    (config : RenderConfig) : Except Error Listing :=
  if isBlank unit.name then .error (.blankName (.unit kind))
  else .ok {
    className := unit.name
    packageName := unit.package
    packagePath := Path.ofPackage unit.package
    modifiers := unit.modifiers
    kind := kind
    lines := Fragment.linesIn config.indent unit.fragments }

end JavaSource
