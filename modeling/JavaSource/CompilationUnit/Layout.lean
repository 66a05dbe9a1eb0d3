import JavaSource.CompilationUnit.Imports

namespace JavaSource

/-- Types with commas between them. -/
def TypeRef.listText (types : List TypeRef) : String :=
  ", ".intercalate (types.map fullName)

namespace CompilationUnit

/-- A word of a header and the types after it, if there are any. -/
def clause (word : String) (types : List TypeRef) : String :=
  if types.isEmpty then "" else " " ++ word ++ " " ++ TypeRef.listText types

/-- The line that opens the declaration of the unit. A record lists its components. -/
def header {kind : UnitKind} (unit : CompilationUnit kind) : String :=
  Modifier.texts unit.modifiers ++ kind.keyword ++ " " ++ unit.name ++
    (match unit.shape with
      | .ofClass superclass interfaces _ =>
        clause "extends" superclass.toList ++ clause "implements" interfaces
      | .ofInterface parents => clause "extends" parents
      | .ofRecord => "(" ++ ", ".intercalate (unit.fields.map (·.component)) ++ ")") ++
    openBrace

/-- The members in the order in which they are written. A class has accessors between
    its fields and its constructors; the fields of a record stand in its header. -/
def members {kind : UnitKind} (unit : CompilationUnit kind) : List Fragment :=
  match unit.shape with
  | .ofClass _ _ constructors =>
    unit.fields.flatMap (·.fragments) ++ unit.fields.flatMap (·.accessors) ++
      constructors.flatMap (·.fragmentsFor unit.name) ++ unit.methods.flatMap (·.fragments)
  | .ofInterface _ => unit.fields.flatMap (·.fragments) ++ unit.methods.flatMap (·.fragments)
  | .ofRecord => unit.methods.flatMap (·.fragments)

/-- The line that names the package, unless the unit has none. -/
def packageFragments {kind : UnitKind} (unit : CompilationUnit kind) : List Fragment :=
  if unit.package.isEmpty then [] else [.line ("package " ++ unit.package ++ ";"), .blank]

/-- A line for each import, in ascending order. -/
def importFragments {kind : UnitKind} (unit : CompilationUnit kind) : List Fragment :=
  match unit.resolvedImports.names with
  | [] => []
  | names => names.map (fun name => .line ("import " ++ name ++ ";")) ++ [.blank]

/-- The whole unit: the package, the imports, the annotations, and the declaration with
    its members. -/
def fragments {kind : UnitKind} (unit : CompilationUnit kind) : List Fragment :=
  unit.packageFragments ++ unit.importFragments ++
    Annotation.fragmentsOfAll unit.annotations ++
    [.block unit.header unit.members (some closeBrace)]

end CompilationUnit

end JavaSource
