import JavaSource.CompilationUnit.Basic
import JavaSource.CompilationUnit.ImportNames
import JavaSource.Text.Qualified

namespace JavaSource

mutual

/-- The qualified names of all types with a package in a reference, outermost first. -/
def TypeRef.mentions : TypeRef → List String
  | .native _ => []
  | .declared package name slots =>
    (if package.isEmpty then [] else [package ++ "." ++ name]) ++ TypeArg.mentionsOfEach slots

/-- The qualified names in an argument. A placeholder names no type. -/
def TypeArg.mentions : TypeArg → List String
  | .type t => t.mentions
  | .placeholder _ => []
  | .wildcard _ t => t.mentions

def TypeArg.mentionsOfEach : List (String × TypeArg) → List String
  | [] => []
  | (_, argument) :: slots => argument.mentions ++ TypeArg.mentionsOfEach slots

end

/-- The qualified names that a value needs: those of a class literal. -/
def AttributeValue.mentions : AttributeValue → List String
  | .type t => t.mentions
  | .integer _ | .double _ | .boolean _ | .string _ => []

/-- The qualified names in an annotation's type and in its attributes. -/
def Annotation.mentions (a : Annotation) : List String :=
  a.classType.mentions ++ a.attributes.flatMap (·.2.mentions)

/-- The qualified names in a parameter. One that is not written mentions nothing. -/
def Parameter.mentions (parameter : Parameter) : List String :=
  match parameter.declaration with
  | none => []
  | some _ => parameter.type.mentions ++ parameter.annotations.flatMap (·.mentions)

/-- The qualified names in a field. A record writes its components without annotations. -/
def Field.mentions (kind : UnitKind) (field : Field) : List String :=
  field.type.mentions ++
    (if kind = .recordUnit then [] else field.annotations.flatMap (·.mentions))

/-- The qualified names in a method: in its return type, its parameters and its
    annotations. -/
def Method.mentions (method : Method) : List String :=
  (match method.returnType with
    | none => []
    | some type => type.mentions) ++
    method.parameters.flatMap (·.mentions) ++ method.annotations.flatMap (·.mentions)

/-- The qualified names in a constructor: in its parameters and its annotations. -/
def Constructor.mentions (constructor : Constructor) : List String :=
  constructor.parameters.flatMap (·.mentions) ++ constructor.annotations.flatMap (·.mentions)

/-- The qualified names in what a unit has because of its kind. -/
def Shape.mentions {kind : UnitKind} : Shape kind → List String
  | .ofClass superclass interfaces constructors =>
    (match superclass with
      | none => []
      | some type => type.mentions) ++
      interfaces.flatMap (·.mentions) ++ constructors.flatMap (·.mentions)
  | .ofInterface parents => parents.flatMap (·.mentions)
  | .ofRecord => []

/-- Whether a unit in a package has to import a name. Names without a package, names
    from the same package and the marker of overriding methods need no import. -/
def isImportable (unitPackage name : String) : Bool :=
  let (package, simpleName) := splitQualified name
  !package.isEmpty && package != unitPackage &&
    !(simpleName == "Override" && package == "java.lang")

namespace CompilationUnit

/-- All names that the unit asks to import or mentions. -/
def mentions {kind : UnitKind} (unit : CompilationUnit kind) : List String :=
  unit.imports.flatMap (·.mentions) ++ unit.importNames ++
    unit.annotations.flatMap (·.mentions) ++ unit.fields.flatMap (·.mentions kind) ++
    unit.methods.flatMap (·.mentions) ++ unit.shape.mentions

/-- The names that the unit imports. -/
def resolvedImports {kind : UnitKind} (unit : CompilationUnit kind) : ImportNames :=
  (ImportNames.ofList unit.mentions).filter (isImportable unit.package)

end CompilationUnit

end JavaSource
