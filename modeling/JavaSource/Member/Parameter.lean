import JavaSource.Annotation.Basic
import JavaSource.Collections.Distinct
import JavaSource.Text.Blank

namespace JavaSource

/-- A parameter of a method or constructor. Its owner keeps it even without a name, but
    does not write it. -/
structure Parameter where
  name : Option String
  type : TypeRef
  annotations : List Annotation
  deriving BEq

namespace Parameter

/-- A parameter with a name and without annotations. -/
def named (name : String) (type : TypeRef) : Parameter :=
  ⟨some name, type, []⟩

/-- The parameter as it stands in a parameter list, or nothing if it has no name to be
    written with. -/
def declaration (parameter : Parameter) : Option String :=
  match parameter.name with
  | none => none
  | some name =>
    if isBlank name then none
    else some (String.join (parameter.annotations.map (·.inlineText ++ " ")) ++
      parameter.type.fullName ++ " " ++ trimmed name)

/-- A parameter list without its parentheses. -/
def listText (parameters : List Parameter) : String :=
  ", ".intercalate (parameters.filterMap declaration)

/-- A parameter that is being put together. -/
structure Draft where
  name : Option String := none
  type : Option TypeRef := none
  annotations : List Annotation := []

/-- A step in putting a parameter together. -/
inductive Edit where
  | name (s : String)
  | paramType (t : TypeRef)
  | nativeType (name : String)
  | annotate (a : Annotation)

namespace Draft

def apply (draft : Draft) : Edit → Draft
  | .name s => { draft with name := some s }
  | .paramType t => { draft with type := some t }
  | .nativeType name => { draft with type := some (.native name) }
  | .annotate a => { draft with annotations := Distinct.add draft.annotations a }

/-- The draft after the edits, in order. -/
def ofEdits (edits : List Edit) : Draft :=
  edits.foldl apply {}

def build (draft : Draft) : Except Error Parameter :=
  match draft.type with
  | none => .error (.missing .parameterType)
  | some type => .ok ⟨draft.name, type, draft.annotations⟩

end Draft

end Parameter

end JavaSource
