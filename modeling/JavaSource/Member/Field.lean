import JavaSource.Annotation.Basic
import JavaSource.Collections.Distinct
import JavaSource.Member.Modifier
import JavaSource.Text.Blank
import JavaSource.Text.Uppercase

namespace JavaSource

/-- A field. In a record it is a component, of which only type and name are written. -/
structure Field where
  name : String
  type : TypeRef
  modifiers : List Modifier
  defaultValue : Option String
  setter : Bool
  getter : Bool
  annotations : List Annotation
  deriving BEq

namespace Field

/-- The field as it stands in the header of a record. -/
def component (field : Field) : String :=
  field.type.fullName ++ " " ++ field.name

/-- What initializes the field, with the sign in front. The text is taken as it is. -/
def initializer (field : Field) : String :=
  match field.defaultValue with
  | none => ""
  | some text => " = " ++ text

/-- The declaration of the field with its annotations, and an empty line after it. -/
def fragments (field : Field) : List Fragment :=
  Annotation.fragmentsOfAll field.annotations ++
    [.line (Modifier.texts field.modifiers ++ field.component ++ field.initializer ++ ";"), .blank]

/-- The method that sets the field. -/
def setterFragments (field : Field) : List Fragment :=
  [.block ("public void set" ++ capitalize field.name ++ "(" ++ field.component ++ ")" ++ openBrace)
      [.line ("this." ++ field.name ++ " = " ++ field.name ++ ";")] (some closeBrace),
    .blank]

/-- The method that gets the field. -/
def getterFragments (field : Field) : List Fragment :=
  [.block ("public " ++ field.type.fullName ++ " get" ++ capitalize field.name ++ "()" ++ openBrace)
      [.line ("return " ++ field.name ++ ";")] (some closeBrace),
    .blank]

/-- The setter and then the getter, as far as the field asks for them. -/
def accessors (field : Field) : List Fragment :=
  (if field.setter then field.setterFragments else []) ++
    (if field.getter then field.getterFragments else [])

/-- A field that is being put together. -/
structure Draft where
  name : Option String := none
  type : Option TypeRef := none
  modifiers : List Modifier := []
  defaultValue : Option String := none
  setter : Bool := false
  getter : Bool := false
  annotations : List Annotation := []

/-- A step in putting a field together. -/
inductive Edit where
  | name (s : String)
  | nativeType (name : String)
  | classType (t : TypeRef)
  | fieldType (t : TypeRef)
  | modifier (m : Modifier)
  | defaultValue (text : String)
  | setter (wanted : Bool)
  | getter (wanted : Bool)
  | annotate (a : Annotation)

namespace Draft

def apply (draft : Draft) : Edit → Draft
  | .name s => { draft with name := some s }
  | .nativeType name => { draft with type := some (.native name) }
  | .classType t => { draft with type := some t }
  | .fieldType t => { draft with type := some t }
  | .modifier m => { draft with modifiers := Modifier.addTo draft.modifiers m }
  | .defaultValue text => { draft with defaultValue := some text }
  | .setter wanted => { draft with setter := wanted }
  | .getter wanted => { draft with getter := wanted }
  | .annotate a => { draft with annotations := Distinct.add draft.annotations a }

/-- The draft after the edits, in order. -/
def ofEdits (edits : List Edit) : Draft :=
  edits.foldl apply {}

/-- The field with its name trimmed. A missing type is reported before a missing name. -/
def build (draft : Draft) : Except Error Field :=
  match draft.type, draft.name with
  | none, _ => .error (.missing .fieldType)
  | some _, none => .error (.missing .fieldName)
  | some type, some name =>
    if isBlank name then .error (.blankName .field)
    else .ok ⟨trimmed name, type, draft.modifiers, draft.defaultValue, draft.setter, draft.getter,
      draft.annotations⟩

end Draft

end Field

end JavaSource
