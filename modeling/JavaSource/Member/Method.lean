import JavaSource.Member.Body
import JavaSource.Member.Modifier
import JavaSource.Member.Parameter

namespace JavaSource

/-- A method. Without a return type it returns nothing. -/
structure Method where
  name : String
  returnType : Option TypeRef
  modifiers : List Modifier
  parameters : List Parameter
  body : Option String
  isAbstract : Bool
  annotations : List Annotation
  deriving BEq

namespace Method

/-- The return type as it is written. -/
def returnText (method : Method) : String :=
  match method.returnType with
  | none => "void"
  | some type => type.fullName

def signature (method : Method) : String :=
  Modifier.texts method.modifiers ++ method.returnText ++ " " ++ method.name ++ "(" ++
    Parameter.listText method.parameters ++ ")"

/-- The declaration of the method with its annotations, and an empty line after it. The
    body of an abstract method is not written. -/
def fragments (method : Method) : List Fragment :=
  Annotation.fragmentsOfAll method.annotations ++
    [if method.isAbstract then .line (method.signature ++ ";")
      else Body.block method.signature method.body,
    .blank]

/-- A method that is being put together. -/
structure Draft where
  name : Option String := none
  returnType : Option TypeRef := none
  modifiers : List Modifier := []
  parameters : List Parameter := []
  body : Option String := none
  isAbstract : Bool := false
  annotations : List Annotation := []

/-- A step in putting a method together. -/
inductive Edit where
  | name (s : String)
  | returnType (t : TypeRef)
  | modifier (m : Modifier)
  | parameter (p : Parameter)
  | parameters (ps : List Parameter)
  | body (text : String)
  | isAbstract (wanted : Bool)
  | annotate (a : Annotation)

namespace Draft

def apply (draft : Draft) : Edit → Draft
  | .name s => { draft with name := some s }
  | .returnType t => { draft with returnType := some t }
  | .modifier m => { draft with modifiers := Modifier.addTo draft.modifiers m }
  | .parameter p => { draft with parameters := Distinct.add draft.parameters p }
  | .parameters ps => { draft with parameters := Distinct.addAll draft.parameters ps }
  | .body text => { draft with body := some text }
  | .isAbstract wanted => { draft with isAbstract := wanted }
  | .annotate a => { draft with annotations := Distinct.add draft.annotations a }

/-- The draft after the edits, in order. -/
def ofEdits (edits : List Edit) : Draft :=
  edits.foldl apply {}

/-- The method with its name trimmed. -/
def build (draft : Draft) : Except Error Method :=
  match draft.name with
  | none => .error (.missing .methodName)
  | some name =>
    if isBlank name then .error (.blankName .method)
    else .ok ⟨trimmed name, draft.returnType, draft.modifiers, draft.parameters, draft.body,
      draft.isAbstract, draft.annotations⟩

end Draft

end Method

end JavaSource
