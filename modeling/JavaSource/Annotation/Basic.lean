import JavaSource.Annotation.Value
import JavaSource.Collections.Keyed
import JavaSource.Error
import JavaSource.Layout.Page

namespace JavaSource

/-- An annotation: its type and its attributes, each with a name of its own. -/
structure Annotation where
  classType : TypeRef
  attributes : List (String × AttributeValue)

namespace Annotation

/-- An annotation without attributes. -/
def marker (classType : TypeRef) : Annotation :=
  ⟨classType, []⟩

/-- The marker of a method that overrides another one. It is native, so that it is never
    imported. -/
def overrides : Annotation :=
  marker (.native "Override")

/-- The name with the sign in front. -/
def name (a : Annotation) : String :=
  "@" ++ a.classType.simpleName

/-- An attribute as source text. -/
def pair (entry : String × AttributeValue) : String :=
  entry.1 ++ " = " ++ entry.2.literal

/-- The annotation on one line, as in parameter lists. -/
def inlineText (a : Annotation) : String :=
  if a.attributes.isEmpty then a.name
  else a.name ++ "(" ++ ", ".intercalate (a.attributes.map pair) ++ ")"

/-- One line for each attribute, with a comma after all but the last. -/
def pairLines : List (String × AttributeValue) → List Fragment
  | [] => []
  | [entry] => [.line (pair entry)]
  | entry :: next :: rest => .line (pair entry ++ ",") :: pairLines (next :: rest)

/-- The annotation on lines of its own, as above declarations. -/
def fragments (a : Annotation) : List Fragment :=
  if a.attributes.isEmpty then [.line a.name]
  else [.block (a.name ++ "(") (pairLines a.attributes) (some ")")]

/-- Annotations are equal if their types and attributes are and if they are written
    alike. The last condition tells apart numbers that are equal but have different
    texts. -/
def same (a b : Annotation) : Bool :=
  a.classType == b.classType && a.attributes == b.attributes && a.fragments == b.fragments

instance : BEq Annotation := ⟨same⟩

/-- The lines of several annotations. -/
def fragmentsOfAll (annotations : List Annotation) : List Fragment :=
  annotations.flatMap fragments

/-- An annotation that is being put together. -/
structure Draft where
  classType : Option TypeRef := none
  attributes : List (String × AttributeValue) := []

/-- A step in putting an annotation together. -/
inductive Edit where
  | classType (t : TypeRef)
  | assign (name : String) (value : AttributeValue)

namespace Draft

/-- An attribute that is set again keeps its position. -/
def apply (draft : Draft) : Edit → Draft
  | .classType t => { draft with classType := some t }
  | .assign name value => { draft with attributes := Keyed.set name value draft.attributes }

/-- The draft after the edits, in order. -/
def ofEdits (edits : List Edit) : Draft :=
  edits.foldl apply {}

def build (draft : Draft) : Except Error Annotation :=
  match draft.classType with
  | none => .error (.missing .annotationType)
  | some classType => .ok ⟨classType, draft.attributes⟩

end Draft

end Annotation

end JavaSource
