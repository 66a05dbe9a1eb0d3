import JavaSource.Member.Body
import JavaSource.Member.Modifier
import JavaSource.Member.Parameter

namespace JavaSource

/-- What a constructor has in place of the name of its class, which it does not know. -/
def classNamePlaceholder : String := "{_CLASSNAME_}"

/-- A constructor. -/
structure Constructor where
  modifiers : List Modifier
  parameters : List Parameter
  body : Option String
  annotations : List Annotation
  deriving BEq

namespace Constructor

def signature (constructor : Constructor) : String :=
  Modifier.texts constructor.modifiers ++ classNamePlaceholder ++ "(" ++
    Parameter.listText constructor.parameters ++ ")"

/-- The declaration with the placeholder for the class name, and an empty line after it. -/
def fragments (constructor : Constructor) : List Fragment :=
  Annotation.fragmentsOfAll constructor.annotations ++
    [Body.block constructor.signature constructor.body, .blank]

/-- The declaration in a class with the given name, which replaces the placeholder
    everywhere, in the body and in annotations too. -/
def fragmentsFor (constructor : Constructor) (className : String) : List Fragment :=
  constructor.fragments.map (Fragment.replace classNamePlaceholder className)

/-- A step in putting a constructor together. -/
inductive Edit where
  | modifier (m : Modifier)
  | parameter (p : Parameter)
  | parameters (ps : List Parameter)
  | body (text : String)
  | annotate (a : Annotation)

/-- The constructor without modifiers, parameters and body. Nothing about a constructor
    is mandatory, so every constructor under construction is one already. -/
def empty : Constructor :=
  ⟨[], [], none, []⟩

def apply (constructor : Constructor) : Edit → Constructor
  | .modifier m => { constructor with modifiers := Modifier.addTo constructor.modifiers m }
  | .parameter p => { constructor with parameters := Distinct.add constructor.parameters p }
  | .parameters ps => { constructor with parameters := Distinct.addAll constructor.parameters ps }
  | .body text => { constructor with body := some text }
  | .annotate a => { constructor with annotations := Distinct.add constructor.annotations a }

/-- The constructor after the edits, in order. -/
def ofEdits (edits : List Edit) : Constructor :=
  edits.foldl apply empty

end Constructor

end JavaSource
