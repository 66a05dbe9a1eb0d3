import JavaSource.CompilationUnit.Kind
import JavaSource.Member.Constructor
import JavaSource.Member.Field
import JavaSource.Member.Method

namespace JavaSource

/-- What a unit has because of its kind. A record has nothing of its own: its fields
    make up its header. -/
inductive Shape : UnitKind → Type where
  | ofClass (superclass : Option TypeRef) (interfaces : List TypeRef)
      (constructors : List Constructor) : Shape .classUnit
  | ofInterface (parents : List TypeRef) : Shape .interfaceUnit
  | ofRecord : Shape .recordUnit

/-- What a unit of a kind has at first. -/
def Shape.empty : (kind : UnitKind) → Shape kind
  | .classUnit => .ofClass none [] []
  | .interfaceUnit => .ofInterface []
  | .recordUnit => .ofRecord

/-- A unit of source: one class, interface or record with its members and with the
    imports that are asked for. Each collection holds an element only once. -/
structure CompilationUnit (kind : UnitKind) where
  package : String
  name : String
  modifiers : List Modifier
  annotations : List Annotation
  fields : List Field
  methods : List Method
  imports : List TypeRef
  importNames : List String
  shape : Shape kind

/-- A step in putting a unit together. Some steps are there for one kind only. -/
inductive UnitEdit : UnitKind → Type where
  | field {kind : UnitKind} (f : Field) : UnitEdit kind
  | fields {kind : UnitKind} (fs : List Field) : UnitEdit kind
  | method {kind : UnitKind} (m : Method) : UnitEdit kind
  | methods {kind : UnitKind} (ms : List Method) : UnitEdit kind
  | annotate {kind : UnitKind} (a : Annotation) : UnitEdit kind
  | modifier {kind : UnitKind} (m : Modifier) : UnitEdit kind
  | importType {kind : UnitKind} (t : TypeRef) : UnitEdit kind
  | importName {kind : UnitKind} (name : String) : UnitEdit kind
  | superclass (t : TypeRef) : UnitEdit .classUnit
  | interface (t : TypeRef) : UnitEdit .classUnit
  | constructor (c : Constructor) : UnitEdit .classUnit
  | parent (t : TypeRef) : UnitEdit .interfaceUnit

namespace Shape

def setSuperclass (t : TypeRef) : Shape .classUnit → Shape .classUnit
  | ofClass _ interfaces constructors => ofClass (some t) interfaces constructors

def addInterface (t : TypeRef) : Shape .classUnit → Shape .classUnit
  | ofClass superclass interfaces constructors =>
    ofClass superclass (Distinct.add interfaces t) constructors

def addConstructor (c : Constructor) : Shape .classUnit → Shape .classUnit
  | ofClass superclass interfaces constructors =>
    ofClass superclass interfaces (Distinct.add constructors c)

def addParent (t : TypeRef) : Shape .interfaceUnit → Shape .interfaceUnit
  | ofInterface parents => ofInterface (Distinct.add parents t)

end Shape

namespace CompilationUnit

/-- A unit without members. Its names are trimmed. -/
def empty (kind : UnitKind) (package name : String) : CompilationUnit kind where
  package := trimmed package
  name := trimmed name
  modifiers := []
  annotations := []
  fields := []
  methods := []
  imports := []
  importNames := []
  shape := .empty kind

/-- What is added is dropped if it is there already, and what is set replaces what
    was. -/
def apply {kind : UnitKind} (unit : CompilationUnit kind) : UnitEdit kind → CompilationUnit kind
  | .field f => { unit with fields := Distinct.add unit.fields f }
  | .fields fs => { unit with fields := Distinct.addAll unit.fields fs }
  | .method m => { unit with methods := Distinct.add unit.methods m }
  | .methods ms => { unit with methods := Distinct.addAll unit.methods ms }
  | .annotate a => { unit with annotations := Distinct.add unit.annotations a }
  | .modifier m => { unit with modifiers := Modifier.addTo unit.modifiers m }
  | .importType t => { unit with imports := Distinct.add unit.imports t }
  | .importName name => { unit with importNames := Distinct.add unit.importNames name }
  | .superclass t => { unit with shape := unit.shape.setSuperclass t }
  | .interface t => { unit with shape := unit.shape.addInterface t }
  | .constructor c => { unit with shape := unit.shape.addConstructor c }
  | .parent t => { unit with shape := unit.shape.addParent t }

/-- The unit after the edits, in order. -/
def ofEdits {kind : UnitKind} (package name : String) (edits : List (UnitEdit kind)) :
    CompilationUnit kind :=
  edits.foldl apply (empty kind package name)

end CompilationUnit

end JavaSource
