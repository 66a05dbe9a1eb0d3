import JavaSource.Listing
import JavaSource.Proofs.Annotation.History
import JavaSource.Proofs.Collections.History
import JavaSource.Proofs.CompilationUnit.Mentions
import JavaSource.Proofs.Member.History

namespace JavaSource

namespace UnitEdit

variable {kind : UnitKind}

/-- The fields that are added, by one edit or by a batch. -/
def addedFields : UnitEdit kind → List Field
  | .field f => [f]
  | .fields fs => fs
  | _ => []

/-- The methods that are added, by one edit or by a batch. -/
def addedMethods : UnitEdit kind → List Method
  | .method m => [m]
  | .methods ms => ms
  | _ => []

def annotation? : UnitEdit kind → Option Annotation
  | .annotate a => some a
  | _ => none

def modifier? : UnitEdit kind → Option Modifier
  | .modifier m => some m
  | _ => none

/-- The type that is asked for, which is another slot than that of a name. -/
def importType? : UnitEdit kind → Option TypeRef
  | .importType t => some t
  | _ => none

def importName? : UnitEdit kind → Option String
  | .importName name => some name
  | _ => none

def superclass? : UnitEdit kind → Option TypeRef
  | .superclass t => some t
  | _ => none

def interface? : UnitEdit kind → Option TypeRef
  | .interface t => some t
  | _ => none

def constructor? : UnitEdit kind → Option Constructor
  | .constructor c => some c
  | _ => none

def parent? : UnitEdit kind → Option TypeRef
  | .parent t => some t
  | _ => none

/-- The edits that add the elements of a batch one by one. -/
def singles : UnitEdit kind → List (UnitEdit kind)
  | .fields fs => fs.map .field
  | .methods ms => ms.map .method
  | edit => [edit]

end UnitEdit

/-- What is written to each slot of a unit, in order. A slot that the kind of the
    unit does not have stays without writes. -/
structure UnitHistory where
  fields : List Field
  methods : List Method
  annotations : List Annotation
  modifiers : List Modifier
  imports : List TypeRef
  importNames : List String
  superclasses : List TypeRef
  interfaces : List TypeRef
  constructors : List Constructor
  parents : List TypeRef

namespace UnitHistory

/-- What is left of a run of edits, slot by slot. -/
def ofEdits {kind : UnitKind} (edits : List (UnitEdit kind)) : UnitHistory where
  fields := edits.flatMap UnitEdit.addedFields
  methods := edits.flatMap UnitEdit.addedMethods
  annotations := edits.filterMap UnitEdit.annotation?
  modifiers := edits.filterMap UnitEdit.modifier?
  imports := edits.filterMap UnitEdit.importType?
  importNames := edits.filterMap UnitEdit.importName?
  superclasses := edits.filterMap UnitEdit.superclass?
  interfaces := edits.filterMap UnitEdit.interface?
  constructors := edits.filterMap UnitEdit.constructor?
  parents := edits.filterMap UnitEdit.parent?

/-- The part of a unit that only its kind has, from the slots of that part. -/
def shape (history : UnitHistory) : (kind : UnitKind) → Shape kind
  | .classUnit =>
    .ofClass history.superclasses.getLast? history.interfaces.eraseDups history.constructors.eraseDups
  | .interfaceUnit => .ofInterface history.parents.eraseDups
  | .recordUnit => .ofRecord

/-- The unit that a history describes, under the given package and name. -/
def unit (history : UnitHistory) (kind : UnitKind) (package name : String) : CompilationUnit kind where
  package := trimmed package
  name := trimmed name
  modifiers := Modifier.inOrder history.modifiers
  annotations := history.annotations.eraseDups
  fields := history.fields.eraseDups
  methods := history.methods.eraseDups
  imports := history.imports.eraseDups
  importNames := history.importNames.eraseDups
  shape := history.shape kind

end UnitHistory

namespace Shape

/-- The interfaces that a class implements. -/
def interfaces : Shape .classUnit → List TypeRef
  | .ofClass _ interfaces _ => interfaces

/-- The interfaces that an interface extends. -/
def parents : Shape .interfaceUnit → List TypeRef
  | .ofInterface parents => parents

/-- What an edit leaves of the slots that a kind has for itself. -/
def after {kind : UnitKind} (shape : Shape kind) : UnitEdit kind → Shape kind
  | .superclass t => shape.setSuperclass t
  | .interface t => shape.addInterface t
  | .constructor c => shape.addConstructor c
  | .parent t => shape.addParent t
  | _ => shape

end Shape

namespace CompilationUnit

variable {kind : UnitKind}

/-- Whether an edit adds nothing but what the unit has already. -/
def Has (unit : CompilationUnit kind) : UnitEdit kind → Prop
  | .field f => unit.fields.contains f = true
  | .fields fs => ∀ f ∈ fs, unit.fields.contains f = true
  | .method m => unit.methods.contains m = true
  | .methods ms => ∀ m ∈ ms, unit.methods.contains m = true
  | .annotate a => unit.annotations.contains a = true
  | .modifier m => m ∈ unit.modifiers
  | .importType t => unit.imports.contains t = true
  | .importName name => unit.importNames.contains name = true
  | .superclass _ => False
  | .interface t => unit.shape.interfaces.contains t = true
  | .constructor c => unit.shape.constructors.contains c = true
  | .parent t => unit.shape.parents.contains t = true

/-- Making an edit again leaves a unit that has it as it is. -/
theorem apply_of_has {history : UnitHistory} {package name : String} {edit : UnitEdit kind}
    (h : (history.unit kind package name).Has edit) :
    (history.unit kind package name).apply edit = history.unit kind package name := by
  cases edit with
  | field f => rw [apply, Distinct.add_of_contains h]
  | fields fs => rw [apply, Distinct.addAll_of_contains h]
  | method m => rw [apply, Distinct.add_of_contains h]
  | methods ms => rw [apply, Distinct.addAll_of_contains h]
  | annotate a => rw [apply, Distinct.add_of_contains h]
  | modifier m => rw [apply, UnitHistory.unit, Modifier.addTo_of_mem h]
  | importType t => rw [apply, Distinct.add_of_contains h]
  | importName s => rw [apply, Distinct.add_of_contains h]
  | superclass t => cases h
  | interface t =>
    have hadd : Distinct.add history.interfaces.eraseDups t = history.interfaces.eraseDups :=
      Distinct.add_of_contains h
    rw [apply, UnitHistory.unit, UnitHistory.shape, Shape.addInterface, hadd]
  | constructor c =>
    have hadd : Distinct.add history.constructors.eraseDups c = history.constructors.eraseDups :=
      Distinct.add_of_contains h
    rw [apply, UnitHistory.unit, UnitHistory.shape, Shape.addConstructor, hadd]
  | parent t =>
    have hadd : Distinct.add history.parents.eraseDups t = history.parents.eraseDups :=
      Distinct.add_of_contains h
    rw [apply, UnitHistory.unit, UnitHistory.shape, Shape.addParent, hadd]

/-- A batched edit does what its parts do one by one. -/
theorem foldl_singles (unit : CompilationUnit kind) (edit : UnitEdit kind) :
    edit.singles.foldl apply unit = unit.apply edit := by
  cases edit with
  | fields fs => exact foldl_map_eq_batch (fun _ => rfl) (fun _ _ _ => rfl) unit fs
  | methods ms => exact foldl_map_eq_batch (fun _ => rfl) (fun _ _ _ => rfl) unit ms
  | _ => rfl

end CompilationUnit

namespace UnitHistory

variable {kind : UnitKind}

/-- The slots of the kind follow an edit that writes to one of them, and keep what they have
    otherwise. -/
theorem shape_concat (edits : List (UnitEdit kind)) (edit : UnitEdit kind) :
    (ofEdits (edits ++ [edit])).shape kind = ((ofEdits edits).shape kind).after edit := by
  cases kind with
  | classUnit =>
    simp only [shape, ofEdits, getLast?_filterMap_concat, eraseDups_filterMap_concat]
    cases edit <;> rfl
  | interfaceUnit =>
    simp only [shape, ofEdits, eraseDups_filterMap_concat]
    cases edit <;> rfl
  | recordUnit => cases edit <;> rfl

/-- A unit follows its history: each slot takes up what is written to it by its own law, and
    every edit writes to one slot. -/
theorem unit_concat (package name : String) (edits : List (UnitEdit kind)) (edit : UnitEdit kind) :
    (ofEdits (edits ++ [edit])).unit kind package name =
      ((ofEdits edits).unit kind package name).apply edit := by
  rw [unit, shape_concat]
  simp only [ofEdits, Modifier.inOrder_filterMap_concat, eraseDups_filterMap_concat, eraseDups_flatMap_concat]
  cases edit <;> rfl

end UnitHistory

/-- What is built depends only on what is written to each slot: on the last value
    where there is one, on the elements of a list in the order in which they come
    first, on which modifiers there are, and on the names of attributes and the
    value that each is given last. -/
theorem built_from_history :
    DependsOnHistory (fun edits => Annotation.Draft.ofEdits edits |>.build) Annotation.History.ofEdits
      (fun history => history.draft.build) (fun edit => [edit])
      (fun front edit => Annotation.Draft.ofEdits front |>.Has edit) ∧
    DependsOnHistory (fun edits => (Parameter.Draft.ofEdits edits).build) Parameter.History.ofEdits
      (fun history => history.draft.build) (fun edit => [edit])
      (fun front edit => (Parameter.Draft.ofEdits front).Has edit) ∧
    DependsOnHistory (fun edits => (Field.Draft.ofEdits edits).build) Field.History.ofEdits
      (fun history => history.draft.build) (fun edit => [edit])
      (fun front edit => (Field.Draft.ofEdits front).Has edit) ∧
    DependsOnHistory (fun edits => (Method.Draft.ofEdits edits).build) Method.History.ofEdits
      (fun history => history.draft.build) Method.Edit.singles
      (fun front edit => (Method.Draft.ofEdits front).Has edit) ∧
    DependsOnHistory Constructor.ofEdits Constructor.History.ofEdits (fun history => history.constructor)
      Constructor.Edit.singles (fun front edit => (Constructor.ofEdits front).Has edit) ∧
    ∀ (kind : UnitKind) (package name : String),
      DependsOnHistory (fun edits : List (UnitEdit kind) => (CompilationUnit.ofEdits package name edits).listing)
        UnitHistory.ofEdits (fun history => (history.unit kind package name).listing) UnitEdit.singles
        (fun front edit => (CompilationUnit.ofEdits package name front).Has edit) := by
  refine ⟨?annotations, ?parameter, ?field, ?method, ?constructor, ?unit⟩
  case annotations =>
    exact .of_concat rfl Annotation.History.draft_concat (fun _ _ => rfl)
      (fun _ _ => Annotation.Draft.apply_of_has) Annotation.Draft.build
  case parameter =>
    exact .of_concat rfl Parameter.History.draft_concat (fun _ _ => rfl)
      (fun _ _ => Parameter.Draft.apply_of_has) Parameter.Draft.build
  case field =>
    exact .of_concat rfl Field.History.draft_concat (fun _ _ => rfl)
      (fun _ _ => Field.Draft.apply_of_has) Field.Draft.build
  case method =>
    exact .of_concat rfl Method.History.draft_concat Method.Draft.foldl_singles
      (fun _ _ => Method.Draft.apply_of_has) Method.Draft.build
  case constructor =>
    exact .of_concat rfl Constructor.History.constructor_concat Constructor.foldl_singles
      (fun _ _ => Constructor.apply_of_has) id
  case unit =>
    intro kind package name
    have hnil : (UnitHistory.ofEdits ([] : List (UnitEdit kind))).unit kind package name =
        .empty kind package name := by
      cases kind <;> rfl
    exact .of_concat hnil (UnitHistory.unit_concat package name) CompilationUnit.foldl_singles
      (fun _ _ => CompilationUnit.apply_of_has) CompilationUnit.listing

/-- A private field of an account. -/
def accountField (name : String) : UnitEdit .classUnit :=
  .field ⟨name, .native "long", [.privateKw], none, false, true, []⟩

/-- Both fields of an account at once. -/
def accountFields : UnitEdit .classUnit :=
  .fields [⟨"number", .native "long", [.privateKw], none, false, true, []⟩,
    ⟨"balance", .native "long", [.privateKw], none, false, true, []⟩]

/-- A batch of fields stands for its fields one by one, a field that comes again is
    dropped, and the modifier may come before the fields or after them. -/
theorem built_from_history_account :
    (CompilationUnit.ofEdits "com.acme" "Account"
      [accountFields, accountField "number", .modifier .publicKw]).listing =
    (CompilationUnit.ofEdits "com.acme" "Account"
      [.modifier .publicKw, accountField "number", accountField "balance"]).listing := by
  obtain ⟨_, _, _, _, _, hunits⟩ := built_from_history
  have hunit := hunits .classUnit "com.acme" "Account"
  have hagain : (CompilationUnit.ofEdits "com.acme" "Account" [accountFields]).Has (accountField "number") :=
    show List.contains _ _ = true by decide
  have hreadded := hunit.readded [accountFields] (accountField "number") [.modifier .publicKw] hagain
  have hbatched := hunit.batched [] accountFields [.modifier .publicKw]
  exact hreadded.trans (hbatched.symm.trans (hunit.interleaved _ _ rfl))

end JavaSource
