import JavaSource.Listing
import JavaSource.Proofs.Member.WrittenAlike

namespace JavaSource

variable {kind : UnitKind}

/-- Units of one kind have the same supertypes and constructors that are written alike. -/
inductive Shape.WrittenAlike : {kind : UnitKind} → Shape kind → Shape kind → Prop where
  | ofClass (superclass : Option TypeRef) (interfaces : List TypeRef) {cs ds : List Constructor}
      (h : List.Forall₂ Constructor.WrittenAlike cs ds) :
      WrittenAlike (.ofClass superclass interfaces cs) (.ofClass superclass interfaces ds)
  | ofInterface (parents : List TypeRef) : WrittenAlike (.ofInterface parents) (.ofInterface parents)
  | ofRecord : WrittenAlike .ofRecord .ofRecord

namespace CompilationUnit

/-- Units whose members, position by position, differ at most in what the kind of
    unit does not write. -/
structure WrittenAlike (unit unit' : CompilationUnit kind) : Prop where
  package : unit.package = unit'.package
  name : unit.name = unit'.name
  modifiers : unit.modifiers = unit'.modifiers
  annotations : (unit.annotations == unit'.annotations) = true
  fields : List.Forall₂ (Field.WrittenAlike kind) unit.fields unit'.fields
  methods : List.Forall₂ Method.WrittenAlike unit.methods unit'.methods
  imports : unit.imports = unit'.imports
  importNames : unit.importNames = unit'.importNames
  shape : unit.shape.WrittenAlike unit'.shape

namespace WrittenAlike

variable {unit unit' : CompilationUnit kind}

/-- Shapes that are written alike mention the same names. -/
theorem shape_mentions_eq {shape shape' : Shape kind} (h : shape.WrittenAlike shape') :
    shape.mentions = shape'.mentions := by
  cases h with
  | ofClass superclass interfaces h =>
    have hconstructors := flatMap_eq_of_forall₂ (f := (·.mentions)) h fun c d hcd => hcd.mentions_eq
    simp only [Shape.mentions, hconstructors]
  | ofInterface | ofRecord => rfl

/-- What is not written is not imported either. -/
theorem resolvedImports_eq (h : unit.WrittenAlike unit') : unit.resolvedImports = unit'.resolvedImports := by
  have hfields := flatMap_eq_of_forall₂ (f := (·.mentions kind)) h.fields fun f g hfg => hfg.mentions_eq
  have hmethods := flatMap_eq_of_forall₂ (f := (·.mentions)) h.methods fun m n hmn => hmn.mentions_eq
  have hannotations := Annotation.respects_mentions.flatMap_eq h.annotations
  rw [resolvedImports, resolvedImports, mentions, mentions, h.package, h.imports, h.importNames, hannotations,
    hfields, hmethods, shape_mentions_eq h.shape]

theorem header_eq (h : unit.WrittenAlike unit') : unit.header = unit'.header := by
  have hcomponents := map_eq_of_forall₂ (f := (·.component)) h.fields fun f g hfg => hfg.component_eq
  have hshape := h.shape
  unfold header
  generalize unit.shape = shape at hshape ⊢
  generalize unit'.shape = shape' at hshape ⊢
  cases hshape with
  | ofClass | ofInterface => simp only [h.modifiers, h.name]
  | ofRecord => simp only [h.modifiers, h.name, hcomponents]

theorem members_eq (h : unit.WrittenAlike unit') : unit.members = unit'.members := by
  have hmethods := flatMap_eq_of_forall₂ (f := (·.fragments)) h.methods fun m n hmn => hmn.fragments_eq
  have hshape := h.shape
  unfold members
  generalize unit.shape = shape at hshape ⊢
  generalize unit'.shape = shape' at hshape ⊢
  cases hshape with
  | ofClass superclass interfaces hconstructors =>
    have hfields := flatMap_eq_of_forall₂ (f := (·.fragments)) h.fields fun f g hfg => hfg.fragments_eq nofun
    have haccessors := flatMap_eq_of_forall₂ (f := (·.accessors)) h.fields fun f g hfg => hfg.accessors_eq rfl
    have hconstructors := flatMap_eq_of_forall₂ (f := (·.fragmentsFor unit'.name)) hconstructors
      fun c d hcd => hcd.fragmentsFor_eq unit'.name
    simp only [h.name, hfields, haccessors, hconstructors, hmethods]
  | ofInterface parents =>
    have hfields := flatMap_eq_of_forall₂ (f := (·.fragments)) h.fields fun f g hfg => hfg.fragments_eq nofun
    simp only [hfields, hmethods]
  | ofRecord => exact hmethods

end WrittenAlike

/-- What a kind of unit does not write leaves no trace, neither in the lines nor in
    the imports. -/
theorem listing_eq_of_writtenAlike {unit unit' : CompilationUnit kind} (h : unit.WrittenAlike unit')
    (config : RenderConfig) : unit.listing config = unit'.listing config := by
  have hfragments : unit.fragments = unit'.fragments := by
    rw [fragments, fragments, packageFragments, packageFragments, importFragments, importFragments, h.package,
      h.resolvedImports_eq, h.header_eq, h.members_eq, Annotation.respects_fragmentsOfAll _ _ h.annotations]
  rw [listing, listing, h.name, h.package, h.modifiers, hfragments]

/-- A record whose component has what only fields of classes are written with, and
    whose method has a body and a parameter that are not written. -/
def reading : CompilationUnit .recordUnit :=
  .ofEdits "com.acme" "Reading"
    [.field ⟨"value", .native "double", [.privateKw], some "0", true, true,
      [.marker (.declared "com.acme.meta" "Measured" [])]⟩,
    .method ⟨"scale", none, [], [⟨none, .declared "java.util" "Locale" [], []⟩], some "return;", true, []⟩]

/-- The same record without any of it. -/
def plainReading : CompilationUnit .recordUnit :=
  .ofEdits "com.acme" "Reading" [.field ⟨"value", .native "double", [], none, false, false, []⟩,
    .method ⟨"scale", none, [], [], none, true, []⟩]

/-- The two records are listed alike. -/
theorem listing_eq_of_writtenAlike_reading :
    reading.WrittenAlike plainReading ∧ reading.listing {} = plainReading.listing {} := by
  have hfield : List.Forall₂ (Field.WrittenAlike .recordUnit) reading.fields plainReading.fields := by
    refine .cons ⟨rfl, rfl, ?_, ?_, ?_, nofun, nofun⟩ .nil <;> exact fun hkind => absurd rfl hkind
  have hmethod : List.Forall₂ Method.WrittenAlike reading.methods plainReading.methods :=
    .cons ⟨rfl, rfl, rfl, rfl, rfl, nofun, rfl⟩ .nil
  have hreading : reading.WrittenAlike plainReading :=
    ⟨rfl, rfl, rfl, rfl, hfield, hmethod, rfl, rfl, .ofRecord⟩
  exact ⟨hreading, listing_eq_of_writtenAlike hreading {}⟩

end CompilationUnit

end JavaSource
