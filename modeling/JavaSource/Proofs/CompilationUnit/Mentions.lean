import JavaSource.CompilationUnit.Imports

namespace JavaSource

/-- The type in an argument, which a placeholder does not have. -/
def TypeArg.type? : TypeArg → Option TypeRef
  | .type t => some t
  | .placeholder _ => none
  | .wildcard _ t => some t

/-- A type occurs in itself and in every type that has it in an argument, at any
    depth. -/
inductive TypeRef.OccursIn (node : TypeRef) : TypeRef → Prop where
  | self : OccursIn node node
  | argument {package name key : String} {slots : List (String × TypeArg)} {argument : TypeArg}
      {t : TypeRef} (hslot : (key, argument) ∈ slots) (ht : argument.type? = some t)
      (h : OccursIn node t) : OccursIn node (.declared package name slots)

/-- The qualified name of a declared type with a package that occurs in `t`. -/
def TypeRef.Names (t : TypeRef) (n : String) : Prop :=
  ∃ package name slots, (TypeRef.declared package name slots).OccursIn t ∧ package ≠ "" ∧
    n = (TypeRef.declared package name slots).qualifiedName

private theorem TypeArg.mentionsOfEach_eq_flatMap (slots : List (String × TypeArg)) :
    TypeArg.mentionsOfEach slots = slots.flatMap (·.2.mentions) := by
  induction slots with
  | nil => rfl
  | cons slot slots ih =>
    rw [TypeArg.mentionsOfEach, ih]
    rfl

mutual

private theorem TypeRef.names_of_mem_mentions : ∀ (t : TypeRef) {n : String}, n ∈ t.mentions → t.Names n
  | .native _, _, h => by simp [TypeRef.mentions] at h
  | .declared package name slots, n, h => by
    rw [TypeRef.mentions] at h
    rcases List.mem_append.mp h with hself | hslots
    · have hpackage : package ≠ "" := by
        rintro rfl
        simp at hself
      refine ⟨package, name, slots, .self, hpackage, ?_⟩
      rw [TypeRef.qualifiedName_of_ne_empty hpackage]
      simpa [hpackage] using hself
    · obtain ⟨key, argument, t, hslot, ht, package', name', slots', hoccurs, hn⟩ :=
        TypeArg.names_of_mem_mentionsOfEach slots hslots
      exact ⟨package', name', slots', .argument hslot ht hoccurs, hn⟩

private theorem TypeArg.names_of_mem_mentions : ∀ (argument : TypeArg) {n : String},
    n ∈ argument.mentions → ∃ t, argument.type? = some t ∧ t.Names n
  | .type t, _, h => ⟨t, rfl, TypeRef.names_of_mem_mentions t h⟩
  | .placeholder _, _, h => by simp [TypeArg.mentions] at h
  | .wildcard _ t, _, h => ⟨t, rfl, TypeRef.names_of_mem_mentions t h⟩

private theorem TypeArg.names_of_mem_mentionsOfEach : ∀ (slots : List (String × TypeArg)) {n : String},
    n ∈ TypeArg.mentionsOfEach slots →
      ∃ key argument t, (key, argument) ∈ slots ∧ argument.type? = some t ∧ t.Names n
  | [], _, h => by simp [TypeArg.mentionsOfEach] at h
  | (key, argument) :: slots, n, h => by
    rcases List.mem_append.mp h with hfirst | hrest
    · obtain ⟨t, ht, hnames⟩ := TypeArg.names_of_mem_mentions argument hfirst
      exact ⟨key, argument, t, List.mem_cons_self, ht, hnames⟩
    · obtain ⟨key', argument', t, hslot, ht, hnames⟩ :=
        TypeArg.names_of_mem_mentionsOfEach slots hrest
      exact ⟨key', argument', t, List.mem_cons_of_mem _ hslot, ht, hnames⟩

end

/-- Whatever is mentioned in a type that occurs in another one is mentioned there. -/
private theorem TypeRef.OccursIn.mentions_subset {node t : TypeRef} (h : node.OccursIn t) :
    node.mentions ⊆ t.mentions := by
  induction h with
  | self => exact fun _ hn => hn
  | @argument package name key slots argument t hslot ht _ ih =>
    intro n hn
    have hargument : n ∈ argument.mentions := by
      cases argument with
      | type u =>
        obtain rfl := Option.some.inj ht
        exact ih hn
      | placeholder => cases ht
      | wildcard side u =>
        obtain rfl := Option.some.inj ht
        exact ih hn
    rw [TypeRef.mentions, TypeArg.mentionsOfEach_eq_flatMap]
    exact List.mem_append_right _ (List.mem_flatMap.mpr ⟨_, hslot, hargument⟩)

/-- A type mentions exactly the names that it gives to its declared parts. -/
theorem TypeRef.mem_mentions_iff {t : TypeRef} {n : String} : n ∈ t.mentions ↔ t.Names n := by
  refine ⟨TypeRef.names_of_mem_mentions t, ?_⟩
  rintro ⟨package, name, slots, hoccurs, hpackage, rfl⟩
  apply hoccurs.mentions_subset
  rw [TypeRef.mentions, TypeRef.qualifiedName_of_ne_empty hpackage]
  simp [hpackage]

/-- The types that an annotation is written with: its own, and those of class
    literals among its attributes. -/
def Annotation.Uses (a : Annotation) (t : TypeRef) : Prop :=
  t = a.classType ∨ ∃ name, (name, AttributeValue.type t) ∈ a.attributes

/-- An annotation mentions what its class and its type values do. -/
theorem Annotation.mem_mentions_iff {a : Annotation} {n : String} :
    n ∈ a.mentions ↔ ∃ t, a.Uses t ∧ t.Names n := by
  unfold Annotation.mentions
  rw [List.mem_append, List.mem_flatMap, TypeRef.mem_mentions_iff]
  constructor
  · rintro (htype | ⟨⟨name, value⟩, hattribute, hvalue⟩)
    · exact ⟨_, .inl rfl, htype⟩
    · cases value with
      | type t => exact ⟨t, .inr ⟨name, hattribute⟩, TypeRef.mem_mentions_iff.mp hvalue⟩
      | integer | double | boolean | string => cases hvalue
  · rintro ⟨t, rfl | ⟨name, hattribute⟩, hnames⟩
    · exact .inl hnames
    · exact .inr ⟨_, hattribute, TypeRef.mem_mentions_iff.mpr hnames⟩

/-- A parameter that is not written mentions nothing. -/
theorem Parameter.mem_mentions_iff {parameter : Parameter} {n : String} :
    n ∈ parameter.mentions ↔ parameter.declaration.isSome = true ∧
      (parameter.type.Names n ∨ ∃ a ∈ parameter.annotations, n ∈ a.mentions) := by
  cases hdeclaration : parameter.declaration with
  | none => simp [Parameter.mentions, hdeclaration]
  | some text => simp [Parameter.mentions, hdeclaration, TypeRef.mem_mentions_iff]

/-- A constructor mentions what its parameters and its annotations do. -/
theorem Constructor.mem_mentions_iff {c : Constructor} {n : String} :
    n ∈ c.mentions ↔ (∃ parameter ∈ c.parameters, n ∈ parameter.mentions) ∨
      ∃ a ∈ c.annotations, n ∈ a.mentions := by
  simp [Constructor.mentions]

/-- A method mentions what its return type, its parameters and its annotations do.
    -/
theorem Method.mem_mentions_iff {method : Method} {n : String} :
    n ∈ method.mentions ↔ (∃ t, method.returnType = some t ∧ t.Names n) ∨
      (∃ parameter ∈ method.parameters, n ∈ parameter.mentions) ∨
        ∃ a ∈ method.annotations, n ∈ a.mentions := by
  cases hreturn : method.returnType with
  | none => simp [Method.mentions, hreturn]
  | some t => simp [Method.mentions, hreturn, TypeRef.mem_mentions_iff]

/-- A field mentions what its type does and, outside a record, what its annotations
    do. -/
theorem Field.mem_mentions_iff {kind : UnitKind} {field : Field} {n : String} :
    n ∈ field.mentions kind ↔ field.type.Names n ∨
      (kind ≠ .recordUnit ∧ ∃ a ∈ field.annotations, n ∈ a.mentions) := by
  by_cases hkind : kind = .recordUnit
  · simp [Field.mentions, hkind, TypeRef.mem_mentions_iff]
  · simp [Field.mentions, hkind, TypeRef.mem_mentions_iff]

namespace Shape

/-- The types that the header of a class or an interface builds on. -/
def supertypes {kind : UnitKind} : Shape kind → List TypeRef
  | .ofClass superclass interfaces _ => superclass.toList ++ interfaces
  | .ofInterface parents => parents
  | .ofRecord => []

/-- The constructors of a class. Other kinds have none. -/
def constructors {kind : UnitKind} : Shape kind → List Constructor
  | .ofClass _ _ constructors => constructors
  | .ofInterface _ | .ofRecord => []

/-- The part that only a kind has mentions what its supertypes and its constructors
    do. -/
theorem mem_mentions_iff {kind : UnitKind} {shape : Shape kind} {n : String} :
    n ∈ shape.mentions ↔ (∃ t ∈ shape.supertypes, t.Names n) ∨
      ∃ c ∈ shape.constructors, n ∈ c.mentions := by
  cases shape with
  | ofClass superclass interfaces constructors =>
    cases superclass with
    | none => simp [Shape.mentions, supertypes, Shape.constructors, TypeRef.mem_mentions_iff]
    | some t => simp [Shape.mentions, supertypes, Shape.constructors, TypeRef.mem_mentions_iff, or_assoc]
  | ofInterface parents => simp [Shape.mentions, supertypes, Shape.constructors, TypeRef.mem_mentions_iff]
  | ofRecord => simp [Shape.mentions, supertypes, Shape.constructors]

end Shape

namespace CompilationUnit

variable {kind : UnitKind}

/-- The annotations that a unit is written with. A record writes its components
    without theirs, and a parameter that is not written has none. -/
inductive Annotated (unit : CompilationUnit kind) : Annotation → Prop where
  | unit {a : Annotation} (ha : a ∈ unit.annotations) : Annotated unit a
  | field {field : Field} {a : Annotation} (hkind : kind ≠ .recordUnit) (hfield : field ∈ unit.fields)
      (ha : a ∈ field.annotations) : Annotated unit a
  | method {method : Method} {a : Annotation} (hmethod : method ∈ unit.methods)
      (ha : a ∈ method.annotations) : Annotated unit a
  | methodParameter {method : Method} {parameter : Parameter} {a : Annotation}
      (hmethod : method ∈ unit.methods) (hparameter : parameter ∈ method.parameters)
      (hdeclared : parameter.declaration.isSome = true) (ha : a ∈ parameter.annotations) :
      Annotated unit a
  | constructor {c : Constructor} {a : Annotation} (hconstructor : c ∈ unit.shape.constructors)
      (ha : a ∈ c.annotations) : Annotated unit a
  | constructorParameter {c : Constructor} {parameter : Parameter} {a : Annotation}
      (hconstructor : c ∈ unit.shape.constructors) (hparameter : parameter ∈ c.parameters)
      (hdeclared : parameter.declaration.isSome = true) (ha : a ∈ parameter.annotations) :
      Annotated unit a

/-- The types that a unit is written with, and those that it imports anyway. -/
inductive Uses (unit : CompilationUnit kind) : TypeRef → Prop where
  | imported {t : TypeRef} (ht : t ∈ unit.imports) : Uses unit t
  | field {field : Field} (hfield : field ∈ unit.fields) : Uses unit field.type
  | returned {method : Method} {t : TypeRef} (hmethod : method ∈ unit.methods)
      (ht : method.returnType = some t) : Uses unit t
  | methodParameter {method : Method} {parameter : Parameter} (hmethod : method ∈ unit.methods)
      (hparameter : parameter ∈ method.parameters) (hdeclared : parameter.declaration.isSome = true) :
      Uses unit parameter.type
  | supertype {t : TypeRef} (ht : t ∈ unit.shape.supertypes) : Uses unit t
  | constructorParameter {c : Constructor} {parameter : Parameter}
      (hconstructor : c ∈ unit.shape.constructors) (hparameter : parameter ∈ c.parameters)
      (hdeclared : parameter.declaration.isSome = true) : Uses unit parameter.type
  | annotated {a : Annotation} {t : TypeRef} (ha : unit.Annotated a) (ht : a.Uses t) : Uses unit t

private theorem Annotated.uses {unit : CompilationUnit kind} {a : Annotation} {n : String}
    (ha : unit.Annotated a) (hn : n ∈ a.mentions) : ∃ t, unit.Uses t ∧ t.Names n := by
  obtain ⟨t, ht, hnames⟩ := Annotation.mem_mentions_iff.mp hn
  exact ⟨t, .annotated ha ht, hnames⟩

private theorem mem_mentions_iff_parts {unit : CompilationUnit kind} {n : String} :
    n ∈ unit.mentions ↔ (∃ t ∈ unit.imports, t.Names n) ∨ n ∈ unit.importNames ∨
      (∃ a ∈ unit.annotations, n ∈ a.mentions) ∨ (∃ field ∈ unit.fields, n ∈ field.mentions kind) ∨
        (∃ method ∈ unit.methods, n ∈ method.mentions) ∨ n ∈ unit.shape.mentions := by
  simp [mentions, TypeRef.mem_mentions_iff]

private theorem uses_of_mem_mentions {unit : CompilationUnit kind} {n : String} (h : n ∈ unit.mentions) :
    n ∈ unit.importNames ∨ ∃ t, unit.Uses t ∧ t.Names n := by
  rcases mem_mentions_iff_parts.mp h with
    ⟨t, ht, hnames⟩ | hn | ⟨a, ha, hn⟩ | ⟨field, hfield, hn⟩ | ⟨method, hmethod, hn⟩ | hn
  · exact .inr ⟨t, .imported ht, hnames⟩
  · exact .inl hn
  · exact .inr (Annotated.uses (.unit ha) hn)
  · rcases Field.mem_mentions_iff.mp hn with hnames | ⟨hkind, a, ha, hn⟩
    · exact .inr ⟨_, .field hfield, hnames⟩
    · exact .inr (Annotated.uses (.field hkind hfield ha) hn)
  · rcases Method.mem_mentions_iff.mp hn with ⟨t, ht, hnames⟩ | ⟨parameter, hparameter, hn⟩ | ⟨a, ha, hn⟩
    · exact .inr ⟨t, .returned hmethod ht, hnames⟩
    · obtain ⟨hdeclared, hnames | ⟨a, ha, hn⟩⟩ := Parameter.mem_mentions_iff.mp hn
      · exact .inr ⟨_, .methodParameter hmethod hparameter hdeclared, hnames⟩
      · exact .inr (Annotated.uses (.methodParameter hmethod hparameter hdeclared ha) hn)
    · exact .inr (Annotated.uses (.method hmethod ha) hn)
  · rcases Shape.mem_mentions_iff.mp hn with ⟨t, ht, hnames⟩ | ⟨c, hconstructor, hn⟩
    · exact .inr ⟨t, .supertype ht, hnames⟩
    · rcases Constructor.mem_mentions_iff.mp hn with ⟨parameter, hparameter, hn⟩ | ⟨a, ha, hn⟩
      · obtain ⟨hdeclared, hnames | ⟨a, ha, hn⟩⟩ := Parameter.mem_mentions_iff.mp hn
        · exact .inr ⟨_, .constructorParameter hconstructor hparameter hdeclared, hnames⟩
        · exact .inr (Annotated.uses (.constructorParameter hconstructor hparameter hdeclared ha) hn)
      · exact .inr (Annotated.uses (.constructor hconstructor ha) hn)

private theorem mem_mentions_of_field {unit : CompilationUnit kind} {field : Field} {n : String}
    (hfield : field ∈ unit.fields) (hn : n ∈ field.mentions kind) : n ∈ unit.mentions :=
  mem_mentions_iff_parts.mpr (.inr (.inr (.inr (.inl ⟨field, hfield, hn⟩))))

private theorem mem_mentions_of_method {unit : CompilationUnit kind} {method : Method} {n : String}
    (hmethod : method ∈ unit.methods) (hn : n ∈ method.mentions) : n ∈ unit.mentions :=
  mem_mentions_iff_parts.mpr (.inr (.inr (.inr (.inr (.inl ⟨method, hmethod, hn⟩)))))

private theorem mem_mentions_of_constructor {unit : CompilationUnit kind} {c : Constructor} {n : String}
    (hconstructor : c ∈ unit.shape.constructors) (hn : n ∈ c.mentions) : n ∈ unit.mentions := by
  have hshape := Shape.mem_mentions_iff.mpr (.inr ⟨c, hconstructor, hn⟩)
  exact mem_mentions_iff_parts.mpr (.inr (.inr (.inr (.inr (.inr hshape)))))

private theorem Annotated.mem_mentions {unit : CompilationUnit kind} {a : Annotation} {n : String}
    (h : unit.Annotated a) (hn : n ∈ a.mentions) : n ∈ unit.mentions := by
  cases h with
  | unit ha => exact mem_mentions_iff_parts.mpr (.inr (.inr (.inl ⟨a, ha, hn⟩)))
  | field hkind hfield ha =>
    exact mem_mentions_of_field hfield (Field.mem_mentions_iff.mpr (.inr ⟨hkind, a, ha, hn⟩))
  | method hmethod ha =>
    exact mem_mentions_of_method hmethod (Method.mem_mentions_iff.mpr (.inr (.inr ⟨a, ha, hn⟩)))
  | methodParameter hmethod hparameter hdeclared ha =>
    have hmention := Parameter.mem_mentions_iff.mpr ⟨hdeclared, .inr ⟨a, ha, hn⟩⟩
    exact mem_mentions_of_method hmethod
      (Method.mem_mentions_iff.mpr (.inr (.inl ⟨_, hparameter, hmention⟩)))
  | constructor hconstructor ha =>
    exact mem_mentions_of_constructor hconstructor
      (Constructor.mem_mentions_iff.mpr (.inr ⟨a, ha, hn⟩))
  | constructorParameter hconstructor hparameter hdeclared ha =>
    have hmention := Parameter.mem_mentions_iff.mpr ⟨hdeclared, .inr ⟨a, ha, hn⟩⟩
    exact mem_mentions_of_constructor hconstructor
      (Constructor.mem_mentions_iff.mpr (.inl ⟨_, hparameter, hmention⟩))

private theorem Uses.mem_mentions {unit : CompilationUnit kind} {t : TypeRef} {n : String}
    (h : unit.Uses t) (hn : t.Names n) : n ∈ unit.mentions := by
  cases h with
  | imported ht => exact mem_mentions_iff_parts.mpr (.inl ⟨t, ht, hn⟩)
  | field hfield => exact mem_mentions_of_field hfield (Field.mem_mentions_iff.mpr (.inl hn))
  | returned hmethod ht =>
    exact mem_mentions_of_method hmethod (Method.mem_mentions_iff.mpr (.inl ⟨t, ht, hn⟩))
  | methodParameter hmethod hparameter hdeclared =>
    have hmention := Parameter.mem_mentions_iff.mpr ⟨hdeclared, .inl hn⟩
    exact mem_mentions_of_method hmethod
      (Method.mem_mentions_iff.mpr (.inr (.inl ⟨_, hparameter, hmention⟩)))
  | supertype ht =>
    have hshape := Shape.mem_mentions_iff.mpr (.inl ⟨t, ht, hn⟩)
    exact mem_mentions_iff_parts.mpr (.inr (.inr (.inr (.inr (.inr hshape)))))
  | constructorParameter hconstructor hparameter hdeclared =>
    have hmention := Parameter.mem_mentions_iff.mpr ⟨hdeclared, .inl hn⟩
    exact mem_mentions_of_constructor hconstructor
      (Constructor.mem_mentions_iff.mpr (.inl ⟨_, hparameter, hmention⟩))
  | annotated ha ht =>
    have hmention := Annotation.mem_mentions_iff.mpr ⟨t, ht, hn⟩
    exact ha.mem_mentions hmention

/-- A unit mentions the names that it asks for, and those in the types it uses. -/
theorem mem_mentions_iff {unit : CompilationUnit kind} {n : String} :
    n ∈ unit.mentions ↔ n ∈ unit.importNames ∨ ∃ t, unit.Uses t ∧ t.Names n := by
  refine ⟨uses_of_mem_mentions, ?_⟩
  rintro (hn | ⟨t, ht, hn⟩)
  · exact mem_mentions_iff_parts.mpr (.inr (.inl hn))
  · exact ht.mem_mentions hn

end CompilationUnit

end JavaSource
