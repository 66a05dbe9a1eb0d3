import JavaSource.CompilationUnit.Imports
import JavaSource.Proofs.Member.Equality

namespace JavaSource

/-- Equal values mention the same names. -/
theorem AttributeValue.respects_mentions : Respects AttributeValue.mentions := by
  intro v w h
  obtain rfl | ⟨d, e, rfl, rfl, _⟩ := AttributeValue.beq_iff.mp h
  · rfl
  · rfl

/-- Equal annotations mention the same names. -/
theorem Annotation.respects_mentions : Respects Annotation.mentions := by
  intro a b h
  obtain ⟨htype, hsame⟩ := Annotation.beq_iff.mp h
  have hattributes := flatMap_eq_of_forall₂ (f := fun entry => entry.2.mentions) hsame
    fun x y hxy => AttributeValue.respects_mentions _ _ hxy.value
  rw [mentions, mentions, htype, hattributes]

namespace Parameter

/-- Equal parameters mention the same names. -/
theorem respects_mentions : Respects mentions := by
  intro p q h
  obtain ⟨_, htype, hannotations⟩ := beq_iff.mp h
  rw [mentions, mentions, respects_declaration p q h, htype, Annotation.respects_mentions.flatMap_eq hannotations]

/-- Whether a parameter has a name to be written with. -/
def isNamed (parameter : Parameter) : Bool :=
  parameter.name.any fun name => !isBlank name

/-- A parameter without a name is not declared. -/
theorem declaration_of_not_isNamed {parameter : Parameter} (h : parameter.isNamed = false) :
    parameter.declaration = none := by
  unfold declaration
  cases hname : parameter.name with
  | none => rfl
  | some name =>
    have hblank : isBlank name = true := by simpa [isNamed, hname] using h
    exact if_pos hblank

/-- A parameter without a name mentions nothing. -/
theorem mentions_of_not_isNamed {parameter : Parameter} (h : parameter.isNamed = false) :
    parameter.mentions = [] := by
  rw [mentions, declaration_of_not_isNamed h]

/-- Parameters without a name are left out of parameter lists. -/
theorem listText_filter (parameters : List Parameter) :
    listText (parameters.filter isNamed) = listText parameters := by
  rw [listText, List.filterMap_filter, listText]
  congr 1
  refine List.filterMap_congr fun parameter _ => ?_
  split
  · rfl
  · next h => exact (declaration_of_not_isNamed (Bool.eq_false_iff.mpr h)).symm

/-- Only parameters with names mention anything. -/
theorem mentions_filter (parameters : List Parameter) :
    (parameters.filter isNamed).flatMap (·.mentions) = parameters.flatMap (·.mentions) := by
  induction parameters with
  | nil => rfl
  | cons parameter parameters ih =>
    cases hnamed : parameter.isNamed with
    | true => rw [List.filter_cons_of_pos hnamed, List.flatMap_cons, ih, List.flatMap_cons]
    | false =>
      rw [List.filter_cons_of_neg (by simp [hnamed]), ih, List.flatMap_cons, mentions_of_not_isNamed hnamed,
        List.nil_append]

/-- Parameter lists that differ at most in parameters without a name. -/
def WrittenAlike (ps qs : List Parameter) : Prop :=
  (ps.filter isNamed == qs.filter isNamed) = true

variable {ps qs : List Parameter}

/-- Parameters that are written alike are listed alike. -/
theorem WrittenAlike.listText_eq (h : WrittenAlike ps qs) : listText ps = listText qs := by
  rw [← listText_filter ps, ← listText_filter qs, respects_listText _ _ h]

/-- Parameters that are written alike mention the same names. -/
theorem WrittenAlike.mentions_eq (h : WrittenAlike ps qs) :
    ps.flatMap (·.mentions) = qs.flatMap (·.mentions) := by
  rw [← mentions_filter ps, ← mentions_filter qs, respects_mentions.flatMap_eq h]

end Parameter

namespace Field

/-- Fields that differ at most in what a unit of some kind does not write. A record
    writes names and types only, and only a class has accessors. -/
structure WrittenAlike (kind : UnitKind) (f g : Field) : Prop where
  name : f.name = g.name
  type : f.type = g.type
  modifiers : kind ≠ .recordUnit → f.modifiers = g.modifiers
  defaultValue : kind ≠ .recordUnit → f.defaultValue = g.defaultValue
  annotations : kind ≠ .recordUnit → (f.annotations == g.annotations) = true
  setter : kind = .classUnit → f.setter = g.setter
  getter : kind = .classUnit → f.getter = g.getter

variable {kind : UnitKind} {f g : Field}

/-- Fields that are written alike are the same component. -/
theorem WrittenAlike.component_eq (h : WrittenAlike kind f g) : f.component = g.component := by
  rw [component, component, h.name, h.type]

/-- Outside records, fields that are written alike are the same lines. -/
theorem WrittenAlike.fragments_eq (h : WrittenAlike kind f g) (hkind : kind ≠ .recordUnit) :
    f.fragments = g.fragments := by
  rw [fragments, fragments, h.component_eq, h.modifiers hkind, initializer, initializer, h.defaultValue hkind,
    Annotation.respects_fragmentsOfAll _ _ (h.annotations hkind)]

/-- In classes, fields that are written alike have the same accessors. -/
theorem WrittenAlike.accessors_eq (h : WrittenAlike kind f g) (hkind : kind = .classUnit) :
    f.accessors = g.accessors := by
  rw [accessors, accessors, setterFragments, setterFragments, getterFragments, getterFragments, h.component_eq,
    h.name, h.type, h.setter hkind, h.getter hkind]

theorem WrittenAlike.mentions_eq (h : WrittenAlike kind f g) : f.mentions kind = g.mentions kind := by
  rw [mentions, mentions, h.type]
  by_cases hkind : kind = .recordUnit
  · rw [if_pos hkind, if_pos hkind]
  · rw [if_neg hkind, if_neg hkind, Annotation.respects_mentions.flatMap_eq (h.annotations hkind)]

end Field

namespace Method

/-- Methods that differ at most in parameters without a name and, if they are
    abstract, in their bodies. -/
structure WrittenAlike (m n : Method) : Prop where
  name : m.name = n.name
  returnType : m.returnType = n.returnType
  modifiers : m.modifiers = n.modifiers
  parameters : Parameter.WrittenAlike m.parameters n.parameters
  isAbstract : m.isAbstract = n.isAbstract
  body : m.isAbstract = false → m.body = n.body
  annotations : (m.annotations == n.annotations) = true

variable {m n : Method}

theorem WrittenAlike.fragments_eq (h : WrittenAlike m n) : m.fragments = n.fragments := by
  have hsignature : m.signature = n.signature := by
    rw [signature, signature, returnText, returnText, h.name, h.returnType, h.modifiers, h.parameters.listText_eq]
  rw [fragments, fragments, hsignature, h.isAbstract, Annotation.respects_fragmentsOfAll _ _ h.annotations]
  cases habstract : n.isAbstract with
  | true => rfl
  | false => rw [h.body (h.isAbstract.trans habstract)]

theorem WrittenAlike.mentions_eq (h : WrittenAlike m n) : m.mentions = n.mentions := by
  rw [mentions, mentions, h.returnType, h.parameters.mentions_eq,
    Annotation.respects_mentions.flatMap_eq h.annotations]

end Method

namespace Constructor

/-- Constructors that differ at most in parameters without a name. -/
structure WrittenAlike (c d : Constructor) : Prop where
  modifiers : c.modifiers = d.modifiers
  parameters : Parameter.WrittenAlike c.parameters d.parameters
  body : c.body = d.body
  annotations : (c.annotations == d.annotations) = true

variable {c d : Constructor}

/-- Constructors that are written alike are the same lines in every class. -/
theorem WrittenAlike.fragmentsFor_eq (h : WrittenAlike c d) (className : String) :
    c.fragmentsFor className = d.fragmentsFor className := by
  have hfragments : c.fragments = d.fragments := by
    rw [fragments, fragments, signature, signature, h.modifiers, h.parameters.listText_eq, h.body,
      Annotation.respects_fragmentsOfAll _ _ h.annotations]
  rw [fragmentsFor, fragmentsFor, hfragments]

theorem WrittenAlike.mentions_eq (h : WrittenAlike c d) : c.mentions = d.mentions := by
  rw [mentions, mentions, h.parameters.mentions_eq, Annotation.respects_mentions.flatMap_eq h.annotations]

end Constructor

end JavaSource
