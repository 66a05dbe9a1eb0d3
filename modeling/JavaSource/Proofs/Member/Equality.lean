import JavaSource.Member.Constructor
import JavaSource.Member.Field
import JavaSource.Member.Method
import JavaSource.Proofs.Annotation.Equality
import JavaSource.Proofs.Collections.Distinct

namespace JavaSource

namespace Parameter

instance : EquivBEq Parameter :=
  equivBEq_of_images (fun parameter => (parameter.name, parameter.type, parameter.annotations)) fun _ _ => rfl

/-- Parameters are equal in all their parts, and their annotations as annotations
    are. -/
theorem beq_iff {p q : Parameter} : (p == q) = true ↔
    p.name = q.name ∧ p.type = q.type ∧ (p.annotations == q.annotations) = true := by
  have heq : (p == q) = (p.name == q.name && (p.type == q.type && p.annotations == q.annotations)) := rfl
  rw [heq]
  simp only [Bool.and_eq_true, beq_iff_eq]

/-- Equal parameters are declared alike. -/
theorem respects_declaration : Respects declaration := by
  intro p q h
  obtain ⟨hname, htype, hannotations⟩ := beq_iff.mp h
  have hinline : Respects fun a : Annotation => a.inlineText ++ " " := by
    intro a b hab
    have htext := Annotation.respects_inlineText a b hab
    exact congrArg (· ++ " ") htext
  rw [declaration, declaration, hname, htype, hinline.map_eq hannotations]

/-- Equal lists of parameters are written alike. -/
theorem respects_listText : Respects listText := by
  intro ps qs h
  rw [listText, listText, respects_declaration.filterMap_eq h]

end Parameter

/-- Equal lists of annotations are written on the same lines. -/
theorem Annotation.respects_fragmentsOfAll : Respects fragmentsOfAll :=
  fun _ _ => respects_fragments.flatMap_eq

namespace Field

instance : EquivBEq Field :=
  equivBEq_of_images (fun field => (field.name, field.type, field.modifiers, field.defaultValue, field.setter,
    field.getter, field.annotations)) fun _ _ => rfl

/-- Fields are equal in all they have, where the order of modifiers matters. Their
    annotations need only be equal as such. -/
theorem beq_iff {f g : Field} : (f == g) = true ↔
    f.name = g.name ∧ f.type = g.type ∧ f.modifiers = g.modifiers ∧ f.defaultValue = g.defaultValue ∧
      f.setter = g.setter ∧ f.getter = g.getter ∧ (f.annotations == g.annotations) = true := by
  have heq : (f == g) = (f.name == g.name && (f.type == g.type && (f.modifiers == g.modifiers &&
      (f.defaultValue == g.defaultValue && (f.setter == g.setter && (f.getter == g.getter &&
        f.annotations == g.annotations)))))) := rfl
  rw [heq]
  simp only [Bool.and_eq_true, beq_iff_eq]

/-- Equal fields are the same component of a record. -/
theorem respects_component : Respects component := by
  intro f g h
  obtain ⟨hname, htype, _⟩ := beq_iff.mp h
  rw [component, component, hname, htype]

/-- Equal fields are written on the same lines. -/
theorem respects_fragments : Respects fragments := by
  intro f g h
  have hcomponent := respects_component f g h
  obtain ⟨_, _, hmodifiers, hdefault, _, _, hannotations⟩ := beq_iff.mp h
  rw [fragments, fragments, hcomponent, hmodifiers, initializer, initializer, hdefault,
    Annotation.respects_fragmentsOfAll _ _ hannotations]

/-- Equal fields have the same accessors. -/
theorem respects_accessors : Respects accessors := by
  intro f g h
  have hcomponent := respects_component f g h
  obtain ⟨hname, htype, _, _, hsetter, hgetter, _⟩ := beq_iff.mp h
  rw [accessors, accessors, setterFragments, setterFragments, getterFragments, getterFragments, hcomponent,
    hname, htype, hsetter, hgetter]

end Field

namespace Method

instance : EquivBEq Method :=
  equivBEq_of_images (fun method => (method.name, method.returnType, method.modifiers, method.parameters,
    method.body, method.isAbstract, method.annotations)) fun _ _ => rfl

/-- Methods are equal in all they have. Their parameters and annotations need only
    be equal as such. -/
theorem beq_iff {m n : Method} : (m == n) = true ↔
    m.name = n.name ∧ m.returnType = n.returnType ∧ m.modifiers = n.modifiers ∧
      (m.parameters == n.parameters) = true ∧ m.body = n.body ∧ m.isAbstract = n.isAbstract ∧
        (m.annotations == n.annotations) = true := by
  have heq : (m == n) = (m.name == n.name && (m.returnType == n.returnType && (m.modifiers == n.modifiers &&
      (m.parameters == n.parameters && (m.body == n.body && (m.isAbstract == n.isAbstract &&
        m.annotations == n.annotations)))))) := rfl
  rw [heq]
  simp only [Bool.and_eq_true, beq_iff_eq]

/-- Equal methods are written on the same lines, abstract or not. -/
theorem respects_fragments : Respects fragments := by
  intro m n h
  obtain ⟨hname, hreturn, hmodifiers, hparameters, hbody, habstract, hannotations⟩ := beq_iff.mp h
  have hsignature : m.signature = n.signature := by
    rw [signature, signature, returnText, returnText, hname, hreturn, hmodifiers,
      Parameter.respects_listText _ _ hparameters]
  rw [fragments, fragments, hsignature, hbody, habstract, Annotation.respects_fragmentsOfAll _ _ hannotations]

end Method

namespace Constructor

instance : EquivBEq Constructor :=
  equivBEq_of_images (fun c => (c.modifiers, c.parameters, c.body, c.annotations)) fun _ _ => rfl

/-- Constructors are equal in all they have, but for a name, which comes from the
    class. -/
theorem beq_iff {c d : Constructor} : (c == d) = true ↔
    c.modifiers = d.modifiers ∧ (c.parameters == d.parameters) = true ∧ c.body = d.body ∧
      (c.annotations == d.annotations) = true := by
  have heq : (c == d) = (c.modifiers == d.modifiers && (c.parameters == d.parameters && (c.body == d.body &&
      c.annotations == d.annotations))) := rfl
  rw [heq]
  simp only [Bool.and_eq_true, beq_iff_eq]

/-- Equal constructors are written on the same lines, with the placeholder in them.
    -/
theorem respects_fragments : Respects fragments := by
  intro c d h
  obtain ⟨hmodifiers, hparameters, hbody, hannotations⟩ := beq_iff.mp h
  rw [fragments, fragments, signature, signature, hmodifiers, hbody,
    Parameter.respects_listText _ _ hparameters, Annotation.respects_fragmentsOfAll _ _ hannotations]

/-- In a class, too, equal constructors are written on the same lines. -/
theorem respects_fragmentsFor (className : String) : Respects (fragmentsFor · className) := by
  intro c d h
  have hfragments := respects_fragments c d h
  simp only [fragmentsFor, hfragments]

end Constructor

open Annotation (withNumber)
open Distinct (KeepsText)

/-- Equality never merges what is written differently. Annotations are equal
    only if the literals of their attributes are the same, which tells the two
    zeros apart; all else that has annotations is written from what is compared.
    So the text of a duplicate that is dropped is that of the element kept. -/
theorem equality_keeps_text :
    (∀ a b : Annotation, (a == b) = true ↔
      a.classType = b.classType ∧ List.Forall₂ Annotation.SameAttribute a.attributes b.attributes) ∧
    Equivalence (fun a b : Annotation => (a == b) = true) ∧
    (∀ t front back name (d e : Double), d.isZero = true → e.isZero = true → d.isNegative ≠ e.isNegative →
      (d == e) = true ∧
        (withNumber t front back name d == withNumber t front back name e) = false) ∧
    (∀ t front back name (d e : Double), d.isNaN = true → e.isNaN = true →
      (withNumber t front back name d == withNumber t front back name e) = true) ∧
    KeepsText Annotation.inlineText ∧ KeepsText Annotation.fragments ∧ KeepsText Parameter.declaration ∧
    KeepsText Field.component ∧ KeepsText Field.fragments ∧ KeepsText Field.accessors ∧
    KeepsText Method.fragments ∧ KeepsText Constructor.fragments ∧
    ∀ className, KeepsText (Constructor.fragmentsFor · className) := by
  refine ⟨fun a b => Annotation.beq_iff, ⟨fun a => BEq.rfl, BEq.symm, BEq.trans⟩, ?zeros, ?nans, ?_⟩
  case zeros =>
    intro t front back name d e hd he hsign
    exact ⟨Double.beq_iff.mpr (.inr (.inl ⟨hd, he⟩)), Annotation.withNumber_beq_of_isZero hd he hsign⟩
  case nans =>
    intro t front back name d e hd he
    exact Annotation.withNumber_beq_of_isNaN hd he
  exact ⟨.of_respects Annotation.respects_inlineText, .of_respects Annotation.respects_fragments,
    .of_respects Parameter.respects_declaration, .of_respects Field.respects_component,
    .of_respects Field.respects_fragments, .of_respects Field.respects_accessors,
    .of_respects Method.respects_fragments, .of_respects Constructor.respects_fragments,
    fun className => .of_respects (Constructor.respects_fragmentsFor className)⟩

/-- An annotation type with a number for its value. -/
def decimalMin : TypeRef :=
  .declared "jakarta.validation.constraints" "DecimalMin" []

/-- A lower bound, given as a number. -/
def lowerBound (bits : UInt64) : Annotation :=
  .withNumber decimalMin [] [] "value" ⟨bits⟩

/-- Zero and negative zero stay two bounds, and what is not a number is one. -/
theorem equality_keeps_text_lowerBound :
    (lowerBound 0 == lowerBound 0x8000000000000000) = false ∧
    (lowerBound 0x7FF8000000000000 == lowerBound 0xFFF8000000000001) = true ∧
    ∃ kept ∈ Distinct.addAll [lowerBound 0, lowerBound 0x7FF8000000000000] [lowerBound 0xFFF8000000000001],
      kept.fragments = (lowerBound 0xFFF8000000000001).fragments := by
  obtain ⟨_, _, hzeros, hnan, _, hkeeps, _⟩ := equality_keeps_text
  have hzero := hzeros decimalMin [] [] "value" ⟨0⟩ ⟨0x8000000000000000⟩ (by decide) (by decide) (by decide)
  have hone := hnan decimalMin [] [] "value" ⟨0x7FF8000000000000⟩ ⟨0xFFF8000000000001⟩ (by decide) (by decide)
  refine ⟨hzero.2, hone, ?_⟩
  have hmem := List.mem_append_right [lowerBound 0, lowerBound 0x7FF8000000000000]
    (List.mem_singleton.mpr (rfl : lowerBound 0xFFF8000000000001 = lowerBound 0xFFF8000000000001))
  obtain ⟨kept, hkept, _, htext⟩ := hkeeps.kept _ _ _ hmem
  exact ⟨kept, hkept, htext⟩

end JavaSource
