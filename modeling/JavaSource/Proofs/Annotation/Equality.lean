import JavaSource.Annotation.Basic
import JavaSource.Proofs.Collections.Equality
import JavaSource.Proofs.Number.Double

namespace JavaSource

namespace AttributeValue

/-- Values are equal if they are of one kind and equal as such. Only numbers can
    be equal without being the same. -/
theorem beq_iff {v w : AttributeValue} : (v == w) = true ↔
    v = w ∨ ∃ d e : Double, v = .double d ∧ w = .double e ∧ (d == e) = true := by
  have hsame : (v == w) = same v w := rfl
  rw [hsame]
  constructor
  · intro h
    unfold same at h
    split at h
    · exact .inl (congrArg type (eq_of_beq h))
    · exact .inl (congrArg integer (eq_of_beq h))
    · exact .inr ⟨_, _, rfl, rfl, h⟩
    · exact .inl (congrArg boolean (eq_of_beq h))
    · exact .inl (congrArg string (eq_of_beq h))
    · cases h
  · rintro (rfl | ⟨d, e, rfl, rfl, h⟩)
    · cases v with
      | type | integer | double | boolean | string => exact BEq.rfl
    · exact h

instance : EquivBEq AttributeValue where
  rfl := beq_iff.mpr (.inl rfl)
  symm {v w} h := by
    obtain rfl | ⟨d, e, rfl, rfl, hde⟩ := beq_iff.mp h
    · exact h
    · exact beq_iff.mpr (.inr ⟨e, d, rfl, rfl, BEq.symm hde⟩)
  trans {u v w} huv hvw := by
    obtain rfl | ⟨d, e, rfl, rfl, hde⟩ := beq_iff.mp huv
    · exact hvw
    · obtain rfl | ⟨e', f, heq, rfl, hef⟩ := beq_iff.mp hvw
      · exact huv
      · obtain rfl := AttributeValue.double.inj heq
        exact beq_iff.mpr (.inr ⟨d, f, rfl, rfl, BEq.trans hde hef⟩)

end AttributeValue

namespace Annotation

/-- Attributes with the same name whose values are equal and written alike. -/
structure SameAttribute (x y : String × AttributeValue) : Prop where
  name : x.1 = y.1
  value : (x.2 == y.2) = true
  literal : x.2.literal = y.2.literal

theorem SameAttribute.refl (x : String × AttributeValue) : SameAttribute x x :=
  ⟨rfl, BEq.rfl, rfl⟩

theorem SameAttribute.symm {x y : String × AttributeValue} (h : SameAttribute x y) : SameAttribute y x :=
  ⟨h.name.symm, BEq.symm h.value, h.literal.symm⟩

theorem SameAttribute.trans {x y z : String × AttributeValue} (hxy : SameAttribute x y)
    (hyz : SameAttribute y z) : SameAttribute x z :=
  ⟨hxy.name.trans hyz.name, BEq.trans hxy.value hyz.value, hxy.literal.trans hyz.literal⟩

/-- The same attributes are written with the same text. -/
theorem SameAttribute.pair_eq {x y : String × AttributeValue} (h : SameAttribute x y) : pair x = pair y := by
  rw [pair, pair, h.name, h.literal]

/-- The literal is what follows the name, so it can be told from the text. -/
theorem SameAttribute.of_pair_eq {x y : String × AttributeValue} (h : (x == y) = true)
    (hpair : pair x = pair y) : SameAttribute x y := by
  obtain ⟨hname, hvalue⟩ := (Bool.and_eq_true _ _).mp h
  have hname : x.1 = y.1 := eq_of_beq hname
  refine ⟨hname, hvalue, ?_⟩
  rw [pair, pair, hname] at hpair
  exact (String.append_right_inj _).mp hpair

variable {xs ys : List (String × AttributeValue)}

theorem map_pair_eq (h : List.Forall₂ SameAttribute xs ys) : xs.map pair = ys.map pair := by
  induction h with
  | nil => rfl
  | cons hxy _ ih => rw [List.map_cons, List.map_cons, hxy.pair_eq, ih]

/-- Lists of the same attributes are written with the same lines, commas included.
    -/
theorem pairLines_eq (h : List.Forall₂ SameAttribute xs ys) : pairLines xs = pairLines ys := by
  induction h with
  | nil => rfl
  | cons hxy htail ih =>
    cases htail with
    | nil => rw [pairLines, pairLines, hxy.pair_eq]
    | cons => rw [pairLines, pairLines, hxy.pair_eq, ih]

/-- Each line of an annotation has one attribute, so equal lines have equal literals. -/
theorem sameAttributes_of_pairLines_eq (hequal : List.Forall₂ (fun x y => (x == y) = true) xs ys)
    (hlines : pairLines xs = pairLines ys) : List.Forall₂ SameAttribute xs ys := by
  induction hequal with
  | nil => exact .nil
  | cons hxy htail ih =>
    cases htail with
    | nil =>
      rw [pairLines, pairLines] at hlines
      have hpair := Fragment.line.inj (List.cons.inj hlines).1
      exact .cons (.of_pair_eq hxy hpair) .nil
    | cons hnext hrest =>
      rw [pairLines, pairLines] at hlines
      obtain ⟨hline, hlines⟩ := List.cons.inj hlines
      have hpair := (String.append_left_inj ",").mp (Fragment.line.inj hline)
      exact .cons (.of_pair_eq hxy hpair) (ih hlines)

private theorem isEmpty_eq {R : String × AttributeValue → String × AttributeValue → Prop}
    (h : List.Forall₂ R xs ys) : xs.isEmpty = ys.isEmpty := by
  cases h with
  | nil => rfl
  | cons => rfl

variable {a b : Annotation}

private theorem beq_eq (a b : Annotation) :
    (a == b) = (a.classType == b.classType && a.attributes == b.attributes && a.fragments == b.fragments) :=
  rfl

/-- Annotations with the same type whose attributes are written alike are written alike. -/
theorem inlineText_eq_of_sameAttributes (htype : a.classType = b.classType)
    (h : List.Forall₂ SameAttribute a.attributes b.attributes) : a.inlineText = b.inlineText := by
  rw [inlineText, inlineText, isEmpty_eq h, name, name, htype, map_pair_eq h]

/-- The class and the attributes decide every line of an annotation. -/
theorem fragments_eq_of_sameAttributes (htype : a.classType = b.classType)
    (h : List.Forall₂ SameAttribute a.attributes b.attributes) : a.fragments = b.fragments := by
  rw [fragments, fragments, isEmpty_eq h, name, name, htype, pairLines_eq h]

/-- Annotations are equal exactly if they have the same type and, in the same
    order, attributes with the same names, equal values and the same literals. -/
theorem beq_iff : (a == b) = true ↔
    a.classType = b.classType ∧ List.Forall₂ SameAttribute a.attributes b.attributes := by
  rw [beq_eq, Bool.and_eq_true, Bool.and_eq_true, beq_iff_eq, list_beq_iff, beq_iff_eq]
  constructor
  · rintro ⟨⟨htype, hequal⟩, hfragments⟩
    refine ⟨htype, ?_⟩
    have hempty := isEmpty_eq hequal
    by_cases hnone : a.attributes.isEmpty = true
    · have ha : a.attributes = [] := List.isEmpty_iff.mp hnone
      rw [hempty, List.isEmpty_iff] at hnone
      rw [ha, hnone]
      exact .nil
    · rw [fragments, fragments, if_neg hnone, if_neg (hempty ▸ hnone)] at hfragments
      have hlines := (Fragment.block.inj (List.cons.inj hfragments).1).2.1
      exact sameAttributes_of_pairLines_eq hequal hlines
  · rintro ⟨htype, hsame⟩
    refine ⟨⟨htype, hsame.imp ?_⟩, fragments_eq_of_sameAttributes htype hsame⟩
    intro x y hxy
    exact (Bool.and_eq_true _ _).mpr ⟨beq_iff_eq.mpr hxy.name, hxy.value⟩

instance : EquivBEq Annotation where
  rfl := beq_iff.mpr ⟨rfl, List.forall₂_same.mpr fun x _ => .refl x⟩
  symm h := by
    obtain ⟨htype, hsame⟩ := beq_iff.mp h
    exact beq_iff.mpr ⟨htype.symm, hsame.flip.imp fun _ _ => .symm⟩
  trans {a b c} hab hbc := by
    obtain ⟨htype, hsame⟩ := beq_iff.mp hab
    obtain ⟨htype', hsame'⟩ := beq_iff.mp hbc
    exact beq_iff.mpr ⟨htype.trans htype', forall₂_trans hsame hsame' .trans⟩

/-- Equal annotations are written alike on one line. -/
theorem respects_inlineText : Respects inlineText := fun _ _ h =>
  inlineText_eq_of_sameAttributes (beq_iff.mp h).1 (beq_iff.mp h).2

/-- Equal annotations are written alike on lines of their own. -/
theorem respects_fragments : Respects fragments := fun _ _ h =>
  fragments_eq_of_sameAttributes (beq_iff.mp h).1 (beq_iff.mp h).2

/-- The annotation with a number as the value of one of its attributes. -/
def withNumber (t : TypeRef) (front back : List (String × AttributeValue)) (name : String) (d : Double) :
    Annotation :=
  ⟨t, front ++ (name, .double d) :: back⟩

variable {t : TypeRef} {front back : List (String × AttributeValue)} {name : String} {d e : Double}

/-- Annotations that differ in a number only are equal if it is one number that
    is written alike. -/
theorem withNumber_beq_iff : (withNumber t front back name d == withNumber t front back name e) = true ↔
    (d == e) = true ∧ d.literal = e.literal := by
  rw [beq_iff]
  constructor
  · rintro ⟨_, hsame⟩
    have hattribute : SameAttribute (name, .double d) (name, .double e) := by
      have hback := List.forall₂_drop front.length hsame
      simp only [withNumber, List.drop_left] at hback
      exact (List.forall₂_cons.mp hback).1
    exact ⟨hattribute.value, hattribute.literal⟩
  · rintro ⟨hvalue, hliteral⟩
    refine ⟨rfl, List.rel_append (List.forall₂_same.mpr fun x _ => .refl x) ?_⟩
    exact .cons ⟨rfl, hvalue, hliteral⟩ (List.forall₂_same.mpr fun x _ => .refl x)

/-- A zero that is negative is told apart from one that is not. -/
theorem withNumber_beq_of_isZero (hd : d.isZero = true) (he : e.isZero = true)
    (hsign : d.isNegative ≠ e.isNegative) :
    (withNumber t front back name d == withNumber t front back name e) = false := by
  refine Bool.eq_false_iff.mpr fun hequal => ?_
  obtain ⟨_, hliteral⟩ := withNumber_beq_iff.mp hequal
  exact Double.literal_ne_of_isZero hd he hsign hliteral

/-- Any two values that are not a number make equal annotations, whatever their bits
    are. -/
theorem withNumber_beq_of_isNaN (hd : d.isNaN = true) (he : e.isNaN = true) :
    (withNumber t front back name d == withNumber t front back name e) = true := by
  refine withNumber_beq_iff.mpr ⟨Double.beq_iff.mpr (.inl ⟨hd, he⟩), ?_⟩
  rw [Double.literal_of_isNaN hd, Double.literal_of_isNaN he]

end Annotation

end JavaSource
