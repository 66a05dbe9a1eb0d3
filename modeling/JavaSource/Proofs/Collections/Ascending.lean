import JavaSource.Collections.Ascending
import Mathlib.Data.List.Sort

namespace JavaSource.Ascending

variable {α : Type} {cmp : α → α → Ordering}

/-- Every element is less than all that follow it. -/
def Ascends (cmp : α → α → Ordering) (elements : List α) : Prop :=
  elements.Pairwise fun a b => cmp a b = .lt

instance (cmp : α → α → Ordering) (elements : List α) : Decidable (Ascends cmp elements) :=
  inferInstanceAs (Decidable (elements.Pairwise _))

/-- Where only equal elements compare equal, no element is lost. -/
theorem mem_insert_iff [Std.LawfulEqCmp cmp] {element member : α} {elements : List α} :
    member ∈ insert cmp element elements ↔ member = element ∨ member ∈ elements := by
  refine ⟨mem_of_mem_insert, ?_⟩
  rintro (rfl | h)
  · exact mem_insert_self cmp _ elements
  · induction elements with
    | nil => cases h
    | cons head tail ih =>
      simp only [insert]
      split
      · exact List.mem_cons_of_mem _ h
      · next heq =>
        obtain rfl := Std.LawfulEqCmp.eq_of_compare heq
        exact h
      · rcases List.mem_cons.mp h with rfl | h
        · exact List.mem_cons_self
        · exact List.mem_cons_of_mem _ (ih h)

/-- An insertion into ascending elements leaves them ascending, whether or not
    an element that compares equal is replaced. -/
theorem ascends_insert [Std.TransCmp cmp] {elements : List α} (h : Ascends cmp elements)
    (element : α) : Ascends cmp (insert cmp element elements) := by
  induction elements with
  | nil => exact List.pairwise_singleton _ _
  | cons head tail ih =>
    obtain ⟨hhead, htail⟩ := List.pairwise_cons.mp h
    simp only [insert]
    split
    · next hlt =>
      refine List.pairwise_cons.mpr ⟨?_, h⟩
      intro other hother
      rcases List.mem_cons.mp hother with rfl | hother
      · exact hlt
      · exact Std.TransCmp.lt_trans hlt (hhead other hother)
    · next heq =>
      refine List.pairwise_cons.mpr ⟨?_, htail⟩
      intro other hother
      exact Std.TransCmp.lt_of_eq_of_lt heq (hhead other hother)
    · next hgt =>
      refine List.pairwise_cons.mpr ⟨?_, ih htail⟩
      intro other hother
      rcases mem_of_mem_insert hother with rfl | hother
      · exact Std.OrientedCmp.lt_of_gt hgt
      · exact hhead other hother

/-- Elements of which no two compare equal ascend when they are sorted. -/
theorem ascends_mergeSort [Std.TransCmp cmp] {elements : List α} (h : elements.Pairwise fun a b => cmp a b ≠ .eq) :
    Ascends cmp (elements.mergeSort fun a b => (cmp a b).isLE) := by
  have htotal : ∀ a b, ((cmp a b).isLE || (cmp b a).isLE) = true := by
    intro a b
    have hswap : cmp a b = (cmp b a).swap := Std.OrientedCmp.eq_swap
    rw [hswap]
    cases cmp b a <;> rfl
  have hsorted := List.pairwise_mergeSort (fun _ _ _ => Std.TransCmp.isLE_trans) htotal elements
  have hsymm : ∀ {a b}, cmp a b ≠ .eq → cmp b a ≠ .eq := fun hne heq => hne (Std.OrientedCmp.eq_symm heq)
  have hdistinct := ((List.mergeSort_perm elements fun a b => (cmp a b).isLE).pairwise_iff hsymm).mpr h
  refine hsorted.imp₂ (fun a b hle hne => ?_) hdistinct
  exact (Ordering.isLE_iff_eq_lt_or_eq_eq.mp hle).resolve_right hne

/-- Ascending elements are determined by which elements they are. -/
theorem Ascends.eq_of_mem_iff [Std.TransCmp cmp] {first second : List α} (hfirst : Ascends cmp first)
    (hsecond : Ascends cmp second) (h : ∀ element, element ∈ first ↔ element ∈ second) : first = second := by
  have : Std.Irrefl fun a b => cmp a b = .lt := ⟨by
    intro a ha
    have hself : cmp a a = .eq := Std.ReflCmp.compare_self
    rw [hself] at ha
    cases ha⟩
  have : Std.Antisymm fun a b => cmp a b = .lt := ⟨by
    intro a b hab hba
    rw [Std.OrientedCmp.gt_of_lt hba] at hab
    cases hab⟩
  exact List.Pairwise.eq_of_mem_iff hfirst hsecond h

end JavaSource.Ascending
