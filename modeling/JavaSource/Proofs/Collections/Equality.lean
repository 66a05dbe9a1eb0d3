import Mathlib.Data.List.Forall2

namespace JavaSource

variable {α β : Type} [BEq α]

/-- Lists are equal if their elements are, position by position. -/
theorem list_beq_iff {xs ys : List α} :
    (xs == ys) = true ↔ List.Forall₂ (fun x y => (x == y) = true) xs ys := by
  induction xs generalizing ys with
  | nil =>
    cases ys with
    | nil => simp
    | cons y ys => simp
  | cons x xs ih =>
    cases ys with
    | nil => simp
    | cons y ys => rw [List.cons_beq_cons, Bool.and_eq_true, List.forall₂_cons, ih]

/-- Relations that can be chained can be chained position by position. -/
theorem forall₂_trans {α : Type} {R : α → α → Prop} {xs ys zs : List α} (hxy : List.Forall₂ R xs ys)
    (hyz : List.Forall₂ R ys zs) (hR : ∀ {x y z}, R x y → R y z → R x z) : List.Forall₂ R xs zs := by
  induction hxy generalizing zs with
  | nil => exact hyz
  | cons hhead _ ih =>
    cases hyz with
    | cons hhead' htail' => exact .cons (hR hhead hhead') (ih htail')

instance instEquivBEqList [EquivBEq α] : EquivBEq (List α) where
  symm h := by
    rw [list_beq_iff] at h ⊢
    exact h.flip.imp fun _ _ => BEq.symm
  trans hxy hyz := by
    rw [list_beq_iff] at hxy hyz ⊢
    exact forall₂_trans hxy hyz BEq.trans

instance instEquivBEqProd {β : Type} [BEq β] [EquivBEq α] [EquivBEq β] : EquivBEq (α × β) where
  symm {x y} h := by
    have h' := (Bool.and_eq_true _ _).mp h
    exact (Bool.and_eq_true _ _).mpr ⟨BEq.symm h'.1, BEq.symm h'.2⟩
  trans {x y z} hxy hyz := by
    have hxy' := (Bool.and_eq_true _ _).mp hxy
    have hyz' := (Bool.and_eq_true _ _).mp hyz
    exact (Bool.and_eq_true _ _).mpr ⟨BEq.trans hxy'.1 hyz'.1, BEq.trans hxy'.2 hyz'.2⟩

/-- Elements that are compared by their images are compared by an equivalence if
    the images are. So is a structure that is compared field by field. -/
theorem equivBEq_of_images {β : Type} [BEq β] [EquivBEq β] (image : α → β)
    (h : ∀ x y, (x == y) = (image x == image y)) : EquivBEq α where
  rfl {x} := by
    rw [h]
    exact BEq.rfl
  symm {x y} hxy := by
    rw [h] at hxy ⊢
    exact BEq.symm hxy
  trans {x y z} hxy hyz := by
    rw [h] at hxy hyz ⊢
    exact BEq.trans hxy hyz

/-- A function that has the same value for elements that are equal. -/
def Respects (f : α → β) : Prop :=
  ∀ x y, (x == y) = true → f x = f y

/-- Related elements with equal images make equal lists of images. -/
theorem map_eq_of_forall₂ {α β : Type} {R : α → α → Prop} {f : α → β} {xs ys : List α}
    (h : List.Forall₂ R xs ys) (hf : ∀ x y, R x y → f x = f y) : xs.map f = ys.map f := by
  induction h with
  | nil => rfl
  | cons hhead _ ih => rw [List.map_cons, List.map_cons, hf _ _ hhead, ih]

theorem flatMap_eq_of_forall₂ {α β : Type} {R : α → α → Prop} {f : α → List β} {xs ys : List α}
    (h : List.Forall₂ R xs ys) (hf : ∀ x y, R x y → f x = f y) : xs.flatMap f = ys.flatMap f := by
  rw [List.flatMap_def, List.flatMap_def, map_eq_of_forall₂ h hf]

/-- Equal lists have the same images under a function that respects equality. -/
theorem Respects.map_eq {f : α → β} (hf : Respects f) {xs ys : List α} (h : (xs == ys) = true) :
    xs.map f = ys.map f :=
  map_eq_of_forall₂ (list_beq_iff.mp h) hf

theorem Respects.flatMap_eq {β : Type} {f : α → List β} (hf : Respects f) {xs ys : List α}
    (h : (xs == ys) = true) : xs.flatMap f = ys.flatMap f :=
  flatMap_eq_of_forall₂ (list_beq_iff.mp h) hf

theorem Respects.filterMap_eq {β : Type} {f : α → Option β} (hf : Respects f) {xs ys : List α}
    (h : (xs == ys) = true) : xs.filterMap f = ys.filterMap f := by
  have hid : ∀ zs : List α, zs.filterMap f = (zs.map f).filterMap id := fun zs => by
    rw [List.filterMap_map, Function.id_comp]
  rw [hid, hid, hf.map_eq h]

end JavaSource
