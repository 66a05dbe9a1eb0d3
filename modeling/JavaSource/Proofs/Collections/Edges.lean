import Mathlib.Data.List.DropRight
import Mathlib.Data.List.TakeWhile

namespace JavaSource

variable {α : Type} {p : α → Bool} {whole kept : List α}

/-- What is left of a list when the elements with a property are taken off both of its
    ends. Elements between others are kept, whether or not they have the property. -/
structure WithoutEdges (p : α → Bool) (whole kept : List α) : Prop where
  within : ∃ front back, whole = front ++ kept ++ back ∧ (∀ x ∈ front, p x = true) ∧ ∀ x ∈ back, p x = true
  head : ∀ x, kept.head? = some x → p x = false
  last : ∀ x, kept.getLast? = some x → p x = false

/-- Dropping from the back stops at an element without the property. -/
theorem isFalse_of_getLast?_rdropWhile {x : α} (h : (whole.rdropWhile p).getLast? = some x) : p x = false := by
  have hne : whole.rdropWhile p ≠ [] := by
    intro hnil
    simp [hnil] at h
  have hnot := List.rdropWhile_last_not p whole hne
  rw [List.getLast?_eq_some_getLast hne, Option.some.injEq] at h
  simpa [h] using hnot

/-- Dropping from the front and then from the back leaves the list without its
    edges. -/
theorem withoutEdges_dropWhile (p : α → Bool) (whole : List α) :
    WithoutEdges p whole ((whole.dropWhile p).rdropWhile p) := by
  refine ⟨⟨whole.takeWhile p, (whole.dropWhile p).rtakeWhile p, ?_, ?_, ?_⟩, ?_, ?_⟩
  · rw [List.append_assoc, List.rdropWhile_append_rtakeWhile, List.takeWhile_append_dropWhile]
  · exact fun x hx => List.mem_takeWhile_imp hx
  · exact fun x hx => List.mem_rtakeWhile_imp hx
  · intro x hx
    obtain ⟨rest, hrest⟩ := List.rdropWhile_prefix p (l := whole.dropWhile p)
    have hhead : (whole.dropWhile p).head? = some x := by rw [← hrest, List.head?_append, hx, Option.some_or]
    have hnot := List.head?_dropWhile_not p whole
    rw [hhead] at hnot
    exact hnot
  · exact fun x hx => isFalse_of_getLast?_rdropWhile hx

namespace WithoutEdges

/-- More edges around a list do not change what is left without them. -/
theorem surround {front back : List α} (h : WithoutEdges p whole kept) (hfront : ∀ x ∈ front, p x = true)
    (hback : ∀ x ∈ back, p x = true) : WithoutEdges p (front ++ whole ++ back) kept := by
  obtain ⟨before, after, hwhole, hbefore, hafter⟩ := h.within
  refine ⟨⟨front ++ before, after ++ back, ?_, ?_, ?_⟩, h.head, h.last⟩
  · simp [hwhole]
  · exact List.forall_mem_append.mpr ⟨hfront, hbefore⟩
  · exact List.forall_mem_append.mpr ⟨hafter, hback⟩

/-- A list without its edges has no edges to drop. -/
theorem refl_kept (h : WithoutEdges p whole kept) : WithoutEdges p kept kept :=
  ⟨⟨[], [], by simp, by simp, by simp⟩, h.head, h.last⟩

/-- Nothing is kept only if there was nothing to keep. -/
theorem eq_nil_iff (h : WithoutEdges p whole kept) : kept = [] ↔ ∀ x ∈ whole, p x = true := by
  obtain ⟨before, after, hwhole, hbefore, hafter⟩ := h.within
  constructor
  · rintro rfl
    rw [hwhole, List.append_nil]
    exact List.forall_mem_append.mpr ⟨hbefore, hafter⟩
  · intro hall
    cases kept with
    | nil => rfl
    | cons x kept =>
      have hx := hall x (by simp [hwhole])
      rw [h.head x rfl] at hx
      cases hx

/-- The elements without the property all stay, in their order. -/
theorem filter_eq (h : WithoutEdges p whole kept) : whole.filter (! p ·) = kept.filter (! p ·) := by
  obtain ⟨before, after, hwhole, hbefore, hafter⟩ := h.within
  have hbefore : before.filter (! p ·) = [] := List.filter_eq_nil_iff.mpr fun x hx => by simp [hbefore x hx]
  have hafter : after.filter (! p ·) = [] := List.filter_eq_nil_iff.mpr fun x hx => by simp [hafter x hx]
  rw [hwhole, List.filter_append, List.filter_append, hbefore, hafter, List.nil_append, List.append_nil]

end WithoutEdges

end JavaSource
