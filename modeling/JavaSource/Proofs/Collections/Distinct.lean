import JavaSource.Collections.Distinct
import JavaSource.Proofs.Collections.Equality
import Mathlib.Data.List.Induction
import Mathlib.Data.List.Nodup

namespace JavaSource.Distinct

variable {α β : Type} [BEq α]

/-- An element that is already there is not added. -/
theorem add_of_contains {elements : List α} {element : α} (h : elements.contains element = true) :
    add elements element = elements := by
  rw [add, if_pos h]

/-- A batch whose elements are all there adds nothing. -/
theorem addAll_of_contains {elements batch : List α}
    (h : ∀ element ∈ batch, elements.contains element = true) : addAll elements batch = elements := by
  induction batch with
  | nil => rfl
  | cons first batch ih =>
    rw [addAll_cons, add_of_contains (h first List.mem_cons_self),
      ih fun element hmem => h element (List.mem_cons_of_mem _ hmem)]

theorem subset_add (elements : List α) (element : α) : elements ⊆ add elements element := by
  rw [add]
  split
  · exact List.Subset.refl _
  · exact List.subset_append_left _ _

/-- An added element is there afterwards, in itself or in one equal to it. -/
theorem exists_mem_add [ReflBEq α] (elements : List α) (element : α) :
    ∃ kept ∈ add elements element, (element == kept) = true := by
  rw [add]
  split
  · next h => exact List.contains_iff_exists_mem_beq.mp h
  · exact ⟨element, List.mem_append_right _ (List.mem_singleton.mpr rfl), BEq.rfl⟩

theorem subset_addAll (elements batch : List α) : elements ⊆ addAll elements batch := by
  induction batch generalizing elements with
  | nil => exact List.Subset.refl _
  | cons first batch ih => exact List.Subset.trans (subset_add elements first) (ih (add elements first))

/-- Whatever is added is there in the end, or an element that is equal to it. -/
theorem exists_mem_addAll [ReflBEq α] {elements batch : List α} {element : α}
    (h : element ∈ elements ++ batch) : ∃ kept ∈ addAll elements batch, (element == kept) = true := by
  induction batch generalizing elements with
  | nil =>
    rw [List.append_nil] at h
    exact ⟨element, h, BEq.rfl⟩
  | cons first batch ih =>
    obtain helements | hbatch := List.mem_append.mp h
    · exact ih (List.mem_append_left _ (subset_add elements first helements))
    · obtain rfl | hbatch := List.mem_cons.mp hbatch
      · obtain ⟨kept, hkept, heq⟩ := exists_mem_add elements element
        exact ⟨kept, subset_addAll _ batch hkept, heq⟩
      · exact ih (List.mem_append_right _ hbatch)

/-- Equal elements have the same text. So whatever is added, the text of a
    duplicate that is dropped is that of an element that is kept. -/
structure KeepsText (text : α → β) : Prop where
  respects : Respects text
  kept : ∀ elements batch, ∀ element ∈ elements ++ batch, ∃ kept ∈ addAll elements batch,
    (element == kept) = true ∧ text kept = text element

/-- Where equal elements have equal texts, dropping repeats loses no text. -/
theorem KeepsText.of_respects [ReflBEq α] {text : α → β} (htext : Respects text) : KeepsText text where
  respects := htext
  kept elements batch element h := by
    obtain ⟨kept, hkept, heq⟩ := exists_mem_addAll h
    exact ⟨kept, hkept, heq, (htext _ _ heq).symm⟩

/-- To remove the duplicates of a list is to add its elements one by one. -/
theorem eraseDups_concat (elements : List α) (element : α) :
    (elements ++ [element]).eraseDups = add elements.eraseDups element := by
  match elements with
  | [] => simp [add, List.eraseDups_cons]
  | first :: rest =>
    have hrest := eraseDups_concat (rest.filter fun other => !other == first) element
    rw [List.cons_append, List.eraseDups_cons, List.eraseDups_cons, List.filter_append]
    -- An element equal to the first one goes with its duplicates, any other one is left to the rest.
    by_cases hfirst : (element == first) = true
    · have hcontains : (first :: (rest.filter fun other => !other == first).eraseDups).contains element =
          true := by
        rw [List.contains_cons, hfirst, Bool.true_or]
      rw [add_of_contains hcontains, List.filter_cons_of_neg (by simp [hfirst]), List.filter_nil,
        List.append_nil]
    · rw [List.filter_cons_of_pos (by simp [hfirst]), List.filter_nil, hrest, add, add, List.contains_cons,
        Bool.not_eq_true _ |>.mp hfirst, Bool.false_or]
      split
      · rfl
      · rfl
termination_by elements.length
decreasing_by exact Nat.lt_succ_of_le (List.length_filter_le _ _)

/-- Dropping the repeats of two lists in turn drops the repeats of both. -/
theorem eraseDups_append (elements batch : List α) :
    (elements ++ batch).eraseDups = addAll elements.eraseDups batch := by
  induction batch generalizing elements with
  | nil => rw [List.append_nil, addAll, List.foldl_nil]
  | cons first batch ih => rw [List.append_cons, ih, eraseDups_concat, addAll_cons]

/-- A list has no repeats left once they are dropped. -/
theorem nodup_eraseDups [LawfulBEq α] (elements : List α) : elements.eraseDups.Nodup := by
  induction elements using List.reverseRecOn with
  | nil => exact List.nodup_nil
  | append_singleton elements element ih =>
    rw [eraseDups_concat, add]
    split
    · exact ih
    · next hnew =>
      rw [List.contains_iff_mem] at hnew
      rw [← List.concat_eq_append]
      exact ih.concat hnew

end JavaSource.Distinct
