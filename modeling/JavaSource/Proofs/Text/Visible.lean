import JavaSource.Layout.Indent
import JavaSource.Proofs.Text.OneLine
import JavaSource.Proofs.Text.Trim

namespace JavaSource

/-- A text with a character that is not white space. -/
def Visible (s : String) : Prop :=
  ∃ c ∈ s.toList, Text.isSpace c = false

-- The list is searched, since the instance that would be found tries all characters there are.
instance : DecidablePred Visible := fun s =>
  List.decidableBEx (fun c => Text.isSpace c = false) s.toList

@[simp] theorem visible_append {s t : String} : Visible (s ++ t) ↔ Visible s ∨ Visible t := by
  simp [Visible, or_and_right, exists_or]

/-- A text shows what it shows behind any other. -/
theorem Visible.append_left {t : String} (h : Visible t) (s : String) : Visible (s ++ t) :=
  visible_append.mpr (.inr h)

/-- What is not blank shows something. -/
theorem visible_iff {s : String} : Visible s ↔ isBlank s = false := by
  rw [← Bool.not_eq_true, isBlank_iff_blank]
  simp [Text.Blank, Visible]

/-- Whatever is left of a line when its end is trimmed ends in a visible character. -/
theorem Text.visible_trimEnd {text : List Char} (h : trimEnd text ≠ []) :
    Visible (String.ofList (trimEnd text)) := by
  refine ⟨(trimEnd text).getLast h, ?_, isSpace_of_getLast?_trimEnd (List.getLast?_eq_some_getLast h)⟩
  rw [String.toList_ofList]
  exact List.getLast_mem h

/-- Where no occurrence of the pattern is under way, a visible character stays or
    gives way to a replacement. -/
theorem Text.exists_visible_replaceFrom {pattern replacement text : List Char}
    (hreplacement : ∃ c ∈ replacement, isSpace c = false) (htext : ∃ c ∈ text, isSpace c = false) :
    ∃ c ∈ replaceFrom pattern replacement 0 text, isSpace c = false := by
  induction text with
  | nil => simp at htext
  | cons first rest ih =>
    rw [replaceFrom]
    split
    · obtain ⟨c, hc, hspace⟩ := hreplacement
      exact ⟨c, List.mem_append_left _ hc, hspace⟩
    · obtain ⟨c, hc, hspace⟩ := htext
      obtain rfl | hc := List.mem_cons.mp hc
      · exact ⟨c, List.mem_cons_self, hspace⟩
      · obtain ⟨d, hd, hspace⟩ := ih ⟨c, hc, hspace⟩
        exact ⟨d, List.mem_cons_of_mem _ hd, hspace⟩

/-- A text still shows something if what is filled in does. -/
theorem Visible.replaceAll {replacement s : String} (pattern : String) (hreplacement : Visible replacement)
    (hs : Visible s) : Visible (replaceAll pattern replacement s) := by
  rw [Visible, JavaSource.replaceAll, String.toList_ofList, Text.replace]
  split
  · -- The empty pattern leaves a replacement in front, whatever the text is.
    obtain ⟨mark, hmark, hspace⟩ := hreplacement
    refine ⟨mark, ?_, hspace⟩
    cases s.toList with
    | nil => exact hmark
    | cons c rest => exact List.mem_append_left _ hmark
  · exact Text.exists_visible_replaceFrom hreplacement hs

/-- Every line of a block shows something, unless it is empty. -/
theorem Body.visible_of_mem_contentLines {body line : List Char} (h : line ∈ contentLines body) (hne : line ≠ []) :
    Visible (String.ofList line) := by
  obtain ⟨whole, _, rfl⟩ := exists_of_mem_contentLines h
  exact Text.visible_trimEnd hne

end JavaSource
