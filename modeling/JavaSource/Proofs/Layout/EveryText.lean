import JavaSource.Proofs.Layout.Printing

namespace JavaSource.Fragment

/-- Every text in some fragments has a property: the lines, and the headers and the
    closing lines of blocks. -/
def EveryText (P : String → Prop) (fragments : List Fragment) : Prop :=
  ∀ level line text, Item.line line text ∈ itemsOfAll level fragments → P text

variable {P Q : String → Prop} {fragments : List Fragment}

theorem EveryText.nil : EveryText P [] := by
  intro level line text h
  cases h

/-- A sequence of fragments may be looked at in two parts. -/
theorem EveryText.append {first second : List Fragment} (hfirst : EveryText P first)
    (hsecond : EveryText P second) : EveryText P (first ++ second) := by
  intro level line text h
  rw [itemsOfAll_append, List.mem_append] at h
  exact h.elim (hfirst level line text) (hsecond level line text)

/-- The fragments of many elements may be looked at element by element. -/
theorem EveryText.flatMap {α : Type} {elements : List α} {fragmentsOf : α → List Fragment}
    (h : ∀ element ∈ elements, EveryText P (fragmentsOf element)) : EveryText P (elements.flatMap fragmentsOf) := by
  intro level line text hitem
  rw [itemsOfAll_flatMap, List.mem_flatMap] at hitem
  obtain ⟨element, hmem, hitem⟩ := hitem
  exact h element hmem level line text hitem

theorem EveryText.map {α : Type} {elements : List α} {fragmentOf : α → Fragment}
    (h : ∀ element ∈ elements, EveryText P [fragmentOf element]) : EveryText P (elements.map fragmentOf) := by
  rw [List.map_eq_flatMap]
  exact .flatMap h

/-- The first fragment may be looked at by itself. -/
theorem EveryText.cons {f : Fragment} (hf : EveryText P [f]) (hrest : EveryText P fragments) :
    EveryText P (f :: fragments) :=
  hf.append hrest

/-- A blank line has no text to look at. -/
theorem EveryText.blank : EveryText P [.blank] := by
  intro level line text h
  cases List.mem_singleton.mp h

/-- The only text of a line is its own. -/
theorem EveryText.line {text : String} (h : P text) : EveryText P [.line text] := by
  intro level line other hitem
  obtain ⟨_, rfl⟩ := Item.line.inj (List.mem_singleton.mp hitem)
  exact h

/-- A block has the texts of its body between its header and its closing line. -/
theorem EveryText.block {header : String} {body : List Fragment} {close : String} (hheader : P header)
    (hbody : EveryText P body) (hclose : P close) : EveryText P [.block header body (some close)] := by
  intro level line text hitem
  rw [itemsOfAll, itemsOfAll, List.append_nil] at hitem
  obtain hitem | hitem := List.mem_cons.mp hitem
  · obtain ⟨_, rfl⟩ := Item.line.inj hitem
    exact hheader
  · obtain hitem | hitem := List.mem_append.mp hitem
    · exact hbody _ _ _ hitem
    · obtain ⟨_, rfl⟩ := Item.line.inj (List.mem_singleton.mp hitem)
      exact hclose

/-- A replacement in the fragments is made in each of their texts. -/
theorem EveryText.replace {pattern replacement : String} (h : EveryText P fragments)
    (hreplace : ∀ text, P text → Q (replaceAll pattern replacement text)) :
    EveryText Q (fragments.map (Fragment.replace pattern replacement)) := by
  intro level line text hitem
  rw [← replaceEach_eq_map, itemsOfAll_replaceEach] at hitem
  obtain ⟨item, hmem, heq⟩ := List.mem_map.mp hitem
  cases item with
  | blank => cases heq
  | line line' text' =>
    obtain ⟨rfl, rfl⟩ := Item.line.inj heq
    exact hreplace text' (h level line' text' hmem)

end JavaSource.Fragment
