import JavaSource.Proofs.Layout.Items
import JavaSource.Proofs.Text.Replace

namespace JavaSource

open Text (Delimits StandsIn)

/-- An item with every occurrence of a pattern in its text replaced. -/
def Item.replace (pattern replacement : String) : Item → Item
  | .blank => .blank
  | .line level text => .line level (replaceAll pattern replacement text)

namespace Fragment

mutual

/-- Replacing text in a fragment replaces it in its lines and moves none of them. -/
theorem items_replace (pattern replacement : String) (level : Nat) : ∀ f : Fragment,
    (f.replace pattern replacement).items level =
      (f.items level).map (Item.replace pattern replacement)
  | .line text => rfl
  | .blank => rfl
  | .block header body none => by
    rw [replace, Option.map_none, items, items, itemsOfAll_replaceEach pattern replacement (level + 1) body]
    rfl
  | .block header body (some close) => by
    rw [replace, Option.map_some, items, items, itemsOfAll_replaceEach pattern replacement (level + 1) body,
      List.map_cons, List.map_append]
    rfl
  | .indent body => itemsOfAll_replaceEach pattern replacement (level + 1) body

/-- The items of replaced fragments are their items, replaced. -/
theorem itemsOfAll_replaceEach (pattern replacement : String) (level : Nat) : ∀ fragments : List Fragment,
    itemsOfAll level (replaceEach pattern replacement fragments) =
      (itemsOfAll level fragments).map (Item.replace pattern replacement)
  | [] => rfl
  | f :: fs => by
    rw [replaceEach, itemsOfAll, itemsOfAll, List.map_append, items_replace pattern replacement level f,
      itemsOfAll_replaceEach pattern replacement level fs]

end

end Fragment

section Linewise

variable {pattern : String} {first : Char} {more : List Char}

/-- Replacing goes past the margin of a line, where no occurrence begins. -/
theorem Item.render_replace (hpattern : pattern.toList = first :: more) (hspace : first ≠ ' ')
    (htab : first ≠ '\t') (replacement : String) (indent : Indent) (item : Item) :
    (item.replace pattern replacement).render indent =
      replaceAll pattern replacement (item.render indent) := by
  cases item with
  | blank =>
    rw [Item.replace, render, replaceAll, hpattern]
    rfl
  | line level text =>
    have hmargin : first ∉ (indent.margin level).toList := fun hmem =>
      (Indent.mem_margin hmem).elim hspace htab
    rw [Item.replace, render, render, replaceAll, replaceAll, hpattern, String.toList_append,
      Text.replace_append_of_notMem hmargin, String.ofList_append, String.ofList_toList]

/-- To replace text in fragments is to replace it in each of their lines. -/
theorem Fragment.linesFrom_replace (hpattern : pattern.toList = first :: more) (hspace : first ≠ ' ')
    (htab : first ≠ '\t') (replacement : String) (indent : Indent) (level : Nat) (fragments : List Fragment) :
    linesFrom indent level (fragments.map (Fragment.replace pattern replacement)) =
      (linesFrom indent level fragments).map (replaceAll pattern replacement) := by
  rw [← replaceEach_eq_map, linesFrom_eq_map, linesFrom_eq_map, itemsOfAll_replaceEach, List.map_map,
    List.map_map]
  exact List.map_congr_left fun item _ => item.render_replace hpattern hspace htab replacement indent

end Linewise

namespace Fragment

/-- A word stands in one of the lines of some fragments. -/
def Prints (inWord : Char → Prop) (word : List Char) (fragments : List Fragment) : Prop :=
  ∀ level, ∃ line text, Item.line line text ∈ itemsOfAll level fragments ∧
    StandsIn inWord word text.toList

variable {inWord : Char → Prop} {word : List Char} {fragments : List Fragment} {f : Fragment}

/-- The items of one of the fragments are among the items of all. -/
theorem items_subset (hmem : f ∈ fragments) (level : Nat) : f.items level ⊆ itemsOfAll level fragments := by
  obtain ⟨front, back, rfl⟩ := List.append_of_mem hmem
  intro item hitem
  rw [itemsOfAll_append]
  exact List.mem_append_right _ (List.mem_append_left _ hitem)

theorem Prints.of_line {text : String} (h : StandsIn inWord word text.toList)
    (hmem : .line text ∈ fragments) : Prints inWord word fragments :=
  fun level => ⟨level, text, items_subset hmem level (List.mem_singleton.mpr rfl), h⟩

theorem Prints.of_header {header : String} {body : List Fragment} {close : Option String}
    (h : StandsIn inWord word header.toList) (hmem : .block header body close ∈ fragments) :
    Prints inWord word fragments := by
  intro level
  refine ⟨level, header, items_subset hmem level ?_, h⟩
  cases close <;> exact List.mem_cons_self

/-- What the body of a block prints the block prints. -/
theorem Prints.of_body {header : String} {body : List Fragment} {close : Option String}
    (h : Prints inWord word body) (hmem : .block header body close ∈ fragments) :
    Prints inWord word fragments := by
  intro level
  obtain ⟨line, text, hitem, hstands⟩ := h (level + 1)
  refine ⟨line, text, items_subset hmem level ?_, hstands⟩
  cases close with
  | none => exact List.mem_cons_of_mem _ hitem
  | some close => exact List.mem_cons_of_mem _ (List.mem_append_left _ hitem)

/-- More fragments behind do not take a word away. -/
theorem Prints.append_left (h : Prints inWord word fragments) (more : List Fragment) :
    Prints inWord word (fragments ++ more) := by
  intro level
  obtain ⟨line, text, hitem, hstands⟩ := h level
  rw [itemsOfAll_append]
  exact ⟨line, text, List.mem_append_left _ hitem, hstands⟩

theorem Prints.append_right (h : Prints inWord word fragments) (front : List Fragment) :
    Prints inWord word (front ++ fragments) := by
  intro level
  obtain ⟨line, text, hitem, hstands⟩ := h level
  rw [itemsOfAll_append]
  exact ⟨line, text, List.mem_append_right _ hitem, hstands⟩

/-- What one of many elements prints is printed with all of them. -/
theorem Prints.flatMap {α : Type} {elements : List α} {element : α} {fragmentsOf : α → List Fragment}
    (h : Prints inWord word (fragmentsOf element)) (hmem : element ∈ elements) :
    Prints inWord word (elements.flatMap fragmentsOf) := by
  intro level
  obtain ⟨line, text, hitem, hstands⟩ := h level
  rw [itemsOfAll_flatMap]
  exact ⟨line, text, List.mem_flatMap.mpr ⟨element, hmem, hitem⟩, hstands⟩

theorem Prints.mono {inWord' : Char → Prop} (h : Prints inWord word fragments)
    (himp : ∀ c, inWord' c → inWord c) : Prints inWord' word fragments := by
  intro level
  obtain ⟨line, text, hitem, hstands⟩ := h level
  exact ⟨line, text, hitem, hstands.mono himp⟩

end Fragment

/-- A word outlives the replacement of a pattern that begins with a character the word
    does not have. -/
theorem Fragment.Prints.replace {inWord : Char → Prop} {word : List Char} {fragments : List Fragment}
    {pattern : String} {first : Char} {more : List Char} (h : Prints inWord word fragments)
    (hfirst : pattern.toList = first :: more) (hpattern : ∀ c ∈ first :: more, inWord c)
    (hword : first ∉ word) (replacement : String) :
    Prints inWord word (fragments.map (Fragment.replace pattern replacement)) := by
  intro level
  obtain ⟨line, text, hitem, hstands⟩ := h level
  rw [← replaceEach_eq_map, itemsOfAll_replaceEach]
  refine ⟨line, replaceAll pattern replacement text, List.mem_map_of_mem hitem, ?_⟩
  rw [replaceAll, hfirst, String.toList_ofList]
  exact hstands.replace hpattern hword replacement.toList

/-- Indentation is white space, so it does not hide the words of a line. -/
theorem Item.standsIn_render {inWord : Char → Prop} {word : List Char} {text : String}
    (hspace : ¬ inWord ' ') (htab : ¬ inWord '\t') (indent : Indent) (level : Nat)
    (h : StandsIn inWord word text.toList) :
    StandsIn inWord word ((Item.line level text).render indent).toList := by
  have hmargin : ∀ c ∈ (indent.margin level).toList, ¬ inWord c := by
    intro c hc
    obtain rfl | rfl := Indent.mem_margin hc
    · exact hspace
    · exact htab
  have hdelimits : Delimits inWord (indent.margin level).toList [] :=
    ⟨fun c hc => hmargin c (List.mem_of_getLast? hc), nofun⟩
  have hsurround := h.surround hdelimits
  rwa [List.append_nil, ← String.toList_append] at hsurround

end JavaSource
