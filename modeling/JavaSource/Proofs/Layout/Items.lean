import JavaSource.Layout.Page

namespace JavaSource

/-- What a line of source is made of before it is known how a level of
    indentation looks. -/
inductive Item where
  | blank
  | line (level : Nat) (text : String)
  deriving DecidableEq

/-- The line of an item: the unit of indentation once per level, and the text. -/
def Item.render (indent : Indent) : Item → String
  | .blank => ""
  | .line level text => indent.margin level ++ text

namespace Fragment

mutual

/-- The items of a fragment that starts at a level. -/
def items (level : Nat) : Fragment → List Item
  | .line text => [.line level text]
  | .blank => [.blank]
  | .block header body none => .line level header :: itemsOfAll (level + 1) body
  | .block header body (some close) =>
    .line level header :: (itemsOfAll (level + 1) body ++ [.line level close])
  | .indent body => itemsOfAll (level + 1) body

/-- The items of some fragments that start at a level, in order. -/
def itemsOfAll (level : Nat) : List Fragment → List Item
  | [] => []
  | f :: fs => f.items level ++ itemsOfAll level fs

end

theorem itemsOfAll_append (level : Nat) (first second : List Fragment) :
    itemsOfAll level (first ++ second) = itemsOfAll level first ++ itemsOfAll level second := by
  induction first with
  | nil => rfl
  | cons f first ih => rw [List.cons_append, itemsOfAll, ih, itemsOfAll, List.append_assoc]

theorem itemsOfAll_flatMap {α : Type} (level : Nat) (elements : List α)
    (fragmentsOf : α → List Fragment) :
    itemsOfAll level (elements.flatMap fragmentsOf) =
      elements.flatMap fun element => itemsOfAll level (fragmentsOf element) := by
  induction elements with
  | nil => rfl
  | cons element elements ih => rw [List.flatMap_cons, List.flatMap_cons, itemsOfAll_append, ih]

mutual

/-- No line of a fragment is outside the level that it starts at. -/
theorem level_le_of_mem_items {level line : Nat} {text : String} :
    ∀ (f : Fragment), Item.line line text ∈ f.items level → level ≤ line
  | .line _, h => by
    obtain ⟨rfl, _⟩ := Item.line.inj (List.mem_singleton.mp h)
    exact Nat.le_refl _
  | .blank, h => by simp [items] at h
  | .block header body none, h => by
    rcases List.mem_cons.mp h with hheader | hbody
    · obtain ⟨rfl, _⟩ := Item.line.inj hheader
      exact Nat.le_refl _
    · exact Nat.le_of_succ_le (level_le_of_mem_itemsOfAll body hbody)
  | .block header body (some close), h => by
    rcases List.mem_cons.mp h with hheader | hrest
    · obtain ⟨rfl, _⟩ := Item.line.inj hheader
      exact Nat.le_refl _
    · rcases List.mem_append.mp hrest with hbody | hclose
      · exact Nat.le_of_succ_le (level_le_of_mem_itemsOfAll body hbody)
      · obtain ⟨rfl, _⟩ := Item.line.inj (List.mem_singleton.mp hclose)
        exact Nat.le_refl _
  | .indent body, h => Nat.le_of_succ_le (level_le_of_mem_itemsOfAll body h)

/-- No line of some fragments is further out than the level they start at. -/
theorem level_le_of_mem_itemsOfAll {level line : Nat} {text : String} :
    ∀ (fragments : List Fragment), Item.line line text ∈ itemsOfAll level fragments → level ≤ line
  | [], h => by simp [itemsOfAll] at h
  | f :: fs, h => by
    rcases List.mem_append.mp h with hfirst | hrest
    · exact level_le_of_mem_items f hfirst
    · exact level_le_of_mem_itemsOfAll fs hrest

end

end Fragment

namespace Page

/-- The page with the lines of some items written on it. -/
def append (page : Page) (items : List Item) : Page :=
  { page with lines := page.lines ++ items.map (·.render page.indent) }

theorem append_append (page : Page) (first second : List Item) :
    (page.append first).append second = page.append (first ++ second) := by
  simp [append]

/-- What is written one level deeper does not change the level outside. -/
theorem append_deeper (page : Page) (items : List Item) :
    (page.deeper.append items).shallower = page.append items := rfl

mutual

/-- Writing a fragment leaves the level alone and adds the lines of its items. -/
theorem emit_eq_append (page : Page) : ∀ f : Fragment, page.emit f = page.append (f.items page.level)
  | .line text => rfl
  | .blank => rfl
  | .block header body none => by
    have hbody := emitAll_eq_append (page.line header).deeper body
    rw [emit, hbody, append_deeper]
    exact append_append page [.line page.level header] _
  | .block header body (some close) => by
    have hbody := emitAll_eq_append (page.line header).deeper body
    rw [emit, hbody, append_deeper, Fragment.items, ← List.cons_append, ← append_append]
    exact congrArg (Page.line · close) (append_append page [.line page.level header] _)
  | .indent body => by
    rw [emit, emitAll_eq_append page.deeper body, append_deeper]
    rfl

/-- To write fragments on a page is to write their items, from the level that the
    page is at. -/
theorem emitAll_eq_append (page : Page) :
    ∀ fragments : List Fragment,
      page.emitAll fragments = page.append (Fragment.itemsOfAll page.level fragments)
  | [] => by simp [emitAll, append, Fragment.itemsOfAll]
  | f :: fs => by
    rw [emitAll, emit_eq_append page f, emitAll_eq_append _ fs]
    exact append_append page (f.items page.level) _

end

end Page

namespace Fragment

/-- The lines of a sequence of fragments laid out from some level. -/
def linesFrom (indent : Indent) (level : Nat) (fragments : List Fragment) : List String :=
  (Page.emitAll ⟨indent, level, []⟩ fragments).lines

/-- The lines of fragments are those of their items, for every indentation. -/
theorem linesFrom_eq_map (indent : Indent) (level : Nat) (fragments : List Fragment) :
    linesFrom indent level fragments = (itemsOfAll level fragments).map (·.render indent) := by
  rw [linesFrom, Page.emitAll_eq_append]
  rfl

/-- Fragments laid out on a page of their own start at the outermost level. -/
theorem linesIn_eq_map (indent : Indent) (fragments : List Fragment) :
    linesIn indent fragments = (itemsOfAll 0 fragments).map (·.render indent) :=
  linesFrom_eq_map indent 0 fragments

theorem linesFrom_append (indent : Indent) (level : Nat) (first second : List Fragment) :
    linesFrom indent level (first ++ second) =
      linesFrom indent level first ++ linesFrom indent level second := by
  simp only [linesFrom_eq_map, itemsOfAll_append, List.map_append]

theorem linesFrom_flatMap {α : Type} (indent : Indent) (level : Nat) (elements : List α)
    (fragmentsOf : α → List Fragment) :
    linesFrom indent level (elements.flatMap fragmentsOf) =
      elements.flatMap fun element => linesFrom indent level (fragmentsOf element) := by
  simp only [linesFrom_eq_map, itemsOfAll_flatMap, List.map_flatMap]

/-- The lines of a block are its header, its body one level in, and its closing
    line. -/
theorem linesFrom_block (indent : Indent) (level : Nat) (header : String) (body : List Fragment)
    (close : String) :
    linesFrom indent level [.block header body (some close)] =
      linesFrom indent level [.line header] ++ linesFrom indent (level + 1) body ++
        linesFrom indent level [.line close] := by
  simp [linesFrom_eq_map, itemsOfAll, items]

end Fragment

end JavaSource
