import JavaSource.Listing
import JavaSource.Proofs.Layout.Printing

namespace JavaSource

open Fragment (itemsOfAll itemsOfAll_append itemsOfAll_flatMap)

/-- The accessors of a field one level deep, each as far as it is asked for. -/
def Field.accessorItems (field : Field) : List Item :=
  (if field.setter then itemsOfAll 1 field.setterFragments else []) ++
    (if field.getter then itemsOfAll 1 field.getterFragments else [])

namespace CompilationUnit

variable {kind : UnitKind}

/-- The members of a unit, one level deep, in the order of its kind. In a constructor the
    name of the unit takes the place that is kept for it. -/
def memberItems (unit : CompilationUnit kind) : List Item :=
  match unit.shape with
  | .ofClass _ _ constructors =>
    unit.fields.flatMap (fun field => itemsOfAll 1 field.fragments) ++
      unit.fields.flatMap (·.accessorItems) ++
      constructors.flatMap (fun c =>
        (itemsOfAll 1 c.fragments).map (Item.replace classNamePlaceholder unit.name)) ++
      unit.methods.flatMap (fun method => itemsOfAll 1 method.fragments)
  | .ofInterface _ =>
    unit.fields.flatMap (fun field => itemsOfAll 1 field.fragments) ++
      unit.methods.flatMap (fun method => itemsOfAll 1 method.fragments)
  | .ofRecord => unit.methods.flatMap (fun method => itemsOfAll 1 method.fragments)

/-- The package line and the blank line below it, unless there is no package. -/
def packageItems (unit : CompilationUnit kind) : List Item :=
  if unit.package = "" then [] else [.line 0 ("package " ++ unit.package ++ ";"), .blank]

/-- One line for each import and a blank line below them, unless there are none. -/
def importItems (unit : CompilationUnit kind) : List Item :=
  if unit.resolvedImports.names = [] then []
  else unit.resolvedImports.names.map (fun name => .line 0 ("import " ++ name ++ ";")) ++ [.blank]

/-- What a unit consists of, from the package to the closing brace. No
    configuration has a part in it. -/
def items (unit : CompilationUnit kind) : List Item :=
  unit.packageItems ++ unit.importItems ++
    unit.annotations.flatMap (fun a => itemsOfAll 0 a.fragments) ++
    .line 0 unit.header :: (unit.memberItems ++ [.line 0 closeBrace])

private theorem itemsOfAll_accessors (field : Field) :
    itemsOfAll 1 field.accessors = field.accessorItems := by
  rw [Field.accessors, itemsOfAll_append, Field.accessorItems]
  cases field.setter <;> cases field.getter <;> rfl

private theorem itemsOfAll_fragmentsFor (c : Constructor) (className : String) :
    itemsOfAll 1 (c.fragmentsFor className) =
      (itemsOfAll 1 c.fragments).map (Item.replace classNamePlaceholder className) := by
  rw [Constructor.fragmentsFor, ← Fragment.replaceEach_eq_map, Fragment.itemsOfAll_replaceEach]

/-- The members of a unit lay out as its member items, one level in. -/
theorem itemsOfAll_members (unit : CompilationUnit kind) :
    itemsOfAll 1 unit.members = unit.memberItems := by
  unfold members memberItems
  cases unit.shape with
  | ofClass superclass interfaces constructors =>
    simp only [itemsOfAll_append, itemsOfAll_flatMap, itemsOfAll_accessors, itemsOfAll_fragmentsFor]
  | ofInterface parents => simp only [itemsOfAll_append, itemsOfAll_flatMap]
  | ofRecord => simp only [itemsOfAll_flatMap]

private theorem itemsOfAll_package (unit : CompilationUnit kind) :
    itemsOfAll 0 unit.packageFragments = unit.packageItems := by
  unfold packageFragments packageItems
  by_cases hpackage : unit.package = ""
  · simp [hpackage, itemsOfAll]
  · simp [hpackage, itemsOfAll, Fragment.items]

private theorem itemsOfAll_lines (texts : List String) (textOf : String → String) :
    itemsOfAll 0 (texts.map fun text => .line (textOf text)) =
      texts.map fun text => .line 0 (textOf text) := by
  induction texts with
  | nil => rfl
  | cons text texts ih =>
    rw [List.map_cons, itemsOfAll, ih]
    rfl

private theorem itemsOfAll_imports (unit : CompilationUnit kind) :
    itemsOfAll 0 unit.importFragments = unit.importItems := by
  unfold importFragments importItems
  split
  · next hnames => rw [if_pos hnames, itemsOfAll]
  · next hnames =>
    rw [if_neg hnames, itemsOfAll_append, itemsOfAll_lines _ fun name => "import " ++ name ++ ";"]
    rfl

/-- The fragments of a unit lay out as its items. -/
theorem itemsOfAll_fragments (unit : CompilationUnit kind) :
    itemsOfAll 0 unit.fragments = unit.items := by
  have hblock : itemsOfAll 0 [.block unit.header unit.members (some closeBrace)] =
      .line 0 unit.header :: (unit.memberItems ++ [.line 0 closeBrace]) := by
    rw [← itemsOfAll_members]
    simp [itemsOfAll, Fragment.items]
  rw [fragments, itemsOfAll_append, itemsOfAll_append, itemsOfAll_append, itemsOfAll_package,
    itemsOfAll_imports, hblock, Annotation.fragmentsOfAll, itemsOfAll_flatMap]
  rfl

/-- Every line of a member is at least one level in. -/
theorem one_le_of_mem_memberItems {unit : CompilationUnit kind} {level : Nat} {text : String}
    (h : Item.line level text ∈ unit.memberItems) : 1 ≤ level := by
  rw [← itemsOfAll_members] at h
  exact Fragment.level_le_of_mem_itemsOfAll _ h

/-- A unit with a name has a listing, which is placed by the name and the package. -/
theorem exists_listing {unit : CompilationUnit kind} (hname : isBlank unit.name = false) (config : RenderConfig) :
    ∃ listing, unit.listing config = .ok listing ∧ listing.className = unit.name ∧
      listing.packagePath = .ofPackage unit.package := by
  unfold listing
  rw [hname]
  exact ⟨_, rfl, rfl, rfl⟩

/-- The lines of a listing are the items of its unit, under the indent of its
    config. -/
theorem lines_of_listing {unit : CompilationUnit kind} {config : RenderConfig} {listing : Listing}
    (h : unit.listing config = .ok listing) : listing.lines = unit.items.map (·.render config.indent) := by
  unfold CompilationUnit.listing at h
  split at h
  · cases h
  · obtain rfl := Except.ok.inj h
    rw [← itemsOfAll_fragments]
    exact Fragment.linesIn_eq_map config.indent unit.fragments

/-- Layout and content are separate: the lines of a unit are its items, in
    whatever way a configuration indents them, and nothing else about a
    configuration shows in the listing. -/
theorem listing_lines (unit : CompilationUnit kind) (hname : isBlank unit.name = false) :
    (∀ config : RenderConfig, ∃ listing, unit.listing config = .ok listing ∧
      listing.lines = unit.items.map (·.render config.indent)) ∧
    (∀ level text, Item.line level text ∈ unit.memberItems → 1 ≤ level) ∧
    ∀ config config' : RenderConfig, config.indent = config'.indent →
      unit.listing config = unit.listing config' := by
  refine ⟨?_, fun level text => one_le_of_mem_memberItems, ?_⟩
  · intro config
    unfold listing
    rw [hname]
    refine ⟨_, rfl, ?_⟩
    rw [← itemsOfAll_fragments]
    exact Fragment.linesIn_eq_map config.indent unit.fragments
  · intro config config' hindent
    unfold listing
    rw [hindent]

/-- A class with one field. -/
def widget : CompilationUnit .classUnit :=
  .ofEdits "com.acme" "Widget" [.field ⟨"size", .native "int", [.privateKw], none, false, false, []⟩]

/-- The field of the class is one tab in. -/
theorem listing_lines_widget : ∃ listing, widget.listing { indent := .tab } = .ok listing ∧
    listing.lines = ["package com.acme;", "", "class Widget" ++ openBrace, "\tprivate int size;", "",
      closeBrace] := by
  have hitems : widget.items = [.line 0 "package com.acme;", .blank, .line 0 ("class Widget" ++ openBrace),
      .line 1 "private int size;", .blank, .line 0 closeBrace] := by decide +kernel
  obtain ⟨listing, hlisting, hlines⟩ := (listing_lines widget (by decide)).1 { indent := .tab }
  rw [hitems] at hlines
  refine ⟨listing, hlisting, ?_⟩
  rw [hlines]
  decide

end CompilationUnit

end JavaSource
