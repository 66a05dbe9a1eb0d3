import JavaSource.Proofs.CompilationUnit.Layout
import JavaSource.Proofs.CompilationUnit.Mentions
import JavaSource.Proofs.Layout.Printing

namespace JavaSource

open Fragment (linesFrom linesFrom_append linesFrom_block linesFrom_flatMap linesFrom_replace)

/-- Filling in the class name before the layout is the same as filling it in line by
    line. -/
theorem Constructor.linesFrom_fragmentsFor (c : Constructor) (className : String) (indent : Indent) (level : Nat) :
    linesFrom indent level (c.fragmentsFor className) =
      (linesFrom indent level c.fragments).map (replaceAll classNamePlaceholder className) :=
  linesFrom_replace rfl (by decide) (by decide) className indent level c.fragments

namespace CompilationUnit

/-- The lines of a class in front of its constructors. -/
def linesAbove (unit : CompilationUnit .classUnit) (indent : Indent) : List String :=
  linesFrom indent 0 (unit.packageFragments ++ unit.importFragments ++
      Annotation.fragmentsOfAll unit.annotations ++ [.line unit.header]) ++
    linesFrom indent 1 (unit.fields.flatMap (·.fragments) ++ unit.fields.flatMap (·.accessors))

/-- The lines of a class behind its constructors. -/
def linesBelow (unit : CompilationUnit .classUnit) (indent : Indent) : List String :=
  linesFrom indent 1 (unit.methods.flatMap (·.fragments)) ++ [closeBrace]

/-- A class has fields, accessors, constructors and methods, in this order. -/
theorem members_of_class (unit : CompilationUnit .classUnit) :
    unit.members = unit.fields.flatMap (·.fragments) ++ unit.fields.flatMap (·.accessors) ++
      unit.shape.constructors.flatMap (·.fragmentsFor unit.name) ++ unit.methods.flatMap (·.fragments) := by
  unfold members
  cases unit.shape with
  | ofClass superclass interfaces constructors => rfl

/-- The constructors of a class stand between lines that are not substituted in. -/
theorem linesFrom_fragments_of_class (unit : CompilationUnit .classUnit) (indent : Indent) :
    linesFrom indent 0 unit.fragments =
      unit.linesAbove indent ++
        unit.shape.constructors.flatMap (fun c =>
          (linesFrom indent 1 c.fragments).map (replaceAll classNamePlaceholder unit.name)) ++
        unit.linesBelow indent := by
  have hclose : linesFrom indent 0 [.line closeBrace] = [closeBrace] := by
    simp [Fragment.linesFrom_eq_map, Fragment.itemsOfAll, Fragment.items, Item.render, Indent.margin]
  simp only [fragments, linesAbove, linesBelow, members_of_class, linesFrom_append, linesFrom_block,
    linesFrom_flatMap, Constructor.linesFrom_fragmentsFor, hclose, List.append_assoc]

/-- Text may be replaced in fragments or in the lines they are laid out in, if no margin can
    begin what is replaced. So a class writes its constructors as they are one level deep,
    line by line with its name for the placeholder. -/
theorem listing_replaces_linewise :
    (∀ (indent : Indent) (level : Nat) (fragments : List Fragment) (pattern replacement : String)
      (first : Char) (more : List Char), pattern.toList = first :: more → first ≠ ' ' → first ≠ '\t' →
        linesFrom indent level (fragments.map (Fragment.replace pattern replacement)) =
          (linesFrom indent level fragments).map (replaceAll pattern replacement)) ∧
    ∀ (unit : CompilationUnit .classUnit) (config : RenderConfig), isBlank unit.name = false →
      ∃ listing, unit.listing config = .ok listing ∧
        listing.lines = unit.linesAbove config.indent ++
          unit.shape.constructors.flatMap (fun c =>
            (linesFrom config.indent 1 c.fragments).map (replaceAll classNamePlaceholder unit.name)) ++
          unit.linesBelow config.indent := by
  refine ⟨?_, ?_⟩
  · intro indent level fragments pattern replacement first more hpattern hspace htab
    exact linesFrom_replace hpattern hspace htab replacement indent level fragments
  · intro unit config hname
    obtain ⟨listing, hlisting, _⟩ := exists_listing hname config
    refine ⟨listing, hlisting, ?_⟩
    rw [lines_of_listing hlisting, ← itemsOfAll_fragments, ← Fragment.linesFrom_eq_map]
    exact unit.linesFrom_fragments_of_class config.indent

/-- A class between whose field and method there is a constructor with the placeholder in
    its signature and, twice on one line, in its body. -/
def gadget : CompilationUnit .classUnit :=
  .ofEdits "" "Gadget" [.field ⟨"size", .native "int", [], none, false, false, []⟩,
    .constructor ⟨[], [], some "{_CLASSNAME_}.add({_CLASSNAME_}.class);", []⟩,
    .method ⟨"run", none, [], [], none, false, []⟩]

/-- A replacement that leaves the pattern behind is made once, and the body of the
    constructor has the class name in both places. -/
theorem listing_replaces_linewise_gadget :
    linesFrom .tab 2 ([.block "{X}" [.blank, .line (" " ++ openBrace ++ "X{X}")] none].map
      (Fragment.replace "{X}" ("X" ++ closeBrace))) = ["\t\tX" ++ closeBrace, "", "\t\t\t {XX}"] ∧
    ∃ listing, gadget.listing {} = .ok listing ∧
      listing.lines = ["class Gadget" ++ openBrace, "    int size;", "", "    Gadget()" ++ openBrace,
        "        Gadget.add(Gadget.class);", "    " ++ closeBrace, "", "    void run()" ++ openBrace,
        "    " ++ closeBrace, "", closeBrace] := by
  refine ⟨?_, ?_⟩
  · rw [listing_replaces_linewise.1 .tab 2 _ "{X}" ("X" ++ closeBrace) '{' ['X', '}'] (by decide) (by decide)
      (by decide)]
    decide
  · have habove : gadget.linesAbove .standard = ["class Gadget" ++ openBrace, "    int size;", ""] := by
      decide +kernel
    have hconstructors : gadget.shape.constructors.flatMap (fun c =>
        (linesFrom .standard 1 c.fragments).map (replaceAll classNamePlaceholder gadget.name)) =
          ["    Gadget()" ++ openBrace, "        Gadget.add(Gadget.class);", "    " ++ closeBrace, ""] := by
      decide +kernel
    have hbelow : gadget.linesBelow .standard =
        ["    void run()" ++ openBrace, "    " ++ closeBrace, "", closeBrace] := by
      decide +kernel
    obtain ⟨listing, hlisting, hlines⟩ := listing_replaces_linewise.2 gadget {} (by decide)
    refine ⟨listing, hlisting, ?_⟩
    rw [hlines, show ({} : RenderConfig).indent = .standard from rfl, habove, hconstructors, hbelow]
    rfl

end CompilationUnit

end JavaSource
