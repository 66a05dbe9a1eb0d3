import JavaSource.Proofs.CompilationUnit.Imports
import JavaSource.Proofs.CompilationUnit.Printing
import JavaSource.Proofs.TypeRef.Obtainable

namespace JavaSource.CompilationUnit

open Text (StandsIn)

variable {kind : UnitKind} {unit : CompilationUnit kind}

/-- The type of an annotation that is written is written with it, and so are
    those of its class literals. -/
theorem Annotated.shows {a : Annotation} {t : TypeRef} (ha : unit.Annotated a) (ht : a.Uses t)
    (hname : IsIdentifier t.simpleName.toList) : unit.Shows t.simpleName := by
  have hmarks := endsAtMarks_identifierChar
  have hmarks' := endsAtMarks_templateChar
  cases ha with
  | unit ha => exact shows_of_annotated ha (ht.prints hmarks)
  | field hkind hfield ha =>
    exact shows_of_members (prints_members_of_field hkind hfield
      (Field.prints_of_annotated ha (ht.prints hmarks)))
  | method hmethod ha =>
    exact shows_of_members (prints_members_of_method hmethod
      (Method.prints_of_annotated ha (ht.prints hmarks)))
  | methodParameter hmethod hparameter hdeclared ha =>
    have hlist := Parameter.standsIn_listText_of_annotated hmarks hparameter hdeclared ha
      (ht.standsIn_inlineText hmarks)
    exact shows_of_members (prints_members_of_method hmethod (Method.prints_of_parameters hmarks hlist))
  | constructor hconstructor ha =>
    exact shows_of_constructor hconstructor hname
      (Constructor.prints_of_annotated ha (ht.prints hmarks'))
  | constructorParameter hconstructor hparameter hdeclared ha =>
    have hlist := Parameter.standsIn_listText_of_annotated hmarks' hparameter hdeclared ha
      (ht.standsIn_inlineText hmarks')
    exact shows_of_constructor hconstructor hname (Constructor.prints_of_parameters hmarks' hlist)

/-- A type that a unit carries in an argument of an annotation's type or of a
    class literal, where only the outermost name is written. -/
def Carries (unit : CompilationUnit kind) (node : TypeRef) : Prop :=
  ∃ a t, unit.Annotated a ∧ a.Uses t ∧ node.OccursIn t ∧ node ≠ t

/-- Whatever a unit uses without having asked to import it is written or carried. -/
theorem Uses.shows {t node : TypeRef} (ht : unit.Uses t) (hnode : node.OccursIn t)
    (hname : IsIdentifier node.simpleName.toList) :
    t ∈ unit.imports ∨ unit.Shows node.simpleName ∨ unit.Carries node := by
  have hmarks := endsAtMarks_identifierChar
  have hmarks' := endsAtMarks_templateChar
  have hbrace : ¬ IsIdentifierChar '{' := by decide +kernel
  have hstands := hnode.standsIn_fullName hmarks
  cases ht with
  | imported ht => exact .inl ht
  | field hfield => exact .inr (.inl (shows_of_field hfield hstands))
  | returned hmethod ht =>
    exact .inr (.inl (shows_of_members (prints_members_of_method hmethod
      (Method.prints_of_returned hmarks.space ht hstands))))
  | methodParameter hmethod hparameter hdeclared =>
    have hlist := Parameter.standsIn_listText_of_type hmarks hparameter hdeclared hstands
    exact .inr (.inl (shows_of_members (prints_members_of_method hmethod
      (Method.prints_of_parameters hmarks hlist))))
  | supertype ht => exact .inr (.inl (shows_of_header (standsIn_header_of_supertype hmarks hbrace ht hstands)))
  | constructorParameter hconstructor hparameter hdeclared =>
    have hlist := Parameter.standsIn_listText_of_type hmarks' hparameter hdeclared
      (hnode.standsIn_fullName hmarks')
    exact .inr (.inl (shows_of_constructor hconstructor hname (Constructor.prints_of_parameters hmarks' hlist)))
  | @annotated a _ ha ht =>
    by_cases heq : node = t
    · subst heq
      exact .inr (.inl (ha.shows ht hname))
    · exact .inr (.inr ⟨a, t, ha, ht, hnode, heq⟩)

/-- The names that a unit asks to import beside those it is written with. -/
def AsksFor (unit : CompilationUnit kind) (n : String) : Prop :=
  (∃ name ∈ unit.importNames, n = trimmed name) ∨
    ∃ t ∈ unit.imports, ∃ name, t.Names name ∧ n = trimmed name

/-- Imports are minimal but for annotations: a name that a unit imports without
    having asked for it is that of a declared type in a type it uses, and the
    simple name of this type stands in a line behind the imports, unless an
    annotation carries the type in an argument which it does not write. -/
theorem imports_minimal (htypes : ∀ t, unit.Uses t → t.Obtainable) {config : RenderConfig}
    {listing : Listing} (h : unit.listing config = .ok listing) :
    ∃ rest, listing.lines = (unit.packageItems ++ unit.importItems).map (·.render config.indent) ++ rest ∧
      ∀ n ∈ unit.resolvedImports.names, ¬ unit.AsksFor n →
        ∃ t package name slots, unit.Uses t ∧ (TypeRef.declared package name slots).OccursIn t ∧
          n = trimmed (TypeRef.declared package name slots).qualifiedName ∧
          ((∃ line ∈ rest, StandsIn IsIdentifierChar name.toList line.toList) ∨
            unit.Carries (.declared package name slots)) := by
  refine ⟨unit.declarationItems.map (·.render config.indent), ?_, ?_⟩
  · rw [lines_of_listing h, items_eq, List.map_append]
  · intro n hn hasks
    obtain ⟨hmem, _⟩ := mem_resolvedImports_iff.mp hn
    rw [ImportNames.ofList, ImportNames.mem_addAll_iff] at hmem
    obtain ⟨mention, hmention, _, rfl⟩ := hmem.resolve_right List.not_mem_nil
    rcases mem_mentions_iff.mp hmention with hname | ⟨t, ht, hnames⟩
    · exact absurd (.inl ⟨mention, hname, rfl⟩) hasks
    · have hasked : t ∉ unit.imports := fun ht => hasks (.inr ⟨t, ht, mention, hnames, rfl⟩)
      obtain ⟨package, name, slots, hoccurs, _, hqualified⟩ := hnames
      refine ⟨t, package, name, slots, ht, hoccurs, by rw [hqualified], ?_⟩
      have hidentifier := ((htypes t ht).wellFormed package name slots hoccurs).1
      rcases ht.shows hoccurs hidentifier with himport | hshows | hcarries
      · exact absurd himport hasked
      · exact .inl (hshows.exists_line config.indent)
      · exact .inr hcarries

/-- A class that is made from a list of items. -/
def order : CompilationUnit .classUnit :=
  .ofEdits "com.acme" "Order" [.constructor ⟨[.publicKw], [.named "items" (.declared "java.util" "List"
    [("T", .type (.declared "com.acme.model" "Item" []))])], none, []⟩]

/-- The item of the list is imported, and it is shown behind the imports. -/
theorem imports_minimal_order : ∃ listing rest, order.listing {} = .ok listing ∧
    listing.lines = (order.packageItems ++ order.importItems).map (·.render .standard) ++ rest ∧
      "com.acme.model.Item" ∈ order.resolvedImports.names ∧ ∃ t package name slots, order.Uses t ∧
        (TypeRef.declared package name slots).OccursIn t ∧
        "com.acme.model.Item" = trimmed (TypeRef.declared package name slots).qualifiedName ∧
        ∃ line ∈ rest, StandsIn IsIdentifierChar name.toList line.toList := by
  have hlist : TypeRef.parse .standard "" "List<com.acme.model.Item>" = .ok (.declared "java.util" "List"
      [("T", .type (.declared "com.acme.model" "Item" []))]) := toOption_eq_some_iff.mp (by decide +kernel)
  have hmem : "com.acme.model.Item" ∈ order.resolvedImports.names := by decide +kernel
  have hunasked : ¬ order.AsksFor "com.acme.model.Item" := by
    rintro (⟨name, hname, _⟩ | ⟨t, ht, _⟩)
    · exact absurd hname List.not_mem_nil
    · exact absurd ht List.not_mem_nil
  have hplain : ∀ a, ¬ order.Annotated a := by
    rintro a (ha | ⟨_, hfield, _⟩ | ⟨hmethod, _⟩ | ⟨hmethod, _⟩ | ⟨hconstructor, ha⟩ |
      ⟨hconstructor, hparameter, _, ha⟩)
    · exact absurd ha List.not_mem_nil
    · exact absurd hfield List.not_mem_nil
    · exact absurd hmethod List.not_mem_nil
    · exact absurd hmethod List.not_mem_nil
    · obtain rfl := List.mem_singleton.mp hconstructor
      exact absurd ha List.not_mem_nil
    · obtain rfl := List.mem_singleton.mp hconstructor
      obtain rfl := List.mem_singleton.mp hparameter
      exact absurd ha List.not_mem_nil
  have htypes : ∀ t, order.Uses t → t.Obtainable := by
    rintro t (ht | hfield | ⟨hmethod, _⟩ | ⟨hmethod, _⟩ | ht | ⟨hconstructor, hparameter, _⟩ | ⟨ha, _⟩)
    · exact absurd ht List.not_mem_nil
    · exact absurd hfield List.not_mem_nil
    · exact absurd hmethod List.not_mem_nil
    · exact absurd hmethod List.not_mem_nil
    · exact absurd ht List.not_mem_nil
    · obtain rfl := List.mem_singleton.mp hconstructor
      obtain rfl := List.mem_singleton.mp hparameter
      exact .parsed hlist
    · exact absurd ha (hplain _)
  obtain ⟨rest, hlines, himports⟩ := imports_minimal htypes (rfl : order.listing {} = .ok _)
  obtain ⟨t, package, name, slots, ht, hoccurs, hname, hline | ⟨a, _, ha, _⟩⟩ := himports _ hmem hunasked
  · exact ⟨_, rest, rfl, hlines, hmem, t, package, name, slots, ht, hoccurs, hname, hline⟩
  · exact absurd ha (hplain a)

/-- A class whose annotation names a list of items by the class literal of lists. -/
def catalog : CompilationUnit .classUnit :=
  .ofEdits "com.acme" "Catalog" [.annotate ⟨.declared "com.acme.meta" "Holds" [],
    [("value", .type (.declared "java.util" "List" [("T", .type (.declared "com.acme.model" "Item" []))]))]⟩]

/-- The items are imported, although no line has a use for their name. -/
theorem catalog_imports_unwritten : ∃ listing, catalog.listing {} = .ok listing ∧
    listing.lines = ["package com.acme;", "", "import com.acme.meta.Holds;", "import com.acme.model.Item;",
      "import java.util.List;", "", "@Holds(", "    value = List.class", ")", "class Catalog" ++ openBrace,
      closeBrace] ∧
    ¬ catalog.AsksFor "com.acme.model.Item" ∧
    ∀ line ∈ listing.lines.drop 6, ¬ StandsIn IsIdentifierChar "Item".toList line.toList := by
  have hitems : catalog.items = [.line 0 "package com.acme;", .blank, .line 0 "import com.acme.meta.Holds;",
      .line 0 "import com.acme.model.Item;", .line 0 "import java.util.List;", .blank, .line 0 "@Holds(",
      .line 1 "value = List.class", .line 0 ")", .line 0 ("class Catalog" ++ openBrace), .line 0 closeBrace] := by
    decide +kernel
  have hlines := lines_of_listing (rfl : catalog.listing {} = .ok _)
  rw [hitems] at hlines
  refine ⟨_, rfl, hlines, ?_, ?_⟩
  · rintro (⟨name, hname, _⟩ | ⟨t, ht, _⟩)
    · exact absurd hname List.not_mem_nil
    · exact absurd ht List.not_mem_nil
  · have hinfix : ∀ line ∈ ["@Holds(", "    value = List.class", ")", "class Catalog" ++ openBrace, closeBrace],
        ¬ "Item".toList <:+: line.toList := by decide +kernel
    rintro line hline ⟨before, after, htext, _⟩
    rw [hlines] at hline
    exact hinfix line hline ⟨before, after, htext.symm⟩

end JavaSource.CompilationUnit
