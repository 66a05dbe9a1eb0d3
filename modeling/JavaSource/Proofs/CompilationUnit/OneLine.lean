import JavaSource.Proofs.CompilationUnit.EveryText
import JavaSource.Proofs.CompilationUnit.Imports
import JavaSource.Proofs.Member.OneLine
import JavaSource.Proofs.TypeRef.OneLine

namespace JavaSource.CompilationUnit

open Fragment (EveryText)

variable {kind : UnitKind} {unit : CompilationUnit kind}

/-- The texts that a unit is written with as they are. Bodies, which are split into
    lines, and strings, which are quoted, are not among them. -/
inductive Verbatim (unit : CompilationUnit kind) : String → Prop where
  | package : Verbatim unit unit.package
  | name : Verbatim unit unit.name
  | importName {name : String} (hname : name ∈ unit.importNames) : Verbatim unit name
  | typePackage {t : TypeRef} {package name : String} {slots : List (String × TypeArg)} (ht : unit.Uses t)
      (hoccurs : (TypeRef.declared package name slots).OccursIn t) : Verbatim unit package
  | nativeName {t : TypeRef} {name : String} (ht : unit.Uses t) (hoccurs : (TypeRef.native name).OccursIn t) :
      Verbatim unit name
  | attributeName {a : Annotation} {name : String} {value : AttributeValue} (ha : unit.Annotated a)
      (hattribute : (name, value) ∈ a.attributes) : Verbatim unit name
  | fieldName {field : Field} (hfield : field ∈ unit.fields) : Verbatim unit field.name
  | defaultValue {field : Field} {text : String} (hkind : kind ≠ .recordUnit) (hfield : field ∈ unit.fields)
      (htext : field.defaultValue = some text) : Verbatim unit text
  | methodName {method : Method} (hmethod : method ∈ unit.methods) : Verbatim unit method.name
  | methodParameter {method : Method} {parameter : Parameter} {name : String} (hmethod : method ∈ unit.methods)
      (hparameter : parameter ∈ method.parameters) (hdeclared : parameter.declaration.isSome = true)
      (hname : parameter.name = some name) : Verbatim unit name
  | constructorParameter {c : Constructor} {parameter : Parameter} {name : String}
      (hconstructor : c ∈ unit.shape.constructors) (hparameter : parameter ∈ c.parameters)
      (hdeclared : parameter.declaration.isSome = true) (hname : parameter.name = some name) : Verbatim unit name

section

variable (htypes : ∀ t, unit.Uses t → t.Obtainable) (hverbatim : ∀ text, unit.Verbatim text → OneLine text)

include htypes hverbatim

private theorem oneLine_fullName {t : TypeRef} (ht : unit.Uses t) : OneLine t.fullName :=
  t.oneLine_fullName (htypes t ht).wellFormed fun _ hoccurs => hverbatim _ (.nativeName ht hoccurs)

private theorem namesOneLine_of_annotated {a : Annotation} (ha : unit.Annotated a) : a.NamesOneLine where
  types t ht := TypeRef.oneLine_simpleName (htypes t (.annotated ha ht)).wellFormed
    fun _ hoccurs => hverbatim _ (.nativeName (.annotated ha ht) hoccurs)
  attributes _ _ hattribute := hverbatim _ (.attributeName ha hattribute)

private theorem oneLine_of_mem_imports {name : String} (h : name ∈ unit.resolvedImports.names) : OneLine name := by
  obtain ⟨hmember, _⟩ := mem_resolvedImports_iff.mp h
  obtain ⟨mention, hmention, _, rfl⟩ | hempty := ImportNames.mem_addAll_iff.mp hmember
  · refine OneLine.trimmed ?_
    obtain hname | ⟨t, ht, package, name, slots, hoccurs, hpackage, rfl⟩ := mem_mentions_iff.mp hmention
    · exact hverbatim _ (.importName hname)
    · have hpackageLine := hverbatim _ (.typePackage ht hoccurs)
      have hname := ((htypes t ht).wellFormed package name slots hoccurs).1.oneLine
      rw [TypeRef.qualifiedName_of_ne_empty hpackage]
      simp +decide [hpackageLine, hname]
  · cases hempty

private theorem oneLine_clause (word : String) (hword : OneLine word) {types : List TypeRef}
    (h : ∀ t ∈ types, unit.Uses t) : OneLine (clause word types) := by
  unfold clause
  split
  · decide
  · have hlist : OneLine (TypeRef.listText types) := by
      refine .intercalate (by decide) (List.forall_mem_map.mpr fun t ht => ?_)
      exact oneLine_fullName htypes hverbatim (h t ht)
    simp +decide [hword, hlist]

private theorem oneLine_header : OneLine unit.header := by
  have hname : OneLine unit.name := hverbatim _ .name
  have hcomponents : OneLine (", ".intercalate (unit.fields.map (·.component))) := by
    refine .intercalate (by decide) (List.forall_mem_map.mpr fun field hfield => ?_)
    have htype := oneLine_fullName htypes hverbatim (.field hfield)
    exact field.oneLine_component (hverbatim _ (.fieldName hfield)) htype
  have hclause : ∀ word types, OneLine word → types ⊆ unit.shape.supertypes → OneLine (clause word types) :=
    fun word types hword hsubset => oneLine_clause htypes hverbatim word hword fun t ht => .supertype (hsubset ht)
  unfold header
  generalize unit.shape = shape at hclause
  cases shape with
  | ofClass superclass interfaces constructors =>
    have hextends := hclause "extends" superclass.toList (by decide) (List.subset_append_left _ _)
    have himplements := hclause "implements" interfaces (by decide) (List.subset_append_right _ _)
    simp +decide [Modifier.oneLine_texts, hname, hextends, himplements]
  | ofInterface parents =>
    have hextends := hclause "extends" parents (by decide) (List.Subset.refl _)
    simp +decide [Modifier.oneLine_texts, hname, hextends]
  | ofRecord => simp +decide [Modifier.oneLine_texts, hname, hcomponents]

private theorem everyText_field {field : Field} (hkind : kind ≠ .recordUnit) (hfield : field ∈ unit.fields) :
    EveryText OneLine field.fragments :=
  Field.oneLine_fragments (hverbatim _ (.fieldName hfield)) (oneLine_fullName htypes hverbatim (.field hfield))
    (fun _ htext => hverbatim _ (.defaultValue hkind hfield htext))
    fun _ ha => namesOneLine_of_annotated htypes hverbatim (.field hkind hfield ha)

private theorem everyText_method {method : Method} (hmethod : method ∈ unit.methods) :
    EveryText OneLine method.fragments := by
  refine Method.oneLine_fragments (hverbatim _ (.methodName hmethod)) ?_ ?_ ?_
  · intro t ht
    exact oneLine_fullName htypes hverbatim (.returned hmethod ht)
  · intro p hp hdeclared
    exact ⟨fun _ hname => hverbatim _ (.methodParameter hmethod hp hdeclared hname),
      oneLine_fullName htypes hverbatim (.methodParameter hmethod hp hdeclared),
      fun _ ha => namesOneLine_of_annotated htypes hverbatim (.methodParameter hmethod hp hdeclared ha)⟩
  · intro a ha
    exact namesOneLine_of_annotated htypes hverbatim (.method hmethod ha)

private theorem everyText_constructor {c : Constructor} (hconstructor : c ∈ unit.shape.constructors) :
    EveryText OneLine (c.fragmentsFor unit.name) := by
  refine Constructor.oneLine_fragmentsFor (hverbatim _ .name) ?_ ?_
  · intro p hp hdeclared
    exact ⟨fun _ hname => hverbatim _ (.constructorParameter hconstructor hp hdeclared hname),
      oneLine_fullName htypes hverbatim (.constructorParameter hconstructor hp hdeclared),
      fun _ ha => namesOneLine_of_annotated htypes hverbatim (.constructorParameter hconstructor hp hdeclared ha)⟩
  · intro a ha
    exact namesOneLine_of_annotated htypes hverbatim (.constructor hconstructor ha)

private theorem everyText_members : EveryText OneLine unit.members := by
  refine everyText_members_of_each ?_ ?_ ?_ ?_
  · exact fun hkind field hfield => everyText_field htypes hverbatim hkind hfield
  · exact fun field hfield => Field.oneLine_accessors (hverbatim _ (.fieldName hfield))
      (oneLine_fullName htypes hverbatim (.field hfield))
  · exact fun c hconstructor => everyText_constructor htypes hverbatim hconstructor
  · exact fun method hmethod => everyText_method htypes hverbatim hmethod

/-- Every text of a verbatim unit is one line. -/
theorem everyText_fragments : EveryText OneLine unit.fragments := by
  have hpackage : OneLine unit.package := hverbatim _ .package
  refine everyText_fragments_of_parts (by simp +decide [hpackage]) ?_ ?_ (oneLine_header htypes hverbatim)
    (everyText_members htypes hverbatim) (by decide)
  · intro name hname
    have hline := oneLine_of_mem_imports htypes hverbatim hname
    simp +decide [hline]
  · exact fun a ha => (namesOneLine_of_annotated htypes hverbatim (.unit ha)).fragments

end

/-- Bodies and strings may have any text: as long as the texts that are written as
    they are have no line feeds, no line has one, and the lines can be told from the
    content of the file. -/
theorem listing_oneLine (htypes : ∀ t, unit.Uses t → t.Obtainable)
    (hverbatim : ∀ text, unit.Verbatim text → OneLine text) (hname : isBlank unit.name = false)
    (config : RenderConfig) : ∃ listing, unit.listing config = .ok listing ∧
      (∀ line ∈ listing.lines, OneLine line) ∧
      listing.content.toList.count '\n' = listing.lines.length ∧
      Text.pieces '\n' listing.content.toList = listing.lines.map String.toList ++ [[]] := by
  obtain ⟨listing, hlisting⟩ : ∃ listing, unit.listing config = .ok listing := by
    unfold CompilationUnit.listing
    rw [hname]
    exact ⟨_, rfl⟩
  have hlines : ∀ line ∈ listing.lines, OneLine line := by
    intro line hline
    rw [lines_of_listing hlisting, ← itemsOfAll_fragments] at hline
    obtain ⟨item, hitem, rfl⟩ := List.mem_map.mp hline
    cases item with
    | blank => exact List.not_mem_nil
    | line level text =>
      have htext := everyText_fragments htypes hverbatim 0 level text hitem
      exact oneLine_append.mpr ⟨config.indent.oneLine_margin level, htext⟩
  exact ⟨listing, hlisting, hlines, count_joinLines hlines, pieces_joinLines hlines⟩

/-- A class with line feeds in a string and in a body. -/
def report : CompilationUnit .classUnit :=
  .ofEdits "com.acme" "Report" [.annotate ⟨.native "Note", [("value", .string "one\ntwo")]⟩,
    .method ⟨"run", none, [], [], some "\nstart();\n\nstop();\n", false, []⟩]

/-- The line feed of the string is escaped, and those of the body end lines. -/
theorem listing_oneLine_report : ∃ listing, report.listing {} = .ok listing ∧
    listing.lines = ["package com.acme;", "", "@Note(", "    value = \"one\\ntwo\"", ")", "class Report" ++ openBrace,
      "    void run()" ++ openBrace, "        start();", "", "        stop();", "    " ++ closeBrace, "",
      closeBrace] ∧
    listing.content.toList.count '\n' = 13 := by
  have hannotated : ∀ a, report.Annotated a → a = ⟨.native "Note", [("value", .string "one\ntwo")]⟩ := by
    rintro a (ha | ⟨_, hfield, _⟩ | ⟨hmethod, ha⟩ | ⟨hmethod, hparameter, _⟩ | ⟨hconstructor, _⟩ | ⟨hconstructor, _⟩)
    · exact List.mem_singleton.mp ha
    · cases hfield
    · obtain rfl := List.mem_singleton.mp hmethod
      cases ha
    · obtain rfl := List.mem_singleton.mp hmethod
      cases hparameter
    · cases hconstructor
    · cases hconstructor
  have huses : ∀ t, report.Uses t → t = .native "Note" := by
    rintro t (ht | hfield | ⟨hmethod, ht⟩ | ⟨hmethod, hparameter, _⟩ | ht | ⟨hconstructor, _⟩ | ⟨ha, ht⟩)
    · cases ht
    · cases hfield
    · obtain rfl := List.mem_singleton.mp hmethod
      cases ht
    · obtain rfl := List.mem_singleton.mp hmethod
      cases hparameter
    · cases ht
    · cases hconstructor
    · obtain rfl := hannotated _ ha
      obtain rfl | ⟨name, hattribute⟩ := ht
      · rfl
      · cases List.mem_singleton.mp hattribute
  have htypes : ∀ t, report.Uses t → t.Obtainable := by
    intro t ht
    rw [huses t ht]
    exact .native "Note"
  have hverbatim : ∀ text, report.Verbatim text → OneLine text := by
    rintro text (_ | _ | hname | ⟨ht, hoccurs⟩ | ⟨ht, hoccurs⟩ | ⟨ha, hattribute⟩ | hfield | ⟨_, hfield, _⟩ | hmethod |
      ⟨hmethod, hparameter, _⟩ | ⟨hconstructor, _⟩)
    · decide
    · decide
    · cases hname
    · obtain rfl := huses _ ht
      cases hoccurs
    · obtain rfl := huses _ ht
      cases hoccurs
      decide
    · obtain rfl := hannotated _ ha
      cases List.mem_singleton.mp hattribute
      decide
    · cases hfield
    · cases hfield
    · obtain rfl := List.mem_singleton.mp hmethod
      decide
    · obtain rfl := List.mem_singleton.mp hmethod
      cases hparameter
    · cases hconstructor
  have hitems : report.items = [.line 0 "package com.acme;", .blank, .line 0 "@Note(",
      .line 1 "value = \"one\\ntwo\"", .line 0 ")", .line 0 ("class Report" ++ openBrace),
      .line 1 ("void run()" ++ openBrace),
      .line 2 "start();", .blank, .line 2 "stop();", .line 1 closeBrace, .blank, .line 0 closeBrace] := by
    decide +kernel
  obtain ⟨listing, hlisting, _, hcount, _⟩ := listing_oneLine htypes hverbatim (by decide) {}
  have hlines := lines_of_listing hlisting
  rw [hitems] at hlines
  refine ⟨listing, hlisting, hlines, ?_⟩
  rw [hcount, hlines]
  rfl

end JavaSource.CompilationUnit
