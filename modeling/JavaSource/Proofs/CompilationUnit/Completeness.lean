import JavaSource.Proofs.CompilationUnit.Imports
import JavaSource.Proofs.CompilationUnit.Printing
import JavaSource.Proofs.TypeRef.Finding

namespace JavaSource.CompilationUnit

open Text (Delimits LiesIn StandsIn)

variable {kind : UnitKind} {unit : CompilationUnit kind}

/-- A trimmed package and an identifier make up a trimmed name. -/
private theorem trimmed_qualified {package : String} {name : List Char} (hpackage : package ≠ "")
    (htrimmed : trimmed package = package) (hname : IsIdentifier name) :
    trimmed (package ++ "." ++ String.ofList name) = package ++ "." ++ String.ofList name := by
  have hpackage' : Text.Trimmed package.toList := by
    rw [← htrimmed, trimmed, String.toList_ofList]
    exact Text.trimmed_trim _
  have hne : package.toList ≠ [] := by simpa using hpackage
  have hall := hpackage'.append hne (trimmed_of_isNameChar hname.isNameChar) hname.ne_nil ['.']
  have htext : (package ++ "." ++ String.ofList name).toList = package.toList ++ ['.'] ++ name := by simp
  rw [trimmed, htext, hall.trim_eq, ← htext, String.ofList_toList]

/-- A unit imports every declared type in the types it uses, unless its name
    needs no import. -/
theorem mem_resolvedImports_of_occursIn {t : TypeRef} {package : String} {name : List Char}
    {slots : List (String × TypeArg)} (ht : unit.Uses t)
    (hnode : (TypeRef.declared package (String.ofList name) slots).OccursIn t) (hname : IsIdentifier name)
    (hpackage : package ≠ "") (htrimmed : trimmed package = package)
    (himportable : Importable unit.package (package ++ "." ++ String.ofList name)) :
    package ++ "." ++ String.ofList name ∈ unit.resolvedImports.names := by
  have htrim := trimmed_qualified hpackage htrimmed hname
  have hmention : package ++ "." ++ String.ofList name ∈ unit.mentions := by
    refine mem_mentions_iff.mpr (.inr ⟨t, ht, package, _, slots, hnode, hpackage, ?_⟩)
    rw [TypeRef.qualifiedName_of_ne_empty hpackage]
  have hblank : isBlank (package ++ "." ++ String.ofList name) = false := by
    by_contra hblank
    rw [Bool.not_eq_false] at hblank
    apply himportable.ne_empty
    rw [← htrim, trimmed, List.isEmpty_iff.mp hblank]
  refine mem_resolvedImports_iff.mpr ⟨?_, himportable⟩
  rw [ImportNames.ofList, ImportNames.mem_addAll_iff]
  exact .inl ⟨_, hmention, hblank, htrim.symm⟩

/-- A name that reading finds in the type of a field is written with the field. -/
theorem shows_of_finds {table : WellKnown} {name before after : List Char} {field : Field}
    (hfield : field ∈ unit.fields) (hdelimits : Delimits (isNameChar · = true) before after)
    (h : TypeRef.Finds table name before after field.type) : unit.Shows (String.ofList name) := by
  have hmarks := endsAtMarks_identifierChar
  refine shows_of_field hfield ?_
  rw [String.toList_ofList]
  cases h with
  | declared hnode =>
    have hstands := hnode.standsIn_fullName hmarks
    rwa [TypeRef.simpleName, String.toList_ofList] at hstands
  | array hnode _ hlies =>
    have hword := (hlies.standsIn hdelimits).mono fun c hc => isNameChar_iff.mpr (.inl hc)
    have hstands := hnode.standsIn_fullName hmarks
    rw [TypeRef.simpleName, String.toList_ofList] at hstands
    exact hword.trans hstands

/-- From the text of a type to the import lines: every name without dots in the
    text of a field's type, at any depth, is written with the field, and it is
    imported under the package that the table has for it. Only the names in the
    texts of arrays are not. -/
theorem imports_complete {table : WellKnown} {package raw : String} (hblank : isBlank package = true)
    {field : Field} (hfield : field ∈ unit.fields) (hparse : TypeRef.parse table package raw = .ok field.type)
    {before name after : List Char} (hraw : raw.toList = before ++ name ++ after)
    (hdelimits : Delimits (isNameChar · = true) before after) (hname : TypeRef.LookedUp name)
    {listed : String} (hlisted : table.package? (String.ofList name) = some listed)
    (htrimmed : trimmed listed = listed) (hne : listed ≠ "") (hother : listed ≠ unit.package)
    (hoverride : listed ++ "." ++ String.ofList name ≠ "java.lang.Override") :
    unit.Shows (String.ofList name) ∧
      (listed ++ "." ++ String.ofList name ∈ unit.resolvedImports.names ∨
        ∃ text, (TypeRef.native (String.ofList text)).OccursIn field.type ∧ ['[', ']'] <:+ text ∧
          LiesIn name before after text) := by
  have hfinds := TypeRef.finds_of_parse hname hdelimits hblank hparse hraw
  refine ⟨shows_of_finds hfield hdelimits hfinds, ?_⟩
  cases hfinds with
  | declared hnode =>
    rw [hlisted, Option.getD_some] at hnode
    have hdot : '.' ∉ (String.ofList name).toList := by
      rw [String.toList_ofList]
      exact hname.isIdentifier.dot_notMem
    exact .inl (mem_resolvedImports_of_occursIn (.field hfield) hnode hname.isIdentifier hne htrimmed
      (.qualified hdot hne hother hoverride))
  | @array text hnode harray hlies => exact .inr ⟨text, hnode, harray, hlies⟩

/-- A field whose type maps texts to lists of identifiers, and a class with it. -/
def entries : Field :=
  ⟨"entries", .declared "java.util" "Map" [("T", .type (.native "String")), ("U", .wildcard .extends
    (.declared "java.util" "List" [("T", .type (.declared "java.util" "UUID" []))]))],
    [.privateKw], none, false, false, []⟩

/-- A class with that field. -/
def registry : CompilationUnit .classUnit :=
  .ofEdits "com.acme" "Registry" [.field entries]

/-- A name at the bottom of a wildcard is shown and imported. -/
theorem imports_complete_registry :
    TypeRef.parse .standard " " "Map<String, ? extends List<UUID>>" = .ok entries.type ∧
      registry.Shows "UUID" ∧ "java.util.UUID" ∈ registry.resolvedImports.names := by
  have hblank : isBlank " " = true := by decide
  have hfield : entries ∈ registry.fields := List.mem_cons_self
  have hparse : TypeRef.parse .standard " " "Map<String, ? extends List<UUID>>" = .ok entries.type :=
    toOption_eq_some_iff.mp (by decide +kernel)
  have hchars : "UUID".toList.all Text.isAlphanumeric = true := by decide +kernel
  have hname : TypeRef.LookedUp "UUID".toList :=
    ⟨⟨by decide, fun c hc => .inl (List.all_eq_true.mp hchars c hc)⟩, by decide, by decide,
      fun bound => by cases bound <;> decide⟩
  have hdelimits : Delimits (isNameChar · = true) "Map<String, ? extends List<".toList ">>".toList := by
    refine ⟨fun c hc => ?_, fun c hc => ?_⟩
    · obtain rfl : '<' = c := by simpa using hc
      decide +kernel
    · obtain rfl : '>' = c := by simpa using hc
      decide +kernel
  have hlisted : WellKnown.standard.package? (String.ofList "UUID".toList) = some "java.util" := by decide
  have hother : "java.util" ≠ registry.package := by decide
  obtain ⟨hshows, himport | ⟨text, hnode, harray, _⟩⟩ := imports_complete hblank hfield hparse rfl hdelimits
    hname hlisted (by decide) (by decide) hother (by decide)
  · exact ⟨hparse, hshows, himport⟩
  · -- The only native type in the field is not that of an array.
    have htext : String.ofList text = "String" := by
      generalize String.ofList text = native at hnode
      cases hnode with
      | argument hslot ht hnode =>
        rcases List.mem_cons.mp hslot with heq | hslot
        · obtain ⟨_, rfl⟩ := Prod.mk.inj heq
          obtain rfl := Option.some.inj ht
          cases hnode
          rfl
        · obtain ⟨_, rfl⟩ := Prod.mk.inj (List.mem_singleton.mp hslot)
          obtain rfl := Option.some.inj ht
          cases hnode with
          | argument hslot ht hnode =>
            obtain ⟨_, rfl⟩ := Prod.mk.inj (List.mem_singleton.mp hslot)
            obtain rfl := Option.some.inj ht
            cases hnode with
            | argument hslot => cases hslot
    obtain rfl : text = "String".toList := by rw [← htext, String.toList_ofList]
    exact absurd harray (by decide)

/-- A class with one field, whose type is a list of arrays. -/
def batches : CompilationUnit .classUnit :=
  .ofEdits "com.acme" "Batches" [.field ⟨"ids", .declared "java.util" "List" [("T", .type (.native "UUID[]"))],
    [.privateKw], none, false, false, []⟩]

/-- The name in the text of the array is looked up nowhere, so it is written but not imported. -/
theorem batches_import_missing :
    TypeRef.parse .standard "" "List<UUID[]>" = .ok (.declared "java.util" "List" [("T", .type (.native "UUID[]"))]) ∧
      WellKnown.standard.package? "UUID" = some "java.util" ∧
      ∃ listing, batches.listing {} = .ok listing ∧
        listing.lines = ["package com.acme;", "", "import java.util.List;", "", "class Batches" ++ openBrace,
          "    private List<UUID[]> ids;", "", closeBrace] := by
  have hitems : batches.items = [.line 0 "package com.acme;", .blank, .line 0 "import java.util.List;", .blank,
      .line 0 ("class Batches" ++ openBrace), .line 1 "private List<UUID[]> ids;", .blank, .line 0 closeBrace] := by
    decide +kernel
  have hlines := lines_of_listing (rfl : batches.listing {} = .ok _)
  rw [hitems] at hlines
  exact ⟨toOption_eq_some_iff.mp (by decide +kernel), by decide, _, rfl, hlines⟩

end JavaSource.CompilationUnit
