import JavaSource.Proofs.CompilationUnit.Layout
import JavaSource.Proofs.Output.Path

namespace JavaSource

/-- The file of a listing stays below every output root if and only if neither its
    directory nor its name is absolute and its name has no step up. -/
theorem Listing.forall_below_destination_iff {listing : Listing} (hpackage : .up ∉ listing.packagePath.steps)
    (extension : String) (rules : WriteRules) :
    (∀ base : Path, base.Below ((listing.entry extension rules).destination base)) ↔
      listing.packagePath.isAbsolute = false ∧ (⟨listing.fileName extension⟩ : Path).isAbsolute = false ∧
      .up ∉ (⟨listing.fileName extension⟩ : Path).steps := by
  simp only [SourceEntry.destination, Path.forall_below_join_iff, Listing.entry, Listing.relativePath,
    Path.isAbsolute_join, Bool.or_eq_false_iff]
  constructor
  · rintro ⟨⟨hfile, hdirectory⟩, hup⟩
    rw [Path.steps_join _ hfile, List.mem_append, not_or] at hup
    exact ⟨hdirectory, hfile, hup.2⟩
  · rintro ⟨hdirectory, hfile, hup⟩
    exact ⟨⟨hfile, hdirectory⟩, Path.up_notMem_steps_join hpackage hup⟩

namespace CompilationUnit

variable {kind : UnitKind} {unit : CompilationUnit kind}

private theorem isAbsolute_fileName_iff {name : String} (hname : isBlank name = false) (extension : String) :
    (⟨name ++ "." ++ extension⟩ : Path).isAbsolute = false ↔ name.toList.head? ≠ some '/' := by
  have hne : name.toList ≠ [] := by
    intro hnil
    rw [String.toList_eq_nil_iff.mp hnil] at hname
    cases hname
  rw [Path.isAbsolute, beq_eq_false_iff_ne, String.append_assoc, String.toList_append,
    List.head?_append_of_ne_nil _ hne]

/-- The file of a unit stays below the output root, whatever that root is, if and only
    if neither a segment of the package nor the name begins with a slash and no step of
    the name of the file is a step up. A path that begins with a slash replaces what it
    is joined to, and a name is taken as it is. -/
theorem destination_below (hname : isBlank unit.name = false) (config : RenderConfig) (extension : String)
    (rules : WriteRules) : ∃ listing, unit.listing config = .ok listing ∧
      ((∀ base : Path, base.Below ((listing.entry extension rules).destination base)) ↔
        (∀ segment ∈ Text.pieces '.' unit.package.toList, segment.head? ≠ some '/') ∧
        unit.name.toList.head? ≠ some '/' ∧
        ['.', '.'] ∉ Text.pieces '/' (unit.name ++ "." ++ extension).toList) ∧
      (listing.packagePath.isAbsolute = false ↔
        ∀ segment ∈ Text.pieces '.' unit.package.toList, segment.head? ≠ some '/') ∧
      .up ∉ listing.packagePath.components := by
  obtain ⟨listing, hlisting, hclass, hpath⟩ := exists_listing hname config
  have hup := Path.up_notMem_steps_ofPackage unit.package
  rw [← hpath] at hup
  refine ⟨listing, hlisting, ?_, ?_, ?_⟩
  · rw [Listing.forall_below_destination_iff hup, hpath, Path.isAbsolute_ofPackage_iff, Path.up_mem_steps_iff,
      Listing.fileName, hclass, isAbsolute_fileName_iff hname]
  · rw [hpath, Path.isAbsolute_ofPackage_iff]
  · rw [Path.components_eq, List.mem_append, not_or]
    exact ⟨Path.up_notMem_start _, hup⟩

/-- A listing in a dotted package stays below every base. -/
theorem destination_below_widget : ∃ listing, widget.listing {} = .ok listing ∧
    listing.packagePath.isAbsolute = false ∧
    ∀ base : Path, base.Below ((listing.entry "java" {}).destination base) := by
  have hsegments : ∀ segment ∈ Text.pieces '.' widget.package.toList, segment.head? ≠ some '/' := by
    decide +kernel
  have hname : widget.name.toList.head? ≠ some '/' := by decide +kernel
  have hup : ['.', '.'] ∉ Text.pieces '/' (widget.name ++ "." ++ "java").toList := by decide +kernel
  obtain ⟨listing, hlisting, hbelow, hdirectory, _⟩ :=
    destination_below (by decide : isBlank widget.name = false) {} "java" {}
  exact ⟨listing, hlisting, hdirectory.mpr hsegments, hbelow.mpr ⟨hsegments, hname, hup⟩⟩

/-- A class whose package begins with a slash. -/
def rooted : CompilationUnit .classUnit :=
  .ofEdits "/etc" "Widget" []

/-- The directory of the package is absolute, so that the file is not below the output root. -/
theorem rooted_outside : ∃ listing, rooted.listing {} = .ok listing ∧ listing.packagePath.isAbsolute = true ∧
    (listing.entry "java" {}).destination ⟨"out"⟩ = ⟨"/etc/Widget.java"⟩ ∧
    ¬ Path.Below ⟨"out"⟩ ((listing.entry "java" {}).destination ⟨"out"⟩) := by
  obtain ⟨listing, hlisting, hclass, hpath⟩ := exists_listing (by decide : isBlank rooted.name = false) {}
  have hplace : listing.relativePath "java" = ⟨"/etc/Widget.java"⟩ := by
    rw [Listing.relativePath, Listing.fileName, hclass, hpath]
    decide +kernel
  have hdestination : (listing.entry "java" {}).destination ⟨"out"⟩ = ⟨"/etc/Widget.java"⟩ := by
    rw [SourceEntry.destination, Listing.entry, hplace]
    exact Path.join_of_isAbsolute (by decide : (⟨"/etc/Widget.java"⟩ : Path).isAbsolute = true) _
  refine ⟨listing, hlisting, ?_, hdestination, ?_⟩
  · rw [hpath]
    decide +kernel
  · rw [hdestination]
    have hcomponents : (⟨"/etc/Widget.java"⟩ : Path).components = [.root, .name "etc", .name "Widget.java"] := by
      decide +kernel
    have hbase : (⟨"out"⟩ : Path).components = [.name "out"] := by decide +kernel
    rintro ⟨steps, hsteps, _⟩
    rw [hcomponents, hbase] at hsteps
    cases hsteps

end CompilationUnit

end JavaSource
