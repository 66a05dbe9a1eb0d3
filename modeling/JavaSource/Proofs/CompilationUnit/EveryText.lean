import JavaSource.Proofs.CompilationUnit.Layout
import JavaSource.Proofs.CompilationUnit.Mentions
import JavaSource.Proofs.Layout.EveryText

namespace JavaSource.CompilationUnit

open Fragment (EveryText)

variable {kind : UnitKind} {unit : CompilationUnit kind} {P : String → Prop}

/-- The fields of a record are in its header, so they are not among its members. -/
theorem everyText_members_of_each
    (hfield : kind ≠ .recordUnit → ∀ field ∈ unit.fields, EveryText P field.fragments)
    (haccessors : ∀ field ∈ unit.fields, EveryText P field.accessors)
    (hconstructor : ∀ c ∈ unit.shape.constructors, EveryText P (c.fragmentsFor unit.name))
    (hmethod : ∀ method ∈ unit.methods, EveryText P method.fragments) : EveryText P unit.members := by
  have hfields (hkind : kind ≠ .recordUnit) : EveryText P (unit.fields.flatMap (·.fragments)) :=
    .flatMap (hfield hkind)
  have haccessors : EveryText P (unit.fields.flatMap (·.accessors)) := .flatMap haccessors
  have hconstructors : EveryText P (unit.shape.constructors.flatMap (·.fragmentsFor unit.name)) :=
    .flatMap hconstructor
  have hmethods : EveryText P (unit.methods.flatMap (·.fragments)) := .flatMap hmethod
  unfold members
  generalize unit.shape = shape at hconstructors ⊢
  cases shape with
  | ofClass superclass interfaces constructors =>
    exact (((hfields nofun).append haccessors).append hconstructors).append hmethods
  | ofInterface parents => exact (hfields nofun).append hmethods
  | ofRecord => exact hmethods

/-- A property of the texts of a unit is one of its package, its imports, its
    annotations, its header and its members, if the closing brace has it. -/
theorem everyText_fragments_of_parts (hpackage : P ("package " ++ unit.package ++ ";"))
    (himport : ∀ name ∈ unit.resolvedImports.names, P ("import " ++ name ++ ";"))
    (habove : ∀ a ∈ unit.annotations, EveryText P a.fragments) (hheader : P unit.header)
    (hmembers : EveryText P unit.members) (hclose : P closeBrace) : EveryText P unit.fragments := by
  have hpackages : EveryText P unit.packageFragments := by
    unfold packageFragments
    split
    · exact .nil
    · exact .cons (.line hpackage) .blank
  have himports : EveryText P unit.importFragments := by
    unfold importFragments
    split
    · exact .nil
    · exact .append (.map fun name hname => .line (himport name hname)) .blank
  exact ((hpackages.append himports).append (.flatMap habove)).append (.block hheader hmembers hclose)

/-- A line of a listing is empty or one of the texts behind its margin. -/
theorem exists_text_of_mem_lines {config : RenderConfig} {listing : Listing} (htexts : EveryText P unit.fragments)
    (hlisting : unit.listing config = .ok listing) {line : String} (hline : line ∈ listing.lines) :
    line = "" ∨ ∃ level text, P text ∧ line = config.indent.margin level ++ text := by
  rw [lines_of_listing hlisting, ← itemsOfAll_fragments] at hline
  obtain ⟨item, hitem, rfl⟩ := List.mem_map.mp hline
  cases item with
  | blank => exact .inl rfl
  | line level text => exact .inr ⟨level, text, htexts 0 level text hitem, rfl⟩

end JavaSource.CompilationUnit
