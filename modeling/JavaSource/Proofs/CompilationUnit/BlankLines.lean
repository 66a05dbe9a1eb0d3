import JavaSource.Proofs.CompilationUnit.EveryText
import JavaSource.Proofs.Member.Visible

namespace JavaSource.CompilationUnit

open Fragment (EveryText)

variable {kind : UnitKind} {unit : CompilationUnit kind}

/-- The members of a unit show something on every line they mean to. -/
theorem visible_members (hname : Visible unit.name) : EveryText Visible unit.members := by
  refine everyText_members_of_each ?_ ?_ ?_ ?_
  · exact fun _ field _ => field.visible_fragments
  · exact fun field _ => field.visible_accessors
  · exact fun c _ => c.visible_fragmentsFor hname
  · exact fun method _ => method.visible_fragments

/-- A unit shows something on every line it means to, from the package to the last
    brace. -/
theorem visible_fragments (hname : Visible unit.name) : EveryText Visible unit.fragments := by
  refine everyText_fragments_of_parts ?_ ?_ ?_ ?_ (visible_members hname) (by decide)
  · exact Visible.append_left (by decide) _
  · exact fun name _ => Visible.append_left (by decide) _
  · exact fun a _ => a.visible_fragments
  · exact Visible.append_left (by decide) _

/-- A line that looks empty is empty: whatever the texts of a unit and of the bodies in
    it are, no line consists of an indentation or of other white space. Only blank
    fragments leave such lines, since every text has a visible character, also after
    the name of the class has taken the place of the placeholder. -/
theorem listing_blankLines (hname : isBlank unit.name = false) (config : RenderConfig) :
    ∃ listing, unit.listing config = .ok listing ∧
      (∀ line ∈ listing.lines, isBlank line = true → line = "") ∧
      (∀ a : Annotation, EveryText Visible a.fragments) ∧
      (∀ field : Field, EveryText Visible field.fragments ∧ EveryText Visible field.accessors) ∧
      (∀ method : Method, EveryText Visible method.fragments) ∧
      ∀ c : Constructor, EveryText Visible (c.fragmentsFor unit.name) := by
  have hvisible : Visible unit.name := visible_iff.mpr hname
  obtain ⟨listing, hlisting, _⟩ := exists_listing hname config
  refine ⟨listing, hlisting, ?_, Annotation.visible_fragments, ?_, Method.visible_fragments, ?_⟩
  · intro line hline hblank
    obtain hempty | ⟨level, text, htext, rfl⟩ :=
      exists_text_of_mem_lines (visible_fragments hvisible) hlisting hline
    · exact hempty
    · have hshown : Visible (config.indent.margin level ++ text) := htext.append_left _
      rw [visible_iff, hblank] at hshown
      cases hshown
  · exact fun field => ⟨field.visible_fragments, field.visible_accessors⟩
  · exact fun c => c.visible_fragmentsFor hvisible

/-- A class whose constructor has white space of several kinds in its body, and the
    placeholder on a line of its own. -/
def ledger : CompilationUnit .classUnit :=
  .ofEdits "" "Ledger" [.constructor ⟨[], [], some "\u3000\nopen();\n \u2003\n  {_CLASSNAME_} \t\n\n", []⟩]

/-- The line of the placeholder keeps its own indent, and the blank line in front of
    it is left empty. -/
theorem listing_blankLines_ledger : ∃ listing, ledger.listing {} = .ok listing ∧
    listing.lines = ["class Ledger" ++ openBrace, "    Ledger()" ++ openBrace, "        open();", "",
      "          Ledger", "    " ++ closeBrace, "", closeBrace] ∧
    ∀ line ∈ listing.lines, isBlank line = true → line = "" := by
  have hitems : ledger.items = [.line 0 ("class Ledger" ++ openBrace), .line 1 ("Ledger()" ++ openBrace),
      .line 2 "open();", .blank, .line 2 "  Ledger", .line 1 closeBrace, .blank, .line 0 closeBrace] := by
    decide +kernel
  obtain ⟨listing, hlisting, hblank, _⟩ := listing_blankLines (by decide : isBlank ledger.name = false) {}
  have hlines := lines_of_listing hlisting
  rw [hitems] at hlines
  exact ⟨listing, hlisting, hlines, hblank⟩

end JavaSource.CompilationUnit
