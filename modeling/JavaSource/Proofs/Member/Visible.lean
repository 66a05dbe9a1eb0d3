import JavaSource.Proofs.Member.EveryText
import JavaSource.Proofs.Text.Visible

namespace JavaSource

open Fragment (EveryText)

/-- Whatever an annotation is called, its name has a sign in front and its attributes
    have one between name and value. -/
theorem Annotation.visible_fragments (a : Annotation) : EveryText Visible a.fragments := by
  refine everyText_fragments ?_ ?_ ?_ (by decide)
  · simp +decide [name]
  · simp +decide
  · intro entry _
    simp +decide [pair]

/-- A block shows braces around its body, and each line of the body that is not
    empty. -/
theorem Body.visible_block (signature : String) (body : Option String) :
    EveryText Visible [block signature body] := by
  refine everyText_block (Visible.append_left (by decide) _) ?_ (by decide)
  intro text _ line hline hne
  exact visible_of_mem_contentLines hline hne

namespace Field

/-- A field shows at least its semicolon. -/
theorem visible_fragments (field : Field) : EveryText Visible field.fragments :=
  everyText_fragments (fun a _ => a.visible_fragments) (Visible.append_left (by decide) _)

theorem visible_accessors (field : Field) : EveryText Visible field.accessors := by
  refine everyText_accessors ?_ ?_ ?_ ?_ (by decide)
  · exact Visible.append_left (by decide) _
  · exact Visible.append_left (by decide) _
  · exact Visible.append_left (by decide) _
  · exact Visible.append_left (by decide) _

end Field

/-- A method shows a semicolon or a block. -/
theorem Method.visible_fragments (method : Method) : EveryText Visible method.fragments :=
  everyText_fragments (fun a _ => a.visible_fragments) (Visible.append_left (by decide) _)
    (Body.visible_block _ _)

/-- A line that is nothing but the placeholder becomes the name of the class. -/
theorem Constructor.visible_fragmentsFor (c : Constructor) {className : String} (hclass : Visible className) :
    EveryText Visible (c.fragmentsFor className) :=
  everyText_fragmentsFor (fun a _ => a.visible_fragments) (Body.visible_block _ _)
    fun _ => Visible.replaceAll _ hclass

end JavaSource
