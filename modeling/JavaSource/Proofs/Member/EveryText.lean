import JavaSource.Member.Constructor
import JavaSource.Member.Field
import JavaSource.Member.Method
import JavaSource.Proofs.Layout.EveryText

namespace JavaSource

open Fragment (EveryText)

variable {P Q : String → Prop}

namespace Annotation

/-- The lines of attributes have a property if every attribute has it, with a comma
    and without. -/
theorem everyText_pairLines : ∀ {attributes : List (String × AttributeValue)},
    (∀ entry ∈ attributes, P (pair entry) ∧ P (pair entry ++ ",")) → EveryText P (pairLines attributes)
  | [], _ => .nil
  | [entry], h => .line (h entry (List.mem_singleton.mpr rfl)).1
  | entry :: next :: rest, h => by
    obtain ⟨hentry, hrest⟩ := List.forall_mem_cons.mp h
    exact .cons (.line hentry.2) (everyText_pairLines hrest)

/-- An annotation is written on one line, or in a block of its attributes. -/
theorem everyText_fragments {a : Annotation} (hname : P a.name) (hopen : P (a.name ++ "("))
    (hpair : ∀ entry ∈ a.attributes, P (pair entry) ∧ P (pair entry ++ ",")) (hclose : P ")") :
    EveryText P a.fragments := by
  unfold fragments
  split
  · exact .line hname
  · exact .block hopen (everyText_pairLines hpair) hclose

end Annotation

/-- Empty lines of a body are blank, so only the other ones have a text. -/
theorem Body.everyText_block {signature : String} {body : Option String} (hopen : P (signature ++ openBrace))
    (hlines : ∀ text, body = some text → ∀ line ∈ contentLines text.toList, line ≠ [] → P (String.ofList line))
    (hclose : P closeBrace) : EveryText P [block signature body] := by
  refine .block hopen ?_ hclose
  cases body with
  | none => exact .nil
  | some text =>
    refine .map fun line hline => ?_
    unfold lineFragment
    split
    · exact .blank
    · next hne => exact .line (hlines text rfl line hline (by simpa using hne))

namespace Field

variable {field : Field}

/-- A field is its annotations and one line. -/
theorem everyText_fragments (hannotations : ∀ a ∈ field.annotations, EveryText P a.fragments)
    (hdeclaration : P (Modifier.texts field.modifiers ++ field.component ++ field.initializer ++ ";")) :
    EveryText P field.fragments :=
  (EveryText.flatMap hannotations).append (.cons (.line hdeclaration) .blank)

/-- The accessors of a field are blocks of one statement each. -/
theorem everyText_accessors
    (hset : P ("public void set" ++ capitalize field.name ++ "(" ++ field.component ++ ")" ++ openBrace))
    (hassign : P ("this." ++ field.name ++ " = " ++ field.name ++ ";"))
    (hget : P ("public " ++ field.type.fullName ++ " get" ++ capitalize field.name ++ "()" ++ openBrace))
    (hreturn : P ("return " ++ field.name ++ ";")) (hclose : P closeBrace) : EveryText P field.accessors := by
  refine .append ?_ ?_
  · split
    · exact .cons (.block hset (.line hassign) hclose) .blank
    · exact .nil
  · split
    · exact .cons (.block hget (.line hreturn) hclose) .blank
    · exact .nil

end Field

/-- A method is its annotations and its signature, with a block or a semicolon. -/
theorem Method.everyText_fragments {method : Method} (hannotations : ∀ a ∈ method.annotations, EveryText P a.fragments)
    (habstract : P (method.signature ++ ";")) (hblock : EveryText P [Body.block method.signature method.body]) :
    EveryText P method.fragments := by
  refine (EveryText.flatMap hannotations).append (.cons ?_ .blank)
  split
  · exact .line habstract
  · exact hblock

/-- A constructor is its annotations and a block, in all of which the class name is
    filled in. -/
theorem Constructor.everyText_fragmentsFor {c : Constructor} {className : String}
    (hannotations : ∀ a ∈ c.annotations, EveryText P a.fragments)
    (hblock : EveryText P [Body.block c.signature c.body])
    (hreplace : ∀ text, P text → Q (replaceAll classNamePlaceholder className text)) :
    EveryText Q (c.fragmentsFor className) := by
  have hfragments : EveryText P c.fragments := (EveryText.flatMap hannotations).append (.cons hblock .blank)
  exact hfragments.replace hreplace

end JavaSource
