import JavaSource.Proofs.CompilationUnit.Mentions
import JavaSource.Proofs.Text.Word

namespace JavaSource

open Text (StandsIn)

/-- Words end at the marks that stand next to the names of types in declarations. -/
structure EndsAtMarks (inWord : Char → Prop) : Prop where
  space : ¬ inWord ' '
  comma : ¬ inWord ','
  dot : ¬ inWord '.'
  sign : ¬ inWord '@'
  openAngle : ¬ inWord '<'
  closeAngle : ¬ inWord '>'
  openParen : ¬ inWord '('
  closeParen : ¬ inWord ')'

variable {inWord : Char → Prop} {word : List Char}

/-- What stands in the type of an argument stands in the argument. -/
theorem TypeArg.standsIn_display (hspace : ¬ inWord ' ') {argument : TypeArg} {t : TypeRef}
    (ht : argument.type? = some t) (h : StandsIn inWord word t.fullName.toList) :
    StandsIn inWord word argument.display.toList := by
  cases argument with
  | type u =>
    obtain rfl := Option.some.inj ht
    exact h
  | placeholder => cases ht
  | wildcard bound u =>
    obtain rfl := Option.some.inj ht
    have hdisplay : (TypeArg.wildcard bound u).display.toList =
        ('?' :: ' ' :: bound.keyword.toList) ++ ' ' :: u.fullName.toList := by
      simp [TypeArg.display]
    rw [hdisplay]
    exact h.cons_append hspace _

/-- What stands in an argument stands in the type, between its angle brackets. -/
theorem TypeRef.standsIn_fullName (hmarks : EndsAtMarks inWord) (package name : String)
    {slots : List (String × TypeArg)} {slot : String × TypeArg} (hslot : slot ∈ slots)
    (h : StandsIn inWord word slot.2.display.toList) :
    StandsIn inWord word (TypeRef.declared package name slots).fullName.toList := by
  have hmem : slot.2.display.toList ∈ (TypeArg.displayEach slots).map String.toList := by
    rw [TypeArg.displayEach_eq_map, List.map_map]
    exact List.mem_map_of_mem hslot
  have hinside := h.intercalate hmarks.comma hmarks.space hmem
  cases slots with
  | nil => cases hslot
  | cons first more =>
    have hname : (TypeRef.declared package name (first :: more)).fullName.toList = name.toList ++
        '<' :: ([',', ' '].intercalate ((TypeArg.displayEach (first :: more)).map String.toList) ++ ['>']) := by
      simp [TypeRef.fullName, String.toList_intercalate]
    rw [hname]
    exact (hinside.append_cons hmarks.closeAngle []).cons_append hmarks.openAngle name.toList

/-- A type is printed with the simple names of all types in it. -/
theorem TypeRef.OccursIn.standsIn_fullName (hmarks : EndsAtMarks inWord) {node t : TypeRef}
    (h : node.OccursIn t) : StandsIn inWord node.simpleName.toList t.fullName.toList := by
  induction h with
  | self =>
    cases node with
    | native name => exact .refl
    | declared package name slots =>
      cases slots with
      | nil => exact .refl
      | cons first more =>
        have hname : (TypeRef.declared package name (first :: more)).fullName.toList = name.toList ++
            '<' :: (", ".intercalate (TypeArg.displayEach (first :: more)) ++ ">").toList := by
          simp [TypeRef.fullName]
        rw [hname]
        exact StandsIn.refl.append_cons hmarks.openAngle _
  | argument hslot ht _ ih =>
    exact TypeRef.standsIn_fullName hmarks _ _ hslot (TypeArg.standsIn_display hmarks.space ht ih)

end JavaSource
