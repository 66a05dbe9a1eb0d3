import JavaSource.Proofs.Member.EveryText

namespace JavaSource.Constructor

open Fragment (EveryText itemsOfAll)

/-- A text has the placeholder of the class name in it. -/
def HasPlaceholder (text : String) : Prop :=
  classNamePlaceholder.toList <:+: text.toList

/-- The placeholder is a word between braces. -/
theorem toList_placeholder : classNamePlaceholder.toList = '{' :: ("_CLASSNAME_".toList ++ ['}']) := by
  decide

variable {className : String}

/-- A class name without braces that is no part of the word leaves no placeholder.
    -/
theorem not_hasPlaceholder_replaceAll (hopen : '{' ∉ className.toList) (hclose : '}' ∉ className.toList)
    (hword : ¬ className.toList <:+: "_CLASSNAME_".toList) (text : String) :
    ¬ HasPlaceholder (replaceAll classNamePlaceholder className text) := by
  have hreplaces : Text.Replaces classNamePlaceholder.toList className.toList text.toList _ :=
    Text.replaces_replace (by decide) text.toList
  rw [HasPlaceholder, replaceAll, String.toList_ofList]
  rw [toList_placeholder] at hreplaces ⊢
  exact hreplaces.not_isInfix hopen hclose hword

/-- A constructor whose only parameter has a text for its type. -/
def ofParameterType (text : String) : Constructor :=
  ⟨[], [⟨some "x", .native text, []⟩], none, []⟩

/-- The header parts such a type from what is around it, so it is replaced on its own. -/
theorem exists_line_ofParameterType (className text : String) :
    ∃ line, Item.line 0 line ∈ itemsOfAll 0 ((ofParameterType text).fragmentsFor className) ∧
      (replaceAll classNamePlaceholder className text).toList <:+: line.toList := by
  let header := (ofParameterType text).signature ++ openBrace
  have hheader : header.toList =
      classNamePlaceholder.toList ++ '(' :: (text.toList ++ ' ' :: ['x', ')', '{']) := by
    have hblank : isBlank "x" = false := by decide
    have hname : trimmed "x" = "x" := by decide
    simp [header, signature, ofParameterType, Modifier.texts, Parameter.listText, Parameter.declaration,
      TypeRef.fullName, hblank, hname]
  refine ⟨replaceAll classNamePlaceholder className header, ?_, ?_⟩
  · exact List.mem_cons_self
  · rw [replaceAll, replaceAll, String.toList_ofList, String.toList_ofList, hheader,
      Text.replace_append_cons (by decide) (by decide), Text.replace_append_cons (by decide) (by decide)]
    exact ⟨Text.replace classNamePlaceholder.toList className.toList classNamePlaceholder.toList ++ ['('],
      ' ' :: Text.replace classNamePlaceholder.toList className.toList ['x', ')', '{'], by simp⟩

/-- A class name without braces leaves no placeholder behind in any constructor, whatever
    text has been given for its parts, unless the name is a part of the word between the
    braces, as the empty name is. Such a name can complete a placeholder around another one. -/
theorem placeholder_gone_iff (hopen : '{' ∉ className.toList) (hclose : '}' ∉ className.toList) :
    (∀ c : Constructor, EveryText (¬ HasPlaceholder ·) (c.fragmentsFor className)) ↔
      ¬ className.toList <:+: "_CLASSNAME_".toList := by
  refine ⟨?_, ?_⟩
  · intro hgone hword
    obtain ⟨text, htext⟩ := Text.exists_replace_eq_pattern (by decide : '{' ∉ "_CLASSNAME_".toList ++ ['}']) hword
    obtain ⟨line, hline, hinfix⟩ := exists_line_ofParameterType className (String.ofList text)
    refine hgone _ 0 0 line hline ?_
    rw [replaceAll, String.toList_ofList, String.toList_ofList, toList_placeholder, htext] at hinfix
    rwa [HasPlaceholder, toList_placeholder]
  · intro hword c
    have hall : EveryText (fun _ => True) c.fragments := fun _ _ _ _ => trivial
    exact hall.replace fun text _ => not_hasPlaceholder_replaceAll hopen hclose hword text

/-- The body has a placeholder within another one, and one in front of what a name could
    complete to a third. -/
theorem placeholder_gone_iff_widget :
    EveryText (¬ HasPlaceholder ·) (fragmentsFor
      ⟨[], [], some ("{_CLASS{_CLASSNAME_}NAME_} = {_CLASSNAME_}" ++ openBrace ++ "_CLASSNAME_;"), []⟩ "Widget") :=
  (placeholder_gone_iff (by decide) (by decide)).mpr (by decide +kernel) _

end JavaSource.Constructor
