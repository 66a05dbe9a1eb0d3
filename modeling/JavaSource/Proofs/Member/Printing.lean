import JavaSource.Member.Constructor
import JavaSource.Member.Field
import JavaSource.Member.Method
import JavaSource.Proofs.Layout.Printing
import JavaSource.Proofs.TypeRef.Printing

namespace JavaSource

open Fragment (Prints)
open Text (Delimits StandsIn)

variable {inWord : Char → Prop} {word : List Char}

namespace Annotation

/-- The type of an annotation stands behind the sign. -/
theorem standsIn_name (hmarks : EndsAtMarks inWord) (a : Annotation) :
    StandsIn inWord a.classType.simpleName.toList a.name.toList := by
  have hname : a.name.toList = [] ++ '@' :: a.classType.simpleName.toList := by simp [name]
  rw [hname]
  exact StandsIn.refl.cons_append hmarks.sign []

/-- A class literal has the simple name of its type, whatever arguments that has. -/
theorem standsIn_pair (hmarks : EndsAtMarks inWord) (name : String) (t : TypeRef) :
    StandsIn inWord t.simpleName.toList (pair (name, .type t)).toList := by
  have hpair : (pair (name, .type t)).toList =
      (name.toList ++ [' ', '=']) ++ ' ' :: (t.simpleName.toList ++ '.' :: "class".toList) := by
    simp [pair, AttributeValue.literal, TypeRef.classLiteral]
  rw [hpair]
  exact (StandsIn.refl.append_cons hmarks.dot _).cons_append hmarks.space _

/-- Every attribute has a line of its own, with or without a comma. -/
theorem exists_line_of_mem {attributes : List (String × AttributeValue)} {entry : String × AttributeValue}
    (h : entry ∈ attributes) :
    ∃ text, .line text ∈ pairLines attributes ∧ (text = pair entry ∨ text = pair entry ++ ",") := by
  induction attributes with
  | nil => cases h
  | cons first rest ih =>
    cases rest with
    | nil =>
      obtain rfl := List.mem_singleton.mp h
      exact ⟨pair entry, List.mem_singleton.mpr rfl, .inl rfl⟩
    | cons next rest =>
      rcases List.mem_cons.mp h with rfl | h
      · exact ⟨pair entry ++ ",", List.mem_cons_self, .inr rfl⟩
      · obtain ⟨text, hline, htext⟩ := ih h
        exact ⟨text, List.mem_cons_of_mem _ hline, htext⟩

/-- A type that an annotation uses stands in its text on one line. -/
theorem Uses.standsIn_inlineText (hmarks : EndsAtMarks inWord) {a : Annotation} {t : TypeRef}
    (ht : a.Uses t) : StandsIn inWord t.simpleName.toList a.inlineText.toList := by
  rcases ht with rfl | ⟨name, hattribute⟩
  · by_cases hempty : a.attributes.isEmpty = true
    · rw [inlineText, if_pos hempty]
      exact a.standsIn_name hmarks
    · have htext : a.inlineText.toList = a.name.toList ++
          '(' :: (", ".intercalate (a.attributes.map pair) ++ ")").toList := by
        simp [inlineText, hempty]
      rw [htext]
      exact (a.standsIn_name hmarks).append_cons hmarks.openParen _
  · have hempty : a.attributes.isEmpty = false := by
      simpa using List.ne_nil_of_mem hattribute
    have htext : a.inlineText.toList = a.name.toList ++ '(' ::
        ([',', ' '].intercalate (a.attributes.map fun entry => (pair entry).toList) ++ [')']) := by
      simp [inlineText, hempty, String.toList_intercalate, Function.comp_def]
    have hmem : (pair (name, .type t)).toList ∈ a.attributes.map fun entry => (pair entry).toList :=
      List.mem_map_of_mem hattribute
    have hinside := (standsIn_pair hmarks name t).intercalate hmarks.comma hmarks.space hmem
    rw [htext]
    exact (hinside.append_cons hmarks.closeParen []).cons_append hmarks.openParen a.name.toList

/-- A type that an annotation uses stands on one of its lines. -/
theorem Uses.prints (hmarks : EndsAtMarks inWord) {a : Annotation} {t : TypeRef}
    (ht : a.Uses t) : Prints inWord t.simpleName.toList a.fragments := by
  rcases ht with rfl | ⟨name, hattribute⟩
  · by_cases hempty : a.attributes.isEmpty = true
    · rw [fragments, if_pos hempty]
      exact .of_line (a.standsIn_name hmarks) (List.mem_singleton.mpr rfl)
    · have hheader := (a.standsIn_name hmarks).append_cons hmarks.openParen []
      rw [fragments, if_neg hempty]
      refine .of_header ?_ (List.mem_singleton.mpr rfl)
      simpa using hheader
  · have hempty : a.attributes.isEmpty = false := by
      simpa using List.ne_nil_of_mem hattribute
    rw [fragments, hempty]
    refine .of_body ?_ (List.mem_singleton.mpr rfl)
    have hpair := standsIn_pair hmarks name t
    obtain ⟨text, hline, rfl | rfl⟩ := exists_line_of_mem hattribute
    · exact .of_line hpair hline
    · have hcomma := hpair.append_cons hmarks.comma []
      refine .of_line ?_ hline
      simpa using hcomma

end Annotation

/-- Words begin anew behind the modifiers. -/
theorem Modifier.delimits_texts (hspace : ¬ inWord ' ') (modifiers : List Modifier) :
    Delimits inWord (texts modifiers).toList [] := by
  have htexts : (texts modifiers).toList = modifiers.flatMap fun m => m.keyword.toList ++ [' '] := by
    simp [texts, List.flatMap_map]
  rw [htexts]
  exact Text.delimits_flatMap_space hspace _ modifiers

namespace Parameter

/-- A parameter is written as its annotations, its type and its name. -/
theorem declaration_eq {parameter : Parameter} (h : parameter.declaration.isSome = true) :
    ∃ text name, parameter.declaration = some text ∧
      text.toList = (parameter.annotations.flatMap fun a => a.inlineText.toList ++ [' ']) ++
        (parameter.type.fullName.toList ++ ' ' :: name) := by
  unfold declaration at h ⊢
  split at h
  · cases h
  · next name hname =>
    split at h
    · cases h
    · next hblank =>
      rw [if_neg hblank]
      refine ⟨_, (trimmed name).toList, rfl, ?_⟩
      simp [List.flatMap_map]

/-- What stands in the declaration of a parameter stands in the list. -/
theorem standsIn_listText (hmarks : EndsAtMarks inWord) {parameter : Parameter}
    {parameters : List Parameter} {text : String} (hmem : parameter ∈ parameters)
    (hdeclaration : parameter.declaration = some text) (h : StandsIn inWord word text.toList) :
    StandsIn inWord word (listText parameters).toList := by
  have hlist : (listText parameters).toList =
      [',', ' '].intercalate ((parameters.filterMap declaration).map String.toList) := by
    simp [listText, String.toList_intercalate]
  have htext : text.toList ∈ (parameters.filterMap declaration).map String.toList :=
    List.mem_map_of_mem (List.mem_filterMap.mpr ⟨parameter, hmem, hdeclaration⟩)
  rw [hlist]
  exact h.intercalate hmarks.comma hmarks.space htext

/-- The types of the parameters that are written stand in their list. -/
theorem standsIn_listText_of_type (hmarks : EndsAtMarks inWord) {parameter : Parameter}
    {parameters : List Parameter} (hmem : parameter ∈ parameters)
    (hdeclared : parameter.declaration.isSome = true)
    (h : StandsIn inWord word parameter.type.fullName.toList) :
    StandsIn inWord word (listText parameters).toList := by
  obtain ⟨text, name, hdeclaration, htext⟩ := declaration_eq hdeclared
  refine standsIn_listText hmarks hmem hdeclaration ?_
  have hannotations := Text.delimits_flatMap_space hmarks.space (fun a : Annotation => a.inlineText.toList)
    parameter.annotations
  have hsurround := (h.append_cons hmarks.space name).surround hannotations
  rw [htext]
  simpa using hsurround

/-- So do their annotations. -/
theorem standsIn_listText_of_annotated (hmarks : EndsAtMarks inWord)
    {parameter : Parameter} {parameters : List Parameter} {a : Annotation} (hmem : parameter ∈ parameters)
    (hdeclared : parameter.declaration.isSome = true) (ha : a ∈ parameter.annotations)
    (h : StandsIn inWord word a.inlineText.toList) : StandsIn inWord word (listText parameters).toList := by
  obtain ⟨text, name, hdeclaration, htext⟩ := declaration_eq hdeclared
  refine standsIn_listText hmarks hmem hdeclaration ?_
  rw [htext]
  exact StandsIn.flatMap_space hmarks.space (fun a => a.inlineText.toList) ha h _

end Parameter

namespace Field

/-- What stands in the type of a field stands in its component. -/
theorem standsIn_component (hspace : ¬ inWord ' ') {field : Field}
    (h : StandsIn inWord word field.type.fullName.toList) (tail : List Char) :
    StandsIn inWord word (field.component.toList ++ tail) := by
  have hcomponent : field.component.toList ++ tail =
      field.type.fullName.toList ++ ' ' :: (field.name.toList ++ tail) := by
    simp [component]
  rw [hcomponent]
  exact h.append_cons hspace _

/-- A field prints what stands in its type. -/
theorem prints_of_type (hspace : ¬ inWord ' ') {field : Field}
    (h : StandsIn inWord word field.type.fullName.toList) : Prints inWord word field.fragments := by
  have hline := (standsIn_component hspace h (field.initializer ++ ";").toList).surround
    (Modifier.delimits_texts hspace field.modifiers)
  rw [fragments]
  refine .append_right (.of_line ?_ List.mem_cons_self) _
  simpa using hline

/-- A field prints what its annotations print. -/
theorem prints_of_annotated {field : Field} {a : Annotation} (ha : a ∈ field.annotations)
    (h : Prints inWord word a.fragments) : Prints inWord word field.fragments :=
  Prints.append_left (.flatMap h ha) _

end Field

namespace Method

private theorem prints_of_signature {method : Method}
    (h : ∀ tail, StandsIn inWord word (method.signature.toList ++ tail)) :
    Prints inWord word method.fragments := by
  refine .append_right ?_ _
  split
  · have hline := h [';']
    refine .of_line ?_ List.mem_cons_self
    simpa using hline
  · have hheader := h ['{']
    refine .of_header ?_ List.mem_cons_self
    simpa using hheader

/-- A method prints what stands in the type it returns. -/
theorem prints_of_returned (hspace : ¬ inWord ' ') {method : Method} {t : TypeRef}
    (ht : method.returnType = some t) (h : StandsIn inWord word t.fullName.toList) :
    Prints inWord word method.fragments := by
  refine prints_of_signature fun tail => ?_
  have hsurround := (h.append_cons hspace
    (method.name.toList ++ '(' :: ((Parameter.listText method.parameters).toList ++ ')' :: tail))).surround
      (Modifier.delimits_texts hspace method.modifiers)
  simpa [signature, returnText, ht] using hsurround

/-- A method prints what stands in its parameters. -/
theorem prints_of_parameters (hmarks : EndsAtMarks inWord) {method : Method}
    (h : StandsIn inWord word (Parameter.listText method.parameters).toList) :
    Prints inWord word method.fragments := by
  refine prints_of_signature fun tail => ?_
  have hlist := (h.append_cons hmarks.closeParen tail).cons_append hmarks.openParen
    ((Modifier.texts method.modifiers).toList ++ method.returnText.toList ++ ' ' :: method.name.toList)
  simpa [signature] using hlist

theorem prints_of_annotated {method : Method} {a : Annotation} (ha : a ∈ method.annotations)
    (h : Prints inWord word a.fragments) : Prints inWord word method.fragments :=
  Prints.append_left (.flatMap h ha) _

end Method

namespace Constructor

theorem prints_of_parameters (hmarks : EndsAtMarks inWord) {c : Constructor}
    (h : StandsIn inWord word (Parameter.listText c.parameters).toList) :
    Prints inWord word c.fragments := by
  have hlist := (h.append_cons hmarks.closeParen ['{']).cons_append hmarks.openParen
    ((Modifier.texts c.modifiers).toList ++ classNamePlaceholder.toList)
  refine .append_right (.of_header ?_ List.mem_cons_self) _
  simpa [signature] using hlist

theorem prints_of_annotated {c : Constructor} {a : Annotation} (ha : a ∈ c.annotations)
    (h : Prints inWord word a.fragments) : Prints inWord word c.fragments :=
  Prints.append_left (.flatMap h ha) _

/-- A name that cannot run into the placeholder of the class name stays where it
    is when the class gets its name. -/
theorem prints_fragmentsFor {c : Constructor}
    (hplaceholder : ∀ mark ∈ classNamePlaceholder.toList, inWord mark) (hword : '{' ∉ word)
    (h : Prints inWord word c.fragments) (className : String) :
    Prints inWord word (c.fragmentsFor className) :=
  h.replace rfl hplaceholder hword className

end Constructor

end JavaSource
