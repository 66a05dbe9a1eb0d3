import JavaSource.Proofs.CompilationUnit.Mentions
import JavaSource.Proofs.Member.EveryText
import JavaSource.Proofs.Text.OneLine

namespace JavaSource

open Fragment (EveryText)

/-- Modifiers are keywords with spaces behind them. -/
theorem Modifier.oneLine_texts (modifiers : List Modifier) : OneLine (texts modifiers) := by
  refine .join (List.forall_mem_map.mpr fun modifier _ => ?_)
  cases modifier <;> decide

namespace Annotation

/-- The names that an annotation is written with have no line feeds. Its values may. -/
structure NamesOneLine (a : Annotation) : Prop where
  types : ∀ t, a.Uses t → OneLine t.simpleName
  attributes : ∀ name value, (name, value) ∈ a.attributes → OneLine name

variable {a : Annotation}

/-- The name of the type stands behind the sign on one line. -/
theorem NamesOneLine.name (h : a.NamesOneLine) : OneLine a.name :=
  oneLine_append.mpr ⟨by decide, h.types _ (.inl rfl)⟩

/-- An attribute is one line, whatever its value: a literal has no line feeds. -/
theorem NamesOneLine.pair (h : a.NamesOneLine) : ∀ entry ∈ a.attributes, OneLine (pair entry) := by
  rintro ⟨key, value⟩ hmem
  have hliteral := value.oneLine_literal fun t ht => h.types t (.inr ⟨key, ht ▸ hmem⟩)
  have hkey : OneLine (key ++ " = ") := oneLine_append.mpr ⟨h.attributes key value hmem, by decide⟩
  exact oneLine_append.mpr ⟨hkey, hliteral⟩

/-- In front of a parameter, an annotation is one line. -/
theorem NamesOneLine.inlineText (h : a.NamesOneLine) : OneLine a.inlineText := by
  unfold Annotation.inlineText
  split
  · exact h.name
  · have hpairs := List.forall_mem_map.mpr h.pair
    have hlist := OneLine.intercalate (show OneLine ", " by decide) hpairs
    simp +decide [h.name, hlist]

/-- On its own, an annotation has one attribute a line. -/
theorem NamesOneLine.fragments (h : a.NamesOneLine) : EveryText OneLine a.fragments := by
  refine everyText_fragments h.name (oneLine_append.mpr ⟨h.name, by decide⟩) ?_ (by decide)
  intro entry hentry
  have hpair := h.pair entry hentry
  exact ⟨hpair, oneLine_append.mpr ⟨hpair, by decide⟩⟩

end Annotation

namespace Parameter

/-- The name, the type and the annotations of a parameter have no line feeds, as far as
    they are written. -/
structure NamesOneLine (parameter : Parameter) : Prop where
  name : ∀ name, parameter.name = some name → OneLine name
  type : OneLine parameter.type.fullName
  annotations : ∀ a ∈ parameter.annotations, a.NamesOneLine

/-- A parameter is declared on one line. -/
theorem NamesOneLine.declaration {parameter : Parameter} (h : parameter.NamesOneLine) {text : String}
    (htext : parameter.declaration = some text) : OneLine text := by
  unfold Parameter.declaration at htext
  split at htext
  · cases htext
  · next name hname =>
    split at htext
    · cases htext
    · obtain rfl := Option.some.inj htext
      have hannotations : OneLine (String.join (parameter.annotations.map (·.inlineText ++ " "))) := by
        refine .join (List.forall_mem_map.mpr fun a ha => ?_)
        exact oneLine_append.mpr ⟨(h.annotations a ha).inlineText, by decide⟩
      simp +decide [hannotations, h.type, (h.name name hname).trimmed]

/-- The parameters of a signature are on one line. What those without a name hold
    does not matter. -/
theorem oneLine_listText {parameters : List Parameter}
    (h : ∀ p ∈ parameters, p.declaration.isSome = true → p.NamesOneLine) : OneLine (listText parameters) := by
  refine .intercalate (by decide) fun text htext => ?_
  obtain ⟨p, hp, hdeclaration⟩ := List.mem_filterMap.mp htext
  have hdeclared : p.declaration.isSome = true := by rw [hdeclaration, Option.isSome_some]
  exact (h p hp hdeclared).declaration hdeclaration

end Parameter

/-- A block may have any body, whose line feeds end its lines. -/
theorem Body.oneLine_block {signature : String} (h : OneLine signature) (body : Option String) :
    EveryText OneLine [block signature body] := by
  refine everyText_block (oneLine_append.mpr ⟨h, by decide⟩) ?_ (by decide)
  intro text _ line hline _
  exact oneLine_ofList.mpr (newline_notMem_contentLines _ line hline)

namespace Field

variable {field : Field}

/-- A component is the type and the name of its field. -/
theorem oneLine_component (hname : OneLine field.name) (htype : OneLine field.type.fullName) :
    OneLine field.component := by
  simp +decide [component, hname, htype]

/-- A field is one line below its annotations. A text for its initial value has to
    be one too. -/
theorem oneLine_fragments (hname : OneLine field.name) (htype : OneLine field.type.fullName)
    (hdefault : ∀ text, field.defaultValue = some text → OneLine text)
    (hannotations : ∀ a ∈ field.annotations, a.NamesOneLine) : EveryText OneLine field.fragments := by
  have hinitializer : OneLine field.initializer := by
    unfold initializer
    split
    · decide
    · next text htext => exact oneLine_append.mpr ⟨by decide, hdefault text htext⟩
  refine everyText_fragments (fun a ha => (hannotations a ha).fragments) ?_
  simp +decide [Modifier.oneLine_texts, oneLine_component hname htype, hinitializer]

/-- The accessors of a field repeat its name and its type only. -/
theorem oneLine_accessors (hname : OneLine field.name) (htype : OneLine field.type.fullName) :
    EveryText OneLine field.accessors := by
  have hcomponent := oneLine_component hname htype
  refine everyText_accessors ?_ ?_ ?_ ?_ (by decide)
  · simp +decide [hcomponent, hname.capitalize]
  · simp +decide [hname]
  · simp +decide [htype, hname.capitalize]
  · simp +decide [hname]

end Field

/-- Every text of a method is one line, if its names are and whatever its body is. -/
theorem Method.oneLine_fragments {method : Method} (hname : OneLine method.name)
    (hreturn : ∀ t, method.returnType = some t → OneLine t.fullName)
    (hparameters : ∀ p ∈ method.parameters, p.declaration.isSome = true → p.NamesOneLine)
    (hannotations : ∀ a ∈ method.annotations, a.NamesOneLine) : EveryText OneLine method.fragments := by
  have hreturn : OneLine method.returnText := by
    unfold returnText
    split
    · decide
    · next t ht => exact hreturn t ht
  have hsignature : OneLine method.signature := by
    simp +decide [signature, Modifier.oneLine_texts, hreturn, hname, Parameter.oneLine_listText hparameters]
  exact everyText_fragments (fun a ha => (hannotations a ha).fragments)
    (oneLine_append.mpr ⟨hsignature, by decide⟩) (Body.oneLine_block hsignature method.body)

/-- Every text of a constructor is one line, once a class name that is one is filled in. -/
theorem Constructor.oneLine_fragmentsFor {c : Constructor} {className : String} (hclass : OneLine className)
    (hparameters : ∀ p ∈ c.parameters, p.declaration.isSome = true → p.NamesOneLine)
    (hannotations : ∀ a ∈ c.annotations, a.NamesOneLine) : EveryText OneLine (c.fragmentsFor className) := by
  have hsignature : OneLine c.signature := by
    simp +decide [signature, Modifier.oneLine_texts, Parameter.oneLine_listText hparameters]
  exact everyText_fragmentsFor (fun a ha => (hannotations a ha).fragments)
    (Body.oneLine_block hsignature c.body) fun text => OneLine.replaceAll _ hclass

end JavaSource
