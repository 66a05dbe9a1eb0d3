import JavaSource.Proofs.CompilationUnit.Layout
import JavaSource.Proofs.CompilationUnit.Mentions
import JavaSource.Proofs.Member.Printing
import JavaSource.Proofs.Text.Identifier

namespace JavaSource

open Fragment (Prints itemsOfAll)
open Text (Delimits StandsIn)

/-- The characters of names, and the braces of the placeholder for a class name. -/
def IsTemplateChar (c : Char) : Prop :=
  IsIdentifierChar c ∨ c = '{' ∨ c = '}'

instance : DecidablePred IsTemplateChar := fun c =>
  inferInstanceAs (Decidable (IsIdentifierChar c ∨ c = '{' ∨ c = '}'))

/-- No separator of a declaration is part of an identifier. -/
theorem endsAtMarks_identifierChar : EndsAtMarks IsIdentifierChar := by
  constructor <;> decide +kernel

/-- No separator of a declaration is part of a name with braces. -/
theorem endsAtMarks_templateChar : EndsAtMarks IsTemplateChar := by
  constructor <;> decide +kernel

/-- The placeholder for a class name has only such characters. -/
theorem isTemplateChar_placeholder : ∀ mark ∈ classNamePlaceholder.toList, IsTemplateChar mark := by
  have hall : classNamePlaceholder.toList.all
      (fun c => Text.isAlphanumeric c || c == '_' || c == '{' || c == '}') = true := by decide +kernel
  intro mark hmark
  have hchar := List.all_eq_true.mp hall mark hmark
  simp only [Bool.or_eq_true, beq_iff_eq] at hchar
  rcases hchar with ((halpha | hline) | hopen) | hclose
  · exact .inl (.inl halpha)
  · exact .inl (.inr (.inl hline))
  · exact .inr (.inl hopen)
  · exact .inr (.inr hclose)

namespace CompilationUnit

variable {kind : UnitKind} {unit : CompilationUnit kind} {inWord : Char → Prop} {word : List Char}

/-- A clause is empty or starts with a space, so words end where it begins. -/
theorem delimits_clause (hspace : ¬ inWord ' ') (keyword : String) (types : List TypeRef) {tail : List Char}
    (htail : Delimits inWord [] tail) : Delimits inWord [] ((clause keyword types).toList ++ tail) := by
  cases types with
  | nil => exact htail
  | cons t types =>
    refine ⟨nofun, fun c hc => ?_⟩
    obtain rfl : ' ' = c := by simpa [clause] using hc
    exact hspace

/-- A word of a supertype stands in the clause that lists it. -/
theorem standsIn_clause (hmarks : EndsAtMarks inWord) (keyword : String) {t : TypeRef}
    {types : List TypeRef} (ht : t ∈ types) (h : StandsIn inWord word t.fullName.toList)
    (front : List Char) {tail : List Char} (htail : Delimits inWord [] tail) :
    StandsIn inWord word (front ++ (clause keyword types).toList ++ tail) := by
  have hclause : front ++ (clause keyword types).toList ++ tail =
      (front ++ ' ' :: keyword.toList) ++
        ' ' :: ([',', ' '].intercalate (types.map fun t => t.fullName.toList) ++ tail) := by
    have hne : types ≠ [] := List.ne_nil_of_mem ht
    simp [clause, hne, TypeRef.listText, String.toList_intercalate, Function.comp_def]
  have hmem : t.fullName.toList ∈ types.map fun t => t.fullName.toList := List.mem_map_of_mem ht
  have hlist := h.intercalate hmarks.comma hmarks.space hmem
  rw [hclause]
  exact (hlist.surround htail).cons_append hmarks.space _

/-- The supertypes of a unit stand in its header. -/
theorem standsIn_header_of_supertype (hmarks : EndsAtMarks inWord)
    (hbrace : ¬ inWord '{') {t : TypeRef} (ht : t ∈ unit.shape.supertypes)
    (h : StandsIn inWord word t.fullName.toList) : StandsIn inWord word unit.header.toList := by
  have hend : Delimits inWord [] ['{'] := ⟨nofun, fun c hc => by
    obtain rfl := Option.some.inj hc
    exact hbrace⟩
  unfold header
  generalize unit.shape = shape at ht ⊢
  cases shape with
  | ofClass superclass interfaces constructors =>
    rcases List.mem_append.mp ht with ht | ht
    · have hclause := standsIn_clause hmarks "extends" ht h
        ((Modifier.texts unit.modifiers).toList ++ "class ".toList ++ unit.name.toList)
        (delimits_clause hmarks.space "implements" interfaces hend)
      simpa [UnitKind.keyword] using hclause
    · have hclause := standsIn_clause hmarks "implements" ht h
        ((Modifier.texts unit.modifiers).toList ++ "class ".toList ++ unit.name.toList ++
          (clause "extends" superclass.toList).toList) hend
      simpa [UnitKind.keyword] using hclause
  | ofInterface parents =>
    have hparent : t ∈ parents := ht
    have hclause := standsIn_clause hmarks "extends" hparent h
      ((Modifier.texts unit.modifiers).toList ++ "interface ".toList ++ unit.name.toList) hend
    simpa [UnitKind.keyword] using hclause
  | ofRecord => cases ht

/-- The types of a record's components stand in its header. -/
theorem standsIn_header_of_component (hmarks : EndsAtMarks inWord)
    (hkind : kind = .recordUnit) {field : Field} (hfield : field ∈ unit.fields)
    (h : StandsIn inWord word field.type.fullName.toList) : StandsIn inWord word unit.header.toList := by
  have hmem : field.component.toList ∈ unit.fields.map fun field => field.component.toList :=
    List.mem_map_of_mem hfield
  have hcomponent : StandsIn inWord word field.component.toList := by
    simpa using Field.standsIn_component hmarks.space h []
  have hlist := hcomponent.intercalate hmarks.comma hmarks.space hmem
  have hinside := (hlist.append_cons hmarks.closeParen ['{']).cons_append
    hmarks.openParen ((Modifier.texts unit.modifiers).toList ++ "record ".toList ++ unit.name.toList)
  unfold header
  generalize unit.shape = shape
  subst hkind
  cases shape with
  | ofRecord => simpa [UnitKind.keyword, String.toList_intercalate, Function.comp_def] using hinside

/-- What a field prints the members print, where fields are members. -/
theorem prints_members_of_field (hkind : kind ≠ .recordUnit) {field : Field} (hfield : field ∈ unit.fields)
    (h : Prints inWord word field.fragments) : Prints inWord word unit.members := by
  have hfields := h.flatMap hfield
  unfold members
  generalize unit.shape = shape
  cases shape with
  | ofClass superclass interfaces constructors =>
    exact ((hfields.append_left _).append_left _).append_left _
  | ofInterface parents => exact hfields.append_left _
  | ofRecord => exact absurd rfl hkind

theorem prints_members_of_method {method : Method} (hmethod : method ∈ unit.methods)
    (h : Prints inWord word method.fragments) : Prints inWord word unit.members := by
  have hmethods := h.flatMap hmethod
  unfold members
  generalize unit.shape = shape
  cases shape with
  | ofClass superclass interfaces constructors => exact hmethods.append_right _
  | ofInterface parents => exact hmethods.append_right _
  | ofRecord => exact hmethods

/-- What a constructor prints the members print, with its class name filled in. -/
theorem prints_members_of_constructor {c : Constructor} (hconstructor : c ∈ unit.shape.constructors)
    (h : Prints inWord word (c.fragmentsFor unit.name)) : Prints inWord word unit.members := by
  unfold members
  generalize unit.shape = shape at hconstructor ⊢
  cases shape with
  | ofClass superclass interfaces constructors =>
    have hconstructors : Prints inWord word (constructors.flatMap (·.fragmentsFor unit.name)) :=
      Prints.flatMap h hconstructor
    exact (hconstructors.append_right _).append_left _
  | ofInterface | ofRecord => cases hconstructor

/-- What a unit consists of behind its imports. -/
def declarationItems (unit : CompilationUnit kind) : List Item :=
  unit.annotations.flatMap (fun a => itemsOfAll 0 a.fragments) ++
    .line 0 unit.header :: (unit.memberItems ++ [.line 0 closeBrace])

/-- The items of a unit are those above its declaration and those of the
    declaration. -/
theorem items_eq (unit : CompilationUnit kind) :
    unit.items = unit.packageItems ++ unit.importItems ++ unit.declarationItems :=
  List.append_assoc _ _ _

/-- A name stands in one of the lines behind the imports. -/
def Shows (unit : CompilationUnit kind) (name : String) : Prop :=
  ∃ level text, Item.line level text ∈ unit.declarationItems ∧
    StandsIn IsIdentifierChar name.toList text.toList

/-- What stands in the header of a unit is shown. -/
theorem shows_of_header {name : String} (h : StandsIn IsIdentifierChar name.toList unit.header.toList) :
    unit.Shows name :=
  ⟨0, unit.header, List.mem_append_right _ List.mem_cons_self, h⟩

/-- What the members of a unit print is shown. -/
theorem shows_of_members {name : String} (h : Prints IsIdentifierChar name.toList unit.members) :
    unit.Shows name := by
  obtain ⟨level, text, hitem, hstands⟩ := h 1
  rw [itemsOfAll_members] at hitem
  refine ⟨level, text, List.mem_append_right _ (List.mem_cons_of_mem _ ?_), hstands⟩
  exact List.mem_append_left _ hitem

theorem shows_of_annotated {name : String} {a : Annotation} (ha : a ∈ unit.annotations)
    (h : Prints IsIdentifierChar name.toList a.fragments) : unit.Shows name := by
  obtain ⟨level, text, hitem, hstands⟩ := h 0
  exact ⟨level, text, List.mem_append_left _ (List.mem_flatMap.mpr ⟨a, ha, hitem⟩), hstands⟩

/-- Constructors are written for a class whose name is not known yet. The names
    of types stay whole when it is filled in. -/
theorem shows_of_constructor {name : String} {c : Constructor} (hconstructor : c ∈ unit.shape.constructors)
    (hname : IsIdentifier name.toList) (h : Prints IsTemplateChar name.toList c.fragments) :
    unit.Shows name := by
  have hbrace : '{' ∉ name.toList := fun hmem =>
    absurd (hname.chars _ hmem) (by decide +kernel)
  have hfor := Constructor.prints_fragmentsFor isTemplateChar_placeholder hbrace h unit.name
  exact shows_of_members (prints_members_of_constructor hconstructor (hfor.mono fun c hc => .inl hc))

/-- A record writes the types of its fields in its header, the other kinds in declarations. -/
theorem shows_of_field {name : String} {field : Field} (hfield : field ∈ unit.fields)
    (h : StandsIn IsIdentifierChar name.toList field.type.fullName.toList) : unit.Shows name := by
  have hmarks := endsAtMarks_identifierChar
  by_cases hkind : kind = .recordUnit
  · exact shows_of_header (standsIn_header_of_component hmarks hkind hfield h)
  · have hprints := Field.prints_of_type hmarks.space h
    exact shows_of_members (prints_members_of_field hkind hfield hprints)

/-- A name that is shown stands in a line of the declaration, under any indent. -/
theorem Shows.exists_line {name : String} (h : unit.Shows name) (indent : Indent) :
    ∃ line ∈ unit.declarationItems.map (·.render indent), StandsIn IsIdentifierChar name.toList line.toList := by
  obtain ⟨level, text, hitem, hstands⟩ := h
  have htab : ¬ IsIdentifierChar '\t' := by decide +kernel
  exact ⟨_, List.mem_map_of_mem hitem, Item.standsIn_render endsAtMarks_identifierChar.space htab indent level hstands⟩

end CompilationUnit

end JavaSource
