import JavaSource.Proofs.TypeRef.Grammar

namespace JavaSource

namespace TypeRef

/-- The places in the text of a type where white space is free. -/
inductive Gap where
  | before
  | after
  | bracket
  | mark
  | keyword

/-- White space for every gap of a text. The path of a type inside the text has
    the positions of the arguments that lead to it, the innermost one first. -/
structure Spacing where
  gap : List Nat → Gap → List Char
  blank : ∀ path place, Text.Blank (gap path place)

/-- A text with the white space around it that the spacing has for it. -/
def Spacing.surround (spacing : Spacing) (path : List Nat) (text : List Char) : List Char :=
  spacing.gap path .before ++ text ++ spacing.gap path .after

/-- A wildcard with white space behind its mark, where none is needed, and behind
    the one space that ends its keyword. -/
def Spacing.bounded (spacing : Spacing) (path : List Nat) (side : Bound) (subject : List Char) :
    List Char :=
  '?' :: (spacing.gap path .mark ++ side.keyword.toList ++ ' ' :: (spacing.gap path .keyword ++ subject))

/-- A placeholder has gaps only if it is a wildcard with a bound. -/
def Spacing.placeholder (spacing : Spacing) (path : List Nat) : List Char → List Char
  | '?' :: ' ' :: text =>
    match boundOf text with
    | some (side, subject) => spacing.bounded path side subject
    | none => '?' :: ' ' :: text
  | text => text

end TypeRef

mutual

/-- The text of a type with its packages spelled out. -/
def TypeRef.write (spacing : TypeRef.Spacing) (path : List Nat) : TypeRef → List Char
  | .native name => name.toList
  | .declared package name [] => (TypeRef.declared package name []).qualifiedName.toList
  | .declared package name (slot :: slots) =>
    (TypeRef.declared package name (slot :: slots)).qualifiedName.toList ++ spacing.gap path .bracket ++
      '<' :: ([','].intercalate (TypeArg.writeEach spacing path 0 (slot :: slots)) ++ ['>'])

/-- The text of an argument with the packages in it spelled out. -/
def TypeArg.write (spacing : TypeRef.Spacing) (path : List Nat) : TypeArg → List Char
  | .type t => t.write spacing path
  | .placeholder text => spacing.placeholder path text.toList
  | .wildcard side t => spacing.bounded path side (t.write spacing path)

/-- The texts of some arguments, each with the white space around it. -/
def TypeArg.writeEach (spacing : TypeRef.Spacing) (path : List Nat) (position : Nat) :
    List (String × TypeArg) → List (List Char)
  | [] => []
  | (_, argument) :: slots =>
    spacing.surround (position :: path) (argument.write spacing (position :: path)) ::
      TypeArg.writeEach spacing path (position + 1) slots

end

/-- A type that cannot be told apart from a type variable or a native type when
    it stands in the place of an argument is not written there. -/
def TypeRef.Distinct (t : TypeRef) : Prop :=
  ∀ name, t = .declared "" name [] → isNativeName name = false ∧ isTypeVariable name.toList = false

/-- A type with arguments is neither a variable nor native. -/
theorem TypeRef.Distinct.of_slots {package name : String} {slot : String × TypeArg}
    {slots : List (String × TypeArg)} : (declared package name (slot :: slots)).Distinct := nofun

/-- The placeholders that reading an argument gives. -/
inductive IsPlaceholder : String → Prop where
  | unbounded : IsPlaceholder "?"
  | typeVariable {name : String} (hname : isTypeVariable name.toList = true) : IsPlaceholder name
  | bounded {name : String} (side : Bound) (hname : isTypeVariable name.toList = true) :
      IsPlaceholder ("? " ++ side.keyword ++ " " ++ name)

mutual

/-- The types whose text can be read again: names have the characters of names,
    and slots have the keys that reading gives them. -/
def TypeRef.Writable : TypeRef → Prop
  | .native name => isNativeName name = true ∨ TypeRef.IsArrayText name.toList
  | .declared package name slots =>
    IsQualifier package.toList ∧ IsIdentifier name.toList ∧ TypeArg.WritableEach 0 slots

/-- The arguments whose text can be read again. -/
def TypeArg.Writable : TypeArg → Prop
  | .type t => t.Writable ∧ t.Distinct
  | .placeholder text => IsPlaceholder text
  | .wildcard _ t => t.Writable ∧ t.Distinct

/-- The slots that reading gives when all of their arguments can be read again. -/
def TypeArg.WritableEach (position : Nat) : List (String × TypeArg) → Prop
  | [] => True
  | (key, argument) :: slots =>
    key = slotKey position ∧ argument.Writable ∧ TypeArg.WritableEach (position + 1) slots

end

mutual

/-- The table has no package for any name that is written without one. -/
def TypeRef.Unlisted (table : WellKnown) : TypeRef → Prop
  | .native _ => True
  | .declared package name slots =>
    (package = "" → table.package? name = none) ∧ TypeArg.UnlistedEach table slots

/-- The table has no package for any name in an argument that is written without
    one. -/
def TypeArg.Unlisted (table : WellKnown) : TypeArg → Prop
  | .type t => t.Unlisted table
  | .placeholder _ => True
  | .wildcard _ t => t.Unlisted table

def TypeArg.UnlistedEach (table : WellKnown) : List (String × TypeArg) → Prop
  | [] => True
  | (_, argument) :: slots => argument.Unlisted table ∧ TypeArg.UnlistedEach table slots

end

namespace TypeRef

/-- Type variables and native names are names without dots. -/
theorem not_variable_of_mem {text : List Char} {c : Char} (hc : c ∈ text)
    (hchar : ¬ IsIdentifierChar c) :
    isTypeVariable text = false ∧ isNativeName (String.ofList text) = false := by
  refine ⟨?_, ?_⟩
  · by_contra hvariable
    rw [Bool.not_eq_false] at hvariable
    obtain ⟨letter, digits, rfl, hletter, hdigits⟩ := isTypeVariable_iff.mp hvariable
    exact hchar ((isIdentifier_of_isTypeVariable hletter hdigits).chars c hc)
  · by_contra hnative
    rw [Bool.not_eq_false] at hnative
    have hname := isIdentifier_of_isNativeName hnative
    rw [String.toList_ofList] at hname
    exact hchar (hname.chars c hc)

private theorem not_variable_of_isNativeName {name : String} (h : isNativeName name = true) :
    isTypeVariable name.toList = false := by
  have hall : ∀ native ∈ nativeNames, isTypeVariable native.toList = false := by decide
  exact hall name (List.contains_iff_mem.mp h)

/-- Without a package, the qualified name is the name. -/
theorem qualifiedName_of_empty (name : String) (slots : List (String × TypeArg)) :
    (declared "" name slots).qualifiedName = name := rfl

/-- A qualified name is resolved to the package and the name that it is made of. -/
private theorem resolves_qualifiedName {table : WellKnown} {given package name : String}
    (hgiven : isBlank given = true) (hpackage : IsQualifier package.toList)
    (hname : IsIdentifier name.toList) (hunlisted : package = "" → table.package? name = none)
    (slots : List (String × TypeArg)) :
    Resolves table given.toList (declared package name slots).qualifiedName.toList package name := by
  have hblank := isBlank_iff_blank.mp hgiven
  by_cases hempty : package = ""
  · subst hempty
    have hresolves : Resolves table _ _ _ _ := .listed hname hblank
    rw [String.ofList_toList, hunlisted rfl] at hresolves
    exact hresolves
  · have hne : package.toList ≠ [] := by simpa using hempty
    have hresolves : Resolves table _ _ _ _ := .qualified hname hne hpackage hblank
    rw [String.ofList_toList, String.ofList_toList] at hresolves
    rw [qualifiedName_of_ne_empty hempty]
    simpa using hresolves

private theorem isTypeName_qualifiedName {package name : String} (hpackage : IsQualifier package.toList)
    (hname : IsIdentifier name.toList) (slots : List (String × TypeArg)) :
    IsTypeName true (declared package name slots).qualifiedName.toList := by
  have hunlisted : package = "" → WellKnown.empty.package? name = none := fun _ => rfl
  have hresolves := resolves_qualifiedName isBlank_empty hpackage hname hunlisted slots
  have htype := (isTypeName_iff_exists_resolves WellKnown.empty).mpr ⟨_, _, hresolves⟩
  rwa [isBlank_empty] at htype

/-- A name does not end like an array. -/
theorem not_array_of_isNameChar {name : List Char} (hchars : ∀ c ∈ name, isNameChar c = true) :
    ¬ ['[', ']'] <:+ name := by
  intro hsuffix
  have hclose := hsuffix.subset (by simp : ']' ∈ ['[', ']'])
  exact ne_of_isNameChar (hchars _ hclose) (by simp : ']' ∈ _) rfl

theorem not_array_of_generic (front inside : List Char) :
    ¬ ['[', ']'] <:+ front ++ '<' :: (inside ++ ['>']) := by
  rintro ⟨array, harray⟩
  have hlast := congrArg List.getLast? harray
  rw [← List.cons_append, ← List.append_assoc, List.getLast?_concat] at hlast
  simp at hlast

/-- The text of a declared type is read as a declared type wherever it stands. -/
private theorem write_declared (spacing : Spacing) (path : List Nat) {package name : String}
    {slots : List (String × TypeArg)} (hpackage : IsQualifier package.toList)
    (hname : IsIdentifier name.toList) (hdistinct : (declared package name slots).Distinct) :
    ((declared package name slots).write spacing path).head? ≠ some '?' ∧
      isTypeVariable ((declared package name slots).write spacing path) = false ∧
      isNativeName (String.ofList ((declared package name slots).write spacing path)) = false ∧
      ¬ ['[', ']'] <:+ (declared package name slots).write spacing path := by
  have hbase := isTypeName_qualifiedName hpackage hname slots
  cases slots with
  | nil =>
    rw [TypeRef.write]
    -- A dot keeps a bare name from being a variable or native, and otherwise the type is distinct.
    have hplain : isTypeVariable (declared package name []).qualifiedName.toList = false ∧
        isNativeName (String.ofList (declared package name []).qualifiedName.toList) = false := by
      by_cases hempty : package = ""
      · subst hempty
        obtain ⟨hnative, hvariable⟩ := hdistinct name rfl
        rw [qualifiedName_of_empty, String.ofList_toList]
        exact ⟨hvariable, hnative⟩
      · have hdot : '.' ∈ (declared package name []).qualifiedName.toList := by
          rw [qualifiedName_of_ne_empty hempty]
          simp
        exact not_variable_of_mem hdot not_isIdentifierChar_dot
    refine ⟨?_, hplain.1, hplain.2, not_array_of_isNameChar hbase.isNameChar⟩
    simpa using head?_ne_mark hbase.ne_nil hbase.isNameChar []
  | cons slot slots =>
    rw [TypeRef.write]
    have hopen : '<' ∈ (declared package name (slot :: slots)).qualifiedName.toList ++
        spacing.gap path .bracket ++
          '<' :: ([','].intercalate (TypeArg.writeEach spacing path 0 (slot :: slots)) ++ ['>']) := by
      simp
    obtain ⟨hvariable, hnative⟩ := not_variable_of_mem hopen (not_isIdentifierChar_of_mark (by simp))
    refine ⟨?_, hvariable, hnative, not_array_of_generic _ _⟩
    rw [List.append_assoc]
    exact head?_ne_mark hbase.ne_nil hbase.isNameChar _

/-- What the text of a type has to give for the type to be read from it, on its
    own or in the place of an argument. -/
private def ReadsBack (table : WellKnown) (text : List Char) (t : TypeRef) : Prop :=
  Framed (.type true) text ∧
    (t.isNative = false → ∀ package, isBlank package = true →
      parse table package (String.ofList text) = .ok t)

/-- A native type or an array is a piece without white space around it. -/
theorem framed_native {name : String}
    (hname : isNativeName name = true ∨ IsArrayText name.toList) : Framed (.type true) name.toList := by
  rcases hname with hnative | harray
  · have hidentifier := isIdentifier_of_isNativeName hnative
    exact ⟨isPiece_of_isNameChar hidentifier.isNameChar,
      trimmed_of_isNameChar hidentifier.isNameChar, hidentifier.ne_nil⟩
  · exact ⟨harray.piece, harray.trimmed, harray.ne_nil⟩

/-- A native type or an array is read as an argument just as it is. -/
theorem readArgument_native (table : WellKnown) {name : String}
    (hname : isNativeName name = true ∨ IsArrayText name.toList) :
    readArgument table name.toList = .ok (.type (.native name)) := by
  have htrim := (framed_native hname).2.1.trim_eq
  have hread : ReadsArgument table name.toList
      (.type (.native (String.ofList (Text.trim name.toList)))) := by
    apply ReadsArgument.native
    · rw [htrim]
      rcases hname with hnative | harray
      · have hidentifier := isIdentifier_of_isNativeName hnative
        simpa using head?_ne_mark hidentifier.ne_nil hidentifier.isNameChar []
      · exact harray.mark
    · rw [htrim]
      rcases hname with hnative | harray
      · exact not_variable_of_isNativeName hnative
      · have hclose := harray.array.subset (by simp : ']' ∈ ['[', ']'])
        exact (not_variable_of_mem hclose (not_isIdentifierChar_of_mark (by simp))).1
    · rw [htrim, String.ofList_toList]
      exact hname.imp_right IsArrayText.array
  rw [htrim, String.ofList_toList] at hread
  exact readArgument_eq_ok_iff.mpr hread

/-- A type that can be read from its text can be read as an argument or a bound. -/
private theorem ReadsBack.readArgument {table : WellKnown} {spacing : Spacing} {path : List Nat}
    {t : TypeRef} (hwritable : t.Writable) (hdistinct : t.Distinct)
    (h : ReadsBack table (t.write spacing path) t) :
    readArgument table (t.write spacing path) = .ok (.type t) := by
  cases t with
  | native name =>
    rw [TypeRef.write]
    exact readArgument_native table hwritable
  | declared package name slots =>
    obtain ⟨⟨_, htrimmed, _⟩, hparse⟩ := h
    obtain ⟨hmark, hvariable, hnative, harray⟩ :=
      write_declared spacing path hwritable.1 hwritable.2.1 hdistinct
    have ht := hparse rfl "" isBlank_empty
    rw [← htrimmed.trim_eq] at hmark hvariable hnative harray ht
    exact readArgument_eq_ok_iff.mpr (.declared hmark hvariable hnative harray ht)

/-- What the text of an argument has to give for the argument to be read from it. -/
def ReadsBackArgument (table : WellKnown) (text : List Char) (argument : TypeArg) : Prop :=
  Framed .argument text ∧ readArgument table text = .ok argument

private theorem ReadsBackArgument.surround {table : WellKnown} {text : List Char} {argument : TypeArg}
    (h : ReadsBackArgument table text argument) (spacing : Spacing) (path : List Nat) :
    ReadsBackArgument table (spacing.surround path text) argument := by
  obtain ⟨⟨hpiece, hne⟩, hread⟩ := h
  have hbefore := spacing.blank path .before
  have hafter := spacing.blank path .after
  have htrim : Text.trim (spacing.surround path text) = Text.trim text :=
    Text.trim_append_of_blank hbefore hafter text
  refine ⟨⟨((IsPiece.of_blank hbefore).append hpiece).append (.of_blank hafter), ?_⟩, ?_⟩
  · rwa [htrim]
  · rw [← readArgument_trim, htrim, readArgument_trim]
    exact hread

private theorem readsBack_wildcard {table : WellKnown} {text : List Char} {t : TypeRef}
    (spacing : Spacing) (path : List Nat) (side : Bound) (hframed : Framed (.type true) text)
    (hread : readArgument table text = .ok (.type t)) :
    ReadsBackArgument table (spacing.bounded path side text) (.wildcard side t) := by
  obtain ⟨hpiece, htrimmed, hne⟩ := hframed
  have hmark := spacing.blank path .mark
  have hkeyword := spacing.blank path .keyword
  have htrim : Text.trim (spacing.gap path .keyword ++ text) = text := by
    simpa using Text.trim_surrounded hkeyword htrimmed .nil
  refine ⟨framed_bounded side .nil hmark ((IsPiece.of_blank hkeyword).append hpiece), ?_⟩
  refine readArgument_wildcard side .nil hmark ?_ ?_
  · rwa [htrim]
  · rw [← readArgument_trim, htrim]
    exact hread

private theorem readsBack_boundedByVariable (table : WellKnown) {name : String} (spacing : Spacing)
    (path : List Nat) (side : Bound) (hname : isTypeVariable name.toList = true) :
    ReadsBackArgument table (spacing.bounded path side name.toList)
      (.placeholder ("? " ++ side.keyword ++ " " ++ name)) := by
  obtain ⟨letter, digits, htext, hletter, hdigits⟩ := isTypeVariable_iff.mp hname
  have hidentifier := isIdentifier_of_isTypeVariable hletter hdigits
  rw [← htext] at hidentifier
  have hmark := spacing.blank path .mark
  have hkeyword := spacing.blank path .keyword
  have htrim : Text.trim (spacing.gap path .keyword ++ name.toList) = name.toList := by
    simpa using Text.trim_surrounded hkeyword (trimmed_of_isNameChar hidentifier.isNameChar) .nil
  have hpiece := (IsPiece.of_blank hkeyword).append (isPiece_of_isNameChar hidentifier.isNameChar)
  refine ⟨framed_bounded side .nil hmark hpiece, ?_⟩
  have hread := readArgument_boundedByVariable table side .nil hmark (htrim.symm ▸ hname)
  rw [htrim, String.ofList_toList] at hread
  exact hread

private theorem readsBack_typeVariable (table : WellKnown) {name : String}
    (hname : isTypeVariable name.toList = true) :
    ReadsBackArgument table name.toList (.placeholder name) := by
  obtain ⟨letter, digits, htext, hletter, hdigits⟩ := isTypeVariable_iff.mp hname
  have hidentifier := isIdentifier_of_isTypeVariable hletter hdigits
  rw [← htext] at hidentifier
  have htrim := (trimmed_of_isNameChar hidentifier.isNameChar).trim_eq
  refine ⟨⟨isPiece_of_isNameChar hidentifier.isNameChar, ?_⟩, ?_⟩
  · rw [htrim]
    exact hidentifier.ne_nil
  · have hread := readArgument_of_isTypeVariable table (htrim.symm ▸ hname)
    rw [htrim, String.ofList_toList] at hread
    exact hread

/-- There is no gap in a type variable. -/
theorem placeholder_of_isTypeVariable (spacing : Spacing) (path : List Nat) {name : String}
    (hname : isTypeVariable name.toList = true) : spacing.placeholder path name.toList = name.toList := by
  obtain ⟨letter, digits, htext, hletter, _⟩ := isTypeVariable_iff.mp hname
  rw [htext, Spacing.placeholder]
  intro rest heq
  obtain ⟨rfl, _⟩ := List.cons.inj heq
  cases hletter

/-- The gaps of a bounded placeholder are those of a wildcard. -/
theorem placeholder_bounded (spacing : Spacing) (path : List Nat) (side : Bound) (name : String) :
    spacing.placeholder path ("? " ++ side.keyword ++ " " ++ name).toList =
      spacing.bounded path side name.toList := by
  have htext : ("? " ++ side.keyword ++ " " ++ name).toList =
      '?' :: ' ' :: (side.keyword.toList ++ ' ' :: name.toList) := by
    simp
  have hbound := boundOf_eq_some_iff.mpr (rfl : side.keyword.toList ++ ' ' :: name.toList = _)
  rw [htext, Spacing.placeholder, hbound]

/-- A placeholder is read again, whatever the white space in it. -/
theorem readsBack_placeholder (table : WellKnown) {text : String} (spacing : Spacing)
    (path : List Nat) (h : IsPlaceholder text) :
    ReadsBackArgument table (spacing.placeholder path text.toList) (.placeholder text) := by
  cases h with
  | unbounded =>
    have htext : "?".toList = ['?'] := rfl
    have hmark : Text.Trimmed ['?'] := .of_all rfl
    have hplain : spacing.placeholder path ['?'] = ['?'] := rfl
    rw [htext, hplain]
    refine ⟨⟨mark_isPiece, by decide⟩, ?_⟩
    exact readArgument_eq_ok_iff.mpr (.unbounded hmark.trim_eq)
  | typeVariable hname =>
    rw [placeholder_of_isTypeVariable spacing path hname]
    exact readsBack_typeVariable table hname
  | bounded side hname =>
    rw [placeholder_bounded]
    exact readsBack_boundedByVariable table spacing path side hname

/-- The keys of the slots are those that reading gives the arguments. -/
private theorem mapIdx_slotKey {position : Nat} {slots : List (String × TypeArg)}
    (h : TypeArg.WritableEach position slots) :
    (slots.map Prod.snd).mapIdx (fun i argument => (slotKey (position + i), argument)) = slots := by
  induction slots generalizing position with
  | nil => rfl
  | cons slot slots ih =>
    obtain ⟨key, argument⟩ := slot
    obtain ⟨hkey, _, hslots⟩ := h
    have hrest := ih hslots
    simp only [Nat.add_right_comm position 1] at hrest
    rw [List.map_cons, List.mapIdx_cons, Nat.add_zero, ← hkey]
    exact congrArg _ hrest

end TypeRef

open TypeRef in
mutual

private theorem TypeRef.readsBack_write (table : WellKnown) (spacing : Spacing) :
    ∀ (path : List Nat) (t : TypeRef), t.Writable → t.Unlisted table →
      ReadsBack table (t.write spacing path) t
  | path, .native name, hwritable, _ => ⟨framed_native hwritable, nofun⟩
  | path, .declared package name [], ⟨hpackage, hname, _⟩, ⟨hunlisted, _⟩ => by
    have hbase := isTypeName_qualifiedName hpackage hname []
    refine ⟨framed_name hbase.isNameChar hbase.ne_nil, ?_⟩
    intro _ given hgiven
    exact parse_name (resolves_qualifiedName hgiven hpackage hname hunlisted [])
  | path, .declared package name (slot :: slots), ⟨hpackage, hname, hwritable⟩,
      ⟨hunlisted, hunlistedEach⟩ => by
    have hbase := isTypeName_qualifiedName hpackage hname (slot :: slots)
    obtain ⟨hframed, hread⟩ :=
      TypeArg.readsBack_writeEach table spacing path 0 (slot :: slots) hwritable hunlistedEach
    have hne : TypeArg.writeEach spacing path 0 (slot :: slots) ≠ [] := by
      obtain ⟨key, argument⟩ := slot
      simp [TypeArg.writeEach]
    have hgap := spacing.blank path .bracket
    refine ⟨framed_generic hbase hgap
      (.intercalate fun piece hpiece => (hframed piece hpiece).1.matched), ?_⟩
    intro _ given hgiven
    have hresolves := resolves_qualifiedName hgiven hpackage hname hunlisted (slot :: slots)
    -- Reading gives the slots the keys of their positions, which are the keys they have.
    have hkeys := mapIdx_slotKey hwritable
    simp only [Nat.zero_add] at hkeys
    have hparse := parse_generic hresolves hgap hne hframed hread
    rw [hkeys] at hparse
    exact hparse

private theorem TypeArg.readsBack_write (table : WellKnown) (spacing : Spacing) :
    ∀ (path : List Nat) (argument : TypeArg), argument.Writable → argument.Unlisted table →
      ReadsBackArgument table (argument.write spacing path) argument
  | path, .type t, ⟨hwritable, hdistinct⟩, hunlisted => by
    have ht := TypeRef.readsBack_write table spacing path t hwritable hunlisted
    obtain ⟨hpiece, htrimmed, hne⟩ := ht.1
    refine ⟨⟨hpiece, ?_⟩, ht.readArgument hwritable hdistinct⟩
    rw [TypeArg.write, htrimmed.trim_eq]
    exact hne
  | path, .placeholder text, hwritable, _ => readsBack_placeholder table spacing path hwritable
  | path, .wildcard side t, ⟨hwritable, hdistinct⟩, hunlisted => by
    have ht := TypeRef.readsBack_write table spacing path t hwritable hunlisted
    exact readsBack_wildcard spacing path side ht.1 (ht.readArgument hwritable hdistinct)

private theorem TypeArg.readsBack_writeEach (table : WellKnown) (spacing : Spacing) :
    ∀ (path : List Nat) (position : Nat) (slots : List (String × TypeArg)),
      TypeArg.WritableEach position slots → TypeArg.UnlistedEach table slots →
      (∀ piece ∈ TypeArg.writeEach spacing path position slots, Framed .argument piece) ∧
        List.Forall₂ (fun piece argument => readArgument table piece = .ok argument)
          (TypeArg.writeEach spacing path position slots) (slots.map Prod.snd)
  | path, position, [], _, _ => ⟨by simp [TypeArg.writeEach], .nil⟩
  | path, position, (key, argument) :: slots, ⟨_, hwritable, hwritableEach⟩,
      ⟨hunlisted, hunlistedEach⟩ => by
    obtain ⟨hframedEach, hreadEach⟩ := TypeArg.readsBack_writeEach table spacing path (position + 1)
      slots hwritableEach hunlistedEach
    obtain ⟨hframed, hread⟩ := (TypeArg.readsBack_write table spacing (position :: path) argument
      hwritable hunlisted).surround spacing (position :: path)
    refine ⟨?_, .cons hread hreadEach⟩
    intro piece hpiece
    rcases List.mem_cons.mp hpiece with rfl | hpiece
    · exact hframed
    · exact hframedEach piece hpiece

end

namespace TypeRef

/-- Reading undoes writing, whatever the white space: a declared type is read
    from its text with all packages spelled out, if the table has none for the
    names that are written without one. -/
theorem parse_write {table : WellKnown} {package : String} (hpackage : isBlank package = true)
    {t : TypeRef} (hdeclared : t.isNative = false) (hwritable : t.Writable)
    (hunlisted : t.Unlisted table) (spacing : Spacing) :
    parse table package (String.ofList (spacing.surround [] (t.write spacing []))) = .ok t := by
  obtain ⟨⟨_, htrimmed, _⟩, hparse⟩ := readsBack_write table spacing [] t hwritable hunlisted
  have htrim : Text.trim (spacing.surround [] (t.write spacing [])) = t.write spacing [] :=
    Text.trim_surrounded (spacing.blank [] .before) htrimmed (spacing.blank [] .after)
  rw [← parse_trim_eq_ok_iff, String.toList_ofList, htrim]
  exact hparse hdeclared package hpackage

/-- One space in every gap. -/
def singleSpaces : Spacing where
  gap _ _ := [' ']
  blank _ _ c hc := by
    obtain rfl := List.mem_singleton.mp hc
    rfl

/-- A map from arrays to lists, with a variable for the elements of the lists. -/
def mapOfLists : TypeRef :=
  .declared "java.util" "Map" [("T", .type (.native "int[]")),
    ("U", .wildcard .extends (.declared "" "Sequence" [("T", .placeholder "? super E1")]))]

/-- The map is read from its text with a space in every gap. -/
theorem parse_write_spaced :
    parse .standard " " " java.util.Map < int[] , ? extends  Sequence < ? super  E1 > > " =
      .ok mapOfLists := by
  have harray : IsArrayText "int[]".toList :=
    ⟨.of_all rfl, by decide, by decide, .of_plain (by decide) (by decide) (by decide)⟩
  have hidentifier : ∀ name ∈ ["Map", "Sequence"], IsIdentifier name.toList := by
    have hall : ∀ name ∈ ["Map", "Sequence"], name.toList ≠ [] ∧
        name.toList.all Text.isAlphanumeric = true := by decide +kernel
    intro name hname
    exact ⟨(hall name hname).1, fun c hc => .inl (List.all_eq_true.mp (hall name hname).2 c hc)⟩
  have hqualifier : ∀ package ∈ ["java.util", ""], IsQualifier package.toList := by
    have hall : ∀ package ∈ ["java.util", ""], package.toList.all isNameChar = true := by
      decide +kernel
    exact fun package hpackage c hc => isNameChar_iff.mp (List.all_eq_true.mp (hall package hpackage) c hc)
  have hvariable : IsPlaceholder ("? " ++ Bound.super.keyword ++ " " ++ "E1") :=
    .bounded .super (by decide)
  have hwritable : mapOfLists.Writable := by
    refine ⟨hqualifier _ (by simp), hidentifier _ (by simp), rfl, ⟨.inr harray, nofun⟩, rfl,
      ⟨?_, .of_slots⟩, trivial⟩
    exact ⟨hqualifier _ (by simp), hidentifier _ (by simp), rfl, hvariable, trivial⟩
  have hunlisted : mapOfLists.Unlisted .standard :=
    ⟨fun hempty => absurd hempty (by decide), trivial, ⟨fun _ => by decide, trivial, trivial⟩, trivial⟩
  have hread := parse_write (by decide : isBlank " " = true) rfl hwritable hunlisted singleSpaces
  have htext : singleSpaces.surround [] (mapOfLists.write singleSpaces []) =
      " java.util.Map < int[] , ? extends  Sequence < ? super  E1 > > ".toList := by decide +kernel
  rw [htext, String.ofList_toList] at hread
  exact hread

end TypeRef

end JavaSource
