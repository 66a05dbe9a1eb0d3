import JavaSource.Proofs.TypeRef.Obtainable
import JavaSource.Proofs.TypeRef.Spelling

namespace JavaSource

/-- No package of the table has white space around it. -/
def WellKnown.Trimmed (table : WellKnown) : Prop :=
  ∀ name package, table.package? name = some package → Text.Trimmed package.toList

private theorem WellKnown.Trimmed.getD {table : WellKnown} (htable : table.Trimmed) (name : String) :
    Text.Trimmed ((table.package? name).getD "").toList := by
  cases hpackage : table.package? name with
  | none => exact Text.Trimmed.of_all rfl
  | some package => exact htable name package hpackage

/-- The packages of the standard table have no white space around them. -/
theorem WellKnown.trimmed_standard : WellKnown.standard.Trimmed := by
  have hall : ∀ entry ∈ WellKnown.standard.packages, entry.2.toList.all (! Text.isSpace ·) = true := by
    decide +kernel
  exact fun name package hpackage => .of_all (hall (name, package) (Keyed.mem_of_get? hpackage))

namespace TypeRef

/-- Two types that look the same: they have the same name in the same package,
    and the same slots, whose arguments are printed the same. The arguments
    themselves can differ, in what is not printed of them. -/
structure LooksLike (t u : TypeRef) : Prop where
  package : t.package? = u.package?
  simpleName : t.simpleName = u.simpleName
  fullName : t.fullName = u.fullName
  slots : List.Forall₂ (fun slot slot' => slot.1 = slot'.1 ∧ slot.2.display = slot'.2.display) t.slots u.slots

/-- What is printed of an argument is an argument, and is read as one that is
    printed the same. -/
private def Reprints (table : WellKnown) (argument : TypeArg) : Prop :=
  Framed .argument argument.display.toList ∧
    ∃ again, readArgument table argument.display.toList = .ok again ∧ again.display = argument.display

/-- What is printed of a type can be the bound of a wildcard as well. Without its
    package a name may be that of a type variable, which is read as no type. -/
private def ReprintsBound (table : WellKnown) (t : TypeRef) : Prop :=
  Framed (.type true) t.fullName.toList ∧
    ((∃ again, readArgument table t.fullName.toList = .ok (.type again) ∧ again.fullName = t.fullName) ∨
      isTypeVariable t.fullName.toList = true)

private theorem ReprintsBound.reprints {table : WellKnown} {t : TypeRef} (h : ReprintsBound table t) :
    Reprints table (.type t) := by
  obtain ⟨⟨hpiece, htrimmed, hne⟩, hread⟩ := h
  have htrim := htrimmed.trim_eq
  refine ⟨⟨hpiece, by rwa [TypeArg.display, htrim]⟩, ?_⟩
  rcases hread with ⟨again, hagain, hsame⟩ | hvariable
  · exact ⟨.type again, hagain, hsame⟩
  · refine ⟨_, readArgument_of_isTypeVariable table (by rwa [TypeArg.display, htrim]), ?_⟩
    rw [TypeArg.display, TypeArg.display, htrim, String.ofList_toList]

private theorem ReprintsBound.wildcard {table : WellKnown} {t : TypeRef} (h : ReprintsBound table t)
    (bound : Bound) : Reprints table (.wildcard bound t) := by
  obtain ⟨⟨hpiece, htrimmed, hne⟩, hread⟩ := h
  have htrim := htrimmed.trim_eq
  have hdisplay : (TypeArg.wildcard bound t).display.toList =
      [] ++ '?' :: ([' '] ++ bound.keyword.toList ++ ' ' :: t.fullName.toList) := by
    simp [TypeArg.display]
  rw [Reprints, hdisplay]
  refine ⟨framed_bounded bound .nil .space hpiece, ?_⟩
  rcases hread with ⟨again, hagain, hsame⟩ | hvariable
  · refine ⟨_, readArgument_wildcard bound .nil .space (by rwa [htrim]) hagain, ?_⟩
    rw [TypeArg.display, TypeArg.display, hsame]
  · refine ⟨_, readArgument_boundedByVariable table bound .nil .space (by rwa [htrim]), ?_⟩
    rw [TypeArg.display, TypeArg.display, htrim, String.ofList_toList]

/-- The white space that printing puts into a placeholder. -/
private def printedSpacing : Spacing where
  gap
    | _, .mark => [' ']
    | _, _ => []
  blank _ place c hc := by
    cases place with
    | mark => exact List.mem_singleton.mp hc ▸ rfl
    | before | after | bracket | keyword => cases hc

private theorem reprints_placeholder (table : WellKnown) {text : String} (h : IsPlaceholder text) :
    Reprints table (.placeholder text) := by
  have hprinted : printedSpacing.placeholder [] text.toList = text.toList := by
    cases h with
    | unbounded => rfl
    | typeVariable hname => exact placeholder_of_isTypeVariable printedSpacing [] hname
    | @bounded name side hname =>
      rw [placeholder_bounded]
      simp [Spacing.bounded, printedSpacing]
  obtain ⟨hframed, hread⟩ := readsBack_placeholder table printedSpacing [] h
  rw [hprinted] at hframed hread
  exact ⟨hframed, _, hread, rfl⟩

/-- Behind a comma there is a space, which does not count. -/
private theorem Reprints.behind_comma {table : WellKnown} {argument : TypeArg} (h : Reprints table argument) :
    Framed .argument (' ' :: argument.display.toList) ∧
      ∃ again, readArgument table (' ' :: argument.display.toList) = .ok again ∧
        again.display = argument.display := by
  obtain ⟨⟨hpiece, hne⟩, hread⟩ := h
  have htrim : Text.trim (' ' :: argument.display.toList) = Text.trim argument.display.toList := by
    simpa using Text.trim_append_of_blank .space .nil argument.display.toList
  refine ⟨⟨(IsPiece.of_blank .space).append hpiece, by rwa [htrim]⟩, ?_⟩
  rwa [← readArgument_trim, htrim, readArgument_trim]

/-- What stands between the brackets: the arguments with commas between them, where
    all but the first one begin with a space. -/
private def printedPieces : List TypeArg → List (List Char)
  | [] => []
  | first :: more => first.display.toList :: more.map fun argument => ' ' :: argument.display.toList

private theorem intercalate_comma_space (first : List Char) (more : List (List Char)) :
    [',', ' '].intercalate (first :: more) = [','].intercalate (first :: more.map (' ' :: ·)) := by
  induction more generalizing first with
  | nil => simp
  | cons second more ih =>
    rw [List.map_cons, List.intercalate_cons_cons, List.intercalate_cons_cons, ih second]
    cases more with
    | nil => simp
    | cons third more => simp [List.intercalate_cons_cons]

/-- The type that reading makes of a name and its arguments. -/
private def ofArguments (package name : String) (arguments : List TypeArg) : TypeRef :=
  .declared package name (arguments.mapIdx fun i argument => (slotKey i, argument))

private theorem displayEach_slots (package name : String) (arguments : List TypeArg) :
    TypeArg.displayEach (ofArguments package name arguments).slots = arguments.map TypeArg.display := by
  have hdisplays := congrArg (List.map TypeArg.display) (map_snd_mapIdx slotKey arguments)
  rw [List.map_map] at hdisplays
  exact (TypeArg.displayEach_eq_map _).trans hdisplays

private theorem fullName_ofArguments (package name : String) {arguments : List TypeArg} (hne : arguments ≠ []) :
    (ofArguments package name arguments).fullName.toList =
      name.toList ++ [] ++ '<' :: ([','].intercalate (printedPieces arguments) ++ ['>']) := by
  obtain ⟨first, more, rfl⟩ := List.exists_cons_of_ne_nil hne
  have hdisplays := displayEach_slots package name (first :: more)
  have hspace : ", ".toList = [',', ' '] := rfl
  rw [ofArguments, slots] at hdisplays
  rw [ofArguments, fullName_eq_angled, hdisplays, List.map_cons, List.map_cons, angled, hspace,
    intercalate_comma_space, List.map_map, List.map_map, List.append_nil]
  rfl

/-- Packages are not printed, and of the arguments nothing but their own print. -/
private theorem fullName_eq_of_forall₂ (package package' name : String) {arguments again : List TypeArg}
    (h : List.Forall₂ (fun argument argument' => argument.display = argument'.display) arguments again) :
    (ofArguments package name arguments).fullName = (ofArguments package' name again).fullName := by
  have hdisplays := map_eq_of_forall₂ h fun _ _ hsame => hsame
  rw [← displayEach_slots package name arguments, ← displayEach_slots package' name again] at hdisplays
  exact fullName_eq_of_displayEach hdisplays

/-- What is printed of the arguments is read, each one as an argument that is printed
    the same. -/
private theorem exists_read_printedPieces {table : WellKnown} {arguments : List TypeArg}
    (h : ∀ argument ∈ arguments, Reprints table argument) :
    (∀ piece ∈ printedPieces arguments, Framed .argument piece) ∧
      ∃ again, List.Forall₂ (fun piece argument => readArgument table piece = .ok argument)
          (printedPieces arguments) again ∧
        List.Forall₂ (fun argument argument' => argument.display = argument'.display) arguments again := by
  cases arguments with
  | nil => exact ⟨nofun, [], .nil, .nil⟩
  | cons first more =>
    obtain ⟨hfirst, hmore⟩ := List.forall_mem_cons.mp h
    obtain ⟨hframed, again, hread, hsame⟩ := hfirst
    obtain ⟨rest, hrest⟩ := exists_forall₂ fun argument hargument => (hmore argument hargument).behind_comma.2
    refine ⟨List.forall_mem_cons.mpr ⟨hframed, ?_⟩, again :: rest, .cons hread ?_, .cons hsame.symm ?_⟩
    · exact List.forall_mem_map.mpr fun argument hargument => (hmore argument hargument).behind_comma.1
    · exact List.forall₂_map_left_iff.mpr (hrest.imp fun _ _ hargument => hargument.1)
    · exact hrest.imp fun _ _ hargument => hargument.2.symm

/-- What is printed of a type is read, wherever its name is resolved to itself. -/
private theorem exists_parse_fullName {table : WellKnown} {given package' name : String} (package : String)
    {arguments : List TypeArg} (hresolves : Resolves table given.toList name.toList package' name)
    (h : ∀ argument ∈ arguments, Reprints table argument) :
    ∃ again, List.Forall₂ (fun argument argument' => argument.display = argument'.display) arguments again ∧
      parse table given (ofArguments package name arguments).fullName =
        .ok (ofArguments package' name again) := by
  obtain ⟨hframed, again, hread, hsame⟩ := exists_read_printedPieces h
  refine ⟨again, hsame, ?_⟩
  rw [← String.ofList_toList (s := fullName _)]
  by_cases hne : arguments = []
  · subst hne
    cases hsame
    exact parse_name hresolves
  · rw [fullName_ofArguments package name hne]
    refine parse_generic hresolves .nil ?_ hframed hread
    obtain ⟨first, more, rfl⟩ := List.exists_cons_of_ne_nil hne
    exact List.cons_ne_nil _ _

/-- What is printed of a declared type has the form of a type, and is neither a
    wildcard nor an array. -/
private theorem framed_ofArguments {table : WellKnown} (package : String) {name : String}
    {arguments : List TypeArg} (hname : IsIdentifier name.toList)
    (h : ∀ argument ∈ arguments, Reprints table argument) :
    Framed (.type true) (ofArguments package name arguments).fullName.toList ∧
      (ofArguments package name arguments).fullName.toList.head? ≠ some '?' ∧
      ¬ ['[', ']'] <:+ (ofArguments package name arguments).fullName.toList := by
  by_cases hne : arguments = []
  · subst hne
    have hmark := head?_ne_mark hname.ne_nil hname.isNameChar []
    rw [List.append_nil] at hmark
    exact ⟨framed_name hname.isNameChar hname.ne_nil, hmark, not_array_of_isNameChar hname.isNameChar⟩
  · have hpieces := (exists_read_printedPieces h).1
    have hsimple : IsTypeName true name.toList := .simple hname
    rw [fullName_ofArguments package name hne]
    refine ⟨framed_generic hsimple .nil
      (.intercalate fun piece hpiece => (hpieces piece hpiece).1.matched), ?_, not_array_of_generic _ _⟩
    rw [List.append_assoc]
    exact head?_ne_mark hname.ne_nil hname.isNameChar _

/-- A declared type that has lost its package is read as a type variable, as a native
    type or as a declared type, and is printed the same. -/
private theorem reprintsBound_ofArguments {table : WellKnown} (package : String) {name : String}
    {arguments : List TypeArg} (hname : IsIdentifier name.toList)
    (h : ∀ argument ∈ arguments, Reprints table argument) :
    ReprintsBound table (ofArguments package name arguments) := by
  obtain ⟨hframed, hmark, harray⟩ := framed_ofArguments package hname h
  have hresolves : Resolves table "".toList name.toList _ _ := .listed hname .nil
  rw [String.ofList_toList] at hresolves
  obtain ⟨again, hsame, hparse⟩ := exists_parse_fullName package hresolves h
  have hfullName := fullName_eq_of_forall₂ package ((table.package? name).getD "") name hsame
  refine ⟨hframed, ?_⟩
  have htrim := hframed.2.1.trim_eq
  -- The text as a whole decides, so that a name with arguments is never one of the first two.
  by_cases hvariable : isTypeVariable (ofArguments package name arguments).fullName.toList = true
  · exact .inr hvariable
  · rw [Bool.not_eq_true] at hvariable
    rw [← htrim] at hmark harray hvariable
    by_cases hnative : isNativeName (ofArguments package name arguments).fullName = true
    · refine .inl ⟨_, readArgument_eq_ok_iff.mpr (.native hmark hvariable (.inl ?_)), ?_⟩
      · rwa [htrim, String.ofList_toList]
      · rw [htrim, String.ofList_toList, fullName]
    · rw [Bool.not_eq_true] at hnative
      refine .inl ⟨_, readArgument_eq_ok_iff.mpr (.declared hmark hvariable ?_ harray ?_), hfullName.symm⟩
      · rwa [htrim, String.ofList_toList]
      · rwa [htrim, String.ofList_toList]

private theorem reprintsBound_native (table : WellKnown) {name : String}
    (hname : isNativeName name = true ∨ IsArrayText name.toList) : ReprintsBound table (.native name) :=
  ⟨framed_native hname, .inl ⟨_, readArgument_native table hname, rfl⟩⟩

/-- What has to be shown of an argument so that it can be part of another one, as the
    bound of a wildcard or between the brackets of a type. -/
private def ReprintsInside (table : WellKnown) : TypeArg → Prop
  | .type t => ReprintsBound table t
  | argument => Reprints table argument

private theorem ReprintsInside.reprints {table : WellKnown} {argument : TypeArg}
    (h : ReprintsInside table argument) : Reprints table argument := by
  cases argument with
  | type t => exact ReprintsBound.reprints h
  | placeholder text => exact h
  | wildcard bound t => exact h

private theorem reprintsInside_of_readArgument {table : WellKnown} {text : List Char} {argument : TypeArg}
    (h : readArgument table text = .ok argument) : IsPiece 0 text → ReprintsInside table argument := by
  induction h using readArgument_induction with
  | unbounded h _ | typeVariable h _ | boundedByVariable h _ _ _ =>
    intro _
    exact reprints_placeholder table (wellFormed_of_readArgument h)
  | @native text _ hmark hnative =>
    intro hpiece
    refine reprintsBound_native table (hnative.imp_right fun harray => ?_)
    rw [String.toList_ofList]
    exact ⟨Text.trimmed_trim text, harray, hmark, isPiece_trim_iff.mpr hpiece⟩
  | declared _ hsplit hresolves harguments =>
    intro _
    refine reprintsBound_ofArguments _ hresolves.isIdentifier fun argument hargument => ?_
    obtain ⟨inner, hinner, _, hread⟩ := exists_of_forall₂_right harguments argument hargument
    exact (hread (hsplit.isPiece inner hinner)).reprints
  | wildcard _ htext hbound hsubject =>
    intro hpiece
    exact (hsubject.2 (isPiece_subject hpiece htext hbound)).wildcard _

/-- A package without white space around it is taken as it is, and a name that has none
    is looked up as before. -/
private theorem resolves_of_trimmed {table : WellKnown} {package name : String}
    (hname : IsIdentifier name.toList) (hpackage : Text.Trimmed package.toList)
    (hlisted : package = "" → (table.package? name).getD "" = "") :
    Resolves table package.toList name.toList package name := by
  by_cases hempty : package = ""
  · subst hempty
    have hresolves : Resolves table "".toList name.toList _ _ := .listed hname .nil
    rwa [String.ofList_toList, hlisted rfl] at hresolves
  · have hfull : ¬ Text.Blank package.toList := by
      rwa [← Text.trim_eq_nil_iff, hpackage.trim_eq, String.toList_eq_nil_iff]
    have hresolves : Resolves table package.toList name.toList _ _ := .given hname hfull
    rwa [hpackage.trim_eq, String.ofList_toList, String.ofList_toList] at hresolves

/-- A name is resolved to itself behind the package that it was resolved to. -/
private theorem Resolves.again {table : WellKnown} (htable : table.Trimmed) {package base : List Char}
    {p n : String} (h : Resolves table package base p n) : Resolves table p.toList n.toList p n := by
  refine resolves_of_trimmed h.isIdentifier ?_ ?_
  · cases h with
    | given _ _ =>
      rw [String.toList_ofList]
      exact Text.trimmed_trim package
    | listed _ _ | leadingDot _ _ => exact htable.getD _
    | qualified _ _ hqualifier _ =>
      rw [String.toList_ofList]
      exact trimmed_of_isNameChar hqualifier.isNameChar
  · intro hempty
    cases h with
    | given _ hfull =>
      rw [String.ofList_eq_empty_iff, Text.trim_eq_nil_iff] at hempty
      exact absurd hempty hfull
    | listed _ _ | leadingDot _ _ => exact hempty
    | qualified _ hne _ _ =>
      rw [String.ofList_eq_empty_iff] at hempty
      exact absurd hempty hne

private theorem package?_getD (package name : String) (slots : List (String × TypeArg)) :
    (declared package name slots).package?.getD "" = package := by
  by_cases hempty : package = ""
  · subst hempty
    rfl
  · have hfull : package.isEmpty = false := by simpa using hempty
    simp [package?, hfull]

private theorem looksLike_ofArguments (package name : String) {arguments again : List TypeArg}
    (h : List.Forall₂ (fun argument argument' => argument.display = argument'.display) arguments again) :
    (ofArguments package name arguments).LooksLike (ofArguments package name again) := by
  refine ⟨rfl, rfl, fullName_eq_of_forall₂ package package name h, ?_⟩
  rw [List.forall₂_iff_get] at h ⊢
  obtain ⟨hlength, hsame⟩ := h
  refine ⟨by simpa [ofArguments, slots] using hlength, fun i hi hi' => ?_⟩
  simp only [ofArguments, slots, List.length_mapIdx] at hi hi'
  simpa [ofArguments, slots] using hsame i hi hi'

/-- What a type is printed as is read again in its package, if the table has no package
    with white space around it, and the type that is read looks the same. It can differ
    in what is not printed, the packages of its arguments, and without them an argument
    may be read as a type variable or as a native type. -/
theorem parse_fullName {table : WellKnown} (htable : table.Trimmed) {package raw : String} {t : TypeRef}
    (h : parse table package raw = .ok t) :
    ∃ again, parse table (t.package?.getD "") t.fullName = .ok again ∧ t.LooksLike again := by
  obtain ⟨parts, p, n, arguments, hsplit, hresolves, harguments, rfl⟩ := parse_eq_ok_iff.mp h
  have hreprints : ∀ argument ∈ arguments, Reprints table argument := by
    intro argument hargument
    obtain ⟨text, htext, hread⟩ := exists_of_forall₂_right harguments argument hargument
    exact (reprintsInside_of_readArgument hread (hsplit.isPiece text htext)).reprints
  obtain ⟨again, hsame, hparse⟩ := exists_parse_fullName p (hresolves.again htable) hreprints
  rw [package?_getD]
  exact ⟨_, hparse, looksLike_ofArguments p n hsame⟩

/-- A type whose arguments have packages that are not printed, and what is read from
    its print. -/
def qualifiedArguments : TypeRef :=
  .declared "java.util" "Map" [("T", .wildcard .super (.declared "com.acme" "K1" [])),
    ("U", .type (.declared "java.util" "List" [("T", .type (.declared "com.acme" "String" []))]))]

/-- What was qualified is printed without its package, so it is read again in
    another one, though it looks the same. -/
theorem parse_fullName_qualifiedArguments :
    WellKnown.standard.Trimmed ∧
      parse .standard "" "Map< ? super com.acme.K1,List <com.acme.String>>" = .ok qualifiedArguments ∧
      qualifiedArguments.fullName = "Map<? super K1, List<String>>" ∧
      ∃ again, parse .standard "java.util" "Map<? super K1, List<String>>" = .ok again ∧
        qualifiedArguments.LooksLike again ∧ again ≠ qualifiedArguments := by
  have hread : parse .standard "" "Map< ? super com.acme.K1,List <com.acme.String>>" = .ok qualifiedArguments :=
    toOption_eq_some_iff.mp (by decide +kernel)
  have hprint : qualifiedArguments.fullName = "Map<? super K1, List<String>>" := by decide +kernel
  obtain ⟨again, hagain, hlooks⟩ := parse_fullName WellKnown.trimmed_standard hread
  rw [hprint] at hagain
  refine ⟨WellKnown.trimmed_standard, hread, hprint, again, hagain, hlooks, ?_⟩
  rintro rfl
  have hother : (parse .standard "java.util" "Map<? super K1, List<String>>").toOption ≠
      some qualifiedArguments := by decide +kernel
  exact hother (toOption_eq_some_iff.mpr hagain)

end TypeRef

end JavaSource
