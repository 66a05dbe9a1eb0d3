import JavaSource.Proofs.TypeRef.Slots

namespace JavaSource.TypeRef

/-- Trimming a text that ends in a group takes nothing off but white space at its start. -/
private theorem exists_trim_grouped (front inside : List Char) :
    ∃ front', front' ⊆ front ∧ Text.trim front' = Text.trim front ∧
      Text.trim (front ++ '<' :: (inside ++ ['>'])) = front' ++ '<' :: (inside ++ ['>']) := by
  have hopen : Text.Trimmed ['<'] := .of_all rfl
  have hclose : Text.Trimmed ['>'] := .of_all rfl
  by_cases hnil : Text.trim front = []
  · have hblank := Text.trim_eq_nil_iff.mp hnil
    have hgroup := hopen.append (by simp) hclose (by simp) inside
    refine ⟨[], List.nil_subset front, hnil.symm, ?_⟩
    simpa using Text.trim_surrounded hblank hgroup .nil
  · obtain ⟨left, right, hleft, hright, hfront⟩ := Text.exists_blank_append_trim front
    have hname := Text.trimmed_trim front
    have hgroup := hname.append hnil hclose (by simp) (right ++ '<' :: inside)
    refine ⟨Text.trim front ++ right, ?_, ?_, ?_⟩
    · intro c hc
      rw [hfront, List.append_assoc]
      exact List.mem_append_right left hc
    · simpa using Text.trim_surrounded .nil hname hright
    · conv_lhs => rw [hfront]
      simpa using Text.trim_surrounded hleft hgroup .nil

variable {table : WellKnown} {package base : String} {texts : List String}

/-- A name without arguments. -/
theorem parse_plain_eq_ok_iff (hbase : '<' ∉ base.toList) {t : TypeRef} :
    parse table package base = .ok t ↔
      ∃ p n, Resolves table package.toList (Text.trim base.toList) p n ∧ t = .declared p n [] := by
  constructor
  · intro h
    obtain ⟨parts, p, n, arguments, hsplit, hresolves, harguments, rfl⟩ := parse_eq_ok_iff.mp h
    generalize hraw : Text.trim base.toList = raw at hsplit
    cases hsplit with
    | plain =>
      cases harguments
      exact ⟨p, n, hresolves, rfl⟩
    | grouped _ _ _ _ hgroup =>
      rw [← hraw] at hgroup
      have hopen : '<' ∈ Text.trim base.toList := by simp [hgroup]
      exact absurd ((Text.trim_isInfix _).subset hopen) hbase
  · rintro ⟨p, n, hresolves, rfl⟩
    exact parse_trim_eq_ok_iff.mp (parse_name hresolves)

/-- An argument that is read has some text. -/
theorem trim_ne_nil_of_readArgument {text : List Char} {argument : TypeArg}
    (h : readArgument table text = .ok argument) : Text.trim text ≠ [] := by
  intro hnil
  have hempty : parse table "" "" = .error (.blankName .type) :=
    parse_of_resolve_eq_error rfl (resolve_of_trim_eq_nil table _ _ rfl)
  have hmark : (Text.trim text).head? ≠ some '?' := by simp [hnil]
  have hvariable : isTypeVariable (Text.trim text) = false := by simp [hnil, isTypeVariable]
  rw [readArgument_plain table hmark hvariable, hnil, String.ofList_nil, hempty] at h
  cases h

/-- A name with arguments behind it. -/
theorem parse_grouped_eq_ok_iff (hbase : '<' ∉ base.toList) (hne : texts ≠ [])
    (hpieces : ∀ text ∈ texts, IsPiece 0 text.toList) {t : TypeRef} :
    parse table package (base ++ "<" ++ ",".intercalate texts ++ ">") = .ok t ↔
      ∃ p n arguments, Resolves table package.toList (Text.trim base.toList) p n ∧
        List.Forall₂ (fun text argument => TypeArg.parse table text = .ok argument) texts arguments ∧
        t = .declared p n (arguments.mapIdx fun i argument => (slotKey i, argument)) := by
  have htext : (base ++ "<" ++ ",".intercalate texts ++ ">").toList =
      base.toList ++ '<' :: ([','].intercalate (texts.map String.toList) ++ ['>']) := by
    simp [String.toList_intercalate]
  -- Trimming takes white space off the front of the name, but none behind the last bracket.
  obtain ⟨front, hsubset, hfront, htrim⟩ := exists_trim_grouped base.toList
    ([','].intercalate (texts.map String.toList))
  have hnotMem : '<' ∉ front := fun hmem => hbase (hsubset hmem)
  have hpieces' : ∀ piece ∈ texts.map String.toList, IsPiece 0 piece := List.forall_mem_map.mpr hpieces
  have hread : ∀ arguments, List.Forall₂ (fun text argument => readArgument table text = .ok argument)
      ((texts.map String.toList).map Text.trim) arguments ↔
        List.Forall₂ (fun text argument => TypeArg.parse table text = .ok argument) texts arguments := by
    intro arguments
    rw [List.forall₂_map_left_iff, List.forall₂_map_left_iff]
    simp only [readArgument_trim]
    rfl
  rw [parse_eq_ok_iff, htext, htrim]
  simp only [splitsInto_grouped_iff hnotMem (by simpa using hne) hpieces', hfront]
  constructor
  · rintro ⟨_, p, n, arguments, ⟨_, rfl⟩, hresolves, harguments, rfl⟩
    exact ⟨p, n, arguments, hresolves, (hread arguments).mp harguments, rfl⟩
  · rintro ⟨p, n, arguments, hresolves, harguments, rfl⟩
    refine ⟨_, p, n, arguments, ⟨?_, rfl⟩, hresolves, (hread arguments).mpr harguments, rfl⟩
    -- A blank piece would be an error of its own, but no blank text is accepted as an argument.
    rw [List.forall_mem_map]
    intro text htext
    obtain ⟨argument, _, hargument⟩ := exists_of_forall₂ harguments text htext
    exact trim_ne_nil_of_readArgument hargument

namespace Draft

/-- Slots that are all filled from texts are filled as those texts are read. -/
theorem resolveEach_texts (table : WellKnown) (key : Nat → String) (texts : List String) :
    resolveEach table (texts.mapIdx fun i text => (key i, .text text)) =
      (texts.mapM (TypeArg.parse table)).map fun arguments =>
        arguments.mapIdx fun i argument => (key i, argument) := by
  induction texts generalizing key with
  | nil => rfl
  | cons text texts ih =>
    have hrest := ih fun i => key (i + 1)
    rw [List.mapIdx_cons, resolveEach_cons, List.mapM_cons, hrest, SlotSource.resolve]
    cases TypeArg.parse table text with
    | error error => rfl
    | ok argument =>
      cases texts.mapM (TypeArg.parse table) with
      | error error => rfl
      | ok arguments => simp [bind, Except.bind, Except.map, pure, Except.pure, List.mapIdx_cons]

/-- Every slot stays as it is set, since no key of reading comes twice. -/
theorem chosen_texts {edits : List Edit}
    (h : edits.filterMap Edit.slot? = texts.mapIdx fun i text => (slotKey i, .text text)) :
    chosen edits = texts.mapIdx fun i text => (slotKey i, .text text) := by
  have hsources : (texts.mapIdx fun i text => (slotKey i, SlotSource.text text)) =
      (texts.map SlotSource.text).mapIdx fun i source => (slotKey i, source) := by
    apply List.ext_getElem <;> simp
  rw [chosen, h, hsources]
  exact Keyed.latest_of_nodup (nodup_slotKeys _)

/-- A plain name has no slots of its own, so nothing is replaced. -/
theorem build_texts_of_parse {edits : List Edit} {p n : String}
    (hparse : parse table (ofEdits edits).package (ofEdits edits).simpleName = .ok (.declared p n []))
    (hslots : edits.filterMap Edit.slot? = texts.mapIdx fun i text => (slotKey i, .text text)) :
    (ofEdits edits).build table = (texts.mapM (TypeArg.parse table)).map fun arguments =>
      .declared p n (arguments.mapIdx fun i argument => (slotKey i, argument)) := by
  rw [build_of_parse hparse, slots_ofEdits, chosen_texts hslots, resolveEach_texts]
  cases texts.mapM (TypeArg.parse table) with
  | error error => rfl
  | ok arguments => simp [Except.map, Keyed.setAll_nil (nodup_slotKeys arguments)]

/-- A draft with a plain name, whose slots are set to texts under the keys that reading
    gives. -/
theorem build_texts_eq_ok_iff {edits : List Edit} (hbase : '<' ∉ (ofEdits edits).simpleName.toList)
    (hslots : edits.filterMap Edit.slot? = texts.mapIdx fun i text => (slotKey i, .text text)) {t : TypeRef} :
    (ofEdits edits).build table = .ok t ↔
      ∃ p n arguments, Resolves table (ofEdits edits).package.toList
          (Text.trim (ofEdits edits).simpleName.toList) p n ∧
        List.Forall₂ (fun text argument => TypeArg.parse table text = .ok argument) texts arguments ∧
        t = .declared p n (arguments.mapIdx fun i argument => (slotKey i, argument)) := by
  constructor
  · intro h
    obtain ⟨b, hparse, _⟩ := bind_eq_ok_iff.mp h
    obtain ⟨p, n, hresolves, rfl⟩ := (parse_plain_eq_ok_iff hbase).mp hparse
    rw [build_texts_of_parse hparse hslots] at h
    cases hread : texts.mapM (TypeArg.parse table) with
    | error error =>
      rw [hread] at h
      cases h
    | ok arguments =>
      rw [hread] at h
      exact ⟨p, n, arguments, hresolves, mapM_eq_ok_iff.mp hread, (Except.ok.inj h).symm⟩
  · rintro ⟨p, n, arguments, hresolves, harguments, rfl⟩
    have hparse : parse table (ofEdits edits).package (ofEdits edits).simpleName = .ok (.declared p n []) :=
      (parse_plain_eq_ok_iff hbase).mpr ⟨p, n, hresolves, rfl⟩
    rw [build_texts_of_parse hparse hslots, mapM_eq_ok_iff.mpr harguments]
    rfl

/-- To set the slots of a plain name to texts is to write the texts behind the name: both are
    accepted or neither is, and the type is the same. -/
theorem build_texts_iff_parse (table : WellKnown) {edits : List Edit} {texts : List String}
    (hbase : '<' ∉ (ofEdits edits).simpleName.toList)
    (hslots : edits.filterMap Edit.slot? = texts.mapIdx fun i text => (slotKey i, .text text))
    (hne : texts ≠ []) (hpieces : ∀ text ∈ texts, IsPiece 0 text.toList) (t : TypeRef) :
    (ofEdits edits).build table = .ok t ↔
      parse table (ofEdits edits).package
        ((ofEdits edits).simpleName ++ "<" ++ ",".intercalate texts ++ ">") = .ok t := by
  rw [build_texts_eq_ok_iff hbase hslots, parse_grouped_eq_ok_iff hbase hne hpieces]

/-- A map to pages, with its slots set from texts. -/
def mapOfPages : List Edit :=
  [.slot "T" (.text " UUID "), .simpleName " Map ", .slot "U" (.text "? extends Page<K, V>")]

/-- The map is built as it is read from one text. -/
theorem build_texts_iff_parse_mapOfPages :
    ∃ t, (ofEdits mapOfPages).build .standard = .ok t ∧
      parse .standard "" " Map < UUID ,? extends Page<K, V>>" = .ok t := by
  have hbound : IsPiece 0 "? extends Page<K, V>".toList := by
    have hfront : IsPiece 0 "? extends Page".toList := .of_plain (by decide) (by decide) (by decide)
    have hinside : Matched "K, V".toList := rfl
    exact hfront.append (.enclose hinside)
  have hpieces : ∀ text ∈ [" UUID ", "? extends Page<K, V>"], IsPiece 0 text.toList := by
    rw [List.forall_mem_cons, List.forall_mem_singleton]
    exact ⟨.of_plain (by decide) (by decide) (by decide), hbound⟩
  have hslots : mapOfPages.filterMap Edit.slot? =
      [" UUID ", "? extends Page<K, V>"].mapIdx fun i text => (slotKey i, .text text) := rfl
  have hagree := build_texts_iff_parse .standard (by decide) hslots (by simp) hpieces
  have hread : parse .standard "" " Map < UUID ,? extends Page<K, V>>" =
      .ok (.declared "java.util" "Map" [("T", .type (.declared "java.util" "UUID" [])),
        ("U", .wildcard .extends (.declared "" "Page" [("T", .placeholder "K"), ("U", .placeholder "V")]))]) :=
    toOption_eq_some_iff.mp (by decide +kernel)
  exact ⟨_, (hagree _).mpr hread, hread⟩

end Draft

end JavaSource.TypeRef
