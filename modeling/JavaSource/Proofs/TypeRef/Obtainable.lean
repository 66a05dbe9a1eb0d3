import JavaSource.TypeRef.Draft
import JavaSource.Proofs.Collections.Keyed
import JavaSource.Proofs.CompilationUnit.Mentions
import JavaSource.Proofs.TypeRef.Induction
import JavaSource.Proofs.TypeRef.Writing
import Mathlib.Data.List.GetD
import Mathlib.Data.List.Nodup

namespace JavaSource

private theorem slotKey_of_le {position : Nat} (h : 7 ≤ position) :
    slotKey position = "T" ++ toString position :=
  List.getD_eq_default _ _ h

private theorem length_slotKey_of_lt {position : Nat} (h : position < 7) :
    (slotKey position).length = 1 := by
  have hall : ∀ position < 7, (slotKey position).length = 1 := by decide
  exact hall position h

private theorem one_lt_length_slotKey {position : Nat} (h : 7 ≤ position) :
    1 < (slotKey position).length := by
  have hletter : "T".length = 1 := rfl
  have hdigits : 0 < (toString position).length := Nat.length_repr_pos
  rw [slotKey_of_le h, String.length_append]
  omega

private theorem toString_injective {m n : Nat} (h : toString m = toString n) : m = n := by
  have hrepr : m.repr = n.repr := h
  rw [Nat.repr_eq_ofList_toDigits, Nat.repr_eq_ofList_toDigits, String.ofList_inj] at hrepr
  rw [← Nat.ofDigitChars_toDigits (b := 10) (n := m) (by decide) (by decide), hrepr,
    Nat.ofDigitChars_toDigits (by decide) (by decide)]

/-- No two positions have the same key: a key of one letter is never one of the
    longer keys behind the seventh. -/
theorem slotKey_injective : Function.Injective slotKey := by
  intro i j heq
  have hlength := congrArg String.length heq
  rcases Nat.lt_or_ge i 7 with hi | hi
  · rcases Nat.lt_or_ge j 7 with hj | hj
    · have hall : ∀ i < 7, ∀ j < 7, slotKey i = slotKey j → i = j := by decide
      exact hall i hi j hj heq
    · have hlong := one_lt_length_slotKey hj
      rw [← hlength, length_slotKey_of_lt hi] at hlong
      omega
  · rcases Nat.lt_or_ge j 7 with hj | hj
    · have hlong := one_lt_length_slotKey hi
      rw [hlength, length_slotKey_of_lt hj] at hlong
      omega
    · rw [slotKey_of_le hi, slotKey_of_le hj, String.append_right_inj] at heq
      exact toString_injective heq

/-- The keys that reading gives to slots are distinct. -/
theorem nodup_slotKeys {α : Type} (values : List α) :
    ((values.mapIdx fun i value => (slotKey i, value)).map Prod.fst).Nodup := by
  rw [map_fst_mapIdx]
  exact List.nodup_range.map slotKey_injective

namespace TypeRef

/-- The types that can be made: native types, what is read from a text, and what
    is built from explicit slots whose types can be made. -/
inductive Obtainable : TypeRef → Prop where
  | native (name : String) : Obtainable (.native name)
  | parsed {table : WellKnown} {package raw : String} {t : TypeRef}
      (h : parse table package raw = .ok t) : Obtainable t
  | built {table : WellKnown} {edits : List Edit} {t : TypeRef}
      (htypes : ∀ key u, Edit.slot key (.type u) ∈ edits → Obtainable u)
      (hbounds : ∀ key side u, Edit.slot key (.wildcard side u) ∈ edits → Obtainable u)
      (h : (Draft.ofEdits edits).build table = .ok t) : Obtainable t

/-- A type whose declared types, at every depth, have an identifier for a name,
    a key of its own for every slot, and no placeholders but those of the language. -/
def WellFormed (t : TypeRef) : Prop :=
  ∀ package name slots, (declared package name slots).OccursIn t →
    IsIdentifier name.toList ∧ (slots.map Prod.fst).Nodup ∧
      ∀ key text, (key, TypeArg.placeholder text) ∈ slots → IsPlaceholder text

end TypeRef

/-- An argument with a well-formed type, or a placeholder of the language. -/
def TypeArg.WellFormed : TypeArg → Prop
  | .type t => t.WellFormed
  | .placeholder text => IsPlaceholder text
  | .wildcard _ t => t.WellFormed

namespace TypeRef

/-- There is nothing to be malformed in a native type. -/
theorem wellFormed_native (name : String) : (native name).WellFormed := by
  intro package name' slots h
  cases h

/-- Well-formedness is decided at the outermost name and in each argument. -/
theorem wellFormed_declared {package name : String} {slots : List (String × TypeArg)}
    (hname : IsIdentifier name.toList) (hkeys : (slots.map Prod.fst).Nodup)
    (hslots : ∀ slot ∈ slots, slot.2.WellFormed) : (declared package name slots).WellFormed := by
  intro package' name' slots' h
  cases h with
  | self => exact ⟨hname, hkeys, fun key text hmem => hslots _ hmem⟩
  | @argument _ _ key _ argument t hslot ht h =>
    have hargument := hslots _ hslot
    cases argument with
    | type u =>
      obtain rfl := Option.some.inj ht
      exact hargument _ _ _ h
    | placeholder => cases ht
    | wildcard side u =>
      obtain rfl := Option.some.inj ht
      exact hargument _ _ _ h

/-- The arguments of a well-formed type are well-formed. -/
theorem WellFormed.slots {package name : String} {slots : List (String × TypeArg)}
    (h : (declared package name slots).WellFormed) : ∀ slot ∈ slots, slot.2.WellFormed := by
  rintro ⟨key, argument⟩ hslot
  cases argument with
  | type t => exact fun _ _ _ hnode => h _ _ _ (.argument hslot rfl hnode)
  | placeholder text => exact (h _ _ _ .self).2.2 key text hslot
  | wildcard side t => exact fun _ _ _ hnode => h _ _ _ (.argument hslot rfl hnode)

/-- What reading makes of a name and well-formed arguments is well-formed. -/
private theorem wellFormed_of_resolves {table : WellKnown} {package base : List Char} {p n : String}
    {arguments : List TypeArg} (hresolves : Resolves table package base p n)
    (harguments : ∀ argument ∈ arguments, argument.WellFormed) :
    (declared p n (arguments.mapIdx fun i argument => (slotKey i, argument))).WellFormed := by
  refine wellFormed_declared hresolves.isIdentifier (nodup_slotKeys arguments) ?_
  intro slot hslot
  obtain ⟨i, hi, rfl⟩ := List.mem_mapIdx.mp hslot
  exact harguments _ (List.getElem_mem hi)

/-- An argument that is read is well-formed. -/
theorem wellFormed_of_readArgument {table : WellKnown} {text : List Char} {argument : TypeArg}
    (h : readArgument table text = .ok argument) : argument.WellFormed := by
  induction h using readArgument_induction with
  | unbounded _ _ => exact .unbounded
  | typeVariable _ hvariable =>
    refine .typeVariable ?_
    rwa [String.toList_ofList]
  | native _ _ _ => exact wellFormed_native _
  | declared _ _ hresolves harguments =>
    refine wellFormed_of_resolves hresolves fun argument hargument => ?_
    obtain ⟨inner, _, _, hinner⟩ := exists_of_forall₂_right harguments argument hargument
    exact hinner
  | wildcard _ _ _ hsubject => exact hsubject.2
  | boundedByVariable _ _ _ hvariable =>
    refine .bounded _ ?_
    rwa [String.toList_ofList]

/-- A type that is read is well-formed. -/
theorem wellFormed_of_parse {table : WellKnown} {package raw : String} {t : TypeRef}
    (h : parse table package raw = .ok t) : t.WellFormed := by
  obtain ⟨parts, p, n, arguments, _, hresolves, harguments, rfl⟩ := parse_eq_ok_iff.mp h
  refine wellFormed_of_resolves hresolves fun argument hargument => ?_
  obtain ⟨text, _, hread⟩ := exists_of_forall₂_right harguments argument hargument
  exact wellFormed_of_readArgument hread

namespace Draft

/-- Filling slots with well-formed arguments keeps keys distinct and arguments
    well-formed. -/
theorem wellFormed_of_fill {table : WellKnown} {sources : List (String × SlotSource)}
    {slots filled : List (String × TypeArg)} (h : fill table sources slots = .ok filled)
    (hsources : ∀ key source argument, (key, source) ∈ sources → source.resolve table = .ok argument →
      argument.WellFormed)
    (hkeys : (slots.map Prod.fst).Nodup) (hslots : ∀ slot ∈ slots, slot.2.WellFormed) :
    (filled.map Prod.fst).Nodup ∧ ∀ slot ∈ filled, slot.2.WellFormed := by
  induction sources generalizing slots with
  | nil =>
    obtain rfl := Except.ok.inj h
    exact ⟨hkeys, hslots⟩
  | cons first rest ih =>
    obtain ⟨key, source⟩ := first
    obtain ⟨argument, hargument, hrest⟩ := bind_eq_ok_iff.mp h
    have hwell := hsources key source argument List.mem_cons_self hargument
    refine ih hrest (fun key source argument hmem => ?_) (Keyed.nodup_keys_set hkeys key argument) ?_
    · exact hsources key source argument (List.mem_cons_of_mem _ hmem)
    · intro slot hslot
      rcases Keyed.mem_of_mem_set hslot with rfl | hslot
      · exact hwell
      · exact hslots slot hslot

/-- Every slot of a draft was there at the start, or was set by an edit. -/
theorem slot_mem_of_mem_foldl {edits : List Edit} {draft : Draft} {key : String} {source : SlotSource}
    (h : (key, source) ∈ (edits.foldl apply draft).slots) :
    (key, source) ∈ draft.slots ∨ Edit.slot key source ∈ edits := by
  induction edits generalizing draft with
  | nil => exact .inl h
  | cons edit edits ih =>
    rcases ih h with hdraft | hlater
    · cases edit with
      | package name => exact .inl hdraft
      | simpleName name => exact .inl hdraft
      | slot key' source' =>
        rcases Keyed.mem_of_mem_set hdraft with heq | hdraft
        · obtain ⟨rfl, rfl⟩ := Prod.mk.inj heq
          exact .inr List.mem_cons_self
        · exact .inl hdraft
    · exact .inr (List.mem_cons_of_mem _ hlater)

end Draft

/-- Every type that can be obtained is well-formed. -/
theorem Obtainable.wellFormed {t : TypeRef} (h : t.Obtainable) : t.WellFormed := by
  induction h with
  | native name => exact wellFormed_native name
  | parsed h => exact wellFormed_of_parse h
  | @built table edits t _ _ h iht ihb =>
    obtain ⟨base, hbase, _⟩ := bind_eq_ok_iff.mp h
    obtain ⟨_, p, n, _, _, _, _, rfl⟩ := parse_eq_ok_iff.mp hbase
    rw [Draft.build_of_parse_eq_declared hbase] at h
    obtain ⟨filled, hfill, rfl⟩ := map_eq_ok_iff.mp h
    have hwell := wellFormed_of_parse hbase
    obtain ⟨hname, hkeys, _⟩ := hwell p n _ .self
    have hsources : ∀ key source argument, (key, source) ∈ (Draft.ofEdits edits).slots →
        source.resolve table = .ok argument → argument.WellFormed := by
      intro key source argument hmem hresolve
      have hedit : Edit.slot key source ∈ edits :=
        (Draft.slot_mem_of_mem_foldl hmem).resolve_left List.not_mem_nil
      -- A text is read, and a type was obtained before.
      cases source with
      | text s => exact wellFormed_of_readArgument hresolve
      | type u =>
        obtain rfl := Except.ok.inj hresolve
        exact iht key u hedit
      | wildcard side u =>
        obtain rfl := Except.ok.inj hresolve
        exact ihb key side u hedit
    obtain ⟨hkeys', hslots'⟩ := Draft.wellFormed_of_fill hfill hsources hkeys hwell.slots
    exact wellFormed_declared hname hkeys' hslots'

/-- Every type that can be made keeps its shape, however it was put together:
    its names are identifiers, its slots have keys of their own, its placeholders
    are those of the language, and its qualified names can be taken apart. -/
theorem Obtainable.declared_invariant {t : TypeRef} (h : t.Obtainable) {package name : String}
    {slots : List (String × TypeArg)} (hnode : (declared package name slots).OccursIn t) :
    IsIdentifier name.toList ∧ (slots.map Prod.fst).Nodup ∧
      (∀ key text, (key, TypeArg.placeholder text) ∈ slots → IsPlaceholder text) ∧
      splitQualified (declared package name slots).qualifiedName = (package, name) := by
  obtain ⟨hname, hkeys, hplaceholders⟩ := h.wellFormed package name slots hnode
  refine ⟨hname, hkeys, hplaceholders, ?_⟩
  by_cases hpackage : package = ""
  · subst hpackage
    exact splitQualified_of_dot_notMem hname.dot_notMem
  · rw [qualifiedName_of_ne_empty hpackage]
    exact splitQualified_append package hname.dot_notMem

/-- A slot of the text is replaced, and one is added whose text is still to be read. -/
def pageEdits : List Edit :=
  [.package "com.acme", .simpleName "Page<T>",
    .slot "T" (.wildcard .extends (.declared "java.util" "UUID" [])), .slot "ID" (.text "? super K1")]

/-- The page that those edits describe. -/
def page : TypeRef :=
  .declared "com.acme" "Page" [("T", .wildcard .extends (.declared "java.util" "UUID" [])),
    ("ID", .placeholder "? super K1")]

theorem build_pageEdits : (Draft.ofEdits pageEdits).build .standard = .ok page := by
  have hbuild : ((Draft.ofEdits pageEdits).build .standard).toOption = some page := by decide +kernel
  exact toOption_eq_some_iff.mp hbuild

theorem page_obtainable : page.Obtainable := by
  have hid : parse .standard "" "UUID" = .ok (.declared "java.util" "UUID" []) := rfl
  refine .built ?_ ?_ build_pageEdits
  · intro key u hmem
    simp [pageEdits] at hmem
  · intro key side u hmem
    obtain ⟨rfl, rfl, rfl⟩ : key = "T" ∧ side = .extends ∧ u = .declared "java.util" "UUID" [] := by
      simpa [pageEdits] using hmem
    exact .parsed hid

/-- The name of the page is an identifier, its keys are distinct, its placeholder is one
    that reading gives, and its qualified name can be taken apart. -/
theorem Obtainable.declared_invariant_page : IsIdentifier "Page".toList ∧ ["T", "ID"].Nodup ∧
    IsPlaceholder "? super K1" ∧ splitQualified "com.acme.Page" = ("com.acme", "Page") := by
  obtain ⟨hname, hkeys, hplaceholders, hsplit⟩ := page_obtainable.declared_invariant .self
  exact ⟨hname, hkeys, hplaceholders "ID" _ (by simp), hsplit⟩

end TypeRef

end JavaSource
