import JavaSource.Proofs.TypeRef.Obtainable

namespace JavaSource.TypeRef

/-- The slot that an edit sets and what it is filled from, if it sets one. -/
def Edit.slot? : Edit → Option (String × SlotSource)
  | .package _ | .simpleName _ => none
  | .slot key source => some (key, source)

namespace SlotSource

variable {table : WellKnown} {source : SlotSource}

/-- Only text can be refused. -/
theorem exists_resolve_iff :
    (∃ argument, source.resolve table = .ok argument) ↔
      ∀ s, source = .text s → ∃ argument, TypeArg.parse table s = .ok argument := by
  cases source with
  | text s =>
    constructor
    · rintro hread _ ⟨⟩
      exact hread
    · intro h
      exact h s rfl
  | type t => exact ⟨fun _ => nofun, fun _ => ⟨_, rfl⟩⟩
  | wildcard bound t => exact ⟨fun _ => nofun, fun _ => ⟨_, rfl⟩⟩

/-- Only a text can be refused, as it is where it is read. -/
theorem resolve_eq_error_iff {error : Error} :
    source.resolve table = .error error ↔ ∃ s, source = .text s ∧ TypeArg.parse table s = .error error := by
  cases source with
  | text s => simp [resolve]
  | type t => simp [resolve]
  | wildcard bound t => simp [resolve]

end SlotSource

namespace Draft

/-- What the slots are set to in the end: each key once, in the order in which they were
    first set, with what was set last. -/
def chosen (edits : List Edit) : List (String × SlotSource) :=
  Keyed.latest (edits.filterMap Edit.slot?)

/-- A draft has the slots that its edits chose. -/
theorem slots_ofEdits (edits : List Edit) : (ofEdits edits).slots = chosen edits := by
  induction edits using List.reverseRecOn with
  | nil => rfl
  | append_singleton edits edit ih =>
    have happly : ofEdits (edits ++ [edit]) = (ofEdits edits).apply edit := by
      rw [ofEdits, List.foldl_append]
      rfl
    rw [happly, chosen, List.filterMap_append]
    cases edit with
    | package name | simpleName name =>
      rw [apply, ih, List.filterMap_cons_none rfl, List.filterMap_nil, List.append_nil]
      rfl
    | slot key source =>
      rw [apply, ih]
      exact (Keyed.latest_concat _ (key, source)).symm

/-- Fills slots from left to right, and stops at the first text that is refused. -/
def resolveEach (table : WellKnown) (sources : List (String × SlotSource)) :
    Except Error (List (String × TypeArg)) :=
  sources.mapM fun slot => (slot.2.resolve table).map (Prod.mk slot.1)

theorem resolveEach_cons (table : WellKnown) (key : String) (source : SlotSource)
    (rest : List (String × SlotSource)) :
    resolveEach table ((key, source) :: rest) = do
      let argument ← source.resolve table
      let filled ← resolveEach table rest
      return (key, argument) :: filled := by
  rw [resolveEach, List.mapM_cons]
  cases source.resolve table with
  | error error => rfl
  | ok argument => rfl

/-- To read each source when its slot is set is to read all of them before any slot is set. -/
theorem fill_eq_map_setAll (table : WellKnown) (sources : List (String × SlotSource))
    (slots : List (String × TypeArg)) :
    fill table sources slots = (resolveEach table sources).map (Keyed.setAll · slots) := by
  induction sources generalizing slots with
  | nil => rfl
  | cons first rest ih =>
    obtain ⟨key, source⟩ := first
    rw [fill, resolveEach_cons]
    cases source.resolve table with
    | error error => rfl
    | ok argument =>
      have hrest := ih (Keyed.set key argument slots)
      cases hread : resolveEach table rest with
      | error error =>
        rw [hread] at hrest
        exact hrest
      | ok filled =>
        rw [hread] at hrest
        exact hrest

/-- All slots are filled if each of them can be. -/
theorem resolveEach_eq_ok_iff {table : WellKnown} {sources : List (String × SlotSource)}
    {filled : List (String × TypeArg)} :
    resolveEach table sources = .ok filled ↔
      List.Forall₂ (fun source slot => source.1 = slot.1 ∧ source.2.resolve table = .ok slot.2)
        sources filled := by
  have hslot : ∀ (source : String × SlotSource) (slot : String × TypeArg),
      (source.2.resolve table).map (Prod.mk source.1) = .ok slot ↔
        source.1 = slot.1 ∧ source.2.resolve table = .ok slot.2 := by
    rintro ⟨key, source⟩ ⟨key', argument⟩
    rw [map_eq_ok_iff]
    constructor
    · rintro ⟨found, hresolve, hslot⟩
      obtain ⟨rfl, rfl⟩ := Prod.mk.inj hslot
      exact ⟨rfl, hresolve⟩
    · rintro ⟨rfl, hresolve⟩
      exact ⟨argument, hresolve, rfl⟩
  rw [resolveEach, mapM_eq_ok_iff]
  simp only [hslot]

/-- The chosen slots are filled and written over those of the name. -/
theorem build_of_parse {table : WellKnown} {draft : Draft} {p n : String} {parsed : List (String × TypeArg)}
    (h : parse table draft.package draft.simpleName = .ok (.declared p n parsed)) :
    draft.build table =
      (resolveEach table draft.slots).map fun filled => .declared p n (Keyed.setAll filled parsed) := by
  rw [build_of_parse_eq_declared h, fill_eq_map_setAll]
  cases resolveEach table draft.slots <;> rfl

/-- Every text among the sources is accepted as an argument. -/
def TextsAccepted (table : WellKnown) (sources : List (String × SlotSource)) : Prop :=
  ∀ key s, (key, .text s) ∈ sources → ∃ argument, TypeArg.parse table s = .ok argument

/-- If every text is accepted, every slot can be filled. -/
theorem textsAccepted_iff {table : WellKnown} {sources : List (String × SlotSource)} :
    TextsAccepted table sources ↔ ∀ slot ∈ sources, ∃ argument, slot.2.resolve table = .ok argument := by
  constructor
  · rintro h ⟨key, source⟩ hslot
    exact SlotSource.exists_resolve_iff.mpr fun s hs => h key s (hs ▸ hslot)
  · intro h key s hslot
    exact SlotSource.exists_resolve_iff.mp (h _ hslot) s rfl

private theorem exists_map_iff {table : WellKnown} {slot : String × SlotSource} :
    (∃ filled, (slot.2.resolve table).map (Prod.mk slot.1) = .ok filled) ↔
      ∃ argument, slot.2.resolve table = .ok argument := by
  simp [map_eq_ok_iff]

/-- Slots can be filled if the texts among them are accepted. -/
theorem exists_resolveEach_iff {table : WellKnown} {sources : List (String × SlotSource)} :
    (∃ filled, resolveEach table sources = .ok filled) ↔ TextsAccepted table sources := by
  rw [textsAccepted_iff]
  constructor
  · rintro ⟨filled, hfilled⟩ slot hslot
    obtain ⟨_, _, _, hresolve⟩ := exists_of_forall₂ (resolveEach_eq_ok_iff.mp hfilled) slot hslot
    exact ⟨_, hresolve⟩
  · intro h
    obtain ⟨filled, hfilled⟩ := exists_forall₂ fun slot hslot => exists_map_iff.mpr (h slot hslot)
    exact ⟨filled, mapM_eq_ok_iff.mpr hfilled⟩

/-- The first text that is refused is the error of all slots. -/
theorem resolveEach_eq_error_iff {table : WellKnown} {sources : List (String × SlotSource)} {error : Error} :
    resolveEach table sources = .error error ↔
      ∃ before key s after, sources = before ++ (key, .text s) :: after ∧
        TextsAccepted table before ∧ TypeArg.parse table s = .error error := by
  rw [resolveEach, mapM_eq_error_iff]
  simp only [exists_map_iff, map_eq_error_iff, ← textsAccepted_iff, SlotSource.resolve_eq_error_iff]
  constructor
  · rintro ⟨before, ⟨key, source⟩, after, hsources, hbefore, s, rfl, hs⟩
    exact ⟨before, key, s, after, hsources, hbefore, hs⟩
  · rintro ⟨before, key, s, after, hsources, hbefore, hs⟩
    exact ⟨before, (key, .text s), after, hsources, hbefore, s, rfl, hs⟩

/-- What becomes of the slots that a type has already when others are chosen: they keep
    their places, the new ones follow in order, and each one that is chosen has what was
    chosen for it. -/
structure Overrides (table : WellKnown) (chosen : List (String × SlotSource))
    (parsed slots : List (String × TypeArg)) : Prop where
  keys : slots.map Prod.fst =
    parsed.map Prod.fst ++ (chosen.map Prod.fst).filter (· ∉ parsed.map Prod.fst)
  nodup : (slots.map Prod.fst).Nodup
  set : ∀ key source, (key, source) ∈ chosen →
    ∃ argument, source.resolve table = .ok argument ∧ (key, argument) ∈ slots
  kept : ∀ key argument, (key, argument) ∈ parsed → key ∉ chosen.map Prod.fst → (key, argument) ∈ slots

/-- Writing filled slots over those of a name overrides these. -/
theorem overrides_setAll {table : WellKnown} {sources : List (String × SlotSource)}
    {parsed filled : List (String × TypeArg)} (hsources : (sources.map Prod.fst).Nodup)
    (hparsed : (parsed.map Prod.fst).Nodup) (h : resolveEach table sources = .ok filled) :
    Overrides table sources parsed (Keyed.setAll filled parsed) := by
  have hfilled := resolveEach_eq_ok_iff.mp h
  have hkeys : List.Forall₂ Eq (sources.map Prod.fst) (filled.map Prod.fst) := by
    rw [List.forall₂_map_left_iff, List.forall₂_map_right_iff]
    exact hfilled.imp fun _ _ hslot => hslot.1
  rw [List.forall₂_eq_eq_eq] at hkeys
  rw [hkeys] at hsources
  refine ⟨?_, Keyed.nodup_keys_setAll hparsed filled, ?_, ?_⟩
  · rw [hkeys]
    exact Keyed.keys_setAll hsources parsed
  · intro key source hslot
    obtain ⟨⟨key', argument⟩, hmem, rfl, hresolve⟩ := exists_of_forall₂ hfilled _ hslot
    refine ⟨argument, hresolve, Keyed.mem_of_get? ?_⟩
    rw [Keyed.get?_setAll hsources, Keyed.get?_of_mem hsources hmem]
    rfl
  · intro key argument hmem hkey
    rw [hkeys] at hkey
    refine Keyed.mem_of_get? ?_
    rw [Keyed.get?_setAll hsources, Keyed.get?_eq_none_iff.mpr hkey, Keyed.get?_of_mem hparsed hmem]
    rfl

/-- The keys of a type that is read are distinct. -/
theorem nodup_keys_of_parse {table : WellKnown} {package raw p n : String} {parsed : List (String × TypeArg)}
    (h : parse table package raw = .ok (.declared p n parsed)) : (parsed.map Prod.fst).Nodup := by
  obtain ⟨_, _, _, arguments, _, _, _, ht⟩ := parse_eq_ok_iff.mp h
  cases ht
  exact nodup_slotKeys arguments

/-- Slots that are set replace those of the text in place or follow them, and for each key the
    last call counts. So a text that is replaced later never matters, and of the texts that
    stay the first one that is refused decides on the error. -/
theorem build_overrides_slots {table : WellKnown} {edits : List Edit} {p n : String}
    {parsed : List (String × TypeArg)}
    (hbase : parse table (ofEdits edits).package (ofEdits edits).simpleName = .ok (.declared p n parsed)) :
    ((∃ t, (ofEdits edits).build table = .ok t) ↔ TextsAccepted table (chosen edits)) ∧
    (∀ t, (ofEdits edits).build table = .ok t →
      ∃ slots, t = .declared p n slots ∧ Overrides table (chosen edits) parsed slots) ∧
    ∀ error, (ofEdits edits).build table = .error error ↔
      ∃ before key s after, chosen edits = before ++ (key, .text s) :: after ∧
        TextsAccepted table before ∧ TypeArg.parse table s = .error error := by
  have hbuild := build_of_parse hbase
  rw [slots_ofEdits] at hbuild
  rw [hbuild, ← exists_resolveEach_iff]
  refine ⟨by simp [map_eq_ok_iff], ?_, fun error => map_eq_error_iff.trans resolveEach_eq_error_iff⟩
  intro t ht
  obtain ⟨filled, hfilled, rfl⟩ := map_eq_ok_iff.mp ht
  exact ⟨_, rfl, overrides_setAll (Keyed.nodup_keys_latest _) (nodup_keys_of_parse hbase) hfilled⟩

/-- A page whose second slot is set, and to which a slot is added by a text that no one could
    read and then by another one. -/
def pagingEdits : List Edit :=
  [.simpleName "Page<K, V>", .slot "ID" (.text "Map<"), .package "com.acme",
    .slot "U" (.wildcard .extends (.native "Long")), .slot "ID" (.text "? super K1")]

/-- The text that no one could read is not chosen. -/
theorem chosen_pagingEdits : chosen pagingEdits =
    [("ID", .text "? super K1"), ("U", .wildcard .extends (.native "Long"))] := rfl

/-- The first slot is left, the second is replaced, and the third is added. -/
theorem build_overrides_slots_paging :
    parse .standard "com.acme" "Page<K, V>" =
      .ok (.declared "com.acme" "Page" [("T", .placeholder "K"), ("U", .placeholder "V")]) ∧
    ∃ slots, (ofEdits pagingEdits).build .standard = .ok (.declared "com.acme" "Page" slots) ∧
      slots.map Prod.fst = ["T", "U", "ID"] ∧ ("T", .placeholder "K") ∈ slots ∧
      ("U", .wildcard .extends (.native "Long")) ∈ slots ∧ ("ID", .placeholder "? super K1") ∈ slots := by
  have hbase : parse .standard (ofEdits pagingEdits).package (ofEdits pagingEdits).simpleName =
      .ok (.declared "com.acme" "Page" [("T", .placeholder "K"), ("U", .placeholder "V")]) :=
    toOption_eq_some_iff.mp (by decide +kernel)
  have hread : TypeArg.parse .standard "? super K1" = .ok (.placeholder "? super K1") :=
    toOption_eq_some_iff.mp (by decide +kernel)
  obtain ⟨hsucceeds, hresult, _⟩ := build_overrides_slots hbase
  rw [chosen_pagingEdits] at hsucceeds hresult
  obtain ⟨t, ht⟩ := hsucceeds.mpr fun key s hmem => by
    obtain ⟨rfl, rfl⟩ : key = "ID" ∧ s = "? super K1" := by simpa using hmem
    exact ⟨_, hread⟩
  obtain ⟨slots, rfl, hslots⟩ := hresult t ht
  obtain ⟨argument, hargument, hid⟩ := hslots.set "ID" _ List.mem_cons_self
  obtain ⟨bound, hbound, hu⟩ := hslots.set "U" _ (List.mem_cons_of_mem _ List.mem_cons_self)
  cases hread.symm.trans hargument
  cases hbound
  exact ⟨hbase, slots, ht, hslots.keys.trans (by decide), hslots.kept "T" _ List.mem_cons_self (by decide), hu,
    hid⟩

end Draft

end JavaSource.TypeRef
