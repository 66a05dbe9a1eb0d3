import JavaSource.Proofs.Output.Writing

namespace JavaSource

open FileSystem (OnlyWrites OnlyMakesDirectories)

variable {base : Path} {files before middle after : FileSystem} {result : WriteResult} {e : FileError}

namespace SourceEntry

variable {entry : SourceEntry}

/-- An entry keeps what is at its destination if it is only for what is missing and
    there is something. -/
def Keeps (entry : SourceEntry) (base : Path) (files : FileSystem) : Prop :=
  entry.rules.overwrite = .ifMissing ∧ files.node? (entry.destination base).components ≠ none

instance (base : Path) (files : FileSystem) : DecidablePred (Keeps · base files) :=
  fun _ => inferInstanceAs (Decidable (_ ∧ _))

/-- What becomes of an entry that keeps what is there or does not. -/
def fate (keeps : SourceEntry → Prop) [DecidablePred keeps] (entry : SourceEntry) : WriteResult :=
  if keeps entry then .skipped else .written

/-- Exactly the entries that keep what is there are skipped. -/
theorem fate_eq_skipped_iff {keeps : SourceEntry → Prop} [DecidablePred keeps] :
    entry.fate keeps = .skipped ↔ keeps entry := by
  rw [fate, ite_eq_left_iff]
  simp

theorem fate_eq_written_iff {keeps : SourceEntry → Prop} [DecidablePred keeps] :
    entry.fate keeps = .written ↔ ¬ keeps entry := by
  rw [fate, ite_eq_right_iff]
  simp

/-- An entry is skipped exactly where it keeps what is there: at a place that is taken,
    a write succeeds only if a file can be replaced. -/
theorem result_eq_fate (h : (entry.writeBelow base).run files = .ok result after) :
    result = entry.fate (Keeps · base files) := by
  obtain ⟨⟨hmissing, hthere⟩, rfl, _⟩ | ⟨hway, rfl, hwrite⟩ := writeBelow_eq_ok_iff.mp h
  · exact (fate_eq_skipped_iff.mpr ⟨hmissing, FileSystem.node?_ne_none_of_contains hthere⟩).symm
  · refine (fate_eq_written_iff.mpr ?_).symm
    rintro ⟨hmissing, hthere⟩
    obtain ⟨_, _, hends, _⟩ := FileSystem.write_eq_ok_iff.mp hwrite
    refine hway ⟨hmissing, ?_⟩
    rw [FileSystem.contains]
    split
    · contradiction
    · rfl
    · rw [hends]
      rfl

/-- The place that an entry with this result writes. -/
def placesOf (base : Path) : SourceEntry × WriteResult → List (List PathComponent)
  | (entry, .written) => [(entry.destination base).components]
  | (_, .skipped) => []

/-- An entry writes its destination if it is not skipped, and nothing else. -/
theorem mem_placesOf_iff {outcome : SourceEntry × WriteResult} {place : List PathComponent} :
    place ∈ placesOf base outcome ↔ outcome.2 = .written ∧ (outcome.1.destination base).components = place := by
  obtain ⟨entry, result⟩ := outcome
  cases result <;> simp [placesOf, eq_comm]

/-- Every place that a run writes is the destination of an entry that is written. -/
theorem exists_of_mem_places {outcomes : List (SourceEntry × WriteResult)} {place : List PathComponent}
    (h : place ∈ outcomes.flatMap (placesOf base)) :
    ∃ outcome ∈ outcomes, outcome.2 = .written ∧ (outcome.1.destination base).components = place := by
  obtain ⟨outcome, houtcome, hplace⟩ := List.mem_flatMap.mp h
  exact ⟨outcome, houtcome, mem_placesOf_iff.mp hplace⟩

/-- An entry changes nothing but the place it writes. -/
theorem onlyWrites_of_writeBelow (h : (entry.writeBelow base).run files = .ok result after) :
    OnlyWrites (placesOf base (entry, result)) files after := by
  obtain ⟨_, rfl, rfl⟩ | ⟨_, rfl, hwrite⟩ := writeBelow_eq_ok_iff.mp h
  · exact .refl after
  · have hwrites := FileSystem.onlyWrites_leaves_write (entry.destination base) entry.fullContent files
    rwa [FileM.leaves, hwrite] at hwrites

/-- An entry fails only where the write to its destination does. -/
theorem write_eq_error_of_writeBelow (h : (entry.writeBelow base).run files = .error e after) :
    (FileSystem.write (entry.destination base) entry.fullContent).run files = .error e after := by
  rw [writeBelow_run] at h
  split at h
  · cases h
  · obtain hwrite | ⟨_, _, _, hdone⟩ := FileM.bind_eq_error_iff.mp h
    · exact hwrite
    · cases hdone

/-- What has to be there for an entry to be written once more without a change. -/
def Stands (entry : SourceEntry) (base : Path) (files : FileSystem) : WriteResult → Prop
  | .written => files.Holds (entry.destination base) entry.fullContent
  | .skipped => entry.GivesWay base files

/-- An entry that has been dealt with stands. -/
theorem stands_of_writeBelow (h : (entry.writeBelow base).run files = .ok result after) :
    entry.Stands base after result := by
  obtain ⟨hway, rfl, rfl⟩ | ⟨_, rfl, hwrite⟩ := writeBelow_eq_ok_iff.mp h
  · exact hway
  · exact FileSystem.holds_of_write hwrite

/-- It stays there as long as nothing is written at the destination or above it. -/
theorem Stands.of_onlyWrites {places : List (List PathComponent)} (h : entry.Stands base before result)
    (hwrites : OnlyWrites places before after)
    (hplaces : ∀ place ∈ places, ¬ place <+: (entry.destination base).components) : entry.Stands base after result := by
  cases result with
  | written => exact FileSystem.Holds.of_onlyWrites h hwrites hplaces
  | skipped =>
    obtain ⟨hmissing, hthere⟩ := h
    have hnotMem : (entry.destination base).components ∉ places := fun hmem => hplaces _ hmem List.prefix_rfl
    have hnode := hwrites.node?_eq_of_ne_none hnotMem (FileSystem.node?_ne_none_of_contains hthere)
    exact ⟨hmissing, (FileSystem.contains_eq_of_node?_eq hnode).trans hthere⟩

/-- Once more, an entry is skipped if it is only for what is missing, since nothing is. -/
theorem Stands.writeBelow_run (h : entry.Stands base files result) :
    (entry.writeBelow base).run files = .ok (entry.fate (·.rules.overwrite = .ifMissing)) files := by
  by_cases hmissing : entry.rules.overwrite = .ifMissing
  · have hthere : files.contains (entry.destination base) = true := by
      cases result with
      | written => exact FileSystem.Holds.contains h
      | skipped => exact h.2
    rw [fate_eq_skipped_iff.mpr hmissing]
    exact writeBelow_eq_ok_iff.mpr (.inl ⟨⟨hmissing, hthere⟩, rfl, rfl⟩)
  · rw [fate_eq_written_iff.mpr hmissing]
    cases result with
    | written => exact writeBelow_eq_ok_iff.mpr (.inr ⟨fun hway => hmissing hway.1, rfl, FileSystem.Holds.write_run h⟩)
    | skipped => exact absurd h.1 hmissing

end SourceEntry

namespace SourceTree

open SourceEntry (Keeps placesOf fate)

variable {entries done rest : List SourceEntry} {outcomes : List (SourceEntry × WriteResult)}

/-- No entry is to be written at the place of one before it, or above that place. -/
def Descends (base : Path) (entries : List SourceEntry) : Prop :=
  entries.Pairwise fun a b => ¬ (b.destination base).components <+: (a.destination base).components

/-- The order of a tree has a directory in front of what is below it. -/
theorem descends_entries {edits : List Edit} (hplain : ∀ edit ∈ edits, edit.registered.path.IsPlain) (base : Path) :
    Descends base (ofEdits edits).entries := by
  refine (ascends_ofEdits edits).imp_of_mem fun {a b} ha hb hlt hprefix => ?_
  have hpaths : ∀ entry ∈ (ofEdits edits).entries, entry.path.IsPlain := forall_entries_of_forall_edits hplain
  rw [SourceEntry.destination, SourceEntry.destination, Path.components_join_of_isPlain base (hpaths a ha),
    Path.components_join_of_isPlain base (hpaths b hb), List.prefix_append_right_inj] at hprefix
  exact Path.not_prefix_of_cmp_eq_lt hlt hprefix

/-- Entries that descend have different destinations. -/
theorem Descends.nodup (h : Descends base entries) :
    (entries.map fun entry => (entry.destination base).components).Nodup := by
  refine List.pairwise_map.mpr (h.imp fun hnot hsame => hnot ?_)
  rw [hsame]

private theorem not_prefix_dropLast {steps : List PathComponent} (h : steps ≠ []) : ¬ steps <+: steps.dropLast := by
  intro hprefix
  have hlength := hprefix.length_le
  have hpos := List.length_pos_iff.mpr h
  rw [List.length_dropLast] at hlength
  omega

/-- A run fails at one entry, after those before it have been dealt with. -/
theorem exists_of_writeEntries_eq_error {start : WriteReport}
    (h : (writeEntries base entries start).run files = .error e after) :
    ∃ outcomes entry rest middle, entries = outcomes.map Prod.fst ++ entry :: rest ∧
      Run base outcomes files middle ∧ (entry.writeBelow base).run middle = .error e after := by
  induction entries generalizing files start with
  | nil => cases h
  | cons entry entries ih =>
    rw [writeEntries] at h
    obtain hfails | ⟨result, middle, hstep, hrest⟩ := FileM.bind_eq_error_iff.mp h
    · exact ⟨[], entry, entries, files, rfl, .nil files, hfails⟩
    · obtain ⟨outcomes, failing, rest, last, rfl, hrun, hfails⟩ := ih hrest
      exact ⟨(entry, result) :: outcomes, failing, rest, last, rfl, .cons hstep hrun, hfails⟩

/-- The entries have been written as their rules say, and no other file has changed. -/
structure Wrote (base : Path) (entries : List SourceEntry) (before after : FileSystem) : Prop where
  kept : ∀ entry ∈ entries, entry.Keeps base before →
    after.node? (entry.destination base).components = before.node? (entry.destination base).components
  written : ∀ entry ∈ entries, ¬ entry.Keeps base before →
    after.node? (entry.destination base).components = some (.file entry.fullContent)
  others : ∀ place, (∀ entry ∈ entries, ¬ entry.Keeps base before → place ≠ (entry.destination base).components) →
    after.node? place = before.node? place ∨ before.node? place = none ∧ after.node? place = some .directory

/-- Directories that are made afterwards do not matter. -/
theorem Wrote.of_onlyMakesDirectories (h : Wrote base entries before middle)
    (hmade : OnlyMakesDirectories middle after) : Wrote base entries before after := by
  refine ⟨fun entry hentry hkeeps => ?_, fun entry hentry hkeeps => ?_, fun place hplace => ?_⟩
  · have hsame := h.kept entry hentry hkeeps
    rw [hmade.node?_eq (hsame ▸ hkeeps.2), hsame]
  · have hfile := h.written entry hentry hkeeps
    rw [hmade.node?_eq (by simp [hfile]), hfile]
  · obtain hsame | ⟨hnone, hdirectory⟩ := h.others place hplace
    · rw [← hsame]
      exact hmade place
    · rw [hmade.node?_eq (by simp [hdirectory])]
      exact .inr ⟨hnone, hdirectory⟩

namespace Run

/-- A run writes the places of the entries that are not skipped, and no other ones. -/
theorem onlyWrites (h : Run base outcomes before after) :
    OnlyWrites (outcomes.flatMap (placesOf base)) before after := by
  induction h with
  | nil files => exact .refl files
  | cons step _ ih => exact (SourceEntry.onlyWrites_of_writeBelow step).trans ih

/-- A place that is not above any destination does not change. -/
theorem node?_eq_outside (h : Run base outcomes before after) {place : List PathComponent}
    (hplace : ∀ entry ∈ outcomes.map Prod.fst, ¬ place <+: (entry.destination base).components) :
    after.node? place = before.node? place := by
  refine h.onlyWrites.node?_eq_outside fun written hwritten => ?_
  obtain ⟨outcome, houtcome, _, rfl⟩ := SourceEntry.exists_of_mem_places hwritten
  exact hplace outcome.1 (List.mem_map_of_mem houtcome)

/-- In a run that descends, what becomes of an entry can be told from the start: no
    entry before it makes anything at its destination. -/
theorem eq_map_fate (h : Run base outcomes before after) (hdescends : Descends base (outcomes.map Prod.fst)) :
    outcomes = (outcomes.map Prod.fst).map fun entry => (entry, entry.fate (Keeps · base before)) := by
  induction h with
  | nil => rfl
  | @cons entry result outcomes files middle after step _ ih =>
    obtain ⟨hfirst, hrest⟩ := List.pairwise_cons.mp hdescends
    have hsame : ∀ later ∈ outcomes.map Prod.fst, later.Keeps base middle ↔ later.Keeps base files := by
      intro later hlater
      have hnode : middle.node? (later.destination base).components =
          files.node? (later.destination base).components := by
        refine (SourceEntry.onlyWrites_of_writeBelow step).node?_eq_outside fun place hplace => ?_
        obtain ⟨_, rfl⟩ := SourceEntry.mem_placesOf_iff.mp hplace
        exact hfirst later hlater
      rw [SourceEntry.Keeps, SourceEntry.Keeps, hnode]
    rw [List.map_cons, List.map_cons, ← SourceEntry.result_eq_fate step, List.cons.injEq]
    refine ⟨rfl, (ih hrest).trans (List.map_congr_left fun later hlater => ?_)⟩
    rw [SourceEntry.fate, SourceEntry.fate]
    simp only [hsame later hlater]

/-- What was done for an entry stands to the end. -/
theorem stands (h : Run base outcomes before after) (hdescends : Descends base (outcomes.map Prod.fst)) :
    ∀ outcome ∈ outcomes, outcome.1.Stands base after outcome.2 := by
  induction h with
  | nil => exact nofun
  | @cons entry result outcomes files middle after step rest ih =>
    obtain ⟨hfirst, hrest⟩ := List.pairwise_cons.mp hdescends
    refine List.forall_mem_cons.mpr ⟨?_, ih hrest⟩
    refine (SourceEntry.stands_of_writeBelow step).of_onlyWrites rest.onlyWrites fun place hplace => ?_
    obtain ⟨outcome, houtcome, _, rfl⟩ := SourceEntry.exists_of_mem_places hplace
    exact hfirst outcome.1 (List.mem_map_of_mem houtcome)

/-- A run that descends writes what its entries are to be, and no other file. -/
theorem wrote (h : Run base outcomes before after) (hdescends : Descends base (outcomes.map Prod.fst)) :
    Wrote base (outcomes.map Prod.fst) before after := by
  have houtcomes : ∀ entry ∈ outcomes.map Prod.fst, (entry, entry.fate (Keeps · base before)) ∈ outcomes := by
    intro entry hentry
    rw [h.eq_map_fate hdescends]
    exact List.mem_map_of_mem hentry
  have hplaces : ∀ place ∈ outcomes.flatMap (placesOf base), ∃ entry ∈ outcomes.map Prod.fst,
      ¬ entry.Keeps base before ∧ (entry.destination base).components = place := by
    intro place hplace
    rw [h.eq_map_fate hdescends] at hplace
    obtain ⟨outcome, houtcome, hwritten, rfl⟩ := SourceEntry.exists_of_mem_places hplace
    obtain ⟨entry, hentry, rfl⟩ := List.mem_map.mp houtcome
    dsimp only at hwritten
    rw [SourceEntry.fate_eq_written_iff] at hwritten
    exact ⟨entry, hentry, hwritten, rfl⟩
  refine ⟨fun entry hentry hkeeps => ?_, fun entry hentry hkeeps => ?_, fun place hplace => ?_⟩
  -- An entry at this destination that is written would be the one that is kept.
  · refine h.onlyWrites.node?_eq_of_ne_none (fun hmem => ?_) hkeeps.2
    obtain ⟨other, hother, hkeeps', hsame⟩ := hplaces _ hmem
    obtain rfl := List.inj_on_of_nodup_map hdescends.nodup hother hentry hsame
    exact hkeeps' hkeeps
  · have hstands := h.stands hdescends _ (houtcomes entry hentry)
    rw [SourceEntry.fate_eq_written_iff.mpr hkeeps] at hstands
    exact FileSystem.Holds.node hstands
  · refine (h.onlyWrites place fun hmem => ?_).imp_right fun hmade => ⟨hmade.1, hmade.2.1⟩
    obtain ⟨entry, hentry, hkeeps, hsame⟩ := hplaces place hmem
    exact hplace entry hentry hkeeps hsame.symm

/-- Entries that all stand are written once more without a change. -/
theorem of_stands (h : ∀ outcome ∈ outcomes, outcome.1.Stands base files outcome.2) :
    Run base ((outcomes.map Prod.fst).map fun entry => (entry, entry.fate (·.rules.overwrite = .ifMissing)))
      files files := by
  induction outcomes with
  | nil => exact .nil files
  | cons outcome outcomes ih =>
    obtain ⟨hfirst, hrest⟩ := List.forall_mem_cons.mp h
    exact .cons hfirst.writeBelow_run (ih hrest)

end Run

end SourceTree

/-- A report lists the path of every entry once, as kept or as written, in the order of
    the entries, and counts either. -/
structure WriteReport.Lists (report : WriteReport) (entries : List SourceEntry) (keeps : SourceEntry → Prop)
    [DecidablePred keeps] : Prop where
  skipped : report.skipped = (entries.filter (keeps ·)).map (·.path)
  written : report.written = (entries.filter (¬ keeps ·)).map (·.path)
  counted : report.Counted

namespace WriteReport.Lists

variable {report : WriteReport} {entries : List SourceEntry} {keeps : SourceEntry → Prop} [DecidablePred keeps]

/-- The report of a run from the start lists its entries. -/
theorem of_addAll :
    (WriteReport.addAll {} (entries.map fun entry => (entry, entry.fate keeps))).Lists entries keeps := by
  have hpaths : ∀ result, (WriteReport.addAll {} (entries.map fun entry => (entry, entry.fate keeps))).paths result =
      (entries.filter fun entry => entry.fate keeps = result).map (·.path) := by
    intro result
    rw [WriteReport.paths_addAll, List.filter_map, List.map_map]
    cases result <;> rfl
  have hskipped := hpaths .skipped
  have hwritten := hpaths .written
  simp only [SourceEntry.fate_eq_skipped_iff] at hskipped
  simp only [SourceEntry.fate_eq_written_iff] at hwritten
  have hcounted : WriteReport.Counted {} := ⟨rfl, rfl⟩
  exact ⟨hskipped, hwritten, hcounted.addAll _⟩

/-- Every path of an entry is in one of the two lists, once. -/
theorem perm (h : report.Lists entries keeps) : (report.skipped ++ report.written).Perm (entries.map (·.path)) := by
  rw [h.skipped, h.written, ← List.map_append]
  refine List.Perm.map _ ?_
  have hparts := List.filter_append_perm (fun entry => decide (keeps entry)) entries
  simpa using hparts

/-- A report counts every entry. -/
theorem total_eq (h : report.Lists entries keeps) : report.total = entries.length := by
  have hlength := h.perm.length_eq
  rw [List.length_append, List.length_map] at hlength
  rw [WriteReport.total, h.counted.written, h.counted.skipped]
  omega

/-- Entries in order are reported in order. -/
theorem ordered (h : report.Lists entries keeps) (hascends : Ascending.Ascends SourceEntry.comparePaths entries) :
    report.skipped.Pairwise (fun a b => a.cmp b = .lt) ∧ report.written.Pairwise fun a b => a.cmp b = .lt := by
  rw [h.skipped, h.written]
  exact ⟨List.pairwise_map.mpr (hascends.sublist List.filter_sublist),
    List.pairwise_map.mpr (hascends.sublist List.filter_sublist)⟩

end WriteReport.Lists

namespace SourceTree

variable {edits : List Edit}

/-- Where a batch fails, the entries before have been written, and the one that it fails
    at and those behind it find at their destinations what was there. -/
private theorem wrote_of_writeAll_eq_error (hplain : ∀ edit ∈ edits, edit.registered.path.IsPlain)
    (h : ((ofEdits edits).writeAll base).run files = .error e after) :
    ∃ done failing rest, (ofEdits edits).entries = done ++ failing :: rest ∧ Wrote base done files after ∧
      ∀ entry ∈ failing :: rest, after.node? (entry.destination base).components =
        files.node? (entry.destination base).components := by
  have hpaths : ∀ entry ∈ (ofEdits edits).entries, entry.path.IsPlain := forall_entries_of_forall_edits hplain
  have hdescends := descends_entries hplain base
  obtain ⟨outcomes, failing, rest, middle, hentries, hrun, hfails⟩ := exists_of_writeEntries_eq_error h
  rw [hentries] at hdescends
  obtain ⟨hdone, hlater, hapart⟩ := List.pairwise_append.mp hdescends
  have hwrite := SourceEntry.write_eq_error_of_writeBelow hfails
  have hmade := FileSystem.onlyMakesDirectories_of_write_eq_error hwrite
  refine ⟨_, failing, rest, hentries, (hrun.wrote hdone).of_onlyMakesDirectories hmade, fun entry hentry => ?_⟩
  -- The failed write has only made directories above its own destination.
  have hbelow : ¬ (entry.destination base).components <+: (failing.destination base).components.dropLast := by
    obtain rfl | hentry := List.mem_cons.mp hentry
    · have hpath : entry.path.IsPlain := hpaths entry (hentries ▸ List.mem_append_right _ List.mem_cons_self)
      rw [SourceEntry.destination, Path.components_join_of_isPlain base hpath]
      exact not_prefix_dropLast (List.append_ne_nil_of_right_ne_nil _ hpath.components_ne_nil)
    · have hfront := (List.pairwise_cons.mp hlater).1 entry hentry
      exact fun habove => hfront (habove.trans (List.dropLast_prefix _))
  rw [FileSystem.node?_of_write_eq_error hwrite hbelow]
  exact hrun.node?_eq_outside fun earlier hearlier => hapart earlier hearlier entry hentry

/-- Writing a tree keeps the files that are to be kept, and writing it once more changes
    nothing. The paths have names only, so that no entry is above one before it in the
    order of paths, and none can take a directory for the file that it is missing. -/
theorem writeAll_repeatable (hplain : ∀ edit ∈ edits, edit.registered.path.IsPlain) (base : Path) (files : FileSystem) :
    (∀ report after, ((ofEdits edits).writeAll base).run files = .ok report after →
      Wrote base (ofEdits edits).entries files after ∧
      report.Lists (ofEdits edits).entries (·.Keeps base files) ∧
      report.skipped.Pairwise (fun a b => a.cmp b = .lt) ∧ report.written.Pairwise (fun a b => a.cmp b = .lt) ∧
      (report.skipped ++ report.written).Perm ((ofEdits edits).entries.map (·.path)) ∧
      ((report.skipped ++ report.written).map (·.components)).Nodup ∧
      report.total = (ofEdits edits).size ∧
      ∃ again, ((ofEdits edits).writeAll base).run after = .ok again after ∧
        again.Lists (ofEdits edits).entries (·.rules.overwrite = .ifMissing)) ∧
    ∀ e after, ((ofEdits edits).writeAll base).run files = .error e after →
      ∃ done failing rest, (ofEdits edits).entries = done ++ failing :: rest ∧ Wrote base done files after ∧
        ∀ entry ∈ failing :: rest, after.node? (entry.destination base).components =
          files.node? (entry.destination base).components := by
  have hdescends := descends_entries hplain base
  constructor
  · intro report after hwrite
    obtain ⟨outcomes, hentries, hrun, rfl⟩ := writeEntries_eq_ok_iff.mp hwrite
    -- The order of paths is what keeps an entry from being written over by a later one.
    rw [← hentries] at hdescends
    have hlists : (WriteReport.addAll {} outcomes).Lists (ofEdits edits).entries (·.Keeps base files) := by
      rw [hrun.eq_map_fate hdescends, hentries]
      exact .of_addAll
    obtain ⟨hskipped, hwritten⟩ := hlists.ordered (ascends_ofEdits edits)
    have honce : ((ofEdits edits).entries.map (·.path)).map Path.components = _ := List.map_map
    have hnodup := (hlists.perm.map Path.components).nodup_iff.mpr (honce ▸ nodup_places edits)
    refine ⟨hentries ▸ hrun.wrote hdescends, hlists, hskipped, hwritten, hlists.perm, hnodup, ?_, ?_⟩
    · rw [hlists.total_eq, length_entries]
    · have hagain := Run.of_stands (hrun.stands hdescends)
      rw [hentries] at hagain
      refine ⟨_, writeEntries_eq_ok_iff.mpr ⟨_, ?_, hagain, rfl⟩, .of_addAll⟩
      rw [List.map_map]
      exact List.map_id _
  · intro e after hwrite
    exact wrote_of_writeAll_eq_error hplain hwrite

/-- Two stubs, and a generated file with a header. -/
def service : List Edit :=
  [.register ⟨⟨"acme/Stub.java"⟩, "stub", { overwrite := .ifMissing }⟩,
    .register ⟨⟨"acme/Kept.java"⟩, "stub", { overwrite := .ifMissing }⟩,
    .register ⟨⟨"Main.java"⟩, "class Main", { header := some "// generated" }⟩]

/-- A file system in which one of the stubs has been filled in, and an old file is to be replaced. -/
def filledIn : FileSystem :=
  ⟨[([.name "out"], .directory), ([.name "out", .name "acme"], .directory),
    ([.name "out", .name "acme", .name "Kept.java"], .file "by hand"), ([.name "out", .name "Main.java"], .file "old")]⟩

/-- In another one, a file stands where a directory is needed. -/
def inTheWay : FileSystem :=
  ⟨[([.name "out"], .directory), ([.name "out", .name "acme"], .file "notes")]⟩

/-- The stub that has been filled in is kept, the generated file is replaced, and a
    second run skips both stubs. A file in the way makes the batch fail. -/
theorem writeAll_repeatable_service :
    (∃ report after again, ((ofEdits service).writeAll ⟨"out"⟩).run filledIn = .ok report after ∧
      after.node? [.name "out", .name "acme", .name "Kept.java"] = some (.file "by hand") ∧
      after.node? [.name "out", .name "Main.java"] = some (.file "// generated\nclass Main") ∧
      ((ofEdits service).writeAll ⟨"out"⟩).run after = .ok again after ∧
      report.skipped = [⟨"acme/Kept.java"⟩] ∧ again.skipped = [⟨"acme/Kept.java"⟩, ⟨"acme/Stub.java"⟩]) ∧
    ∃ after, ((ofEdits service).writeAll ⟨"out"⟩).run inTheWay = .error .notDirectory after ∧
      ∃ done failing rest, (ofEdits service).entries = done ++ failing :: rest ∧ Wrote ⟨"out"⟩ done inTheWay after := by
  have hplain : ∀ edit ∈ service, edit.registered.path.IsPlain := by
    intro edit hedit
    obtain rfl | rfl | rfl : edit = service[0] ∨ edit = service[1] ∨ edit = service[2] := by
      simpa [service] using hedit
    · exact ⟨["acme", "Stub.java"], by decide, by decide +kernel⟩
    · exact ⟨["acme", "Kept.java"], by decide, by decide +kernel⟩
    · exact ⟨["Main.java"], by decide, by decide +kernel⟩
  have hentries : (ofEdits service).entries = [service[2].registered, service[1].registered, service[0].registered] :=
    entries_eq_of_perm (by decide +kernel) (by decide +kernel)
  constructor
  · obtain ⟨report, after, hrun⟩ : ∃ report after,
        ((ofEdits service).writeAll ⟨"out"⟩).run filledIn = .ok report after := by
      rw [writeAll, hentries]
      exact ⟨_, _, rfl⟩
    obtain ⟨hwrote, hlists, _, _, _, _, _, again, hagain, hlists'⟩ :=
      (writeAll_repeatable hplain ⟨"out"⟩ filledIn).1 report after hrun
    refine ⟨report, after, again, hrun, ?_, ?_, hagain, ?_, ?_⟩
    · have hkept := hwrote.kept service[1].registered (by simp [hentries]) (by decide +kernel)
      exact hkept
    · have hwritten := hwrote.written service[2].registered (by simp [hentries]) (by decide +kernel)
      exact hwritten
    · rw [hlists.skipped, hentries]
      decide +kernel
    · rw [hlists'.skipped, hentries]
      decide +kernel
  · obtain ⟨after, hrun⟩ : ∃ after,
        ((ofEdits service).writeAll ⟨"out"⟩).run inTheWay = .error .notDirectory after := by
      rw [writeAll, hentries]
      exact ⟨_, rfl⟩
    obtain ⟨done, failing, rest, hparts, hwrote, _⟩ :=
      (writeAll_repeatable hplain ⟨"out"⟩ inTheWay).2 .notDirectory after hrun
    exact ⟨after, hrun, done, failing, rest, hparts, hwrote⟩

end SourceTree

end JavaSource
