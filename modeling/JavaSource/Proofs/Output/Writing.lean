import JavaSource.Proofs.Output.FileSystem
import JavaSource.Proofs.Output.SourceTree

namespace JavaSource

variable {base : Path} {files before middle after : FileSystem} {result : WriteResult}

namespace SourceEntry

variable {entry : SourceEntry}

/-- An entry gives way to what is at its destination if it is only for what is missing. -/
def GivesWay (entry : SourceEntry) (base : Path) (files : FileSystem) : Prop :=
  entry.rules.overwrite = .ifMissing ∧ files.contains (entry.destination base) = true

instance (entry : SourceEntry) (base : Path) (files : FileSystem) : Decidable (entry.GivesWay base files) :=
  inferInstanceAs (Decidable (_ ∧ _))

/-- An entry that gives way changes nothing. Any other is written to its
    destination. -/
theorem writeBelow_run (entry : SourceEntry) (base : Path) (files : FileSystem) :
    (entry.writeBelow base).run files =
      if entry.GivesWay base files then .ok .skipped files
      else (do FileSystem.write (entry.destination base) entry.fullContent; pure .written : FileM _).run files := by
  rw [writeBelow, write, EStateM.run_bind, EStateM.run_get]
  exact apply_ite (fun operation : FileM WriteResult => operation.run files) (entry.GivesWay base files) _ _

/-- An entry is dealt with in one of two ways. -/
theorem writeBelow_eq_ok_iff : (entry.writeBelow base).run files = .ok result after ↔
    entry.GivesWay base files ∧ result = .skipped ∧ after = files ∨
    ¬ entry.GivesWay base files ∧ result = .written ∧
      (FileSystem.write (entry.destination base) entry.fullContent).run files = .ok () after := by
  rw [writeBelow_run]
  by_cases hway : entry.GivesWay base files
  · rw [if_pos hway]
    constructor
    · rintro ⟨⟩
      exact .inl ⟨hway, rfl, rfl⟩
    · rintro (⟨_, rfl, rfl⟩ | ⟨hnot, _⟩)
      · rfl
      · exact absurd hway hnot
  · rw [if_neg hway, FileM.bind_eq_ok_iff]
    constructor
    · rintro ⟨_, _, hwrite, ⟨⟩⟩
      exact .inr ⟨hway, rfl, hwrite⟩
    · rintro (⟨hyes, _⟩ | ⟨_, rfl, hwrite⟩)
      · exact absurd hyes hway
      · exact ⟨(), after, hwrite, rfl⟩

/-- What the destination of an entry holds at the end, in view of what became of the entry. -/
def Settled (entry : SourceEntry) (base : Path) (before after : FileSystem) : WriteResult → Prop
  | .written => after.read? (entry.destination base) = some entry.fullContent
  | .skipped => entry.rules.overwrite = .ifMissing ∧
      after.read? (entry.destination base) = before.read? (entry.destination base)

/-- An entry that has been dealt with is settled. -/
theorem settled_of_writeBelow (h : (entry.writeBelow base).run files = .ok result after) :
    entry.Settled base files after result := by
  obtain ⟨⟨hmissing, _⟩, rfl, rfl⟩ | ⟨_, rfl, hwrite⟩ := writeBelow_eq_ok_iff.mp h
  · exact ⟨hmissing, rfl⟩
  · exact FileSystem.read?_of_write hwrite

/-- No file reads differently but the one at the destination. -/
theorem read?_of_writeBelow_of_ne (h : (entry.writeBelow base).run files = .ok result after) {other : Path}
    (hne : other.components ≠ (entry.destination base).components) : after.read? other = files.read? other := by
  obtain ⟨_, _, rfl⟩ | ⟨_, _, hwrite⟩ := writeBelow_eq_ok_iff.mp h
  · rfl
  · exact FileSystem.read?_of_write_of_ne hwrite hne

end SourceEntry

namespace WriteReport

/-- The report goes on with the results of some more entries. -/
def addAll (report : WriteReport) (outcomes : List (SourceEntry × WriteResult)) : WriteReport :=
  outcomes.foldl (fun report outcome => report.add outcome.1.path outcome.2) report

/-- The paths of the entries with one result. -/
def paths (report : WriteReport) : WriteResult → List Path
  | .written => report.written
  | .skipped => report.skipped

/-- A result is listed behind those of its kind. -/
theorem paths_add (report : WriteReport) (path : Path) (added result : WriteResult) :
    (report.add path added).paths result = report.paths result ++ if added = result then [path] else [] := by
  cases added <;> cases result <;> simp [add, paths]

/-- More results are listed in order, each with those of its kind. -/
theorem paths_addAll (report : WriteReport) (outcomes : List (SourceEntry × WriteResult)) (result : WriteResult) :
    (report.addAll outcomes).paths result =
      report.paths result ++ (outcomes.filter (·.2 = result)).map (·.1.path) := by
  induction outcomes generalizing report with
  | nil => rw [addAll, List.foldl_nil, List.filter_nil, List.map_nil, List.append_nil]
  | cons outcome outcomes ih =>
    rw [addAll, List.foldl_cons, ← addAll, ih, paths_add, List.append_assoc, List.filter_cons]
    split <;> simp_all

/-- A report counts the paths that it lists. -/
structure Counted (report : WriteReport) : Prop where
  written : report.writtenCount = report.written.length
  skipped : report.skippedCount = report.skipped.length

/-- A result is counted where it is listed. -/
theorem Counted.add {report : WriteReport} (h : report.Counted) (path : Path) (result : WriteResult) :
    (report.add path result).Counted := by
  cases result with
  | written => exact ⟨by simp [WriteReport.add, h.written], h.skipped⟩
  | skipped => exact ⟨h.written, by simp [WriteReport.add, h.skipped]⟩

/-- More results are counted where they are listed. -/
theorem Counted.addAll {report : WriteReport} (h : report.Counted) (outcomes : List (SourceEntry × WriteResult)) :
    (report.addAll outcomes).Counted := by
  induction outcomes generalizing report with
  | nil => exact h
  | cons outcome outcomes ih => exact ih (h.add outcome.1.path outcome.2)

end WriteReport

namespace SourceTree

/-- A run in which every entry succeeds in its turn, with what became of each. -/
inductive Run (base : Path) : List (SourceEntry × WriteResult) → FileSystem → FileSystem → Prop where
  | nil (files : FileSystem) : Run base [] files files
  | cons {entry : SourceEntry} {result : WriteResult} {outcomes : List (SourceEntry × WriteResult)}
      {files middle after : FileSystem} (step : (entry.writeBelow base).run files = .ok result middle)
      (rest : Run base outcomes middle after) : Run base ((entry, result) :: outcomes) files after

/-- A batch succeeds with a report if its entries run one after the other and the
    report has their results. -/
theorem writeEntries_eq_ok_iff {entries : List SourceEntry} {start report : WriteReport} :
    (writeEntries base entries start).run files = .ok report after ↔
      ∃ outcomes, outcomes.map Prod.fst = entries ∧ Run base outcomes files after ∧ report = start.addAll outcomes := by
  induction entries generalizing files start with
  | nil =>
    constructor
    · rintro ⟨⟩
      exact ⟨[], rfl, .nil _, rfl⟩
    · rintro ⟨outcomes, houtcomes, hrun, rfl⟩
      obtain rfl := List.map_eq_nil_iff.mp houtcomes
      cases hrun
      rfl
  | cons entry entries ih =>
    rw [writeEntries, FileM.bind_eq_ok_iff]
    constructor
    · rintro ⟨result, middle, hstep, hrest⟩
      obtain ⟨outcomes, rfl, hrun, rfl⟩ := ih.mp hrest
      exact ⟨(entry, result) :: outcomes, rfl, .cons hstep hrun, rfl⟩
    · rintro ⟨outcomes, houtcomes, hrun, rfl⟩
      cases hrun with
      | nil => cases houtcomes
      | cons hstep hrun =>
        obtain ⟨rfl, rfl⟩ := List.cons.inj houtcomes
        exact ⟨_, _, hstep, ih.mpr ⟨_, rfl, hrun, rfl⟩⟩

namespace Run

variable {outcomes : List (SourceEntry × WriteResult)}

/-- A run changes no file that is not the destination of an entry. -/
theorem read?_eq (h : Run base outcomes before after) {other : Path}
    (hother : ∀ outcome ∈ outcomes, other.components ≠ (outcome.1.destination base).components) :
    after.read? other = before.read? other := by
  induction h with
  | nil => rfl
  | cons step _ ih =>
    obtain ⟨hfirst, hrest⟩ := List.forall_mem_cons.mp hother
    rw [ih hrest, SourceEntry.read?_of_writeBelow_of_ne step hfirst]

/-- Where no two entries share a destination, the end of the run shows what became of
    each of them. -/
theorem settled (h : Run base outcomes before after)
    (hdistinct : (outcomes.map fun outcome => (outcome.1.destination base).components).Nodup) :
    ∀ outcome ∈ outcomes, outcome.1.Settled base before after outcome.2 := by
  induction h with
  | nil => exact nofun
  | @cons entry result outcomes files middle after step rest ih =>
    obtain ⟨hfirst, hrest⟩ := List.nodup_cons.mp hdistinct
    have hfree : ∀ outcome ∈ outcomes, (entry.destination base).components ≠
        (outcome.1.destination base).components := by
      intro outcome hmem heq
      exact hfirst (List.mem_map.mpr ⟨outcome, hmem, heq.symm⟩)
    refine List.forall_mem_cons.mpr ⟨?_, ?_⟩
    · -- The entries after the first one leave its destination as it is.
      have hstep := SourceEntry.settled_of_writeBelow step
      have hkept := rest.read?_eq hfree
      cases result with
      | written => exact hkept.trans hstep
      | skipped => exact ⟨hstep.1, hkept.trans hstep.2⟩
    · intro outcome hmem
      have hsettled := ih hrest outcome hmem
      have hkept := SourceEntry.read?_of_writeBelow_of_ne step (hfree outcome hmem).symm
      obtain ⟨other, result'⟩ := outcome
      cases result' with
      | written => exact hsettled
      | skipped => exact ⟨hsettled.1, hsettled.2.trans hkept⟩

end Run

/-- Where no two entries of a tree share a destination, nothing is written twice, and
    every entry is settled as the report says. -/
theorem settled_of_writeAll {tree : SourceTree} {report : WriteReport}
    (h : (tree.writeAll base).run files = .ok report after)
    (hdistinct : (tree.entries.map fun entry => (entry.destination base).components).Nodup) :
    (report.written.map fun path => (base.join path).components).Nodup ∧
    ∀ entry ∈ tree.entries, ∃ result, entry.path ∈ report.paths result ∧ entry.Settled base files after result := by
  obtain ⟨outcomes, houtcomes, hrun, rfl⟩ := writeEntries_eq_ok_iff.mp h
  have hpaths : ∀ result, (WriteReport.addAll {} outcomes).paths result =
      (outcomes.filter (·.2 = result)).map (·.1.path) := by
    intro result
    rw [WriteReport.paths_addAll]
    cases result <;> rfl
  rw [← houtcomes, List.map_map] at hdistinct
  constructor
  · have hsublist := ((List.filter_sublist (p := fun outcome => outcome.2 = .written)).map _).nodup hdistinct
    have hwritten := hpaths .written
    rw [WriteReport.paths] at hwritten
    rw [hwritten, List.map_map]
    exact hsublist
  · intro entry hentry
    rw [← houtcomes] at hentry
    obtain ⟨⟨_, result⟩, hmem, rfl⟩ := List.mem_map.mp hentry
    refine ⟨result, ?_, hrun.settled hdistinct _ hmem⟩
    rw [hpaths]
    exact List.mem_map_of_mem (List.mem_filter.mpr ⟨hmem, decide_eq_true rfl⟩)

end SourceTree

end JavaSource
