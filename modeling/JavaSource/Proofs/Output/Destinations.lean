import JavaSource.Proofs.Output.Writing

namespace JavaSource.SourceTree

variable {edits : List Edit} {base : Path} {a b : SourceEntry}

/-- Two entries of a tree have one destination only if their paths are a dot apart.
    -/
theorem destination_eq_iff (hbase : base.text ≠ "")
    (hrelative : ∀ edit ∈ edits, edit.registered.path.isAbsolute = false) (ha : a ∈ (ofEdits edits).entries)
    (hb : b ∈ (ofEdits edits).entries) (hne : a ≠ b) :
    (a.destination base).components = (b.destination base).components ↔ a.path.DotApart b.path := by
  have hpaths : ∀ entry ∈ (ofEdits edits).entries, entry.path.isAbsolute = false :=
    forall_entries_of_forall_edits hrelative
  have hplaces : a.path.components ≠ b.path.components :=
    fun hsame => hne (List.inj_on_of_nodup_map (nodup_places edits) ha hb hsame)
  rw [SourceEntry.destination, SourceEntry.destination,
    Path.components_join_eq_iff hbase (hpaths a ha) (hpaths b hb)]
  exact or_iff_right hplaces

/-- Without such paths, no two entries have the same destination. -/
theorem nodup_destinations (hbase : base.text ≠ "")
    (hrelative : ∀ edit ∈ edits, edit.registered.path.isAbsolute = false)
    (hdots : ∀ edit ∈ edits, ∀ other ∈ edits, ¬ edit.registered.path.DotApart other.registered.path) :
    ((ofEdits edits).entries.map fun entry => (entry.destination base).components).Nodup := by
  have hapart : ∀ entry ∈ (ofEdits edits).entries, ∀ other ∈ (ofEdits edits).entries,
      ¬ entry.path.DotApart other.path :=
    forall_entries_of_forall_edits fun edit hedit => forall_entries_of_forall_edits (hdots edit hedit)
  refine List.Nodup.map_on ?_ (nodup_places edits).of_map
  intro a ha b hb hsame
  by_contra hne
  exact hapart a ha b hb ((destination_eq_iff hbase hrelative ha hb hne).mp hsame)

/-- Two entries of a tree share a destination only where their paths differ in a dot in
    front, which joining drops. Where no two paths do, each file is written once at
    most, and it has the content that was registered last for it, or the one it had
    where that entry is only for a missing file. Paths with a step up are left out
    there: where such a step leads to is up to the directories, and not to the path. -/
theorem destinations_distinct (hbase : base.text ≠ "")
    (hrelative : ∀ edit ∈ edits, edit.registered.path.isAbsolute = false) :
    (∀ a ∈ (ofEdits edits).entries, ∀ b ∈ (ofEdits edits).entries, a ≠ b →
      ((a.destination base).components = (b.destination base).components ↔ a.path.DotApart b.path)) ∧
    ((∀ edit ∈ edits, ∀ other ∈ edits, ¬ edit.registered.path.DotApart other.registered.path) →
      (∀ edit ∈ edits, .up ∉ edit.registered.path.components) →
      ∀ files after report, ((ofEdits edits).writeAll base).run files = .ok report after →
        (report.written.map fun path => (base.join path).components).Nodup ∧
        ∀ edit ∈ edits, ∃ entry, lastAt edit.registered.path.components edits = some entry ∧
          (entry.path ∈ report.written ∧ after.read? (entry.destination base) = some entry.fullContent ∨
            entry.path ∈ report.skipped ∧ entry.rules.overwrite = .ifMissing ∧
            after.read? (entry.destination base) = files.read? (entry.destination base))) := by
  refine ⟨fun a ha b hb hne => destination_eq_iff hbase hrelative ha hb hne, ?_⟩
  intro hdots _ files after report hrun
  obtain ⟨hwritten, hsettled⟩ := settled_of_writeAll hrun (nodup_destinations hbase hrelative hdots)
  refine ⟨hwritten, fun edit hedit => ?_⟩
  obtain ⟨entry, hentry, hlast, _⟩ := exists_entry hedit
  obtain ⟨result, hreport, hsettled⟩ := hsettled entry hentry
  refine ⟨entry, hlast, ?_⟩
  cases result with
  | written => exact .inl ⟨hreport, hsettled⟩
  | skipped => exact .inr ⟨hreport, hsettled⟩

/-- Two entries for one place, and between them one that is only for a missing file. -/
def stubs : List Edit :=
  [.register ⟨⟨"b/B.java"⟩, "old", {}⟩, .register ⟨⟨"A.java"⟩, "stub", { overwrite := .ifMissing }⟩,
    .register ⟨⟨"b/./B.java"⟩, "new", { header := some "// generated" }⟩]

/-- A file system in which that file is there. -/
def edited : FileSystem :=
  ⟨[([.name "out"], .directory), ([.name "out", .name "A.java"], .file "edited")]⟩

/-- The later of two entries for one place is written, and the edited stub is kept.
    -/
theorem destinations_distinct_stubs : ∃ after,
    ((ofEdits stubs).writeAll ⟨"out"⟩).run edited = .ok ⟨1, 1, [⟨"b/./B.java"⟩], [⟨"A.java"⟩]⟩ after ∧
    after.read? ⟨"out/b/B.java"⟩ = some "// generated\nnew" ∧ after.read? ⟨"out/A.java"⟩ = some "edited" := by
  have hrelative : ∀ edit ∈ stubs, edit.registered.path.isAbsolute = false := by decide +kernel
  have hdots : ∀ edit ∈ stubs, ∀ other ∈ stubs, ¬ edit.registered.path.DotApart other.registered.path := by
    decide +kernel
  have hup : ∀ edit ∈ stubs, .up ∉ edit.registered.path.components := by decide +kernel
  obtain ⟨_, hwrite⟩ := destinations_distinct (by decide : (⟨"out"⟩ : Path).text ≠ "") hrelative
  have hentries : (ofEdits stubs).entries = [stubs[1].registered, stubs[2].registered] :=
    entries_eq_of_perm (by decide +kernel) (by decide +kernel)
  obtain ⟨after, hrun⟩ : ∃ after, ((ofEdits stubs).writeAll ⟨"out"⟩).run edited =
      .ok ⟨1, 1, [⟨"b/./B.java"⟩], [⟨"A.java"⟩]⟩ after := by
    rw [writeAll, hentries]
    exact ⟨_, rfl⟩
  obtain ⟨_, hfiles⟩ := hwrite hdots hup edited after _ hrun
  refine ⟨after, hrun, ?_, ?_⟩
  · obtain ⟨entry, hlast, hsettled⟩ := hfiles stubs[0] (List.getElem_mem _)
    have hnew : lastAt stubs[0].registered.path.components stubs =
        some ⟨⟨"b/./B.java"⟩, "new", { header := some "// generated" }⟩ := by decide +kernel
    obtain rfl := Option.some.inj (hlast.symm.trans hnew)
    obtain ⟨_, hcontent⟩ | ⟨hskipped, _⟩ := hsettled
    · exact hcontent
    · exact absurd hskipped (by decide)
  · obtain ⟨entry, hlast, hsettled⟩ := hfiles stubs[1] (List.getElem_mem _)
    have hstub : lastAt stubs[1].registered.path.components stubs =
        some ⟨⟨"A.java"⟩, "stub", { overwrite := .ifMissing }⟩ := by decide +kernel
    obtain rfl := Option.some.inj (hlast.symm.trans hstub)
    obtain ⟨hwritten, _⟩ | ⟨_, _, hkept⟩ := hsettled
    · exact absurd hwritten (by decide)
    · exact hkept

/-- Two paths to one file, of which the one that is registered second is written first. -/
def twins : List Edit :=
  [.register ⟨⟨"A.java"⟩, "first", {}⟩, .register ⟨⟨"./A.java"⟩, "second", {}⟩]

/-- The earlier registration is not replaced, the file is written twice, and it ends
    with the content that was registered earlier. -/
theorem twins_share_destination :
    (¬ ∀ a ∈ (ofEdits twins).entries, ∀ b ∈ (ofEdits twins).entries, a ≠ b →
      (a.destination ⟨"out"⟩).components ≠ (b.destination ⟨"out"⟩).components) ∧
    ∃ after, ((ofEdits twins).writeAll ⟨"out"⟩).run .empty = .ok ⟨2, 0, [⟨"./A.java"⟩, ⟨"A.java"⟩], []⟩ after ∧
      after.nodes = [([.name "out"], .directory), ([.name "out", .name "A.java"], .file "first")] := by
  have hentries : (ofEdits twins).entries = [⟨⟨"./A.java"⟩, "second", {}⟩, ⟨⟨"A.java"⟩, "first", {}⟩] :=
    entries_eq_of_perm (by decide +kernel) (by decide +kernel)
  rw [writeAll, hentries]
  exact ⟨by decide +kernel, _, rfl, rfl⟩

end JavaSource.SourceTree
