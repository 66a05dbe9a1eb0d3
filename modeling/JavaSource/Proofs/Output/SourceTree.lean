import JavaSource.Listing
import JavaSource.Proofs.Collections.Ascending
import JavaSource.Proofs.Output.Path
import Mathlib.Data.Finset.Card
import Mathlib.Data.List.Induction

namespace JavaSource

/-- The order in which the entries of a tree are read. -/
abbrev SourceEntry.comparePaths (a b : SourceEntry) : Ordering :=
  a.path.cmp b.path

instance : Std.TransCmp SourceEntry.comparePaths where
  eq_swap {a b} := @Std.OrientedCmp.eq_swap _ Path.cmp _ a.path b.path
  isLE_trans {a b c} := @Std.TransCmp.isLE_trans _ Path.cmp _ a.path b.path c.path

namespace SourceTree

open Ascending (Ascends)
open SourceEntry (comparePaths)

/-- A step in filling a tree: an entry is registered as it is, or the source of a unit
    as the entry that places it. -/
inductive Edit where
  | register (entry : SourceEntry)
  | registerListing (listing : Listing) (extension : String) (rules : WriteRules)

/-- The entry that a step registers. -/
def Edit.registered : Edit → SourceEntry
  | .register entry => entry
  | .registerListing listing extension rules => listing.entry extension rules

/-- The tree after the steps, in order. -/
def ofEdits (edits : List Edit) : SourceTree :=
  edits.foldl (fun tree edit => tree.register edit.registered) empty

/-- The entry that some steps registered last for a place, which is known by its components. -/
def lastAt (place : List PathComponent) (edits : List Edit) : Option SourceEntry :=
  ((edits.map Edit.registered).filter (·.path.components = place)).getLast?

variable {edits : List Edit}

theorem ofEdits_concat (edits : List Edit) (edit : Edit) :
    ofEdits (edits ++ [edit]) = (ofEdits edits).register edit.registered := by
  rw [ofEdits, List.foldl_append]
  rfl

/-- One more step is the last one for its own place and for no other. -/
theorem lastAt_concat (place : List PathComponent) (edits : List Edit) (edit : Edit) :
    lastAt place (edits ++ [edit]) =
      if edit.registered.path.components = place then some edit.registered else lastAt place edits := by
  rw [lastAt, List.map_append, List.filter_append, List.map_singleton]
  split
  · next hplace => rw [List.filter_cons_of_pos (by simpa using hplace), List.filter_nil, List.getLast?_concat]
  · next hplace =>
    rw [List.filter_cons_of_neg (by simpa using hplace), List.filter_nil, List.append_nil]
    rfl

/-- The entry that is last for a place was registered, and its path leads there. -/
theorem registered_of_lastAt {place : List PathComponent} {entry : SourceEntry} (h : lastAt place edits = some entry) :
    entry.path.components = place ∧ ∃ edit ∈ edits, edit.registered = entry := by
  obtain ⟨hmem, hplace⟩ := List.mem_filter.mp (List.mem_of_getLast? h)
  exact ⟨of_decide_eq_true hplace, List.mem_map.mp hmem⟩

/-- A place has a last entry exactly if a step registers one for it. -/
theorem lastAt_eq_none_iff {place : List PathComponent} :
    lastAt place edits = none ↔ place ∉ edits.map (·.registered.path.components) := by
  simp [lastAt]

/-- The place of every step has a last entry. -/
theorem exists_lastAt {edit : Edit} (h : edit ∈ edits) :
    ∃ entry, lastAt edit.registered.path.components edits = some entry := by
  rw [← Option.isSome_iff_exists, Option.isSome_iff_ne_none, Ne, lastAt_eq_none_iff, not_not]
  exact List.mem_map_of_mem h

/-- Whether two runs end in the same way shows at the places that they register. -/
theorem lastAt_eq_of_forall_mem {other : List Edit} (h : ∀ edit ∈ edits ++ other,
    lastAt edit.registered.path.components edits = lastAt edit.registered.path.components other)
    (place : List PathComponent) : lastAt place edits = lastAt place other := by
  by_cases hmem : place ∈ (edits ++ other).map (·.registered.path.components)
  · obtain ⟨edit, hedit, rfl⟩ := List.mem_map.mp hmem
    exact h edit hedit
  · rw [List.map_append, List.mem_append, not_or] at hmem
    rw [lastAt_eq_none_iff.mpr hmem.1, lastAt_eq_none_iff.mpr hmem.2]

variable {tree : SourceTree} {entry member : SourceEntry}

/-- Reading a tree in order loses no file and adds none. -/
theorem mem_entries_iff : member ∈ tree.entries ↔ member ∈ tree.files :=
  List.mem_mergeSort

/-- Of two entries in the order of paths, neither has the place of the other. -/
theorem place_ne_of_lt {a b : SourceEntry} (h : comparePaths a b = .lt) : a.path.components ≠ b.path.components := by
  intro hsame
  rw [comparePaths, Path.cmp_eq_iff.mpr hsame] at h
  cases h

/-- No two files of the tree have the same place. -/
def Separate (tree : SourceTree) : Prop :=
  tree.files.Pairwise fun a b => a.path.components ≠ b.path.components

/-- A registration keeps the files of all other places. -/
theorem mem_register_iff : member ∈ (tree.register entry).files ↔
    member = entry ∨ member ∈ tree.files ∧ member.path.components ≠ entry.path.components := by
  rw [register, List.mem_append, List.mem_filter, List.mem_singleton, decide_eq_true_iff, or_comm]

/-- What is registered takes the only place of its own, since the file that had it is gone. -/
theorem Separate.register (h : tree.Separate) (entry : SourceEntry) : (tree.register entry).Separate := by
  refine List.pairwise_append.mpr ⟨h.filter _, List.pairwise_singleton _ _, fun earlier hearlier last hlast => ?_⟩
  obtain rfl := List.mem_singleton.mp hlast
  exact of_decide_eq_true (List.mem_filter.mp hearlier).2

/-- Files with places of their own ascend when they are read in order. -/
theorem Separate.ascends_entries (h : tree.Separate) : Ascends comparePaths tree.entries :=
  Ascending.ascends_mergeSort (h.imp fun hne heq => hne (Path.cmp_eq_iff.mp heq))

/-- There is only one order in which the files of a tree ascend, and it is the one in which
    they are read. -/
theorem entries_eq_of_perm {sorted : List SourceEntry} (hascends : Ascends comparePaths sorted)
    (hperm : sorted.Perm tree.files) : tree.entries = sorted := by
  have hseparate : tree.Separate := (hperm.pairwise_iff Ne.symm).mp (hascends.imp place_ne_of_lt)
  exact hseparate.ascends_entries.eq_of_mem_iff hascends fun entry => mem_entries_iff.trans hperm.mem_iff.symm

/-- The files of a tree are separate after every run of steps. -/
theorem separate_ofEdits (edits : List Edit) : (ofEdits edits).Separate := by
  induction edits using List.reverseRecOn with
  | nil => exact .nil
  | append_singleton edits edit ih =>
    rw [ofEdits_concat]
    exact ih.register edit.registered

/-- The entries of a tree ascend after every run of steps. -/
theorem ascends_ofEdits (edits : List Edit) : Ascends comparePaths (ofEdits edits).entries :=
  (separate_ofEdits edits).ascends_entries

/-- What a tree holds after a run is what was registered last for each place. -/
theorem mem_files_iff {entry : SourceEntry} :
    entry ∈ (ofEdits edits).files ↔ lastAt entry.path.components edits = some entry := by
  induction edits using List.reverseRecOn with
  | nil => exact ⟨nofun, nofun⟩
  | append_singleton edits edit ih =>
    rw [ofEdits_concat, mem_register_iff, ih, lastAt_concat]
    split
    · next hplace =>
      rw [Option.some.injEq]
      refine ⟨?_, fun h => .inl h.symm⟩
      rintro (rfl | ⟨_, hne⟩)
      · rfl
      · exact absurd hplace.symm hne
    · next hplace =>
      refine ⟨?_, fun h => .inr ⟨h, Ne.symm hplace⟩⟩
      rintro (rfl | ⟨h, _⟩)
      · exact absurd rfl hplace
      · exact h

/-- The entries of a tree are those registered last for their places. -/
theorem mem_ofEdits_iff {entry : SourceEntry} :
    entry ∈ (ofEdits edits).entries ↔ lastAt entry.path.components edits = some entry :=
  mem_entries_iff.trans mem_files_iff

/-- As many files are counted as are read. -/
theorem length_entries (tree : SourceTree) : tree.entries.length = tree.size :=
  List.length_mergeSort _

/-- What holds of every entry that is registered holds of every entry of the tree. -/
theorem forall_entries_of_forall_edits {p : SourceEntry → Prop} (h : ∀ edit ∈ edits, p edit.registered) :
    ∀ entry ∈ (ofEdits edits).entries, p entry := by
  intro entry hentry
  obtain ⟨_, edit, hedit, rfl⟩ := registered_of_lastAt (mem_ofEdits_iff.mp hentry)
  exact h edit hedit

/-- Every registered place has an entry in the tree. -/
theorem exists_entry {edit : Edit} (h : edit ∈ edits) : ∃ entry ∈ (ofEdits edits).entries,
    lastAt edit.registered.path.components edits = some entry ∧
    entry.path.components = edit.registered.path.components := by
  obtain ⟨entry, hlast⟩ := exists_lastAt h
  obtain ⟨hplace, _⟩ := registered_of_lastAt hlast
  exact ⟨entry, mem_ofEdits_iff.mpr (hplace ▸ hlast), hlast, hplace⟩

/-- No two entries of a tree have the same place. -/
theorem nodup_places (edits : List Edit) : ((ofEdits edits).entries.map (·.path.components)).Nodup :=
  List.pairwise_map.mpr ((ascends_ofEdits edits).imp place_ne_of_lt)

/-- The places of a tree are those that some step registers an entry for. -/
theorem mem_places_iff {place : List PathComponent} :
    place ∈ (ofEdits edits).entries.map (·.path.components) ↔
      place ∈ edits.map (·.registered.path.components) := by
  rw [List.mem_map, List.mem_map]
  constructor
  · rintro ⟨entry, hentry, rfl⟩
    obtain ⟨_, edit, hedit, rfl⟩ := registered_of_lastAt (mem_ofEdits_iff.mp hentry)
    exact ⟨edit, hedit, rfl⟩
  · rintro ⟨edit, hedit, rfl⟩
    obtain ⟨entry, hentry, _, hplace⟩ := exists_entry hedit
    exact ⟨entry, hentry, hplace⟩

/-- A tree is a map from places to the entries that were registered last for them, in
    the order of paths, whatever the order of the registrations was. -/
theorem entries_lastWins (edits : List Edit) :
    (ofEdits edits).entries.Pairwise (fun a b => a.path.cmp b.path = .lt) ∧
    (∀ edit ∈ edits, ∃! entry, entry ∈ (ofEdits edits).entries ∧
      entry.path.components = edit.registered.path.components) ∧
    (∀ entry, entry ∈ (ofEdits edits).entries ↔ lastAt entry.path.components edits = some entry) ∧
    (ofEdits edits).size = (edits.map (·.registered.path.components)).toFinset.card ∧
    ∀ other : List Edit, (∀ place, lastAt place edits = lastAt place other) →
      (ofEdits edits).entries = (ofEdits other).entries := by
  refine ⟨ascends_ofEdits edits, ?_, fun entry => mem_ofEdits_iff, ?_, ?_⟩
  · intro edit hedit
    obtain ⟨entry, hentry, hlast, hplace⟩ := exists_entry hedit
    refine ⟨entry, ⟨hentry, hplace⟩, ?_⟩
    rintro other ⟨hother, hplace'⟩
    have hlast' := mem_ofEdits_iff.mp hother
    rw [hplace', hlast] at hlast'
    exact (Option.some.inj hlast').symm
  -- The size counts the places, since every place has one entry.
  · have hplaces : (edits.map (·.registered.path.components)).toFinset =
        ((ofEdits edits).entries.map (·.path.components)).toFinset := by
      ext place
      rw [List.mem_toFinset, List.mem_toFinset, mem_places_iff]
    rw [hplaces, List.toFinset_card_of_nodup (nodup_places edits), List.length_map, length_entries]
  · intro other hsame
    refine (ascends_ofEdits edits).eq_of_mem_iff (ascends_ofEdits other) fun entry => ?_
    rw [mem_ofEdits_iff, mem_ofEdits_iff, hsame]

/-- Three entries for two places, one of which is written with a step that does not count. -/
def drafts : List Edit :=
  [.register ⟨⟨"b/B.java"⟩, "old", {}⟩, .register ⟨⟨"a/./A.java"⟩, "class A{}", {}⟩,
    .registerListing ⟨"B", "b", ⟨"b"⟩, [], .classUnit, ["class B" ++ openBrace, closeBrace]⟩ "java" {}]

/-- Without the entry that is replaced, and with the other two the other way round, the
    tree is the same. -/
theorem entries_lastWins_drafts : (∀ place, lastAt place drafts = lastAt place drafts.tail.reverse) ∧
    (ofEdits drafts).entries = (ofEdits drafts.tail.reverse).entries ∧ (ofEdits drafts).size = 2 := by
  have hsame : ∀ place, lastAt place drafts = lastAt place drafts.tail.reverse :=
    lastAt_eq_of_forall_mem (by decide +kernel)
  obtain ⟨_, _, _, hsize, hentries⟩ := entries_lastWins drafts
  refine ⟨hsame, hentries _ hsame, ?_⟩
  rw [hsize]
  decide +kernel

end SourceTree

end JavaSource
