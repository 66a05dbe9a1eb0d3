import JavaSource.Proofs.Output.SourceTree
import JavaSource.Proofs.Text.Trim

namespace JavaSource

/-- A listing that some unit, of whatever kind, has in some configuration. -/
def Listing.Built (listing : Listing) : Prop :=
  ∃ (kind : UnitKind) (unit : CompilationUnit kind) (config : RenderConfig), unit.listing config = .ok listing

/-- A listing of a unit whose package and name have no slash, so that neither of them is
    a path of its own. -/
structure Listing.Placeable (listing : Listing) : Prop where
  built : listing.Built
  package : '/' ∉ listing.packageName.toList
  name : '/' ∉ listing.className.toList

/-- An extension that is there and has no slash. -/
structure IsExtension (extension : String) : Prop where
  nonempty : extension ≠ ""
  slash : '/' ∉ extension.toList

namespace Listing

variable {listing a b : Listing} {extension : String}

/-- A listing has the names of its unit, of which the one of the unit itself is not blank. -/
theorem names_of_listing {kind : UnitKind} {unit : CompilationUnit kind} {config : RenderConfig}
    (h : unit.listing config = .ok listing) : isBlank unit.name = false ∧ listing.className = unit.name ∧
      listing.packageName = unit.package ∧ listing.packagePath = .ofPackage unit.package := by
  unfold CompilationUnit.listing at h
  split at h
  · cases h
  · next hname =>
    obtain rfl := Except.ok.inj h
    exact ⟨by simpa using hname, rfl, rfl, rfl⟩

/-- No unit is listed without a name. -/
theorem Built.className_ne_empty (h : listing.Built) : listing.className ≠ "" := by
  obtain ⟨kind, unit, config, hlisting⟩ := h
  obtain ⟨hblank, hname, _⟩ := names_of_listing hlisting
  intro hempty
  rw [← hname, hempty, isBlank_empty] at hblank
  cases hblank

/-- A listing is placed in the directory of its package. -/
theorem Built.packagePath_eq (h : listing.Built) : listing.packagePath = .ofPackage listing.packageName := by
  obtain ⟨kind, unit, config, hlisting⟩ := h
  obtain ⟨_, _, hpackage, hpath⟩ := names_of_listing hlisting
  rw [hpath, hpackage]

/-- A file name has something in front of a dot and something behind it, so that it is
    none of the dotted steps, even where the name of the unit is one. -/
theorem components_fileName (h : listing.Placeable) (hextension : IsExtension extension) :
    (⟨listing.fileName extension⟩ : Path).components = [.name (listing.fileName extension)] := by
  have hname : 0 < listing.className.toList.length := by
    simpa [List.length_pos_iff] using h.built.className_ne_empty
  have hbehind : 0 < extension.toList.length := by
    simpa [List.length_pos_iff] using hextension.nonempty
  have htext : (listing.fileName extension).toList = listing.className.toList ++ '.' :: extension.toList := by
    simp [fileName]
  have hlength : 3 ≤ (listing.fileName extension).toList.length := by
    rw [htext, List.length_append, List.length_cons]
    omega
  have hne : ∀ text : String, text.toList.length < 3 → listing.fileName extension ≠ text := by
    rintro text hshort rfl
    omega
  refine Path.components_of_name ?_ (hne "" (by decide)) ⟨hne "." (by decide), hne ".." (by decide)⟩
  rw [htext, List.mem_append, List.mem_cons, not_or, not_or]
  exact ⟨h.name, by decide, hextension.slash⟩

/-- The file of a unit lies below the directories of its segments and has its name. -/
theorem components_relativePath (h : listing.Placeable) (hextension : IsExtension extension) :
    (listing.relativePath extension).components =
      (Path.segments listing.packageName ++ [listing.fileName extension]).map .name := by
  have hfile := components_fileName h hextension
  have hplain : (⟨listing.fileName extension⟩ : Path).IsPlain := ⟨[_], List.cons_ne_nil _ _, hfile⟩
  rw [relativePath, Path.components_join_of_isPlain _ hplain, hfile, h.built.packagePath_eq,
    Path.components_ofPackage h.package, List.map_append]
  rfl

/-- Files with one extension have the same name only for classes of the same name.
    -/
theorem fileName_eq_iff : a.fileName extension = b.fileName extension ↔ a.className = b.className := by
  rw [fileName, fileName, String.append_assoc, String.append_assoc, String.append_left_inj]

/-- Two units share a file only if they share their segments and their name. -/
theorem components_relativePath_eq_iff (ha : a.Placeable) (hb : b.Placeable) (hextension : IsExtension extension) :
    (a.relativePath extension).components = (b.relativePath extension).components ↔
      Path.segments a.packageName = Path.segments b.packageName ∧ a.className = b.className := by
  have hinjective : Function.Injective PathComponent.name := fun _ _ => PathComponent.name.inj
  rw [components_relativePath ha hextension, components_relativePath hb hextension, hinjective.list_map.eq_iff,
    ← List.concat_eq_append, ← List.concat_eq_append, List.concat_inj, fileName_eq_iff]

end Listing

namespace SourceTree

/-- Registrations for places of their own are all kept, whatever was registered earlier. -/
theorem mem_ofEdits_append {earlier edits : List Edit}
    (h : edits.Pairwise fun a b => a.registered.path.components ≠ b.registered.path.components) :
    ∀ edit ∈ edits, edit.registered ∈ (ofEdits (earlier ++ edits)).entries := by
  induction edits using List.reverseRecOn with
  | nil => exact nofun
  | append_singleton edits last ih =>
    obtain ⟨hedits, _, hlast⟩ := List.pairwise_append.mp h
    intro edit hedit
    rw [← List.append_assoc, ofEdits_concat, mem_entries_iff, mem_register_iff]
    obtain hedit | hedit := List.mem_append.mp hedit
    · exact .inr ⟨mem_entries_iff.mp (ih hedits edit hedit), hlast edit hedit last List.mem_cons_self⟩
    · obtain rfl := List.mem_singleton.mp hedit
      exact .inl rfl

end SourceTree

namespace Listing

variable {extension : String}

/-- Units with different segments or different names never share a file, so that a tree
    keeps the files of all of them. Dots do not matter: a package has no segments where
    its dots have nothing between them, and a unit that is called like a dotted step has
    a file that is not. -/
theorem relativePath_tells_apart (hextension : IsExtension extension) :
    (∀ listing : Listing, listing.Placeable →
      (listing.relativePath extension).components =
        (Path.segments listing.packageName).map .name ++ [.name (listing.className ++ "." ++ extension)] ∧
      ∀ component ∈ (listing.relativePath extension).components, component ∉ [.root, .here, .up]) ∧
    (∀ a b : Listing, a.Placeable → b.Placeable →
      ((a.relativePath extension).components = (b.relativePath extension).components ↔
        Path.segments a.packageName = Path.segments b.packageName ∧ a.className = b.className)) ∧
    ∀ (earlier : List SourceTree.Edit) (files : List (Listing × WriteRules)),
      (∀ file ∈ files, file.1.Placeable) →
      files.Pairwise (fun a b => Path.segments a.1.packageName ≠ Path.segments b.1.packageName ∨
        a.1.className ≠ b.1.className) →
      ∀ file ∈ files, file.1.entry extension file.2 ∈ (SourceTree.ofEdits
        (earlier ++ files.map fun file => .registerListing file.1 extension file.2)).entries := by
  refine ⟨fun listing h => ?_, fun a b ha hb => components_relativePath_eq_iff ha hb hextension, ?_⟩
  · have hcomponents := components_relativePath h hextension
    refine ⟨hcomponents.trans List.map_append, fun component hcomponent => ?_⟩
    rw [hcomponents] at hcomponent
    obtain ⟨name, _, rfl⟩ := List.mem_map.mp hcomponent
    simp
  · intro earlier files hfiles hdistinct file hfile
    have hplaces : (files.map fun file => SourceTree.Edit.registerListing file.1 extension file.2).Pairwise
        fun a b => a.registered.path.components ≠ b.registered.path.components := by
      refine List.pairwise_map.mpr (hdistinct.imp_of_mem fun ha hb hne hsame => ?_)
      obtain ⟨hsegments, hname⟩ := (components_relativePath_eq_iff (hfiles _ ha) (hfiles _ hb) hextension).mp hsame
      exact hne.elim (· hsegments) (· hname)
    exact SourceTree.mem_ofEdits_append hplaces _ (List.mem_map_of_mem hfile)

/-- A class that is called like a step, in a package with dots in front, behind and between. -/
def dotted : CompilationUnit .classUnit :=
  .ofEdits ".com..acme." "." []

/-- A record in the package with the same segments. -/
def tag : CompilationUnit .recordUnit :=
  .ofEdits "com.acme" "Tag.v2" []

/-- The class is placed in the directory of its package under a plain name, apart
    from the record. -/
theorem relativePath_tells_apart_dotted : ∃ a b, dotted.listing {} = .ok a ∧ tag.listing {} = .ok b ∧
    (a.relativePath "java").components = [.name "com", .name "acme", .name "..java"] ∧
    (a.relativePath "java").components ≠ (b.relativePath "java").components ∧
    a.entry "java" {} ∈ (SourceTree.ofEdits [.registerListing a "java" {}, .registerListing b "java" {}]).entries := by
  have hjava : IsExtension "java" := ⟨by decide, by decide⟩
  obtain ⟨a, ha⟩ : ∃ a, dotted.listing {} = .ok a := ⟨_, rfl⟩
  obtain ⟨b, hb⟩ : ∃ b, tag.listing {} = .ok b := ⟨_, rfl⟩
  obtain ⟨_, hname, hpackage, _⟩ := names_of_listing ha
  obtain ⟨_, hname', hpackage', _⟩ := names_of_listing hb
  have hplaceable : a.Placeable := ⟨⟨_, _, _, ha⟩, by rw [hpackage]; decide +kernel, by rw [hname]; decide +kernel⟩
  have hplaceable' : b.Placeable := ⟨⟨_, _, _, hb⟩, by rw [hpackage']; decide +kernel, by rw [hname']; decide +kernel⟩
  have hne : a.className ≠ b.className := by
    rw [hname, hname']
    decide +kernel
  obtain ⟨hcomponents, hsame, hkept⟩ := relativePath_tells_apart hjava
  refine ⟨a, b, ha, hb, ?_, fun heq => hne ((hsame a b hplaceable hplaceable').mp heq).2, ?_⟩
  · rw [(hcomponents a hplaceable).1, hpackage, hname]
    decide +kernel
  · refine hkept [] [(a, {}), (b, {})] ?_ (List.pairwise_pair.mpr (.inr hne)) (a, {}) List.mem_cons_self
    exact List.forall_mem_cons.mpr ⟨hplaceable, List.forall_mem_singleton.mpr hplaceable'⟩

end Listing

end JavaSource
