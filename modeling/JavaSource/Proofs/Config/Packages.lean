import JavaSource.Config.Settings
import JavaSource.Proofs.Collections.Keyed
import JavaSource.Proofs.TypeRef.Places

namespace JavaSource

/-- The packages of a table with more entries are the old ones with these written
    over them. -/
theorem WellKnown.packages_insertAll (table : WellKnown) (entries : List (String × String)) :
    (table.insertAll entries).packages = Keyed.setAll entries table.packages := by
  induction entries generalizing table with
  | nil => rfl
  | cons entry entries ih => exact ih (table.insert entry.1 entry.2)

/-- The package that a table with further entries has for a name: that of the entry, if there
    is one, and otherwise the one that it had before. -/
theorem WellKnown.package?_insertAll {entries : List (String × String)}
    (h : (entries.map Prod.fst).Nodup) (table : WellKnown) (name : String) :
    (table.insertAll entries).package? name = (Keyed.get? name entries).or (table.package? name) := by
  rw [package?, packages_insertAll, Keyed.get?_setAll h, package?]

namespace Settings

/-- No name is configured twice, as it is in the settings of every document. -/
def DistinctNames (settings : Settings) : Prop :=
  (settings.wellKnown.map Prod.fst).Nodup

/-- An entry is read only under a name that has none yet. -/
theorem DistinctNames.addEntry {settings settings' : Settings} {name package : String}
    (hnames : settings.DistinctNames) (h : settings.addEntry name package = some settings') :
    settings'.DistinctNames := by
  unfold Settings.addEntry at h
  cases hget : Keyed.get? name settings.wellKnown with
  | some _ =>
    rw [hget] at h
    cases h
  | none =>
    rw [hget] at h
    obtain rfl := Option.some.inj h
    rw [DistinctNames, List.map_append, List.map_singleton, ← List.concat_eq_append]
    exact hnames.concat (Keyed.get?_eq_none_iff.mp hget)

theorem DistinctNames.addEntries {settings settings' : Settings} {entries : List (List String × String)}
    (hnames : settings.DistinctNames) (h : settings.addEntries entries = some settings') :
    settings'.DistinctNames := by
  induction entries generalizing settings with
  | nil =>
    obtain rfl := Option.some.inj h
    exact hnames
  | cons entry entries ih =>
    obtain ⟨path, package⟩ := entry
    match path, h with
    | [name], h =>
      obtain ⟨middle, hfirst, hrest⟩ := Option.bind_eq_some_iff.mp h
      exact ih (hnames.addEntry hfirst) hrest
    | [], h => cases h
    | _ :: _ :: _, h => cases h

/-- An assignment, to the whole table or to one name in it, configures no name twice. -/
theorem DistinctNames.assign {settings settings' : Settings} {path : List String} {value : Toml.Value}
    (hnames : settings.DistinctNames) (h : settings.assign path value = some settings') :
    settings'.DistinctNames := by
  unfold Settings.assign at h
  split at h
  -- The indentation and the extension leave the table alone.
  case h_1 =>
    split at h
    · cases h
    · obtain ⟨indent, _, hindent⟩ := Option.bind_eq_some_iff.mp h
      obtain rfl := Option.some.inj hindent
      exact hnames
  case h_2 =>
    split at h
    · cases h
    · obtain rfl := Option.some.inj h
      exact hnames
  -- A whole table, or the value of one name in it.
  case h_3 =>
    have hopened : { settings with tableForm := .complete }.DistinctNames := hnames
    split_ifs at h
    · cases h
    · cases value with
      | table entries => exact hopened.addEntries h
      | dateTime text => exact hopened.addEntry h
      | string _ => cases h
      | integer _ => cases h
  case h_4 =>
    have hopened : { settings with tableForm := .dotted }.DistinctNames := hnames
    split at h
    · cases h
    · exact hopened.addEntry h
  case h_5 => cases h

/-- No statement configures a name that is configured already. -/
theorem DistinctNames.read {settings settings' : Settings} {statement : Toml.Statement}
    (hnames : settings.DistinctNames) (h : settings.read statement = some settings') :
    settings'.DistinctNames := by
  unfold Settings.read at h
  split at h
  case h_1 =>
    split at h
    · obtain rfl := Option.some.inj h
      exact hnames
    · cases h
  case h_2 =>
    split_ifs at h
    · split at h
      · exact hnames.addEntry h
      · cases h
    · exact hnames.assign h

theorem DistinctNames.readAll {statements : List Toml.Statement} {settings settings' : Settings}
    (hnames : settings.DistinctNames) (h : statements.foldlM Settings.read settings = some settings') :
    settings'.DistinctNames := by
  induction statements generalizing settings with
  | nil =>
    obtain rfl := Option.some.inj h
    exact hnames
  | cons statement statements ih =>
    obtain ⟨middle, hfirst, hrest⟩ := Option.bind_eq_some_iff.mp h
    exact ih (hnames.read hfirst) hrest

/-- A document that configures a name twice is refused. -/
theorem distinctNames_of_document {source : String} {settings : Settings}
    (h : ofDocument? source = some settings) : settings.DistinctNames := by
  obtain ⟨statements, _, hread⟩ := Option.bind_eq_some_iff.mp h
  have hstart : ({} : Settings).DistinctNames := List.nodup_nil
  exact hstart.readAll hread

/-- The package of a name: the configured one, or else the standard one, or else none. -/
def packageOf (settings : Settings) (name : String) : String :=
  ((Keyed.get? name settings.wellKnown).or (WellKnown.standard.package? name)).getD ""

/-- The configuration made from settings has a name in the package that the settings
    give it. -/
theorem packageOf_config {settings : Settings} (hnames : settings.DistinctNames) :
    settings.config.wellKnown.packageOf = settings.packageOf := by
  funext name
  exact congrArg (·.getD "") (WellKnown.package?_insertAll hnames .standard name)

open TypeRef in
/-- The names of a type are resolved through the configuration at every depth. Each type
    inside has a place, under whatever slots and bounds. There the package that is given with
    the whole type counts, which only the outermost name has, then the one that is spelled out
    in front of the name, and then what the configuration has for the name. -/
theorem configured_packages {settings : Settings} (hnames : settings.DistinctNames) {package raw : String}
    {t : TypeRef} (h : parse settings.config.wellKnown package raw = .ok t) :
    (∀ node, node.OccursIn t → ∃ origin, PlacedIn origin node (.ofText package.toList raw.toList) t) ∧
    (∀ p n slots, t = .declared p n slots → ¬ Text.Blank package.toList →
      p = String.ofList (Text.trim package.toList)) ∧
    ∀ origin p n slots, PlacedIn origin (.declared p n slots) (.ofText package.toList raw.toList) t →
      Packaged settings.packageOf origin.package origin.name p n := by
  have hresolved := resolvedFrom_of_parse h
  have hpackaged : ∀ origin p n slots,
      PlacedIn origin (.declared p n slots) (.ofText package.toList raw.toList) t →
        Packaged settings.packageOf origin.package origin.name p n := by
    intro origin p n slots hplaced
    rw [← packageOf_config hnames]
    exact (hresolved.resolves origin p n slots hplaced).packaged
  refine ⟨hresolved.placed, ?_, hpackaged⟩
  rintro p n slots rfl
  exact (hpackaged _ p n slots .self).given

/-- The settings of a shop that has identifiers of its own. -/
def shopDocument : String :=
  "indent = 2\n\n[well_known]\nUUID = \"com.acme.ids\"\n"

/-- The type that the shop has for identifiers. -/
def shopId : TypeRef :=
  .declared "com.acme.ids" "UUID" []

open TypeRef in
/-- The price is in the package it was read for, and its argument in the configured
    one. -/
theorem configured_packages_shop : ∃ settings, ofDocument? shopDocument = some settings ∧
    parse settings.config.wellKnown " com.acme " "Price<? super UUID>" =
      .ok (.declared "com.acme" "Price" [("T", .wildcard .super shopId)]) ∧
    "com.acme" = String.ofList (Text.trim " com.acme ".toList) ∧
    "com.acme.ids" = settings.packageOf "UUID" := by
  have hdocument : (ofDocument? shopDocument).map (·.wellKnown) = some [("UUID", "com.acme.ids")] := by
    decide +kernel
  obtain ⟨settings, hsettings, hnames⟩ := Option.map_eq_some_iff.mp hdocument
  have htable : settings.config.wellKnown = WellKnown.standard.insertAll [("UUID", "com.acme.ids")] := by
    rw [config, hnames]
  have hparse : parse settings.config.wellKnown " com.acme " "Price<? super UUID>" =
      .ok (.declared "com.acme" "Price" [("T", .wildcard .super shopId)]) := by
    rw [htable]
    exact toOption_eq_some_iff.mp (by decide +kernel)
  obtain ⟨_, houter, hpackaged⟩ := configured_packages (distinctNames_of_document hsettings) hparse
  have hid : PlacedIn (.ofText [] "UUID".toList) shopId (.ofText " com.acme ".toList "Price<? super UUID>".toList)
      (.declared "com.acme" "Price" [("T", .wildcard .super shopId)]) := by
    have hslots : (Origin.ofText " com.acme ".toList "Price<? super UUID>".toList).slots =
        [some "? super UUID".toList] := by decide +kernel
    have hslot : (some "? super UUID".toList, "T", TypeArg.wildcard .super shopId) ∈
        (Origin.ofText " com.acme ".toList "Price<? super UUID>".toList).slots.zip
          [("T", .wildcard .super shopId)] := by
      rw [hslots]
      exact List.mem_cons_self
    exact .argument hslot rfl .self
  refine ⟨settings, hsettings, hparse, houter _ _ _ rfl ?_, ?_⟩
  · rw [← Text.trim_eq_nil_iff]
    decide
  · exact (hpackaged _ _ _ _ hid).eq_lookup .nil (by decide +kernel)

end Settings

end JavaSource
