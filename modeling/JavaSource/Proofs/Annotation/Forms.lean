import JavaSource.Proofs.Annotation.History
import JavaSource.Proofs.Collections.History

namespace JavaSource.Annotation

/-- The lines of the attributes, with a comma behind all but the last of them. -/
def lineTexts (attributes : List (String × AttributeValue)) : List String :=
  attributes.mapIdx fun i entry => pair entry ++ if i + 1 < attributes.length then "," else ""

theorem lineTexts_singleton (entry : String × AttributeValue) : lineTexts [entry] = [pair entry] := by
  simp [lineTexts]

/-- Every attribute with another behind it has a comma. -/
theorem lineTexts_cons_cons (entry next : String × AttributeValue) (rest : List (String × AttributeValue)) :
    lineTexts (entry :: next :: rest) = (pair entry ++ ",") :: lineTexts (next :: rest) := by
  simp [lineTexts, List.mapIdx_cons]

/-- The lines of a block are the texts with their commas, each a line of its own. -/
theorem pairLines_eq_map : ∀ attributes : List (String × AttributeValue),
    pairLines attributes = (lineTexts attributes).map .line
  | [] => rfl
  | [entry] => by rw [pairLines, lineTexts_singleton, List.map_singleton]
  | entry :: next :: rest => by
    rw [pairLines, pairLines_eq_map (next :: rest), lineTexts_cons_cons, List.map_cons]

/-- The comma at the end of a line and the space between two lines make up what stands
    between two attributes on one line. -/
theorem intercalate_lineTexts : ∀ attributes : List (String × AttributeValue),
    " ".intercalate (lineTexts attributes) = ", ".intercalate (attributes.map pair)
  | [] => rfl
  | [entry] => by
    rw [lineTexts_singleton, List.map_singleton, String.intercalate_singleton, String.intercalate_singleton]
  | entry :: next :: rest => by
    have hlines : lineTexts (next :: rest) ≠ [] := by simp [lineTexts]
    have hpairs : (next :: rest).map pair ≠ [] := by simp
    have hseparator (rest : String) : "," ++ (" " ++ rest) = ", " ++ rest := by
      rw [← String.append_assoc]
      rfl
    rw [lineTexts_cons_cons, List.map_cons, String.intercalate_cons_of_ne_nil hlines,
      String.intercalate_cons_of_ne_nil hpairs, intercalate_lineTexts (next :: rest)]
    simp only [String.append_assoc, hseparator]

variable {a : Annotation}

/-- An annotation without attributes is a single line. -/
theorem fragments_of_nil (h : a.attributes = []) : a.fragments = [.line a.inlineText] := by
  rw [fragments, inlineText, h]
  rfl

/-- The lines of an annotation with attributes, and the text that they make up when they
    are joined. -/
theorem fragments_of_ne_nil (h : a.attributes ≠ []) :
    a.fragments = [.block (a.name ++ "(") ((lineTexts a.attributes).map .line) (some ")")] ∧
      a.name ++ "(" ++ " ".intercalate (lineTexts a.attributes) ++ ")" = a.inlineText := by
  have hempty : ¬ a.attributes.isEmpty = true := fun hnil => h (List.isEmpty_iff.mp hnil)
  rw [fragments, inlineText, if_neg hempty, if_neg hempty, pairLines_eq_map, intercalate_lineTexts]
  exact ⟨rfl, rfl⟩

namespace Draft

variable {edits : List Edit}

/-- A run of edits leaves the draft that its history describes. -/
theorem ofEdits_eq_draft (edits : List Edit) : ofEdits edits = (History.ofEdits edits).draft :=
  foldl_eq_of_concat rfl History.draft_concat edits

/-- A built annotation has the latest value of every name the edits assigned. -/
theorem attributes_of_build (h : (ofEdits edits).build = .ok a) :
    a.attributes = Keyed.latest (edits.filterMap Edit.assignment?) := by
  rw [ofEdits_eq_draft, build] at h
  split at h
  · cases h
  · obtain rfl := Except.ok.inj h
    rfl

end Draft

theorem length_lineTexts (attributes : List (String × AttributeValue)) :
    (lineTexts attributes).length = attributes.length :=
  List.length_mapIdx

/-- The line of a name has the value that the name is given last. -/
theorem getElem?_lineTexts_latest {assignments : List (String × AttributeValue)} {i : Nat} {name : String}
    (h : (assignments.map Prod.fst).eraseDups[i]? = some name) :
    ∃ value, (assignments.filter fun entry => entry.1 = name).getLast? = some (name, value) ∧
      (lineTexts (Keyed.latest assignments))[i]? = some (name ++ " = " ++ value.literal ++
        if i + 1 < (assignments.map Prod.fst).eraseDups.length then "," else "") := by
  rw [← Keyed.keys_latest] at h ⊢
  obtain ⟨⟨_, value⟩, hentry, rfl⟩ := Option.map_eq_some_iff.mp (List.getElem?_map ▸ h)
  refine ⟨value, Keyed.getLast?_of_mem_latest (List.mem_of_getElem? hentry), ?_⟩
  rw [lineTexts, List.getElem?_mapIdx, hentry, List.length_map]
  rfl

/-- The two forms of an annotation have the same text, however it was put together. On lines
    of its own each name that was set has one line, where it was set first and with what it
    was set to last, and only the last line does without a comma. -/
theorem forms_agree {edits : List Edit} (h : (Draft.ofEdits edits).build = .ok a) :
    let assignments := edits.filterMap Edit.assignment?
    let names := (assignments.map Prod.fst).eraseDups
    a.attributes.map Prod.fst = names ∧
    (a.attributes = [] → a.fragments = [.line a.inlineText]) ∧
    (a.attributes ≠ [] → ∃ lines : List String,
      a.fragments = [.block (a.name ++ "(") (lines.map .line) (some ")")] ∧
      a.name ++ "(" ++ " ".intercalate lines ++ ")" = a.inlineText ∧
      lines.length = names.length ∧
      ∀ (i : Nat) name, names[i]? = some name → ∃ value,
        (assignments.filter fun entry => entry.1 = name).getLast? = some (name, value) ∧
        lines[i]? = some (name ++ " = " ++ value.literal ++ if i + 1 < names.length then "," else "")) := by
  intro assignments names
  have hattributes : a.attributes = Keyed.latest assignments := Draft.attributes_of_build h
  have hnames : a.attributes.map Prod.fst = names := by rw [hattributes, Keyed.keys_latest]
  refine ⟨hnames, fragments_of_nil, fun hne => ?_⟩
  obtain ⟨hfragments, hinline⟩ := fragments_of_ne_nil hne
  refine ⟨lineTexts a.attributes, hfragments, hinline, ?_, fun i name hname => ?_⟩
  · rw [length_lineTexts, ← hnames, List.length_map]
  · rw [hattributes]
    exact getElem?_lineTexts_latest hname

/-- The bounds of a size, of which the lower one is set twice. -/
def boundsEdits : List Edit :=
  [.assign "min" (.integer 1), .classType (.native "Size"), .assign "max" (.integer 8), .assign "min" (.integer 2)]

/-- The annotation that those edits describe. -/
def bounds : Annotation :=
  ⟨.native "Size", [("min", .integer 2), ("max", .integer 8)]⟩

/-- The lower bound keeps its first place, with its last value. -/
theorem forms_agree_bounds : (Draft.ofEdits boundsEdits).build = .ok bounds ∧ ∃ lines : List String,
    bounds.fragments = [.block "@Size(" (lines.map .line) (some ")")] ∧
      "@Size(" ++ " ".intercalate lines ++ ")" = bounds.inlineText ∧ lines.length = 2 := by
  have hbuild : (Draft.ofEdits boundsEdits).build = .ok bounds := rfl
  obtain ⟨_, _, hlines⟩ := forms_agree hbuild
  obtain ⟨lines, hfragments, hinline, hlength, _⟩ := hlines nofun
  exact ⟨hbuild, lines, hfragments, hinline, hlength⟩

end JavaSource.Annotation
