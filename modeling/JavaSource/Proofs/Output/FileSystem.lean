import JavaSource.Output.FileSystem
import JavaSource.Proofs.Collections.Keyed

namespace JavaSource

/-- An operation that goes on after another one succeeds as a whole if both parts succeed. -/
theorem FileM.bind_eq_ok_iff {α β : Type} {operation : FileM α} {next : α → FileM β} {files after : FileSystem}
    {b : β} :
    (operation >>= next).run files = .ok b after ↔
      ∃ a middle, operation.run files = .ok a middle ∧ (next a).run middle = .ok b after := by
  rw [EStateM.run_bind]
  cases operation.run files with
  | ok a middle =>
    constructor
    · exact fun h => ⟨a, middle, rfl, h⟩
    · rintro ⟨_, _, ⟨⟩, h⟩
      exact h
  | error e middle => exact ⟨nofun, nofun⟩

/-- It fails if either part does. -/
theorem FileM.bind_eq_error_iff {α β : Type} {operation : FileM α} {next : α → FileM β} {files after : FileSystem}
    {e : FileError} :
    (operation >>= next).run files = .error e after ↔ operation.run files = .error e after ∨
      ∃ a middle, operation.run files = .ok a middle ∧ (next a).run middle = .error e after := by
  rw [EStateM.run_bind]
  cases operation.run files with
  | ok a middle =>
    constructor
    · exact fun h => .inr ⟨a, middle, rfl, h⟩
    · rintro (h | ⟨_, _, ⟨⟩, h⟩)
      · cases h
      · exact h
  | error e' middle =>
    constructor
    · exact fun h => .inl (by cases h; rfl)
    · rintro (h | ⟨_, _, h, _⟩)
      · cases h
        rfl
      · cases h

/-- What an operation leaves behind, whether it succeeds or fails. -/
def FileM.leaves {α : Type} (operation : FileM α) (files : FileSystem) : FileSystem :=
  match operation.run files with
  | .ok _ after => after
  | .error _ after => after

namespace FileSystem

variable {files before middle after : FileSystem} {place : List PathComponent} {path : Path} {content : String}

/-- A place has what was put there. -/
@[simp] theorem node?_setNode_self (files : FileSystem) (place : List PathComponent) (node : Node) :
    (files.setNode place node).node? place = some node :=
  Keyed.get?_set_self place node files.nodes

theorem node?_setNode_of_ne {place other : List PathComponent} (hne : other ≠ place) (files : FileSystem)
    (node : Node) : (files.setNode place node).node? other = files.node? other :=
  Keyed.get?_set_of_ne hne node files.nodes

/-- A file reads as before if its place is as before. -/
theorem read?_eq_of_node?_eq (h : after.node? path.components = before.node? path.components) :
    after.read? path = before.read? path := by
  rw [read?, read?, h]

/-- What can be found at a path is at its place. -/
theorem node?_ne_none_of_contains (h : files.contains path = true) : files.node? path.components ≠ none := by
  intro hnone
  rw [FileSystem.contains, hnone] at h
  cases h

theorem contains_eq_of_node?_eq (h : after.node? path.components = before.node? path.components) :
    after.contains path = before.contains path := by
  rw [FileSystem.contains, FileSystem.contains, h]

/-- Nothing has changed but that there are directories in places where nothing was. -/
def OnlyMakesDirectories (before after : FileSystem) : Prop :=
  ∀ place, after.node? place = before.node? place ∨
    before.node? place = none ∧ after.node? place = some .directory

namespace OnlyMakesDirectories

theorem refl (files : FileSystem) : OnlyMakesDirectories files files :=
  fun _ => .inl rfl

theorem trans (h : OnlyMakesDirectories before middle) (h' : OnlyMakesDirectories middle after) :
    OnlyMakesDirectories before after := by
  intro place
  obtain hsame | ⟨hnone, hmade⟩ := h' place
  · rw [hsame]
    exact h place
  · refine .inr ⟨?_, hmade⟩
    obtain hsame | ⟨_, hmade'⟩ := h place
    · rw [← hsame, hnone]
    · rw [hnone] at hmade'
      cases hmade'

/-- A directory may be made where nothing is. -/
theorem setNode (h : files.node? place = none) :
    OnlyMakesDirectories files (files.setNode place .directory) := by
  intro other
  by_cases hother : other = place
  · subst hother
    exact .inr ⟨h, node?_setNode_self files other .directory⟩
  · exact .inl (node?_setNode_of_ne hother files .directory)

/-- Making directories leaves what is there already. -/
theorem node?_eq (h : OnlyMakesDirectories before after) (hnode : before.node? place ≠ none) :
    after.node? place = before.node? place :=
  (h place).resolve_right fun hmade => hnode hmade.1

theorem read?_eq (h : OnlyMakesDirectories before after) (path : Path) : after.read? path = before.read? path := by
  obtain hsame | ⟨hnone, hmade⟩ := h path.components
  · exact read?_eq_of_node?_eq hsame
  · rw [read?, read?, hnone, hmade]

end OnlyMakesDirectories

/-- One step on the way: a directory is made if nothing is there, and a file is in the way. -/
theorem makeWay_cons_run (start : List PathComponent) (step : PathComponent) (steps : List PathComponent)
    (files : FileSystem) :
    (makeWay start (step :: steps)).run files =
      match files.node? (start ++ [step]) with
      | none => (makeWay (start ++ [step]) steps).run (files.setNode (start ++ [step]) .directory)
      | some .directory => (makeWay (start ++ [step]) steps).run files
      | some (.file _) => .error .notDirectory files := by
  rw [makeWay, EStateM.run_bind, EStateM.run_get]
  dsimp only
  cases files.node? (start ++ [step]) with
  | none => rfl
  | some node => cases node <;> rfl

/-- The way to a place leaves every file as it is, also where it ends at a file. -/
theorem onlyMakesDirectories_makeWay (start steps : List PathComponent) (files : FileSystem) :
    OnlyMakesDirectories files (FileM.leaves (makeWay start steps) files) := by
  induction steps generalizing start files with
  | nil => exact .refl files
  | cons step steps ih =>
    rw [FileM.leaves, makeWay_cons_run]
    cases hnode : files.node? (start ++ [step]) with
    | none => exact (OnlyMakesDirectories.setNode hnode).trans (ih (start ++ [step]) _)
    | some node =>
      cases node with
      | directory => exact ih (start ++ [step]) files
      | file content => exact .refl files

/-- What writing comes to once the way to the place is made. -/
theorem write_run (path : Path) (content : String) (files : FileSystem) :
    (write path content).run files =
      match (makeWay [] path.components.dropLast).run files with
      | .error e way => .error e way
      | .ok _ way =>
        if path.endsAsDirectory ∨ way.node? path.components = some .directory then .error .isDirectory way
        else .ok () (way.setNode path.components (.file content)) := by
  rw [write, EStateM.run_bind]
  cases (makeWay [] path.components.dropLast).run files with
  | error e way => rfl
  | ok _ way =>
    dsimp only
    cases path.endsAsDirectory with
    | true =>
      rw [if_pos (Or.inl rfl)]
      rfl
    | false =>
      rw [if_neg Bool.false_ne_true, EStateM.run_bind, EStateM.run_get]
      dsimp only
      cases way.node? path.components with
      | none => rfl
      | some node => cases node <;> rfl

/-- A write succeeds where a way to the place can be made, the path does not ask for a
    directory, and there is none. It puts the file there. -/
theorem write_eq_ok_iff : (write path content).run files = .ok () after ↔
    ∃ way, (makeWay [] path.components.dropLast).run files = .ok () way ∧
      path.endsAsDirectory = false ∧ way.node? path.components ≠ some .directory ∧
      after = way.setNode path.components (.file content) := by
  rw [write_run]
  cases (makeWay [] path.components.dropLast).run files with
  | error e way => exact ⟨nofun, nofun⟩
  | ok _ way =>
    dsimp only
    constructor
    · intro h
      split at h
      · cases h
      · next hfree =>
        obtain ⟨hends, hnode⟩ := not_or.mp hfree
        exact ⟨way, rfl, by simpa using hends, hnode, (EStateM.Result.ok.inj h).2.symm⟩
    · rintro ⟨_, ⟨⟩, hends, hnode, rfl⟩
      rw [hends, if_neg (not_or.mpr ⟨Bool.false_ne_true, hnode⟩)]

/-- A file that was written has its content. -/
theorem read?_of_write (h : (write path content).run files = .ok () after) : after.read? path = some content := by
  obtain ⟨way, _, hends, _, rfl⟩ := write_eq_ok_iff.mp h
  rw [read?, node?_setNode_self, hends]
  rfl

/-- Writing one file leaves the others as they are. -/
theorem read?_of_write_of_ne (h : (write path content).run files = .ok () after) {other : Path}
    (hne : other.components ≠ path.components) : after.read? other = files.read? other := by
  obtain ⟨way, hway, _, _, rfl⟩ := write_eq_ok_iff.mp h
  have hmade : OnlyMakesDirectories files way := by
    have hmade := onlyMakesDirectories_makeWay [] path.components.dropLast files
    rwa [FileM.leaves, hway] at hmade
  rw [read?_eq_of_node?_eq (node?_setNode_of_ne hne way _), hmade.read?_eq]

/-! Which places a write changes -/

/-- Nothing has changed but what these places hold, and that there are directories above
    them where nothing was. -/
def OnlyWrites (places : List (List PathComponent)) (before after : FileSystem) : Prop :=
  ∀ other ∉ places, after.node? other = before.node? other ∨
    before.node? other = none ∧ after.node? other = some .directory ∧ ∃ place ∈ places, other <+: place

namespace OnlyWrites

variable {places more : List (List PathComponent)}

theorem refl (files : FileSystem) : OnlyWrites [] files files :=
  fun _ _ => .inl rfl

theorem trans (h : OnlyWrites places before middle) (h' : OnlyWrites more middle after) :
    OnlyWrites (places ++ more) before after := by
  intro other hother
  obtain ⟨hplaces, hmore⟩ := not_or.mp (mt List.mem_append.mpr hother)
  obtain hsame | ⟨hnone, hmade, place, hplace, habove⟩ := h' other hmore
  · rw [hsame]
    refine (h other hplaces).imp_right ?_
    rintro ⟨hnone, hmade, place, hplace, habove⟩
    exact ⟨hnone, hmade, place, List.mem_append_left _ hplace, habove⟩
  · refine .inr ⟨?_, hmade, place, List.mem_append_right _ hplace, habove⟩
    obtain hsame | ⟨hnone', _⟩ := h other hplaces
    · rw [← hsame, hnone]
    · exact hnone'

/-- What was there stays, in every place that is not written. -/
theorem node?_eq_of_ne_none (h : OnlyWrites places before after) (hplace : place ∉ places)
    (hnode : before.node? place ≠ none) : after.node? place = before.node? place :=
  (h place hplace).resolve_right fun hmade => hnode hmade.1

/-- A place that is not above any place that is written does not change. -/
theorem node?_eq_outside (h : OnlyWrites places before after) (hplace : ∀ written ∈ places, ¬ place <+: written) :
    after.node? place = before.node? place := by
  have hnotMem : place ∉ places := fun hmem => hplace place hmem List.prefix_rfl
  refine (h place hnotMem).resolve_right ?_
  rintro ⟨_, _, written, hwritten, habove⟩
  exact hplace written hwritten habove

end OnlyWrites

/-- The way to a place changes nothing that is not on it. -/
theorem node?_leaves_makeWay {start steps other : List PathComponent} (h : ¬ other <+: start ++ steps)
    (files : FileSystem) : (FileM.leaves (makeWay start steps) files).node? other = files.node? other := by
  induction steps generalizing start files with
  | nil => rfl
  | cons step steps ih =>
    have hway : start ++ step :: steps = start ++ [step] ++ steps := List.append_cons start step steps
    have hrest : ¬ other <+: start ++ [step] ++ steps := by rwa [← hway]
    rw [FileM.leaves, makeWay_cons_run]
    cases files.node? (start ++ [step]) with
    | none =>
      have hne : other ≠ start ++ [step] := by
        rintro rfl
        exact hrest (List.prefix_append _ _)
      exact (ih hrest _).trans (node?_setNode_of_ne hne files .directory)
    | some node =>
      cases node with
      | directory => exact ih hrest files
      | file content => rfl

/-- Making the way to a place changes only what is above it, even if the way fails.
    -/
theorem onlyWrites_leaves_makeWay {steps : List PathComponent} (h : steps <+: place) (files : FileSystem) :
    OnlyWrites [place] files (FileM.leaves (makeWay [] steps) files) := by
  intro other _
  refine (onlyMakesDirectories_makeWay [] steps files other).imp_right fun ⟨hnone, hmade⟩ => ?_
  refine ⟨hnone, hmade, place, List.mem_singleton_self place, ?_⟩
  by_contra habove
  have hoff : ¬ other <+: [] ++ steps := fun hsteps => habove (hsteps.trans h)
  rw [node?_leaves_makeWay hoff, hnone] at hmade
  cases hmade

/-- Whether it succeeds or fails, a write changes its place only. -/
theorem onlyWrites_leaves_write (path : Path) (content : String) (files : FileSystem) :
    OnlyWrites [path.components] files (FileM.leaves (write path content) files) := by
  have hway := onlyWrites_leaves_makeWay (List.dropLast_prefix path.components) files
  rw [FileM.leaves] at hway ⊢
  rw [write_run]
  cases hrun : (makeWay [] path.components.dropLast).run files with
  | error e way => rwa [hrun] at hway
  | ok _ way =>
    rw [hrun] at hway
    dsimp only at hway ⊢
    split
    · next hafter =>
      split at hafter
      · cases hafter
      · obtain ⟨_, rfl⟩ := EStateM.Result.ok.inj hafter
        intro other hother
        rw [node?_setNode_of_ne (by simpa using hother)]
        exact hway other hother
    · next hafter =>
      split at hafter
      · obtain ⟨_, rfl⟩ := EStateM.Result.error.inj hafter
        exact hway
      · cases hafter

/-- A write that fails has come no further than the way to its place. -/
theorem eq_leaves_makeWay_of_write_eq_error {e : FileError} (h : (write path content).run files = .error e after) :
    after = FileM.leaves (makeWay [] path.components.dropLast) files := by
  rw [write_run] at h
  rw [FileM.leaves]
  cases hrun : (makeWay [] path.components.dropLast).run files with
  | error e' way =>
    rw [hrun] at h
    exact (EStateM.Result.error.inj h).2.symm
  | ok _ way =>
    rw [hrun] at h
    dsimp only at h ⊢
    split at h
    · exact (EStateM.Result.error.inj h).2.symm
    · cases h

/-- So it makes directories at most, all of them above its place. -/
theorem onlyMakesDirectories_of_write_eq_error {e : FileError} (h : (write path content).run files = .error e after) :
    OnlyMakesDirectories files after := by
  rw [eq_leaves_makeWay_of_write_eq_error h]
  exact onlyMakesDirectories_makeWay [] path.components.dropLast files

/-- A write that fails makes directories above its place at most. -/
theorem node?_of_write_eq_error {e : FileError} (h : (write path content).run files = .error e after)
    {other : List PathComponent} (hother : ¬ other <+: path.components.dropLast) :
    after.node? other = files.node? other := by
  rw [eq_leaves_makeWay_of_write_eq_error h]
  exact node?_leaves_makeWay hother files

/-! Writing once more -/

/-- There are directories all the way from one place to another. -/
def IsWay (files : FileSystem) (start steps : List PathComponent) : Prop :=
  ∀ front, front ≠ [] → front <+: steps → files.node? (start ++ front) = some .directory

/-- A way has a directory at its first step, and goes on from there. -/
theorem isWay_cons_iff {start steps : List PathComponent} {step : PathComponent} :
    files.IsWay start (step :: steps) ↔
      files.node? (start ++ [step]) = some .directory ∧ files.IsWay (start ++ [step]) steps := by
  constructor
  · intro h
    refine ⟨h [step] (List.cons_ne_nil _ _) ⟨steps, rfl⟩, fun front _ hfront => ?_⟩
    rw [← List.append_cons]
    exact h (step :: front) (List.cons_ne_nil _ _) (List.cons_prefix_cons.mpr ⟨rfl, hfront⟩)
  · rintro ⟨hfirst, hrest⟩ front hne hfront
    obtain ⟨first, front, rfl⟩ := List.exists_cons_of_ne_nil hne
    obtain ⟨rfl, hback⟩ := List.cons_prefix_cons.mp hfront
    by_cases hnil : front = []
    · rwa [hnil]
    · rw [List.append_cons]
      exact hrest front hnil hback

/-- Once a way has been made it is there. -/
theorem isWay_of_makeWay {start steps : List PathComponent} (h : (makeWay start steps).run files = .ok () after) :
    after.IsWay start steps := by
  induction steps generalizing start files with
  | nil => exact fun front hne hfront => absurd (List.prefix_nil.mp hfront) hne
  | cons step steps ih =>
    -- Making the rest of the way leaves the directory of the first step.
    have hkeeps : ∀ files : FileSystem, files.node? (start ++ [step]) = some .directory →
        (makeWay (start ++ [step]) steps).run files = .ok () after →
          after.node? (start ++ [step]) = some .directory := by
      intro files hnode hrun
      have hmade := onlyMakesDirectories_makeWay (start ++ [step]) steps files
      rw [FileM.leaves, hrun] at hmade
      obtain hsame | ⟨hnone, _⟩ := hmade (start ++ [step])
      · rw [hsame, hnode]
      · rw [hnode] at hnone
        cases hnone
    rw [makeWay_cons_run] at h
    cases hnode : files.node? (start ++ [step]) with
    | none =>
      rw [hnode] at h
      exact isWay_cons_iff.mpr ⟨hkeeps _ (node?_setNode_self files _ _) h, ih h⟩
    | some node =>
      rw [hnode] at h
      cases node with
      | directory => exact isWay_cons_iff.mpr ⟨hkeeps _ hnode h, ih h⟩
      | file content => cases h

/-- Where the way is there, none is made. -/
theorem makeWay_of_isWay {start steps : List PathComponent} (h : files.IsWay start steps) :
    (makeWay start steps).run files = .ok () files := by
  induction steps generalizing start with
  | nil => rfl
  | cons step steps ih =>
    obtain ⟨hfirst, hrest⟩ := isWay_cons_iff.mp h
    rw [makeWay_cons_run, hfirst]
    exact ih hrest

/-- A file with this content is at the path, and can be written there again. -/
structure Holds (files : FileSystem) (path : Path) (content : String) : Prop where
  node : files.node? path.components = some (.file content)
  file : path.endsAsDirectory = false
  way : files.IsWay [] path.components.dropLast

/-- A file that has been written is there, and its way. -/
theorem holds_of_write (h : (write path content).run files = .ok () after) : after.Holds path content := by
  obtain ⟨way, hway, hends, _, rfl⟩ := write_eq_ok_iff.mp h
  refine ⟨node?_setNode_self way _ _, hends, fun front hne hfront => ?_⟩
  have hshorter : [] ++ front ≠ path.components := by
    intro heq
    have hlength := hfront.length_le
    have hpos := List.length_pos_iff.mpr hne
    rw [List.length_dropLast, ← heq, List.nil_append] at hlength
    omega
  rw [node?_setNode_of_ne hshorter]
  exact isWay_of_makeWay hway front hne hfront

/-- A file is not changed by the content that it has. -/
theorem Holds.write_run (h : files.Holds path content) : (write path content).run files = .ok () files := by
  have hnode : files.node? path.components ≠ some .directory := by
    rw [h.node]
    exact nofun
  have hset : files = files.setNode path.components (.file content) :=
    congrArg FileSystem.mk (Keyed.set_of_get? h.node).symm
  exact write_eq_ok_iff.mpr ⟨files, makeWay_of_isWay h.way, h.file, hnode, hset⟩

/-- A file that is there is found. -/
theorem Holds.contains (h : files.Holds path content) : files.contains path = true := by
  rw [FileSystem.contains, h.node, h.file]
  rfl

/-- A file stays where it is as long as neither its place nor one above it is written. -/
theorem Holds.of_onlyWrites {places : List (List PathComponent)} (h : before.Holds path content)
    (hwrites : OnlyWrites places before after) (hplaces : ∀ place ∈ places, ¬ place <+: path.components) :
    after.Holds path content := by
  have hkept : ∀ place, place <+: path.components → before.node? place ≠ none →
      after.node? place = before.node? place :=
    fun place hprefix => hwrites.node?_eq_of_ne_none fun hmem => hplaces place hmem hprefix
  refine ⟨?_, h.file, fun front hne hfront => ?_⟩
  · rw [hkept _ List.prefix_rfl (by simp [h.node]), h.node]
  · have hdirectory : before.node? front = some .directory := h.way front hne hfront
    have hsame := hkept front (hfront.trans (List.dropLast_prefix _)) (by simp [hdirectory])
    exact hsame.trans hdirectory

end FileSystem

end JavaSource
