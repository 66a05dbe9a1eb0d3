import JavaSource.CompilationUnit.ImportNames
import JavaSource.Proofs.Collections.Ascending
import JavaSource.Proofs.Text.Trim
import Mathlib.Data.List.Induction

namespace JavaSource.ImportNames

open Ascending (Ascends)

/-- Adding a name adds its trimmed form, unless it is blank. -/
theorem mem_add_iff {imports : ImportNames} {name n : String} :
    n ∈ (imports.add name).names ↔ (isBlank name = false ∧ n = trimmed name) ∨ n ∈ imports.names := by
  by_cases hblank : isBlank name = true
  · simp [add, hblank]
  · simp [add, hblank, Ascending.mem_insert_iff]

/-- Adding a name keeps the names in order. -/
theorem ascends_add {imports : ImportNames} (h : Ascends compare imports.names) (name : String) :
    Ascends compare (imports.add name).names := by
  unfold add
  split
  · exact h
  · exact Ascending.ascends_insert h (trimmed name)

/-- Adding names adds the trimmed forms of those that are not blank. -/
theorem mem_addAll_iff {imports : ImportNames} {names : List String} {n : String} :
    n ∈ (imports.addAll names).names ↔
      (∃ name ∈ names, isBlank name = false ∧ n = trimmed name) ∨ n ∈ imports.names := by
  induction names generalizing imports with
  | nil => simp [addAll]
  | cons first names ih =>
    have hstep : imports.addAll (first :: names) = (imports.add first).addAll names := rfl
    rw [hstep, ih, mem_add_iff, List.exists_mem_cons_iff, ← or_assoc, or_comm (a := ∃ name ∈ names, _)]

theorem ascends_addAll {imports : ImportNames} (h : Ascends compare imports.names)
    (names : List String) : Ascends compare (imports.addAll names).names := by
  induction names generalizing imports with
  | nil => exact h
  | cons first names ih => exact ih (ascends_add h first)

/-- Only a blank text has nothing left once trimmed. -/
theorem trimmed_eq_empty_iff {s : String} : trimmed s = "" ↔ isBlank s = true := by
  rw [trimmed, isBlank, List.isEmpty_iff, ← String.ofList_nil, String.ofList_inj]

/-- The names that texts stand for. A blank text stands for none. -/
theorem exists_trimmed_iff {names : List String} {n : String} :
    (∃ name ∈ names, isBlank name = false ∧ n = trimmed name) ↔ n ≠ "" ∧ ∃ text ∈ names, trimmed text = n := by
  constructor
  · rintro ⟨name, hname, hblank, rfl⟩
    refine ⟨fun hempty => ?_, name, hname, rfl⟩
    rw [trimmed_eq_empty_iff.mp hempty] at hblank
    cases hblank
  · rintro ⟨hne, name, hname, rfl⟩
    exact ⟨name, hname, Bool.eq_false_iff.mpr (mt trimmed_eq_empty_iff.mpr hne), rfl⟩

/-- A step in putting a set of names together. -/
inductive Edit where
  | add (name : String)
  | addAll (names : List String)
  /-- The predicate is asked once about each name. -/
  | filter (keep : String → Bool)

namespace Edit

/-- The texts that are added, as they are given. -/
def texts : Edit → List String
  | .add name => [name]
  | .addAll names => names
  | .filter _ => []

/-- The edits that remove no name. -/
def IsAddition : Edit → Prop
  | .add _ | .addAll _ => True
  | .filter _ => False

/-- A text that is added is the name when it is trimmed. -/
def Adds (edit : Edit) (n : String) : Prop :=
  ∃ text ∈ edit.texts, trimmed text = n

/-- The name stays if it is in the set. -/
def Keeps (n : String) : Edit → Prop
  | .add _ | .addAll _ => True
  | .filter keep => keep n = true

/-- An addition keeps every name. -/
theorem keeps_of_isAddition {edit : Edit} (h : edit.IsAddition) (n : String) : edit.Keeps n := by
  cases edit with
  | add | addAll => trivial
  | filter => cases h

end Edit

def apply (imports : ImportNames) : Edit → ImportNames
  | .add name => imports.add name
  | .addAll names => imports.addAll names
  | .filter keep => imports.filter keep

/-- The set after the edits, in order. -/
def ofEdits (edits : List Edit) : ImportNames :=
  edits.foldl apply empty

theorem ofEdits_append (front back : List Edit) : ofEdits (front ++ back) = back.foldl apply (ofEdits front) :=
  List.foldl_append

variable {imports : ImportNames} {edit : Edit} {edits : List Edit} {n : String}

/-- Every addition adds its texts, whether it names one or many. -/
theorem apply_of_isAddition (h : edit.IsAddition) (imports : ImportNames) :
    imports.apply edit = imports.addAll edit.texts := by
  cases edit with
  | add | addAll => rfl
  | filter => cases h

theorem ascends_apply (h : Ascends compare imports.names) (edit : Edit) :
    Ascends compare (imports.apply edit).names := by
  cases edit with
  | add name => exact ascends_add h name
  | addAll names => exact ascends_addAll h names
  | filter keep => exact List.Pairwise.filter keep h

theorem ascends_foldl (h : Ascends compare imports.names) (edits : List Edit) :
    Ascends compare (edits.foldl apply imports).names := by
  induction edits generalizing imports with
  | nil => exact h
  | cons edit edits ih => exact ih (ascends_apply h edit)

/-- The names ascend after every run of edits. -/
theorem ascends_ofEdits (edits : List Edit) : Ascends compare (ofEdits edits).names :=
  ascends_foldl List.Pairwise.nil edits

/-- What a step leaves in the set: the names it adds, and those it keeps. -/
theorem mem_apply_iff : n ∈ (imports.apply edit).names ↔
    (n ≠ "" ∧ edit.Adds n) ∨ (n ∈ imports.names ∧ edit.Keeps n) := by
  by_cases hadd : edit.IsAddition
  · rw [apply_of_isAddition hadd, mem_addAll_iff, exists_trimmed_iff, and_iff_left (Edit.keeps_of_isAddition hadd n),
      Edit.Adds]
  · cases edit with
    | add | addAll => exact absurd trivial hadd
    | filter keep =>
      have hadds : ¬ (Edit.filter keep).Adds n := by
        rintro ⟨text, htext, _⟩
        cases htext
      rw [or_iff_right fun h => hadds h.2]
      exact List.mem_filter

/-- Some step adds the name, no step behind it adds it again, and all of those keep it. -/
def Present (edits : List Edit) (n : String) : Prop :=
  ∃ before edit after, edits = before ++ edit :: after ∧ edit.Adds n ∧
    (∀ later ∈ after, ¬ later.Adds n) ∧ ∀ later ∈ after, later.Keeps n

theorem not_present_nil : ¬ Present [] n := by
  rintro ⟨before, edit, after, h, _⟩
  simp at h

/-- One more edit adds a name, or keeps it if it was present. -/
theorem present_concat_iff : Present (edits ++ [edit]) n ↔ edit.Adds n ∨ (Present edits n ∧ edit.Keeps n) := by
  constructor
  · rintro ⟨before, last, after, h, hadds, hlater, hkeeps⟩
    obtain rfl | ⟨after, next, rfl⟩ := List.eq_nil_or_concat' after
    · obtain ⟨rfl, heq⟩ := List.append_inj' h rfl
      obtain rfl := List.singleton_inj.mp heq
      exact .inl hadds
    · rw [← List.cons_append, ← List.append_assoc] at h
      obtain ⟨rfl, heq⟩ := List.append_inj' h rfl
      obtain rfl := List.singleton_inj.mp heq
      rw [List.forall_mem_append, List.forall_mem_singleton] at hlater hkeeps
      exact .inr ⟨⟨before, last, after, rfl, hadds, hlater.1, hkeeps.1⟩, hkeeps.2⟩
  · intro h
    by_cases hadds : edit.Adds n
    · exact ⟨edits, edit, [], rfl, hadds, nofun, nofun⟩
    · obtain ⟨⟨before, last, after, rfl, hlast, hlater, hkeeps⟩, hkeep⟩ := h.resolve_left hadds
      refine ⟨before, last, after ++ [edit], by simp, hlast, ?_, ?_⟩
      · exact List.forall_mem_append.mpr ⟨hlater, List.forall_mem_singleton.mpr hadds⟩
      · exact List.forall_mem_append.mpr ⟨hkeeps, List.forall_mem_singleton.mpr hkeep⟩

/-- The names after a run of edits are exactly those present and not empty. -/
theorem mem_ofEdits_iff : n ∈ (ofEdits edits).names ↔ n ≠ "" ∧ Present edits n := by
  induction edits using List.reverseRecOn with
  | nil => exact iff_of_false List.not_mem_nil fun h => not_present_nil h.2
  | append_singleton edits edit ih =>
    have hstep : ofEdits (edits ++ [edit]) = (ofEdits edits).apply edit := ofEdits_append edits [edit]
    rw [hstep, mem_apply_iff, ih, present_concat_iff, and_assoc, ← and_or_left]

/-- A name that is present has no blanks around it. -/
theorem trimmed_of_present (h : Present edits n) : trimmed n = n := by
  obtain ⟨_, _, _, _, ⟨text, _, rfl⟩, _⟩ := h
  rw [trimmed, trimmed, String.toList_ofList, Text.trim_trim]

/-- Additions one after the other are one addition of all their texts. -/
theorem foldl_apply_of_isAddition (h : ∀ edit ∈ edits, edit.IsAddition) (imports : ImportNames) :
    edits.foldl apply imports = imports.addAll (edits.flatMap Edit.texts) := by
  induction edits generalizing imports with
  | nil => rfl
  | cons edit edits ih =>
    obtain ⟨hedit, hedits⟩ := List.forall_mem_cons.mp h
    rw [List.foldl_cons, apply_of_isAddition hedit, ih hedits, List.flatMap_cons, addAll, addAll, addAll,
      List.foldl_append]

/-- The order in which texts are added is not seen, since the names are in order. -/
theorem addAll_perm (h : Ascends compare imports.names) {first second : List String} (hperm : first.Perm second) :
    imports.addAll first = imports.addAll second := by
  have hnames : (imports.addAll first).names = (imports.addAll second).names := by
    refine (ascends_addAll h first).eq_of_mem_iff (ascends_addAll h second) fun n => ?_
    simp only [mem_addAll_iff, hperm.mem_iff]
  exact congrArg mk hnames

/-- A set of names after any run of steps: what is in it, that it is in order, and that
    additions with nothing taken out between them may come in any order and in any batches. -/
theorem ofEdits_exact :
    (∀ edits : List Edit, let imports := ofEdits edits
      imports.names.Pairwise (· < ·) ∧ (∀ n ∈ imports.names, trimmed n = n ∧ isBlank n = false) ∧
      (∀ n, n ∈ imports.names ↔ n ≠ "" ∧ Present edits n) ∧
      (∀ n, imports.contains n = true ↔ n ∈ imports.names) ∧
      imports.size = imports.names.length ∧ (imports.isEmpty = true ↔ imports.names = [])) ∧
    ∀ before first second after : List Edit, (∀ edit ∈ first, edit.IsAddition) → (∀ edit ∈ second, edit.IsAddition) →
      (first.flatMap Edit.texts).Perm (second.flatMap Edit.texts) →
      ofEdits (before ++ first ++ after) = ofEdits (before ++ second ++ after) := by
  refine ⟨fun edits => ⟨?_, ?_, fun _ => mem_ofEdits_iff, fun _ => List.contains_iff_mem, rfl, List.isEmpty_iff⟩, ?_⟩
  · exact (ascends_ofEdits edits).imp compareOfLessAndEq_eq_lt.mp
  · intro n hn
    obtain ⟨hne, hpresent⟩ := mem_ofEdits_iff.mp hn
    have htrimmed := trimmed_of_present hpresent
    refine ⟨htrimmed, Bool.eq_false_iff.mpr fun hblank => hne ?_⟩
    rw [← htrimmed, trimmed_eq_empty_iff.mpr hblank]
  · intro before first second after hfirst hsecond hperm
    rw [ofEdits_append, ofEdits_append, ofEdits_append, ofEdits_append, foldl_apply_of_isAddition hfirst,
      foldl_apply_of_isAddition hsecond, addAll_perm (ascends_ofEdits before) hperm]

/-- Between other steps the names come in another order and in other batches, with a blank
    text among them. -/
theorem ofEdits_exact_rearranged :
    ofEdits [.add "c.C", .addAll ["b.B ", " "], .add "a.A", .filter (· ≠ "a.A")] =
      ofEdits [.add "c.C", .add "a.A", .addAll [" ", "b.B "], .filter (· ≠ "a.A")] := by
  obtain ⟨_, hrearranged⟩ := ofEdits_exact
  have hfirst : ∀ edit ∈ [Edit.addAll ["b.B ", " "], .add "a.A"], edit.IsAddition := by simp [Edit.IsAddition]
  have hsecond : ∀ edit ∈ [Edit.add "a.A", .addAll [" ", "b.B "]], edit.IsAddition := by simp [Edit.IsAddition]
  exact hrearranged [.add "c.C"] _ _ [.filter (· ≠ "a.A")] hfirst hsecond (by decide)

end JavaSource.ImportNames
