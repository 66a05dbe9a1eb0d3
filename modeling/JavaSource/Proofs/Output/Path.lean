import JavaSource.Output.Path
import JavaSource.Proofs.Text.Pieces
import Mathlib.Order.Basic

namespace JavaSource

namespace PathComponent

/-- The kinds of components in their order. -/
def rank : PathComponent → Nat
  | root => 0
  | here => 1
  | up => 2
  | name _ => 3

/-- Components are compared by their kinds, and names by their texts. -/
theorem cmp_eq_compareLex : cmp = compareLex (compareOn rank) (compareOn text) := by
  funext a b
  cases a <;> cases b <;> rfl

instance : Std.TransCmp cmp := by
  rw [cmp_eq_compareLex]
  infer_instance

instance : Std.LawfulEqCmp cmp where
  compare_self {a} := by cases a <;> simp [cmp]
  eq_of_compare {a b} h := by cases a <;> cases b <;> simp_all [cmp]

end PathComponent

namespace Path

variable {base path : Path}

private abbrev compareComponents : List PathComponent → List PathComponent → Ordering :=
  List.compareLex PathComponent.cmp

instance : Std.TransCmp cmp where
  eq_swap {a b} := @Std.OrientedCmp.eq_swap _ compareComponents _ a.components b.components
  isLE_trans {a b c} := @Std.TransCmp.isLE_trans _ compareComponents _ a.components b.components c.components

/-- Paths are told apart by their components only. -/
theorem cmp_eq_iff {a b : Path} : a.cmp b = .eq ↔ a.components = b.components :=
  @Std.LawfulEqCmp.compare_eq_iff_eq _ compareComponents _ _ _

private theorem compareComponents_ne_gt_of_prefix {first second : List PathComponent} (h : first <+: second) :
    compareComponents first second ≠ .gt := by
  obtain ⟨rest, rfl⟩ := h
  induction first with
  | nil => cases rest <;> exact nofun
  | cons component first ih =>
    have hself : component.cmp component = .eq := Std.ReflCmp.compare_self
    rw [List.cons_append, compareComponents, List.compareLex_cons_cons, hself]
    exact ih

/-- A path precedes everything below it. -/
theorem not_prefix_of_cmp_eq_lt {a b : Path} (h : a.cmp b = .lt) : ¬ b.components <+: a.components :=
  fun hprefix => compareComponents_ne_gt_of_prefix hprefix (@Std.OrientedCmp.gt_of_lt _ cmp _ a b h)

/-- What a path begins with: the root, or a dot for the current directory, or nothing. -/
def start (path : Path) : List PathComponent :=
  if path.isAbsolute then [.root]
  else if (Text.pieces '/' path.text.toList).head? = some ['.'] then [.here]
  else []

/-- The steps that a path takes from where it begins. -/
def steps (path : Path) : List PathComponent :=
  (Text.pieces '/' path.text.toList).filterMap PathComponent.ofPiece

private theorem isAbsolute_iff : path.isAbsolute = true ↔ ∃ rest, path.text.toList = '/' :: rest := by
  rw [isAbsolute, beq_iff_eq]
  exact List.head?_eq_some_iff

/-- The components of a path are what it begins with and the steps from there. -/
theorem components_eq (path : Path) : path.components = path.start ++ path.steps := by
  obtain ⟨first, rest, hpieces⟩ := List.exists_cons_of_ne_nil (Text.pieces_ne_nil '/' path.text.toList)
  rw [components, start, steps, hpieces, List.head?_cons]
  dsimp only
  by_cases habsolute : path.isAbsolute = true
  · -- Nothing stands in front of the slash that an absolute path begins with.
    obtain ⟨text, htext⟩ := isAbsolute_iff.mp habsolute
    rw [htext, Text.pieces, if_pos rfl] at hpieces
    obtain ⟨rfl, _⟩ := List.cons.inj hpieces
    rw [if_pos habsolute, if_pos habsolute]
    rfl
  · rw [if_neg habsolute, if_neg habsolute]
    by_cases hdot : first = ['.']
    · subst hdot
      rfl
    · rw [if_neg hdot, if_neg (by simpa using hdot), List.filterMap_cons]
      cases PathComponent.ofPiece first <;> rfl

/-- A relative path begins with nothing, or with a dot. -/
theorem start_of_relative (h : path.isAbsolute = false) : path.start = [] ∨ path.start = [.here] := by
  rw [start, h]
  split
  · contradiction
  · split
    · exact .inr rfl
    · exact .inl rfl

/-- No path begins with a step up. Such a step is one of those it takes. -/
theorem up_notMem_start (path : Path) : .up ∉ path.start := by
  unfold start
  split
  · decide
  · split <;> decide

/-! Joining -/

/-- An absolute path takes the place of the base it is joined to. -/
theorem join_of_isAbsolute (h : path.isAbsolute = true) (base : Path) : base.join path = path := by
  rw [join, if_pos h]

theorem join_of_isEmpty (hbase : base.text = "") (path : Path) : base.join path = path := by
  rw [join, hbase]
  split
  · rfl
  · simp

/-- The text of a relative path comes behind the base and a slash, which may be there already. -/
private theorem exists_text_join (hbase : base.text ≠ "") (hpath : path.isAbsolute = false) :
    ∃ front, (base.join path).text.toList = front ++ '/' :: path.text.toList ∧
      (base.text.toList = front ∨ base.text.toList = front ++ ['/']) := by
  have hempty : base.text.isEmpty = false := by simpa using hbase
  rw [join, hpath, hempty, Bool.false_or]
  by_cases hslash : base.text.toList.getLast? = some '/'
  · obtain ⟨front, hfront⟩ := List.getLast?_eq_some_iff.mp hslash
    refine ⟨front, ?_, .inr hfront⟩
    rw [if_neg Bool.false_ne_true, if_pos (beq_iff_eq.mpr hslash), String.toList_append, hfront, List.append_assoc]
    rfl
  · refine ⟨base.text.toList, ?_, .inl rfl⟩
    rw [if_neg Bool.false_ne_true, if_neg (by simpa using hslash)]
    simp

/-- A relative path continues the steps of the base. -/
theorem steps_join (base : Path) (hpath : path.isAbsolute = false) :
    (base.join path).steps = base.steps ++ path.steps := by
  by_cases hbase : base.text = ""
  · rw [join_of_isEmpty hbase, steps, steps, hbase]
    rfl
  · obtain ⟨front, hjoin, hfront⟩ := exists_text_join hbase hpath
    have hsteps : base.steps = (Text.pieces '/' front).filterMap PathComponent.ofPiece := by
      obtain hfront | hfront := hfront
      · rw [steps, hfront]
      · rw [steps, hfront, Text.pieces_append_separator, List.filterMap_append]
        exact List.append_nil _
    rw [steps, hjoin, Text.pieces_append_separator, List.filterMap_append, hsteps]
    rfl

/-- What a relative path is joined to is where the result begins. -/
private theorem start_join (hbase : base.text ≠ "") (hpath : path.isAbsolute = false) :
    (base.join path).isAbsolute = base.isAbsolute ∧ (base.join path).start = base.start := by
  obtain ⟨front, hjoin, hfront⟩ := exists_text_join hbase hpath
  have habsolute : (base.join path).isAbsolute = base.isAbsolute := by
    rw [isAbsolute, isAbsolute, hjoin]
    obtain hfront | hfront := hfront
    · have hne : front ≠ [] := by
        rw [← hfront]
        simpa using hbase
      rw [hfront, List.head?_append_of_ne_nil _ hne]
    · rw [hfront]
      cases front <;> rfl
  have hhead : (Text.pieces '/' (base.join path).text.toList).head? = (Text.pieces '/' base.text.toList).head? := by
    have hpieces := Text.pieces_ne_nil '/' front
    rw [hjoin, Text.pieces_append_separator, List.head?_append_of_ne_nil _ hpieces]
    obtain hfront | hfront := hfront
    · rw [hfront]
    · rw [hfront, Text.pieces_append_separator, List.head?_append_of_ne_nil _ hpieces]
  refine ⟨habsolute, ?_⟩
  rw [start, start, habsolute, hhead]

/-- A joined path is absolute if either of its parts is. -/
@[simp] theorem isAbsolute_join (base path : Path) :
    (base.join path).isAbsolute = (path.isAbsolute || base.isAbsolute) := by
  cases hpath : path.isAbsolute with
  | true => rw [join_of_isAbsolute hpath, hpath, Bool.true_or]
  | false =>
    rw [Bool.false_or]
    by_cases hbase : base.text = ""
    · have hrelative : base.isAbsolute = false := by rw [isAbsolute, hbase]; rfl
      rw [join_of_isEmpty hbase, hpath, hrelative]
    · exact (start_join hbase hpath).1

/-- A relative path is reached from a base by its steps. A dot in front of it is not
    among them, so it is lost. -/
theorem components_join (hbase : base.text ≠ "") (hpath : path.isAbsolute = false) :
    (base.join path).components = base.components ++ path.steps := by
  rw [components_eq, steps_join base hpath, (start_join hbase hpath).2, ← List.append_assoc, ← components_eq]

theorem isAbsolute_foldl_join (base : Path) (paths : List Path) :
    (paths.foldl join base).isAbsolute = (base.isAbsolute || paths.any isAbsolute) := by
  induction paths generalizing base with
  | nil => rw [List.foldl_nil, List.any_nil, Bool.or_false]
  | cons path paths ih =>
    rw [List.foldl_cons, ih, isAbsolute_join, List.any_cons, Bool.or_comm path.isAbsolute, Bool.or_assoc]

/-! Paths below a base -/

/-- A path is below a base if it goes on from there without a step up. -/
def Below (base path : Path) : Prop :=
  ∃ steps, path.components = base.components ++ steps ∧ .up ∉ steps

/-- A path steps up exactly where two dots stand between slashes. -/
theorem up_mem_steps_iff : .up ∈ path.steps ↔ ['.', '.'] ∈ Text.pieces '/' path.text.toList := by
  rw [steps, List.mem_filterMap]
  constructor
  · rintro ⟨piece, hpiece, hup⟩
    unfold PathComponent.ofPiece at hup
    split at hup
    · cases hup
    · cases hup
    · exact hpiece
    · cases hup
  · exact fun h => ⟨_, h, rfl⟩

/-- Joined to a base, whatever it is, a path stays below it if and only if the path is
    relative and has no step up: an absolute path replaces the base. -/
theorem forall_below_join_iff : (∀ base : Path, base.Below (base.join path)) ↔
    path.isAbsolute = false ∧ .up ∉ path.steps := by
  constructor
  · intro h
    obtain ⟨steps, hsteps, hup⟩ := h ⟨"out"⟩
    have hbase : (⟨"out"⟩ : Path).components = [.name "out"] := by decide +kernel
    have hrelative : path.isAbsolute = false := by
      by_contra habsolute
      rw [Bool.not_eq_false] at habsolute
      rw [join_of_isAbsolute habsolute, components_eq, start, if_pos habsolute, hbase] at hsteps
      cases hsteps
    rw [components_join (by decide) hrelative, List.append_cancel_left_eq] at hsteps
    exact ⟨hrelative, hsteps ▸ hup⟩
  · rintro ⟨hrelative, hup⟩ base
    by_cases hbase : base.text = ""
    · obtain rfl : base = ⟨""⟩ := congrArg Path.mk hbase
      refine ⟨path.components, ?_, ?_⟩
      · rw [join_of_isEmpty hbase]
        rfl
      · rw [components_eq, List.mem_append, not_or]
        exact ⟨up_notMem_start path, hup⟩
    · exact ⟨path.steps, components_join hbase hrelative, hup⟩

/-- Joining two paths that do not step up makes one that does not. -/
theorem up_notMem_steps_join (hbase : .up ∉ base.steps) (hpath : .up ∉ path.steps) :
    .up ∉ (base.join path).steps := by
  cases habsolute : path.isAbsolute with
  | true =>
    rw [join_of_isAbsolute habsolute]
    exact hpath
  | false =>
    rw [steps_join base habsolute, List.mem_append, not_or]
    exact ⟨hbase, hpath⟩

theorem up_notMem_steps_foldl_join (hbase : .up ∉ base.steps) {paths : List Path}
    (hpaths : ∀ path ∈ paths, .up ∉ path.steps) : .up ∉ (paths.foldl join base).steps := by
  induction paths generalizing base with
  | nil => exact hbase
  | cons path paths ih =>
    obtain ⟨hpath, hpaths⟩ := List.forall_mem_cons.mp hpaths
    exact ih (up_notMem_steps_join hbase hpath) hpaths

/-! The directory of a package -/

/-- The directory of a package is relative if and only if no segment begins with a slash. -/
theorem isAbsolute_ofPackage_iff {package : String} : (ofPackage package).isAbsolute = false ↔
    ∀ segment ∈ Text.pieces '.' package.toList, segment.head? ≠ some '/' := by
  have hstart : (⟨""⟩ : Path).isAbsolute = false := by decide
  rw [ofPackage, isAbsolute_foldl_join, hstart, Bool.false_or, List.any_map, List.any_eq_false]
  simp only [isAbsolute, Function.comp_apply, String.toList_ofList, beq_iff_eq]
  constructor
  · intro h segment hsegment hslash
    refine h segment (List.mem_filter.mpr ⟨hsegment, ?_⟩) hslash
    cases segment with
    | nil => cases hslash
    | cons => rfl
  · exact fun h segment hsegment => h segment (List.mem_filter.mp hsegment).1

/-- A segment has no dot in it, so that none is a step up. -/
theorem up_notMem_steps_ofPackage (package : String) : .up ∉ (ofPackage package).steps := by
  refine up_notMem_steps_foldl_join (by decide) fun path hpath hup => ?_
  obtain ⟨segment, hsegment, rfl⟩ := List.mem_map.mp hpath
  have hdot := Text.notMem_of_mem_pieces (.inl rfl) segment (List.mem_filter.mp hsegment).1
  rw [up_mem_steps_iff, String.toList_ofList] at hup
  exact Text.notMem_of_mem_pieces (.inr hdot) _ hup List.mem_cons_self

/-! Paths of names -/

/-- A path of one name or more and nothing else, so that it leads down from any base. -/
def IsPlain (path : Path) : Prop :=
  ∃ names : List String, names ≠ [] ∧ path.components = names.map .name

theorem IsPlain.components_ne_nil (h : path.IsPlain) : path.components ≠ [] := by
  obtain ⟨names, hne, hnames⟩ := h
  rw [hnames]
  exact mt List.map_eq_nil_iff.mp hne

/-- Nothing stands in front of the names, neither the root nor a dot. -/
theorem IsPlain.start_eq_nil (h : path.IsPlain) : path.start = [] := by
  obtain ⟨names, _, hnames⟩ := h
  rw [components_eq] at hnames
  refine List.eq_nil_iff_forall_not_mem.mpr fun component hstart => ?_
  obtain ⟨name, _, rfl⟩ := List.mem_map.mp (hnames ▸ List.mem_append_left _ hstart)
  unfold start at hstart
  split at hstart
  · simp at hstart
  · split at hstart <;> simp at hstart

/-- A path of names is relative. -/
theorem IsPlain.isAbsolute_eq_false (h : path.IsPlain) : path.isAbsolute = false := by
  have hstart := h.start_eq_nil
  unfold start at hstart
  split at hstart
  · cases hstart
  · next hrelative => simpa using hrelative

/-- A plain path goes on from a base, whatever the base is. -/
theorem components_join_of_isPlain (base : Path) (h : path.IsPlain) :
    (base.join path).components = base.components ++ path.components := by
  by_cases hbase : base.text = ""
  · obtain rfl : base = ⟨""⟩ := congrArg Path.mk hbase
    rw [join_of_isEmpty hbase]
    rfl
  · rw [components_join hbase h.isAbsolute_eq_false, components_eq path, h.start_eq_nil, List.nil_append]

/-- Paths of names joined to a base go on from there, one after the other. -/
theorem components_foldl_join {paths : List Path} (h : ∀ path ∈ paths, path.IsPlain) (base : Path) :
    (paths.foldl join base).components = base.components ++ paths.flatMap components := by
  induction paths generalizing base with
  | nil => simp
  | cons path paths ih =>
    obtain ⟨hpath, hpaths⟩ := List.forall_mem_cons.mp h
    rw [List.foldl_cons, ih hpaths, components_join_of_isPlain base hpath, List.flatMap_cons, List.append_assoc]

/-- A text without slashes is a name, unless it is one of the dotted steps. -/
theorem components_of_name {name : String} (hslash : '/' ∉ name.toList) (hempty : name ≠ "")
    (hdots : name ≠ "." ∧ name ≠ "..") : (⟨name⟩ : Path).components = [.name name] := by
  have hpieces := Text.pieces_of_notMem hslash
  have hrelative : (⟨name⟩ : Path).isAbsolute = false := by
    rw [isAbsolute, beq_eq_false_iff_ne]
    exact fun hhead => hslash (List.mem_of_head? hhead)
  have hnil : name.toList ≠ [] := by simpa using hempty
  have hhere : name.toList ≠ ['.'] := fun heq => hdots.1 (String.toList_inj.mp heq)
  have hup : name.toList ≠ ['.', '.'] := fun heq => hdots.2 (String.toList_inj.mp heq)
  have hpiece : PathComponent.ofPiece name.toList = some (.name name) := by
    unfold PathComponent.ofPiece
    split
    · contradiction
    · contradiction
    · contradiction
    · rw [String.ofList_toList]
  rw [components, hpieces, hrelative]
  dsimp only
  rw [if_neg Bool.false_ne_true, if_neg hhere, hpiece]
  rfl

/-- The segments of a package are what stands between its dots, but for empty ones. -/
def segments (package : String) : List String :=
  ((Text.pieces '.' package.toList).filter (! ·.isEmpty)).map String.ofList

/-- A segment of a package without slashes is one name. -/
theorem components_of_mem_segments {package segment : String} (hslash : '/' ∉ package.toList)
    (h : segment ∈ segments package) : (⟨segment⟩ : Path).components = [.name segment] := by
  obtain ⟨piece, hpiece, rfl⟩ := List.mem_map.mp h
  obtain ⟨hpiece, hempty⟩ := List.mem_filter.mp hpiece
  have hdot := Text.notMem_of_mem_pieces (.inl rfl) piece hpiece
  refine components_of_name ?_ (by simpa using hempty) ⟨?_, ?_⟩
  · rw [String.toList_ofList]
    exact Text.notMem_of_mem_pieces (.inr hslash) piece hpiece
  · rintro heq
    rw [← String.toList_inj, String.toList_ofList] at heq
    exact hdot (heq ▸ List.mem_cons_self)
  · rintro heq
    rw [← String.toList_inj, String.toList_ofList] at heq
    exact hdot (heq ▸ List.mem_cons_self)

/-- The directory of a package without slashes goes down by its segments. -/
theorem components_ofPackage {package : String} (hslash : '/' ∉ package.toList) :
    (ofPackage package).components = (segments package).map .name := by
  have hsegments : ∀ segment ∈ segments package, (⟨segment⟩ : Path).components = [.name segment] :=
    fun segment hsegment => components_of_mem_segments hslash hsegment
  have hfold : ofPackage package = ((segments package).map Path.mk).foldl join ⟨""⟩ := by
    rw [ofPackage, segments, List.map_map]
    rfl
  have hplain : ∀ path ∈ (segments package).map Path.mk, path.IsPlain := by
    intro path hpath
    obtain ⟨segment, hsegment, rfl⟩ := List.mem_map.mp hpath
    exact ⟨[segment], List.cons_ne_nil _ _, hsegments segment hsegment⟩
  have hflat : ((segments package).map Path.mk).flatMap components = (segments package).map .name := by
    rw [List.flatMap_map, List.map_eq_flatMap]
    exact List.flatMap_congr hsegments
  rw [hfold, components_foldl_join hplain, hflat]
  rfl

/-! Paths that differ in a dot in front -/

/-- One of two paths is the other one behind a dot. Together they are two paths, but
    they lead to the same place. -/
def DotApart (a b : Path) : Prop :=
  a.components = .here :: b.components ∨ b.components = .here :: a.components

instance : DecidableRel DotApart := fun a b =>
  inferInstanceAs (Decidable (a.components = .here :: b.components ∨ b.components = .here :: a.components))

/-- A dot behind the first component is not a step. -/
theorem here_notMem_steps (path : Path) : .here ∉ path.steps := by
  intro hmem
  obtain ⟨piece, _, hpiece⟩ := List.mem_filterMap.mp hmem
  unfold PathComponent.ofPiece at hpiece
  split at hpiece <;> cases hpiece

/-- The steps of a relative path are its components but for a dot in front. -/
theorem filter_components (h : path.isAbsolute = false) : path.components.filter (· ≠ .here) = path.steps := by
  have hsteps : path.steps.filter (· ≠ .here) = path.steps := by
    refine List.filter_eq_self.mpr fun component hmem => ?_
    rw [decide_eq_true_eq]
    rintro rfl
    exact path.here_notMem_steps hmem
  rw [components_eq, List.filter_append, hsteps]
  obtain hstart | hstart := start_of_relative h
  · rw [hstart]
    rfl
  · rw [hstart]
    rfl

/-- Relative paths take the same steps if they have the same components, or are a
    dot apart. -/
theorem steps_eq_iff {a b : Path} (ha : a.isAbsolute = false) (hb : b.isAbsolute = false) :
    a.steps = b.steps ↔ a.components = b.components ∨ a.DotApart b := by
  constructor
  · intro h
    rw [DotApart, components_eq, components_eq, h]
    obtain hstart | hstart := start_of_relative ha <;> obtain hstart' | hstart' := start_of_relative hb
    · exact .inl (by rw [hstart, hstart'])
    · exact .inr (.inr (by rw [hstart, hstart']; rfl))
    · exact .inr (.inl (by rw [hstart, hstart']; rfl))
    · exact .inl (by rw [hstart, hstart'])
  · rw [← filter_components ha, ← filter_components hb]
    rintro (h | h | h)
    · rw [h]
    · rw [h, List.filter_cons_of_neg (by decide)]
    · rw [h, List.filter_cons_of_neg (by decide)]

/-- Below a base that is not empty, relative paths lead to one place if and only if they
    are one path or differ in a dot in front. -/
theorem components_join_eq_iff {a b : Path} (hbase : base.text ≠ "") (ha : a.isAbsolute = false)
    (hb : b.isAbsolute = false) :
    (base.join a).components = (base.join b).components ↔ a.components = b.components ∨ a.DotApart b := by
  rw [components_join hbase ha, components_join hbase hb, List.append_cancel_left_eq]
  exact steps_eq_iff ha hb

end Path

end JavaSource
