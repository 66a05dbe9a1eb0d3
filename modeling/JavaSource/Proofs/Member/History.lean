import JavaSource.Member.Constructor
import JavaSource.Member.Field
import JavaSource.Member.Method
import JavaSource.Proofs.Collections.Ascending
import JavaSource.Proofs.Collections.Distinct
import JavaSource.Proofs.Collections.History

namespace JavaSource

namespace Modifier

/-- The rank of a modifier is its place among all of them. -/
theorem getElem?_all_rank (modifier : Modifier) : all[modifier.rank]? = some modifier := by
  cases modifier <;> rfl

/-- No modifier is left out of the order. -/
theorem mem_all (modifier : Modifier) : modifier ∈ all :=
  List.mem_of_getElem? modifier.getElem?_all_rank

/-- Different modifiers have different ranks. -/
theorem rank_injective {m n : Modifier} (h : m.rank = n.rank) : m = n := by
  have hm := m.getElem?_all_rank
  rw [h, n.getElem?_all_rank] at hm
  exact (Option.some.inj hm).symm

/-- Some modifiers in the order in which they are written, each of them once. -/
def inOrder (modifiers : List Modifier) : List Modifier :=
  all.filter (· ∈ modifiers)

/-- Putting modifiers in order loses none of them and brings in none. -/
theorem mem_inOrder {modifiers : List Modifier} {modifier : Modifier} :
    modifier ∈ inOrder modifiers ↔ modifier ∈ modifiers := by
  simp [inOrder, mem_all]

private abbrev compareRank (m n : Modifier) : Ordering :=
  compare m.rank n.rank

private instance : Std.LawfulEqCmp compareRank where
  compare_self := by simp [compareRank]
  eq_of_compare h := rank_injective (Std.LawfulEqCmp.eq_of_compare h)

private instance : Std.TransCmp compareRank :=
  inferInstanceAs (Std.TransCmp (compareOn rank))

private theorem ascends_inOrder (modifiers : List Modifier) : Ascending.Ascends compareRank (inOrder modifiers) := by
  have hall : all.Pairwise fun m n => compareRank m n = .lt := by decide
  exact hall.filter _

/-- Adding modifiers one by one leaves them in the order in which they are written. -/
theorem inOrder_concat (modifiers : List Modifier) (modifier : Modifier) :
    inOrder (modifiers ++ [modifier]) = addTo (inOrder modifiers) modifier := by
  refine (ascends_inOrder _).eq_of_mem_iff (Ascending.ascends_insert (ascends_inOrder _) _) fun m => ?_
  have hadd : m ∈ addTo (inOrder modifiers) modifier ↔ m = modifier ∨ m ∈ inOrder modifiers :=
    Ascending.mem_insert_iff
  rw [hadd, mem_inOrder, mem_inOrder, List.mem_append, List.mem_singleton, or_comm]

/-- The modifiers of a run, with the one that the last edit adds put where it belongs. -/
theorem inOrder_filterMap_concat {Edit : Type} (edits : List Edit) (edit : Edit) (slot? : Edit → Option Modifier) :
    inOrder ((edits ++ [edit]).filterMap slot?) =
      (slot? edit).toList.foldl addTo (inOrder (edits.filterMap slot?)) := by
  rw [filterMap_concat]
  cases slot? edit with
  | none => rw [Option.toList_none, List.append_nil, List.foldl_nil]
  | some modifier => rw [Option.toList_some, inOrder_concat, List.foldl_cons, List.foldl_nil]

/-- A modifier that is there already is not added. -/
theorem addTo_of_mem {modifiers : List Modifier} {modifier : Modifier} (h : modifier ∈ inOrder modifiers) :
    addTo (inOrder modifiers) modifier = inOrder modifiers := by
  rw [← inOrder_concat]
  refine List.filter_congr fun m _ => decide_eq_decide.mpr ?_
  rw [List.mem_append, List.mem_singleton]
  refine ⟨?_, .inl⟩
  rintro (hm | rfl)
  · exact hm
  · exact mem_inOrder.mp h

end Modifier

namespace Parameter

namespace Edit

def name? : Edit → Option String
  | .name s => some s
  | _ => none

/-- The type that is set, in whichever way. -/
def type? : Edit → Option TypeRef
  | .paramType t => some t
  | .nativeType s => some (.native s)
  | _ => none

def annotation? : Edit → Option Annotation
  | .annotate a => some a
  | _ => none

end Edit

/-- What is written to each slot of a parameter, in order. -/
structure History where
  names : List String
  types : List TypeRef
  annotations : List Annotation

namespace History

/-- What is left of a run of edits, slot by slot. -/
def ofEdits (edits : List Edit) : History where
  names := edits.filterMap Edit.name?
  types := edits.filterMap Edit.type?
  annotations := edits.filterMap Edit.annotation?

/-- The parameter so far: the last name and type, and every annotation once. -/
def draft (history : History) : Draft where
  name := history.names.getLast?
  type := history.types.getLast?
  annotations := history.annotations.eraseDups

end History

namespace Draft

/-- Whether an edit adds what the parameter has already. -/
def Has (draft : Draft) : Edit → Prop
  | .annotate a => draft.annotations.contains a = true
  | _ => False

/-- Making an edit again leaves a draft that has it as it is. -/
theorem apply_of_has {draft : Draft} {edit : Edit} (h : draft.Has edit) : draft.apply edit = draft := by
  cases edit with
  | annotate a => rw [apply, Distinct.add_of_contains h]
  | name | paramType | nativeType => cases h

end Draft

/-- One more edit changes the draft of the history by just that edit. -/
theorem History.draft_concat (edits : List Edit) (edit : Edit) :
    (ofEdits (edits ++ [edit])).draft = (ofEdits edits).draft.apply edit := by
  simp only [draft, ofEdits, getLast?_filterMap_concat, eraseDups_filterMap_concat]
  cases edit <;> rfl

end Parameter

namespace Field

namespace Edit

def name? : Edit → Option String
  | .name s => some s
  | _ => none

/-- The type that is set, in whichever way. -/
def type? : Edit → Option TypeRef
  | .nativeType s => some (.native s)
  | .classType t | .fieldType t => some t
  | _ => none

def modifier? : Edit → Option Modifier
  | .modifier m => some m
  | _ => none

def defaultValue? : Edit → Option String
  | .defaultValue text => some text
  | _ => none

def setter? : Edit → Option Bool
  | .setter wanted => some wanted
  | _ => none

def getter? : Edit → Option Bool
  | .getter wanted => some wanted
  | _ => none

def annotation? : Edit → Option Annotation
  | .annotate a => some a
  | _ => none

end Edit

/-- What is written to each slot of a field, in order. -/
structure History where
  names : List String
  types : List TypeRef
  modifiers : List Modifier
  defaultValues : List String
  setters : List Bool
  getters : List Bool
  annotations : List Annotation

namespace History

def ofEdits (edits : List Edit) : History where
  names := edits.filterMap Edit.name?
  types := edits.filterMap Edit.type?
  modifiers := edits.filterMap Edit.modifier?
  defaultValues := edits.filterMap Edit.defaultValue?
  setters := edits.filterMap Edit.setter?
  getters := edits.filterMap Edit.getter?
  annotations := edits.filterMap Edit.annotation?

/-- The field so far: the last value of every slot, its modifiers in order, and
    every annotation once. -/
def draft (history : History) : Draft where
  name := history.names.getLast?
  type := history.types.getLast?
  modifiers := Modifier.inOrder history.modifiers
  defaultValue := history.defaultValues.getLast?
  setter := history.setters.getLast?.getD false
  getter := history.getters.getLast?.getD false
  annotations := history.annotations.eraseDups

end History

namespace Draft

/-- Whether an edit adds what the field has already. -/
def Has (draft : Draft) : Edit → Prop
  | .modifier m => m ∈ draft.modifiers
  | .annotate a => draft.annotations.contains a = true
  | _ => False

theorem apply_of_has {history : History} {edit : Edit} (h : history.draft.Has edit) :
    history.draft.apply edit = history.draft := by
  cases edit with
  | modifier m => rw [apply, History.draft, Modifier.addTo_of_mem h]
  | annotate a => rw [apply, Distinct.add_of_contains h]
  | name | nativeType | classType | fieldType | defaultValue | setter | getter => cases h

end Draft

theorem History.draft_concat (edits : List Edit) (edit : Edit) :
    (ofEdits (edits ++ [edit])).draft = (ofEdits edits).draft.apply edit := by
  simp only [draft, ofEdits, getLast?_filterMap_concat, Modifier.inOrder_filterMap_concat,
    eraseDups_filterMap_concat]
  cases edit <;> rfl

end Field

namespace Method

namespace Edit

def name? : Edit → Option String
  | .name s => some s
  | _ => none

def returnType? : Edit → Option TypeRef
  | .returnType t => some t
  | _ => none

def modifier? : Edit → Option Modifier
  | .modifier m => some m
  | _ => none

/-- The parameters that are added, by one edit or by a batch. -/
def added : Edit → List Parameter
  | .parameter p => [p]
  | .parameters ps => ps
  | _ => []

def body? : Edit → Option String
  | .body text => some text
  | _ => none

def isAbstract? : Edit → Option Bool
  | .isAbstract wanted => some wanted
  | _ => none

def annotation? : Edit → Option Annotation
  | .annotate a => some a
  | _ => none

/-- The edits that add the elements of a batch one by one. -/
def singles : Edit → List Edit
  | .parameters ps => ps.map .parameter
  | edit => [edit]

end Edit

/-- What is written to each slot of a method, in order. -/
structure History where
  names : List String
  returnTypes : List TypeRef
  modifiers : List Modifier
  parameters : List Parameter
  bodies : List String
  isAbstract : List Bool
  annotations : List Annotation

namespace History

def ofEdits (edits : List Edit) : History where
  names := edits.filterMap Edit.name?
  returnTypes := edits.filterMap Edit.returnType?
  modifiers := edits.filterMap Edit.modifier?
  parameters := edits.flatMap Edit.added
  bodies := edits.filterMap Edit.body?
  isAbstract := edits.filterMap Edit.isAbstract?
  annotations := edits.filterMap Edit.annotation?

/-- The method so far: the last value of every slot, its modifiers in order, and
    every parameter and annotation once. -/
def draft (history : History) : Draft where
  name := history.names.getLast?
  returnType := history.returnTypes.getLast?
  modifiers := Modifier.inOrder history.modifiers
  parameters := history.parameters.eraseDups
  body := history.bodies.getLast?
  isAbstract := history.isAbstract.getLast?.getD false
  annotations := history.annotations.eraseDups

end History

namespace Draft

/-- Whether an edit adds nothing but what the method has already. -/
def Has (draft : Draft) : Edit → Prop
  | .modifier m => m ∈ draft.modifiers
  | .parameter p => draft.parameters.contains p = true
  | .parameters ps => ∀ p ∈ ps, draft.parameters.contains p = true
  | .annotate a => draft.annotations.contains a = true
  | _ => False

theorem apply_of_has {history : History} {edit : Edit} (h : history.draft.Has edit) :
    history.draft.apply edit = history.draft := by
  cases edit with
  | modifier m => rw [apply, History.draft, Modifier.addTo_of_mem h]
  | parameter p => rw [apply, Distinct.add_of_contains h]
  | parameters ps => rw [apply, Distinct.addAll_of_contains h]
  | annotate a => rw [apply, Distinct.add_of_contains h]
  | name | returnType | body | isAbstract => cases h

/-- A batched edit does what its parts do one by one. -/
theorem foldl_singles (draft : Draft) (edit : Edit) : edit.singles.foldl apply draft = draft.apply edit := by
  cases edit with
  | parameters ps => exact foldl_map_eq_batch (fun _ => rfl) (fun _ _ _ => rfl) draft ps
  | _ => rfl

end Draft

theorem History.draft_concat (edits : List Edit) (edit : Edit) :
    (ofEdits (edits ++ [edit])).draft = (ofEdits edits).draft.apply edit := by
  simp only [draft, ofEdits, getLast?_filterMap_concat, Modifier.inOrder_filterMap_concat,
    eraseDups_filterMap_concat, eraseDups_flatMap_concat]
  cases edit <;> rfl

end Method

namespace Constructor

namespace Edit

def modifier? : Edit → Option Modifier
  | .modifier m => some m
  | _ => none

/-- The parameters that are added, by one edit or by a batch. -/
def added : Edit → List Parameter
  | .parameter p => [p]
  | .parameters ps => ps
  | _ => []

def body? : Edit → Option String
  | .body text => some text
  | _ => none

def annotation? : Edit → Option Annotation
  | .annotate a => some a
  | _ => none

/-- The edits that add the elements of a batch one by one. -/
def singles : Edit → List Edit
  | .parameters ps => ps.map .parameter
  | edit => [edit]

end Edit

/-- What is written to each slot of a constructor, in order. -/
structure History where
  modifiers : List Modifier
  parameters : List Parameter
  bodies : List String
  annotations : List Annotation

namespace History

def ofEdits (edits : List Edit) : History where
  modifiers := edits.filterMap Edit.modifier?
  parameters := edits.flatMap Edit.added
  bodies := edits.filterMap Edit.body?
  annotations := edits.filterMap Edit.annotation?

/-- The constructor so far, which is a whole one at every step. -/
def constructor (history : History) : Constructor where
  modifiers := Modifier.inOrder history.modifiers
  parameters := history.parameters.eraseDups
  body := history.bodies.getLast?
  annotations := history.annotations.eraseDups

end History

/-- Whether an edit adds nothing but what the constructor has already. -/
def Has (c : Constructor) : Edit → Prop
  | .modifier m => m ∈ c.modifiers
  | .parameter p => c.parameters.contains p = true
  | .parameters ps => ∀ p ∈ ps, c.parameters.contains p = true
  | .annotate a => c.annotations.contains a = true
  | .body _ => False

/-- Making an edit again leaves a constructor that has it as it is. -/
theorem apply_of_has {history : History} {edit : Edit} (h : history.constructor.Has edit) :
    history.constructor.apply edit = history.constructor := by
  cases edit with
  | modifier m => rw [apply, History.constructor, Modifier.addTo_of_mem h]
  | parameter p => rw [apply, Distinct.add_of_contains h]
  | parameters ps => rw [apply, Distinct.addAll_of_contains h]
  | annotate a => rw [apply, Distinct.add_of_contains h]
  | body => cases h

theorem foldl_singles (c : Constructor) (edit : Edit) : edit.singles.foldl apply c = c.apply edit := by
  cases edit with
  | parameters ps => exact foldl_map_eq_batch (fun _ => rfl) (fun _ _ _ => rfl) c ps
  | _ => rfl

/-- One more edit changes the constructor of the history by just that edit. -/
theorem History.constructor_concat (edits : List Edit) (edit : Edit) :
    (ofEdits (edits ++ [edit])).constructor = (ofEdits edits).constructor.apply edit := by
  simp only [History.constructor, ofEdits, getLast?_filterMap_concat, Modifier.inOrder_filterMap_concat,
    eraseDups_filterMap_concat, eraseDups_flatMap_concat]
  cases edit <;> rfl

end Constructor

end JavaSource
