import JavaSource.Annotation.Basic
import JavaSource.Proofs.Collections.History
import JavaSource.Proofs.Collections.Keyed

namespace JavaSource.Annotation

def Edit.classType? : Edit → Option TypeRef
  | .classType t => some t
  | .assign _ _ => none

def Edit.assignment? : Edit → Option (String × AttributeValue)
  | .classType _ => none
  | .assign name value => some (name, value)

/-- What is written to each slot of an annotation, in order. -/
structure History where
  classTypes : List TypeRef
  assignments : List (String × AttributeValue)

namespace History

/-- What is left of a run of edits: the last class and every assignment. -/
def ofEdits (edits : List Edit) : History where
  classTypes := edits.filterMap Edit.classType?
  assignments := edits.filterMap Edit.assignment?

/-- The type that is given last. An attribute stands where its name comes first,
    with the value that comes last. -/
def draft (history : History) : Draft where
  classType := history.classTypes.getLast?
  attributes := Keyed.latest history.assignments

end History

namespace Draft

/-- Whether an edit sets an attribute to the value that it has already. -/
def Has (draft : Draft) : Edit → Prop
  | .classType _ => False
  | .assign name value => Keyed.get? name draft.attributes = some value

/-- Making an edit again leaves a draft that has it as it is. -/
theorem apply_of_has {draft : Draft} {edit : Edit} (h : draft.Has edit) : draft.apply edit = draft := by
  cases edit with
  | classType => cases h
  | assign name value => rw [apply, Keyed.set_of_get? h]

end Draft

/-- The slot for the attributes sets the one that the last edit assigns, if it assigns any. -/
theorem latest_filterMap_concat (edits : List Edit) (edit : Edit) :
    Keyed.latest ((edits ++ [edit]).filterMap Edit.assignment?) =
      edit.assignment?.elim (Keyed.latest (edits.filterMap Edit.assignment?)) fun entry =>
        Keyed.set entry.1 entry.2 (Keyed.latest (edits.filterMap Edit.assignment?)) := by
  rw [filterMap_concat]
  cases edit.assignment? with
  | none => rw [Option.toList_none, List.append_nil, Option.elim_none]
  | some entry => rw [Option.toList_some, Keyed.latest_concat, Option.elim_some]

/-- One more edit changes the draft of the history by just that edit. -/
theorem History.draft_concat (edits : List Edit) (edit : Edit) :
    (ofEdits (edits ++ [edit])).draft = (ofEdits edits).draft.apply edit := by
  simp only [draft, ofEdits, getLast?_filterMap_concat, latest_filterMap_concat]
  cases edit <;> rfl

end JavaSource.Annotation
