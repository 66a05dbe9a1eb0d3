import JavaSource.TypeRef.Parse

namespace JavaSource.TypeRef

/-- What a slot is filled with explicitly: text that is still to be read, or an argument
    that is ready. -/
inductive SlotSource where
  | text (s : String)
  | type (t : TypeRef)
  | wildcard (bound : Bound) (t : TypeRef)

/-- The argument of a slot, for which text is read with the table. -/
def SlotSource.resolve (table : WellKnown) : SlotSource → Except Error TypeArg
  | text s => TypeArg.parse table s
  | type t => .ok (.type t)
  | wildcard bound t => .ok (.wildcard bound t)

/-- A declared type put together from its parts. The simple name may be the text of a
    generic type, whose slots the explicit ones then replace or extend. -/
structure Draft where
  package : String := ""
  simpleName : String := ""
  slots : List (String × SlotSource) := []

/-- A step in putting a declared type together. -/
inductive Edit where
  | package (name : String)
  | simpleName (name : String)
  | slot (key : String) (source : SlotSource)

namespace Draft

def apply (draft : Draft) : Edit → Draft
  | .package name => { draft with package := name }
  | .simpleName name => { draft with simpleName := name }
  | .slot key source => { draft with slots := Keyed.set key source draft.slots }

/-- The draft after the edits, in order. -/
def ofEdits (edits : List Edit) : Draft :=
  edits.foldl apply {}

/-- Reads the explicit slots in order, and sets each one among those there are. -/
def fill (table : WellKnown) : List (String × SlotSource) → List (String × TypeArg) →
    Except Error (List (String × TypeArg))
  | [], slots => .ok slots
  | (key, source) :: rest, slots => do
    let argument ← source.resolve table
    fill table rest (Keyed.set key argument slots)

/-- The declared type, with simple names looked up in the table. A name that is read as
    a native type is that of a declared one if there are slots to fill. -/
def build (table : WellKnown) (draft : Draft) : Except Error TypeRef := do
  let parsed ← TypeRef.parse table draft.package draft.simpleName
  if draft.slots.isEmpty then
    return parsed
  match parsed with
  | .declared package name slots => return .declared package name (← fill table draft.slots slots)
  | .native name => return .declared "" name (← fill table draft.slots [])

/-- The explicit slots are filled among those that the text has. -/
theorem build_of_parse_eq_declared {table : WellKnown} {draft : Draft} {package name : String}
    {slots : List (String × TypeArg)}
    (h : TypeRef.parse table draft.package draft.simpleName = .ok (.declared package name slots)) :
    draft.build table = (fill table draft.slots slots).map (.declared package name) := by
  rw [build, h]
  cases draft.slots with
  | nil => rfl
  | cons slot rest =>
    simp only [bind, Except.bind, List.isEmpty_cons, Bool.false_eq_true, if_false]
    cases fill table (slot :: rest) slots <;> rfl

end Draft

end JavaSource.TypeRef
