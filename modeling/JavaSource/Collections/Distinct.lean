namespace JavaSource.Distinct

/-- Appends an element unless the list already has one equal to it, so the order is that
    of first insertion and the element that came first is the one kept. -/
def add {α : Type} [BEq α] (elements : List α) (element : α) : List α :=
  if elements.contains element then elements else elements ++ [element]

/-- Adds a whole batch, one element after the other. -/
def addAll {α : Type} [BEq α] (elements batch : List α) : List α :=
  batch.foldl add elements

theorem addAll_cons {α : Type} [BEq α] (elements : List α) (element : α) (batch : List α) :
    addAll elements (element :: batch) = addAll (add elements element) batch := rfl

end JavaSource.Distinct
