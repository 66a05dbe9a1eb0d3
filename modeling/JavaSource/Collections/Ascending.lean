namespace JavaSource.Ascending

/-- Inserts an element into a strictly ascending list. An element that compares equal to
    the new one is replaced by it, so the list stays strictly ascending. -/
def insert {α : Type} (cmp : α → α → Ordering) (element : α) : List α → List α
  | [] => [element]
  | head :: tail =>
    match cmp element head with
    | .lt => element :: head :: tail
    | .eq => element :: tail
    | .gt => head :: insert cmp element tail

/-- Inserts a whole batch, one element after the other. -/
def insertAll {α : Type} (cmp : α → α → Ordering) (elements batch : List α) : List α :=
  batch.foldl (fun done element => insert cmp element done) elements

/-- An insertion brings in no other element. -/
theorem mem_of_mem_insert {α : Type} {cmp : α → α → Ordering} {element member : α}
    {elements : List α} (h : member ∈ insert cmp element elements) :
    member = element ∨ member ∈ elements := by
  induction elements with
  | nil => simpa [insert] using h
  | cons head tail ih =>
    simp only [insert] at h
    split at h
    · simpa using h
    · rcases List.mem_cons.mp h with rfl | h
      · exact .inl rfl
      · exact .inr (List.mem_cons_of_mem _ h)
    · rcases List.mem_cons.mp h with rfl | h
      · exact .inr List.mem_cons_self
      · rcases ih h with rfl | h
        · exact .inl rfl
        · exact .inr (List.mem_cons_of_mem _ h)

/-- What is inserted is there afterwards. -/
theorem mem_insert_self {α : Type} (cmp : α → α → Ordering) (element : α) (elements : List α) :
    element ∈ insert cmp element elements := by
  induction elements with
  | nil => simp [insert]
  | cons head tail ih =>
    simp only [insert]
    split
    · exact List.mem_cons_self
    · exact List.mem_cons_self
    · exact List.mem_cons_of_mem _ ih

end JavaSource.Ascending
