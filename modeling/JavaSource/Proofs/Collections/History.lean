import JavaSource.Proofs.Collections.Distinct

namespace JavaSource

variable {Edit State History Result : Type}

section Slots

variable {α : Type} (edits : List Edit) (edit : Edit)

/-- What a run writes to a slot goes on with what its last edit writes there, if anything. -/
theorem filterMap_concat (slot? : Edit → Option α) :
    (edits ++ [edit]).filterMap slot? = edits.filterMap slot? ++ (slot? edit).toList := by
  rw [List.filterMap_append, List.filterMap_cons]
  cases slot? edit <;> rfl

/-- A slot for one value has the value that is written last. -/
theorem getLast?_filterMap_concat (slot? : Edit → Option α) :
    ((edits ++ [edit]).filterMap slot?).getLast? = (slot? edit).or (edits.filterMap slot?).getLast? := by
  rw [filterMap_concat]
  cases slot? edit with
  | none => rw [Option.toList_none, List.append_nil, Option.none_or]
  | some value => rw [Option.toList_some, List.getLast?_concat, Option.some_or]

variable [BEq α]

/-- A slot for a list takes up what is written to it, unless it has an equal element. -/
theorem eraseDups_filterMap_concat (slot? : Edit → Option α) :
    ((edits ++ [edit]).filterMap slot?).eraseDups =
      Distinct.addAll (edits.filterMap slot?).eraseDups (slot? edit).toList := by
  rw [filterMap_concat, Distinct.eraseDups_append]

/-- It takes up the elements of a batch one by one. -/
theorem eraseDups_flatMap_concat (added : Edit → List α) :
    ((edits ++ [edit]).flatMap added).eraseDups =
      Distinct.addAll (edits.flatMap added).eraseDups (added edit) := by
  rw [List.flatMap_append, List.flatMap_singleton, Distinct.eraseDups_append]

end Slots

/-- A state that follows its history edit by edit follows it over a whole run. -/
theorem foldl_eq_of_concat {apply : State → Edit → State} {start : State} {history : List Edit → History}
    {state : History → State} (hnil : state (history []) = start)
    (hconcat : ∀ edits edit, state (history (edits ++ [edit])) = apply (state (history edits)) edit)
    (edits : List Edit) : edits.foldl apply start = state (history edits) := by
  induction edits using List.reverseRecOn with
  | nil => exact hnil.symm
  | append_singleton edits edit ih => rw [List.foldl_append, ih, List.foldl_cons, List.foldl_nil, hconcat]

/-- A batch that does what its first edit and the rest do does what all its edits
    do one by one. -/
theorem foldl_map_eq_batch {α : Type} {apply : State → Edit → State} {one : α → Edit}
    {batch : List α → Edit} (hnil : ∀ s, apply s (batch []) = s)
    (hcons : ∀ s x xs, apply s (batch (x :: xs)) = apply (apply s (one x)) (batch xs)) (s : State)
    (xs : List α) : (xs.map one).foldl apply s = apply s (batch xs) := by
  induction xs generalizing s with
  | nil => exact (hnil s).symm
  | cons x xs ih => rw [List.map_cons, List.foldl_cons, ih, hcons]

/-- What is built by a run of edits depends on nothing but the history that the
    run leaves. So runs that differ in how the edits are interleaved, in how they
    are batched, or in edits that add again what is there, build the same. -/
structure DependsOnHistory (built : List Edit → Result) (history : List Edit → History)
    (outcome : History → Result) (singles : Edit → List Edit)
    (Readds : List Edit → Edit → Prop) : Prop where
  determined : ∀ edits, built edits = outcome (history edits)
  interleaved : ∀ edits edits', history edits = history edits' → built edits = built edits'
  batched : ∀ front edit back, built (front ++ singles edit ++ back) = built (front ++ edit :: back)
  readded : ∀ front edit back, Readds front edit →
    built (front ++ edit :: back) = built (front ++ back)

/-- A state that each edit brings up to date depends on the history if it follows
    it, if a batch does what its edits do, and if an edit that adds what the state
    has changes nothing. -/
theorem DependsOnHistory.of_concat {apply : State → Edit → State} {start : State}
    {history : List Edit → History} {state : History → State} {singles : Edit → List Edit}
    {Has : State → Edit → Prop} (hnil : state (history []) = start)
    (hconcat : ∀ edits edit, state (history (edits ++ [edit])) = apply (state (history edits)) edit)
    (hsingles : ∀ s edit, (singles edit).foldl apply s = apply s edit)
    (hhas : ∀ h edit, Has (state h) edit → apply (state h) edit = state h) (finish : State → Result) :
    DependsOnHistory (fun edits => finish (edits.foldl apply start)) history
      (fun h => finish (state h)) singles fun front edit => Has (front.foldl apply start) edit where
  determined edits := by rw [foldl_eq_of_concat hnil hconcat]
  interleaved edits edits' h := by
    rw [foldl_eq_of_concat hnil hconcat, foldl_eq_of_concat hnil hconcat, h]
  batched front edit back := by
    rw [List.append_assoc, List.foldl_append, List.foldl_append, hsingles, List.foldl_append,
      List.foldl_cons]
  readded front edit back h := by
    have hfront := foldl_eq_of_concat hnil hconcat front
    rw [hfront] at h
    rw [List.foldl_append, List.foldl_cons, hfront, hhas _ _ h, List.foldl_append, hfront]

end JavaSource
