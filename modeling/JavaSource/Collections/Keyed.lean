namespace JavaSource.Keyed

/-- Sets the value of a key in a list of key-value pairs. A key that is already present
    keeps its position, so the order of the keys is the order in which they were first
    set. -/
def set {κ α : Type} [DecidableEq κ] (key : κ) (value : α) : List (κ × α) → List (κ × α)
  | [] => [(key, value)]
  | entry :: rest => if entry.1 = key then (key, value) :: rest else entry :: set key value rest

/-- The value of the first pair that carries the key. -/
def get? {κ α : Type} [DecidableEq κ] (key : κ) : List (κ × α) → Option α
  | [] => none
  | entry :: rest => if entry.1 = key then some entry.2 else get? key rest

@[simp] theorem get?_set_self {κ α : Type} [DecidableEq κ] (key : κ) (value : α)
    (entries : List (κ × α)) : get? key (set key value entries) = some value := by
  induction entries with
  | nil => simp [set, get?]
  | cons entry rest ih =>
    by_cases h : entry.1 = key
    · simp [set, get?, h]
    · simp [set, get?, h, ih]

theorem get?_set_of_ne {κ α : Type} [DecidableEq κ] {key other : κ} (hne : other ≠ key)
    (value : α) (entries : List (κ × α)) :
    get? other (set key value entries) = get? other entries := by
  induction entries with
  | nil => simp [set, get?, Ne.symm hne]
  | cons entry rest ih =>
    by_cases h : entry.1 = key
    · simp [set, get?, h, Ne.symm hne]
    · simp only [set, h, if_false, get?, ih]

/-- Setting a key adds it behind the others or leaves the keys as they were. -/
theorem keys_set {κ α : Type} [DecidableEq κ] (key : κ) (value : α) (entries : List (κ × α)) :
    (set key value entries).map Prod.fst =
      if key ∈ entries.map Prod.fst then entries.map Prod.fst
      else entries.map Prod.fst ++ [key] := by
  induction entries with
  | nil => simp [set]
  | cons entry rest ih =>
    by_cases h : entry.1 = key
    · simp [set, h]
    · by_cases hrest : key ∈ rest.map Prod.fst
      · simp [set, h, ih, hrest]
      · simp [set, h, ih, hrest, Ne.symm h]

end JavaSource.Keyed
