namespace JavaSource.Text

/-- A dotted name split at its last dot, or nothing for a name without a dot. -/
def splitLastDot : List Char → Option (List Char × List Char)
  | [] => none
  | c :: rest =>
    match splitLastDot rest with
    | some (before, after) => some (c :: before, after)
    | none => if c = '.' then some ([], rest) else none

/-- Only a name without a dot cannot be split. -/
theorem splitLastDot_eq_none_iff {name : List Char} : splitLastDot name = none ↔ '.' ∉ name := by
  induction name with
  | nil => simp [splitLastDot]
  | cons c rest ih =>
    cases h : splitLastDot rest with
    | some parts =>
      have hmem : '.' ∈ rest := by
        by_cases hmem : '.' ∈ rest
        · exact hmem
        · simp [ih.mpr hmem] at h
      simp [splitLastDot, h, hmem]
    | none =>
      by_cases hc : c = '.'
      · simp [splitLastDot, h, hc]
      · simp [splitLastDot, h, hc, ih.mp h, Ne.symm hc]

/-- The two parts stand around a dot, and the second one has none. -/
theorem splitLastDot_eq_some_iff {name before after : List Char} :
    splitLastDot name = some (before, after) ↔ name = before ++ '.' :: after ∧ '.' ∉ after := by
  induction name generalizing before after with
  | nil => simp [splitLastDot]
  | cons c rest ih =>
    cases h : splitLastDot rest with
    | some parts =>
      obtain ⟨front, back⟩ := parts
      have hrest := ih.mp h
      simp only [splitLastDot, h, Option.some.injEq, Prod.mk.injEq]
      constructor
      · rintro ⟨rfl, rfl⟩
        exact ⟨by simp [hrest.1], hrest.2⟩
      · rintro ⟨heq, hafter⟩
        cases before with
        | nil =>
          simp only [List.nil_append, List.cons.injEq] at heq
          exact absurd (heq.2 ▸ hrest.1 ▸ by simp : '.' ∈ after) hafter
        | cons d front' =>
          simp only [List.cons_append, List.cons.injEq] at heq
          have hfront := ih.mpr ⟨heq.2, hafter⟩
          rw [h] at hfront
          simp only [Option.some.injEq, Prod.mk.injEq] at hfront
          exact ⟨by rw [heq.1, hfront.1], hfront.2⟩
    | none =>
      have hno := splitLastDot_eq_none_iff.mp h
      by_cases hc : c = '.'
      · simp only [splitLastDot, h, hc, if_true, Option.some.injEq, Prod.mk.injEq]
        constructor
        · rintro ⟨rfl, rfl⟩
          exact ⟨rfl, hno⟩
        · rintro ⟨heq, hafter⟩
          cases before with
          | nil => exact ⟨rfl, by simpa using heq⟩
          | cons d front' =>
            simp only [List.cons_append, List.cons.injEq] at heq
            exact absurd (heq.2 ▸ by simp : '.' ∈ rest) hno
      · simp only [splitLastDot, h, hc, if_false, reduceCtorEq, false_iff, not_and]
        intro heq
        cases before with
        | nil => exact absurd (by simpa using heq : c = '.' ∧ rest = after).1 hc
        | cons d front' =>
          simp only [List.cons_append, List.cons.injEq] at heq
          exact absurd (heq.2 ▸ by simp : '.' ∈ rest) hno

end JavaSource.Text

namespace JavaSource

/-- A dotted name split at its last dot into package and simple name. A name without a
    dot has the empty package. -/
def splitQualified (name : String) : String × String :=
  match Text.splitLastDot name.toList with
  | some (package, simpleName) => (String.ofList package, String.ofList simpleName)
  | none => ("", name)

theorem splitQualified_append (package : String) {simpleName : String}
    (h : '.' ∉ simpleName.toList) :
    splitQualified (package ++ "." ++ simpleName) = (package, simpleName) := by
  have hsplit : Text.splitLastDot (package ++ "." ++ simpleName).toList =
      some (package.toList, simpleName.toList) := Text.splitLastDot_eq_some_iff.mpr ⟨by simp, h⟩
  rw [splitQualified, hsplit]
  simp

theorem splitQualified_of_dot_notMem {name : String} (h : '.' ∉ name.toList) :
    splitQualified name = ("", name) := by
  rw [splitQualified, Text.splitLastDot_eq_none_iff.mpr h]

/-- A name with a dot has a last one. -/
theorem exists_append_of_dot_mem {name : String} (h : '.' ∈ name.toList) :
    ∃ package simpleName : String, '.' ∉ simpleName.toList ∧
      name = package ++ "." ++ simpleName := by
  cases hsplit : Text.splitLastDot name.toList with
  | none => exact absurd h (Text.splitLastDot_eq_none_iff.mp hsplit)
  | some parts =>
    obtain ⟨before, after⟩ := parts
    obtain ⟨hname, hafter⟩ := Text.splitLastDot_eq_some_iff.mp hsplit
    refine ⟨String.ofList before, String.ofList after, by rwa [String.toList_ofList], ?_⟩
    rw [← String.toList_inj, hname]
    simp

end JavaSource
